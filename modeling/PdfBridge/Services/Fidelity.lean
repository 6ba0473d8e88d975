import PdfBridge.Foundation.Runs
import PdfBridge.Services.MarkdownFormatter
import PdfBridge.Services.MarkdownStructure
import Mathlib.Data.List.Forall2

/-! The validation of one formatter response: its shape, the structure of its Markdown, and the
fidelity of the Markdown to the source, compared as projections to letter and number runs. -/
namespace PdfBridge
namespace MarkdownFormatter
open Unicode MarkdownChunking Runs

/-! ### The projection -/

inductive TokenKind where
  | word | number
deriving DecidableEq

def asciiCategory (c : CodePoint) : Category TokenKind :=
  if (0x41 ≤ c.val ∧ c.val ≤ 0x5a) ∨ (0x61 ≤ c.val ∧ c.val ≤ 0x7a) then .kind .word
  else if 0x30 ≤ c.val ∧ c.val ≤ 0x39 then .kind .number
  else .other

/-- `unicodedata.category`, as far as the projection reads it: letters, numbers, marks, and the
rest. Whitespace is none of the first three. -/
structure Categories where
  of : CodePoint → Category TokenKind
  ascii : ∀ c : CodePoint, c.val < 0x80 → of c = asciiCategory c
  space : ∀ c : CodePoint, isSpace c = true → of c = .other

/-- The lines with those that open or close a fenced block blanked. -/
def blankFences : Option Marker → List Str → List Str
  | _, [] => []
  | none, line :: lines =>
      match formatterFence line with
      | some (marker,_) => [] :: blankFences (some marker) lines
      | none => line :: blankFences none lines
  | some m, line :: lines =>
      if closes m line then [] :: blankFences none lines else line :: blankFences (some m) lines

/-- `_remove_fence_markers`. -/
def removeFenceMarkers (markdown : Str) : Str :=
  joinLines (blankFences none (splitNewline markdown))

/-- `fidelity_projection`. -/
def fidelityProjection (n : Normalization) (categories : Categories) (text : Str)
    (markdown : Bool) : List Str :=
  let normalized := n.nfkc text
  runs categories.of (if markdown then removeFenceMarkers normalized else normalized)

/-! ### Responses -/

structure SourceSlice where
  pageNumber : ℕ
  sliceIndex : ℕ
  text : Str
  textSha256 : Digest
deriving DecidableEq

structure ProjectionCheck where
  pageNumber : ℕ
  sliceIndex : ℕ
  sourceProjectionSha256 : Digest
  markdownProjectionSha256 : Digest
deriving DecidableEq

structure FormattedSlice where
  pageNumber : ℕ
  sliceIndex : ℕ
  sourceText : Str
  sourceTextSha256 : Digest
  markdown : Str
  sourceProjectionSha256 : Digest
  markdownProjectionSha256 : Digest
deriving DecidableEq

/-- The codes of `_AttemptRejected` that the validation of a response raises. -/
inductive RejectionCode where
  | responseJson | responseShape | responseCoverage | responseOrder | responseHash
  | markdownControl | markdownEmpty
  | structural (e : StructureError)
  | fidelityMismatch
deriving DecidableEq

/-- What the validation raises: `_AttemptRejected`, or an exception that nothing catches. -/
inductive OutputError where
  | rejected (code : RejectionCode) (projections : List ProjectionCheck)
  | assertion
  | recursion
deriving DecidableEq

/-- What the formatter takes from the standard library. The decoder of JSON returns a value, or
`none` for a `ValueError`, or raises a `RecursionError`. -/
structure Library where
  normalization : Normalization
  categories : Categories
  casefold : Str → Str
  sha256 : Str → Digest
  projectionHash : List Str → Digest
  loads : Str → Except Unit (Option Json)

def reject {α : Type} (code : RejectionCode) : Except OutputError α := .error (.rejected code [])

def expect (b : Bool) (code : RejectionCode) : Except OutputError Unit :=
  if b then .ok () else reject code

/-- `_exact_keys`. -/
def exactKeys (fields : List (Str × Json)) (expected : List String) : Except OutputError Unit :=
  expect (fields.all (fun f => expected.any fun k => f.1 = str k) &&
    expected.all fun k => fields.any fun f => f.1 = str k) .responseShape

/-- An `int` that is no `bool` and equals a number. -/
def isStrictInt (n : ℕ) : Json → Bool
  | .int z => z = n
  | _ => false

def isString (s : Str) : Json → Bool
  | .str t => t = s
  | _ => false

/-- `_normalize_markdown`. -/
def normalizeMarkdown (n : Normalization) (markdown : Str) : Except OutputError Str := do
  let normalized := n.nfkc (universalNewlines markdown)
  expect (!normalized.any isDisallowedControl) .markdownControl
  let normalized := strip normalized
  expect (normalized ≠ []) .markdownEmpty
  pure normalized

def FormattedSlice.check (x : FormattedSlice) : ProjectionCheck :=
  ⟨x.pageNumber,x.sliceIndex,x.sourceProjectionSha256,x.markdownProjectionSha256⟩

/-- `_fidelity_check`, after the slices that are done. -/
def fidelityCheck (lib : Library) (done : List FormattedSlice) (source : SourceSlice)
    (markdown : Str) : Except OutputError FormattedSlice :=
  let sourceTokens := fidelityProjection lib.normalization lib.categories source.text false
  let markdownTokens := fidelityProjection lib.normalization lib.categories markdown true
  let formatted : FormattedSlice :=
    { pageNumber := source.pageNumber, sliceIndex := source.sliceIndex,
      sourceText := source.text, sourceTextSha256 := source.textSha256, markdown := markdown,
      sourceProjectionSha256 := lib.projectionHash sourceTokens,
      markdownProjectionSha256 := lib.projectionHash markdownTokens }
  if sourceTokens = markdownTokens then .ok formatted
  else .error (.rejected .fidelityMismatch
    (done.map FormattedSlice.check ++ [formatted.check]))

def structureCheck (lib : Library) (markdown source : Str) : Except OutputError Unit :=
  match validateMarkdownStructure lib.casefold markdown source with
  | .ok () => .ok ()
  | .error e => reject (.structural e)

def validateSlice (lib : Library) (done : List FormattedSlice) (actual : Json)
    (expected : SourceSlice) : Except OutputError FormattedSlice :=
  match actual with
  | .obj fields => do
      exactKeys fields ["slice_index","source_text_sha256","markdown"]
      expect (isStrictInt expected.sliceIndex (Json.get? fields "slice_index")) .responseOrder
      expect (isString (str expected.textSha256.hex) (Json.get? fields "source_text_sha256"))
        .responseHash
      match Json.get? fields "markdown" with
      | .str raw => do
          let markdown ← normalizeMarkdown lib.normalization raw
          structureCheck lib markdown expected.text
          fidelityCheck lib done expected markdown
      | _ => reject .responseShape
  | _ => reject .responseShape

def validateSlices (lib : Library) :
    List FormattedSlice → List (Json × SourceSlice) → Except OutputError (List FormattedSlice)
  | done, [] => .ok done
  | done, (actual,expected) :: rest => do
      let formatted ← validateSlice lib done actual expected
      validateSlices lib (done ++ [formatted]) rest

/-- The slices of one requested page. -/
structure ExpectedPage where
  pageNumber : ℕ
  slices : List SourceSlice

/-- `_group_slices`: neighbours of one page stand together. -/
def groupSlices : List SourceSlice → List ExpectedPage
  | [] => []
  | x :: xs =>
      match groupSlices xs with
      | page :: pages =>
          if page.pageNumber = x.pageNumber then ⟨x.pageNumber,x :: page.slices⟩ :: pages
          else ⟨x.pageNumber,[x]⟩ :: page :: pages
      | [] => [⟨x.pageNumber,[x]⟩]

def validatePages (lib : Library) :
    List FormattedSlice → List (Json × ExpectedPage) → Except OutputError (List FormattedSlice)
  | done, [] => .ok done
  | done, (.obj fields,expected) :: rest => do
      exactKeys fields ["page_number","slices"]
      expect (isStrictInt expected.pageNumber (Json.get? fields "page_number")) .responseOrder
      match Json.get? fields "slices" with
      | .arr actual => do
          expect (actual.length = expected.slices.length) .responseCoverage
          let done ← validateSlices lib done (actual.zip expected.slices)
          validatePages lib done rest
      | _ => reject .responseCoverage
  | _, _ :: _ => reject .responseShape

/-- `_validate_output`. The source of a page and slice number is the slice itself, since no two
slices have the same numbers. -/
def validateOutput (lib : Library) (content : Str) (slices : List SourceSlice) :
    Except OutputError (List FormattedSlice) :=
  if (slices.map fun x => (x.pageNumber,x.sliceIndex)).Nodup then
    match lib.loads content with
    | .error () => .error .recursion
    | .ok none => reject .responseJson
    | .ok (some (.obj payload)) => do
        exactKeys payload ["pages"]
        match Json.get? payload "pages" with
        | .arr pages => do
            expect (pages.length = (groupSlices slices).length) .responseCoverage
            validatePages lib [] (pages.zip (groupSlices slices))
        | _ => reject .responseCoverage
    | .ok (some _) => reject .responseShape
  else .error .assertion

/-! ### What an accepted response is -/

section Accepted
variable {lib : Library} {done formatted : List FormattedSlice} {x : FormattedSlice}
  {slice : SourceSlice} {slices : List SourceSlice}

/-- A formatted slice that the validation accepted for a source slice. -/
structure Accepted (lib : Library) (slice : SourceSlice) (x : FormattedSlice) : Prop where
  pageNumber : x.pageNumber = slice.pageNumber
  sliceIndex : x.sliceIndex = slice.sliceIndex
  sourceText : x.sourceText = slice.text
  normalized : ∃ raw, normalizeMarkdown lib.normalization raw = .ok x.markdown
  structural : validateMarkdownStructure lib.casefold x.markdown slice.text = .ok ()
  fidelity : fidelityProjection lib.normalization lib.categories slice.text false =
    fidelityProjection lib.normalization lib.categories x.markdown true

theorem validateSlice_accepted {actual : Json}
    (h : validateSlice lib done actual slice = .ok x) : Accepted lib slice x := by
  unfold validateSlice at h
  split at h
  case h_2 => cases h
  rename_i fields
  cases hkeys : exactKeys fields ["slice_index","source_text_sha256","markdown"] with
  | error e => simp [hkeys, bind, Except.bind] at h
  | ok _ =>
  cases hindex : expect (isStrictInt slice.sliceIndex (Json.get? fields "slice_index"))
      .responseOrder with
  | error e => simp [hkeys, hindex, bind, Except.bind] at h
  | ok _ =>
  cases hhash : expect (isString (str slice.textSha256.hex)
      (Json.get? fields "source_text_sha256")) .responseHash with
  | error e => simp [hkeys, hindex, hhash, bind, Except.bind] at h
  | ok _ =>
  simp only [hkeys, hindex, hhash, bind, Except.bind] at h
  split at h
  case h_2 => cases h
  rename_i raw _
  cases hnormalized : normalizeMarkdown lib.normalization raw with
  | error e => simp [hnormalized] at h
  | ok markdown =>
  simp only [hnormalized] at h
  unfold structureCheck at h
  cases hstructure : validateMarkdownStructure lib.casefold markdown slice.text with
  | error e => simp [hstructure, reject] at h
  | ok _ =>
  simp only [hstructure, fidelityCheck] at h
  split at h
  case isFalse => cases h
  rename_i hfidelity
  cases h
  exact ⟨rfl,rfl,rfl,⟨raw,hnormalized⟩,hstructure,hfidelity⟩

theorem validateSlices_accepted {actual : List Json} (hlen : actual.length = slices.length)
    (h : validateSlices lib done (actual.zip slices) = .ok formatted) :
    ∃ rest, formatted = done ++ rest ∧ List.Forall₂ (Accepted lib) slices rest := by
  induction slices generalizing actual done with
  | nil =>
    rw [List.zip_nil_right] at h
    cases h
    exact ⟨[],(List.append_nil _).symm,List.Forall₂.nil⟩
  | cons slice slices ih =>
    cases actual with
    | nil => cases hlen
    | cons a actual =>
      rw [List.zip_cons_cons, validateSlices] at h
      cases hx : validateSlice lib done a slice with
      | error e => simp [hx, bind, Except.bind] at h
      | ok x =>
        simp only [hx, bind, Except.bind] at h
        obtain ⟨rest,rfl,hrest⟩ := ih (Nat.succ.inj hlen) h
        exact ⟨x :: rest,List.append_assoc _ _ _,
          List.Forall₂.cons (validateSlice_accepted hx) hrest⟩

theorem flatMap_groupSlices : (groupSlices slices).flatMap (·.slices) = slices := by
  induction slices with
  | nil => rfl
  | cons x xs ih =>
    unfold groupSlices
    cases hgroup : groupSlices xs with
    | nil =>
      rw [hgroup] at ih
      rw [← ih]
      rfl
    | cons page pages =>
      rw [hgroup] at ih
      rw [← ih]
      by_cases hpage : page.pageNumber = x.pageNumber
      · simp [hpage]
      · simp [hpage]

theorem validatePages_accepted {pages : List Json} {expected : List ExpectedPage}
    (hlen : pages.length = expected.length)
    (h : validatePages lib done (pages.zip expected) = .ok formatted) :
    ∃ rest, formatted = done ++ rest ∧
      List.Forall₂ (Accepted lib) (expected.flatMap (·.slices)) rest := by
  induction expected generalizing pages done with
  | nil =>
    rw [List.zip_nil_right] at h
    cases h
    exact ⟨[],(List.append_nil _).symm,List.Forall₂.nil⟩
  | cons page expected ih =>
    cases pages with
    | nil => cases hlen
    | cons p pages =>
      rw [List.zip_cons_cons] at h
      cases p with
      | null | bool | int | float | str | arr => cases h
      | obj fields =>
        rw [validatePages] at h
        cases hkeys : exactKeys fields ["page_number","slices"] with
        | error e => simp [hkeys, bind, Except.bind] at h
        | ok _ =>
        cases hnumber : expect (isStrictInt page.pageNumber (Json.get? fields "page_number"))
            .responseOrder with
        | error e => simp [hkeys, hnumber, bind, Except.bind] at h
        | ok _ =>
        simp only [hkeys, hnumber, bind, Except.bind] at h
        split at h
        case h_2 => cases h
        rename_i actual _
        by_cases hcount : actual.length = page.slices.length
        · simp only [expect, hcount, decide_true, if_true] at h
          cases hslices : validateSlices lib done (actual.zip page.slices) with
          | error e => simp [hslices] at h
          | ok done' =>
            simp only [hslices] at h
            obtain ⟨xs,rfl,hxs⟩ := validateSlices_accepted hcount hslices
            obtain ⟨ys,rfl,hys⟩ := ih (Nat.succ.inj hlen) h
            refine ⟨xs ++ ys,List.append_assoc _ _ _,?_⟩
            rw [List.flatMap_cons]
            exact List.rel_append hxs hys
        · simp [expect, hcount, reject] at h

/-- The accepted slices are those of the request in its order. -/
theorem validateOutput_accepted {content : Str}
    (h : validateOutput lib content slices = .ok formatted) :
    List.Forall₂ (Accepted lib) slices formatted := by
  unfold validateOutput at h
  split at h
  case isFalse => cases h
  split at h
  case h_1 => cases h
  case h_2 => cases h
  case h_4 => cases h
  rename_i payload _
  cases hkeys : exactKeys payload ["pages"] with
  | error e => simp [hkeys, bind, Except.bind] at h
  | ok _ =>
  simp only [hkeys, bind, Except.bind] at h
  split at h
  case h_2 => cases h
  rename_i pages _
  by_cases hcount : pages.length = (groupSlices slices).length
  · simp only [expect, hcount, decide_true, if_true] at h
    obtain ⟨rest,rfl,hrest⟩ := validatePages_accepted hcount h
    rw [flatMap_groupSlices] at hrest
    exact hrest
  · simp [expect, hcount, reject] at h

end Accepted

/-! ### Words of the published text -/

/-- What follows the first word of an info string. -/
def afterLanguage (info : Str) : Str :=
  (info.dropWhile isSpace).dropWhile fun c => !isSpace c

/-- The lines with the language identifier of each line that opens a fenced block dropped. -/
def dropLanguages : Option Marker → List Str → List Str
  | _, [] => []
  | none, line :: lines =>
      match formatterFence line with
      | some (marker,info) =>
          (line.take (line.length - info.length) ++ afterLanguage info) ::
            dropLanguages (some marker) lines
      | none => line :: dropLanguages none lines
  | some m, line :: lines => line :: dropLanguages (if closes m line then none else some m) lines

/-- The info strings of the lines that open a fenced block. -/
def infoStrings : Option Marker → List Str → List Str
  | _, [] => []
  | none, line :: lines =>
      match formatterFence line with
      | some (marker,info) => info :: infoStrings (some marker) lines
      | none => infoStrings none lines
  | some m, line :: lines => infoStrings (if closes m line then none else some m) lines

/-- The letter and number runs of the Markdown, all lines included and language identifiers
left out, are those of the source. -/
def NothingInvented (n : Normalization) (categories : Categories) (source markdown : Str) : Prop :=
  runs categories.of (n.nfkc source) =
    runs categories.of (joinLines (dropLanguages none (splitNewline (n.nfkc markdown))))

/-- No line that opens a fenced block has a letter or a number after its first word. -/
def PlainFences (n : Normalization) (categories : Categories) (markdown : Str) : Prop :=
  ∀ info, info ∈ infoStrings none (splitNewline (n.nfkc markdown)) →
    Silent categories.of (afterLanguage info)

section Words
variable {n : Normalization} {categories : Categories} {m : Marker} {open_ : Option Marker}
  {line info source markdown : Str} {lines : List Str}

theorem newline_other : categories.of newline = .other := categories.space newline (by decide)

theorem runs_joinLines : runs categories.of (joinLines lines) = lines.flatMap (runs categories.of) := by
  induction lines with
  | nil => rfl
  | cons l lines ih =>
    cases lines with
    | nil => simp [joinLines]
    | cons l' lines =>
      have hjoin : joinLines (l :: l' :: lines) = l ++ newline :: joinLines (l' :: lines) := by
        simp [joinLines, List.intercalate]
      rw [hjoin, runs_append_cons newline_other, ih]
      rfl

/-- Spaces and the characters of fences begin no run. -/
theorem silent_marker {c : CodePoint} (hc : c = 0x20 ∨ c = backtick ∨ c = tilde)
    (k : TokenKind) : categories.of c ≠ .kind k := by
  have hascii : categories.of c = asciiCategory c := by
    refine categories.ascii c ?_
    rcases hc with rfl | rfl | rfl <;> decide
  rw [hascii]
  rcases hc with rfl | rfl | rfl <;> cases k <;> decide

theorem silent_blank (h : isBlank line = true) : Silent categories.of line := by
  intro c hc k hk
  rw [categories.space c (List.all_eq_true.1 h c hc)] at hk
  cases hk

theorem mem_leadingRun {c x : CodePoint} {s : Str} (hx : x ∈ s.take (leadingRun c s)) : x = c := by
  have htake : s.take (leadingRun c s) = s.takeWhile (· = c) := by
    rw [leadingRun]
    exact (List.prefix_iff_eq_take.1 (List.takeWhile_prefix _)).symm
  rw [htake] at hx
  simpa using List.mem_takeWhile_imp hx

/-- A fence line is a silent text before its info string. -/
theorem formatterFence_split (h : formatterFence line = some (m,info)) :
    ∃ mark, line = mark ++ info ∧ Silent categories.of mark := by
  unfold formatterFence at h
  dsimp only at h
  split at h
  case isFalse => cases h
  have hline := List.take_append_drop (leadingRun 0x20 line) line
  generalize hrest : line.drop (leadingRun 0x20 line) = rest at h hline
  cases rest with
  | nil => cases h
  | cons c s =>
    unfold markerRun at h
    dsimp only at h
    split at h
    case isFalse => cases h
    rename_i hmarker
    cases h
    refine ⟨line.take (leadingRun 0x20 line) ++ (c :: s).take (leadingRun c (c :: s)),?_,?_⟩
    · rw [List.append_assoc, List.take_append_drop]
      exact hline.symm
    · intro x hx
      rcases List.mem_append.1 hx with hx | hx
      · exact silent_marker (Or.inl (mem_leadingRun hx))
      · rw [mem_leadingRun hx]
        exact silent_marker (Or.inr hmarker.1)

theorem silent_closes (h : closes m line = true) : Silent categories.of line := by
  unfold closes at h
  split at h
  case h_2 => cases h
  rename_i marker info hfence
  simp only [Bool.and_eq_true] at h
  obtain ⟨mark,rfl,hmark⟩ := @formatterFence_split categories _ _ _ hfence
  intro c hc
  rcases List.mem_append.1 hc with hc | hc
  · exact hmark c hc
  · exact silent_blank h.2 c hc

/-- The runs of a text whose opening lines keep nothing but their first word. -/
theorem runs_dropLanguages :
    ((∀ info, info ∈ infoStrings open_ lines → Silent categories.of (afterLanguage info)) →
      (dropLanguages open_ lines).flatMap (runs categories.of) =
        (blankFences open_ lines).flatMap (runs categories.of)) ∧
    ((blankFences open_ lines).flatMap (runs categories.of)).length ≤
      ((dropLanguages open_ lines).flatMap (runs categories.of)).length ∧
    ((∃ info, info ∈ infoStrings open_ lines ∧ ¬ Silent categories.of (afterLanguage info)) →
      ((blankFences open_ lines).flatMap (runs categories.of)).length <
        ((dropLanguages open_ lines).flatMap (runs categories.of)).length) := by
  induction lines generalizing open_ with
  | nil => cases open_ <;> exact ⟨fun _ => rfl,le_refl _,fun ⟨_,h,_⟩ => absurd h List.not_mem_nil⟩
  | cons line lines ih =>
    cases open_ with
    | some m =>
      simp only [dropLanguages, blankFences, infoStrings]
      by_cases hcloses : closes m line = true
      · have hsilent : runs categories.of line = [] :=
          runs_eq_nil_iff.2 (silent_closes hcloses)
        simp only [hcloses, if_true, List.flatMap_cons, hsilent, runs_nil, List.nil_append]
        exact ih
      · simp only [hcloses, if_false, List.flatMap_cons, List.length_append,
          Nat.add_le_add_iff_left, Nat.add_lt_add_iff_left, Bool.false_eq_true,
          List.append_cancel_left_eq]
        exact ih
    | none =>
      simp only [dropLanguages, blankFences, infoStrings]
      cases hfence : formatterFence line with
      | none =>
        simp only [List.flatMap_cons, List.length_append, Nat.add_le_add_iff_left,
          Nat.add_lt_add_iff_left, List.append_cancel_left_eq]
        exact ih
      | some x =>
        obtain ⟨marker,info⟩ := x
        obtain ⟨mark,rfl,hmark⟩ := @formatterFence_split categories _ _ _ hfence
        have htake : (mark ++ info).take ((mark ++ info).length - info.length) = mark := by
          rw [List.length_append, Nat.add_sub_cancel, List.take_left']
          rfl
        have hline : runs categories.of ((mark ++ info).take
            ((mark ++ info).length - info.length) ++ afterLanguage info) =
            runs categories.of (afterLanguage info) := by
          rw [htake, runs_silent_append hmark]
        obtain ⟨hsame,hle,hlt⟩ := @ih (some marker)
        simp only [List.flatMap_cons, hline, runs_nil, List.nil_append]
        simp only [List.length_append]
        refine ⟨fun h => ?_,by omega,?_⟩
        · obtain ⟨hinfo,hrest⟩ := List.forall_mem_cons.1 h
          rw [runs_eq_nil_iff.2 hinfo, List.nil_append]
          exact hsame hrest
        · rintro ⟨x,hx,hwords⟩
          rcases List.mem_cons.1 hx with rfl | hx
          · have hpos : 0 < (runs categories.of (afterLanguage x)).length :=
              List.length_pos_iff.2 fun hnil => hwords (runs_eq_nil_iff.1 hnil)
            omega
          · have := hlt ⟨x,hx,hwords⟩
            omega

/-- Markdown with the fidelity of the source invents nothing exactly when its fences are plain. -/
theorem nothingInvented_iff (h : fidelityProjection n categories source false =
    fidelityProjection n categories markdown true) :
    NothingInvented n categories source markdown ↔ PlainFences n categories markdown := by
  have hsource : runs categories.of (n.nfkc source) =
      (blankFences none (splitNewline (n.nfkc markdown))).flatMap (runs categories.of) := by
    rw [← runs_joinLines]
    exact h
  unfold NothingInvented PlainFences
  rw [hsource, runs_joinLines]
  obtain ⟨hsame,-,hlt⟩ := @runs_dropLanguages categories none (splitNewline (n.nfkc markdown))
  constructor
  · intro heq
    by_contra hinfo
    push Not at hinfo
    have hless := hlt hinfo
    rw [heq] at hless
    exact absurd hless (lt_irrefl _)
  · exact fun hinfo => (hsame hinfo).symm

end Words

/-- Every accepted slice of a response has the words and numbers of its source and no others,
language identifiers apart, exactly when its fences are plain. -/
theorem output_invents_nothing {lib : Library} {content : Str} {slices : List SourceSlice}
    {formatted : List FormattedSlice} (h : validateOutput lib content slices = .ok formatted) :
    List.Forall₂ (fun slice x => x.pageNumber = slice.pageNumber ∧
      x.sliceIndex = slice.sliceIndex ∧ x.sourceText = slice.text ∧
      (NothingInvented lib.normalization lib.categories slice.text x.markdown ↔
        PlainFences lib.normalization lib.categories x.markdown)) slices formatted :=
  (validateOutput_accepted h).imp fun _ _ ha =>
    ⟨ha.pageNumber,ha.sliceIndex,ha.sourceText,nothingInvented_iff ha.fidelity⟩

/-! ### Words on a fence line -/

/-- Only ASCII characters are letters or numbers. -/
def asciiCategories : Categories where
  of := fun c => if c.val < 0x80 then asciiCategory c else .other
  ascii := fun c hc => if_pos hc
  space := fun c hc => by
    simp only [isSpace, Bool.or_eq_true, Bool.and_eq_true, decide_eq_true_eq] at hc
    split
    · unfold asciiCategory
      split
      · omega
      · split
        · omega
        · rfl
    · rfl

/-- A response with one slice, as the model writes it and as it is decoded. -/
def sliceContent (markdown : String) : Str :=
  str ("\x7b\"pages\":[\x7b\"page_number\":1,\"slices\":[\x7b\"slice_index\":0," ++
    "\"source_text_sha256\":\"a\",\"markdown\":\"" ++ markdown ++ "\"\x7d]\x7d]\x7d")

def slicePayload (markdown : String) : Json :=
  .obj [(str "pages",.arr [.obj [(str "page_number",.int 1),
    (str "slices",.arr [.obj [(str "slice_index",.int 0),(str "source_text_sha256",.str (str "a")),
      (str "markdown",.str (str markdown))]])]])]

/-- The decoder on a response whose Markdown is written with escapes. -/
def sliceLibrary (written markdown : String) : Library where
  normalization := asciiNormalization
  categories := asciiCategories
  casefold := id
  sha256 := fun _ => ⟨"a"⟩
  projectionHash := fun _ => ⟨"b"⟩
  loads := fun content =>
    .ok (if content = sliceContent written then some (slicePayload markdown) else none)

def alphaSlice : SourceSlice := ⟨1,0,str "alpha",⟨"a"⟩⟩

def alphaFormatted (markdown : String) : FormattedSlice :=
  ⟨1,0,str "alpha",⟨"a"⟩,str markdown,⟨"b"⟩,⟨"b"⟩⟩

/-- Words after the language of an opening fence line are published and were never in the
source. -/
theorem fence_words_invented : ∃ (lib : Library) (content : Str) (slice : SourceSlice)
    (x : FormattedSlice), validateOutput lib content [slice] = .ok [x] ∧
    ¬ NothingInvented lib.normalization lib.categories slice.text x.markdown := by
  refine ⟨sliceLibrary "alpha\\n```text ninety invented words\\n```"
      "alpha\n```text ninety invented words\n```",
    sliceContent "alpha\\n```text ninety invented words\\n```",alphaSlice,
    alphaFormatted "alpha\n```text ninety invented words\n```",by decide +kernel,?_⟩
  unfold NothingInvented
  decide +kernel

/-- An accepted slice with a fenced block that names a language. -/
theorem output_invents_nothing_alpha : ∃ x : FormattedSlice,
    List.Forall₂ (fun (slice : SourceSlice) (x : FormattedSlice) =>
      x.pageNumber = slice.pageNumber ∧ x.sliceIndex = slice.sliceIndex ∧
      x.sourceText = slice.text ∧
      (NothingInvented asciiNormalization asciiCategories slice.text x.markdown ↔
        PlainFences asciiNormalization asciiCategories x.markdown)) [alphaSlice] [x] :=
  ⟨_,@output_invents_nothing (sliceLibrary "```text\\nalpha\\n```" "```text\nalpha\n```")
    (sliceContent "```text\\nalpha\\n```") [alphaSlice]
    [alphaFormatted "```text\nalpha\n```"] (by decide +kernel)⟩

end MarkdownFormatter
end PdfBridge
