import Mathlib.Data.List.Chain
import PdfBridge.Services.TableCells

/-! Formatter and chunker on tables. The lines of the chunker carry what the table check makes of
the line they come from; the two agree when every table of the chunker is one run of checked
lines and every checked line stands in one. -/
namespace PdfBridge
namespace MarkdownFormatter
open Unicode MarkdownChunking

/-- What a line is to the table check: not checked, the header of a run, one of its later lines, or
a checked line that is no single line of the chunker. -/
inductive Mark where
  | unchecked | header | body | torn
deriving DecidableEq

/-- The number of cells of a line. -/
def cellCount (line : Str) : Option ℕ := (pipeCells line).map List.length

/-- The line is a delimiter to the table check. -/
def isDelimiter : Option Str → Bool
  | some line =>
      match pipeCells line with
      | some (cell :: cells) => (cell :: cells).all delimiterLike
      | _ => false
  | none => false

/-- The line goes on with the rows of a table. -/
def continuesRows : Option Str → Bool
  | some line => !isBlank line && (pipeCells line).isSome
  | none => false

/-- The runs of lines that the table check reads; a delimiter among the rows of a run begins a
shorter run with the same end. -/
def checkedMarks : TableState → List (Option Str) → List Mark
  | _, [] => []
  | .text, _ :: lines =>
      if lines.head?.any isDelimiter then .header :: checkedMarks .delimiter lines
      else .unchecked :: checkedMarks .text lines
  | .delimiter, _ :: lines => .body :: checkedMarks .rows lines
  | .rows, line :: lines =>
      if continuesRows line then .body :: checkedMarks .rows lines
      else .unchecked :: checkedMarks .text lines

/-- `strip` of the page, line by line. -/
def trimFront : List (Mark × Str) → List (Mark × Str)
  | [] => []
  | (mark,line) :: lines =>
      if isBlank line then trimFront lines else (mark,lstrip line) :: lines

def trimBack : List (Mark × Str) → List (Mark × Str)
  | [] => []
  | (mark,line) :: lines =>
      match trimBack lines with
      | [] => if isBlank line then [] else [(mark,rstrip line)]
      | line' :: lines' => (mark,line) :: line' :: lines'

/-- The chunker's lines within one line of the formatter. -/
def tear (x : Mark × Str) : List (Mark × Str) :=
  match splitlines (x.2 ++ [newline]) with
  | [piece] => [(x.1,piece)]
  | pieces => pieces.map fun piece => (if x.1 = .unchecked then .unchecked else .torn,piece)

/-- The chunker's lines with the marks of the lines they come from. -/
def markedLines (lines : List (Option Str)) (markdown : Str) : List (Mark × Str) :=
  (trimBack (trimFront ((checkedMarks .text lines).zip (splitNewline markdown)))).flatMap tear

/-- What the marks of a block are when its tables are the checked runs. -/
def groupMarks : Kind × List (Mark × Str) → List Mark
  | (.table,_ :: lines) => .header :: lines.map fun _ => .body
  | (_,lines) => lines.map fun _ => .unchecked

/-- The tables of the chunker are the checked runs, and no heading or opening fence line stands
among the rows. -/
structure GroupsAgree (lines : List (Mark × Str)) : Prop where
  runs : (groups Prod.snd lines).flatMap groupMarks = lines.map Prod.fst
  rows : ∀ g ∈ groups Prod.snd lines, g.1 = .table →
    ∀ x ∈ g.2.drop 2, headingMatch x.2 = none ∧ fenceMatch x.2 = none

/-- Moreover every line of a table has as many cells as its header. -/
structure TablesAgree (lines : List (Mark × Str)) : Prop extends GroupsAgree lines where
  width : ∀ g ∈ groups Prod.snd lines, g.1 = .table →
    ∃ width, ∀ x ∈ g.2, cellCount x.2 = some width

/-! ### The condition on the lines -/

/-- A line of the chunker with its mark, and whether it stands in a fence of the chunker. -/
structure Standing where
  fenced : Bool
  mark : Mark
  text : Str

/-- A fence of the chunker reaches from an opening fence line to the first line behind it that
begins with its marker. -/
def standing : Option Marker → List (Mark × Str) → List Standing
  | _, [] => []
  | none, (mark,line) :: lines =>
      ⟨(fenceMatch line).isSome,mark,line⟩ :: standing (fenceMatch line) lines
  | some m, (mark,line) :: lines =>
      ⟨true,mark,line⟩ :: standing (if closesFence m line then none else some m) lines

/-- A checked line is one line of the chunker, outside its fences and no heading. -/
def Sound (x : Standing) : Prop :=
  x.mark ≠ .unchecked → x.mark ≠ .torn ∧ x.fenced = false ∧ headingMatch x.text = none

/-- Two lines in a row. The delimiter of a header does not end in an escaped pipe; no line with a
pipe that is not checked stands before a separator line, such as one with two pipes on a side; and
the line behind a table has no pipe, not even an escaped one. -/
@[mk_iff]
structure Follows (x y : Standing) : Prop where
  delimiter : x.mark = .header → endsEscaped y.text = false
  plain : x.mark = .unchecked → x.fenced = false → headingMatch x.text = none →
    pipe ∈ x.text → isTableSeparator y.text = false
  past : x.mark = .body → y.mark = .unchecked → isBlank y.text = true ∨ pipe ∉ y.text

/-- Every line is sound and follows the line before it. -/
structure Apart (fence : Option Marker) (lines : List (Mark × Str)) : Prop where
  sound : ∀ x ∈ standing fence lines, Sound x
  follows : (standing fence lines).IsChain Follows

/-! ### Reading line by line -/

/-- Where the chunker stands when it comes to a line. -/
inductive Reading where
  | text | delimiter | rows
  | fence (m : Marker)

/-- The line begins a table of the chunker. -/
def opensTable (x : Mark × Str) (lines : List (Mark × Str)) : Bool :=
  (headingMatch x.2).isNone && (fenceMatch x.2).isNone && startsTable Prod.snd (x :: lines)

def afterLine (line : Str) : Reading :=
  match fenceMatch line with
  | some m => .fence m
  | none => .text

/-- The marks are those of the tables that the chunker captures. -/
def Aligned : Reading → List (Mark × Str) → Prop
  | _, [] => True
  | .text, x :: lines =>
      if opensTable x lines = true then x.1 = .header ∧ Aligned .delimiter lines
      else x.1 = .unchecked ∧ Aligned (afterLine x.2) lines
  | .delimiter, x :: lines => x.1 = .body ∧ Aligned .rows lines
  | .rows, x :: lines =>
      if isTableRow x.2 = true then
        (x.1 = .body ∧ headingMatch x.2 = none ∧ fenceMatch x.2 = none) ∧ Aligned .rows lines
      else x.1 = .unchecked ∧ Aligned (afterLine x.2) lines
  | .fence m, x :: lines =>
      x.1 = .unchecked ∧ Aligned (if closesFence m x.2 then .text else .fence m) lines

variable {x : Mark × Str} {lines rest : List (Mark × Str)} {g : Kind × List (Mark × Str)}
  {m : Marker} {line : Str}

/-! ### One group at a time -/

/-- A group agrees with the marks of its lines. -/
structure TableAgrees (g : Kind × List (Mark × Str)) : Prop where
  marks : groupMarks g = g.2.map Prod.fst
  rows : g.1 = .table → ∀ x ∈ g.2.drop 2, headingMatch x.2 = none ∧ fenceMatch x.2 = none

theorem groupMarks_length (hg : g.2 ≠ []) : (groupMarks g).length = g.2.length := by
  obtain ⟨kind,ls⟩ := g
  cases ls with
  | nil => exact absurd rfl hg
  | cons y ls => cases kind <;> simp [groupMarks]

/-- A group other than a table agrees when none of its lines is checked. -/
theorem tableAgrees_iff (h : g.1 ≠ .table) :
    TableAgrees g ↔ ∀ y ∈ g.2, y.1 = .unchecked := by
  have hmarks : groupMarks g = g.2.map fun _ => .unchecked := by
    obtain ⟨kind,ls⟩ := g
    cases kind with
    | table => exact absurd rfl h
    | _ => rfl
  constructor
  · intro hg y hy
    have heq := hg.marks
    rw [hmarks, List.map_inj_left] at heq
    exact (heq y hy).symm
  · intro hall
    refine ⟨?_,fun hk => absurd hk h⟩
    rw [hmarks, List.map_inj_left]
    exact fun y hy => (hall y hy).symm

theorem groupsAgree_cons : GroupsAgree (x :: lines) ↔
    TableAgrees (nextGroup Prod.snd x lines).1 ∧ GroupsAgree (nextGroup Prod.snd x lines).2 := by
  have happend := @nextGroup_append _ Prod.snd x lines
  have hne : (nextGroup Prod.snd x lines).1.2 ≠ [] := by
    rcases @nextGroup_first _ Prod.snd x lines with ⟨-,hg⟩ | ⟨-,-,more,hg⟩ <;> rw [hg] <;> simp
  have hsplit : (groups Prod.snd (x :: lines)).flatMap groupMarks = (x :: lines).map Prod.fst ↔
      groupMarks (nextGroup Prod.snd x lines).1 = (nextGroup Prod.snd x lines).1.2.map Prod.fst ∧
      (groups Prod.snd (nextGroup Prod.snd x lines).2).flatMap groupMarks =
        (nextGroup Prod.snd x lines).2.map Prod.fst := by
    rw [groups_cons, ← happend, List.flatMap_cons, List.map_append]
    constructor
    · intro h
      exact List.append_inj h (by rw [groupMarks_length hne, List.length_map])
    · rintro ⟨hmarks,hrest⟩
      rw [hmarks, hrest]
  constructor
  · rintro ⟨hruns,hrows⟩
    rw [groups_cons, List.forall_mem_cons] at hrows
    obtain ⟨hmarks,hrest⟩ := hsplit.1 hruns
    exact ⟨⟨hmarks,hrows.1⟩,hrest,hrows.2⟩
  · rintro ⟨⟨hmarks,hg⟩,hrest,hrows⟩
    refine ⟨hsplit.2 ⟨hmarks,hrest⟩,?_⟩
    rw [groups_cons]
    exact List.forall_mem_cons.2 ⟨hg,hrows⟩

theorem pipe_not_blank (h : isBlank line = true) : pipe ∉ line := by
  intro hp
  have hspace := List.all_eq_true.1 h pipe hp
  rw [isSpace_pipe] at hspace
  cases hspace

theorem startsTable_pipe (h : startsTable Prod.snd (x :: lines) = true) : pipe ∈ x.2 := by
  cases lines with
  | nil => cases h
  | cons next rest =>
    rw [startsTable, isTableStart, Bool.and_eq_true] at h
    simpa using h.1

theorem isTableRow_false (h : ¬ isTableRow line = true) : isBlank line = true ∨ pipe ∉ line := by
  by_contra hno
  simp only [not_or, not_not, Bool.not_eq_true] at hno
  exact h (by simp [isTableRow, hno])

theorem opensTable_row (h : ¬ isTableRow x.2 = true) : ¬ opensTable x lines = true := by
  intro ho
  rw [opensTable, Bool.and_eq_true] at ho
  have hpipe := startsTable_pipe ho.2
  rcases isTableRow_false h with hb | hp
  · exact pipe_not_blank hb hpipe
  · exact hp hpipe

/-- Behind a table, a line that is no row is read as text. -/
theorem aligned_rows_text (h : ∀ y ∈ lines.head?, ¬ isTableRow y.2 = true) :
    Aligned .rows lines ↔ Aligned .text lines := by
  cases lines with
  | nil => exact Iff.rfl
  | cons y lines =>
    have hrow := h y rfl
    rw [Aligned, if_neg (opensTable_row hrow), Aligned, if_neg hrow]

/-- The rows of a table. -/
theorem aligned_rows : Aligned .rows lines ↔
    (∀ y ∈ (captureRows Prod.snd lines).1,
      y.1 = .body ∧ headingMatch y.2 = none ∧ fenceMatch y.2 = none) ∧
      Aligned .text (captureRows Prod.snd lines).2 := by
  induction lines with
  | nil => simp [captureRows, Aligned]
  | cons y lines ih =>
    by_cases hrow : isTableRow y.2 = true
    · rw [captureRows, if_pos hrow, Aligned, if_pos hrow, List.forall_mem_cons, ih, ← and_assoc]
    · have hhead : ∀ z ∈ (y :: lines).head?, ¬ isTableRow z.2 = true := by
        rintro z ⟨⟩
        exact hrow
      rw [aligned_rows_text hhead, captureRows, if_neg hrow]
      simp

/-- The lines of a fence of the chunker. -/
theorem aligned_fence : Aligned (.fence m) lines ↔
    (∀ y ∈ (captureFence Prod.snd m lines).1, y.1 = .unchecked) ∧
      Aligned .text (captureFence Prod.snd m lines).2 := by
  induction lines with
  | nil => simp [captureFence, Aligned]
  | cons y lines ih =>
    by_cases hc : closesFence m y.2 = true
    · rw [captureFence, if_pos hc, Aligned, if_pos hc, List.forall_mem_singleton]
    · rw [captureFence, if_neg hc, Aligned, if_neg hc, List.forall_mem_cons, ih, and_assoc]

/-- The further lines of prose. -/
theorem aligned_prose : Aligned .text lines ↔
    (∀ y ∈ (captureProse Prod.snd lines).1, y.1 = .unchecked) ∧
      Aligned .text (captureProse Prod.snd lines).2 := by
  induction lines with
  | nil => simp [captureProse, Aligned]
  | cons y lines ih =>
    unfold captureProse
    split
    · simp
    · rename_i hstop
      simp only [Bool.or_eq_true, not_or, Bool.not_eq_true, Option.isSome_eq_false_iff,
        Option.isNone_iff_eq_none] at hstop
      obtain ⟨⟨-,hfence⟩,htable⟩ := hstop
      have hopen : ¬ opensTable y lines = true := by
        simp [opensTable, htable]
      have hafter : afterLine y.2 = .text := by
        simp [afterLine, hfence]
      rw [Aligned, if_neg hopen, hafter, List.forall_mem_cons, ih, and_assoc]

/-- A group against the lines from its first one on. -/
theorem aligned_cons : Aligned .text (x :: lines) ↔
    TableAgrees (nextGroup Prod.snd x lines).1 ∧ Aligned .text (nextGroup Prod.snd x lines).2 := by
  by_cases hfence : (fenceMatch x.2).isSome = true
  · obtain ⟨m,hm⟩ := Option.isSome_iff_exists.1 hfence
    have hblank : isBlank x.2 = false := by
      rw [Bool.eq_false_iff]
      intro hb
      rw [fenceMatch_of_isBlank hb] at hm
      cases hm
    have hheading : (headingMatch x.2).isSome = false := by
      rw [Bool.eq_false_iff]
      intro hh
      rw [fenceMatch_of_heading hh] at hm
      cases hm
    have hgroup : nextGroup Prod.snd x lines =
        ((.fence,x :: (captureFence Prod.snd m lines).1),(captureFence Prod.snd m lines).2) := by
      simp [nextGroup, hblank, hheading, hm]
    have hopen : ¬ opensTable x lines = true := by
      simp [opensTable, hm]
    have hafter : afterLine x.2 = .fence m := by
      simp [afterLine, hm]
    rw [hgroup, tableAgrees_iff (by simp), List.forall_mem_cons, Aligned, if_neg hopen, hafter,
      aligned_fence, and_assoc]
  · rw [Option.not_isSome_iff_eq_none] at hfence
    have hafter : afterLine x.2 = .text := by
      simp [afterLine, hfence]
    have alone : ∀ {kind : Kind}, kind ≠ .table → ¬ opensTable x lines = true →
        nextGroup Prod.snd x lines = ((kind,[x]),lines) →
        (Aligned .text (x :: lines) ↔ TableAgrees (nextGroup Prod.snd x lines).1 ∧
          Aligned .text (nextGroup Prod.snd x lines).2) := by
      intro kind hkind hopen hgroup
      rw [hgroup, tableAgrees_iff hkind, List.forall_mem_singleton, Aligned, if_neg hopen, hafter]
    by_cases hblank : isBlank x.2 = true
    · refine alone (show Kind.blank ≠ .table by decide) ?_ (by simp [nextGroup, hblank])
      intro ho
      rw [opensTable, Bool.and_eq_true] at ho
      exact pipe_not_blank hblank (startsTable_pipe ho.2)
    · by_cases hheading : (headingMatch x.2).isSome = true
      · refine alone (show Kind.heading ≠ .table by decide) ?_
          (by simp [nextGroup, hblank, hheading])
        intro ho
        rw [opensTable, Bool.and_eq_true, Bool.and_eq_true, Option.isNone_iff_eq_none] at ho
        rw [ho.1.1] at hheading
        cases hheading
      · rw [Option.not_isSome_iff_eq_none] at hheading
        cases lines with
        | nil =>
          refine alone (show Kind.prose ≠ .table by decide) (by simp [opensTable, startsTable]) ?_
          simp [nextGroup, hblank, hheading, hfence]
        | cons next rest =>
          by_cases htable : isTableStart x.2 next.2 = true
          · have hgroup : nextGroup Prod.snd x (next :: rest) =
                ((.table,x :: next :: (captureRows Prod.snd rest).1),
                  (captureRows Prod.snd rest).2) := by
              simp [nextGroup, hblank, hheading, hfence, htable]
            have hopen : opensTable x (next :: rest) = true := by
              simp [opensTable, hheading, hfence, startsTable, htable]
            rw [hgroup, Aligned, if_pos hopen, Aligned, aligned_rows]
            constructor
            · rintro ⟨hx,hnext,hrows,hrest⟩
              refine ⟨⟨?_,fun _ y hy => (hrows y hy).2⟩,hrest⟩
              simp only [groupMarks, List.map_cons, hx, hnext, List.cons.injEq, true_and]
              exact List.map_inj_left.2 fun y hy => (hrows y hy).1.symm
            · rintro ⟨⟨hmarks,hrows⟩,hrest⟩
              simp only [groupMarks, List.map_cons, List.cons.injEq] at hmarks
              obtain ⟨hx,hnext,hbody⟩ := hmarks
              exact ⟨hx.symm,hnext.symm,
                fun y hy => ⟨(List.map_inj_left.1 hbody y hy).symm,hrows rfl y hy⟩,hrest⟩
          · have hgroup : nextGroup Prod.snd x (next :: rest) =
                ((.prose,x :: (captureProse Prod.snd (next :: rest)).1),
                  (captureProse Prod.snd (next :: rest)).2) := by
              simp [nextGroup, hblank, hheading, hfence, htable]
            have hopen : ¬ opensTable x (next :: rest) = true := by
              simp [opensTable, startsTable, htable]
            rw [hgroup, tableAgrees_iff (by simp), List.forall_mem_cons, Aligned, if_neg hopen,
              hafter, aligned_prose, and_assoc]

/-- The tables of the chunker are the checked runs exactly when the marks are theirs. -/
theorem groupsAgree_iff : GroupsAgree lines ↔ Aligned .text lines := by
  induction lines using groups_induction Prod.snd with
  | hnil => exact ⟨fun _ => trivial,fun _ => ⟨rfl,fun _ h => by cases h⟩⟩
  | hcons x lines ih => rw [groupsAgree_cons, aligned_cons, ih]

/-! ### The cells of checked lines -/

/-- What a line follows: text, the header of a run, or one of its later lines. -/
inductive Place where
  | text
  | header (width : ℕ)
  | row (width : ℕ)

/-- The runs of checked lines up to a torn one: a header with a delimiter behind it, and lines with
as many cells. -/
inductive Widths : Place → List (Mark × Str) → Prop
  | done : Widths .text []
  | last {w : ℕ} : Widths (.row w) []
  | plain {l : Str} {ls : List (Mark × Str)} : Widths .text ls → Widths .text ((.unchecked,l) :: ls)
  | header {w : ℕ} {l : Str} {ls : List (Mark × Str)} : cellCount l = some w →
      Widths (.header w) ls → Widths .text ((.header,l) :: ls)
  | delimiter {w : ℕ} {l : Str} {ls : List (Mark × Str)} : Ruled l → cellCount l = some w →
      Widths (.row w) ls → Widths (.header w) ((.body,l) :: ls)
  | row {w : ℕ} {l : Str} {ls : List (Mark × Str)} : cellCount l = some w →
      Widths (.row w) ls → Widths (.row w) ((.body,l) :: ls)
  | past {w : ℕ} {l : Str} {ls : List (Mark × Str)} : Widths .text ls →
      Widths (.row w) ((.unchecked,l) :: ls)
  | torn {place : Place} {l : Str} {ls : List (Mark × Str)} : Widths place ((.torn,l) :: ls)

variable {place : Place} {w : ℕ}

theorem Widths.append {more : List (Mark × Str)} (h : Widths place (more ++ lines))
    (hmore : ∀ y ∈ more, y.1 ≠ .torn) : ∃ place, Widths place lines := by
  induction more generalizing place with
  | nil => exact ⟨_,h⟩
  | cons y more ih =>
    rw [List.forall_mem_cons] at hmore
    cases h with
    | torn => exact absurd rfl hmore.1
    | plain h => exact ih h hmore.2
    | header _ h => exact ih h hmore.2
    | delimiter _ _ h => exact ih h hmore.2
    | row _ h => exact ih h hmore.2
    | past h => exact ih h hmore.2

theorem Widths.rows {more : List (Mark × Str)} (h : Widths (.row w) (more ++ lines))
    (hbody : ∀ y ∈ more, y.1 = .body) : ∀ y ∈ more, cellCount y.2 = some w := by
  induction more with
  | nil => simp
  | cons y more ih =>
    rw [List.forall_mem_cons] at hbody ⊢
    cases h with
    | row hcount h => exact ⟨hcount,ih h hbody.2⟩
    | past h => cases hbody.1
    | torn => cases hbody.1

/-- The lines behind a header have as many cells. -/
theorem Widths.bodies {more : List (Mark × Str)} (h : Widths (.header w) (more ++ lines))
    (hbody : ∀ y ∈ more, y.1 = .body) : ∀ y ∈ more, cellCount y.2 = some w := by
  cases more with
  | nil => simp
  | cons y more =>
    rw [List.forall_mem_cons] at hbody ⊢
    cases h with
    | delimiter _ hcount h => exact ⟨hcount,h.rows hbody.2⟩
    | torn => cases hbody.1

theorem groupMarks_whole : ∀ mark ∈ groupMarks g, mark ≠ .torn := by
  obtain ⟨kind,ls⟩ := g
  cases kind <;> cases ls <;> simp [groupMarks]

/-- The lines of a table have as many cells as its header. -/
theorem GroupsAgree.widths (h : GroupsAgree lines) (hfits : Widths place lines) :
    ∀ g ∈ groups Prod.snd lines, g.1 = .table →
      ∃ width, ∀ x ∈ g.2, cellCount x.2 = some width := by
  induction lines using groups_induction Prod.snd generalizing place with
  | hnil =>
    intro g hg
    cases hg
  | hcons x lines ih =>
    obtain ⟨hgroup,hrest⟩ := groupsAgree_cons.1 h
    have happend := @nextGroup_append _ Prod.snd x lines
    have hfirst : ∃ more, (nextGroup Prod.snd x lines).1.2 = x :: more := by
      rcases @nextGroup_first _ Prod.snd x lines with ⟨-,hg⟩ | ⟨-,-,more,hg⟩ <;> rw [hg] <;> simp
    obtain ⟨more,hmore⟩ := hfirst
    rw [groups_cons, List.forall_mem_cons]
    constructor
    · intro hkind
      have hmarks := hgroup.marks
      cases hg : (nextGroup Prod.snd x lines).1 with | mk kind ls
      rw [hg] at hmarks hkind hmore happend
      simp only at hkind hmore happend
      subst hkind hmore
      simp only [groupMarks, List.map_cons, List.cons.injEq] at hmarks
      obtain ⟨mark,l⟩ := x
      obtain ⟨rfl,hbody⟩ := hmarks
      rw [← happend, List.cons_append] at hfits
      cases hfits with
      | header hcount hfits =>
        refine ⟨_,List.forall_mem_cons.2 ⟨hcount,?_⟩⟩
        exact hfits.bodies fun y hy => (List.map_inj_left.1 hbody y hy).symm
    · have hwhole : ∀ y ∈ (nextGroup Prod.snd x lines).1.2, y.1 ≠ .torn := by
        intro y hy
        refine groupMarks_whole (g := (nextGroup Prod.snd x lines).1) y.1 ?_
        rw [hgroup.marks]
        exact List.mem_map_of_mem hy
      rw [← happend] at hfits
      obtain ⟨place,hfits⟩ := hfits.append hwhole
      exact ih hrest hfits

/-! ### Separator lines -/

theorem separator_no_heading (h : isTableSeparator line = true) : headingMatch line = none := by
  cases line with
  | nil => rfl
  | cons c s =>
    have hc : c ≠ hash := by
      rintro rfl
      have hchars := separator_chars h List.mem_cons_self (by decide)
      revert hchars
      decide
    have hrun : leadingRun hash (c :: s) = 0 := by simp [leadingRun, hc]
    unfold headingMatch
    rw [hrun]
    cases s <;> simp

theorem separator_no_fence (h : isTableSeparator line = true) : fenceMatch line = none := by
  have hrun : markerRun (line.dropWhile isBlankOrTab) = none := by
    cases hd : line.dropWhile isBlankOrTab with
    | nil => rfl
    | cons c s =>
      have hc : c ∈ line := (List.dropWhile_suffix isBlankOrTab).subset (hd ▸ List.mem_cons_self)
      have hne : ¬ (c = backtick ∨ c = tilde) := by
        rintro (rfl | rfl) <;>
        · have hchars := separator_chars h hc (by decide)
          revert hchars
          decide
      simp [markerRun, hne]
  rw [fenceMatch, hrun]

/-! ### Accepted tables fit -/

theorem isDelimiter_line {o : Option Str} (h : isDelimiter o = true) : ∃ l cell cells,
    o = some l ∧ pipeCells l = some (cell :: cells) ∧ (cell :: cells).all delimiterLike = true := by
  cases o with
  | none => cases h
  | some l =>
    rw [isDelimiter] at h
    split at h
    · rename_i cell cells hcells
      exact ⟨l,cell,cells,rfl,hcells,h⟩
    · cases h

/-- A line of the formatter is kept or replaced by `None`. -/
def Kept (o : Option Str) (l : Str) : Prop := o = none ∨ o = some l

theorem outsideFenceFrom_kept {fence : Option Marker} {ls : List Str} {out : List (Option Str)}
    (h : outsideFenceFrom fence ls = .ok out) : List.Forall₂ Kept out ls := by
  induction ls generalizing fence out with
  | nil =>
    cases fence with
    | none =>
      cases h
      exact .nil
    | some m => cases h
  | cons l ls ih =>
    have step : ∀ {fence : Option Marker} {o : Option Str}, Kept o l →
        (outsideFenceFrom fence ls).map (o :: ·) = .ok out → List.Forall₂ Kept out (l :: ls) := by
      intro fence o ho hmap
      cases hrest : outsideFenceFrom fence ls with
      | error e =>
        rw [hrest] at hmap
        cases hmap
      | ok out' =>
        rw [hrest] at hmap
        cases hmap
        exact .cons ho (ih hrest)
    cases fence with
    | none =>
      unfold outsideFenceFrom at h
      split at h
      · exact step (Or.inl rfl) h
      · exact step (Or.inr rfl) h
    | some m => exact step (Or.inl rfl) h

theorem Kept.eq {l l' : Str} (h : Kept (some l) l') : l' = l := by
  rcases h with h | h
  · cases h
  · cases h
    rfl

variable {out : List (Option Str)} {ls : List Str} {previous : Option (Option Str)}

theorem tablesValid_tail {o : Option Str} (h : tablesValid previous (o :: out) = true) :
    tablesValid (some o) out = true := by
  unfold tablesValid at h
  rw [Bool.and_eq_true] at h
  exact h.2

theorem tablesValid_head {line : Str} (h : tablesValid previous (some line :: out) = true) :
    delimiterValid previous line out = true := by
  unfold tablesValid at h
  rw [Bool.and_eq_true] at h
  exact h.1

/-- An accepted delimiter has cells of dashes, a header of its width before it and fitting rows
behind it. -/
theorem delimiter_checked {line cell : Str} {cells : List Str}
    (h : delimiterValid previous line out = true) (hcells : pipeCells line = some (cell :: cells))
    (hlike : (cell :: cells).all delimiterLike = true) :
    Ruled line ∧ ∃ header, previous = some (some header) ∧
      cellCount header = some (cell :: cells).length ∧ rowsFit (cell :: cells).length out = true := by
  simp only [delimiterValid, hcells, hlike, if_true, Bool.and_eq_true, decide_eq_true_eq] at h
  obtain ⟨⟨hcell,hlen⟩,h⟩ := h
  refine ⟨⟨_,hcells,hlen,List.all_eq_true.1 hcell⟩,?_⟩
  split at h
  · rename_i header
    split at h
    · rename_i columns hcolumns
      simp only [Bool.and_eq_true, decide_eq_true_eq] at h
      exact ⟨header,rfl,by rw [cellCount, hcolumns, Option.map_some, h.1.1],h.2⟩
    · cases h
  · cases h

/-- The marked lines of accepted tables fit: in text, behind a header, and among rows. -/
theorem marks_fit (hkept : List.Forall₂ Kept out ls) (h : tablesValid previous out = true) :
    Widths .text ((checkedMarks .text out).zip ls) ∧
    (∀ w header, previous = some (some header) → cellCount header = some w →
      out.head?.any isDelimiter = true →
      Widths (.header w) ((checkedMarks .delimiter out).zip ls)) ∧
    (∀ w, rowsFit w out = true → Widths (.row w) ((checkedMarks .rows out).zip ls)) := by
  induction hkept generalizing previous with
  | nil =>
    refine ⟨Widths.done,?_,fun _ _ => Widths.last⟩
    intro _ _ _ _ hhead
    cases hhead
  | @cons o l out ls ho hkept ih =>
    obtain ⟨htext,hdelimiter,hrows⟩ := ih (tablesValid_tail h)
    refine ⟨?_,fun w header hprevious hcount hhead => ?_,fun w hfit => ?_⟩
    · rw [checkedMarks]
      split
      · rename_i hnext
        obtain ⟨d,hd,hlike⟩ := (Option.any_eq_true _ _).1 hnext
        obtain ⟨line,cell,cells,rfl,hcells,hall⟩ := isDelimiter_line hlike
        cases hkept with
        | nil => cases hd
        | cons hline hkept =>
          cases hd
          obtain ⟨-,header,hheader,hcount,-⟩ :=
            delimiter_checked (tablesValid_head (tablesValid_tail h)) hcells hall
          cases hheader
          cases ho.eq
          exact .header hcount (hdelimiter _ _ rfl hcount hnext)
      · exact .plain htext
    · obtain ⟨d,hd,hlike⟩ := (Option.any_eq_true _ _).1 hhead
      cases hd
      obtain ⟨line,cell,cells,rfl,hcells,hall⟩ := isDelimiter_line hlike
      obtain ⟨hruled,header',hheader,hcount',hfit⟩ :=
        delimiter_checked (tablesValid_head h) hcells hall
      rw [hprevious] at hheader
      cases hheader
      rw [hcount', Option.some.injEq] at hcount
      cases ho.eq
      rw [← hcount]
      refine .delimiter hruled ?_ (hrows _ hfit)
      rw [cellCount, hcells, Option.map_some]
    · rw [checkedMarks]
      split
      · rename_i hcontinues
        cases o with
        | none => cases hcontinues
        | some line =>
          cases ho.eq
          rw [continuesRows, Bool.and_eq_true, Bool.not_eq_true'] at hcontinues
          obtain ⟨cells,hcells⟩ := Option.isSome_iff_exists.1 hcontinues.2
          rw [rowsFit, if_neg (by rw [hcontinues.1]; decide), hcells] at hfit
          simp only [Bool.and_eq_true, decide_eq_true_eq] at hfit
          refine .row ?_ (hrows w hfit.2)
          rw [cellCount, hcells, Option.map_some, hfit.1]
      · exact .past htext

theorem checkedMarks_whole {state : TableState} :
    ∀ mark ∈ checkedMarks state out, mark ≠ .torn := by
  induction out generalizing state with
  | nil => cases state <;> simp [checkedMarks]
  | cons o out ih =>
    cases state with
    | text =>
      rw [checkedMarks]
      split <;> exact List.forall_mem_cons.2 ⟨by decide,ih⟩
    | delimiter => exact List.forall_mem_cons.2 ⟨by decide,ih⟩
    | rows =>
      rw [checkedMarks]
      split <;> exact List.forall_mem_cons.2 ⟨by decide,ih⟩

/-! ### Trimming and tearing keep the widths -/

theorem cellCount_strip {l l' : Str} (h : strip l = strip l') : cellCount l = cellCount l' := by
  simp only [cellCount, pipeCells, h]

theorem cellCount_blank (h : cellCount line = some w) : isBlank line = false := by
  refine not_blank ?_
  rw [cellCount, Option.map_eq_some_iff] at h
  obtain ⟨cells,hcells,-⟩ := h
  rw [hcells, Option.isSome_some]

theorem Ruled.of_strip {l l' : Str} (h : Ruled l) (hl : strip l' = strip l) : Ruled l' := by
  obtain ⟨cells,hcells,hruled⟩ := h
  refine ⟨cells,?_,hruled⟩
  rw [← hcells, pipeCells, pipeCells, hl]

/-- A first line with the same cells, before lines that fit whenever the given ones do. -/
theorem Widths.replace {mark : Mark} {l l' : Str} (h : Widths place ((mark,l) :: lines))
    (hl : strip l' = strip l) (hrest : ∀ {place}, Widths place lines → Widths place rest) :
    Widths place ((mark,l') :: rest) := by
  have hcount := cellCount_strip hl
  cases h with
  | plain h => exact .plain (hrest h)
  | header hw h => exact .header (hcount.trans hw) (hrest h)
  | delimiter hruled hw h => exact .delimiter (hruled.of_strip hl) (hcount.trans hw) (hrest h)
  | row hw h => exact .row (hcount.trans hw) (hrest h)
  | past h => exact .past (hrest h)
  | torn => exact .torn

theorem Widths.trimFront (h : Widths .text lines) (hwhole : ∀ x ∈ lines, x.1 ≠ .torn) :
    Widths .text (trimFront lines) := by
  induction lines with
  | nil => exact h
  | cons x lines ih =>
    obtain ⟨mark,l⟩ := x
    rw [List.forall_mem_cons] at hwhole
    unfold MarkdownFormatter.trimFront
    split
    · rename_i hblank
      cases h with
      | plain h => exact ih h hwhole.2
      | header hw h =>
        rw [cellCount_blank hw] at hblank
        cases hblank
      | torn => exact absurd rfl hwhole.1
    · exact h.replace (strip_lstrip l) id

/-- No line of a run is blank, so that a run keeps its delimiter. -/
theorem Widths.blank {mark : Mark} (h : Widths place ((mark,line) :: lines)) (hmark : mark ≠ .torn)
    (hblank : isBlank line = true) : Widths place [] := by
  cases h with
  | plain => exact .done
  | past => exact .last
  | torn => exact absurd rfl hmark
  | header hw h =>
    rw [cellCount_blank hw] at hblank
    cases hblank
  | delimiter _ hw h =>
    rw [cellCount_blank hw] at hblank
    cases hblank
  | row => exact .last

theorem trimFront_whole (hwhole : ∀ x ∈ lines, x.1 ≠ .torn) :
    ∀ x ∈ trimFront lines, x.1 ≠ .torn := by
  induction lines with
  | nil => exact hwhole
  | cons x lines ih =>
    rw [List.forall_mem_cons] at hwhole
    rw [trimFront]
    split
    · exact ih hwhole.2
    · exact List.forall_mem_cons.2 hwhole

theorem Widths.trimBack (h : Widths place lines) (hwhole : ∀ x ∈ lines, x.1 ≠ .torn) :
    Widths place (trimBack lines) := by
  induction lines generalizing place with
  | nil => exact h
  | cons x lines ih =>
    obtain ⟨mark,l⟩ := x
    rw [List.forall_mem_cons] at hwhole
    unfold MarkdownFormatter.trimBack
    split
    · rename_i hback
      split
      · rename_i hblank
        exact h.blank hwhole.1 hblank
      · refine h.replace (strip_rstrip l) fun hlines => ?_
        rw [← hback]
        exact ih hlines hwhole.2
    · rename_i line' lines' hback
      refine h.replace rfl fun hlines => ?_
      rw [← hback]
      exact ih hlines hwhole.2

/-- A line of the formatter that is one line of the chunker is that line, up to a carriage return
before its end. -/
theorem splitlines_single {l piece : Str} (h : splitlines (l ++ [newline]) = [piece]) :
    l = piece ∨ l = piece ++ [13] := by
  have some_line : ∀ s : Str, splitlines (s ++ [newline]) ≠ [] := by
    intro s
    obtain ⟨pieces,hpieces⟩ := splitlines_first s
    rw [hpieces]
    exact List.cons_ne_nil _ _
  induction l generalizing piece with
  | nil =>
    have hnewline : splitlines [newline] = [[]] := by decide
    rw [List.nil_append, hnewline] at h
    cases h
    exact Or.inl rfl
  | cons c l ih =>
    cases l with
    | nil =>
      have hbreak : isLineBreak newline = true := by decide
      rw [List.singleton_append, splitlines] at h
      split at h
      · split at h
        · rename_i hc
          cases h
          exact Or.inr (by rw [hc.1]; rfl)
        · simp [splitlines, hbreak] at h
      · simp only [splitlines, hbreak, if_true, consLine, List.cons.injEq, and_true] at h
        exact Or.inl h
    | cons c' l =>
      rw [List.cons_append, List.cons_append, splitlines] at h
      split at h
      · split at h
        · rw [List.cons.injEq] at h
          exact absurd h.2 (some_line l)
        · rw [List.cons.injEq, ← List.cons_append] at h
          exact absurd h.2 (some_line (c' :: l))
      · obtain ⟨first,hfirst⟩ : ∃ first, splitlines (c' :: l ++ [newline]) = [first] := by
          rw [← List.cons_append] at h
          cases hrest : splitlines (c' :: l ++ [newline]) with
          | nil => exact absurd hrest (some_line (c' :: l))
          | cons first more =>
            rw [hrest, consLine, List.cons.injEq] at h
            rw [h.2]
            exact ⟨first,rfl⟩
        rw [← List.cons_append, hfirst, consLine, List.cons.injEq] at h
        rw [← h.1]
        rcases ih hfirst with heq | heq
        · exact Or.inl (by rw [heq])
        · exact Or.inr (by rw [heq]; rfl)

theorem strip_single {l piece : Str} (h : splitlines (l ++ [newline]) = [piece]) :
    strip piece = strip l := by
  rcases splitlines_single h with rfl | rfl
  · rfl
  · have hreturn : rstrip [13] = ([] : Str) := by decide
    have happ := rstrip_append piece [13]
    rw [if_pos hreturn] at happ
    rw [← strip_rstrip (piece ++ [13]), happ, strip_rstrip]

theorem Widths.unchecked {pieces : List Str} (h : Widths .text lines) :
    Widths .text ((pieces.map fun piece => (Mark.unchecked,piece)) ++ lines) := by
  induction pieces with
  | nil => exact h
  | cons piece pieces ih => exact .plain ih

theorem Widths.tear (h : Widths place lines) : Widths place (lines.flatMap tear) := by
  induction lines generalizing place with
  | nil => exact h
  | cons x lines ih =>
    obtain ⟨mark,l⟩ := x
    rw [List.flatMap_cons, MarkdownFormatter.tear]
    split
    · rename_i piece hpiece
      exact h.replace (strip_single hpiece) ih
    · obtain ⟨pieces,hpieces⟩ := splitlines_first l
      rw [hpieces, List.map_cons, List.cons_append]
      by_cases hm : mark = .unchecked
      · subst hm
        simp only [if_true]
        cases h with
        | plain h => exact .plain (ih h).unchecked
        | past h => exact .past (ih h).unchecked
      · simp only [if_neg hm]
        exact .torn

/-! ### The marked lines are the chunker's lines -/

section Groups
variable {α : Type} {text : α → Str} {a : α} {as : List α}

theorem captureFence_map : captureFence id m (as.map text) =
    ((captureFence text m as).1.map text,(captureFence text m as).2.map text) := by
  induction as with
  | nil => rfl
  | cons a as ih =>
    rw [List.map_cons, captureFence, captureFence, id]
    split
    · rfl
    · rw [ih]
      rfl

theorem captureRows_map : captureRows id (as.map text) =
    ((captureRows text as).1.map text,(captureRows text as).2.map text) := by
  induction as with
  | nil => rfl
  | cons a as ih =>
    rw [List.map_cons, captureRows, captureRows, id]
    split
    · rw [ih]
      rfl
    · rfl

theorem startsTable_map : startsTable id (as.map text) = startsTable text as := by
  match as with
  | [] => rfl
  | [_] => rfl
  | _ :: _ :: _ => rfl

theorem captureProse_map : captureProse id (as.map text) =
    ((captureProse text as).1.map text,(captureProse text as).2.map text) := by
  induction as with
  | nil => rfl
  | cons a as ih =>
    have hstart : startsTable id (text a :: as.map text) = startsTable text (a :: as) := by
      rw [← List.map_cons, startsTable_map]
    rw [List.map_cons, captureProse, captureProse, id, hstart]
    split
    · rfl
    · rw [ih]
      rfl

theorem nextGroup_map : nextGroup id (text a) (as.map text) =
    (((nextGroup text a as).1.1,(nextGroup text a as).1.2.map text),
      (nextGroup text a as).2.map text) := by
  unfold nextGroup
  simp only [id]
  split
  · rfl
  · split
    · rfl
    · split
      · rw [captureFence_map]
        rfl
      · cases as with
        | nil => rfl
        | cons next rest =>
          simp only [List.map_cons]
          split
          · rw [captureRows_map]
            rfl
          · rw [← List.map_cons, captureProse_map]
            rfl

/-- Groups read the texts of lines only. -/
theorem groups_map : groups id (as.map text) = (groups text as).map fun g => (g.1,g.2.map text) := by
  induction as using groups_induction text with
  | hnil => rfl
  | hcons a as ih =>
    rw [List.map_cons, groups_cons, groups_cons, nextGroup_map, List.map_cons]
    exact congrArg _ ih

end Groups

/-- A marked line as one of the formatter's scan, whatever its role. -/
def unmarked (x : Mark × Str) : Role × Str := (.outside,x.2)

theorem trimFront_unmarked :
    (trimFront lines).map unmarked = trimLeading (lines.map unmarked) := by
  induction lines with
  | nil => rfl
  | cons x lines ih =>
    obtain ⟨mark,l⟩ := x
    rw [trimFront, List.map_cons, unmarked, trimLeading]
    split
    · exact ih
    · rfl

theorem trimBack_unmarked :
    (trimBack lines).map unmarked = trimTrailing (lines.map unmarked) := by
  induction lines with
  | nil => rfl
  | cons x lines ih =>
    obtain ⟨mark,l⟩ := x
    rw [trimBack, List.map_cons, unmarked, trimTrailing, ← ih]
    cases trimBack lines with
    | nil => by_cases hb : isBlank l = true <;> simp [hb, unmarked]
    | cons y ys => rfl

theorem tear_unmarked : (tear x).map Prod.snd = (spread (unmarked x)).map Prod.snd := by
  rw [spread_lines, unmarked, tear]
  split
  · rename_i piece hpiece
    rw [hpiece]
    rfl
  · simp [Function.comp_def]

theorem checkedMarks_length (state : TableState) : (checkedMarks state out).length = out.length := by
  induction out generalizing state with
  | nil => cases state <;> rfl
  | cons o out ih =>
    cases state with
    | text =>
      rw [checkedMarks]
      split <;> simp [ih]
    | delimiter => simp [checkedMarks, ih]
    | rows =>
      rw [checkedMarks]
      split <;> simp [ih]

theorem markedLines_lines {markdown : Str} (h : outsideFenceLines markdown = .ok out) :
    (markedLines out markdown).map Prod.snd = splitlines (strip markdown) := by
  have hlen : ((checkedMarks .text out).zip (splitNewline markdown)).map Prod.snd =
      splitNewline markdown := by
    refine List.map_snd_zip ?_
    rw [checkedMarks_length, (outsideFenceFrom_kept h).length_eq]
  have htear : ∀ lines : List (Mark × Str), (lines.flatMap tear).map Prod.snd =
      ((lines.map unmarked).flatMap spread).map Prod.snd := by
    intro lines
    rw [List.map_flatMap, List.flatMap_map, List.map_flatMap]
    exact List.flatMap_congr fun x _ => tear_unmarked
  have hpage : joined (((checkedMarks .text out).zip (splitNewline markdown)).map unmarked) =
      markdown := by
    have hsnd : Prod.snd ∘ unmarked = Prod.snd := rfl
    rw [joined, List.map_map, hsnd, hlen]
    exact List.intercalate_splitOn newline
  rw [markedLines, htear, trimBack_unmarked, trimFront_unmarked, spread_joined trimTrailing_last,
    joined_trimTrailing, joined_trimLeading, hpage]
  rfl

/-- The lines of a page as the chunker reads them, with the marks of the table check. -/
def pageLines (markdown : Str) : List (Mark × Str) :=
  match outsideFenceLines markdown with
  | .ok lines => markedLines lines markdown
  | .error _ => []

/-- The table blocks of an accepted page are the table groups of its marked lines. -/
theorem table_blocks {countTokens : Str → ℕ} {page : MarkdownPage} {inherited : List Str}
    (h : outsideFenceLines page.markdown = .ok out) :
    ((parseBlocks countTokens page inherited).1.filter (·.kind = .table)).map (·.text) =
      ((groups Prod.snd (pageLines page.markdown)).filter (·.1 = .table)).map
        fun g => strip (joinLines (g.2.map Prod.snd)) := by
  have hlines : pageLines page.markdown = markedLines out page.markdown := by
    rw [pageLines, h]
  rw [parseBlocks, hlines, ← markedLines_lines h, groups_map]
  generalize groups Prod.snd (markedLines out page.markdown) = gs
  induction gs generalizing inherited with
  | nil => rfl
  | cons g gs ih =>
    obtain ⟨kind,ls⟩ := g
    cases kind <;> simp [blocksFrom, block, ih]

theorem pageLines_fit {casefold : Str → Str} {markdown source : Str}
    (h : validateMarkdownStructure casefold markdown source = .ok ()) :
    Widths .text (pageLines markdown) := by
  unfold validateMarkdownStructure at h
  cases hlines : outsideFenceLines markdown with
  | error e =>
    rw [hlines] at h
    cases h
  | ok out =>
    have hvalid : tablesValid none out = true := by
      by_contra hno
      rw [hlines] at h
      simp only [bind, Except.bind, hno, Bool.false_eq_true, if_false] at h
      split at h
      · cases h
      · split at h
        · cases h
        · split at h <;> cases h
    have hfits := (marks_fit (outsideFenceFrom_kept hlines) hvalid).1
    have hwhole : ∀ x ∈ (checkedMarks .text out).zip (splitNewline markdown), x.1 ≠ .torn :=
      fun x hx => checkedMarks_whole x.1 (List.of_mem_zip hx).1
    rw [pageLines, hlines]
    exact ((hfits.trimFront hwhole).trimBack (trimFront_whole hwhole)).tear

/-! ### One notion of a table -/

theorem apart_cons {fence : Option Marker} {first : Standing} {next : Option Marker}
    (h : standing fence (x :: lines) = first :: standing next lines) :
    Apart fence (x :: lines) ↔ Sound first ∧
      (∀ y ∈ (standing next lines).head?, Follows first y) ∧ Apart next lines := by
  constructor
  · rintro ⟨hsound,hfollows⟩
    rw [h, List.forall_mem_cons] at hsound
    rw [h, List.isChain_cons] at hfollows
    exact ⟨hsound.1,hfollows.1,hsound.2,hfollows.2⟩
  · rintro ⟨hfirst,hhead,hsound,hfollows⟩
    refine ⟨?_,?_⟩
    · rw [h, List.forall_mem_cons]
      exact ⟨hfirst,hsound⟩
    · rw [h, List.isChain_cons]
      exact ⟨hhead,hfollows⟩

theorem apart_nil {fence : Option Marker} : Apart fence [] := by
  cases fence <;> exact ⟨by simp [standing],by simp [standing]⟩

theorem standing_head {fence : Option Marker} {P : Mark → Str → Prop} :
    (∀ y ∈ (standing fence lines).head?, P y.mark y.text) ↔ ∀ y ∈ lines.head?, P y.1 y.2 := by
  cases lines with
  | nil => simp [standing]
  | cons y lines => cases fence <;> simp [standing]

theorem opensTable_eq_false {mark : Mark} : opensTable (mark,line) lines = false ↔
    (fenceMatch line = none → headingMatch line = none →
      ∀ y ∈ lines.head?, isTableStart line y.2 = false) := by
  cases lines with
  | nil => simp [opensTable, startsTable]
  | cons y lines =>
    cases hh : headingMatch line <;> cases hf : fenceMatch line <;>
      simp [opensTable, startsTable, hh, hf]

theorem isTableStart_eq_false {next : Str} :
    isTableStart line next = false ↔ (pipe ∈ line → isTableSeparator next = false) := by
  simp [isTableStart]

theorem isTableRow_eq_false : isTableRow line = false ↔ isBlank line = true ∨ pipe ∉ line := by
  simp [isTableRow, or_iff_not_imp_left]

/-- Outside the fences, a line that is not checked begins no table. -/
theorem apart_unchecked : Apart none ((.unchecked,line) :: lines) ↔
    opensTable (.unchecked,line) lines = false ∧ Apart (fenceMatch line) lines := by
  have hsound : Sound ⟨(fenceMatch line).isSome,.unchecked,line⟩ := fun h => absurd rfl h
  have hhead := @standing_head lines (fenceMatch line) fun _ text => isTableStart line text = false
  rw [apart_cons rfl, opensTable_eq_false, ← hhead]
  simp only [follows_iff, reduceCtorEq, false_implies, true_implies, true_and, and_true, hsound,
    ← isTableStart_eq_false]
  constructor
  · rintro ⟨hplain,hrest⟩
    exact ⟨fun hf hh y hy => hplain y hy (by rw [hf, Option.isSome_none]) hh,hrest⟩
  · rintro ⟨hplain,hrest⟩
    refine ⟨fun y hy hf hh => hplain ?_ hh y hy,hrest⟩
    rwa [Option.isSome_eq_false_iff, Option.isNone_iff_eq_none] at hf

/-- A checked line outside the fences. -/
theorem sound_iff {mark : Mark} (hmark : mark ≠ .unchecked) (htorn : mark ≠ .torn) :
    Sound ⟨(fenceMatch line).isSome,mark,line⟩ ↔
      headingMatch line = none ∧ fenceMatch line = none := by
  simp [Sound, hmark, htorn, and_comm]

theorem apart_header : Apart none ((.header,line) :: lines) ↔
    (headingMatch line = none ∧ fenceMatch line = none) ∧
      (∀ y ∈ lines.head?, endsEscaped y.2 = false) ∧ Apart none lines := by
  have hhead := @standing_head lines (fenceMatch line) fun _ text => endsEscaped text = false
  rw [apart_cons rfl, sound_iff (by decide) (by decide), ← hhead]
  simp only [follows_iff, reduceCtorEq, false_implies, true_implies, and_true]
  refine and_congr_right fun hline => ?_
  rw [hline.2]

theorem apart_body : Apart none ((.body,line) :: lines) ↔
    (headingMatch line = none ∧ fenceMatch line = none) ∧
      (∀ y ∈ lines.head?, y.1 = .unchecked → isTableRow y.2 = false) ∧ Apart none lines := by
  have hhead := @standing_head lines (fenceMatch line)
    fun mark text => mark = .unchecked → isTableRow text = false
  rw [apart_cons rfl, sound_iff (by decide) (by decide), ← hhead]
  simp only [follows_iff, reduceCtorEq, false_implies, true_implies, true_and,
    ← isTableRow_eq_false]
  refine and_congr_right fun hline => ?_
  rw [hline.2]

theorem apart_inside {mark : Mark} : Apart (some m) ((mark,line) :: lines) ↔
    mark = .unchecked ∧ Apart (if closesFence m line then none else some m) lines := by
  have hsound : Sound ⟨true,mark,line⟩ ↔ mark = .unchecked := by simp [Sound]
  rw [apart_cons rfl, hsound]
  refine and_congr_right fun hmark => ?_
  simp [follows_iff, hmark]

theorem not_apart_torn {fence : Option Marker} : ¬ Apart fence ((.torn,line) :: lines) := by
  intro h
  cases fence with
  | none =>
    have hline := ((apart_cons rfl).1 h).1
    exact (hline (by simp)).1 rfl
  | some m => cases (apart_inside.1 h).1

theorem cellsFrom_pipe {current s : Str} (h : (pipeCellsFrom current s).2 ≠ 0) : pipe ∈ s := by
  induction current, s using pipeCellsFrom.induct with
  | case1 => exact absurd rfl h
  | case2 current => simp
  | case3 current c hc => simp [pipeCellsFrom, hc] at h
  | case4 current c c' s hc ih =>
    rw [pipeCellsFrom_escape hc] at h
    simp [ih h]
  | case5 current c' s => simp
  | case6 current c c' s hc hp ih =>
    rw [pipeCellsFrom_char (fun h => absurd h hc) hp] at h
    exact List.mem_cons_of_mem _ (ih h)

/-- A line with cells is a row of the chunker. -/
theorem cellCount_row (h : cellCount line = some w) : isTableRow line = true := by
  have hpipe : pipe ∈ strip line := by
    refine @cellsFrom_pipe [] (strip line) fun hzero => ?_
    simp [cellCount, pipeCells, hzero] at h
  have hline : pipe ∈ line :=
    (List.dropWhile_suffix isSpace).subset (mem_of_mem_rstrip hpipe)
  rw [isTableRow, cellCount_blank h]
  simpa using hline

/-- A checked header begins a table of the chunker in front of a separator line. -/
theorem opensTable_header (hpipe : pipe ∈ line) (hne : lines ≠ []) :
    opensTable (.header,line) lines = true ↔
      (headingMatch line = none ∧ fenceMatch line = none) ∧
        ∀ y ∈ lines.head?, isTableSeparator y.2 = true := by
  cases lines with
  | nil => exact absurd rfl hne
  | cons y lines => simp [opensTable, startsTable, isTableStart, hpipe]

theorem not_aligned_torn {reading : Reading} : ¬ Aligned reading ((.torn,line) :: lines) := by
  cases reading with
  | text =>
    rw [Aligned]
    split <;> simp
  | delimiter => simp [Aligned]
  | rows =>
    rw [Aligned]
    split <;> simp
  | fence m => simp [Aligned]

/-- The marks are those of the chunker's tables exactly when the lines stand apart. -/
theorem aligned_iff :
    (Widths .text lines → (Aligned .text lines ↔ Apart none lines)) ∧
    (∀ w, Widths (.header w) lines → (∀ y ∈ lines.head?, isTableSeparator y.2 = true) →
      (Aligned .delimiter lines ↔ Apart none lines)) ∧
    (∀ w, Widths (.row w) lines → (Aligned .rows lines ↔
      (∀ y ∈ lines.head?, y.1 = .unchecked → isTableRow y.2 = false) ∧ Apart none lines)) ∧
    (∀ m, Widths .text lines → (Aligned (.fence m) lines ↔ Apart (some m) lines)) := by
  induction lines with
  | nil =>
    have hheader : ∀ w, ¬ Widths (.header w) [] := by
      intro w h
      cases h
    refine ⟨fun _ => iff_of_true trivial apart_nil,fun w h => absurd h (hheader w),fun w _ => ?_,
      fun m _ => iff_of_true trivial apart_nil⟩
    exact iff_of_true trivial ⟨by simp,apart_nil⟩
  | cons x lines ih =>
    obtain ⟨htext,hdelimiter,hrows,hfence⟩ := ih
    have hafter : ∀ {line : Str}, Widths .text lines →
        (Aligned (afterLine line) lines ↔ Apart (fenceMatch line) lines) := by
      intro line h
      unfold afterLine
      cases fenceMatch line with
      | none => exact htext h
      | some m => exact hfence m h
    refine ⟨fun h => ?_,fun w h hnext => ?_,fun w h => ?_,fun m h => ?_⟩
    · cases h with
      | @plain line _ h =>
        rw [apart_unchecked, ← hafter h, Aligned]
        by_cases ho : opensTable (.unchecked,line) lines = true <;> simp [ho]
      | @header w line _ hw h =>
        have hrow := cellCount_row hw
        have hpipe : pipe ∈ line := by
          rw [isTableRow, Bool.and_eq_true, decide_eq_true_eq] at hrow
          exact hrow.2
        cases h with
        | @delimiter _ l rest hruled hl h =>
          have hopen := opensTable_header hpipe (List.cons_ne_nil (Mark.body,l) rest)
          have hends : (∀ y ∈ ((Mark.body,l) :: rest).head?, isTableSeparator y.2 = true) ↔
              ∀ y ∈ ((Mark.body,l) :: rest).head?, endsEscaped y.2 = false := by
            simp [hruled.separator_iff]
          rw [apart_header, ← hends, ← and_assoc, ← hopen, Aligned]
          by_cases ho : opensTable (.header,line) ((.body,l) :: rest) = true
          · simp [ho, hdelimiter w (.delimiter hruled hl h) (hopen.1 ho).2]
          · simp [ho]
        | torn =>
          refine iff_of_false (fun ha => ?_) fun ha => not_apart_torn (apart_header.1 ha).2.2
          rw [Aligned] at ha
          split at ha
          · exact not_aligned_torn ha.2
          · cases ha.1
      | torn => exact iff_of_false not_aligned_torn not_apart_torn
    · cases h with
      | delimiter _ hw h =>
        have hsep := hnext _ rfl
        rw [apart_body, ← hrows w h, Aligned]
        simp [separator_no_heading hsep, separator_no_fence hsep]
      | torn => exact iff_of_false not_aligned_torn not_apart_torn
    · cases h with
      | row hw h =>
        rw [apart_body, ← hrows w h, Aligned, if_pos (cellCount_row hw)]
        simp
      | @past _ line _ h =>
        rw [apart_unchecked, ← hafter h, Aligned]
        by_cases hrow : isTableRow line = true
        · simp [hrow]
        · have ho := @opensTable_row (.unchecked,line) lines hrow
          simp [hrow, ho]
      | torn => exact iff_of_false not_aligned_torn fun h => not_apart_torn h.2
    · cases h with
      | @plain line _ h =>
        rw [apart_inside, Aligned]
        by_cases hc : closesFence m line = true <;> simp [hc, htext h, hfence m h]
      | header => simp [apart_inside, Aligned]
      | torn => exact iff_of_false not_aligned_torn not_apart_torn

/-- The tables of the chunker are the checked runs, of one width each, exactly when the lines stand
apart. -/
theorem tablesAgree_iff (h : Widths .text lines) : TablesAgree lines ↔ Apart none lines := by
  rw [← aligned_iff.1 h, ← groupsAgree_iff]
  exact ⟨fun ha => ha.toGroupsAgree,fun ha => ⟨ha,ha.widths h⟩⟩

instance decidableSound : DecidablePred Sound :=
  fun x => inferInstanceAs (Decidable (x.mark ≠ .unchecked → _))

theorem follows_iff_or {x y : Standing} : Follows x y ↔
    (x.mark ≠ .header ∨ endsEscaped y.text = false) ∧
    (x.mark ≠ .unchecked ∨ x.fenced = true ∨ headingMatch x.text ≠ none ∨
      isTableStart x.text y.text = false) ∧
    (x.mark ≠ .body ∨ y.mark ≠ .unchecked ∨ isTableRow y.text = false) := by
  rw [isTableStart_eq_false, isTableRow_eq_false]
  simp only [follows_iff, imp_iff_not_or, Bool.not_eq_false, ne_eq]

instance decidableFollows : DecidableRel Follows :=
  fun _ _ => decidable_of_iff _ follows_iff_or.symm

instance decidableApart {fence : Option Marker} : Decidable (Apart fence lines) :=
  decidable_of_iff ((∀ x ∈ standing fence lines, Sound x) ∧
    (standing fence lines).IsChain Follows) ⟨fun h => ⟨h.1,h.2⟩,fun h => ⟨h.sound,h.follows⟩⟩

/-- On an accepted page the tables of the chunker are the checked runs exactly when the lines stand
apart; a row of cells is read back in both forms exactly when its cells are clear; and a table of
legible rows is accepted exactly when every row is as wide as its delimiter. -/
theorem tables_agree {casefold : Str → Str} {markdown source : Str}
    (h : validateMarkdownStructure casefold markdown source = .ok ()) :
    (TablesAgree (pageLines markdown) ↔ Apart none (pageLines markdown)) ∧
    (∀ cells : List Str, 2 ≤ cells.length → (∀ c ∈ cells, unescapedPipe c = false) →
      (ReadsBack cells ↔ Clear cells)) ∧
    (∀ (header delimiter : Row) (rows : List Row),
      (∀ row ∈ header :: delimiter :: rows, row.Legible) → 2 ≤ delimiter.cells.length →
      (∀ c ∈ delimiter.cells, isSeparatorCell (strip c) = true) →
      (∀ row ∈ header :: rows, ∃ c ∈ row.cells, delimiterLike (strip c) = false) →
      (tablesValid none (tableLines header delimiter rows) = true ↔
        ∀ row ∈ header :: rows, row.cells.length = delimiter.cells.length)) := by
  refine ⟨?_,fun cells => readsBack_iff,fun header delimiter rows hlegible => ?_⟩
  · exact tablesAgree_iff (pageLines_fit h)
  · rw [List.forall_mem_cons, List.forall_mem_cons] at hlegible
    exact table_accepted hlegible.1 hlegible.2.1 hlegible.2.2

def tableMarkdown : Str := str "Totals\n\n| Item | Count |\n|:---|---:|\n| a\\|b | 1 |\n\nEnd."

theorem tables_agree_plain : TablesAgree (pageLines tableMarkdown) :=
  (@tables_agree id tableMarkdown [] (by decide +kernel)).1.2 (by decide +kernel)

/-- A line of prose behind a table, with an escaped pipe. -/
def swallowedMarkdown : Str := str "| Item | Count |\n|---|---|\n| a | 1 |\nUse the \\| sign."

/-- The chunker takes the prose for a row, and the formatter drops a last cell that ends in an
escaped pipe. -/
theorem prose_swallowed :
    validateMarkdownStructure id swallowedMarkdown [] = .ok () ∧
      ¬ TablesAgree (pageLines swallowedMarkdown) ∧ ¬ ReadsBack [str "a",str "b\\|"] := by
  have hruns : ¬ ((groups Prod.snd (pageLines swallowedMarkdown)).flatMap groupMarks =
      (pageLines swallowedMarkdown).map Prod.fst) := by decide +kernel
  have hbare : ¬ pipeCells (pipeRow [str "a",str "b\\|"]) =
      some ([str "a",str "b\\|"].map strip) := by decide +kernel
  exact ⟨by decide +kernel,fun h => hruns h.runs,fun h => hbare h.bare⟩

end MarkdownFormatter
end PdfBridge
