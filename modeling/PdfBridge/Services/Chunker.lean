import PdfBridge.Core.Config
import PdfBridge.Foundation.Bisection
import PdfBridge.Services.MarkdownChunking

/-! The chunker: blocks beyond the token bound are split, the pieces are packed into chunks, and a
chunk may open with an overlap from the prose before it. Token counts are those of an arbitrary
tokenizer. -/
namespace PdfBridge
namespace MarkdownChunking
open Unicode Bisection

def targetTokens : ℕ := 320
def overlapTokens : ℕ := 48

/-- The reasons of `MarkdownChunkingError`; a `ValueError` and an encoding error are none. -/
inductive ChunkingError where
  | noPages | pageOrder
  | emptyPage (pageNumber : ℕ)
  | noCharacter | malformedTable | tableHeader | tableRow
  | unterminatedFence | fenceWrapper | fenceSplit
  | noContent | emptyChunk
  | chunkTokens (index count : ℕ)
  | chunkLimit (maxChunks : ℤ)
  | boundedBlock
  | value
  | unicode
deriving DecidableEq

def ChunkingError.message : ChunkingError → String
  | .noPages => "at least one formatted page is required"
  | .pageOrder => "formatted pages must be complete and in one-based order"
  | .emptyPage n => "page " ++ toString n ++ " has empty Markdown"
  | .noCharacter => "the tokenizer cannot fit one source character"
  | .malformedTable => "formatter returned a malformed Markdown table"
  | .tableHeader => "a Markdown table header exceeds 384 MPNet wordpieces"
  | .tableRow => "a Markdown table row exceeds 384 MPNet wordpieces"
  | .unterminatedFence => "formatter returned an unterminated Markdown fence"
  | .fenceWrapper => "a Markdown fence wrapper exceeds the hard token limit"
  | .fenceSplit => "a fenced block cannot be split below 384 wordpieces"
  | .noContent => "formatted Markdown contains no indexable content"
  | .emptyChunk => "empty chunks are forbidden"
  | .chunkTokens i n => "chunk " ++ toString i ++ " exceeds the 384-wordpiece hard maximum (" ++
      toString n ++ ")"
  | .chunkLimit n => "document exceeds the " ++ toString n ++ "-chunk limit"
  | .boundedBlock => "a bounded block exceeded the hard chunk limit"
  | .value => "max_chunks must be positive"
  | .unicode => "surrogates not allowed"

abbrev Chunking := Except ChunkingError

def validateFrom : ℕ → List MarkdownPage → Chunking Unit
  | _, [] => .ok ()
  | expected, page :: pages =>
      if page.pageNumber ≠ expected then .error .pageOrder
      else if isBlank page.markdown then .error (.emptyPage page.pageNumber)
      else validateFrom (expected + 1) pages

def validatePages (pages : List MarkdownPage) : Chunking Unit :=
  if pages = [] then .error .noPages else validateFrom 1 pages

/-! ### Prefixes and suffixes -/

inductive Scan where
  | outside | newlines | spaces
deriving DecidableEq

/-- Where the matches of `\n+|(?<=[.!?])\s+|\s+` end, from a position on. -/
def breakEndsFrom : Scan → ℕ → Str → List ℕ
  | .outside, _, [] => []
  | _, pos, [] => [pos]
  | .outside, pos, c :: s =>
      if c = newline then breakEndsFrom .newlines (pos + 1) s
      else if isSpace c then breakEndsFrom .spaces (pos + 1) s
      else breakEndsFrom .outside (pos + 1) s
  | .newlines, pos, c :: s =>
      if c = newline then breakEndsFrom .newlines (pos + 1) s
      else if isSpace c then pos :: breakEndsFrom .spaces (pos + 1) s
      else pos :: breakEndsFrom .outside (pos + 1) s
  | .spaces, pos, c :: s =>
      if isSpace c then breakEndsFrom .spaces (pos + 1) s
      else pos :: breakEndsFrom .outside (pos + 1) s

def breakEnds (text : Str) : List ℕ := breakEndsFrom .outside 0 text

section
variable (countTokens : Str → ℕ)

def fits (maxTokens : ℕ) (candidate : Str) : Bool :=
  candidate ≠ [] && countTokens candidate ≤ maxTokens

/-- The loop of `_largest_prefix`. The break positions are all positions from one to the length,
match ends included. -/
def prefixEnd (text : Str) (maxTokens : ℕ) : ℕ :=
  bisect (fun e => fits countTokens maxTokens (rstrip (text.take e))) 1 (text.length + 1) 0

def largestPrefix (text : Str) (maxTokens : ℕ) : Chunking (Str × Str) :=
  let best := prefixEnd countTokens text maxTokens
  if best = 0 then .error .noCharacter
  else .ok (rstrip (text.take best),lstrip (text.drop best))

/-- Both loops of `_largest_suffix`: the last candidate that fits before one that does not. -/
def scanSuffixes (text : Str) (maxTokens : ℕ) : Str → List ℕ → Str
  | best, [] => best
  | best, start :: starts =>
      let candidate := lstrip (text.drop start)
      if fits countTokens maxTokens candidate then scanSuffixes text maxTokens candidate starts
      else if best ≠ [] then best
      else scanSuffixes text maxTokens best starts

def largestSuffix (text : Str) (maxTokens : ℕ) : Str :=
  let best := scanSuffixes countTokens text maxTokens [] (0 :: breakEnds text).reverse
  if best ≠ [] then best
  else scanSuffixes countTokens text maxTokens [] (List.range text.length).reverse

/-- The characters that are no whitespace. -/
def visible (s : Str) : Str := s.filter fun c => !isSpace c

omit countTokens in
@[simp] theorem visible_append (a b : Str) : visible (a ++ b) = visible a ++ visible b :=
  List.filter_append ..

omit countTokens in
@[simp] theorem visible_cons_newline (s : Str) : visible (newline :: s) = visible s := by
  simp [visible, show isSpace newline = true by decide]

omit countTokens in
theorem visible_eq_nil {s : Str} : visible s = [] ↔ isBlank s = true := by
  simp [visible, isBlank, List.filter_eq_nil_iff]

omit countTokens in
@[simp] theorem visible_lstrip (s : Str) : visible (lstrip s) = visible s := by
  induction s with
  | nil => rfl
  | cons c s ih =>
    unfold lstrip at ih ⊢
    by_cases hc : isSpace c = true
    · rw [List.dropWhile_cons_of_pos hc, ih]
      simp [visible, hc]
    · rw [List.dropWhile_cons_of_neg hc]

omit countTokens in
@[simp] theorem visible_rstrip (s : Str) : visible (rstrip s) = visible s := by
  have h := visible_lstrip s.reverse
  unfold visible at h ⊢
  rw [List.filter_reverse] at h
  rw [rstrip, List.rdropWhile, List.filter_reverse]
  unfold lstrip at h
  rw [h, List.reverse_reverse]

/-- Both parts of a text lose only whitespace, and the first one is not blank. -/
theorem largestPrefix_ok {text piece rest : Str} {maxTokens : ℕ}
    (h : largestPrefix countTokens text maxTokens = .ok (piece,rest)) :
    visible text = visible piece ++ visible rest ∧ piece ≠ [] ∧
      countTokens piece ≤ maxTokens ∧ visible piece ≠ [] := by
  unfold largestPrefix at h
  simp only at h
  split at h
  · cases h
  · rename_i hbest
    cases h
    rcases @bisect_passes (fun e => fits countTokens maxTokens (rstrip (text.take e)))
      1 (text.length + 1) 0 with hzero | ⟨hpass,-,-⟩
    · exact absurd hzero hbest
    · have hfits : fits countTokens maxTokens
          (rstrip (text.take (prefixEnd countTokens text maxTokens))) = true := hpass
      simp only [fits, Bool.and_eq_true, decide_eq_true_eq] at hfits
      refine ⟨?_,hfits.1,hfits.2,?_⟩
      · rw [visible_rstrip, visible_lstrip, ← visible_append, List.take_append_drop]
      · rw [visible_rstrip]
        intro hblank
        exact hfits.1 (rstrip_eq_nil_iff.2 (visible_eq_nil.1 hblank))

theorem largestPrefix_shorter {text piece rest : Str} {maxTokens : ℕ}
    (h : largestPrefix countTokens text maxTokens = .ok (piece,rest)) :
    (visible rest).length < (visible text).length := by
  obtain ⟨hvisible,-,-,hne⟩ := largestPrefix_ok countTokens h
  rw [hvisible, List.length_append]
  have := List.length_pos_iff.2 hne
  omega

/-! ### Splitting -/

/-- A piece of a block, at the place of the block. -/
def pieceOf (b : Block) (kind : Kind) (text : Str) : Block :=
  ⟨text,b.page,b.headingPath,kind,countTokens text⟩

/-- The loop of `_split_prose`; every piece takes characters from what remains. -/
def proseTexts (remaining : Str) : Chunking (List Str) :=
  if remaining = [] then .ok []
  else
    match h : largestPrefix countTokens remaining hardMaxTokens with
    | .error e => .error e
    | .ok (piece,rest) =>
        match proseTexts rest with
        | .error e => .error e
        | .ok texts => .ok (piece :: texts)
termination_by (visible remaining).length
decreasing_by exact largestPrefix_shorter countTokens h

def splitProse (b : Block) : Chunking (List Block) :=
  match proseTexts countTokens b.text with
  | .error e => .error e
  | .ok texts => .ok (texts.map (pieceOf countTokens b .prose))

/-- The loop of `_split_table`: the rows of each piece. -/
def tableRows (header : Str) : List Str → List Str → Chunking (List (List Str))
  | rows, [] => .ok [rows]
  | rows, row :: rest =>
      if countTokens (joinLines (header :: (rows ++ [row]))) ≤ hardMaxTokens then
        tableRows header (rows ++ [row]) rest
      else if rows = [] then .error .tableRow
      else if hardMaxTokens < countTokens (joinLines [header,row]) then .error .tableRow
      else
        match tableRows header [row] rest with
        | .error e => .error e
        | .ok pieces => .ok (rows :: pieces)

def splitTable (b : Block) : Chunking (List Block) :=
  match splitlines b.text with
  | first :: second :: rows =>
      if isTableSeparator second = false then .error .malformedTable
      else
        let header := joinLines [first,second]
        if hardMaxTokens < countTokens header then .error .tableHeader
        else if rows = [] then .ok [b]
        else
          match tableRows countTokens header [] rows with
          | .error e => .error e
          | .ok pieces => .ok (pieces.map fun rows =>
              pieceOf countTokens b .table (joinLines (header :: rows)))
  | _ => .error .malformedTable

/-- One piece of a fence body and the rest; a piece that does not fit between the fence lines is
cut once more. -/
def fencePiece (opening closing : Str) (budget : ℕ) (remaining : Str) : Chunking (Str × Str) :=
  match largestPrefix countTokens remaining budget with
  | .error e => .error e
  | .ok (piece,rest) =>
      if countTokens (joinLines [opening,piece,closing]) ≤ hardMaxTokens then .ok (piece,rest)
      else
        match largestPrefix countTokens piece (max (budget - 1) 1) with
        | .error e => .error e
        | .ok (piece,restored) =>
            if hardMaxTokens < countTokens (joinLines [opening,piece,closing]) then
              .error .fenceSplit
            else .ok (piece,joinLines ([restored,rest].filter (· ≠ [])))

omit countTokens in
theorem visible_joinLines (lines : List Str) :
    visible (joinLines lines) = (lines.map visible).flatten := by
  induction lines with
  | nil => rfl
  | cons l lines ih =>
    cases lines with
    | nil => simp [joinLines]
    | cons l' lines =>
      have hjoin : joinLines (l :: l' :: lines) = l ++ newline :: joinLines (l' :: lines) := by
        simp [joinLines, List.intercalate]
      rw [hjoin, visible_append, visible_cons_newline, ih]
      rfl

omit countTokens in
theorem visible_joinNonempty (lines : List Str) :
    visible (joinLines (lines.filter (· ≠ []))) = (lines.map visible).flatten := by
  rw [visible_joinLines]
  induction lines with
  | nil => rfl
  | cons l lines ih =>
    by_cases hl : l = []
    · subst hl
      simpa [visible] using ih
    · simp only [List.filter_cons, hl, ne_eq, not_false_eq_true, decide_true, if_true,
        List.map_cons, List.flatten_cons]
      rw [← ih]

theorem fencePiece_ok {opening closing remaining piece rest : Str} {budget : ℕ}
    (h : fencePiece countTokens opening closing budget remaining = .ok (piece,rest)) :
    visible remaining = visible piece ++ visible rest ∧ visible piece ≠ [] ∧
      countTokens (joinLines [opening,piece,closing]) ≤ hardMaxTokens := by
  unfold fencePiece at h
  split at h
  · cases h
  rename_i first last hfirst
  obtain ⟨hvisible,-,-,hne⟩ := largestPrefix_ok countTokens hfirst
  split at h
  · rename_i hcount
    cases h
    exact ⟨hvisible,hne,hcount⟩
  split at h
  · cases h
  rename_i second restored hsecond
  obtain ⟨hvisible',-,-,hne'⟩ := largestPrefix_ok countTokens hsecond
  split at h
  · cases h
  rename_i hcount
  cases h
  refine ⟨?_,hne',Nat.not_lt.1 hcount⟩
  rw [hvisible, hvisible', visible_joinNonempty]
  simp

theorem fencePiece_shorter {opening closing remaining piece rest : Str} {budget : ℕ}
    (h : fencePiece countTokens opening closing budget remaining = .ok (piece,rest)) :
    (visible rest).length < (visible remaining).length := by
  obtain ⟨hvisible,hne,-⟩ := fencePiece_ok countTokens h
  rw [hvisible, List.length_append]
  have := List.length_pos_iff.2 hne
  omega

/-- The loop of `_split_fence`: the part of the body in each piece. -/
def fenceTexts (opening closing : Str) (budget : ℕ) (remaining : Str) : Chunking (List Str) :=
  if remaining = [] then .ok []
  else
    match h : fencePiece countTokens opening closing budget remaining with
    | .error e => .error e
    | .ok (piece,rest) =>
        match fenceTexts opening closing budget rest with
        | .error e => .error e
        | .ok texts => .ok (piece :: texts)
termination_by (visible remaining).length
decreasing_by exact fencePiece_shorter countTokens h

/-- `lines[0]`, `lines[1:-1]` and `lines[-1]` of at least two lines. -/
def fenceParts : List Str → Option (Str × List Str × Str)
  | opening :: last :: lines =>
      some (opening,(last :: lines).dropLast,(last :: lines).getLast (List.cons_ne_nil _ _))
  | _ => none

def splitFence (b : Block) : Chunking (List Block) :=
  match fenceParts (splitlines b.text) with
  | none => .error .unterminatedFence
  | some (opening,body,closing) =>
      let wrapperTokens := countTokens (joinLines [opening,[],closing])
      if hardMaxTokens ≤ wrapperTokens then .error .fenceWrapper
      else
        match fenceTexts countTokens opening closing (hardMaxTokens - wrapperTokens)
            (joinLines body) with
        | .error e => .error e
        | .ok texts => .ok (texts.map fun piece =>
            pieceOf countTokens b .fence (joinLines [opening,piece,closing]))

/-- The body of the loop in `_bounded_blocks`. -/
def boundedPieces (b : Block) : Chunking (List Block) :=
  if b.tokenCount ≤ hardMaxTokens then .ok [b]
  else
    match b.kind with
    | .table => splitTable countTokens b
    | .fence => splitFence countTokens b
    | _ => splitProse countTokens b

def boundAll : List Block → Chunking (List Block)
  | [] => .ok []
  | b :: blocks =>
      match boundedPieces countTokens b with
      | .error e => .error e
      | .ok pieces =>
          match boundAll blocks with
          | .error e => .error e
          | .ok rest => .ok (pieces ++ rest)

/-- The blocks of all pages, each parsed with the headings in force after the pages before. -/
def documentBlocks : List Str → List MarkdownPage → List Block
  | _, [] => []
  | headings, page :: pages =>
      (parseBlocks countTokens page headings).1 ++
        documentBlocks (parseBlocks countTokens page headings).2 pages

def boundedBlocks (pages : List MarkdownPage) : Chunking (List Block) :=
  boundAll countTokens (documentBlocks countTokens [] pages)

end

/-! ### Packing -/

/-- A part of an open chunk: a bounded block, or the overlap from the chunk before. -/
inductive Part where
  | own (b : Block)
  | overlap (b : Block)

def Part.block : Part → Block
  | .own b => b
  | .overlap b => b

/-- What `chunk_markdown` is given besides the pages. -/
structure ChunkContext where
  documentId : Uuid
  preparedRevisionId : Uuid
  countTokens : Str → ℕ
  maxChunks : ℤ
  sha256 : Str → Digest

structure MarkdownChunk where
  chunkId : ChunkId
  chunkIndex : ℕ
  pageStart : ℕ
  pageEnd : ℕ
  headingPath : List Str
  tokenCount : ℕ
  textSha256 : Digest
  markdown : Str
deriving DecidableEq

/-- `"\n\n".join(part.text for part in parts)`. -/
def joinParts (parts : List Part) : Str :=
  List.intercalate [newline,newline] (parts.map (·.block.text))

/-- The last prose block among the parts. -/
def lastProse : List Part → Option Block
  | [] => none
  | part :: parts =>
      match lastProse parts with
      | some b => some b
      | none =>
          match part with
          | .own b => if b.kind = .prose then some b else none
          | .overlap _ => none

section
variable (ctx : ChunkContext)

/-- `_overlap`. -/
def overlap (parts : List Part) : List Part :=
  match lastProse parts with
  | none => []
  | some prose =>
      let text := if prose.tokenCount ≤ overlapTokens then prose.text
        else largestSuffix ctx.countTokens prose.text overlapTokens
      if text = [] then []
      else [.overlap ⟨text,prose.page,prose.headingPath,.prose,ctx.countTokens text⟩]

def finishChunk (index : ℕ) (parts : List Part) : Chunking MarkdownChunk :=
  let markdown := strip (joinParts parts)
  if markdown = [] then .error .emptyChunk
  else
    let count := ctx.countTokens markdown
    if hardMaxTokens < count then .error (.chunkTokens index count)
    else if markdown.any isSurrogate then .error .unicode
    else
      let textHash := ctx.sha256 markdown
      let pages := parts.map (·.block.page)
      .ok { chunkId := ⟨ctx.documentId,ctx.preparedRevisionId,index,textHash⟩,
            chunkIndex := index,
            pageStart := pages.min?.getD 0,
            pageEnd := pages.max?.getD 0,
            headingPath := (parts.getLast?.map (·.block.headingPath)).getD [],
            tokenCount := count, textSha256 := textHash, markdown := markdown }

def total (parts : List Part) : ℕ := ctx.countTokens (joinParts parts)

/-- `flush`: close the open chunk, if there is one. -/
def flush (chunks : List MarkdownChunk) (parts : List Part) :
    Chunking (List MarkdownChunk × List Part) :=
  if parts = [] then .ok (chunks,parts)
  else
    match finishChunk ctx chunks.length parts with
    | .error e => .error e
    | .ok chunk =>
        if ctx.maxChunks < chunks.length + 1 then .error (.chunkLimit ctx.maxChunks)
        else .ok (chunks ++ [chunk],overlap ctx parts)

/-- Flush when the next block would exceed the target. -/
def makeRoom (chunks : List MarkdownChunk) (parts : List Part) (b : Block) :
    Chunking (List MarkdownChunk × List Part) :=
  if parts ≠ [] ∧ targetTokens < total ctx (parts ++ [.own b]) then flush ctx chunks parts
  else .ok (chunks,parts)

/-- The overlap is dropped when it leaves no room for the block. -/
def keepFront (parts : List Part) (b : Block) : List Part :=
  if parts ≠ [] ∧ hardMaxTokens < total ctx (parts ++ [.own b]) then [] else parts

/-- The loop over the bounded blocks and the last `flush`. -/
def packFrom (chunks : List MarkdownChunk) (parts : List Part) :
    List Block → Chunking (List MarkdownChunk)
  | [] =>
      match flush ctx chunks parts with
      | .error e => .error e
      | .ok (chunks,_) => .ok chunks
  | b :: blocks =>
      match makeRoom ctx chunks parts b with
      | .error e => .error e
      | .ok (chunks,parts) =>
          let parts := keepFront ctx parts b ++ [.own b]
          if hardMaxTokens < total ctx parts then .error .boundedBlock
          else packFrom chunks parts blocks

def chunkMarkdown (pages : List MarkdownPage) : Chunking (List MarkdownChunk) :=
  match validatePages pages with
  | .error e => .error e
  | .ok () =>
      if ctx.maxChunks ≤ 0 then .error .value
      else
        match boundedBlocks ctx.countTokens pages with
        | .error e => .error e
        | .ok blocks =>
            if blocks = [] then .error .noContent else packFrom ctx [] [] blocks

end
end MarkdownChunking
end PdfBridge
