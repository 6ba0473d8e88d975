import PdfBridge.Services.MarkdownChunking

/-! The structural validation of formatter output: fenced blocks are balanced, and outside them
there is no raw HTML, no image, no generated link and no malformed table. -/
namespace PdfBridge
namespace MarkdownFormatter
open Unicode MarkdownChunking

/-- The codes of `_AttemptRejected` that the structural validation raises. -/
inductive StructureError where
  | markdownFence | markdownHtml | markdownImage | markdownLink | markdownTable
deriving DecidableEq

/-! ### Fenced blocks -/

/-- Marker and rest of ``^ {0,3}(?P<marker>`{3,}|~{3,})(?P<rest>.*)$``. -/
def formatterFence (line : Str) : Option (Marker × Str) :=
  let indent := leadingRun 0x20 line
  if indent ≤ 3 then markerRun (line.drop indent) else none

/-- A line that closes an open fence: the same character, at least as often, and nothing else. -/
def closes (m : Marker) (line : Str) : Bool :=
  match formatterFence line with
  | some (marker,rest) => marker.char = m.char && m.length ≤ marker.length && isBlank rest
  | none => false

/-- The lines with the fenced ones replaced by `None`, from an open fence or outside. -/
def outsideFenceFrom : Option Marker → List Str → Except StructureError (List (Option Str))
  | none, [] => .ok []
  | some _, [] => .error .markdownFence
  | none, line :: lines =>
      match formatterFence line with
      | some (marker,_) => (outsideFenceFrom (some marker) lines).map (none :: ·)
      | none => (outsideFenceFrom none lines).map (some line :: ·)
  | some m, line :: lines =>
      (outsideFenceFrom (if closes m line then none else some m) lines).map (none :: ·)

def outsideFenceLines (markdown : Str) : Except StructureError (List (Option Str)) :=
  outsideFenceFrom none (splitNewline markdown)

/-! ### Raw HTML and images -/

/-- `[A-Za-z]` under `re.IGNORECASE`, with the four characters that fold to a letter of it. -/
def isLetter (c : CodePoint) : Bool :=
  (0x41 ≤ c.val && c.val ≤ 0x5a) || (0x61 ≤ c.val && c.val ≤ 0x7a) ||
  c.val = 0x130 || c.val = 0x131 || c.val = 0x17f || c.val = 0x212a

def isTagCharacter (c : CodePoint) : Bool :=
  isLetter c || (0x30 ≤ c.val && c.val ≤ 0x39) || c.val = 0x3a || c.val = 0x2d

/-- Some suffix of a text passes a test. -/
def searchAt (test : Str → Bool) : Str → Bool
  | [] => test []
  | c :: s => test (c :: s) || searchAt test s

/-- `(?:\s[^<>\n]*)?/?>` at the beginning of a text. -/
def tagEnds (s : Str) : Bool :=
  let closing (s : Str) : Bool := (str ">").isPrefixOf s || (str "/>").isPrefixOf s
  closing s || match s with
    | c :: rest => isSpace c && (str ">").isPrefixOf
        (rest.dropWhile fun c => c.val ≠ 0x3c && c.val ≠ 0x3e && c ≠ newline)
    | [] => false

/-- `[A-Za-z][A-Za-z0-9:-]*(?:\s[^<>\n]*)?/?>` at the beginning of a text. -/
def tagFrom (s : Str) : Bool :=
  match s with
  | c :: rest => isLetter c && tagEnds (rest.dropWhile isTagCharacter)
  | [] => false

def letterFollows (s : Str) : Bool :=
  match s with
  | c :: _ => isLetter c
  | [] => false

/-- `_RAW_HTML` at the beginning of a text. -/
def rawHtmlAt (s : Str) : Bool :=
  (str "<!--").isPrefixOf s || (str "-->").isPrefixOf s ||
  ((str "<!").isPrefixOf s && letterFollows (s.drop 2)) ||
  ((str "<?").isPrefixOf s && letterFollows (s.drop 2)) ||
  ((str "</").isPrefixOf s && tagFrom (s.drop 2)) ||
  ((str "<").isPrefixOf s && tagFrom (s.drop 1))

/-- A bracket with content up to the next `]`, and the text after that. -/
def bracketed (s : Str) : Option (Str × Str) :=
  match s with
  | c :: rest =>
      let content := rest.takeWhile fun c => c.val ≠ 0x5d && c ≠ newline
      match rest.drop content.length with
      | c' :: after => if c.val = 0x5b ∧ c'.val = 0x5d then some (content,after) else none
      | [] => none
  | [] => none

/-- `_IMAGE` at the beginning of a text. -/
def imageAt (s : Str) : Bool :=
  (str "!").isPrefixOf s && (bracketed (s.drop 1)).isSome

/-! ### Links -/

/-- `finditer`: the matches of a pattern from left to right without overlap; a pattern reads the
character before it and returns a value with the length of the match. -/
def findAll {β : Type} (pattern : Option CodePoint → Str → Option (β × ℕ)) :
    Option CodePoint → ℕ → Str → List β
  | _, _, [] => []
  | before, 0, c :: s =>
      match pattern before (c :: s) with
      | some (value,length) => value :: findAll pattern (some c) (length - 1) s
      | none => findAll pattern (some c) 0 s
  | _, skip + 1, c :: s => findAll pattern (some c) skip s

/-- `<([^>\n]+)>` or a run of characters that a class keeps, at the beginning of a text. -/
def destination (keeps : CodePoint → Bool) (s : Str) : Option (Str × ℕ) :=
  let plain := s.takeWhile keeps
  let fallback := if plain = [] then none else some (plain,plain.length)
  match s with
  | c :: rest =>
      let content := rest.takeWhile fun c => c.val ≠ 0x3e && c ≠ newline
      if c.val = 0x3c ∧ content ≠ [] ∧ (str ">").isPrefixOf (rest.drop content.length) = true then
        some (content,content.length + 2)
      else fallback
  | [] => none

/-- `_INLINE_LINK`. -/
def inlineLink (before : Option CodePoint) (s : Str) : Option (Str × ℕ) := do
  if before = some 0x21 then none
  let (label,after) ← bracketed s
  if label = [] ∨ (str "(").isPrefixOf after = false then none
  let spaces := ((after.drop 1).takeWhile isSpace).length
  let (target,length) ← destination (fun c => !isSpace c && c.val ≠ 0x29) (after.drop (1 + spaces))
  some (target,label.length + 3 + spaces + length)

/-- A character of a literal under `re.IGNORECASE`. -/
def foldsTo (c : CodePoint) (letter : Char) : Bool :=
  c = codePoint letter || c = codePoint letter.toUpper ||
  (letter = 's' && c.val = 0x17f) || (letter = 'i' && (c.val = 0x130 || c.val = 0x131))

def startsFolded (s : Str) (literal : String) : Bool :=
  literal.length ≤ s.length && (s.zip literal.toList).all fun x => foldsTo x.1 x.2

/-- `_AUTOLINK`. -/
def autolink (_ : Option CodePoint) (s : Str) : Option (Str × ℕ) :=
  match s with
  | c :: rest =>
      let scheme := ["https:","http:","mailto:"].find? (startsFolded rest)
      let content := rest.takeWhile fun c => c.val ≠ 0x3e && !isSpace c
      match scheme with
      | some scheme =>
          if c.val = 0x3c ∧ scheme.length < content.length ∧
              (str ">").isPrefixOf (rest.drop content.length) = true then
            some (content,content.length + 2)
          else none
      | none => none
  | [] => none

/-- `_REFERENCE_DEFINITION`, with its label and destination. -/
def referenceDefinition (before : Option CodePoint) (s : Str) : Option ((Str × Str) × ℕ) := do
  if before ≠ none ∧ before ≠ some newline then none
  let indent := leadingRun 0x20 s
  if 3 < indent then none
  let (label,after) ← bracketed (s.drop indent)
  if label = [] ∨ (str ":").isPrefixOf after = false then none
  let spaces := ((after.drop 1).takeWhile isSpace).length
  let (target,length) ← destination (fun c => !isSpace c) (after.drop (1 + spaces))
  some ((label,target),indent + label.length + 3 + spaces + length)

/-- The label of `_REFERENCE_LINK`. -/
def referenceLink (before : Option CodePoint) (s : Str) : Option (Str × ℕ) := do
  if before = some 0x21 then none
  let (content,after) ← bracketed s
  if content = [] then none
  let (label,_) ← bracketed after
  some (label,content.length + label.length + 4)

/-- `_validate_links`, with the case folding of labels. -/
def validateLinks (casefold : Str → Str) (markdown source : Str) : Except StructureError Unit :=
  let definitions := findAll referenceDefinition none 0 markdown
  let destinations := findAll inlineLink none 0 markdown ++ findAll autolink none 0 markdown ++
    definitions.map (·.2)
  let label (s : Str) := strip (casefold s)
  let defined := definitions.map fun x => label x.1
  if ((findAll referenceLink none 0 markdown).map label).all
      (fun x => !x.isEmpty && x ∈ defined) then
    if destinations.all fun x => searchAt x.isPrefixOf source then .ok ()
    else .error .markdownLink
  else .error .markdownLink

/-! ### Tables -/

/-- The cells between unescaped pipes, and how many pipes there are. -/
def pipeCellsFrom : Str → Str → List Str × ℕ
  | current, [] => ([strip current],0)
  | current, [c] =>
      if c = pipe then ([strip current,[]],1) else ([strip (current ++ [c])],0)
  | current, c :: c' :: s =>
      if c.val = 0x5c then pipeCellsFrom (current ++ [c,c']) s
      else if c = pipe then
        let (cells,separators) := pipeCellsFrom [] (c' :: s)
        (strip current :: cells,separators + 1)
      else pipeCellsFrom (current ++ [c]) (c' :: s)

def pipeCells (line : Str) : Option (List Str) :=
  let stripped := strip line
  let (cells,separators) := pipeCellsFrom [] stripped
  if separators = 0 then none
  else
    let cells := if (str "|").isPrefixOf stripped then cells.drop 1 else cells
    some (if (str "|").isSuffixOf stripped then cells.dropLast else cells)

/-- A cell of dashes and colons with at least one dash. -/
def delimiterLike (cell : Str) : Bool :=
  cell.any (·.val = 0x2d) && cell.all fun c => c.val = 0x2d || c.val = 0x3a

/-- The rows of a table have the width of its delimiter. -/
def rowsFit (width : ℕ) : List (Option Str) → Bool
  | some line :: lines =>
      if isBlank line then true
      else match pipeCells line with
        | some cells => cells.length = width && rowsFit width lines
        | none => true
  | _ => true

/-- The check of one line as a table delimiter, with the line before it and those after it. -/
def delimiterValid (previous : Option (Option Str)) (line : Str) (lines : List (Option Str)) :
    Bool :=
  match pipeCells line with
  | none | some [] => true
  | some cells =>
      if cells.all delimiterLike then
        cells.all isSeparatorCell && 2 ≤ cells.length &&
        match previous with
        | some (some header) =>
            match pipeCells header with
            | some columns => columns.length = cells.length && !columns.all isSeparatorCell &&
                rowsFit cells.length lines
            | none => false
        | _ => false
      else true

def tablesValid : Option (Option Str) → List (Option Str) → Bool
  | _, [] => true
  | previous, line :: lines =>
      (match line with
        | some text => delimiterValid previous text lines
        | none => true) && tablesValid (some line) lines

/-! ### The whole check -/

def validateMarkdownStructure (casefold : Str → Str) (markdown source : Str) :
    Except StructureError Unit := do
  let outsideLines ← outsideFenceLines markdown
  let outsideText := joinLines (outsideLines.filterMap id)
  if searchAt rawHtmlAt outsideText then .error .markdownHtml
  else if searchAt imageAt outsideText then .error .markdownImage
  else do
    validateLinks casefold outsideText source
    if tablesValid none outsideLines then .ok () else .error .markdownTable

end MarkdownFormatter
end PdfBridge
