import PdfBridge.Foundation.Unicode

/-! The block parser of the chunker: Markdown lines are grouped into headings, fences, tables and
prose. The grouping only reads the text of a line, so that lines may carry more than it. -/
namespace PdfBridge
namespace MarkdownChunking
open Unicode

def backtick : CodePoint := 0x60
def tilde : CodePoint := 0x7e
def pipe : CodePoint := 0x7c
def hash : CodePoint := 0x23

/-- The character of a fence and how often it is repeated. -/
structure Marker where
  char : CodePoint
  length : ℕ
deriving DecidableEq

def isBlankOrTab (c : CodePoint) : Bool := c = 0x20 || c = 9

/-- The run of one character that a text begins with. -/
def leadingRun (c : CodePoint) (s : Str) : ℕ := (s.takeWhile (· = c)).length

/-- A run of at least three backticks or tildes, and what follows it. -/
def markerRun : Str → Option (Marker × Str)
  | [] => none
  | c :: s =>
      let length := leadingRun c (c :: s)
      if (c = backtick ∨ c = tilde) ∧ 3 ≤ length then
        some (⟨c,length⟩,(c :: s).drop length)
      else none

/-- Level and title of `^(#{1,6})[ \t]+(.+?)\s*$`. -/
def headingMatch (line : Str) : Option (ℕ × Str) :=
  let level := leadingRun hash line
  match line.drop level with
  | c :: c' :: s =>
      if 1 ≤ level ∧ level ≤ 6 ∧ isBlankOrTab c = true then some (level,strip (c :: c' :: s))
      else none
  | _ => none

/-- The marker of ``^[ \t]*(`{3,}|~{3,})([^`]*)$``. -/
def fenceMatch (line : Str) : Option Marker :=
  match markerRun (line.dropWhile isBlankOrTab) with
  | some (m,rest) => if backtick ∈ rest then none else some m
  | none => none

/-- A line that begins with the marker once its indentation is removed. -/
def closesFence (m : Marker) (line : Str) : Bool :=
  (List.replicate m.length m.char).isPrefixOf (lstrip line)

/-- `s.strip("|")`. -/
def stripPipes (s : Str) : Str := (s.dropWhile (· = pipe)).rdropWhile (· = pipe)

/-- `^:?-{3,}:?$` on a whole cell. -/
def isSeparatorCell (cell : Str) : Bool :=
  let colon : CodePoint := 0x3a
  let dashes := match cell with
    | c :: s => if c = colon then s else cell
    | [] => []
  let run := leadingRun 0x2d dashes
  3 ≤ run && (dashes.drop run = [] || dashes.drop run = [colon])

def isTableSeparator (line : Str) : Bool :=
  let cells := ((stripPipes (strip line)).splitOn pipe).map strip
  2 ≤ cells.length && cells.all isSeparatorCell

def isTableStart (line next : Str) : Bool := pipe ∈ line && isTableSeparator next

inductive Kind where
  | blank | heading | fence | table | prose
deriving DecidableEq

variable {α : Type} (text : α → Str)

/-- The lines of a fence after its first one, up to one that closes it, and the rest. -/
def captureFence (m : Marker) : List α → List α × List α
  | [] => ([],[])
  | x :: lines =>
      if closesFence m (text x) then ([x],lines)
      else ((x :: (captureFence m lines).1),(captureFence m lines).2)

/-- A row of an open table. -/
def isTableRow (line : Str) : Bool := !isBlank line && pipe ∈ line

def captureRows : List α → List α × List α
  | [] => ([],[])
  | x :: lines =>
      if isTableRow (text x) then ((x :: (captureRows lines).1),(captureRows lines).2)
      else ([],x :: lines)

def startsTable : List α → Bool
  | x :: next :: _ => isTableStart (text x) (text next)
  | _ => false

def captureProse : List α → List α × List α
  | [] => ([],[])
  | x :: lines =>
      if isBlank (text x) || (headingMatch (text x)).isSome || (fenceMatch (text x)).isSome ||
          startsTable text (x :: lines) then ([],x :: lines)
      else ((x :: (captureProse lines).1),(captureProse lines).2)

/-- The group that a line opens, and the lines after it. -/
def nextGroup (x : α) (lines : List α) : (Kind × List α) × List α :=
  if isBlank (text x) then ((.blank,[x]),lines)
  else if (headingMatch (text x)).isSome then ((.heading,[x]),lines)
  else match fenceMatch (text x) with
    | some m => ((.fence,x :: (captureFence text m lines).1),(captureFence text m lines).2)
    | none =>
        match lines with
        | next :: rest =>
            if isTableStart (text x) (text next) then
              ((.table,x :: next :: (captureRows text rest).1),(captureRows text rest).2)
            else ((.prose,x :: (captureProse text lines).1),(captureProse text lines).2)
        | [] => ((.prose,[x]),[])

/-- The loop of `_parse_blocks`, with one round for each line at most. -/
def groupsFrom : ℕ → List α → List (Kind × List α)
  | 0, _ => []
  | _ + 1, [] => []
  | rounds + 1, x :: lines =>
      (nextGroup text x lines).1 :: groupsFrom rounds (nextGroup text x lines).2

def groups (lines : List α) : List (Kind × List α) := groupsFrom text lines.length lines

/-! ### Blocks -/

structure MarkdownPage where
  pageNumber : ℕ
  markdown : Str

structure Block where
  text : Str
  page : ℕ
  headingPath : List Str
  kind : Kind
  tokenCount : ℕ

/-- `headings[level - 1:] = [title]`. -/
def pushHeading (headings : List Str) (level : ℕ) (title : Str) : List Str :=
  headings.take (level - 1) ++ [title]

def block (countTokens : Str → ℕ) (page : ℕ) (headings : List Str) (kind : Kind)
    (lines : List Str) : Block :=
  let candidate := strip (joinLines lines)
  ⟨candidate,page,headings,kind,countTokens candidate⟩

/-- Blocks in order, with the headings in force at each. -/
def blocksFrom (countTokens : Str → ℕ) (page : ℕ) :
    List Str → List (Kind × List Str) → List Block × List Str
  | headings, [] => ([],headings)
  | headings, (.blank,_) :: rest => blocksFrom countTokens page headings rest
  | headings, (.heading,lines) :: rest =>
      let headings := match lines.head?.bind headingMatch with
        | some (level,title) => pushHeading headings level title
        | none => headings
      let (blocks,last) := blocksFrom countTokens page headings rest
      (block countTokens page headings .heading lines :: blocks,last)
  | headings, (kind,lines) :: rest =>
      let (blocks,last) := blocksFrom countTokens page headings rest
      (block countTokens page headings kind lines :: blocks,last)

/-- `_parse_blocks`: the blocks of a page and the headings in force after it. -/
def parseBlocks (countTokens : Str → ℕ) (page : MarkdownPage) (inherited : List Str) :
    List Block × List Str :=
  blocksFrom countTokens page.pageNumber inherited
    (groups id (splitlines (strip page.markdown)))

end MarkdownChunking
end PdfBridge
