import Mathlib.Data.List.Lex
import Mathlib.Data.List.Sort
import PdfBridge.Foundation.Binary64
import PdfBridge.Foundation.Unicode

/-! JSON text: the values that a reader builds, the reader itself with the limits of its
interpreter, and the compact writer. A written value is read back exactly. -/
namespace PdfBridge
namespace Json
open Unicode

/-! ### Values -/

/-- A float; both zeros are kept apart. -/
inductive Double where
  | negativeZero
  | finite (x : Binary64)
  | infinite (negative : Bool)
  | nan
deriving DecidableEq

inductive Value where
  | null
  | bool (b : Bool)
  | int (n : ℤ)
  | float (x : Double)
  | str (s : Str)
  | list (items : List Value)
  | object (members : List (Str × Value))

abbrev Members := List (Str × Value)

/-! ### Characters -/

abbrev quote : CodePoint := 34
abbrev backslash : CodePoint := 92
abbrev comma : CodePoint := 44
abbrev colon : CodePoint := 58
abbrev openList : CodePoint := 91
abbrev closeList : CodePoint := 93
abbrev openObject : CodePoint := 123
abbrev closeObject : CodePoint := 125
abbrev minus : CodePoint := 45

def isDigit (c : CodePoint) : Bool := 48 ≤ c.val && c.val ≤ 57

/-- A character that only numbers contain outside strings and words. -/
def numberChar (c : CodePoint) : Bool :=
  isDigit c || c.val = 43 || c.val = 45 || c.val = 46 || c.val = 69 || c.val = 101

def isWhitespace (c : CodePoint) : Bool :=
  c.val = 32 || c.val = 9 || c.val = 10 || c.val = 13

def skipWhitespace (s : Str) : Str := s.dropWhile isWhitespace

/-! ### Numbers -/

def digits (n : ℕ) : Str := (Nat.toDigits 10 n).map codePoint

def naturalOf (s : Str) : ℕ := s.foldl (fun a c => 10 * a + (c.val - 48)) 0

def intText : ℤ → Str
  | .ofNat n => digits n
  | .negSucc n => minus :: digits (n + 1)

def unsigned (s : Str) : Str := if s.head? = some minus then s.tail else s

def intOf (s : Str) : ℤ := if s.head? = some minus then -naturalOf s.tail else naturalOf s

/-- `0|[1-9][0-9]*`. -/
def isNatural (s : Str) : Bool :=
  s ≠ [] && s.all isDigit && (s.length = 1 || s.head? ≠ some 48)

/-- `-?(0|[1-9][0-9]*)`. -/
def isInteger (s : Str) : Bool := isNatural (unsigned s)

/-- `([eE][-+]?[0-9]+)?`. -/
def isExponent : Str → Bool
  | [] => true
  | c :: rest =>
      let magnitude := if rest.head? = some minus || rest.head? = some 43 then rest.tail else rest
      (c.val = 69 || c.val = 101) && magnitude ≠ [] && magnitude.all isDigit

/-- `(\.[0-9]+)?` and an exponent. -/
def isFraction : Str → Bool
  | [] => true
  | c :: rest =>
      if c.val = 46 then rest.takeWhile isDigit ≠ [] && isExponent (rest.dropWhile isDigit)
      else isExponent (c :: rest)

def isNumber (s : Str) : Bool :=
  isNatural ((unsigned s).takeWhile isDigit) && isFraction ((unsigned s).dropWhile isDigit)

/-- How the interpreter writes and reads floats, the longest integer literal that it converts,
and how deep its stack lets containers nest. -/
structure Interpreter where
  repr : Double → Str
  float : Str → Double
  maxDigits : Option ℕ
  stack : Option ℕ
  repr_number : ∀ x, (repr (.finite x)).all numberChar = true ∧
    isInteger (repr (.finite x)) = false ∧ isNumber (repr (.finite x)) = true
  float_repr : ∀ x, float (repr (.finite x)) = .finite x

/-- The number that a literal denotes. -/
def readNumber (py : Interpreter) (token : Str) : Option Value :=
  if isInteger token then
    if py.maxDigits.all fun limit => (unsigned token).length ≤ limit then
      some (.int (intOf token))
    else none
  else if isNumber token then some (.float (py.float token)) else none

/-! ### Strings -/

def hexDigit (n : ℕ) : CodePoint := Fin.ofNat 0x110000 (if n < 10 then 48 + n else 87 + n)

def hexValue (c : CodePoint) : Option ℕ :=
  if isDigit c then some (c.val - 48)
  else if 97 ≤ c.val && c.val ≤ 102 then some (c.val - 87)
  else if 65 ≤ c.val && c.val ≤ 70 then some (c.val - 55)
  else none

def hex4 (a b c d : CodePoint) : Option CodePoint := do
  let a ← hexValue a
  let b ← hexValue b
  let c ← hexValue c
  let d ← hexValue d
  pure (Fin.ofNat 0x110000 (4096 * a + 256 * b + 16 * c + d))

/-- The escapes of one letter. -/
def simpleEscapes : List (CodePoint × CodePoint) :=
  [(quote,quote),(backslash,backslash),(47,47),(98,8),(102,12),(110,10),(114,13),(116,9)]

/-- A high surrogate takes in the escaped low surrogate that follows it. -/
def joinSurrogates (v : CodePoint) (tail : Str) : Str → Str
  | [] => [v]
  | w :: rest =>
      if 0xd800 ≤ v.val && v.val < 0xdc00 && 0xdc00 ≤ w.val && w.val < 0xe000 &&
          tail.take 2 = [backslash,117] then
        Fin.ofNat 0x110000 (0x10000 + (v.val - 0xd800) * 0x400 + (w.val - 0xdc00)) :: rest
      else v :: w :: rest

/-- The text up to the closing quotation mark, unescaped. -/
def parseString : Str → Option (Str × Str)
  | [] => none
  | c :: rest =>
      if c = quote then some ([],rest)
      else if c = backslash then
        match rest with
        | 117 :: a :: b :: x :: y :: tail =>
            (hex4 a b x y).bind fun v =>
              (parseString tail).map fun r => (joinSurrogates v tail r.1,r.2)
        | e :: tail =>
            (simpleEscapes.lookup e).bind fun v =>
              (parseString tail).map fun r => (v :: r.1,r.2)
        | [] => none
      else if c.val < 32 then none
      else (parseString rest).map fun r => (c :: r.1,r.2)

/-- The escapes of a writer that leaves everything else as it is. -/
def escape (c : CodePoint) : Str :=
  if c = quote then [backslash,quote]
  else if c = backslash then [backslash,backslash]
  else if c.val = 10 then [backslash,110]
  else if c.val = 13 then [backslash,114]
  else if c.val = 9 then [backslash,116]
  else if c.val = 12 then [backslash,102]
  else if c.val = 8 then [backslash,98]
  else if c.val < 32 then [backslash,117,48,48,hexDigit (c.val / 16),hexDigit (c.val % 16)]
  else [c]

def quoted (s : Str) : Str := quote :: s.flatMap escape ++ [quote]

/-! ### The reader -/

/-- `ValueError` and `RecursionError`. -/
inductive Failure where
  | invalid
  | recursion
deriving DecidableEq

def orInvalid {α : Type} : Option α → Except Failure α
  | some a => .ok a
  | none => .error .invalid

def literals : List (Str × Value) :=
  [(str "null",.null),(str "true",.bool true),(str "false",.bool false),
    (str "NaN",.float .nan),(str "Infinity",.float (.infinite false)),
    (str "-Infinity",.float (.infinite true))]

def parseLiteral (s : Str) : Option (Value × Str) :=
  literals.findSome? fun (text,v) =>
    if text.isPrefixOf s then some (v,s.drop text.length) else none

def parseScalar (py : Interpreter) (s : Str) : Option (Value × Str) :=
  match parseLiteral s with
  | some r => some r
  | none => (readNumber py (s.takeWhile numberChar)).map fun v => (v,s.dropWhile numberChar)

/-- The items up to the closing bracket; `fuel` bounds their number. -/
def parseItems (value : Str → Except Failure (Value × Str)) :
    ℕ → Str → Except Failure (List Value × Str)
  | 0, _ => .error .invalid
  | fuel + 1, s => do
      let (v,s) ← value s
      match skipWhitespace s with
      | [] => .error .invalid
      | c :: rest =>
          if c = closeList then pure ([v],rest)
          else if c = comma then do
            let (vs,rest) ← parseItems value fuel (skipWhitespace rest)
            pure (v :: vs,rest)
          else .error .invalid

/-- The members up to the closing brace. -/
def parseMembers (value : Str → Except Failure (Value × Str)) :
    ℕ → Str → Except Failure (Members × Str)
  | 0, _ => .error .invalid
  | _, [] => .error .invalid
  | fuel + 1, c :: s => do
      if c = quote then
        let (key,s) ← orInvalid (parseString s)
        match skipWhitespace s with
        | [] => .error .invalid
        | c :: s =>
            if c = colon then do
              let (v,s) ← value (skipWhitespace s)
              match skipWhitespace s with
              | [] => .error .invalid
              | c :: rest =>
                  if c = closeObject then pure ([(key,v)],rest)
                  else if c = comma then do
                    let (ms,rest) ← parseMembers value fuel (skipWhitespace rest)
                    pure ((key,v) :: ms,rest)
                  else .error .invalid
            else .error .invalid
      else .error .invalid

/-- Of members with one key the last stays. -/
def lastMembers : Members → Members
  | [] => []
  | m :: ms => if m.1 ∈ ms.map Prod.fst then lastMembers ms else m :: lastMembers ms

/-- A value whose containers are read by `nested`, if the stack still allows one. -/
def parseWith (py : Interpreter) (nested : Option (Str → Except Failure (Value × Str))) :
    Str → Except Failure (Value × Str)
  | [] => .error .invalid
  | c :: s =>
      if c = quote then do
        let (text,rest) ← orInvalid (parseString s)
        pure (.str text,rest)
      else if c = openList ∨ c = openObject then
        match nested with
        | none => .error .recursion
        | some value =>
            let s := skipWhitespace s
            if c = openList then
              if s.head? = some closeList then pure (.list [],s.tail)
              else do
                let (items,rest) ← parseItems value s.length s
                pure (.list items,rest)
            else if s.head? = some closeObject then pure (.object [],s.tail)
            else do
              let (members,rest) ← parseMembers value s.length s
              pure (.object (lastMembers members),rest)
      else orInvalid (parseScalar py (c :: s))

def parseValue (py : Interpreter) : ℕ → Str → Except Failure (Value × Str)
  | 0 => parseWith py none
  | stack + 1 => parseWith py (some (parseValue py stack))

/-- `json.loads` of text. -/
def loads (py : Interpreter) (s : Str) : Except Failure Value := do
  let (v,rest) ← parseValue py (py.stack.getD s.length) (skipWhitespace s)
  if skipWhitespace rest = [] then pure v else .error .invalid

/-! ### The writer -/

mutual

/-- Compact text, with the members of objects as they stand. -/
def render (py : Interpreter) : Value → Str
  | .null => str "null"
  | .bool true => str "true"
  | .bool false => str "false"
  | .int n => intText n
  | .float x => py.repr x
  | .str s => quoted s
  | .list [] => [openList,closeList]
  | .list (v :: vs) => openList :: render py v ++ renderItems py vs
  | .object [] => [openObject,closeObject]
  | .object ((key,v) :: ms) =>
      openObject :: quoted key ++ colon :: render py v ++ renderMembers py ms

def renderItems (py : Interpreter) : List Value → Str
  | [] => [closeList]
  | v :: vs => comma :: render py v ++ renderItems py vs

def renderMembers (py : Interpreter) : Members → Str
  | [] => [closeObject]
  | (key,v) :: ms => comma :: quoted key ++ colon :: render py v ++ renderMembers py ms

end

mutual

/-- The members of every object in the order of their keys. -/
def sorted : Value → Value
  | .list items => .list (sortedItems items)
  | .object members => .object ((sortedMembers members).insertionSort fun a b => a.1 ≤ b.1)
  | .null => .null
  | .bool b => .bool b
  | .int n => .int n
  | .float x => .float x
  | .str s => .str s

def sortedItems : List Value → List Value
  | [] => []
  | v :: vs => sorted v :: sortedItems vs

def sortedMembers : Members → Members
  | [] => []
  | (key,v) :: ms => (key,sorted v) :: sortedMembers ms

end

/-- `json.dumps` with compact separators, sorted keys and every character as it is. -/
def dumps (py : Interpreter) (v : Value) : Str := render py (sorted v)

end Json
end PdfBridge
