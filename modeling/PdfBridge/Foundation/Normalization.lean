import PdfBridge.Foundation.Unicode
import Mathlib.Data.Rat.Defs

/-! What text processing takes from `unicodedata.normalize` and `json.loads`. -/
namespace PdfBridge
namespace Unicode

/-- A character of category `Cc`, `Cf` or `Cs` other than a newline. -/
def isDisallowedControl (c : CodePoint) : Bool :=
  c ≠ newline && (isControl c || isFormat c || isSurrogate c)

/-- `unicodedata.normalize("NFKC", text)`. ASCII text is its own normal form, and the normal form
brings in no character of category `Cc`, `Cf` or `Cs`. -/
structure Normalization where
  nfkc : Str → Str
  ascii : ∀ s : Str, (∀ c ∈ s, c.val < 0x80) → nfkc s = s
  control : ∀ (s : Str) (c : CodePoint), c ∈ nfkc s → isDisallowedControl c = true → c ∈ s

/-- A value of `json.loads`; a float outside the reals is `none`. -/
inductive Json where
  | null
  | bool (b : Bool)
  | int (z : ℤ)
  | float (q : Option ℚ)
  | str (s : Str)
  | arr (values : List Json)
  | obj (fields : List (Str × Json))

namespace Json

/-- Truth value of an object. -/
def truthy : Json → Bool
  | null => false
  | bool b => b
  | int z => z ≠ 0
  | float q => q ≠ some 0
  | str s => s ≠ []
  | arr values => !values.isEmpty
  | obj fields => !fields.isEmpty

/-- `isinstance(value, int)`; a bool is an int. -/
def int? : Json → Option ℤ
  | bool b => some (if b then 1 else 0)
  | int z => some z
  | _ => none

/-- `value == n`. -/
def equalsNat (value : Json) (n : ℕ) : Bool :=
  match value with
  | bool b => (if b then 1 else 0) = n
  | int z => z = n
  | float q => q = some (n : ℚ)
  | _ => false

def str? : Json → Option Str
  | str s => some s
  | _ => none

def arr? : Json → Option (List Json)
  | arr values => some values
  | _ => none

/-- `payload.get(key)` of a dict. -/
def get? (fields : List (Str × Json)) (key : String) : Json :=
  (fields.lookup (Unicode.str key)).getD null

end Json
end Unicode
end PdfBridge
