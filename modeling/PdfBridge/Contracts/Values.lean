import Mathlib.Data.Prod.Lex

/-! Scalar values of the catalog. A bounded text, a failure code and a collection key cannot
be built outside the pattern of their contract. -/
namespace PdfBridge

abbrev Time := ℕ

/-- A UUIDv4, given by the moment it was drawn and its place among those drawn then. -/
abbrev Uuid := ℕ ×ₗ ℕ

instance uuid_lawfulBEq : LawfulBEq Uuid := inferInstance

/-- The `i`th identifier drawn at `now`. -/
def uuid4 (now : Time) (i : ℕ) : Uuid := toLex (now,i)

def Uuid.drawnAt (u : Uuid) : Time := (ofLex u).1

@[simp] theorem uuid4_drawnAt (now : Time) (i : ℕ) : (uuid4 now i).drawnAt = now := rfl

/-- A SHA-256 value; only its identity matters. -/
structure Digest where
  hex : String
deriving DecidableEq

/-- `sha256:` followed by the hash of a canonical profile. -/
structure ProfileId where
  digest : Digest
deriving DecidableEq

/-- Non-empty text of at most `n` characters. -/
abbrev Text (n : ℕ) := {s : String // 1 ≤ s.length ∧ s.length ≤ n}

private def codeHead (c : Char) : Bool := c.isDigit || c.isLower

private def codeTail (c : Char) : Bool :=
  c.isDigit || c.isLower || c = '.' || c = '_' || c = '-'

/-- The contract pattern `[a-z0-9][a-z0-9._-]{0,99}`. -/
def isFailureCode (s : String) : Bool :=
  match s.toList with
  | [] => false
  | c :: cs => codeHead c && cs.all codeTail && cs.length < 100

abbrev FailureCode := {s : String // isFailureCode s = true}

/-- The contract pattern `[a-z0-9][a-z0-9_-]{0,62}`. -/
def isCollectionKey (s : String) : Bool :=
  match s.toList with
  | [] => false
  | c :: cs => codeHead c && cs.all (fun c => codeTail c && c ≠ '.') && cs.length < 63

abbrev CollectionKey := {s : String // isCollectionKey s = true}

instance collectionKey_lawfulBEq : LawfulBEq CollectionKey := inferInstance

/-- A collection key is short and has only digits, lower-case letters, `_` and `-`. -/
theorem isCollectionKey_chars {s : String} (h : isCollectionKey s = true) :
    s.toList.length ≤ 63 ∧ ∀ c ∈ s.toList,
      c.isDigit = true ∨ c.isLower = true ∨ c = '_' ∨ c = '-' := by
  unfold isCollectionKey at h
  split at h
  · cases h
  · rename_i c cs hs
    simp only [Bool.and_eq_true, List.all_eq_true, decide_eq_true_eq, codeHead, codeTail,
      Bool.or_eq_true] at h
    obtain ⟨⟨hc,hcs⟩,hlength⟩ := h
    refine ⟨by rw [hs]; exact hlength,?_⟩
    rw [hs]
    intro x hx
    rcases List.mem_cons.1 hx with rfl | hx
    · exact hc.imp id Or.inl
    · obtain ⟨hx,hdot⟩ := hcs x hx
      tauto

/-- A literal failure code. -/
def failureCode (s : String) (h : isFailureCode s = true := by decide +kernel) : FailureCode :=
  ⟨s,h⟩

def text {n : ℕ} (s : String) (h : 1 ≤ s.length ∧ s.length ≤ n := by decide +kernel) : Text n :=
  ⟨s,h⟩

/-- Cut to `n + 1` characters, with a default in place of an empty text. -/
def boundedText (n : ℕ) (default : Text (n + 1)) (s : String) : Text (n + 1) :=
  if h : s.toList = [] then default
  else ⟨String.ofList (s.toList.take (n + 1)), by
    rw [String.length_ofList, List.length_take]
    have := List.length_pos_iff.2 h
    omega⟩

/-- `_sanitize`: one line, no control characters, at most 500 characters. -/
def sanitize (message : String) : Text 500 :=
  let words := (message.toList.splitOnP Char.isWhitespace).filter (· ≠ [])
  let clean := (List.intercalate [' '] words).map fun c => if 32 ≤ c.toNat then c else '?'
  boundedText 499 (text "preparation failed") (String.ofList clean)

end PdfBridge
