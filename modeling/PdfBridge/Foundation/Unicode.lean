import Mathlib.Algebra.GroupWithZero.Nat
import Mathlib.Data.List.DropRight

/-! Strings as sequences of code points, with the operations of `str` and the character classes
that text processing reads. Unpaired surrogates are code points like all others. -/
namespace PdfBridge
namespace Unicode

abbrev CodePoint := Fin 0x110000

abbrev Str := List CodePoint

instance codePoints_neZero : NeZero 0x110000 := ⟨by decide⟩

instance str_lawfulBEq : LawfulBEq Str := inferInstance

def codePoint (c : Char) : CodePoint := Fin.ofNat 0x110000 c.toNat

/-- A literal. -/
def str (s : String) : Str := s.toList.map codePoint

def newline : CodePoint := 10

/-! ### Character classes -/

/-- General category `Cc`. -/
def isControl (c : CodePoint) : Bool := c.val < 0x20 || (0x7f ≤ c.val && c.val < 0xa0)

/-- General category `Cs`. -/
def isSurrogate (c : CodePoint) : Bool := 0xd800 ≤ c.val && c.val ≤ 0xdfff

/-- The ranges of general category `Cf`. -/
def formatRanges : List (ℕ × ℕ) :=
  [(0xad,0xad),(0x600,0x605),(0x61c,0x61c),(0x6dd,0x6dd),(0x70f,0x70f),(0x890,0x891),(0x8e2,0x8e2),
    (0x180e,0x180e),(0x200b,0x200f),(0x202a,0x202e),(0x2060,0x2064),(0x2066,0x206f),
    (0xfeff,0xfeff),(0xfff9,0xfffb),(0x110bd,0x110bd),(0x110cd,0x110cd),(0x13430,0x1343f),
    (0x1bca0,0x1bca3),(0x1d173,0x1d17a),(0xe0001,0xe0001),(0xe0020,0xe007f)]

/-- General category `Cf`. -/
def isFormat (c : CodePoint) : Bool := formatRanges.any fun r => r.1 ≤ c.val && c.val ≤ r.2

/-- `str.isspace` of one character. -/
def isSpace (c : CodePoint) : Bool :=
  (9 ≤ c.val && c.val ≤ 13) || (0x1c ≤ c.val && c.val ≤ 0x20) || c.val = 0x85 || c.val = 0xa0 ||
  c.val = 0x1680 || (0x2000 ≤ c.val && c.val ≤ 0x200a) || c.val = 0x2028 || c.val = 0x2029 ||
  c.val = 0x202f || c.val = 0x205f || c.val = 0x3000

/-- The boundaries of `str.splitlines`. -/
def isLineBreak (c : CodePoint) : Bool :=
  (10 ≤ c.val && c.val ≤ 13) || (0x1c ≤ c.val && c.val ≤ 0x1e) || c.val = 0x85 ||
  c.val = 0x2028 || c.val = 0x2029

/-! ### Operations of `str` -/

/-- `s.replace("\r\n", "\n").replace("\r", "\n")`. -/
def universalNewlines : Str → Str
  | [] => []
  | [c] => [if c = 13 then newline else c]
  | c :: c' :: s =>
      if c = 13 then
        if c' = newline then newline :: universalNewlines s
        else newline :: universalNewlines (c' :: s)
      else c :: universalNewlines (c' :: s)

def rstrip (s : Str) : Str := s.rdropWhile isSpace

def lstrip (s : Str) : Str := s.dropWhile isSpace

def strip (s : Str) : Str := rstrip (lstrip s)

/-- `not s.strip()`. -/
def isBlank (s : Str) : Bool := s.all isSpace

/-- `s.split("\n")`. -/
def splitNewline (s : Str) : List Str := s.splitOn newline

/-- `"\n".join(lines)`. -/
def joinLines (lines : List Str) : Str := List.intercalate [newline] lines

/-- Put a character in front of the first line. -/
def consLine (c : CodePoint) : List Str → List Str
  | [] => [[c]]
  | l :: lines => (c :: l) :: lines

/-- `s.splitlines()`; `"\r\n"` is one boundary. -/
def splitlines : Str → List Str
  | [] => []
  | [c] => if isLineBreak c then [[]] else [[c]]
  | c :: c' :: s =>
      if isLineBreak c then
        if c = 13 ∧ c' = newline then [] :: splitlines s else [] :: splitlines (c' :: s)
      else consLine c (splitlines (c' :: s))

variable {s : Str} {c : CodePoint}

/-- Text without carriage returns has universal newlines. -/
theorem universalNewlines_of_not_mem (h : (13 : CodePoint) ∉ s) : universalNewlines s = s := by
  induction s using universalNewlines.induct with
  | case1 => rfl
  | case2 c =>
    have hc : c ≠ 13 := fun hc => h (by simp [hc])
    simp [universalNewlines, hc]
  | case3 s _ => exact absurd List.mem_cons_self h
  | case4 c' s _ _ => exact absurd List.mem_cons_self h
  | case5 c c' s hc ih =>
    simp only [universalNewlines, hc, if_false]
    rw [ih fun hm => h (List.mem_cons_of_mem _ hm)]

theorem mem_intercalate {sep : Str} {ts : List Str} (h : c ∈ List.intercalate sep ts) :
    c ∈ sep ∨ ∃ t ∈ ts, c ∈ t := by
  induction ts with
  | nil => simp at h
  | cons t ts ih =>
    cases ts with
    | nil => exact Or.inr ⟨t,List.mem_cons_self,by simpa using h⟩
    | cons t' ts =>
      have hjoin : List.intercalate sep (t :: t' :: ts) =
          t ++ (sep ++ List.intercalate sep (t' :: ts)) := by simp [List.intercalate]
      rw [hjoin, List.mem_append, List.mem_append] at h
      rcases h with h | h | h
      · exact Or.inr ⟨t,List.mem_cons_self,h⟩
      · exact Or.inl h
      · rcases ih h with h | ⟨x,hx,hc⟩
        · exact Or.inl h
        · exact Or.inr ⟨x,List.mem_cons_of_mem _ hx,hc⟩

theorem mem_joinLines {lines : List Str} (h : c ∈ joinLines lines) :
    c = newline ∨ ∃ l ∈ lines, c ∈ l :=
  (mem_intercalate h).imp_left List.mem_singleton.1

theorem mem_of_mem_splitNewline {l : Str} (hl : l ∈ splitNewline s) (hc : c ∈ l) : c ∈ s := by
  have hs : joinLines (splitNewline s) = s := by
    rw [joinLines, splitNewline]
    exact List.intercalate_splitOn newline
  rw [← hs]
  generalize splitNewline s = lines at hl
  induction lines with
  | nil => cases hl
  | cons x lines ih =>
    cases lines with
    | nil =>
      rw [List.mem_singleton] at hl
      simpa [joinLines, ← hl] using hc
    | cons x' lines =>
      have hjoin : joinLines (x :: x' :: lines) = x ++ newline :: joinLines (x' :: lines) := by
        simp [joinLines, List.intercalate]
      rw [hjoin, List.mem_append, List.mem_cons]
      rcases List.mem_cons.1 hl with rfl | hl
      · exact Or.inl hc
      · exact Or.inr (Or.inr (ih hl))

theorem mem_of_mem_rstrip (h : c ∈ rstrip s) : c ∈ s := by
  rw [rstrip] at h
  exact (List.rdropWhile_prefix isSpace s).subset h

/-- What `rstrip` removes from a concatenation. -/
theorem rstrip_append (a b : Str) :
    rstrip (a ++ b) = if rstrip b = [] then rstrip a else a ++ rstrip b := by
  unfold rstrip List.rdropWhile
  rw [List.reverse_append, List.dropWhile_append]
  by_cases h : (b.reverse.dropWhile isSpace) = []
  · simp [h]
  · have hne : (b.reverse.dropWhile isSpace).isEmpty = false := by
      rw [List.isEmpty_eq_false_iff]
      exact h
    simp [h, hne]

theorem rstrip_eq_nil_iff {s : Str} : rstrip s = [] ↔ isBlank s = true := by
  rw [rstrip, List.rdropWhile_eq_nil_iff, isBlank, List.all_eq_true]

theorem lstrip_rstrip (s : Str) : lstrip (rstrip s) = rstrip (lstrip s) := by
  induction s with
  | nil => rfl
  | cons c s ih =>
    have happ := rstrip_append [c] s
    rw [List.singleton_append] at happ
    by_cases hc : isSpace c = true
    · have hleft : lstrip (c :: s) = lstrip s := List.dropWhile_cons_of_pos hc
      rw [hleft, happ]
      split
      · rename_i hnil
        rw [← ih, hnil]
        simp [rstrip, List.rdropWhile, hc, lstrip]
      · rw [← ih]
        exact List.dropWhile_cons_of_pos hc
    · have hleft : lstrip (c :: s) = c :: s := List.dropWhile_cons_of_neg hc
      rw [hleft, happ]
      split
      · simp [rstrip, List.rdropWhile, hc, lstrip]
      · exact List.dropWhile_cons_of_neg hc

theorem strip_rstrip (s : Str) : strip (rstrip s) = strip s := by
  have hidem : rstrip (rstrip (lstrip s)) = rstrip (lstrip s) :=
    List.rdropWhile_idempotent isSpace (lstrip s)
  rw [strip, lstrip_rstrip, hidem, strip]

theorem lstrip_lstrip (s : Str) : lstrip (lstrip s) = lstrip s :=
  List.dropWhile_idempotent isSpace s

theorem strip_lstrip (s : Str) : strip (lstrip s) = strip s := by
  rw [strip, lstrip_lstrip, strip]

theorem lstrip_strip (s : Str) : lstrip (strip s) = strip s := by
  rw [strip, lstrip_rstrip, lstrip_lstrip]

theorem strip_idem (s : Str) : strip (strip s) = strip s := by
  have hr : rstrip (strip s) = strip s := List.rdropWhile_idempotent isSpace (lstrip s)
  rw [strip, lstrip_strip, hr]

end Unicode
end PdfBridge
