import Mathlib.Data.Nat.Digits.Lemmas

/-! Hexadecimal texts of a least width, and the five groups that write a number of 128 bits given
by its halves. Every text is read back. -/
namespace PdfBridge
namespace HexText

variable {width n : ℕ} {c : Char} {u : ℕ × ℕ}

def hexText (width n : ℕ) : List Char := ((Nat.digitsAppend 16 width n).map Nat.digitChar).reverse

def hexValue (c : Char) : ℕ := if c.isDigit then c.toNat - 48 else c.toNat - 87

def readHex (cs : List Char) : ℕ := Nat.ofDigits 16 (cs.reverse.map hexValue)

theorem hexValue_digitChar : ∀ d < 16, hexValue d.digitChar = d := by decide

theorem readHex_hexText (width n : ℕ) : readHex (hexText width n) = n := by
  have hvalues : (hexText width n).reverse.map hexValue = Nat.digitsAppend 16 width n := by
    simp only [hexText, List.reverse_reverse, List.map_map]
    refine (List.map_congr_left fun d hd => ?_).trans (List.map_id _)
    exact hexValue_digitChar d (Nat.lt_of_mem_digitsAppend (by decide) width d hd)
  rw [readHex, hvalues, Nat.digitsAppend, Nat.ofDigits_append_replicate_zero, Nat.ofDigits_digits]

theorem mem_hexText (h : c ∈ hexText width n) : ∃ d < 16, c = d.digitChar := by
  simp only [hexText, List.mem_reverse, List.mem_map] at h
  obtain ⟨d,hd,rfl⟩ := h
  exact ⟨d,Nat.lt_of_mem_digitsAppend (by decide) width d hd,rfl⟩

theorem length_hexText (h : n < 16 ^ width) : (hexText width n).length = width := by
  rw [hexText, List.length_reverse, List.length_map, Nat.length_digitsAppend (by decide) width h]

/-! ### Five groups -/

/-- The groups of 8, 4, 4, 4 and 12 digits. -/
def groups (u : ℕ × ℕ) : List (List Char) :=
  [hexText 8 (u.1 / 2 ^ 32),hexText 4 (u.1 / 2 ^ 16 % 2 ^ 16),hexText 4 (u.1 % 2 ^ 16),
    hexText 4 (u.2 / 2 ^ 48),hexText 12 (u.2 % 2 ^ 48)]

def groupText (u : ℕ × ℕ) : String := String.ofList (['-'].intercalate (groups u))

def readGroups (s : String) : Option (ℕ × ℕ) :=
  match s.toList.splitOn '-' with
  | [v,w,x,y,z] =>
      some ((readHex v * 2 ^ 16 + readHex w) * 2 ^ 16 + readHex x,readHex y * 2 ^ 48 + readHex z)
  | _ => none

theorem digitChar_ne_dash : ∀ d < 16, Nat.digitChar d ≠ '-' := by decide

theorem dash_not_mem_groups {g : List Char} (hg : g ∈ groups u) : '-' ∉ g := by
  have hdash : ∀ width n, '-' ∉ hexText width n := by
    intro width n h
    obtain ⟨d,hd,he⟩ := mem_hexText h
    exact digitChar_ne_dash d hd he.symm
  simp only [groups, List.mem_cons, List.not_mem_nil, or_false] at hg
  rcases hg with rfl | rfl | rfl | rfl | rfl <;> exact hdash _ _

theorem readGroups_groupText (u : ℕ × ℕ) : readGroups (groupText u) = some u := by
  have hsplit : (groupText u).toList.splitOn '-' = groups u := by
    rw [groupText, String.toList_ofList]
    exact List.splitOn_intercalate '-' (fun g hg => dash_not_mem_groups hg) (List.cons_ne_nil _ _)
  simp only [readGroups, hsplit, groups, readHex_hexText, Option.some.injEq]
  refine Prod.ext ?_ ?_
  · simp only
    omega
  · simp only
    omega

theorem groupText_injective : Function.Injective groupText := fun u w h =>
  Option.some.inj ((readGroups_groupText u).symm.trans (h ▸ readGroups_groupText w))

theorem mem_groupText (h : c ∈ (groupText u).toList) : c = '-' ∨ ∃ d < 16, c = d.digitChar := by
  simp only [groupText, String.toList_ofList, groups, List.intercalate_cons_cons,
    List.intercalate_singleton, List.mem_append, List.mem_singleton, or_assoc] at h
  rcases h with h | h | h | h | h | h | h | h | h
  all_goals first | exact Or.inl h | exact Or.inr (mem_hexText h)

theorem length_groupText (h : u.1 < 2 ^ 64 ∧ u.2 < 2 ^ 64) : (groupText u).length = 36 := by
  obtain ⟨h₁,h₂⟩ := h
  have g₁ : (hexText 8 (u.1 / 2 ^ 32)).length = 8 := length_hexText (by omega)
  have g₂ : (hexText 4 (u.1 / 2 ^ 16 % 2 ^ 16)).length = 4 := length_hexText (by omega)
  have g₃ : (hexText 4 (u.1 % 2 ^ 16)).length = 4 := length_hexText (by omega)
  have g₄ : (hexText 4 (u.2 / 2 ^ 48)).length = 4 := length_hexText (by omega)
  have g₅ : (hexText 12 (u.2 % 2 ^ 48)).length = 12 := length_hexText (by omega)
  simp only [groupText, String.length_ofList, groups, List.intercalate_cons_cons,
    List.intercalate_singleton, List.length_append, List.length_singleton, g₁, g₂, g₃, g₄, g₅]

example : groupText (0x4000,2 ^ 63 + 2) = "00000000-0000-4000-8000-000000000002" := by decide

end HexText
end PdfBridge
