import Mathlib.Data.Nat.Notation
import Mathlib.Tactic.Common

/-! Bisection for the last position that passes a test. The test need not be monotone: the search
returns a position that it has tested, and where the test is monotone, the last one that passes. -/
namespace PdfBridge
namespace Bisection

/-- Search the positions from `low` below `limit`; `best` is the last one found before. -/
def bisect (test : ℕ → Bool) (low limit best : ℕ) : ℕ :=
  if low < limit then
    let middle := (low + (limit - 1)) / 2
    if test middle then bisect test (middle + 1) limit middle
    else bisect test low middle best
  else best
termination_by limit - low

variable {test : ℕ → Bool} {low limit best : ℕ}

theorem bisect_of_le (h : limit ≤ low) : bisect test low limit best = best := by
  rw [bisect, if_neg (Nat.not_lt.2 h)]

theorem bisect_pass (h : low < limit) (htest : test ((low + (limit - 1)) / 2) = true) :
    bisect test low limit best =
      bisect test ((low + (limit - 1)) / 2 + 1) limit ((low + (limit - 1)) / 2) := by
  rw [bisect, if_pos h]
  exact if_pos htest

theorem bisect_fail (h : low < limit) (htest : ¬ test ((low + (limit - 1)) / 2) = true) :
    bisect test low limit best = bisect test low ((low + (limit - 1)) / 2) best := by
  rw [bisect, if_pos h]
  exact if_neg htest

/-- The result is the initial value or a tested position that passed. -/
theorem bisect_passes : bisect test low limit best = best ∨
    (test (bisect test low limit best) = true ∧ low ≤ bisect test low limit best ∧
      bisect test low limit best < limit) := by
  induction low, limit, best using bisect.induct test with
  | case1 low limit best hlt middle htest ih =>
    right
    rw [bisect_pass hlt htest]
    have hmiddle : middle = (low + (limit - 1)) / 2 := rfl
    clear_value middle
    subst hmiddle
    rcases ih with ih | ⟨hpass,hlow,hhigh⟩
    · rw [ih]
      exact ⟨htest,by omega,by omega⟩
    · exact ⟨hpass,by omega,hhigh⟩
  | case2 low limit best hlt middle htest ih =>
    rw [bisect_fail hlt htest]
    have hmiddle : middle = (low + (limit - 1)) / 2 := rfl
    clear_value middle
    subst hmiddle
    rcases ih with ih | ⟨hpass,hlow,hhigh⟩
    · exact Or.inl ih
    · exact Or.inr ⟨hpass,hlow,by omega⟩
  | case3 low limit best hlt => exact Or.inl (bisect_of_le (Nat.not_lt.1 hlt))

/-- Where passing is inherited by smaller positions, nothing beyond the result passes. -/
theorem bisect_last (hmono : ∀ i j, low ≤ i → i ≤ j → j < limit → test j = true → test i = true)
    {j : ℕ} (hlow : low ≤ j) (hj : j < limit) (htest : test j = true) :
    j ≤ bisect test low limit best := by
  induction low, limit, best using bisect.induct test with
  | case1 low limit best hlt middle hmiddle ih =>
    rw [bisect_pass hlt hmiddle]
    by_cases hle : j ≤ middle
    · rcases @bisect_passes test (middle + 1) limit middle with h | ⟨-,h,-⟩
      · exact Nat.le_trans hle (Nat.le_of_eq h.symm)
      · exact Nat.le_trans hle (Nat.le_of_succ_le h)
    · have hmiddle : middle = (low + (limit - 1)) / 2 := rfl
      exact ih (fun a b ha => hmono a b (by omega)) (by omega) hj
  | case2 low limit best hlt middle hmiddle ih =>
    rw [bisect_fail hlt hmiddle]
    have hm : middle = (low + (limit - 1)) / 2 := rfl
    have hle : j < middle := by
      by_contra hge
      exact hmiddle (hmono _ j (by omega) (by omega) hj htest)
    exact ih (fun a b ha hab hb => hmono a b ha hab (by omega)) hlow hle
  | case3 low limit best hlt => omega

/-- The first position that is within reach when the limit is lowered as for failing tests. -/
def firstWithin (reach : ℕ → Bool) (low limit : ℕ) : Option ℕ :=
  if low < limit then
    let middle := (low + (limit - 1)) / 2
    if reach middle then some middle else firstWithin reach low middle
  else none
termination_by limit - low

variable {reach : ℕ → Bool} {m : ℕ}

theorem firstWithin_some (h : firstWithin reach low limit = some m) :
    reach m = true ∧ low ≤ m ∧ m < limit := by
  induction limit using firstWithin.induct reach low with
  | case1 limit hlt middle hreach =>
    rw [firstWithin, if_pos hlt, if_pos hreach] at h
    cases h
    exact ⟨hreach,by omega,by omega⟩
  | case2 limit hlt middle hreach ih =>
    rw [firstWithin, if_pos hlt, if_neg hreach] at h
    have hmiddle : middle = (low + (limit - 1)) / 2 := rfl
    obtain ⟨hpass,hlow,hhigh⟩ := ih h
    exact ⟨hpass,hlow,by omega⟩
  | case3 limit hlt =>
    rw [firstWithin, if_neg hlt] at h
    cases h

theorem firstWithin_exists (hlt : low < limit) (hlow : reach low = true) :
    ∃ m, firstWithin reach low limit = some m := by
  induction limit using firstWithin.induct reach low with
  | case1 limit hlt' middle hreach =>
    rw [firstWithin, if_pos hlt', if_pos hreach]
    exact ⟨_,rfl⟩
  | case2 limit hlt' middle hreach ih =>
    have hmiddle : middle = (low + (limit - 1)) / 2 := rfl
    rw [firstWithin, if_pos hlt', if_neg hreach]
    refine ih ?_
    rcases Nat.lt_or_ge low middle with h | h
    · exact h
    · have heq : low = middle := by omega
      rw [heq] at hlow
      exact absurd hlow hreach
  | case3 limit hlt' => exact absurd hlt hlt'

/-- The tests pass on the positions within reach that are behind a floor. -/
structure Window (test reach : ℕ → Bool) (floor low limit : ℕ) : Prop where
  mono : ∀ i j, i ≤ j → reach j = true → reach i = true
  test : ∀ i, low ≤ i → i < limit → (test i = true ↔ reach i = true ∧ floor < i)

variable {floor : ℕ}

/-- The search finds the last position within reach when the first one that it meets is behind the
floor. -/
theorem bisect_found (hw : Window test reach floor low limit)
    (hfirst : firstWithin reach low limit = some m) (hm : floor < m) :
    (test (bisect test low limit best) = true ∧ low ≤ bisect test low limit best ∧
      bisect test low limit best < limit) ∧
      ∀ j, j < limit → reach j = true → j ≤ bisect test low limit best := by
  induction low, limit, best using bisect.induct test with
  | case1 low limit best hlt middle hmiddle ih =>
    clear ih
    rw [bisect_pass hlt hmiddle]
    have heq : middle = (low + (limit - 1)) / 2 := rfl
    have hpass := (hw.test middle (by omega) (by omega)).1 hmiddle
    clear_value middle
    subst heq
    constructor
    · rcases @bisect_passes test ((low + (limit - 1)) / 2 + 1) limit ((low + (limit - 1)) / 2)
        with h | ⟨htest,hlow,hhigh⟩
      · rw [h]
        exact ⟨hmiddle,by omega,by omega⟩
      · exact ⟨htest,by omega,hhigh⟩
    · intro j hj hreach
      by_cases hle : j ≤ (low + (limit - 1)) / 2
      · rcases @bisect_passes test ((low + (limit - 1)) / 2 + 1) limit ((low + (limit - 1)) / 2)
          with h | ⟨-,hlow,-⟩
        · omega
        · omega
      · refine bisect_last (fun i k hi hik hk htest => ?_) (by omega) hj ?_
        · have := (hw.test k (by omega) hk).1 htest
          exact (hw.test i (by omega) (by omega)).2 ⟨hw.mono i k hik this.1,by omega⟩
        · exact (hw.test j (by omega) hj).2 ⟨hreach,by omega⟩
  | case2 low limit best hlt middle hmiddle ih =>
    rw [bisect_fail hlt hmiddle]
    have heq : middle = (low + (limit - 1)) / 2 := rfl
    rw [firstWithin, if_pos hlt] at hfirst
    by_cases hreach : reach middle = true
    · have hsome : some middle = some m := by
        rw [← hfirst]
        exact (if_pos hreach).symm
      rw [← Option.some.inj hsome] at hm
      exact absurd ((hw.test middle (by omega) (by omega)).2 ⟨hreach,hm⟩) hmiddle
    · clear_value middle
      subst heq
      have hrest : firstWithin reach low ((low + (limit - 1)) / 2) = some m := by
        rw [← hfirst]
        exact (if_neg hreach).symm
      obtain ⟨⟨htest,hlow,hhigh⟩,hlast⟩ :=
        ih ⟨hw.mono,fun i hi hlt' => hw.test i hi (by omega)⟩ hrest
      refine ⟨⟨htest,hlow,by omega⟩,fun j hj hjreach => hlast j ?_ hjreach⟩
      by_contra hge
      exact hreach (hw.mono _ j (by omega) hjreach)
  | case3 low limit best hlt =>
    rw [firstWithin, if_neg hlt] at hfirst
    cases hfirst

/-- The search finds nothing when the first position within reach that it meets is not behind the
floor. -/
theorem bisect_missed (hw : Window test reach floor low limit)
    (hfirst : ∀ m, firstWithin reach low limit = some m → m ≤ floor) :
    bisect test low limit best = best := by
  induction low, limit, best using bisect.induct test with
  | case1 low limit best hlt middle hmiddle ih =>
    have heq : middle = (low + (limit - 1)) / 2 := rfl
    have hpass := (hw.test middle (by omega) (by omega)).1 hmiddle
    have hle := hfirst middle (by rw [firstWithin, if_pos hlt]; exact if_pos hpass.1)
    omega
  | case2 low limit best hlt middle hmiddle ih =>
    rw [bisect_fail hlt hmiddle]
    have heq : middle = (low + (limit - 1)) / 2 := rfl
    by_cases hreach : reach middle = true
    · -- everything below lies in front of the floor
      have hle := hfirst middle (by rw [firstWithin, if_pos hlt]; exact if_pos hreach)
      rcases @bisect_passes test low middle best with h | ⟨htest,hlow,hhigh⟩
      · exact h
      · have := (hw.test _ hlow (by omega)).1 htest
        omega
    · refine ih ⟨hw.mono,fun i hi hlt' => hw.test i hi (by omega)⟩ fun m hm => hfirst m ?_
      rw [firstWithin, if_pos hlt]
      rw [← hm]
      exact if_neg hreach
  | case3 low limit best hlt => exact bisect_of_le (Nat.not_lt.1 hlt)

end Bisection
end PdfBridge
