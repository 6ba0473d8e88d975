import Mathlib.Data.List.MinMax
import Mathlib.Data.List.Nodup
import Mathlib.Data.List.Count
import Mathlib.Order.Defs.LinearOrder

/-! The rank of an item in a queue that is ordered by a key: one more than the number of the items
before it. -/
namespace PdfBridge
namespace Rank

variable {α κ : Type} [LinearOrder κ] {f : α → κ} {xs : List α} {a b : α}

def rank (f : α → κ) (xs : List α) (a : α) : ℕ := xs.countP (fun b => f b < f a) + 1

theorem rank_le_rank (h : f a ≤ f b) : rank f xs a ≤ rank f xs b := by
  apply Nat.succ_le_succ
  apply List.countP_mono_left
  intro x _ hx
  exact decide_eq_true ((of_decide_eq_true hx).trans_le h)

theorem rank_lt_rank (ha : a ∈ xs) (h : f a < f b) : rank f xs a < rank f xs b := by
  unfold rank
  apply Nat.succ_lt_succ
  induction xs with
  | nil => cases ha
  | cons x xs ih =>
    have hle : xs.countP (fun y => f y < f a) ≤ xs.countP (fun y => f y < f b) :=
      Nat.le_of_succ_le_succ (rank_le_rank h.le)
    rw [List.countP_cons, List.countP_cons]
    rcases List.mem_cons.1 ha with rfl | ha
    · simp only [lt_irrefl, decide_false, h, decide_true, if_true, Bool.false_eq_true, if_false]
      omega
    · have hlt := ih ha
      by_cases hx : f x < f a
      · simp only [hx, hx.trans h, decide_true, if_true]
        omega
      · simp only [hx, decide_false, Bool.false_eq_true, if_false]
        omega

/-- The rank of an item tells which items stand before it. -/
theorem rank_lt_rank_iff (ha : a ∈ xs) : rank f xs a < rank f xs b ↔ f a < f b := by
  constructor
  · intro h
    by_contra hn
    exact absurd (rank_le_rank (not_lt.1 hn)) (not_le.2 h)
  · exact rank_lt_rank ha

theorem one_le_rank (a : α) : 1 ≤ rank f xs a := Nat.le_add_left 1 _

theorem rank_le_length (ha : a ∈ xs) : rank f xs a ≤ xs.length := by
  have hlt : xs.countP (fun b => f b < f a) < xs.length := by
    apply lt_of_le_of_ne List.countP_le_length
    intro h
    have hself := List.countP_eq_length.1 h a ha
    exact lt_irrefl _ (of_decide_eq_true hself)
  exact hlt

/-- The ranks of items with distinct keys are the numbers from one on, each of them once. -/
theorem map_rank_perm (h : (xs.map f).Nodup) :
    (xs.map (rank f xs)).Perm (List.range' 1 xs.length) := by
  have hinj : ∀ a ∈ xs, ∀ b ∈ xs, rank f xs a = rank f xs b → a = b := by
    intro a ha b hb he
    apply List.inj_on_of_nodup_map h ha hb
    rcases lt_trichotomy (f a) (f b) with hlt | heq | hgt
    · exact absurd he (rank_lt_rank ha hlt).ne
    · exact heq
    · exact absurd he (rank_lt_rank hb hgt).ne'
  have hnodup : (xs.map (rank f xs)).Nodup :=
    (List.nodup_map_iff_inj_on (List.Nodup.of_map f h)).2 hinj
  have hsubset : xs.map (rank f xs) ⊆ List.range' 1 xs.length := by
    intro n hn
    obtain ⟨a,ha,rfl⟩ := List.mem_map.1 hn
    have hone : 1 ≤ rank f xs a := one_le_rank a
    have hle := rank_le_length (f := f) ha
    rw [List.mem_range'_1]
    omega
  apply (List.subperm_of_subset hnodup hsubset).perm_of_length_le
  rw [List.length_range', List.length_map]

/-- Nothing stands before the item with the least key. -/
theorem rank_of_least (h : ∀ b ∈ xs, f a ≤ f b) : rank f xs a = 1 := by
  unfold rank
  rw [List.countP_eq_zero.2]
  intro b hb hlt
  exact absurd (of_decide_eq_true hlt) (not_lt.2 (h b hb))

/-- The items behind one that leaves the queue move up by one. -/
theorem rank_of_perm_cons {ys : List α} (h : xs.Perm (b :: ys)) :
    rank f xs a = rank f ys a + if f b < f a then 1 else 0 := by
  unfold rank
  rw [h.countP_eq, List.countP_cons]
  simp only [decide_eq_true_eq]
  omega

end Rank
end PdfBridge
