import Mathlib.Algebra.BigOperators.Group.List.Lemmas
import Mathlib.Algebra.GroupWithZero.Nat
import Mathlib.Data.List.Dedup
import Mathlib.Data.List.Nodup

/-! Grouping the items of a list by a key, and the aggregates that count them. -/
namespace PdfBridge
namespace Grouping

variable {α κ : Type} [DecidableEq κ]

/-- The groups of a list: every key that occurs, with the items that have it. -/
def groups (key : α → κ) (xs : List α) : List (κ × List α) :=
  (xs.map key).dedup.map fun k => (k,xs.filter fun a => key a = k)

variable {key : α → κ} {xs : List α} {k : κ} {g : List α}

theorem mem_groups : (k,g) ∈ groups key xs ↔ (∃ a ∈ xs, key a = k) ∧
    g = xs.filter fun a => key a = k := by
  unfold groups
  simp only [List.mem_map, List.mem_dedup, Prod.mk.injEq]
  constructor
  · rintro ⟨k',hk,rfl,rfl⟩
    exact ⟨hk,rfl⟩
  · rintro ⟨hk,rfl⟩
    exact ⟨k,hk,rfl,rfl⟩

theorem nodup_keys : ((groups key xs).map Prod.fst).Nodup := by
  unfold groups
  rw [List.map_map]
  show ((xs.map key).dedup.map id).Nodup
  rw [List.map_id]
  exact List.nodup_dedup _

theorem group_ne_nil (h : (k,g) ∈ groups key xs) : g ≠ [] := by
  obtain ⟨⟨a,ha,hk⟩,rfl⟩ := mem_groups.1 h
  apply List.ne_nil_of_mem (a := a)
  exact List.mem_filter.2 ⟨ha,decide_eq_true hk⟩

theorem count_map : (xs.map key).count k = (xs.filter fun a => key a = k).length := by
  rw [List.count_eq_countP, List.countP_map, List.countP_eq_length_filter]
  congr 1

/-- The sizes of the groups of a kind add up to the number of the items of that kind. -/
theorem sum_groups (p : κ → Bool) : (((groups key xs).filter fun g => p g.1).map
    fun g => g.2.length).sum = xs.countP fun a => p (key a) := by
  have hfilter : (groups key xs).filter (fun g => p g.1) =
      ((xs.map key).dedup.filter p).map fun k => (k,xs.filter fun a => key a = k) := by
    unfold groups
    rw [List.filter_map]
    rfl
  have hcount : (((xs.map key).dedup.filter p).map fun k => (xs.map key).count k).sum =
      (xs.map key).countP p := List.sum_map_count_dedup_filter_eq_countP p _
  rw [hfilter, List.map_map]
  simp only [count_map, List.countP_map] at hcount
  exact hcount

end Grouping
end PdfBridge
