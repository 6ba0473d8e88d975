import Mathlib.Data.List.MinMax
import Mathlib.Data.List.Nodup
import Mathlib.Data.Prod.Lex

/-! Finite tables of rows with a primary key. A table cannot hold two rows of one key; the
lemmas describe lookups, membership and the latest row after an upsert. -/
namespace PdfBridge

/-- Rows that are pairwise different in their primary key. -/
structure Table {κ ρ : Type} (key : ρ → κ) where
  rows : List ρ
  nodup : (rows.map key).Nodup

namespace Table
variable {κ ρ : Type} {key : ρ → κ}

instance : EmptyCollection (Table key) := ⟨⟨[],List.nodup_nil⟩⟩

instance : Membership ρ (Table key) := ⟨fun t r => r ∈ t.rows⟩

instance [DecidableEq ρ] : DecidableEq (Table key) := fun s t =>
  decidable_of_iff (s.rows = t.rows) ⟨fun h => by cases s; cases t; simpa using h,
    fun h => by rw [h]⟩

instance [DecidableEq ρ] (r : ρ) (t : Table key) : Decidable (r ∈ t) :=
  inferInstanceAs (Decidable (r ∈ t.rows))

theorem mem_def {r : ρ} {t : Table key} : r ∈ t ↔ r ∈ t.rows := Iff.rfl

@[simp] theorem not_mem_empty (r : ρ) : ¬ r ∈ (∅ : Table key) := List.not_mem_nil

/-- The key determines the row. -/
theorem eq_of_key_eq {t : Table key} {r s : ρ} (hr : r ∈ t) (hs : s ∈ t)
    (h : key r = key s) : r = s :=
  List.inj_on_of_nodup_map t.nodup hr hs h

theorem ext_rows {t u : Table key} (h : t.rows = u.rows) : t = u := by
  cases t
  cases u
  simpa using h

/-- Drop the rows that fail a test. -/
def keep (t : Table key) (p : ρ → Bool) : Table key where
  rows := t.rows.filter p
  nodup := (t.nodup).sublist ((List.filter_sublist).map key)

@[simp] theorem mem_keep {t : Table key} {p : ρ → Bool} {r : ρ} :
    r ∈ t.keep p ↔ r ∈ t ∧ p r = true := List.mem_filter

/-- Rewrite every row by a function that keeps its key. -/
def update (t : Table key) (f : ρ → ρ) (hf : ∀ r, key (f r) = key r) : Table key where
  rows := t.rows.map f
  nodup := by
    rw [List.map_map]
    have : key ∘ f = key := funext hf
    rw [this]
    exact t.nodup

theorem mem_update {t : Table key} {f : ρ → ρ} {hf : ∀ r, key (f r) = key r} {s : ρ} :
    s ∈ t.update f hf ↔ ∃ r, r ∈ t ∧ f r = s := List.mem_map

theorem mem_update_of_mem {t : Table key} {f : ρ → ρ} (hf : ∀ r, key (f r) = key r) {r : ρ}
    (hr : r ∈ t) : f r ∈ t.update f hf := List.mem_map_of_mem hr

variable [DecidableEq κ]

def lookup (t : Table key) (k : κ) : Option ρ := t.rows.find? fun r => key r = k

/-- The row `r` in place of the row that has its key. -/
def replacing (key : ρ → κ) (r s : ρ) : ρ := if key s = key r then r else s

theorem key_replacing (r s : ρ) : key (replacing key r s) = key s := by
  unfold replacing
  split
  · rename_i h
    exact h.symm
  · rfl

/-- Insert a row in front, or replace the row that has its key. -/
def put (t : Table key) (r : ρ) : Table key where
  rows := if key r ∈ t.rows.map key then t.rows.map (replacing key r) else r :: t.rows
  nodup := by
    split
    · have : (key ∘ replacing key r) = key := funext (key_replacing r)
      rw [List.map_map, this]
      exact t.nodup
    · rename_i h
      rw [List.map_cons, List.nodup_cons]
      exact ⟨h,t.nodup⟩

theorem rows_put_of_not_mem {t : Table key} {r : ρ} (h : ∀ s, s ∈ t → key s ≠ key r) :
    (t.put r).rows = r :: t.rows := by
  have hn : key r ∉ t.rows.map key := by
    rw [List.mem_map]
    rintro ⟨s,hs,he⟩
    exact h s hs he
  simp only [put, if_neg hn]

theorem rows_put_of_mem {t : Table key} {r s : ρ} (hs : s ∈ t) (h : key s = key r) :
    (t.put r).rows = t.rows.map (replacing key r) := by
  simp only [put, if_pos (List.mem_map.2 ⟨s,hs,h⟩)]

theorem mem_put {t : Table key} {r s : ρ} :
    s ∈ t.put r ↔ s = r ∨ (s ∈ t ∧ key s ≠ key r) := by
  by_cases hr : key r ∈ t.rows.map key
  · obtain ⟨r₀,hr₀,hk⟩ := List.mem_map.1 hr
    rw [mem_def, rows_put_of_mem hr₀ hk, List.mem_map]
    constructor
    · rintro ⟨x,hx,rfl⟩
      unfold replacing
      split
      · exact Or.inl rfl
      · rename_i h
        exact Or.inr ⟨hx,h⟩
    · rintro (rfl | ⟨hs,hne⟩)
      · exact ⟨r₀,hr₀,by simp [replacing, hk]⟩
      · exact ⟨s,hs,by simp [replacing, hne]⟩
  · have hn : ∀ s, s ∈ t → key s ≠ key r := fun s hs he => hr (List.mem_map.2 ⟨s,hs,he⟩)
    rw [mem_def, rows_put_of_not_mem hn, List.mem_cons]
    constructor
    · rintro (rfl | hs)
      · exact Or.inl rfl
      · exact Or.inr ⟨hs,hn s hs⟩
    · rintro (rfl | hs)
      · exact Or.inl rfl
      · exact Or.inr hs.1

/-- A replaced row stays in its place. -/
theorem rows_put_append {t : Table key} {r s : ρ} {front rest : List ρ}
    (ht : t.rows = front ++ s :: rest) (h : key s = key r) :
    (t.put r).rows = front ++ r :: rest := by
  have hs : s ∈ t := by rw [mem_def, ht]; simp
  have hn := t.nodup
  rw [ht, List.map_append, List.map_cons, List.nodup_append] at hn
  have keeps : ∀ l : List ρ, (∀ x ∈ l, key x ≠ key s) → l.map (replacing key r) = l := by
    intro l hl
    refine (List.map_congr_left fun x hx => ?_).trans (List.map_id l)
    have : key x ≠ key r := h ▸ hl x hx
    simp [replacing, this]
  rw [rows_put_of_mem hs h, ht, List.map_append, List.map_cons, keeps front, keeps rest]
  · simp [replacing, h]
  · intro x hx he
    exact (List.nodup_cons.1 hn.2.1).1 (he ▸ List.mem_map_of_mem hx)
  · intro x hx he
    exact hn.2.2 (key x) (List.mem_map_of_mem hx) (key s) List.mem_cons_self he

/-- The last row of a key wins. -/
theorem put_put {t : Table key} {r s : ρ} (h : key r = key s) : (t.put r).put s = t.put s := by
  have hr : r ∈ t.put r := mem_put.2 (Or.inl rfl)
  apply ext_rows
  rw [rows_put_of_mem hr h]
  by_cases hs : ∃ x, x ∈ t ∧ key x = key s
  · obtain ⟨x,hx,hxs⟩ := hs
    rw [rows_put_of_mem hx hxs, rows_put_of_mem hx (hxs.trans h.symm), List.map_map]
    refine List.map_congr_left fun y _ => ?_
    simp only [Function.comp_apply, replacing, h]
    by_cases hy : key y = key s <;> simp [hy, h]
  · have hs' : ∀ x, x ∈ t → key x ≠ key s := fun x hx he => hs ⟨x,hx,he⟩
    rw [rows_put_of_not_mem hs', rows_put_of_not_mem (fun x hx => h ▸ hs' x hx), List.map_cons]
    have hid : t.rows.map (replacing key s) = t.rows := by
      refine (List.map_congr_left fun x hx => ?_).trans (List.map_id _)
      simp [replacing, hs' x hx]
    rw [hid]
    simp [replacing, h]

/-- Two present rows of different keys can be replaced in either order. -/
theorem put_comm {t : Table key} {r s r₀ s₀ : ρ} (hr₀ : r₀ ∈ t) (hr : key r₀ = key r)
    (hs₀ : s₀ ∈ t) (hs : key s₀ = key s) (hne : key r ≠ key s) :
    (t.put r).put s = (t.put s).put r := by
  have hs₁ : s₀ ∈ t.put r := mem_put.2 (Or.inr ⟨hs₀,fun h => hne ((hs.symm.trans h).symm)⟩)
  have hr₁ : r₀ ∈ t.put s := mem_put.2 (Or.inr ⟨hr₀,fun h => hne (hr.symm.trans h)⟩)
  apply ext_rows
  rw [rows_put_of_mem hs₁ hs, rows_put_of_mem hr₁ hr, rows_put_of_mem hr₀ hr,
    rows_put_of_mem hs₀ hs, List.map_map, List.map_map]
  refine List.map_congr_left fun x _ => ?_
  simp only [Function.comp_apply, replacing]
  by_cases hx : key x = key r
  · have hxs : key x ≠ key s := fun h => hne (hx.symm.trans h)
    simp [hx, hne]
  · by_cases hxs : key x = key s
    · simp [hxs, Ne.symm hne]
    · simp [hx, hxs]

@[simp] theorem mem_put_self (t : Table key) (r : ρ) : r ∈ t.put r := mem_put.2 (Or.inl rfl)

theorem mem_of_lookup {t : Table key} {k : κ} {r : ρ} (h : t.lookup k = some r) : r ∈ t :=
  List.mem_of_find?_eq_some h

theorem key_of_lookup {t : Table key} {k : κ} {r : ρ} (h : t.lookup k = some r) :
    key r = k := by
  simpa using List.find?_some h

theorem lookup_of_mem {t : Table key} {r : ρ} (h : r ∈ t) : t.lookup (key r) = some r := by
  cases hl : t.lookup (key r) with
  | none =>
    have := List.find?_eq_none.1 hl r h
    simp at this
  | some s => rw [eq_of_key_eq (mem_of_lookup hl) h (key_of_lookup hl)]

theorem lookup_eq_some {t : Table key} {k : κ} {r : ρ} :
    t.lookup k = some r ↔ r ∈ t ∧ key r = k :=
  ⟨fun h => ⟨mem_of_lookup h,key_of_lookup h⟩, fun h => h.2 ▸ lookup_of_mem h.1⟩

theorem lookup_eq_none {t : Table key} {k : κ} :
    t.lookup k = none ↔ ∀ r, r ∈ t → key r ≠ k := by
  simp [lookup, mem_def]

@[simp] theorem lookup_empty (k : κ) : (∅ : Table key).lookup k = none := rfl

theorem lookup_put (t : Table key) (r : ρ) (k : κ) :
    (t.put r).lookup k = if key r = k then some r else t.lookup k := by
  split
  · rename_i h
    exact lookup_eq_some.2 ⟨mem_put_self t r,h⟩
  · rename_i h
    apply Option.ext
    intro s
    simp only [lookup_eq_some, mem_put]
    constructor
    · rintro ⟨hs | hs,hk⟩
      · exact absurd (hs ▸ hk) h
      · exact ⟨hs.1,hk⟩
    · rintro ⟨hs,hk⟩
      exact ⟨Or.inr ⟨hs,fun he => h (he ▸ hk)⟩,hk⟩

@[simp] theorem lookup_put_self (t : Table key) (r : ρ) :
    (t.put r).lookup (key r) = some r := by simp [lookup_put]

theorem lookup_put_of_ne {t : Table key} {r : ρ} {k : κ} (h : key r ≠ k) :
    (t.put r).lookup k = t.lookup k := by simp [lookup_put, h]

/-- Every row after an upsert satisfies what the old rows and the new row satisfy. -/
theorem forall_mem_put {t : Table key} {r : ρ} {p : ρ → Prop} (ht : ∀ s, s ∈ t → p s)
    (hr : p r) : ∀ s, s ∈ t.put r → p s := by
  intro s hs
  rcases mem_put.1 hs with rfl | hs
  · exact hr
  · exact ht s hs.1

theorem lookup_update (t : Table key) (f : ρ → ρ) (hf : ∀ r, key (f r) = key r) (k : κ) :
    (t.update f hf).lookup k = (t.lookup k).map f := by
  apply Option.ext
  intro s
  simp only [lookup_eq_some, mem_update, Option.map_eq_some_iff]
  constructor
  · rintro ⟨⟨r,hr,rfl⟩,hk⟩
    exact ⟨r,⟨hr,(hf r) ▸ hk⟩,rfl⟩
  · rintro ⟨r,⟨hr,hk⟩,rfl⟩
    exact ⟨⟨r,hr,rfl⟩,(hf r).trans hk⟩

/-- A row after several upserts is one of them, or an old row that none of them replaced. -/
theorem mem_foldl_put {rs : List ρ} {t : Table key} {s : ρ} (h : s ∈ rs.foldl put t) :
    s ∈ rs ∨ (s ∈ t ∧ ∀ r ∈ rs, key s ≠ key r) := by
  induction rs generalizing t with
  | nil => exact Or.inr ⟨h,fun r hr => absurd hr List.not_mem_nil⟩
  | cons r rs ih =>
    rcases ih h with hs | ⟨hs,hne⟩
    · exact Or.inl (List.mem_cons_of_mem r hs)
    · rcases mem_put.1 hs with rfl | ⟨hs,hr⟩
      · exact Or.inl List.mem_cons_self
      · exact Or.inr ⟨hs,List.forall_mem_cons.2 ⟨hr,hne⟩⟩

theorem mem_foldl_put_of_mem {rs : List ρ} {t : Table key} {s : ρ} (hs : s ∈ t)
    (hne : ∀ r ∈ rs, key s ≠ key r) : s ∈ rs.foldl put t := by
  induction rs generalizing t with
  | nil => exact hs
  | cons r rs ih =>
    obtain ⟨hr,hrs⟩ := List.forall_mem_cons.1 hne
    exact ih (mem_put.2 (Or.inr ⟨hs,hr⟩)) hrs

/-- Upserts of different keys are all there. -/
theorem mem_foldl_put_iff {rs : List ρ} {t : Table key} {s : ρ} (hn : (rs.map key).Nodup) :
    s ∈ rs.foldl put t ↔ s ∈ rs ∨ (s ∈ t ∧ ∀ r ∈ rs, key s ≠ key r) := by
  refine ⟨mem_foldl_put,?_⟩
  rintro (hs | ⟨hs,hne⟩)
  · induction rs generalizing t with
    | nil => exact absurd hs List.not_mem_nil
    | cons r rs ih =>
      obtain ⟨hr,hrs⟩ := List.nodup_cons.1 hn
      rcases List.mem_cons.1 hs with rfl | hs
      · show s ∈ rs.foldl put (t.put s)
        refine mem_foldl_put_of_mem (mem_put_self t s) fun r hmem he => hr ?_
        exact he ▸ List.mem_map_of_mem hmem
      · exact ih hrs hs
  · exact mem_foldl_put_of_mem hs hne

end Table

/-! ### The latest row of a selection -/

section Latest
variable {ρ β : Type} [LinearOrder β]

/-- The row with the greatest order key, as `ORDER BY … DESC` with one result. -/
def latestBy (f : ρ → β) (rows : List ρ) : Option ρ := rows.argmax f

theorem latestBy_mem {f : ρ → β} {rows : List ρ} {r : ρ} (h : latestBy f rows = some r) :
    r ∈ rows := List.argmax_mem h

theorem latestBy_le {f : ρ → β} {rows : List ρ} {r s : ρ} (h : latestBy f rows = some r)
    (hs : s ∈ rows) : f s ≤ f r := List.le_of_mem_argmax hs h

theorem latestBy_eq_none {f : ρ → β} {rows : List ρ} : latestBy f rows = none ↔ rows = [] :=
  List.argmax_eq_none

/-- A row above all others is the latest one. -/
theorem latestBy_eq_of_lt {f : ρ → β} {rows : List ρ} {r : ρ} (hr : r ∈ rows)
    (h : ∀ s ∈ rows, s ≠ r → f s < f r) : latestBy f rows = some r := by
  cases hl : latestBy f rows with
  | none => rw [latestBy_eq_none.1 hl] at hr; simp at hr
  | some s =>
    by_cases hs : s = r
    · rw [hs]
    · exact absurd (latestBy_le hl hr) (not_le.2 (h s (latestBy_mem hl) hs))

end Latest
end PdfBridge
