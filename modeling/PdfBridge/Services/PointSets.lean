import PdfBridge.Services.VectorIndex

/-! The points of one document in one collection, and what each Qdrant call does to them. -/
namespace PdfBridge
namespace Qdrant
open Preparation

variable {q q' : Qdrant} {c c' : Text 255} {d r : Uuid} {p p' : Point} {ps : List Point}

def Stores (q : Qdrant) (c : Text 255) (p : Point) : Prop := (⟨c,p⟩ : StoredPoint) ∈ q.points

theorem mem_collection : p ∈ q.collection c ↔ q.Stores c p := by
  simp only [collection, List.mem_map, List.mem_filter, decide_eq_true_eq]
  constructor
  · rintro ⟨⟨c₁,p₁⟩,⟨hs,rfl⟩,rfl⟩
    exact hs
  · intro h
    exact ⟨⟨c,p⟩,⟨h,rfl⟩,rfl⟩

theorem mem_documentPoints :
    p ∈ q.documentPoints c d ↔ q.Stores c p ∧ p.chunk.documentId = d := by
  simp only [documentPoints, List.mem_filter, mem_collection, decide_eq_true_eq]

/-- No point of the document is in the collection. -/
def Clear (q : Qdrant) (c : Text 255) (d : Uuid) : Prop :=
  ∀ p, q.Stores c p → p.chunk.documentId ≠ d

/-- The points of the document in the collection are exactly these. -/
def Exactly (q : Qdrant) (c : Text 255) (d : Uuid) (ps : List Point) : Prop :=
  ∀ p, (q.Stores c p ∧ p.chunk.documentId = d) ↔ p ∈ ps

theorem clear_of_count (h : (q.documentPoints c d).length = 0) : q.Clear c d := by
  intro p hs hd
  have hmem : p ∈ q.documentPoints c d := mem_documentPoints.2 ⟨hs,hd⟩
  rw [List.length_eq_zero_iff.1 h] at hmem
  exact List.not_mem_nil hmem

/-- The points of the document are the same in every collection. -/
def SamePoints (q q' : Qdrant) (d : Uuid) : Prop :=
  ∀ c p, p.chunk.documentId = d → (q'.Stores c p ↔ q.Stores c p)

theorem SamePoints.refl (q : Qdrant) (d : Uuid) : SamePoints q q d := fun _ _ _ => Iff.rfl

theorem SamePoints.clear (h : SamePoints q q' d) (hc : q.Clear c d) : q'.Clear c d :=
  fun p hs hd => hc p ((h c p hd).1 hs) hd

theorem SamePoints.exactly (h : SamePoints q q' d) (he : q.Exactly c d ps) :
    q'.Exactly c d ps := by
  intro p
  rw [← he p]
  exact and_congr_left fun hd => h c p hd

/-! ### Writes -/

/-- A point after an upsert was written by it, or is an old one that it did not replace. -/
theorem stores_of_upsert (h : (q.upsert c ps).Stores c' p) :
    (c' = c ∧ p ∈ ps) ∨ (q.Stores c' p ∧ (c' = c → ∀ p' ∈ ps, p.chunk.chunkId ≠ p'.chunk.chunkId)) := by
  have h : (⟨c',p⟩ : StoredPoint) ∈ (ps.map fun p => (⟨c,p⟩ : StoredPoint)).foldl Table.put q.points := by
    rw [List.foldl_map]
    exact h
  rcases Table.mem_foldl_put h with hs | ⟨hs,hne⟩
  · obtain ⟨p',hp,he⟩ := List.mem_map.1 hs
    cases he
    exact Or.inl ⟨rfl,hp⟩
  · refine Or.inr ⟨hs,fun hc p' hp he => hne ⟨c,p'⟩ (List.mem_map_of_mem hp) ?_⟩
    exact Prod.ext hc he

theorem stores_upsert_of_stores (h : q.Stores c' p)
    (hne : c' = c → ∀ p' ∈ ps, p.chunk.chunkId ≠ p'.chunk.chunkId) :
    (q.upsert c ps).Stores c' p := by
  show (⟨c',p⟩ : StoredPoint) ∈ ps.foldl (fun t p => t.put ⟨c,p⟩) q.points
  rw [← List.foldl_map (f := fun p => (⟨c,p⟩ : StoredPoint)) (g := Table.put)]
  refine Table.mem_foldl_put_of_mem h fun s hs he => ?_
  obtain ⟨p',hp,rfl⟩ := List.mem_map.1 hs
  exact hne (congrArg Prod.fst he) p' hp (congrArg Prod.snd he)

/-- A batch of different chunks is written as a whole. -/
theorem stores_upsert (hn : (ps.map (·.chunk.chunkId)).Nodup) (hp : p ∈ ps) :
    (q.upsert c ps).Stores c p := by
  show (⟨c,p⟩ : StoredPoint) ∈ ps.foldl (fun t p => t.put ⟨c,p⟩) q.points
  rw [← List.foldl_map (f := fun p => (⟨c,p⟩ : StoredPoint)) (g := Table.put)]
  refine (Table.mem_foldl_put_iff ?_).2 (Or.inl (List.mem_map_of_mem hp))
  rw [List.map_map]
  exact List.Nodup.of_map Prod.snd (by rwa [List.map_map])

theorem stores_delete : (q.delete c d).Stores c' p ↔
    q.Stores c' p ∧ ¬ (c' = c ∧ p.chunk.documentId = d) := by
  simp only [Stores, delete, Table.mem_keep, Bool.not_eq_true', Bool.and_eq_false_iff,
    decide_eq_false_iff_not, not_and_or]

theorem stores_activate : (q.activate c d r).Stores c' p ↔
    ∃ p₀, q.Stores c' p₀ ∧ openGate c d r ⟨c',p₀⟩ = ⟨c',p⟩ := by
  constructor
  · intro h
    obtain ⟨⟨c₀,p₀⟩,hs,he⟩ := List.mem_map.1 h
    have hc : c₀ = c' := by
      have hkey := congrArg Prod.fst (openGate_key c d r ⟨c₀,p₀⟩)
      rw [he] at hkey
      exact hkey.symm
    subst hc
    exact ⟨p₀,hs,he⟩
  · rintro ⟨p₀,hs,he⟩
    have hmem := Table.mem_update_of_mem (openGate_key c d r) hs
    rw [he] at hmem
    exact hmem

theorem openGate_chunk {p₀ : Point} (h : openGate c d r ⟨c',p₀⟩ = ⟨c',p⟩) : p.chunk = p₀.chunk := by
  unfold openGate at h
  split at h <;> cases h <;> rfl

/-- Points of other documents are where they were. -/
theorem samePoints_upsert {other : Uuid} (hps : ∀ p ∈ ps, p.chunk.documentId ≠ other)
    (hids : ∀ p, q.Stores c p → p.chunk.documentId = other →
      ∀ p' ∈ ps, p.chunk.chunkId ≠ p'.chunk.chunkId) : SamePoints q (q.upsert c ps) other := by
  intro c' p hd
  constructor
  · intro h
    rcases stores_of_upsert h with ⟨-,hp⟩ | ⟨hs,-⟩
    · exact absurd hd (hps p hp)
    · exact hs
  · intro h
    exact stores_upsert_of_stores h fun hc => hids p (hc ▸ h) hd

theorem samePoints_delete {other : Uuid} (h : d ≠ other) : SamePoints q (q.delete c d) other := by
  intro c' p hd
  rw [stores_delete]
  exact and_iff_left fun hc => h (hc.2.symm.trans hd)

theorem samePoints_activate {other : Uuid} (h : d ≠ other) :
    SamePoints q (q.activate c d r) other := by
  have hgate : ∀ {c' p}, p.chunk.documentId = other → openGate c d r ⟨c',p⟩ = ⟨c',p⟩ := by
    intro c' p hd
    refine if_neg fun hc => h ?_
    simp only [staged, Bool.and_eq_true, decide_eq_true_eq] at hc
    exact hc.2.1.1.1.symm.trans hd
  intro c' p hd
  rw [stores_activate]
  constructor
  · rintro ⟨p₀,hs,he⟩
    rw [hgate (openGate_chunk he ▸ hd)] at he
    cases he
    exact hs
  · exact fun hs => ⟨p,hs,hgate hd⟩

/-! ### The points of one document -/

theorem clear_delete : (q.delete c d).Clear c d :=
  fun _ hs hd => (stores_delete.1 hs).2 ⟨rfl,hd⟩

theorem Clear.delete (h : q.Clear c d) {c' : Text 255} {d' : Uuid} :
    (q.delete c' d').Clear c d := fun p hs => h p (stores_delete.1 hs).1

theorem Exactly.delete (h : q.Exactly c d ps) (hne : c ≠ c') {d' : Uuid} :
    (q.delete c' d').Exactly c d ps := by
  intro p
  rw [← h p, stores_delete]
  exact and_congr_left fun _ => and_iff_left fun hc => hne hc.1

theorem Clear.upsert (h : q.Clear c d) (hne : c ≠ c') : (q.upsert c' ps).Clear c d := by
  intro p hs
  rcases stores_of_upsert hs with ⟨hc,-⟩ | ⟨hs,-⟩
  · exact absurd hc hne
  · exact h p hs

theorem Exactly.upsert {xs : List Point} (h : q.Exactly c d xs) (hne : c ≠ c') :
    (q.upsert c' ps).Exactly c d xs := by
  intro p
  rw [← h p]
  refine and_congr_left fun _ => ⟨fun hs => ?_,fun hs => stores_upsert_of_stores hs
    fun hc => absurd hc hne⟩
  rcases stores_of_upsert hs with ⟨hc,-⟩ | ⟨hs,-⟩
  · exact absurd hc hne
  · exact hs

/-- An upsert of a whole batch over points of the same chunks leaves exactly the batch. -/
theorem exactly_upsert (hn : (ps.map (·.chunk.chunkId)).Nodup)
    (hd : ∀ p ∈ ps, p.chunk.documentId = d)
    (hold : ∀ p, q.Stores c p → p.chunk.documentId = d →
      ∃ p' ∈ ps, p.chunk.chunkId = p'.chunk.chunkId) : (q.upsert c ps).Exactly c d ps := by
  intro p
  constructor
  · rintro ⟨hs,hdoc⟩
    rcases stores_of_upsert hs with ⟨-,hp⟩ | ⟨hs,hne⟩
    · exact hp
    · obtain ⟨p',hp,he⟩ := hold p hs hdoc
      exact absurd he (hne rfl p' hp)
  · exact fun hp => ⟨stores_upsert hn hp,hd p hp⟩

theorem Clear.activate (h : q.Clear c d) {c' : Text 255} {d' : Uuid} :
    (q.activate c' d' r).Clear c d := by
  intro p hs
  obtain ⟨p₀,hs₀,he⟩ := stores_activate.1 hs
  rw [openGate_chunk he]
  exact h p₀ hs₀

/-- The staged points of one revision are opened together. -/
theorem Exactly.open (h : q.Exactly c d ps) (hps : ∀ p ∈ ps, staged d r p = true) :
    (q.activate c d r).Exactly c d
      (ps.map fun p => {p with published := true, visibility := .active}) := by
  have hgate : ∀ p ∈ ps, openGate c d r ⟨c,p⟩ =
      ⟨c,{p with published := true, visibility := .active}⟩ :=
    fun p hp => if_pos ⟨rfl,hps p hp⟩
  intro p
  rw [List.mem_map]
  constructor
  · rintro ⟨hs,hd⟩
    obtain ⟨p₀,hs₀,he⟩ := stores_activate.1 hs
    have hmem := (h p₀).1 ⟨hs₀,openGate_chunk he ▸ hd⟩
    rw [hgate p₀ hmem] at he
    cases he
    exact ⟨p₀,hmem,rfl⟩
  · rintro ⟨p₀,hmem,rfl⟩
    obtain ⟨hs,hd⟩ := (h p₀).2 hmem
    exact ⟨stores_activate.2 ⟨p₀,hs,hgate p₀ hmem⟩,hd⟩

end Qdrant
end PdfBridge
