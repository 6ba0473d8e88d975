import PdfBridge.Lifecycle.Scenario

/-! A replaced document and its owner: when the incoming document can still finish the cleanup of
the document that it replaces. -/
namespace PdfBridge
namespace Lifecycle
open Worker Api Intake Preparation

variable {s : Settings} {enc : Encoding} {w : World} {c : Catalog} {now : Time} {i t : Document}

/-- The incoming document can still run or retry the publication that deletes `t`. -/
def OwnerActive (i t : Document) : Prop :=
  (i.state = .publishing ∨ i.state = .publishFailed) ∧
    ∃ o, latestOperation i .publish = some o ∧ o.replacementTargetDocumentId = some t.id

/-- Every replaced document that is not deleted yet has an active owner. -/
def NoneStranded (c : Catalog) : Prop :=
  ∀ t, t ∈ c.documents → ∀ id, t.replacedByDocumentId = some id → t.state ≠ .deleted →
    ∃ i, i ∈ c.documents ∧ i.id = id ∧ OwnerActive i t

/-- The latest publication of a replacing document names its target. -/
theorem DocumentInv.latest_targets (h : DocumentInv s now i) {id : Uuid} (ht : Targets i id) :
    ∃ o, latestOperation i .publish = some o ∧ o.replacementTargetDocumentId = some id := by
  obtain ⟨o₁,ho₁,ht₁⟩ := ht
  have htype := (h.operations.valid o₁ ho₁).publish_of_target ht₁
  cases hl : latestOperation i .publish with
  | none =>
    have hnil := latestBy_eq_none.1 hl
    have hmem : o₁ ∈ i.operations.rows.filter fun o => o.operationType = .publish :=
      List.mem_filter.2 ⟨ho₁,by simpa using htype⟩
    rw [hnil] at hmem
    cases hmem
  | some o =>
    obtain ⟨ho,hpublish⟩ := List.mem_filter.1 (latestBy_mem hl)
    exact ⟨o,rfl,h.target_eq ⟨o₁,ho₁,ht₁⟩ ho (by simpa using hpublish)⟩

/-- Without a stranding delete, a replaced document is deleted or its owner is active. -/
theorem CatalogInv.noneStranded (h : CatalogInv s False now c) : NoneStranded c := by
  intro t ht id hr hstate
  obtain ⟨i,hi,hid,howns⟩ := h.link.owned t ht id hr
  have hprogress := (h.documents t ht).deletion.progress
    ((h.documents t ht).deletion_of_replaced (by rw [hr]; rfl))
  obtain ⟨p,-,hp⟩ := hprogress
  refine ⟨i,hi,hid,?_,(h.documents i hi).latest_targets howns.targets⟩
  rcases hp.state with hs | hs | hs
  · exact Or.inl (howns.fits.1 hs)
  · rcases howns.fits.2 hs with ⟨hi,-⟩ | ⟨hf,-⟩
    · exact Or.inr hi
    · exact hf.elim
  · rw [hp.replaced (by rw [hr]; rfl)] at hs
    exact absurd hs hstate

/-- As long as no failed incoming document is deleted before the document that it replaces, no
replaced document is stranded. -/
theorem replacement_not_stranded
    (h : ReachableBy s enc (fun w e => ¬ StrandsReplaced w e) w) :
    NoneStranded w.shared.catalog := by
  obtain ⟨know,hinv⟩ : ∃ know, WorldInv s False w know := h.inv fun _ _ hn hs => hn hs
  exact hinv.catalog.noneStranded

/-! ### A stranded document -/

instance (i t : Document) : Decidable (OwnerActive i t) :=
  decidable_of_iff ((i.state = .publishing ∨ i.state = .publishFailed) ∧
    (latestOperation i .publish).any (·.replacementTargetDocumentId = some t.id) = true) (by
      rw [OwnerActive, Option.any_eq_true]
      simp)

/-- A test for a replaced document without an active owner. -/
def someStranded (c : Catalog) : Bool :=
  c.documents.rows.any fun t => t.state ≠ .deleted && t.replacedByDocumentId.any fun id =>
    c.documents.rows.all fun i => i.id ≠ id || !decide (OwnerActive i t)

theorem not_noneStranded (h : someStranded c = true) : ¬ NoneStranded c := by
  intro hn
  simp only [someStranded, List.any_eq_true, Bool.and_eq_true, decide_eq_true_eq,
    Option.any_eq_true, List.all_eq_true, Bool.or_eq_true, Bool.not_eq_true'] at h
  obtain ⟨t,ht,hstate,id,hr,hall⟩ := h
  obtain ⟨i,hi,hid,howner⟩ := hn t ht id hr hstate
  rcases hall i hi with hne | hinactive
  · exact hne hid
  · exact absurd howner (of_decide_eq_false hinactive)

/-- Publish one document, and let a second one replace it with a cleanup that fails. -/
def failedReplacement : List Cue := replacing ++ turnOf failsDeletes

/-- Then delete the incoming document. -/
def strandingScript : List Cue :=
  failedReplacement ++ [.act (.delete (uuid4 72 0) sampleOperator)]

/-- Deleting the incoming document of a failed replacement strands the replaced document. -/
theorem replacement_can_strand : ∃ w, Reachable booksSettings plainEncoding w ∧
    ¬ NoneStranded w.shared.catalog := by
  obtain ⟨w,hw,ht⟩ := play_any booksSettings plainEncoding (fun _ _ => True) strandingScript
    (fun w : World => someStranded w.shared.catalog) (fun _ _ _ => trivial)
    (fun _ _ _ => trivial) (by decide +kernel)
  exact ⟨w,hw,not_noneStranded ht⟩

/-- The failed replacement itself strands nobody. -/
theorem replacement_not_stranded_failed : ∃ w : World, (w.shared.catalog.documents.rows.any fun t =>
    t.replacedByDocumentId.isSome && t.state = .deleteFailed) = true ∧
    NoneStranded w.shared.catalog := by
  have hact : ∀ e, Cue.act e ∈ failedReplacement → ∀ w, ¬ StrandsReplaced w e := by
    intro e he w
    simp only [failedReplacement, replacing, turnOf, uploadOf, List.cons_append, List.nil_append,
      List.mem_cons, Cue.act.injEq, reduceCtorEq, List.not_mem_nil, or_false, false_or] at he
    rcases he with rfl | rfl | rfl | rfl | rfl | rfl | rfl <;> exact fun h => h
  obtain ⟨w,hw,ht⟩ := play_any booksSettings plainEncoding (fun w e => ¬ StrandsReplaced w e)
    failedReplacement (fun w : World => w.shared.catalog.documents.rows.any fun t =>
      t.replacedByDocumentId.isSome && t.state = .deleteFailed) (fun _ _ _ h => h) hact
    (by decide +kernel)
  exact ⟨w,ht,replacement_not_stranded hw⟩

end Lifecycle
end PdfBridge
