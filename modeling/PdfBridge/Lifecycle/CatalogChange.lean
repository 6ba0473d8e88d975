import PdfBridge.Lifecycle.Link
import PdfBridge.Managers.Document

/-! What every reachable catalog satisfies, and the ways in which one transaction changes it:
at most two documents move at once, and two only when one replaces the other. -/
namespace PdfBridge
namespace Lifecycle
open Intake

/-- The states of an incoming document and of the document that it replaces. Deleting a failed
incoming document strands the replaced one; `strands` says whether that has been done. -/
def Fits (strands : Prop) (i t : Document) : Prop :=
  (t.state = .deleting → i.state = .publishing) ∧
  (t.state = .deleteFailed →
    (i.state = .publishFailed ∧ i.failureRetryable = t.failureRetryable) ∨
    (strands ∧ deletionState i.state = true))

/-- The incoming document `i` owns the deletion of `t`. -/
structure Owns (strands : Prop) (i t : Document) : Prop where
  ne : i.id ≠ t.id
  collection : i.intake.collectionKey = t.intake.collectionKey
  chosen : Chooses i t.id
  targets : Targets i t.id
  fits : Fits strands i t

structure LinkInv (strands : Prop) (c : Catalog) : Prop where
  owned : ∀ t, t ∈ c.documents → ∀ id, t.replacedByDocumentId = some id →
    ∃ i, i ∈ c.documents ∧ i.id = id ∧ Owns strands i t
  replaced : ∀ i, i ∈ c.documents → ∀ id, Targets i id →
    ∃ t, t ∈ c.documents ∧ t.id = id ∧ t.replacedByDocumentId = some i.id
  chosen : ∀ i, i ∈ c.documents → ∀ id, Chooses i id → Targets i id

structure CatalogInv (s : Settings) (strands : Prop) (now : Time) (c : Catalog) : Prop where
  documents : ∀ d, d ∈ c.documents → DocumentInv s now d
  link : LinkInv strands c

variable {s : Settings} {strands : Prop} {rejects : FailureCode → Prop} {now : Time} {c c' : Catalog}
  {d d' i i' t t' : Document}

theorem CatalogInv.mono {b : Time} (h : CatalogInv s strands now c) (hb : now ≤ b) :
    CatalogInv s strands b c :=
  {h with documents := fun d hd => (h.documents d hd).mono hb}

theorem CatalogInv.empty : CatalogInv s strands now .empty where
  documents := fun d hd => absurd hd (Table.not_mem_empty d)
  link := {
    owned := fun d hd => absurd hd (Table.not_mem_empty d)
    replaced := fun d hd => absurd hd (Table.not_mem_empty d)
    chosen := fun d hd => absurd hd (Table.not_mem_empty d) }

/-! ### What the invariants say about a replacement -/

/-- Only a publication can replace a document. -/
theorem OperationValid.publish_of_target {id target : Uuid} {o : WorkOperation}
    (h : OperationValid id o) (ht : o.replacementTargetDocumentId = some target) :
    o.operationType = .publish := by
  have hp := h.priority
  rw [ht] at hp
  cases htype : o.operationType <;> rw [htype] at hp <;> first | rfl | cases hp

/-- Every publication of a document has the same target. -/
theorem DocumentInv.target_eq (h : DocumentInv s now d) {id : Uuid} (ht : Targets d id)
    {o : WorkOperation} (ho : o ∈ d.operations.rows) (htype : o.operationType = .publish) :
    o.replacementTargetDocumentId = some id := by
  obtain ⟨o₁,ho₁,ht₁⟩ := ht
  have htype₁ := (h.operations.valid o₁ ho₁).publish_of_target ht₁
  obtain ⟨p,hp⟩ := List.exists_mem_of_ne_nil _ (h.publications.attempts o₁ ho₁ htype₁)
  obtain ⟨r,target,-,-,-,-,hops⟩ := h.publications.bound p hp
  rw [(hops o ho htype).2, ← (hops o₁ ho₁ htype₁).2, ht₁]

/-- A document replaces at most one other. -/
theorem CatalogInv.target_unique (h : CatalogInv s strands now c) (hi : i ∈ c.documents)
    (ht : t ∈ c.documents) (ht' : t' ∈ c.documents)
    (hr : t.replacedByDocumentId = some i.id) (hr' : t'.replacedByDocumentId = some i.id) :
    t = t' := by
  obtain ⟨i₁,hi₁,hid₁,howns⟩ := h.link.owned t ht _ hr
  obtain ⟨i₂,hi₂,hid₂,howns'⟩ := h.link.owned t' ht' _ hr'
  cases Table.eq_of_key_eq hi₁ hi hid₁
  cases Table.eq_of_key_eq hi₂ hi hid₂
  obtain ⟨o,ho,htarget⟩ := howns.targets
  have hinv := h.documents i hi
  have := hinv.target_eq howns'.targets ho
    ((hinv.operations.valid o ho).publish_of_target htarget)
  rw [htarget] at this
  exact Table.eq_of_key_eq ht ht' (Option.some.inj this)

theorem CatalogInv.owns (h : CatalogInv s strands now c) (hi : i ∈ c.documents)
    (ht : t ∈ c.documents) (hr : t.replacedByDocumentId = some i.id) : Owns strands i t := by
  obtain ⟨i₁,hi₁,hid₁,howns⟩ := h.link.owned t ht _ hr
  cases Table.eq_of_key_eq hi₁ hi hid₁
  exact howns

/-- A replaced document is being deleted. -/
theorem DocumentInv.deletion_of_replaced (h : DocumentInv s now d)
    (hr : d.replacedByDocumentId.isSome = true) : deletionState d.state = true := by
  by_contra hs
  rw [Bool.not_eq_true] at hs
  rw [(h.deletion.live hs).2.replaced] at hr
  cases hr

/-! ### Transitions without a new link -/

/-- The links of a document stay as they are. -/
structure Linked (d d' : Document) : Prop where
  id : d'.id = d.id
  intake : d'.intake = d.intake
  replaced : d'.replacedByDocumentId = d.replacedByDocumentId
  targets : ∀ id, Targets d' id ↔ Targets d id
  chooses : ∀ id, Chooses d' id ↔ Chooses d id

theorem Linked.refl (d : Document) : Linked d d :=
  ⟨rfl,rfl,rfl,fun _ => Iff.rfl,fun _ => Iff.rfl⟩

theorem Change.linked (hc : Change s rejects now d d') (h : DocumentInv s now d)
    (hreplaced : d'.replacedByDocumentId = d.replacedByDocumentId)
    (hdecisions : ∀ x ∈ d'.decisions, x.action = .replace → x ∈ d.decisions)
    (hchosen : ∀ id, Chooses d id → Targets d id) : Linked d d' := by
  have hchooses : ∀ id, Chooses d' id → Chooses d id := by
    rintro id ⟨x,hx,ha,ht⟩
    exact ⟨x,hdecisions x hx ha,ha,ht⟩
  refine ⟨hc.id,hc.intake,hreplaced,fun id => ⟨?_,fun ht => ht.change hc h⟩,
    fun id => ⟨hchooses id,fun ht => ht.change hc⟩⟩
  rintro ⟨o',ho',ht⟩
  obtain ⟨front,hcont,-,hfront⟩ := hc.continues h
  rcases mem_continues hcont ho' with hf | ⟨o,ho,hs⟩
  · rcases (hfront o' hf).2.2 id ht with hold | hnew
    · exact hold
    · exact hchosen id (hchooses id hnew)
  · exact ⟨o,ho,hs.target.symm.trans ht⟩

/-- The links of a catalog survive when every document keeps its own and the states of linked
documents still fit. -/
theorem LinkInv.linked (h : LinkInv strands c)
    (hback : ∀ d', d' ∈ c'.documents → ∃ d, d ∈ c.documents ∧ Linked d d')
    (hforth : ∀ d, d ∈ c.documents → ∃ d', d' ∈ c'.documents ∧ Linked d d')
    (hfits : ∀ i t, i ∈ c.documents → t ∈ c.documents → t.replacedByDocumentId = some i.id →
      Owns strands i t → ∀ i' t', i' ∈ c'.documents → t' ∈ c'.documents → Linked i i' →
      Linked t t' → Fits strands i' t') : LinkInv strands c' where
  owned := by
    intro t' ht' id hr
    obtain ⟨t,ht,hlt⟩ := hback t' ht'
    rw [hlt.replaced] at hr
    obtain ⟨i,hi,hid,howns⟩ := h.owned t ht id hr
    obtain ⟨i',hi',hli⟩ := hforth i hi
    exact ⟨i',hi',hli.id.trans hid,{
      ne := by rw [hli.id, hlt.id]; exact howns.ne
      collection := by rw [hli.intake, hlt.intake]; exact howns.collection
      chosen := by rw [hlt.id, hli.chooses]; exact howns.chosen
      targets := by rw [hlt.id, hli.targets]; exact howns.targets
      fits := hfits i t hi ht (hid ▸ hr) howns i' t' hi' ht' hli hlt }⟩
  replaced := by
    intro i' hi' id htargets
    obtain ⟨i,hi,hli⟩ := hback i' hi'
    obtain ⟨t,ht,hid,hr⟩ := h.replaced i hi id ((hli.targets id).1 htargets)
    obtain ⟨t',ht',hlt⟩ := hforth t ht
    exact ⟨t',ht',hlt.id.trans hid,by rw [hlt.replaced, hr, hli.id]⟩
  chosen := by
    intro i' hi' id hchooses
    obtain ⟨i,hi,hli⟩ := hback i' hi'
    exact (hli.targets id).2 (h.chosen i hi id ((hli.chooses id).1 hchooses))

/-! ### Transitions of a catalog -/

theorem mem_put {c : Catalog} {x : Document} :
    x ∈ (c.put d).documents ↔ x = d ∨ (x ∈ c.documents ∧ x.id ≠ d.id) := Table.mem_put

/-- A replaced document keeps its state, or reaches its end. -/
def TargetKept (d d' : Document) : Prop :=
  (d'.state = d.state ∧ d'.failureRetryable = d.failureRetryable) ∨
  Api.terminalState d'.state = true

theorem Fits.of_terminal (h : Api.terminalState t.state = true) : Fits strands i t := by
  constructor <;> intro ht <;> rw [ht] at h <;> cases h

theorem Fits.targetKept (h : Fits strands i t) (hk : TargetKept t t') : Fits strands i t' := by
  rcases hk with ⟨hs,hr⟩ | ht
  · unfold Fits
    rw [hs, hr]
    exact h
  · exact Fits.of_terminal ht

/-- The links survive when one document changes. -/
theorem LinkInv.put (h : LinkInv strands c) (hd : d ∈ c.documents) (hl : Linked d d')
    (htarget : d.replacedByDocumentId.isSome = true → TargetKept d d')
    (howner : ∀ t, t ∈ c.documents → t.replacedByDocumentId = some d.id → Fits strands d t →
      Fits strands d' t) : LinkInv strands (c.put d') := by
  refine h.linked ?_ ?_ ?_
  · intro x hx
    rcases mem_put.1 hx with rfl | ⟨hx,-⟩
    · exact ⟨d,hd,hl⟩
    · exact ⟨x,hx,Linked.refl x⟩
  · intro x hx
    by_cases he : x.id = d'.id
    · cases Table.eq_of_key_eq hx hd (he.trans hl.id)
      exact ⟨d',mem_put.2 (Or.inl rfl),hl⟩
    · exact ⟨x,mem_put.2 (Or.inr ⟨hx,he⟩),Linked.refl x⟩
  · intro i t hi ht hr howns i' t' hi' ht' hli hlt
    have hne : ∀ {x x'}, x ∈ c.documents → x' ∈ (c.put d').documents → Linked x x' →
        (x = d ∧ x' = d') ∨ (x' = x ∧ x.id ≠ d.id) := by
      intro x x' hx hx' hlx
      rcases mem_put.1 hx' with rfl | ⟨hx',hid⟩
      · exact Or.inl ⟨Table.eq_of_key_eq hx hd (hlx.id.symm.trans hl.id),rfl⟩
      · have := Table.eq_of_key_eq hx' hx hlx.id
        exact Or.inr ⟨this,fun he => hid (hlx.id.trans (he.trans hl.id.symm))⟩
    rcases hne hi hi' hli with ⟨rfl,rfl⟩ | ⟨rfl,-⟩ <;>
      rcases hne ht ht' hlt with ⟨rfl,rfl⟩ | ⟨rfl,-⟩
    · exact absurd rfl howns.ne
    · exact howner _ ht hr howns.fits
    · exact howns.fits.targetKept (htarget (by rw [hr]; rfl))
    · exact howns.fits

theorem DocumentInv.not_targets (h : DocumentInv s now d) (hu : unapproved d.state = true)
    (id : Uuid) : ¬ Targets d id := by
  rintro ⟨o,ho,ht⟩
  exact h.publications.attempts o ho ((h.operations.valid o ho).publish_of_target ht)
    (h.publications.unpublished hu)

/-- An owner that is itself being deleted keeps its links. -/
theorem Fits.of_deletion (h : Fits strands i t) (hi : deletionState i.state = true)
    (hi' : deletionState i'.state = true) : Fits strands i' t := by
  refine ⟨fun ht => ?_,fun ht => ?_⟩
  · rw [h.1 ht] at hi
    cases hi
  · rcases h.2 ht with ⟨hs,-⟩ | ⟨hs,-⟩
    · rw [hs] at hi
      cases hi
    · exact Or.inr ⟨hs,hi'⟩

theorem mem_put_put {x : Document} : x ∈ ((c.put d).put d').documents ↔
    x = d' ∨ (x = d ∧ d.id ≠ d'.id) ∨ (x ∈ c.documents ∧ x.id ≠ d.id ∧ x.id ≠ d'.id) := by
  rw [mem_put, mem_put]
  constructor
  · rintro (h | ⟨rfl | ⟨h,hd⟩,hd'⟩)
    · exact Or.inl h
    · exact Or.inr (Or.inl ⟨rfl,hd'⟩)
    · exact Or.inr (Or.inr ⟨h,hd,hd'⟩)
  · rintro (h | ⟨rfl,hd'⟩ | ⟨h,hd,hd'⟩)
    · exact Or.inl h
    · exact Or.inr ⟨Or.inl rfl,hd'⟩
    · exact Or.inr ⟨Or.inr ⟨h,hd⟩,hd'⟩

/-- The links survive when a replaced document and its owner change together. -/
theorem CatalogInv.link_pair (h : CatalogInv s strands now c) (hi : i ∈ c.documents)
    (ht : t ∈ c.documents) (hown : t.replacedByDocumentId = some i.id) (hli : Linked i i')
    (hlt : Linked t t') (hstate : publicationState i.state = true)
    (ht' : deletionState t'.state = true) (hfits : Fits strands i' t') :
    LinkInv strands ((c.put t').put i') := by
  have howns := h.owns hi ht hown
  have hne : t'.id ≠ i'.id := by
    rw [hlt.id, hli.id]
    exact howns.ne.symm
  have hdeletion := (h.documents t ht).deletion_of_replaced (by rw [hown]; rfl)
  have hfree : i.replacedByDocumentId = none := by
    have hlive : deletionState i.state = false := by
      cases hs : i.state <;> rw [hs] at hstate <;> first | rfl | cases hstate
    exact ((h.documents i hi).deletion.live hlive).2.replaced
  -- every document of the new catalog is one of the three kinds
  have kinds : ∀ x x', x ∈ c.documents → x' ∈ ((c.put t').put i').documents → Linked x x' →
      (x = i ∧ x' = i') ∨ (x = t ∧ x' = t') ∨ (x' = x ∧ x.id ≠ i.id ∧ x.id ≠ t.id) := by
    intro x x' hx hx' hl
    rcases mem_put_put.1 hx' with rfl | ⟨rfl,-⟩ | ⟨hxc,hxt,hxi⟩
    · exact Or.inl ⟨Table.eq_of_key_eq hx hi (hl.id.symm.trans hli.id),rfl⟩
    · exact Or.inr (Or.inl ⟨Table.eq_of_key_eq hx ht (hl.id.symm.trans hlt.id),rfl⟩)
    · refine Or.inr (Or.inr ⟨Table.eq_of_key_eq hxc hx hl.id,?_,?_⟩)
      · rw [← hl.id, ← hli.id]; exact hxi
      · rw [← hl.id, ← hlt.id]; exact hxt
  refine h.link.linked ?_ ?_ ?_
  · intro x hx
    rcases mem_put_put.1 hx with rfl | ⟨rfl,-⟩ | ⟨hx,-⟩
    · exact ⟨i,hi,hli⟩
    · exact ⟨t,ht,hlt⟩
    · exact ⟨x,hx,Linked.refl x⟩
  · intro x hx
    by_cases hxi : x.id = i.id
    · cases Table.eq_of_key_eq hx hi hxi
      exact ⟨i',mem_put_put.2 (Or.inl rfl),hli⟩
    by_cases hxt : x.id = t.id
    · cases Table.eq_of_key_eq hx ht hxt
      exact ⟨t',mem_put_put.2 (Or.inr (Or.inl ⟨rfl,hne⟩)),hlt⟩
    · refine ⟨x,mem_put_put.2 (Or.inr (Or.inr ⟨hx,?_,?_⟩)),Linked.refl x⟩
      · rw [hlt.id]; exact hxt
      · rw [hli.id]; exact hxi
  · intro a b ha hb hr hab a' b' ha' hb' hla hlb
    rcases kinds b b' hb hb' hlb with ⟨rfl,-⟩ | ⟨rfl,rfl⟩ | ⟨rfl,-,hbt⟩
    · rw [hfree] at hr
      cases hr
    · rw [hown] at hr
      cases Table.eq_of_key_eq ha hi (Option.some.inj hr).symm
      rcases kinds i a' hi ha' hla with ⟨-,rfl⟩ | ⟨rfl,-⟩ | ⟨-,hii,-⟩
      · exact hfits
      · exact absurd rfl howns.ne
      · exact absurd rfl hii
    · rcases kinds a a' ha ha' hla with ⟨rfl,-⟩ | ⟨rfl,rfl⟩ | ⟨rfl,-⟩
      · exact absurd (congrArg Document.id (h.target_unique ha hb ht hr hown)) hbt
      · exact hab.fits.of_deletion hdeletion ht'
      · exact hab.fits

/-- The links after a replacement decision of `i` on `t`. -/
theorem CatalogInv.link_replace (h : CatalogInv s strands now c) (hi : i ∈ c.documents)
    (ht : t ∈ c.documents) (hne : i.id ≠ t.id)
    (hcollection : i.intake.collectionKey = t.intake.collectionKey)
    (histate : i.state = .reviewRequired) (htstate : t.state = .ready)
    (hii : i'.id = i.id) (hic : i'.intake = i.intake)
    (hir : i'.replacedByDocumentId = i.replacedByDocumentId) (his : i'.state = .publishing)
    (hitargets : ∀ id, Targets i' id ↔ id = t.id)
    (hichooses : ∀ id, Chooses i' id ↔ id = t.id)
    (hti : t'.id = t.id) (htc : t'.intake = t.intake)
    (htr : t'.replacedByDocumentId = some i.id) (hts : t'.state = .deleting)
    (httargets : ∀ id, Targets t' id ↔ Targets t id)
    (htchooses : ∀ id, Chooses t' id ↔ Chooses t id) :
    LinkInv strands ((c.put t').put i') := by
  have hi₀ := (h.documents i hi).not_targets (by rw [histate]; rfl)
  have hifree : i.replacedByDocumentId = none :=
    ((h.documents i hi).deletion.live (by rw [histate]; rfl)).2.replaced
  have htfree : t.replacedByDocumentId = none :=
    ((h.documents t ht).deletion.live (by rw [htstate]; rfl)).2.replaced
  have hne' : t'.id ≠ i'.id := by rw [hti, hii]; exact hne.symm
  have mem_i : i' ∈ ((c.put t').put i').documents := mem_put_put.2 (Or.inl rfl)
  have mem_t : t' ∈ ((c.put t').put i').documents := mem_put_put.2 (Or.inr (Or.inl ⟨rfl,hne'⟩))
  have mem_other : ∀ {x}, x ∈ c.documents → x.id ≠ t.id → x.id ≠ i.id →
      x ∈ ((c.put t').put i').documents := by
    intro x hx hxt hxi
    exact mem_put_put.2 (Or.inr (Or.inr ⟨hx,hti ▸ hxt,hii ▸ hxi⟩))
  -- a document that is replaced already is neither of the two
  have replaced_other : ∀ {x id}, x ∈ c.documents → x.replacedByDocumentId = some id →
      x ∈ ((c.put t').put i').documents := by
    intro x id hx hr
    refine mem_other hx (fun he => ?_) (fun he => ?_)
    · rw [Table.eq_of_key_eq hx ht he, htfree] at hr
      cases hr
    · rw [Table.eq_of_key_eq hx hi he, hifree] at hr
      cases hr
  constructor
  · intro x' hx' id hr
    rcases mem_put_put.1 hx' with rfl | ⟨rfl,-⟩ | ⟨hx,-⟩
    · rw [hir, hifree] at hr
      cases hr
    · rw [htr] at hr
      refine ⟨i',mem_i,hii.trans (Option.some.inj hr),{
        ne := hne'.symm
        collection := by rw [hic, htc]; exact hcollection
        chosen := by rw [hichooses]; exact hti
        targets := by rw [hitargets]; exact hti
        fits := ⟨fun _ => his,fun hf => by rw [hts] at hf; cases hf⟩ }⟩
    · obtain ⟨y,hy,hid,howns⟩ := h.link.owned x' hx id hr
      by_cases hyt : y.id = t.id
      · cases Table.eq_of_key_eq hy ht hyt
        refine ⟨t',mem_t,hti.trans hid,{
          ne := by rw [hti]; exact howns.ne
          collection := by rw [htc]; exact howns.collection
          chosen := by rw [htchooses]; exact howns.chosen
          targets := by rw [httargets]; exact howns.targets
          fits := ⟨fun hf => ?_,fun hf => ?_⟩ }⟩
        · have := howns.fits.1 hf
          rw [htstate] at this
          cases this
        · rcases howns.fits.2 hf with ⟨hc,-⟩ | ⟨-,hc⟩ <;> rw [htstate] at hc <;> cases hc
      by_cases hyi : y.id = i.id
      · cases Table.eq_of_key_eq hy hi hyi
        exact absurd howns.targets (hi₀ _)
      · exact ⟨y,mem_other hy hyt hyi,hid,howns⟩
  · intro x' hx' id htargets
    rcases mem_put_put.1 hx' with rfl | ⟨rfl,-⟩ | ⟨hx,-⟩
    · rw [hitargets] at htargets
      exact ⟨t',mem_t,hti.trans htargets.symm,htr.trans (congrArg some hii.symm)⟩
    · rw [httargets] at htargets
      obtain ⟨z,hz,hid,hr⟩ := h.link.replaced t ht id htargets
      exact ⟨z,replaced_other hz hr,hid,hr.trans (congrArg some hti.symm)⟩
    · obtain ⟨z,hz,hid,hr⟩ := h.link.replaced x' hx id htargets
      exact ⟨z,replaced_other hz hr,hid,hr⟩
  · intro x' hx' id hchooses
    rcases mem_put_put.1 hx' with rfl | ⟨rfl,-⟩ | ⟨hx,-⟩
    · rw [hichooses] at hchooses
      rw [hitargets]
      exact hchooses
    · rw [htchooses] at hchooses
      rw [httargets]
      exact h.link.chosen t ht id hchooses
    · exact h.link.chosen x' hx id hchooses

/-- A document as an upload admits it. -/
def admitted (now : Time) (x : Api.PreparedAdmission) : Document :=
  (Api.admittedDocument now x).putOperation
    (newOperation now (Api.admittedDocument now x) .preflight .normal none none .queued)

theorem admitted_rows (now : Time) (x : Api.PreparedAdmission) : (admitted now x).operations.rows =
    [newOperation now (Api.admittedDocument now x) .preflight .normal none none .queued] :=
  (OperationsInv.nil now (Api.admittedDocument now x).id).rows_put_fresh
    (d := Api.admittedDocument now x) le_rfl rfl

theorem admitted_not_targets (now : Time) (x : Api.PreparedAdmission) (id : Uuid) :
    ¬ Targets (admitted now x) id := by
  rintro ⟨o,ho,ht⟩
  rw [admitted_rows] at ho
  cases List.mem_singleton.1 ho
  cases ht

/-- Every way in which one transaction changes the catalog. -/
inductive CatalogChange (s : Settings) (strands : Prop) (rejects : FailureCode → Prop)
    (now : Time) (c : Catalog) : Catalog → Prop
  | same : CatalogChange s strands rejects now c c
  | arrive (x : Api.PreparedAdmission) (h : DocumentInv s (now + 1) (admitted now x)) :
      CatalogChange s strands rejects now c (c.put (admitted now x))
  | leases (f : WorkOperation → WorkOperation) (hf : ∀ o, (f o).id = o.id)
      (ht : ∀ o, Touch o (f o)) :
      CatalogChange s strands rejects now c (Worker.Catalog.mapOperations c f hf)
  | one {d d' : Document} (hd : d ∈ c.documents) (h : Change s rejects now d d')
      (hreplaced : d'.replacedByDocumentId = d.replacedByDocumentId)
      (hdecisions : ∀ x ∈ d'.decisions, x.action = .replace → x ∈ d.decisions)
      (htarget : d.replacedByDocumentId.isSome = true → TargetKept d d')
      (howner : ∀ t, t ∈ c.documents → t.replacedByDocumentId = some d.id →
        Fits strands d t → Fits strands d' t) : CatalogChange s strands rejects now c (c.put d')
  /-- A replaced document moves together with its owner. -/
  | pair {i i' t t' : Document} (hi : i ∈ c.documents) (ht : t ∈ c.documents)
      (hown : t.replacedByDocumentId = some i.id) (hci : Change s rejects now i i')
      (hct : Change s rejects now t t') (hir : i'.replacedByDocumentId = i.replacedByDocumentId)
      (hid : i'.decisions = i.decisions)
      (htr : t'.replacedByDocumentId = t.replacedByDocumentId)
      (htd : t'.decisions = t.decisions) (hstate : publicationState i.state = true)
      (hfits : Fits strands i' t') : CatalogChange s strands rejects now c ((c.put t').put i')
  /-- The operator replaces `t` by `i`. -/
  | replace {i t : Document} (hi : i ∈ c.documents) (ht : t ∈ c.documents) (hne : i.id ≠ t.id)
      (hcollection : i.intake.collectionKey = t.intake.collectionKey)
      (histate : i.state = .reviewRequired) (htstate : t.state = .ready)
      {r : PreparedRevision} {points : ℕ} {x : Decision} {p : DeletionProgress}
      (hr : r ∈ i.preparedRevisions) (hsealed : r.status = .sealed)
      (hpoints : r.expectedPointCount = some points) (hx : x.preparedRevisionId = r.id)
      (hmanifest : r.manifestSha256 = some x.preparedManifestSha256)
      (haction : x.action = .replace) (htarget : x.targetDocumentId = some t.id)
      (hp : FreshProgress s t p) (hdisposition : p.terminalDisposition = .deleted)
      (hid : x.id = uuid4 now 0) :
      CatalogChange s strands rejects now c ((c.put {t.clearFailure with
        deletionProgress := some p, state := .deleting, terminalDisposition := some .deleted,
        replacedByDocumentId := some i.id}).put
          (beginPublication now {i with decisions := i.decisions ++ [x]} r points .replacement
            (some t.id)))

/-! ### Every transition keeps the invariant -/

theorem CatalogInv.arrive (h : CatalogInv s strands now c) (hid : d.id = uuid4 now 0)
    (hd : DocumentInv s (now + 1) d) (hreplaced : d.replacedByDocumentId = none)
    (hdecisions : d.decisions = []) (htargets : ∀ id, ¬ Targets d id) :
    CatalogInv s strands (now + 1) (c.put d) := by
  have hold : ∀ x, x ∈ c.documents → x ∈ (c.put d).documents := by
    intro x hx
    refine mem_put.2 (Or.inr ⟨hx,fun he => ?_⟩)
    have hlt := (h.documents x hx).fresh
    have hdrawn := congrArg Uuid.drawnAt (((h.documents x hx).drawn.symm.trans he).trans hid)
    simp only [uuid4_drawnAt] at hdrawn
    rw [hdrawn] at hlt
    exact lt_irrefl _ hlt
  refine ⟨Table.forall_mem_put (fun x hx => (h.documents x hx).mono (Nat.le_succ now)) hd,?_⟩
  constructor
  · intro x hx id hr
    rcases mem_put.1 hx with rfl | ⟨hx,-⟩
    · rw [hreplaced] at hr
      cases hr
    · obtain ⟨y,hy,hyid,howns⟩ := h.link.owned x hx id hr
      exact ⟨y,hold y hy,hyid,howns⟩
  · intro x hx id ht
    rcases mem_put.1 hx with rfl | ⟨hx,-⟩
    · exact absurd ht (htargets id)
    · obtain ⟨z,hz,hzid,hr⟩ := h.link.replaced x hx id ht
      exact ⟨z,hold z hz,hzid,hr⟩
  · rintro x hx id ⟨y,hy,hrest⟩
    rcases mem_put.1 hx with rfl | ⟨hx,-⟩
    · rw [hdecisions] at hy
      simp at hy
    · exact h.link.chosen x hx id ⟨y,hy,hrest⟩

theorem forall₂_touch_map {f : WorkOperation → WorkOperation} (ht : ∀ o, Touch o (f o))
    (rows : List WorkOperation) : List.Forall₂ Touch rows (rows.map f) := by
  induction rows with
  | nil => exact List.Forall₂.nil
  | cons a rest ih => exact List.Forall₂.cons (ht a) ih

theorem mem_mapOperations {f : WorkOperation → WorkOperation} {hf : ∀ o, (f o).id = o.id}
    {x : Document} : x ∈ (Worker.Catalog.mapOperations c f hf).documents ↔
      ∃ d, d ∈ c.documents ∧ Worker.Document.mapOperations d f hf = x := List.mem_map

theorem linked_mapOperations {f : WorkOperation → WorkOperation} (hf : ∀ o, (f o).id = o.id)
    (ht : ∀ o, Touch o (f o)) (d : Document) :
    Linked d (Worker.Document.mapOperations d f hf) := by
  refine ⟨rfl,rfl,rfl,fun id => ⟨?_,?_⟩,fun id => Iff.rfl⟩
  · rintro ⟨o,ho,htarget⟩
    obtain ⟨x,hx,rfl⟩ := List.mem_map.1 ho
    exact ⟨x,hx,(ht x).target.symm.trans htarget⟩
  · rintro ⟨o,ho,htarget⟩
    exact ⟨f o,List.mem_map_of_mem ho,(ht o).target.trans htarget⟩

theorem CatalogInv.leases (h : CatalogInv s strands now c) (f : WorkOperation → WorkOperation)
    (hf : ∀ o, (f o).id = o.id) (ht : ∀ o, Touch o (f o)) :
    CatalogInv s strands now (Worker.Catalog.mapOperations c f hf) where
  documents := by
    intro d' hd'
    obtain ⟨d,hd,rfl⟩ := mem_mapOperations.1 hd'
    exact (h.documents d hd).touch _ (forall₂_touch_map ht _)
  link := by
    refine h.link.linked ?_ ?_ ?_
    · intro d' hd'
      obtain ⟨d,hd,rfl⟩ := mem_mapOperations.1 hd'
      exact ⟨d,hd,linked_mapOperations hf ht d⟩
    · exact fun d hd => ⟨_,mem_mapOperations.2 ⟨d,hd,rfl⟩,linked_mapOperations hf ht d⟩
    · intro i t hi ht₀ _ howns i' t' hi' ht' hli hlt
      obtain ⟨i₁,hi₁,rfl⟩ := mem_mapOperations.1 hi'
      obtain ⟨t₁,ht₁,rfl⟩ := mem_mapOperations.1 ht'
      cases Table.eq_of_key_eq hi₁ hi hli.id
      cases Table.eq_of_key_eq ht₁ ht₀ hlt.id
      exact howns.fits

theorem CatalogInv.replace {r : PreparedRevision} {points : ℕ} {x : Decision}
    {p : DeletionProgress} (h : CatalogInv s strands now c) (hi : i ∈ c.documents)
    (ht : t ∈ c.documents) (hne : i.id ≠ t.id)
    (hcollection : i.intake.collectionKey = t.intake.collectionKey)
    (histate : i.state = .reviewRequired) (htstate : t.state = .ready)
    (hr : r ∈ i.preparedRevisions) (hsealed : r.status = .sealed)
    (hpoints : r.expectedPointCount = some points) (hx : x.preparedRevisionId = r.id)
    (hmanifest : r.manifestSha256 = some x.preparedManifestSha256)
    (haction : x.action = .replace) (htarget : x.targetDocumentId = some t.id)
    (hp : FreshProgress s t p) (hdisposition : p.terminalDisposition = .deleted) :
    CatalogInv s strands (now + 1) ((c.put {t.clearFailure with
      deletionProgress := some p, state := .deleting, terminalDisposition := some .deleted,
      replacedByDocumentId := some i.id}).put
        (beginPublication now {i with decisions := i.decisions ++ [x]} r points .replacement
          (some t.id))) := by
  have hid := h.documents i hi
  have hnone := hid.publications.undecided (by rw [histate]; rfl)
  have hrows : (beginPublication now {i with decisions := i.decisions ++ [x]} r points
      .replacement (some t.id)).operations.rows = newOperation now i .publish .replacement
        (some r.id) (some t.id) .queued :: i.operations.rows :=
    hid.operations.rows_put_fresh le_rfl rfl
  have hdecide : DocumentInv s (now + 1) (beginPublication now {i with
      decisions := i.decisions ++ [x]} r points .replacement (some t.id)) :=
    hid.decide histate hr hsealed hpoints hx hmanifest (Or.inr ⟨haction,htarget,rfl⟩) rfl
    (fun he => hne (Option.some.inj he).symm)
  have hyield := (h.documents t ht).yield_ htstate hp hdisposition i.id
  constructor
  · exact Table.forall_mem_put (Table.forall_mem_put
      (fun y hy => (h.documents y hy).mono (Nat.le_succ now)) hyield) hdecide
  · refine h.link_replace hi ht hne hcollection histate htstate rfl rfl rfl rfl ?_ ?_ rfl rfl rfl
      rfl (fun _ => Iff.rfl) (fun _ => Iff.rfl)
    · intro id
      constructor
      · rintro ⟨o,ho,htid⟩
        rw [hrows] at ho
        rcases List.mem_cons.1 ho with rfl | ho
        · exact (Option.some.inj htid).symm
        · exact absurd ⟨o,ho,htid⟩ (hid.not_targets (by rw [histate]; rfl) id)
      · rintro rfl
        exact ⟨_,by rw [hrows]; exact List.mem_cons_self,rfl⟩
    · intro id
      have hone : i.decisions ++ [x] = [x] := by rw [hnone]; rfl
      constructor
      · rintro ⟨y,hy,-,hyt⟩
        have hy' : y ∈ i.decisions ++ [x] := hy
        rw [hone, List.mem_singleton] at hy'
        rw [hy', htarget] at hyt
        exact (Option.some.inj hyt).symm
      · rintro rfl
        exact ⟨x,List.mem_append_right _ (List.mem_singleton_self x),haction,htarget⟩

/-- Every transaction keeps the invariant of the catalog. -/
theorem CatalogChange.inv (hc : CatalogChange s strands rejects now c c')
    (h : CatalogInv s strands now c) : CatalogInv s strands (now + 1) c' := by
  cases hc with
  | same => exact h.mono (Nat.le_succ now)
  | arrive x hd => exact h.arrive rfl hd rfl rfl (admitted_not_targets now x)
  | leases f hf ht => exact (h.leases f hf ht).mono (Nat.le_succ now)
  | one hd hchange hreplaced hdecisions htarget howner =>
    have hinv := h.documents _ hd
    exact ⟨Table.forall_mem_put (fun y hy => (h.documents y hy).mono (Nat.le_succ now))
        (hchange.documentInv hinv),
      h.link.put hd (hchange.linked hinv hreplaced hdecisions (h.link.chosen _ hd)) htarget
        howner⟩
  | pair hi ht hown hci hct hir hid htr htd hstate hfits =>
    have hinv := h.documents _ hi
    have tinv := h.documents _ ht
    have tinv' := hct.documentInv tinv
    refine ⟨Table.forall_mem_put (Table.forall_mem_put
        (fun y hy => (h.documents y hy).mono (Nat.le_succ now)) tinv') (hci.documentInv hinv),
      h.link_pair hi ht hown
        (hci.linked hinv hir (fun x hx _ => hid ▸ hx) (h.link.chosen _ hi))
        (hct.linked tinv htr (fun x hx _ => htd ▸ hx) (h.link.chosen _ ht)) hstate
        (tinv'.deletion_of_replaced ?_) hfits⟩
    rw [htr, hown]
    rfl
  | replace hi ht hne hcollection histate htstate hr hsealed hpoints hx hmanifest haction
      htarget hp hdisposition =>
    exact h.replace hi ht hne hcollection histate htstate hr hsealed hpoints hx hmanifest haction
      htarget hp hdisposition

end Lifecycle
end PdfBridge
