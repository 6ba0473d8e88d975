import PdfBridge.Lifecycle.Change

/-! What the parts of the document invariant need from a transition in order to survive it. -/
namespace PdfBridge
namespace Lifecycle
open Intake

variable {s : Settings} {now : Time} {d : Document} {o o' : WorkOperation}

/-! ### Leases, phases and the index -/

theorem Touch.ending_eq (h : Touch o o') : ending o' = ending o := by
  cases ho : o.isOpen with
  | false => rw [h.closed ho]
  | true =>
    have ho' := h.isOpen.trans ho
    rw [isOpen_iff] at ho ho'
    rw [ho, ho']

theorem Standing.touch (h : Standing d o) (ht : Touch o o') (t : Table WorkOperation.id) :
    Standing {d with operations := t} o' where
  shape := by
    rw [ht.type, ht.ending_eq]
    exact h.shape
  retryable := by
    intro hf
    rw [← ending_eq_failed, ht.ending_eq] at hf
    rw [ht.closed (isOpen_of_ending hf (by decide))]
    exact h.retryable (ending_eq_failed.1 hf)

/-! ### Bindings of the operations of one class -/

/-- Every operation of a class in `rows'` repeats the binding of one in `rows`. -/
def Repeats (type : OperationType) (rows rows' : List WorkOperation) : Prop :=
  ∀ o' ∈ rows', o'.operationType = type → ∃ o ∈ rows, o.operationType = type ∧
    o.preparedRevisionId = o'.preparedRevisionId ∧
    o.replacementTargetDocumentId = o'.replacementTargetDocumentId

theorem Repeats.refl (type : OperationType) (rows : List WorkOperation) :
    Repeats type rows rows := fun o ho ht => ⟨o,ho,ht,rfl,rfl⟩

theorem Repeats.touch {type : OperationType} {rows rows' : List WorkOperation}
    (ht : type ≠ .preflight) (h : List.Forall₂ Touch rows rows') : Repeats type rows rows' := by
  intro o' ho' htype
  obtain ⟨o,ho,hto⟩ := exists_of_touched h ho'
  have hot : o.operationType = type := hto.type ▸ htype
  exact ⟨o,ho,hot,(hto.revision (hot ▸ ht)).symm,hto.target.symm⟩

theorem Repeats.settle {type : OperationType} {rest : List WorkOperation}
    (ht : type ≠ .preflight) (h : Settle o o') : Repeats type (o :: rest) (o' :: rest) := by
  intro x hx htype
  rcases List.mem_cons.1 hx with rfl | hx
  · have hot : o.operationType = type := h.type ▸ htype
    exact ⟨o,List.mem_cons_self,hot,(h.revision (hot ▸ ht)).symm,h.target.symm⟩
  · exact ⟨x,List.mem_cons_of_mem _ hx,htype,rfl,rfl⟩

theorem Repeats.cons_of_ne {type : OperationType} {rows rows' : List WorkOperation}
    (h : Repeats type rows rows') (hne : o.operationType ≠ type) :
    Repeats type rows (o :: rows') := by
  intro x hx htype
  rcases List.mem_cons.1 hx with rfl | hx
  · exact absurd htype hne
  · exact h x hx htype

theorem Repeats.cons {type : OperationType} {rows : List WorkOperation} (hx : o ∈ rows)
    (ht : o'.operationType = o.operationType)
    (hr : o'.preparedRevisionId = o.preparedRevisionId)
    (hd : o'.replacementTargetDocumentId = o.replacementTargetDocumentId) :
    Repeats type rows (o' :: rows) := by
  intro x hxm htype
  rcases List.mem_cons.1 hxm with rfl | hxm
  · exact ⟨o,hx,ht ▸ htype,hr.symm,hd.symm⟩
  · exact ⟨x,hxm,htype,rfl,rfl⟩

/-! ### Publications -/

/-- Approval survives while sealed revisions and the decision stay. -/
theorem Approved.frame {d d' : Document} {r : PreparedRevision} {target : Option Uuid}
    (h : Approved d r target) (hd : d'.decisions = d.decisions)
    (hr : ∀ r, r ∈ d.preparedRevisions → r.status = .sealed → r ∈ d'.preparedRevisions) :
    Approved d' r target := by
  refine ⟨hr r h.1 h.2.1,h.2.1,h.2.2.imp_right ?_⟩
  rintro ⟨x,hx,hrest⟩
  exact ⟨x,hd.trans hx,hrest⟩

theorem Bound.frame {d d' : Document} {p p' : PublicationRecord} (h : Bound d p)
    (hd : d'.decisions = d.decisions)
    (hr : ∀ r, r ∈ d.preparedRevisions → r.status = .sealed → r ∈ d'.preparedRevisions)
    (ho : Repeats .publish d.operations.rows d'.operations.rows)
    (hrevision : p'.preparedRevisionId = p.preparedRevisionId)
    (hactive : p'.activeQdrantCollection = p.activeQdrantCollection)
    (hpoints : p'.expectedPoints = p.expectedPoints) : Bound d' p' := by
  obtain ⟨r,target,ha,hid,hcollection,hexpected,hops⟩ := h
  refine ⟨r,target,ha.frame hd hr,hid.trans hrevision.symm,hcollection.trans hactive.symm,
    hpoints ▸ hexpected,?_⟩
  intro o' ho' ht
  obtain ⟨o,hom,hot,hrev,htarget⟩ := ho o' ho' ht
  rw [← hrev, ← htarget]
  exact hops o hom hot

/-- A state that asks nothing new of the publications. -/
def Quiet (a b : DocumentState) : Prop :=
  b = a ∨ deletionState b = true ∨ (unapproved a = true ∧ unapproved b = true)

theorem Quiet.unapproved {a b : DocumentState} (h : Quiet a b)
    (hb : Lifecycle.unapproved b = true) : Lifecycle.unapproved a = true := by
  rcases h with rfl | h | h
  · exact hb
  · cases b <;> simp_all [Lifecycle.unapproved, deletionState, Api.terminalState]
  · exact h.1

theorem Quiet.publicationState {a b : DocumentState} (h : Quiet a b)
    (hb : Lifecycle.publicationState b = true) : b = a := by
  rcases h with rfl | h | h
  · rfl
  · cases b <;> simp_all [Lifecycle.publicationState, deletionState, Api.terminalState]
  · cases b <;> simp_all [Lifecycle.publicationState, Lifecycle.unapproved]

theorem Quiet.statusFits {a b : DocumentState} (h : Quiet a b) {p : PublicationStatus}
    (hp : Lifecycle.statusFits a p) : Lifecycle.statusFits b p := by
  rcases h with rfl | h | h
  · exact hp
  · cases b <;> simp_all [Lifecycle.statusFits, deletionState, Api.terminalState]
  · cases b <;> simp_all [Lifecycle.statusFits, Lifecycle.unapproved]

theorem PublicationsInv.frame {d d' : Document} (h : PublicationsInv d)
    (hs : Quiet d.state d'.state) (hd : d'.decisions = d.decisions)
    (hp : d'.publications = d.publications)
    (hr : ∀ r, r ∈ d.preparedRevisions → r.status = .sealed → r ∈ d'.preparedRevisions)
    (ho : Repeats .publish d.operations.rows d'.operations.rows) : PublicationsInv d' where
  decided := by
    rw [hd]
    intro x hx
    obtain ⟨r,hm,hid,hsealed,hman⟩ := h.decided x hx
    exact ⟨r,hr r hm hsealed,hid,hsealed,hman⟩
  singleDecision := hd ▸ h.singleDecision
  decisionTarget := hd ▸ h.decisionTarget
  undecided := fun hu => hd ▸ h.undecided (hs.unapproved hu)
  unpublished := fun hu => hp ▸ h.unpublished (hs.unapproved hu)
  single := hp ▸ h.single
  bound := by
    rw [hp]
    exact fun p hm => (h.bound p hm).frame hd hr ho rfl rfl rfl
  attempts := by
    rw [hp]
    intro o' ho' ht
    obtain ⟨o,hom,hot,-⟩ := ho o' ho' ht
    exact h.attempts o hom hot
  present := by
    rw [hp]
    intro hu
    exact h.present ((hs.publicationState hu) ▸ hu)
  status := by
    rw [hp]
    exact fun p hm => hs.statusFits (h.status p hm)
  failure := hp ▸ h.failure
  proof := hp ▸ h.proof

theorem PublicationsInv.rows_eq {p : PublicationRecord} (h : PublicationsInv d)
    (hp : p ∈ d.publications) : d.publications.rows = [p] := by
  have hs := h.single
  rw [Table.mem_def] at hp
  match hr : d.publications.rows with
  | [] => rw [hr] at hp; simp at hp
  | [q] => rw [hr] at hp; simp_all
  | _ :: _ :: _ => rw [hr] at hs; simp at hs

/-- The one publication moves on with its document. -/
theorem PublicationsInv.put {d d' : Document} {p p' : PublicationRecord}
    (h : PublicationsInv d) (hp : p ∈ d.publications) (hid : p'.id = p.id)
    (hp' : d'.publications = d.publications.put p') (hd : d'.decisions = d.decisions)
    (hr : ∀ r, r ∈ d.preparedRevisions → r.status = .sealed → r ∈ d'.preparedRevisions)
    (ho : Repeats .publish d.operations.rows d'.operations.rows)
    (hrevision : p'.preparedRevisionId = p.preparedRevisionId)
    (hactive : p'.activeQdrantCollection = p.activeQdrantCollection)
    (hpoints : p'.expectedPoints = p.expectedPoints)
    (hstate : unapproved d'.state = false) (hstatus : statusFits d'.state p'.status)
    (hfailure : p'.status = .failed → p'.failureCode.isSome = true)
    (hproof : p'.status = .verified → Api.verifiedSummaryValid p' = true) :
    PublicationsInv d' := by
  have hrows : d'.publications.rows = [p'] := by
    rw [hp']
    exact Table.rows_put_append (show d.publications.rows = [] ++ p :: [] from h.rows_eq hp)
      hid.symm
  exact {
    decided := by
      rw [hd]
      intro x hx
      obtain ⟨r,hm,hrid,hsealed,hman⟩ := h.decided x hx
      exact ⟨r,hr r hm hsealed,hrid,hsealed,hman⟩
    singleDecision := hd ▸ h.singleDecision
    decisionTarget := hd ▸ h.decisionTarget
    undecided := fun hu => by rw [hstate] at hu; cases hu
    unpublished := fun hu => by rw [hstate] at hu; cases hu
    single := by rw [hrows]; simp
    bound := by
      rw [hrows, List.forall_mem_singleton]
      exact (h.bound p hp).frame hd hr ho hrevision hactive hpoints
    attempts := by rw [hrows]; simp
    present := by rw [hrows]; simp
    status := by rw [hrows, List.forall_mem_singleton]; exact hstatus
    failure := by rw [hrows, List.forall_mem_singleton]; exact hfailure
    proof := by rw [hrows, List.forall_mem_singleton]; exact hproof }

/-! ### Deletion -/

/-- The rows that a deletion checkpoint is bound to stay. -/
structure KeepsBinding (d d' : Document) : Prop where
  id : d'.id = d.id
  intake : d'.intake = d.intake
  revisions : ∀ r, r ∈ d.preparedRevisions → ∃ r', r' ∈ d'.preparedRevisions ∧ r'.id = r.id
  replaced : d'.replacedByDocumentId = d.replacedByDocumentId
  attempts : Repeats .delete d.operations.rows d'.operations.rows

theorem LiveInv.frame {d d' : Document} (h : LiveInv d) (hb : KeepsBinding d d')
    (hstate : deletionState d'.state = false)
    (hdisposition : d'.terminalDisposition = d.terminalDisposition)
    (htombstone : d'.tombstone = d.tombstone) (hsource : d'.storageKey = d.storageKey) :
    LiveInv d' where
  state := hstate
  disposition := hdisposition.trans h.disposition
  tombstone := htombstone.trans h.tombstone
  replaced := hb.replaced.trans h.replaced
  source := by rw [hsource, h.source, hb.id]
  attempts := by
    intro o' ho' ht
    obtain ⟨o,ho,hot,-⟩ := hb.attempts o' ho' ht
    exact h.attempts o ho hot

/-- A deletion that stays at its tombstone stage moves on with its document. -/
theorem ProgressInv.frame {d d' : Document} {p p' : DeletionProgress} (h : ProgressInv s d p)
    (hb : KeepsBinding d d') (hp : Progress p p')
    (hstate : d'.state = d.state ∨ (d.state = .deleting ∧ d'.state = .deleteFailed) ∨
      (d.state = .deleteFailed ∧ d'.state = .deleting))
    (hdisposition : d'.terminalDisposition = d.terminalDisposition)
    (htombstone : d'.tombstone = d.tombstone) (hsource : d'.storageKey = d.storageKey) :
    ProgressInv s d' p' := by
  have hterminal : d'.state = p.terminalDisposition.toState ↔
      d.state = p.terminalDisposition.toState := by
    rcases hstate with he | ⟨he,he'⟩ | ⟨he,he'⟩
    · rw [he]
    · rw [he, he']; cases p.terminalDisposition <;> simp [TerminalDisposition.toState]
    · rw [he, he']; cases p.terminalDisposition <;> simp [TerminalDisposition.toState]
  exact {
    disposition := by rw [hdisposition, hp.disposition, h.disposition]
    state := by
      rw [hp.disposition]
      rcases hstate with he | ⟨-,he⟩ | ⟨-,he⟩
      · exact he ▸ h.state
      · exact Or.inr (Or.inl he)
      · exact Or.inl he
    active := by rw [hb.intake, hp.active]; exact h.active
    screening := hp.screening.trans h.screening
    revision := by
      rw [hp.revision]
      intro id hid
      obtain ⟨r,hr,hrid⟩ := h.revision id hid
      obtain ⟨r',hr',hid'⟩ := hb.revisions r hr
      exact ⟨r',hr',hid'.trans hrid⟩
    zeros := by
      intro hz
      apply hp.activeZero
      rcases hp.screeningZero hz with hz | hz
      · exact h.zeros hz
      · exact hz
    purged := by
      rw [hp.purged]
      exact fun hz => hp.kept (h.purged hz)
    tombstoned := by rw [hp.tombstoned, hp.disposition, hterminal]; exact h.tombstoned
    complete := by rw [hp.tombstoned, hp.purged]; exact h.complete
    tombstone := by rw [hp.tombstoned, htombstone, hp.disposition]; exact h.tombstone
    pending := by rw [hp.tombstoned, htombstone]; exact h.pending
    source := by rw [hsource, hp.purged, hb.id]; exact h.source
    replaced := by rw [hb.replaced, hp.disposition]; exact h.replaced
    attempts := by
      intro o' ho' ht
      obtain ⟨o,ho,hot,hrev,-⟩ := hb.attempts o' ho' ht
      rw [← hrev, hp.revision]
      exact h.attempts o ho hot }

theorem Progress.refl (p : DeletionProgress) : Progress p p :=
  ⟨rfl,rfl,rfl,rfl,id,Or.inl,id,rfl,rfl⟩

theorem DeletionInv.frame {d d' : Document} (h : DeletionInv s d) (hb : KeepsBinding d d')
    (hprogress : d'.deletionProgress = d.deletionProgress)
    (hstate : d'.state = d.state ∨
      (deletionState d.state = false ∧ deletionState d'.state = false))
    (hdisposition : d'.terminalDisposition = d.terminalDisposition)
    (htombstone : d'.tombstone = d.tombstone) (hsource : d'.storageKey = d.storageKey) :
    DeletionInv s d' := by
  unfold DeletionInv at h ⊢
  rw [hprogress]
  cases hp : d.deletionProgress with
  | none =>
    rw [hp] at h
    refine LiveInv.frame h hb ?_ hdisposition htombstone hsource
    rcases hstate with he | he
    · rw [he]; exact h.state
    · exact he.2
  | some p =>
    rw [hp] at h
    refine ProgressInv.frame h hb (Progress.refl p) (Or.inl ?_) hdisposition htombstone hsource
    rcases hstate with he | ⟨hlive,-⟩
    · exact he
    · rcases h.state with he | he | he
      · rw [he] at hlive; cases hlive
      · rw [he] at hlive; cases hlive
      · rw [he, deletionState_toState] at hlive; cases hlive

end Lifecycle
end PdfBridge
