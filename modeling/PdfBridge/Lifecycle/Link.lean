import PdfBridge.Lifecycle.Preservation

/-! The link between a replaced document and the incoming document that deletes it, and how
single transitions carry it over. -/
namespace PdfBridge
namespace Lifecycle
open Intake

variable {s : Settings} {rejects : FailureCode → Prop} {now : Time} {d d' : Document} {o o' : WorkOperation}

/-! ### What every transition keeps of the history -/

/-- The same operation, before and after a transition. -/
structure SameBinding (o o' : WorkOperation) : Prop where
  id : o'.id = o.id
  document : o'.documentId = o.documentId
  type : o'.operationType = o.operationType
  target : o'.replacementTargetDocumentId = o.replacementTargetDocumentId
  attempt : o'.attempt = o.attempt
  created : o'.createdAt = o.createdAt

theorem SameBinding.refl (o : WorkOperation) : SameBinding o o := ⟨rfl,rfl,rfl,rfl,rfl,rfl⟩

theorem Touch.sameBinding (h : Touch o o') : SameBinding o o' :=
  ⟨h.id,h.document,h.type,h.target,h.attempt,h.created⟩

theorem Settle.sameBinding (h : Settle o o') : SameBinding o o' :=
  ⟨h.id,h.document,h.type,h.target,h.attempt,h.created⟩

/-- Old operations stay, with new ones in front. -/
def Continues (front rows rows' : List WorkOperation) : Prop :=
  ∃ mid, rows' = front ++ mid ∧ List.Forall₂ SameBinding rows mid

theorem forall₂_sameBinding_refl (rows : List WorkOperation) :
    List.Forall₂ SameBinding rows rows := by
  induction rows with
  | nil => exact List.Forall₂.nil
  | cons a rest ih => exact List.Forall₂.cons (SameBinding.refl a) ih

theorem Continues.refl (rows : List WorkOperation) : Continues [] rows rows :=
  ⟨rows,rfl,forall₂_sameBinding_refl rows⟩

theorem Continues.touch {rows rows' : List WorkOperation} (h : List.Forall₂ Touch rows rows') :
    Continues [] rows rows' := ⟨rows',rfl,h.imp fun _ _ ht => ht.sameBinding⟩

theorem Continues.settle (ho : newest d = some o) (hs : Settle o o') :
    Continues [] d.operations.rows (d.putOperation o').operations.rows := by
  obtain ⟨rest,hr⟩ := newest_eq_some.1 ho
  rw [rows_putOperation hr hs.id.symm, hr]
  exact ⟨_,rfl,List.Forall₂.cons hs.sameBinding (forall₂_sameBinding_refl rest)⟩

theorem Continues.enqueue (h : OperationsInv now d.id d.operations.rows)
    (hid : o.id = uuid4 now 0) :
    Continues [o] d.operations.rows (d.putOperation o).operations.rows := by
  rw [h.rows_put_fresh le_rfl hid]
  exact ⟨_,rfl,forall₂_sameBinding_refl _⟩

theorem Continues.enqueue_settle (h : OperationsInv now d.id d.operations.rows)
    (ho : newest d = some o) (hs : Settle o o') {x : WorkOperation} (hid : x.id = uuid4 now 0) :
    Continues [x] d.operations.rows ((d.putOperation x).putOperation o').operations.rows := by
  obtain ⟨rest,hr⟩ := newest_eq_some.1 ho
  have hfront := h.rows_put_fresh le_rfl hid
  rw [hr] at hfront
  have hrows : ((d.putOperation x).putOperation o').operations.rows = x :: o' :: rest :=
    Table.rows_put_append (show _ = [x] ++ o :: rest from hfront) hs.id.symm
  rw [hrows, hr]
  exact ⟨_,rfl,List.Forall₂.cons hs.sameBinding (forall₂_sameBinding_refl rest)⟩

theorem exists_sameBinding {front rows rows' : List WorkOperation}
    (h : Continues front rows rows') (ho : o ∈ rows) : ∃ o' ∈ rows', SameBinding o o' := by
  obtain ⟨mid,rfl,hmid⟩ := h
  induction hmid with
  | nil => simp at ho
  | @cons a b l l' hab _ ih =>
    rcases List.mem_cons.1 ho with rfl | ho
    · exact ⟨b,by simp,hab⟩
    · obtain ⟨o',ho',hs⟩ := ih ho
      refine ⟨o',?_,hs⟩
      rcases List.mem_append.1 ho' with hf | hm
      · exact List.mem_append_left _ hf
      · exact List.mem_append_right _ (List.mem_cons_of_mem _ hm)

/-- An operation after a transition is a new one or an old one. -/
theorem mem_continues {front rows rows' : List WorkOperation}
    (h : Continues front rows rows') (ho : o' ∈ rows') :
    o' ∈ front ∨ ∃ o ∈ rows, SameBinding o o' := by
  obtain ⟨mid,rfl,hmid⟩ := h
  refine (List.mem_append.1 ho).imp_right fun hm => ?_
  induction hmid with
  | nil => simp at hm
  | cons hab _ ih =>
    rcases List.mem_cons.1 hm with rfl | hm
    · exact ⟨_,List.mem_cons_self,hab⟩
    · obtain ⟨o,hom,hs⟩ := ih (List.mem_append_right _ hm) hm
      exact ⟨o,List.mem_cons_of_mem _ hom,hs⟩

/-- Some operation of `d` replaces the document `t`. -/
def Targets (d : Document) (t : Uuid) : Prop :=
  ∃ o ∈ d.operations.rows, o.replacementTargetDocumentId = some t

/-- The operator decided that `d` replaces the document `t`. -/
def Chooses (d : Document) (t : Uuid) : Prop :=
  ∃ x ∈ d.decisions, x.action = .replace ∧ x.targetDocumentId = some t

/-- The rows that decide how documents are linked. -/
structure SameRows (d d' : Document) : Prop where
  id : d'.id = d.id
  intake : d'.intake = d.intake
  replaced : d'.replacedByDocumentId = d.replacedByDocumentId
  operations : d'.operations = d.operations
  decisions : d'.decisions = d.decisions

theorem failDocument_sameRows (o : WorkOperation) (code : FailureCode) (message : Text 500)
    (retryable : Bool) (d : Document) :
    SameRows d (Worker.failDocument o code message retryable d) := by
  unfold Worker.failDocument
  cases o.operationType with
  | preflight => exact ⟨rfl,rfl,rfl,rfl,rfl⟩
  | delete => exact ⟨rfl,rfl,rfl,rfl,rfl⟩
  | publish =>
    simp only [Worker.failPublication]
    cases o.preparedRevisionId.bind d.publicationForRevision with
    | none => exact ⟨rfl,rfl,rfl,rfl,rfl⟩
    | some p =>
      simp only
      split <;> exact ⟨rfl,rfl,rfl,rfl,rfl⟩

/-- A transition keeps the history, and replaces only documents that were chosen. -/
theorem Change.continues (hc : Change s rejects now d d') (h : DocumentInv s now d) :
    ∃ front, Continues front d.operations.rows d'.operations.rows ∧ front.length ≤ 1 ∧
      ∀ o ∈ front, o.id = uuid4 now 0 ∧ o.attempt = nextAttempt d o.operationType ∧
        ∀ t, o.replacementTargetDocumentId = some t → Targets d t ∨ Chooses d' t := by
  cases hc with
  | touch operations ht => exact ⟨[],Continues.touch ht,Nat.zero_le 1,by simp⟩
  | progress hp hpp operations ht => exact ⟨[],Continues.touch ht,Nat.zero_le 1,by simp⟩
  | purge hp hzero ids operations ht => exact ⟨[],Continues.touch ht,Nat.zero_le 1,by simp⟩
  | review hstate ho hs hsucceeded => exact ⟨[],Continues.settle ho hs,Nat.zero_le 1,by simp⟩
  | publish hstate ho hs hsucceeded => exact ⟨[],Continues.settle ho hs,Nat.zero_le 1,by simp⟩
  | buryOwn hp hpurged ho hopen hs => exact ⟨[],Continues.settle ho hs,Nat.zero_le 1,by simp⟩
  | fail ho hopen hs hfailed code message outbox =>
    refine ⟨[],?_,Nat.zero_le 1,by simp⟩
    show Continues [] _ (Worker.failDocument _ code message _ _).operations.rows
    rw [(failDocument_sameRows _ code message _ _).operations]
    exact Continues.settle ho hs
  | approve hstate ho hs =>
    exact ⟨_,Continues.enqueue_settle h.operations ho hs rfl,le_rfl,
      List.forall_mem_singleton.2 ⟨rfl,rfl,fun _ ht => by cases ht⟩⟩
  | reject hstate ho hs =>
    exact ⟨_,Continues.enqueue_settle h.operations ho hs rfl,le_rfl,
      List.forall_mem_singleton.2 ⟨rfl,rfl,fun _ ht => by cases ht⟩⟩
  | @decide hstate _ _ x _ target hr hsealed hpoints hx hmanifest haction =>
    refine ⟨_,Continues.enqueue h.operations rfl,le_rfl,
      List.forall_mem_singleton.2 ⟨rfl,rfl,fun t ht => Or.inr ?_⟩⟩
    have hmem : x ∈ d.decisions ++ [x] := by simp
    rcases haction with ⟨-,-,he⟩ | ⟨ha,he,-⟩
    · have : target = some t := ht
      rw [he] at this
      cases this
    · exact ⟨x,hmem,ha,he.trans ht⟩
  | cancel =>
    exact ⟨_,Continues.enqueue h.operations rfl,le_rfl,
      List.forall_mem_singleton.2 ⟨rfl,rfl,fun _ ht => by cases ht⟩⟩
  | delete =>
    exact ⟨_,Continues.enqueue h.operations rfl,le_rfl,
      List.forall_mem_singleton.2 ⟨rfl,rfl,fun _ ht => by cases ht⟩⟩
  | retryPreflight hstate ho =>
    exact ⟨_,Continues.enqueue h.operations rfl,le_rfl,
      List.forall_mem_singleton.2 ⟨rfl,rfl,fun _ ht => Or.inl ⟨_,mem_of_newest ho,ht⟩⟩⟩
  | retryPublish hstate ho =>
    exact ⟨_,Continues.enqueue h.operations rfl,le_rfl,
      List.forall_mem_singleton.2 ⟨rfl,rfl,fun _ ht => Or.inl ⟨_,mem_of_newest ho,ht⟩⟩⟩
  | retryDelete hstate howner ho =>
    exact ⟨_,Continues.enqueue h.operations rfl,le_rfl,
      List.forall_mem_singleton.2 ⟨rfl,rfl,fun _ ht => Or.inl ⟨_,mem_of_newest ho,ht⟩⟩⟩
  | index | revise | upsert | yield_ | failYielded | resumeYielded | bury =>
    exact ⟨[],Continues.refl _,Nat.zero_le 1,by simp⟩

theorem Change.id (hc : Change s rejects now d d') : d'.id = d.id := by
  cases hc with
  | fail ho hopen hs hfailed code message outbox =>
    exact (failDocument_sameRows _ code message _ _).id
  | _ => rfl

theorem Change.intake (hc : Change s rejects now d d') : d'.intake = d.intake := by
  cases hc with
  | fail ho hopen hs hfailed code message outbox =>
    exact (failDocument_sameRows _ code message _ _).intake
  | _ => rfl

theorem Change.decisions (hc : Change s rejects now d d') : ∀ x ∈ d.decisions, x ∈ d'.decisions := by
  cases hc with
  | fail ho hopen hs hfailed code message outbox =>
    intro x hx
    show x ∈ (Worker.failDocument _ code message _ _).decisions
    rw [(failDocument_sameRows _ code message _ _).decisions]
    exact hx
  | decide => exact fun x hx => List.mem_append_left _ hx
  | cancel => exact fun x hx => List.mem_append_left _ hx
  | _ => exact fun x hx => hx

theorem Targets.change {t : Uuid} (h : Targets d t) (hc : Change s rejects now d d')
    (hd : DocumentInv s now d) : Targets d' t := by
  obtain ⟨o,ho,ht⟩ := h
  obtain ⟨front,hcont,-,-⟩ := hc.continues hd
  obtain ⟨o',ho',hs⟩ := exists_sameBinding hcont ho
  exact ⟨o',ho',hs.target.trans ht⟩

theorem Chooses.change {t : Uuid} (h : Chooses d t) (hc : Change s rejects now d d') :
    Chooses d' t := by
  obtain ⟨x,hx,ha⟩ := h
  exact ⟨x,hc.decisions x hx,ha⟩

end Lifecycle
end PdfBridge
