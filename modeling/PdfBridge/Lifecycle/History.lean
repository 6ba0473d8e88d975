import PdfBridge.Services.Intake

/-! The operation history of a document: the newest operation stands first, only the newest
can be open, and attempts of one work class grow with time. -/
namespace PdfBridge
namespace Lifecycle
open Intake

/-- The newest operation of a document. -/
def newest (d : Document) : Option WorkOperation := d.operations.rows.head?

/-- `a` was enqueued after `b`. -/
def Newer (a b : WorkOperation) : Prop :=
  b.createdAt < a.createdAt ∧ (a.operationType = b.operationType → b.attempt < a.attempt)

structure OperationValid (id : Uuid) (o : WorkOperation) : Prop where
  document : o.documentId = id
  drawn : o.id = uuid4 o.createdAt 0
  attempt : 1 ≤ o.attempt
  priority : (priorityForOperation o.operationType
    o.replacementTargetDocumentId.isSome).map (·.value) = some o.priority
  target : o.replacementTargetDocumentId ≠ some id
  phase : o.state ≠ .succeeded →
    allowedPhase o.operationType o.replacementTargetDocumentId.isSome o.phase = true

/-- The history of a document whose operations were all enqueued before `bound`. -/
structure OperationsInv (bound : Time) (id : Uuid) (rows : List WorkOperation) : Prop where
  valid : ∀ o ∈ rows, OperationValid id o
  fresh : ∀ o ∈ rows, o.createdAt < bound
  ordered : rows.Pairwise Newer
  closed : ∀ o ∈ rows.tail, o.isOpen = false

variable {b b' : Time} {id : Uuid} {rows rest : List WorkOperation} {o o' : WorkOperation}
  {d : Document}

theorem OperationsInv.nil (b : Time) (id : Uuid) : OperationsInv b id [] := by
  constructor <;> simp

theorem OperationsInv.mono (h : OperationsInv b id rows) (hb : b ≤ b') :
    OperationsInv b' id rows := {h with fresh := fun o ho => (h.fresh o ho).trans_le hb}

theorem newest_eq_some : newest d = some o ↔ ∃ rest, d.operations.rows = o :: rest := by
  unfold newest
  cases d.operations.rows <;> simp

theorem mem_of_newest (h : newest d = some o) : o ∈ d.operations.rows := by
  obtain ⟨rest,hr⟩ := newest_eq_some.1 h
  rw [hr]
  exact List.mem_cons_self

/-- An open operation is the newest one. -/
theorem OperationsInv.head_of_isOpen (h : OperationsInv b id rows) (ho : o ∈ rows)
    (hopen : o.isOpen = true) : ∃ rest, rows = o :: rest := by
  cases rows with
  | nil => simp at ho
  | cons a rest =>
    rcases List.mem_cons.1 ho with rfl | ho
    · exact ⟨rest,rfl⟩
    · rw [h.closed o ho] at hopen
      cases hopen

theorem OperationsInv.newest_of_isOpen (h : OperationsInv b id d.operations.rows)
    (ho : o ∈ d.operations.rows) (hopen : o.isOpen = true) : newest d = some o :=
  newest_eq_some.2 (h.head_of_isOpen ho hopen)

/-- The latest attempt of a work class is the first one of that class in the history. -/
theorem OperationsInv.latestOperation_eq (h : OperationsInv b id d.operations.rows)
    (type : OperationType) :
    latestOperation d type = d.operations.rows.find? fun o => o.operationType = type := by
  unfold latestOperation
  have hp := h.ordered
  generalize d.operations.rows = rows at hp ⊢
  induction rows with
  | nil => rfl
  | cons a rest ih =>
    rw [List.pairwise_cons] at hp
    by_cases ha : a.operationType = type
    · simp only [ha, decide_true, List.filter_cons_of_pos, List.find?_cons_of_pos]
      refine latestBy_eq_of_lt List.mem_cons_self fun s hs hne => ?_
      rcases List.mem_cons.1 hs with rfl | hs
      · exact absurd rfl hne
      · rw [List.mem_filter, decide_eq_true_eq] at hs
        rw [Prod.Lex.lt_iff]
        exact Or.inl ((hp.1 s hs.1).2 (ha.trans hs.2.symm))
    · simp only [ha, decide_false, Bool.false_eq_true, not_false_eq_true,
        List.filter_cons_of_neg, List.find?_cons_of_neg]
      exact ih hp.2

theorem OperationsInv.latestOperation_newest (h : OperationsInv b id d.operations.rows)
    (ho : newest d = some o) : latestOperation d o.operationType = some o := by
  obtain ⟨rest,hr⟩ := newest_eq_some.1 ho
  rw [h.latestOperation_eq, hr]
  simp

/-- The running maximum of a column bounds every value in it. -/
theorem le_foldr_max {n : ℕ} {l : List ℕ} (h : n ∈ l) : n ≤ l.foldr max 0 := by
  induction l with
  | nil => simp at h
  | cons a l ih =>
    rcases List.mem_cons.1 h with rfl | h
    · exact le_max_left _ _
    · exact (ih h).trans (le_max_right _ _)

/-- The next attempt number is above every attempt of its class. -/
theorem attempt_lt_nextAttempt (ho : o ∈ d.operations.rows) :
    o.attempt < nextAttempt d o.operationType :=
  Nat.lt_succ_of_le (le_foldr_max (List.mem_map_of_mem (List.mem_filter.2 ⟨ho,by simp⟩)))

/-! ### Changing the history -/

/-- Replacing the newest operation keeps the others behind it. -/
theorem rows_putOperation (hr : d.operations.rows = o :: rest) (hid : o.id = o'.id) :
    (d.putOperation o').operations.rows = o' :: rest :=
  Table.rows_put_append (show d.operations.rows = [] ++ o :: rest from hr) hid

/-- An operation enqueued at a later time stands in front. -/
theorem OperationsInv.rows_put_fresh (h : OperationsInv b id d.operations.rows) (hb : b ≤ b')
    (hid : o.id = uuid4 b' 0) : (d.putOperation o).operations.rows = o :: d.operations.rows := by
  refine Table.rows_put_of_not_mem fun x hx he => ?_
  have hlt := h.fresh x hx
  rw [(h.valid x hx).drawn, hid] at he
  have := congrArg Uuid.drawnAt he
  simp only [uuid4_drawnAt] at this
  exact absurd hb (not_le.2 (this ▸ hlt))

theorem OperationsInv.newOperation {type : OperationType} {priority : OperationPriority}
    {revisionId target : Option Uuid} {phase : OperationPhase}
    (h : OperationsInv b d.id rows)
    (hclosed : ∀ x ∈ rows, x.isOpen = false)
    (hattempts : ∀ x ∈ rows, ∃ y ∈ d.operations.rows,
      x.operationType = y.operationType ∧ x.attempt = y.attempt)
    (hpriority : priorityForOperation type target.isSome = some priority)
    (htarget : target ≠ some d.id) (hphase : allowedPhase type target.isSome phase = true) :
    OperationsInv (b + 1) d.id
      (Intake.newOperation b d type priority revisionId target phase :: rows) where
  valid := List.forall_mem_cons.2 ⟨⟨rfl,rfl,Nat.le_add_left _ _,by simp [hpriority,
    Intake.newOperation],htarget,fun _ => hphase⟩,h.valid⟩
  fresh := List.forall_mem_cons.2 ⟨Nat.lt_succ_self _,
    fun x hx => Nat.lt_succ_of_lt (h.fresh x hx)⟩
  ordered := by
    rw [List.pairwise_cons]
    refine ⟨fun x hx => ⟨h.fresh x hx,fun ht => ?_⟩,h.ordered⟩
    obtain ⟨y,hy,hty,hay⟩ := hattempts x hx
    have := attempt_lt_nextAttempt hy
    rw [hay]
    show y.attempt < nextAttempt d type
    rwa [show type = y.operationType from ht.trans hty]
  closed := hclosed

/-- An operation that keeps its binding and its openness, or does not change at all. -/
structure Touch (o o' : WorkOperation) : Prop where
  id : o'.id = o.id
  document : o'.documentId = o.documentId
  target : o'.replacementTargetDocumentId = o.replacementTargetDocumentId
  type : o'.operationType = o.operationType
  priority : o'.priority = o.priority
  attempt : o'.attempt = o.attempt
  created : o'.createdAt = o.createdAt
  isOpen : o'.isOpen = o.isOpen
  revision : o.operationType ≠ .preflight → o'.preparedRevisionId = o.preparedRevisionId
  closed : o.isOpen = false → o' = o
  phase : o'.phase = o.phase ∨
    allowedPhase o.operationType o.replacementTargetDocumentId.isSome o'.phase = true

theorem Touch.refl (o : WorkOperation) : Touch o o :=
  ⟨rfl,rfl,rfl,rfl,rfl,rfl,rfl,rfl,fun _ => rfl,fun _ => rfl,Or.inl rfl⟩

theorem Touch.newer {a a' c c' : WorkOperation} (ha : Touch a a') (hc : Touch c c')
    (h : Newer a c) : Newer a' c' := by
  refine ⟨by rw [ha.created, hc.created]; exact h.1,fun ht => ?_⟩
  rw [ha.attempt, hc.attempt]
  exact h.2 (ha.type ▸ hc.type ▸ ht)

theorem Touch.valid (h : Touch o o') (ho : OperationValid id o) : OperationValid id o' where
  document := h.document.trans ho.document
  drawn := by rw [h.id, h.created, ho.drawn]
  attempt := h.attempt ▸ ho.attempt
  priority := by rw [h.type, h.target, h.priority]; exact ho.priority
  target := h.target ▸ ho.target
  phase := by
    intro hs
    rw [h.type, h.target]
    rcases h.phase with he | he
    · rw [he]
      apply ho.phase
      intro hsucc
      have hclosed : o.isOpen = false := by simp [WorkOperation.isOpen, hsucc]
      rw [h.closed hclosed] at hs
      exact hs hsucc
    · exact he

theorem forall₂_touch_refl (rows : List WorkOperation) : List.Forall₂ Touch rows rows := by
  induction rows with
  | nil => exact List.Forall₂.nil
  | cons a rest ih => exact List.Forall₂.cons (Touch.refl a) ih

/-- Every touched operation comes from one of the history. -/
theorem exists_of_touched {rows' : List WorkOperation} (h : List.Forall₂ Touch rows rows')
    (ho : o' ∈ rows') : ∃ o ∈ rows, Touch o o' := by
  induction h with
  | nil => simp at ho
  | cons ht _ ih =>
    rcases List.mem_cons.1 ho with rfl | ho
    · exact ⟨_,List.mem_cons_self,ht⟩
    · obtain ⟨o,hm,hto⟩ := ih ho
      exact ⟨o,List.mem_cons_of_mem _ hm,hto⟩

theorem OperationsInv.touch {rows' : List WorkOperation} (h : OperationsInv b id rows)
    (ht : List.Forall₂ Touch rows rows') : OperationsInv b id rows' where
  valid := by
    intro o' ho'
    obtain ⟨o,ho,hto⟩ := exists_of_touched ht ho'
    exact hto.valid (h.valid o ho)
  fresh := by
    intro o' ho'
    obtain ⟨o,ho,hto⟩ := exists_of_touched ht ho'
    exact hto.created ▸ h.fresh o ho
  ordered := by
    have hp := h.ordered
    clear h
    induction ht with
    | nil => exact List.Pairwise.nil
    | cons hto htail ih =>
      rw [List.pairwise_cons] at hp ⊢
      refine ⟨fun y hy => ?_,ih hp.2⟩
      obtain ⟨x,hx,htx⟩ := exists_of_touched htail hy
      exact hto.newer htx (hp.1 x hx)
  closed := by
    intro o' ho'
    cases ht with
    | nil => simp at ho'
    | cons hto htail =>
      obtain ⟨o,ho,hto'⟩ := exists_of_touched htail ho'
      exact hto'.isOpen.trans (h.closed o ho)

/-- The newest operation, finished or failed. -/
structure Settle (o o' : WorkOperation) : Prop where
  id : o'.id = o.id
  document : o'.documentId = o.documentId
  target : o'.replacementTargetDocumentId = o.replacementTargetDocumentId
  type : o'.operationType = o.operationType
  priority : o'.priority = o.priority
  attempt : o'.attempt = o.attempt
  created : o'.createdAt = o.createdAt
  isOpen : o'.isOpen = false
  revision : o.operationType ≠ .preflight → o'.preparedRevisionId = o.preparedRevisionId
  phase : o'.state = .succeeded ∨ (o.state ≠ .succeeded ∧ o'.phase = o.phase)

theorem OperationsInv.settle (h : OperationsInv b id (o :: rest)) (hs : Settle o o') :
    OperationsInv b id (o' :: rest) where
  valid := by
    have ho := h.valid o List.mem_cons_self
    refine List.forall_mem_cons.2 ⟨?_,fun x hx => h.valid x (List.mem_cons_of_mem _ hx)⟩
    exact {
      document := hs.document.trans ho.document
      drawn := by rw [hs.id, hs.created, ho.drawn]
      attempt := hs.attempt ▸ ho.attempt
      priority := by rw [hs.type, hs.target, hs.priority]; exact ho.priority
      target := hs.target ▸ ho.target
      phase := by
        intro hn
        rcases hs.phase with he | ⟨hne,he⟩
        · exact absurd he hn
        · rw [hs.type, hs.target, he]
          exact ho.phase hne }
  fresh := by
    refine List.forall_mem_cons.2 ⟨?_,fun x hx => h.fresh x (List.mem_cons_of_mem _ hx)⟩
    rw [hs.created]
    exact h.fresh o List.mem_cons_self
  ordered := by
    have hp := h.ordered
    rw [List.pairwise_cons] at hp ⊢
    refine ⟨fun y hy => ?_,hp.2⟩
    have := hp.1 y hy
    exact ⟨hs.created ▸ this.1,fun ht => hs.attempt ▸ this.2 (hs.type ▸ ht)⟩
  closed := h.closed

end Lifecycle
end PdfBridge
