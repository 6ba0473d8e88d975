import PdfBridge.Lifecycle.Ledger
import PdfBridge.Lifecycle.Rows
import PdfBridge.Lifecycle.Shown
import PdfBridge.Lifecycle.Slots
import PdfBridge.Managers.Catalog

/-! The queue that operators poll: its positions are the order of the claims, and no operation is
overtaken by less urgent work that comes later. -/
namespace PdfBridge
namespace Lifecycle
open Worker Api Intake Monitoring Rank

variable {s : Settings} {enc : Encoding} {w w' : World} {e : Event} {now : Time} {c : Catalog}
  {d d' : Document} {o o' p : WorkOperation} {P : World → Event → Prop}

/-! ### The order of the queue -/

/-- The order in which operations are claimed. -/
def queueKey (o : WorkOperation) : ℕ ×ₗ Time ×ₗ Uuid :=
  toLex (o.priority,toLex (o.createdAt,o.id))

def queuedOperations (c : Catalog) : List WorkOperation :=
  c.operations.filter fun o => o.state = .queued

theorem mem_queuedOperations :
    o ∈ queuedOperations c ↔ o ∈ c.operations ∧ o.state = .queued := by
  unfold queuedOperations
  rw [List.mem_filter, decide_eq_true_eq]

theorem ahead_iff : ahead o o' = true ↔ o'.state = o.state ∧ queueKey o' < queueKey o := by
  unfold ahead queueKey
  simp only [Bool.and_eq_true, Bool.or_eq_true, decide_eq_true_eq, Prod.Lex.toLex_lt_toLex]

/-- The queue position is the rank among the queued operations. -/
theorem queuePosition_eq (ho : o.state = .queued) :
    queuePosition c o = some (rank queueKey (queuedOperations c) o) := by
  unfold queuePosition rank queuedOperations
  rw [if_pos ho, List.countP_filter]
  congr 2
  apply List.countP_congr
  intro x _
  rw [ahead_iff, ho, Bool.and_eq_true, decide_eq_true_eq, decide_eq_true_eq]
  exact And.comm

/-! ### Distinct operations -/

theorem ReachableBy.operationsApart (h : ReachableBy s enc P w) :
    OperationsApart w.shared.catalog :=
  operationsApart_iff.2 (h.idsApart fun _ => draws_operations).2

theorem OperationsApart.nodup (h : OperationsApart c) : (c.operations.map (·.id)).Nodup := by
  unfold Catalog.operations
  rw [List.map_flatMap, List.nodup_flatMap]
  refine ⟨fun d _ => d.operations.nodup,?_⟩
  have hdocuments := List.pairwise_map.1 c.documents.nodup
  refine hdocuments.imp_of_mem fun {d d'} hd hd' hne => ?_
  intro id hid hid'
  obtain ⟨o,ho,rfl⟩ := List.mem_map.1 hid
  obtain ⟨o',ho',he⟩ := List.mem_map.1 hid'
  exact hne (h d hd d' hd' o ho o' ho' he.symm)

theorem OperationsApart.keys_nodup (h : OperationsApart c) :
    ((queuedOperations c).map queueKey).Nodup := by
  have hids : ((queuedOperations c).map (·.id)).Nodup :=
    h.nodup.sublist (List.filter_sublist.map _)
  refine List.Nodup.of_map (fun k => (ofLex (ofLex k).2).2) ?_
  rw [List.map_map]
  exact hids

/-- A claimed operation leaves the queue, and nothing else does. -/
theorem queuedOperations_claim (hd : d ∈ c.documents) (ho : o ∈ d.operations)
    (hqueued : o.state = .queued) (hid : o'.id = o.id) (hrunning : o'.state = .running) :
    (queuedOperations c).Perm (o :: queuedOperations (c.put (d.putOperation o'))) := by
  obtain ⟨before,after,hdocuments⟩ := List.append_of_mem hd
  obtain ⟨front,rest,hrows⟩ := List.append_of_mem ho
  have hput : (d.putOperation o').operations.rows = front ++ o' :: rest :=
    Table.rows_put_append hrows hid.symm
  have hcatalog : (c.put (d.putOperation o')).documents.rows =
      before ++ d.putOperation o' :: after := Table.rows_put_append hdocuments rfl
  have hleft : decide (o'.state = .queued) = false := by
    rw [hrunning]
    rfl
  unfold queuedOperations Catalog.operations
  rw [hdocuments, hcatalog]
  simp only [List.flatMap_append, List.flatMap_cons, hrows, hput, List.filter_append,
    List.filter_cons, hqueued, hleft, decide_true, if_true, Bool.false_eq_true, if_false]
  simp only [List.append_assoc, List.cons_append]
  rw [← List.append_assoc, ← List.append_assoc]
  exact List.perm_middle

/-! ### Operations along a run -/

/-- The same operation, at a later time. -/
structure Traced (o o' : WorkOperation) : Prop where
  id : o'.id = o.id
  priority : o'.priority = o.priority
  created : o'.createdAt = o.createdAt
  opened : o'.isOpen = true → o.isOpen = true

theorem Traced.refl (o : WorkOperation) : Traced o o := ⟨rfl,rfl,rfl,fun h => h⟩

theorem Traced.trans (h : Traced o o') (h' : Traced o' p) : Traced o p where
  id := h'.id.trans h.id
  priority := h'.priority.trans h.priority
  created := h'.created.trans h.created
  opened := h.opened ∘ h'.opened

theorem isOpen_of_running (h : o.state = .running) : o.isOpen = true := by
  unfold WorkOperation.isOpen
  rw [h]
  rfl

theorem isOpen_of_queued (h : o.state = .queued) : o.isOpen = true := by
  unfold WorkOperation.isOpen
  rw [h]
  rfl

theorem setOperationPhase_traced (hs : o.state = .running) (phase : OperationPhase) :
    Traced o (setOperationPhase now o phase) := by
  have hopen := isOpen_of_running hs
  unfold setOperationPhase
  split <;> exact ⟨rfl,rfl,rfl,fun _ => hopen⟩

theorem Write.traced (h : Write s now o o') : Traced o o' := by
  cases h with
  | claim hs => exact ⟨rfl,rfl,rfl,fun _ => isOpen_of_queued hs⟩
  | phase hs phase => exact setOperationPhase_traced hs phase
  | succeed hs phase =>
    have hphase : Traced o (setOperationPhase now o phase) := setOperationPhase_traced hs phase
    exact ⟨hphase.id,hphase.priority,hphase.created,fun _ => isOpen_of_running hs⟩
  | recover hs | renew hs | bind hs | fail hs =>
    exact ⟨rfl,rfl,rfl,fun _ => isOpen_of_running hs⟩

theorem Writes.traced (h : Writes s now o o') : Traced o o' := by
  induction h with
  | refl => exact Traced.refl o
  | tail _ hwrite ih => exact ih.trans hwrite.traced

theorem Enqueued.createdAt (h : Enqueued now o) : o.createdAt = now := by
  obtain ⟨d,type,priority,revisionId,target,phase,rfl⟩ := h
  rfl

/-- After a run an operation is one that stood in the catalog before, or it is younger. -/
theorem Steps.operations (h : Reachable s enc w) (hrun : Steps s enc (fun _ _ => True) w w') :
    Reachable s enc w' ∧ w.shared.now ≤ w'.shared.now ∧ ∀ o', o' ∈ w'.shared.catalog.operations →
      w.shared.now ≤ o'.createdAt ∨ ∃ o, o ∈ w.shared.catalog.operations ∧ Traced o o' := by
  induction hrun with
  | refl => exact ⟨h,le_refl _,fun o ho => Or.inr ⟨o,ho,Traced.refl o⟩⟩
  | @tail w₁ w₂ _ hstep ih =>
    obtain ⟨hw₁,hnow,hops⟩ := ih
    obtain ⟨e,-,hstep⟩ := hstep
    obtain ⟨know,hinv⟩ : ∃ know, WorldInv s True w₁ know := hw₁.inv fun _ _ _ _ => trivial
    have hwrites := step_rewrites hinv hstep
    refine ⟨hw₁.step trivial hstep,hnow.trans (step_now hinv hstep).le,fun o' ho' => ?_⟩
    obtain ⟨d',hd',ho'⟩ := Catalog.mem_operations.1 ho'
    rcases hwrites d' hd' with hall | ⟨d,hd,hr⟩
    · exact Or.inl (by rw [(hall o' ho').createdAt]; exact hnow)
    · rcases hr.operations o' ho' with hnew | ⟨o,ho,hw⟩
      · exact Or.inl (by rw [hnew.createdAt]; exact hnow)
      · have htraced := Writes.traced hw
        rcases hops o (Catalog.mem_operations.2 ⟨d,hd,ho⟩) with hle | ⟨o₀,ho₀,h₀⟩
        · exact Or.inl (by rw [htraced.created]; exact hle)
        · exact Or.inr ⟨o₀,ho₀,h₀.trans htraced⟩

theorem ReachableBy.operationValid (h : ReachableBy s enc P w)
    (ho : o ∈ w.shared.catalog.operations) :
    o.id = uuid4 o.createdAt 0 ∧ o.createdAt < w.shared.now := by
  obtain ⟨d,hd,ho⟩ := Catalog.mem_operations.1 ho
  have hops := (h.catalog.documents d hd).operations
  exact ⟨(hops.valid o ho).drawn,hops.fresh o ho⟩

/-! ### The queue as it is polled -/

/-- The positions of the queue are the numbers from one on, and a claim takes the first operation
whose documents no execution holds: it takes the first one of all when no document is held, and
whatever stands before it waits for a document. The operations behind it move up by one, those
before it stay. -/
theorem queue_positions (h : Reachable s enc w) :
    ((queuedOperations w.shared.catalog).map (queuePosition w.shared.catalog)).Perm
      ((List.range' 1 (queuedOperations w.shared.catalog).length).map some) ∧
    ∀ slot w', w.step s enc (.claim slot) = some w' → ∃ t o n, w'.slots slot = some t ∧
      t.claimed.operationId = o.id ∧ o ∈ queuedOperations w.shared.catalog ∧
      queuePosition w.shared.catalog o = some n ∧
      (w.shared.process.busyDocuments = [] → n = 1) ∧
      ∀ p m, p ∈ queuedOperations w.shared.catalog → queuePosition w.shared.catalog p = some m →
        (m < n → ∃ id ∈ lockedDocuments p, id ∈ w.shared.process.busyDocuments) ∧
        queuePosition w'.shared.catalog p = some (if n < m then m - 1 else m) := by
  have hrank : ∀ p, p ∈ queuedOperations w.shared.catalog → queuePosition w.shared.catalog p =
      some (rank queueKey (queuedOperations w.shared.catalog) p) :=
    fun p hp => queuePosition_eq (mem_queuedOperations.1 hp).2
  constructor
  · have hperm := (map_rank_perm h.operationsApart.keys_nodup).map some
    rw [List.map_map] at hperm
    rw [List.map_congr_left hrank]
    exact hperm
  · intro slot w' hstep
    obtain ⟨know,hinv⟩ : ∃ know, WorldInv s True w know := h.inv fun _ _ _ _ => trivial
    unfold World.step at hstep
    obtain ⟨w₁,hclaim,rfl⟩ := Option.map_eq_some_iff.1 hstep
    obtain ⟨-,claimed,process,c,hnext,rfl⟩ := claim_ok hclaim
    obtain ⟨o,hfirst,hid,-⟩ := claimNext_first hnext
    obtain ⟨d,o₁,o',hd,ho,hclaimable,hx,ho',-,hc⟩ := claimNext_ok hinv.catalog hnext
    have hoid : o₁.id = o.id := by rw [← hid, hx]
    have heq : o₁ = o := List.inj_on_of_nodup_map h.operationsApart.nodup
      (Catalog.mem_operations.2 ⟨d,hd,ho⟩) hfirst.listed hoid
    subst heq
    have hmem : o₁ ∈ queuedOperations w.shared.catalog :=
      mem_queuedOperations.2 ⟨hfirst.listed,hfirst.queued⟩
    have hperm : (queuedOperations w.shared.catalog).Perm (o₁ :: queuedOperations c) := by
      rw [hc]
      exact queuedOperations_claim hd ho hfirst.queued (by rw [ho']) (by rw [ho'])
    refine ⟨⟨claimed,slotTurn s enc claimed⟩,o₁,_,?_,hid,hmem,hrank o₁ hmem,?_,?_⟩
    · rw [slotTurn_eq, resume_guarded]
      simp [World.setSlot]
    · intro hbusy
      apply rank_of_least
      intro p hp
      obtain ⟨hlisted,hqueued⟩ := mem_queuedOperations.1 hp
      exact hfirst.first p hlisted hqueued fun id _ => by rw [hbusy]; exact List.not_mem_nil
    · intro p m hp hm
      obtain ⟨hlisted,hqueued⟩ := mem_queuedOperations.1 hp
      rw [hrank p hp, Option.some.injEq] at hm
      subst hm
      constructor
      · intro hlt
        by_contra hfree
        have hle := hfirst.first p hlisted hqueued fun id hid hbusy => hfree ⟨id,hid,hbusy⟩
        exact absurd ((rank_lt_rank_iff hp).1 hlt) (not_lt.2 hle)
      · show queuePosition c p = _
        have hleft := rank_of_perm_cons (f := queueKey) (a := p) hperm
        rw [queuePosition_eq hqueued]
        simp only [rank_lt_rank_iff hmem]
        split at hleft
        · rename_i hlt
          rw [if_pos hlt, hleft]
          rfl
        · rename_i hlt
          rw [if_neg hlt, hleft]
          rfl

/-- One document is ready and two uploads wait. -/
def waiting : List Cue :=
  .act (uploadOf "a") :: turnOf smoothly ++ turnOf smoothly ++
    [.act (uploadOf "b"),.act (uploadOf "c")]

/-- The deletion of the ready document is the first of three, and its claim lets the two preflights
move up. -/
theorem queue_positions_waiting : ∃ w w' : World,
    ((queuedOperations w.shared.catalog).map (queuePosition w.shared.catalog)).Perm
      [some 1,some 2,some 3] ∧
    w.step booksSettings plainEncoding (.claim .first) = some w' ∧
    ∃ o, o ∈ queuedOperations w.shared.catalog ∧ o.operationType = .delete ∧
      queuePosition w.shared.catalog o = some 1 ∧
      ∀ p m, p ∈ queuedOperations w.shared.catalog → queuePosition w.shared.catalog p = some m →
        queuePosition w'.shared.catalog p = some (if 1 < m then m - 1 else m) := by
  obtain ⟨w,hw,ht⟩ := play_any booksSettings plainEncoding (fun _ _ => True)
    (waiting ++ [.act (.delete (uuid4 0 0) sampleOperator)])
    (fun w => (queuedOperations w.shared.catalog).length = 3 &&
      w.shared.process.busyDocuments = [] &&
      ((queuedOperations w.shared.catalog).all fun o =>
        queuePosition w.shared.catalog o ≠ some 1 || o.operationType = .delete) &&
      (w.step booksSettings plainEncoding (.claim .first)).isSome) (fun _ _ _ => trivial)
    (fun _ _ _ => trivial) (by decide +kernel)
  simp only [Bool.and_eq_true, decide_eq_true_eq] at ht
  obtain ⟨⟨⟨hlength,hidle⟩,hfirst⟩,hstep⟩ := ht
  obtain ⟨w',hw'⟩ := Option.isSome_iff_exists.1 hstep
  obtain ⟨hperm,hclaim⟩ := queue_positions hw
  rw [hlength] at hperm
  obtain ⟨t,o,n,-,-,ho,hn,hone,hmoves⟩ := hclaim .first w' hw'
  obtain rfl := hone hidle
  have hdelete := List.all_eq_true.1 hfirst o ho
  rw [Bool.or_eq_true, decide_eq_true_eq, decide_eq_true_eq] at hdelete
  exact ⟨w,w',hperm,hw',o,ho,hdelete.resolve_left fun hne => hne hn,hn,
    fun p m hp hm => (hmoves p m hp hm).2⟩

end Lifecycle
end PdfBridge
