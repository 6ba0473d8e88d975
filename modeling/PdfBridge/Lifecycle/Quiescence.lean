import PdfBridge.Lifecycle.Course
import PdfBridge.Lifecycle.Queue

/-! The service comes to rest: out of every reachable state a restart, the end of the leases and one
failing turn for each open operation leave nothing to do, and no document between two states. -/
namespace PdfBridge
namespace Lifecycle
open Worker Api Intake

variable {s : Settings} {enc : Encoding} {strands : Prop} {w w' : World} {now : Time}
  {c c' c₁ c₂ : Catalog} {d d' e : Document} {o o' : WorkOperation} {P : World → Event → Prop}

/-! ### Open operations -/

def openOperations (c : Catalog) : ℕ := c.operations.countP (·.isOpen)

theorem openOperations_put (hd : d ∈ c.documents) (hid : d'.id = d.id) :
    openOperations (c.put d') + d.operations.rows.countP (·.isOpen) =
      openOperations c + d'.operations.rows.countP (·.isOpen) := by
  obtain ⟨before,after,hrows⟩ := List.append_of_mem hd
  have hput : (c.put d').documents.rows = before ++ d' :: after :=
    Table.rows_put_append hrows hid.symm
  unfold openOperations Catalog.operations
  rw [hrows, hput]
  simp only [List.flatMap_append, List.flatMap_cons, List.countP_append]
  omega

theorem openOperations_put_same (hd : d ∈ c.documents) (hid : d'.id = d.id)
    (hops : d'.operations = d.operations) : openOperations (c.put d') = openOperations c := by
  have hput := openOperations_put hd hid
  rw [hops] at hput
  omega

theorem countP_putOperation (ho : o ∈ d.operations) (hid : o'.id = o.id)
    (hopen : o.isOpen = true) :
    (d.putOperation o').operations.rows.countP (·.isOpen) + 1 =
      d.operations.rows.countP (·.isOpen) + if o'.isOpen = true then 1 else 0 := by
  obtain ⟨front,rest,hrows⟩ := List.append_of_mem ho
  have hput : (d.putOperation o').operations.rows = front ++ o' :: rest :=
    Table.rows_put_append hrows hid.symm
  rw [hrows, hput]
  simp only [List.countP_append, List.countP_cons, hopen, if_true]
  omega

theorem openOperations_mapOperations {f : WorkOperation → WorkOperation}
    {hf : ∀ o, (f o).id = o.id} (hopen : ∀ o, (f o).isOpen = o.isOpen) :
    openOperations (Catalog.mapOperations c f hf) = openOperations c := by
  have hops : (Catalog.mapOperations c f hf).operations = c.operations.map f := by
    unfold Catalog.operations Catalog.mapOperations Worker.Document.mapOperations Table.update
    rw [List.flatMap_map, List.map_flatMap]
  unfold openOperations
  rw [hops, List.countP_map]
  exact List.countP_congr fun o _ => by rw [Function.comp_apply, hopen]

/-! ### Documents that are given up -/

/-- The state of a document whose work has failed. -/
def abandoned : DocumentState → DocumentState
  | .preflighting => .preflightFailed
  | .publishing => .publishFailed
  | .deleting => .deleteFailed
  | x => x

theorem abandoned_idle {x : DocumentState} (h : busy x = false) : abandoned x = x := by
  cases x <;> first | rfl | cases h

theorem idle_abandoned (x : DocumentState) : busy (abandoned x) = false := by
  cases x <;> rfl

/-- A document stays, or its work has failed and may be retried. -/
structure GivenUp (d d' : Document) : Prop where
  id : d'.id = d.id
  kept : d'.state = d.state ∧ d'.failureRetryable = d.failureRetryable ∨
    busy d.state = true ∧ d'.state = abandoned d.state ∧ d'.failureRetryable = true

theorem GivenUp.refl (d : Document) : GivenUp d d := ⟨rfl,Or.inl ⟨rfl,rfl⟩⟩

theorem GivenUp.trans (h : GivenUp d d') (h' : GivenUp d' e) : GivenUp d e := by
  refine ⟨h'.id.trans h.id,?_⟩
  rcases h.kept with ⟨hs,hr⟩ | ⟨hbusy,hs,hr⟩
  · have hkept := h'.kept
    rw [hs, hr] at hkept
    exact hkept
  · right
    rcases h'.kept with ⟨hs',hr'⟩ | ⟨hbusy',-⟩
    · exact ⟨hbusy,hs'.trans hs,hr'.trans hr⟩
    · rw [hs, idle_abandoned] at hbusy'
      cases hbusy'

/-- No document leaves the catalog, and the ones that change are given up. -/
def GivesUp (c c' : Catalog) : Prop :=
  ∀ d, d ∈ c.documents → ∃ d', d' ∈ c'.documents ∧ GivenUp d d'

theorem GivesUp.refl (c : Catalog) : GivesUp c c := fun d hd => ⟨d,hd,GivenUp.refl d⟩

theorem GivesUp.trans (h : GivesUp c c₁) (h' : GivesUp c₁ c₂) : GivesUp c c₂ := by
  intro d hd
  obtain ⟨d₁,hd₁,hgiven⟩ := h d hd
  obtain ⟨d₂,hd₂,hgiven'⟩ := h' d₁ hd₁
  exact ⟨d₂,hd₂,hgiven.trans hgiven'⟩

theorem GivesUp.put (h : GivesUp c c') (hd : d ∈ c.documents) (hgiven : GivenUp d d') :
    GivesUp c (c'.put d') := by
  intro e he
  by_cases hid : e.id = d.id
  · cases Table.eq_of_key_eq he hd hid
    exact ⟨d',mem_put.2 (Or.inl rfl),hgiven⟩
  · obtain ⟨e',he',hkept⟩ := h e he
    refine ⟨e',mem_put.2 (Or.inr ⟨he',?_⟩),hkept⟩
    rw [hkept.id, hgiven.id]
    exact hid

/-! ### A failed operation -/

theorem failDocument_givenUp (hs : d.state = busyState o.operationType) (code : FailureCode)
    (message : Text 500) : GivenUp d (failDocument o code message true d) := by
  refine ⟨failDocument_operations.1,Or.inr ⟨by rw [hs]; exact busy_busyState _,?_,?_⟩⟩
  · unfold failDocument
    cases ht : o.operationType <;> rw [ht] at hs <;> rw [hs] <;> rfl
  · unfold failDocument
    cases o.operationType <;> rfl

theorem failReplacementTarget_givenUp (code : FailureCode) (message : Text 500) (t : Document) :
    GivenUp t (failReplacementTarget code message true t) := by
  unfold failReplacementTarget
  split
  · rename_i hs
    refine ⟨rfl,Or.inr ⟨by rw [hs]; rfl,?_,rfl⟩⟩
    rw [hs]
    rfl
  · exact GivenUp.refl t

/-- The catalog gives documents up without a change to any operation. -/
structure KeepsWork (c c' : Catalog) : Prop where
  givesUp : GivesUp c c'
  count : openOperations c' = openOperations c
  rows : ∀ e, e ∈ c'.documents → ∃ d, d ∈ c.documents ∧ d.id = e.id ∧ e.operations = d.operations

theorem KeepsWork.refl (c : Catalog) : KeepsWork c c :=
  ⟨GivesUp.refl c,rfl,fun e he => ⟨e,he,rfl,rfl⟩⟩

theorem KeepsWork.put (hd : d ∈ c.documents) (hgiven : GivenUp d d')
    (hops : d'.operations = d.operations) : KeepsWork c (c.put d') where
  givesUp := (GivesUp.refl c).put hd hgiven
  count := openOperations_put_same hd hgiven.id hops
  rows := by
    intro e he
    rcases mem_put.1 he with rfl | ⟨he,-⟩
    · exact ⟨d,hd,hgiven.id.symm,hops⟩
    · exact ⟨e,he,rfl,rfl⟩

/-- The rows of a document are still there. -/
theorem KeepsWork.document (h : KeepsWork c c') (hd : d ∈ c.documents) :
    ∃ d', d' ∈ c'.documents ∧ d'.id = d.id ∧ d'.operations = d.operations := by
  obtain ⟨d',hd',hgiven⟩ := h.givesUp d hd
  obtain ⟨d₀,hd₀,hid,hops⟩ := h.rows d' hd'
  cases Table.eq_of_key_eq hd₀ hd (hid.trans hgiven.id)
  exact ⟨d',hd',hgiven.id,hops⟩

/-- The work of a catalog but for one operation, which is closed. -/
structure Closes (d : Document) (o : WorkOperation) (c c' : Catalog) : Prop where
  givesUp : GivesUp c c'
  count : openOperations c' + 1 = openOperations c
  running : ∀ e', e' ∈ c'.documents → ∀ x, x ∈ e'.operations → x.state = .running →
    ∃ e, e ∈ c.documents ∧ x ∈ e.operations ∧ (e.id ≠ d.id ∨ x.id ≠ o.id)

theorem KeepsWork.close (h : KeepsWork c c₁) (hd : d ∈ c.documents) (ho : o ∈ d.operations)
    (hopen : o.isOpen = true) (o' : WorkOperation) (hid : o'.id = o.id) (hclosed : o'.isOpen = false)
    (hgiven : GivenUp d d') (hops : d'.operations = (d.putOperation o').operations) :
    Closes d o c (c₁.put d') := by
  obtain ⟨d₁,hd₁,hid₁,hops₁⟩ := h.document hd
  refine ⟨h.givesUp.put hd hgiven,?_,?_⟩
  · have hput := openOperations_put hd₁ (hgiven.id.trans hid₁.symm)
    have hrow := countP_putOperation ho hid hopen
    have hcount := h.count
    rw [hclosed] at hrow
    rw [hops₁, hops] at hput
    simp only [Bool.false_eq_true, if_false] at hrow
    omega
  · intro e he x hx hrunning
    rcases mem_put.1 he with rfl | ⟨he,hne⟩
    · rw [hops] at hx
      rcases Table.mem_put.1 hx with rfl | ⟨hx,hne⟩
      · rw [isOpen_of_running hrunning] at hclosed
        cases hclosed
      · exact ⟨d,hd,hx,Or.inr (hid ▸ hne)⟩
    · obtain ⟨e₀,he₀,hide,hopse⟩ := h.rows e he
      exact ⟨e₀,he₀,hopse ▸ hx,Or.inl (by rw [hide, ← hgiven.id]; exact hne)⟩

/-- A running operation that fails on a database fault is closed, and the documents that it was
working on are given up. -/
theorem failOperation_closes (hinv : CatalogInv s strands now c) (hd : d ∈ c.documents)
    (ho : o ∈ d.operations) (hrunning : o.state = .running) (now' : Time) : ∃ c',
      failOperation now' ⟨o.id,d.id⟩ .database c = .ok ((),c') ∧ Closes d o c c' := by
  obtain ⟨code,message,hsafe⟩ : ∃ code message,
      safeFailure .database = (code,message,true) := ⟨_,_,rfl⟩
  have hfound : ((c.document? d.id).bind fun d => (d.operation? o.id).map (d,·)) = some (d,o) := by
    have hlookup : d.operation? o.id = some o := Table.lookup_of_mem ho
    rw [Catalog.document?_of_mem hd, Option.bind_some, hlookup]
    rfl
  have hopen : o.isOpen = true := isOpen_of_running hrunning
  have hstate : d.state = busyState o.operationType :=
    (hinv.documents d hd).state_eq_busyState
      ((hinv.documents d hd).operations.newest_of_isOpen ho hopen) hopen
  have hgiven := failDocument_givenUp
    (d := d.putOperation (failedOperation now' code message true o)) hstate code message
  simp only [failOperation, hsafe, hfound, hrunning, ne_eq, not_true_eq_false, if_false]
  refine ⟨_,rfl,?_⟩
  refine KeepsWork.close ?_ hd ho hopen (failedOperation now' code message true o) rfl rfl
    ⟨hgiven.id,hgiven.kept⟩ failDocument_operations.2
  split
  · rename_i t _ ht
    obtain ⟨id,-,hlookup⟩ := Option.bind_eq_some_iff.1 ht
    have ht := failReplacementTarget_givenUp code message t
    exact KeepsWork.put (Catalog.mem_of_document? hlookup) ⟨ht.id,ht.kept⟩
      failReplacementTarget_operations.2
  · exact KeepsWork.refl c

/-! ### A failing turn -/

/-- A slot claims the next operation, fails on its first transaction, and records the failure. -/
def failedTurn : List Event :=
  [.claim .first,.work .first .databaseFault,.work .first .proceed,.work .first .proceed]

/-- Nothing is executed. -/
structure Idle (w : World) : Prop where
  slots : ∀ slot, w.slots slot = none
  free : w.shared.process.busyDocuments = []
  waiting : ∀ o, o ∈ w.shared.catalog.operations → o.state ≠ .running

/-- An idle process claims an operation whenever one is queued. -/
theorem claimNext_takes {p : Process} (hinv : CatalogInv s strands now c)
    (hfree : p.busyDocuments = []) (ho : o ∈ c.operations) (hqueued : o.state = .queued) :
    ∃ x p' c', claimNext s now p c = .ok (some x,p',c') := by
  have hclaimable : claimable p o = true := by
    apply claimable_iff.2
    exact ⟨hqueued,fun id _ => by rw [hfree]; exact List.not_mem_nil⟩
  unfold claimNext
  cases hnext : nextClaimable p c with
  | none =>
    have hnil := List.argmin_eq_none.1 hnext
    exact absurd (List.mem_filter.2 ⟨ho,hclaimable⟩) (by rw [hnil]; exact List.not_mem_nil)
  | some o₁ =>
    obtain ⟨d,hd,ho₁⟩ := Catalog.mem_operations.1 (List.mem_filter.1 (List.argmin_mem hnext)).1
    have hdocument : c.document? o₁.documentId = some d := by
      rw [((hinv.documents d hd).operations.valid o₁ ho₁).document]
      exact Catalog.document?_of_mem hd
    simp only [hdocument, orRaise]
    exact ⟨_,_,_,rfl⟩

/-- The first request of a claim is a transaction, and its database fault fails the operation. -/
theorem body_database (x : ClaimedOperation) : ∃ r k, body s enc x = .call (.catalog r) k ∧
    k (.error .database) = catalog (.failOperation .database) := by
  unfold body dispatch
  cases x.operationType with
  | preflight => exact ⟨.preflightSource,_,rfl,rfl⟩
  | publish | delete => exact ⟨.operationSnapshot,_,rfl,rfl⟩

theorem claim_step {slot : Slot} {x : ClaimedOperation} {p : Process} (enc : Encoding)
    (hslot : w.slots slot = none)
    (hclaim : claimNext s w.shared.now w.shared.process w.shared.catalog = .ok (some x,p,c)) :
    ∃ w', w.step s enc (.claim slot) = some w' ∧
      w'.shared = {w.shared with catalog := c, process := p, now := w.shared.now + 1} ∧
      w'.slots = Function.update w.slots slot (World.resume x (slotTurn s enc x)) := by
  simp only [World.step, World.apply, World.claim, hslot, hclaim, Option.map_some]
  exact ⟨_,rfl,rfl,rfl⟩

theorem work_step (s : Settings) (enc : Encoding) (i : Input) {slot : Slot}
    {x : ClaimedOperation} {r : Request}
    {k : Except ServiceError r.Response → Prog Unit} {a : Except ServiceError r.Response}
    {σ : Shared} (hslot : w.slots slot = some ⟨x,.call r k⟩)
    (hexec : exec s enc x.ref i w.shared r = some (a,σ)) :
    ∃ w', w.step s enc (.work slot i) = some w' ∧ w'.shared = {σ with now := σ.now + 1} ∧
      w'.slots = Function.update w.slots slot (World.resume x (k a)) := by
  simp only [World.step, World.apply, World.work, World.workStep, hslot, hexec, Option.map_some]
  exact ⟨_,rfl,rfl,rfl⟩

/-- What a failing turn leaves behind. -/
theorem failedTurn_run {x : ClaimedOperation} {p : Process} (enc : Encoding)
    (hslots : ∀ slot, w.slots slot = none)
    (hclaim : claimNext s w.shared.now w.shared.process w.shared.catalog = .ok (some x,p,c₁))
    (hfail : failOperation (w.shared.now + 2) x.ref .database c₁ = .ok ((),c₂)) :
    ∃ w', w.run s enc failedTurn = some w' ∧ (∀ slot, w'.slots slot = none) ∧
      w'.shared.process = releaseClaim x p ∧ w'.shared.catalog = c₂ := by
  obtain ⟨r,k,hbody,hk⟩ : ∃ r k, body s enc x = .call (.catalog r) k ∧
    k (.error .database) = catalog (.failOperation .database) := body_database x
  obtain ⟨w₁,hclaimed,hshared₁,hslots₁⟩ := claim_step enc (hslots .first) hclaim
  have hthread₁ : w₁.slots .first =
      some ⟨x,.call (.catalog r) fun a => guarded x (k a)⟩ := by
    rw [hslots₁, Function.update_self, slotTurn_eq, hbody]
    rfl
  obtain ⟨w₂,hfault,hshared₂,hslots₂⟩ := work_step s enc .databaseFault hthread₁ rfl
  have hthread₂ : w₂.slots .first =
      some ⟨x,guarded x (catalog (.failOperation .database))⟩ := by
    rw [hslots₂, Function.update_self, hk, resume_guarded]
  have hexec : exec s enc x.ref .proceed w₂.shared (.catalog (.failOperation .database)) =
      some (.ok (),{w₂.shared with catalog := c₂}) := by
    have hrun : failOperation w₂.shared.now x.ref .database w₂.shared.catalog = .ok ((),c₂) := by
      rw [hshared₂, hshared₁]
      exact hfail
    simp only [exec, CatalogRequest.run, hrun]
  obtain ⟨w₃,hfailed,hshared₃,hslots₃⟩ := work_step s enc .proceed hthread₂ hexec
  have hthread₃ : w₃.slots .first = some ⟨x,guarded x (.pure ())⟩ := by
    rw [hslots₃, Function.update_self]
    rfl
  obtain ⟨w₄,hreleased,hshared₄,hslots₄⟩ := work_step s enc .proceed hthread₃ rfl
  refine ⟨w₄,?_,?_,?_,?_⟩
  · simp only [failedTurn, World.run, hclaimed, hfault, hfailed, hreleased, Option.bind_some]
  · intro slot
    rw [hslots₄, hslots₃, hslots₂, hslots₁]
    cases slot with
    | first => rw [Function.update_self]; rfl
    | second =>
      have hne : Slot.second ≠ .first := by decide
      rw [Function.update_of_ne hne, Function.update_of_ne hne, Function.update_of_ne hne,
        Function.update_of_ne hne, hslots]
  · rw [hshared₄]
    show releaseClaim x w₃.shared.process = _
    rw [hshared₃, hshared₂, hshared₁]
  · rw [hshared₄]
    show w₃.shared.catalog = _
    rw [hshared₃]

/-- A turn over an idle world closes one operation. -/
theorem Idle.turn (h : Reachable s enc w) (hidle : Idle w)
    (hopen : 0 < openOperations w.shared.catalog) : ∃ w', w.run s enc failedTurn = some w' ∧
      Idle w' ∧ GivesUp w.shared.catalog w'.shared.catalog ∧
      openOperations w'.shared.catalog + 1 = openOperations w.shared.catalog := by
  obtain ⟨q,hq,hqopen⟩ := List.countP_pos_iff.1 hopen
  have hqueued : q.state = .queued := by
    unfold WorkOperation.isOpen at hqopen
    rcases Bool.or_eq_true_iff.1 hqopen with hs | hs
    · exact of_decide_eq_true hs
    · exact absurd (of_decide_eq_true hs) (hidle.waiting q hq)
  obtain ⟨x,p,c₁,hclaim⟩ := claimNext_takes (s := s) h.catalog hidle.free hq hqueued
  obtain ⟨d,o,o',hd,ho,hclaimable,hx,ho',hp,hc₁⟩ := claimNext_ok h.catalog hclaim
  have hopened : o.isOpen = true := isOpen_of_queued (claimable_iff.1 hclaimable).1
  have hid : o'.id = o.id := by rw [ho']
  have hrunning : o'.state = .running := by rw [ho']
  have hd₁ : d.putOperation o' ∈ c₁.documents := by
    rw [hc₁]
    exact mem_put.2 (Or.inl rfl)
  -- the claimed operation is the only one that runs
  have hrunning₁ : ∀ e, e ∈ c₁.documents → ∀ y, y ∈ e.operations → y.state = .running →
      e.id = d.id ∧ y.id = o'.id := by
    intro e he y hy hrun
    rw [hc₁] at he
    rcases mem_put.1 he with rfl | ⟨he,-⟩
    · rcases Table.mem_put.1 hy with rfl | ⟨hy,-⟩
      · exact ⟨rfl,rfl⟩
      · exact absurd hrun (hidle.waiting y (Catalog.mem_operations.2 ⟨d,hd,hy⟩))
    · exact absurd hrun (hidle.waiting y (Catalog.mem_operations.2 ⟨e,he,hy⟩))
  have hcount₁ : openOperations c₁ = openOperations w.shared.catalog := by
    have hput := openOperations_put hd (show (d.putOperation o').id = d.id from rfl)
    have hrow := countP_putOperation ho hid hopened
    rw [isOpen_of_running hrunning, if_pos rfl] at hrow
    rw [hc₁]
    omega
  obtain ⟨w₁,hstep,hshared,-⟩ := claim_step enc (hidle.slots .first) hclaim
  have hcatalog : CatalogInv s True w₁.shared.now c₁ := by
    have hinv := (h.step trivial hstep).catalog
    rw [hshared] at hinv ⊢
    exact hinv
  obtain ⟨c₂,hfail,hcloses⟩ := failOperation_closes hcatalog hd₁
    (Table.mem_put_self d.operations o') hrunning (w.shared.now + 2)
  have href : x.ref = ⟨o'.id,d.id⟩ := by
    rw [hx, hid]
    rfl
  obtain ⟨w',hrun,hslots,hprocess,hc₂⟩ := failedTurn_run enc hidle.slots hclaim (href ▸ hfail)
  have hgives : GivesUp w.shared.catalog c₁ := by
    rw [hc₁]
    exact (GivesUp.refl _).put hd ⟨rfl,Or.inl ⟨rfl,rfl⟩⟩
  refine ⟨w',hrun,⟨hslots,?_,?_⟩,?_,?_⟩
  · rw [hprocess, hp, hidle.free, List.append_nil]
    exact List.filter_eq_nil_iff.2 fun id hid => by simp [hid]
  · intro y hy hrun
    rw [hc₂] at hy
    obtain ⟨e,he,hy⟩ := Catalog.mem_operations.1 hy
    obtain ⟨e₀,he₀,hy₀,hne⟩ := hcloses.running e he y hy hrun
    obtain ⟨hide,hidy⟩ := hrunning₁ e₀ he₀ y hy₀ hrun
    rcases hne with hne | hne
    · exact hne hide
    · exact hne hidy
  · rw [hc₂]
    exact hgives.trans hcloses.givesUp
  · rw [hc₂, hcloses.count, hcount₁]

/-! ### Rest -/

/-- No lease lasts longer than the settings allow. -/
theorem ReachableBy.leased (h : ReachableBy s enc P w) (hd : d ∈ w.shared.catalog.documents)
    (ho : o ∈ d.operations) {t : Time} (ht : o.leaseExpiresAt = some t) :
    t ≤ w.shared.now + s.leaseSeconds := by
  have hlease := h.operationsAt (I := fun now o => ∀ t, o.leaseExpiresAt = some t →
    t ≤ now + s.leaseSeconds) ?_ ?_ ?_ d hd o ho
  · exact hlease t ht
  · intro now now' o hle hlease t ht
    exact (hlease t ht).trans (Nat.add_le_add_right hle _)
  · rintro now o ⟨d,type,priority,revisionId,target,phase,rfl⟩ t ht
    cases ht
  · intro now o o' _ hlease hwrite t ht
    cases hwrite with
    | claim | renew =>
      cases ht
      exact le_refl _
    | recover | fail => cases ht
    | phase hs phase =>
      unfold setOperationPhase at ht
      split at ht <;> exact hlease t ht
    | bind => exact hlease t ht
    | succeed => cases ht

theorem recoverLease_isOpen (now : Time) (o : WorkOperation) :
    (recoverLease now o).isOpen = o.isOpen := by
  unfold recoverLease
  split
  · rename_i hlapsed
    rw [isOpen_of_running hlapsed.1]
    rfl
  · rfl

/-- Once every lease has lapsed, nothing runs after the recovery. -/
theorem ReachableBy.recovered (h : Reachable s enc w) (hnow : w.shared.now + s.leaseSeconds ≤ now)
    (ho : o ∈ (recoverLeases now w.shared.catalog).operations) : o.state ≠ .running := by
  intro hrunning
  obtain ⟨d',hd',ho⟩ := Catalog.mem_operations.1 ho
  obtain ⟨d,hd,rfl⟩ := mem_mapOperations.1 hd'
  obtain ⟨x,hx,rfl⟩ := List.mem_map.1 ho
  unfold recoverLease at hrunning
  split at hrunning
  · cases hrunning
  · rename_i hlive
    obtain ⟨-,hlease,-⟩ := (h.rowValid hd hx).running hrunning
    obtain ⟨t,ht⟩ := Option.isSome_iff_exists.1 hlease
    apply hlive
    rw [ht, Option.any_some, decide_eq_true_eq]
    exact ⟨hrunning,(h.leased hd hx ht).trans hnow⟩

/-- After a restart and one lease every open operation is back in the queue. -/
theorem restart_idle (h : Reachable s enc w) : ∃ w',
    w.run s enc [.restart,.wait s.leaseSeconds,.recoverLeases] = some w' ∧ Idle w' ∧
    GivesUp w.shared.catalog w'.shared.catalog ∧
    openOperations w'.shared.catalog = openOperations w.shared.catalog := by
  have hnow : w.shared.now + s.leaseSeconds ≤ w.shared.now + 0 + 1 + s.leaseSeconds + 1 :=
    (Nat.add_le_add_right (Nat.le_succ _) _).trans (Nat.le_succ _)
  refine ⟨_,rfl,⟨fun _ => rfl,rfl,fun o ho => h.recovered hnow ho⟩,fun d hd => ?_,?_⟩
  · exact ⟨_,mem_mapOperations.2 ⟨d,hd,rfl⟩,rfl,Or.inl ⟨rfl,rfl⟩⟩
  · exact openOperations_mapOperations (recoverLease_isOpen _)

/-- As many failing turns as there are open operations close them all. -/
theorem Idle.close {n : ℕ} (h : Reachable s enc w) (hidle : Idle w)
    (hn : openOperations w.shared.catalog = n) : ∃ w',
      w.run s enc (List.replicate n failedTurn).flatten = some w' ∧ Idle w' ∧
      GivesUp w.shared.catalog w'.shared.catalog ∧ openOperations w'.shared.catalog = 0 := by
  induction n generalizing w with
  | zero => exact ⟨w,rfl,hidle,GivesUp.refl _,hn⟩
  | succ n ih =>
    obtain ⟨w₁,hturn,hidle₁,hgives,hcount⟩ := hidle.turn h (by omega)
    obtain ⟨w',hrun,hidle',hgives',hnone⟩ := ih (h.run hturn) hidle₁ (by omega)
    refine ⟨w',?_,hidle',hgives.trans hgives',hnone⟩
    rw [List.replicate_succ, List.flatten_cons, run_append, hturn, Option.bind_some, hrun]

/-- A restart, the end of the leases, and one failing turn for each open operation. -/
def windDown (s : Settings) (c : Catalog) : List Event :=
  [.restart,.wait s.leaseSeconds,.recoverLeases] ++
    (List.replicate (openOperations c) failedTurn).flatten

/-- No work is ever stuck. Out of every reachable state, whatever was being executed, a restart
followed by one lease and one failing turn for each open operation comes to rest: no slot is taken,
no operation is open and no document is busy; those that were busy stand in the failed state of
their work and may be retried, and all the others are in their state. -/
theorem work_comes_to_rest (h : Reachable s enc w) : ∃ w',
    w.run s enc (windDown s w.shared.catalog) = some w' ∧ (∀ slot, w'.slots slot = none) ∧
    openOperations w'.shared.catalog = 0 ∧
    (∀ d', d' ∈ w'.shared.catalog.documents → busy d'.state = false) ∧
    ∀ d, d ∈ w.shared.catalog.documents → ∃ d', d' ∈ w'.shared.catalog.documents ∧
      d'.id = d.id ∧ d'.state = abandoned d.state ∧
      (busy d.state = true → d'.failureRetryable = true) := by
  obtain ⟨w₁,hrestart,hidle₁,hgives₁,hcount⟩ := restart_idle h
  have h₁ := h.run hrestart
  obtain ⟨w',hturns,hidle,hgives,hnone⟩ := hidle₁.close h₁ hcount
  have hrun : w.run s enc (windDown s w.shared.catalog) = some w' := by
    rw [windDown, run_append, hrestart, Option.bind_some, hturns]
  have hrest : ∀ d', d' ∈ w'.shared.catalog.documents → busy d'.state = false := by
    intro d' hd'
    by_contra hbusy
    rw [Bool.not_eq_false] at hbusy
    obtain ⟨o,i,hi,ho,hopen,-⟩ := (h.run hrun).catalog.exists_owner hd' hbusy
    exact List.countP_eq_zero.1 hnone o (Catalog.mem_operations.2 ⟨i,hi,ho⟩) hopen
  refine ⟨w',hrun,hidle.slots,hnone,hrest,fun d hd => ?_⟩
  obtain ⟨d',hd',hgiven⟩ := hgives₁.trans hgives d hd
  have hidle' := hrest d' hd'
  rcases hgiven.kept with ⟨hs,-⟩ | ⟨-,hs,hr⟩
  · rw [hs] at hidle'
    exact ⟨d',hd',hgiven.id,by rw [hs, abandoned_idle hidle'],fun hbusy => by
      rw [hidle'] at hbusy
      cases hbusy⟩
  · exact ⟨d',hd',hgiven.id,hs,fun _ => hr⟩

/-- A replacement is interrupted while it deletes the document that it replaces. -/
theorem work_comes_to_rest_replacing : ∃ (w w' : World) (d d' : Document),
    w.run booksSettings plainEncoding (windDown booksSettings w.shared.catalog) = some w' ∧
    d ∈ w.shared.catalog.documents ∧ d.state = .deleting ∧
    d' ∈ w'.shared.catalog.documents ∧ d'.id = d.id ∧ d'.state = .deleteFailed ∧
    d'.failureRetryable = true := by
  obtain ⟨w,d,hw,hd,ht⟩ := play_document booksSettings plainEncoding (fun _ _ => True) replacing
    (fun d => d.state = .deleting) (fun _ _ _ => trivial) (fun _ _ _ => trivial)
    (by decide +kernel)
  have hdeleting : d.state = .deleting := of_decide_eq_true ht
  obtain ⟨w',hrun,-,-,-,hdocuments⟩ := work_comes_to_rest hw
  obtain ⟨d',hd',hid,hstate,hretryable⟩ := hdocuments d hd
  rw [hdeleting] at hstate hretryable
  exact ⟨w,w',d,d',hrun,hd,hdeleting,hd',hid,hstate,hretryable rfl⟩

end Lifecycle
end PdfBridge
