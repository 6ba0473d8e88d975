import PdfBridge.Lifecycle.Promises
import PdfBridge.Lifecycle.Retention
import PdfBridge.Lifecycle.Scenario
import PdfBridge.Lifecycle.Statechart

/-! The course of a document through a run is a path of the statechart, and every move is made by
the party that the chart names. -/
namespace PdfBridge
namespace Lifecycle
open Worker Api Intake Statechart

variable {s : Settings} {enc : Encoding} {strands : Prop} {rejects : FailureCode → Prop}
  {now : Time} {worker : Uuid} {x : ClaimedOperation} {K : Knowledge} {c c' : Catalog}
  {d d' t : Document} {o o' : WorkOperation} {w w' : World} {e : Event} {know : Slot → Knowledge}

/-! ### Transitions -/

/-- An open operation of a document is the one that its state names. -/
theorem DocumentInv.state_eq_busyState (h : DocumentInv s now d) (ho : newest d = some o)
    (hopen : o.isOpen = true) : d.state = busyState o.operationType := by
  rcases (h.standing_newest ho).pending hopen with ⟨hs,ht⟩ | ⟨hs,ht⟩ | ⟨hs,-,ht⟩ <;>
    rw [hs, ht] <;> rfl

/-- The state of a document after its operation failed. -/
theorem failDocument_successor (hs : d.state = busyState o.operationType) (code : FailureCode)
    (message : Text 500) (retryable : Bool) :
    (failDocument o code message retryable d).state ∈ successors d.state := by
  unfold failDocument
  cases ht : o.operationType with
  | preflight =>
    rw [ht] at hs
    show (if d.state = .deleting then DocumentState.deleting else .preflightFailed) ∈ _
    rw [hs]
    decide
  | publish =>
    rw [ht] at hs
    rw [hs]
    exact List.mem_cons_of_mem _ List.mem_cons_self
  | delete =>
    rw [ht] at hs
    rw [hs]
    exact List.mem_cons_self

/-- Every transition stays in a state or follows an edge of the chart. -/
theorem Change.successor (hc : Change s rejects now d d') (h : DocumentInv s now d) :
    d'.state = d.state ∨ d'.state ∈ successors d.state := by
  have edge : ∀ {a : DocumentState}, d.state = a → d'.state ∈ successors a →
      d'.state = d.state ∨ d'.state ∈ successors d.state := fun ha he => Or.inr (ha ▸ he)
  have entombed : ∀ disposition : TerminalDisposition,
      disposition.toState ∈ successors .deleting := fun disposition => by
    cases disposition <;> decide
  cases hc with
  | review hstate => exact edge hstate (show DocumentState.reviewRequired ∈ _ by decide)
  | approve hstate => exact edge hstate (show DocumentState.publishing ∈ _ by decide)
  | reject hstate => exact edge hstate (show DocumentState.deleting ∈ _ by decide)
  | @fail o o' ho hopen hs hfailed code message outbox =>
    exact Or.inr (failDocument_successor (d := d.putOperation o')
      (h.state_eq_busyState ho hopen) code message o'.retryable)
  | publish hstate => exact edge hstate (show DocumentState.ready ∈ _ by decide)
  | decide hstate => exact edge hstate (show DocumentState.publishing ∈ _ by decide)
  | cancel hstate => exact edge hstate (show DocumentState.deleting ∈ _ by decide)
  | delete hstate =>
    rcases hstate with hs | hs | hs | hs <;>
      exact edge hs (show DocumentState.deleting ∈ _ by decide)
  | yield_ hstate => exact edge hstate (show DocumentState.deleting ∈ _ by decide)
  | failYielded hstate => exact edge hstate (show DocumentState.deleteFailed ∈ _ by decide)
  | resumeYielded hstate => exact edge hstate (show DocumentState.deleting ∈ _ by decide)
  | retryPreflight hstate => exact edge hstate (show DocumentState.preflighting ∈ _ by decide)
  | retryPublish hstate => exact edge hstate (show DocumentState.publishing ∈ _ by decide)
  | retryDelete hstate => exact edge hstate (show DocumentState.deleting ∈ _ by decide)
  | @bury p hp hpurged hstate => exact edge hstate (entombed p.terminalDisposition)
  | @buryOwn p hp hpurged o o' ho hopen =>
    have hdeletion : deletionState d.state = true := by
      by_contra hlive
      rw [Bool.not_eq_true] at hlive
      rw [(h.deletion.live hlive).1] at hp
      cases hp
    have hstate := h.state_eq_busyState ho hopen
    rw [h.delete_of_open hdeletion ho hopen] at hstate
    exact edge hstate (entombed p.terminalDisposition)
  | touch | index | revise | upsert | progress | purge => exact Or.inl rfl

theorem mover_busy {a : DocumentState} (h : busy a = true) : mover a = some .worker := by
  cases a <;> first | rfl | cases h

theorem mover_idle {a b : DocumentState} (h : busy a = false) (hb : b ∈ successors a) :
    mover a = some .operator := by
  cases a <;> first | rfl | exact absurd h (by decide) | exact absurd hb List.not_mem_nil

/-! ### Who moves -/

/-- The documents of `c` that `c'` has in another state were all in a state of `P`. -/
def MovesOnly (P : DocumentState → Prop) (c c' : Catalog) : Prop :=
  ∀ d, d ∈ c.documents → ∀ d', d' ∈ c'.documents → d'.id = d.id → d'.state = d.state ∨ P d.state

theorem MovesOnly.refl (P : DocumentState → Prop) (c : Catalog) : MovesOnly P c c :=
  fun _ hd _ hd' hid => Or.inl (congrArg Document.state (Table.eq_of_key_eq hd' hd hid))

theorem MovesOnly.put {P : DocumentState → Prop} (h : MovesOnly P c c') (hd : d ∈ c.documents)
    (hid : d'.id = d.id) (hs : d'.state = d.state ∨ P d.state) : MovesOnly P c (c'.put d') := by
  intro e he e' he' hide
  rcases mem_put.1 he' with rfl | ⟨he',-⟩
  · cases Table.eq_of_key_eq he hd (hide.symm.trans hid)
    exact hs
  · exact h e he e' he' hide

/-- A replacement that fails was being carried out. -/
theorem failReplacementTarget_moves (code : FailureCode) (message : Text 500) (retryable : Bool)
    (t : Document) : (failReplacementTarget code message retryable t).id = t.id ∧
      ((failReplacementTarget code message retryable t).state = t.state ∨ busy t.state = true) := by
  unfold failReplacementTarget
  split
  · rename_i hs
    exact ⟨rfl,Or.inr (by rw [hs]; rfl)⟩
  · exact ⟨rfl,Or.inl rfl⟩

theorem DocumentInv.busy_of_isOpen (h : DocumentInv s now d) (ho : o ∈ d.operations.rows)
    (hopen : o.isOpen = true) : busy d.state = true := by
  rw [h.state_eq_busyState (h.operations.newest_of_isOpen ho hopen) hopen]
  exact busy_busyState o.operationType

theorem failOperation_busy (hinv : CatalogInv s strands now c) {ref : OperationRef}
    {err : ServiceError} {u : Unit} (h : failOperation now ref err c = .ok (u,c')) :
    MovesOnly (fun a => busy a = true) c c' := by
  simp only [failOperation] at h
  split at h
  · cases h
    exact MovesOnly.refl _ c
  · rename_i d o hfound
    split at h
    · cases h
      exact MovesOnly.refl _ c
    · rename_i hstate
      simp only [Option.bind_eq_some_iff, Option.map_eq_some_iff, Prod.mk.injEq] at hfound
      obtain ⟨d₁,hd,o₁,ho,rfl,rfl⟩ := hfound
      have hmem := Catalog.mem_of_document? hd
      have hbusy : busy d₁.state = true := by
        apply (hinv.documents d₁ hmem).busy_of_isOpen (Table.mem_of_lookup ho)
        rw [not_not] at hstate
        simp [WorkOperation.isOpen, hstate]
      simp only [pure_eq_ok, Prod.mk.injEq] at h
      obtain ⟨-,rfl⟩ := h
      split
      · rename_i t _ ht
        obtain ⟨id,htarget,hlookup⟩ := Option.bind_eq_some_iff.1 ht
        obtain ⟨hid,hs⟩ := failReplacementTarget_moves (safeFailure err).1 (safeFailure err).2.1
          (safeFailure err).2.2 t
        apply MovesOnly.put ((MovesOnly.refl _ c).put (Catalog.mem_of_document? hlookup) ?_ ?_) hmem
          ?_ (Or.inr hbusy)
        · exact hid
        · exact hs
        · exact failDocument_operations.1
      · apply (MovesOnly.refl _ c).put hmem ?_ (Or.inr hbusy)
        exact failDocument_operations.1

/-- A deletion that is carried out and has no tombstone yet is going on. -/
theorem Owned.deleting {ref : OperationRef} (ho : Owned ref c d o)
    (hinv : CatalogInv s strands now c) (ht : t ∈ c.documents) (hw : worksOn o t.id)
    {p : DeletionProgress} (hp : t.deletionProgress = some p) (hnone : t.tombstone = none) :
    t.state = .deleting := by
  rcases ho.cleanup hinv ht hw hp with ⟨rfl,-,hstate⟩ | ⟨-,-,-,howner,hstate⟩
  · exact hstate
  · have hprogress := (hinv.documents t ht).deletion.of_some hp
    rcases hprogress.state with hs | hs | hs
    · exact hs
    · rcases (hinv.owns ho.document ht howner).fits.2 hs with ⟨hi,-⟩ | ⟨-,hi⟩ <;>
        rw [hstate] at hi <;> cases hi
    · obtain ⟨y,hy,-⟩ := hprogress.tombstone (hprogress.tombstoned.2 hs)
      rw [hnone] at hy
      cases hy

/-- A worker moves only documents that are being worked on. -/
theorem request_busy (hinv : CatalogInv s strands now c) (hclaimed : Claimed x c)
    {r : CatalogRequest} {a : r.Response} (hp : permitsCatalog s x K r)
    (h : r.run s enc now worker x.ref c = .ok (a,c')) :
    MovesOnly (fun a => busy a = true) c c' := by
  have owned : ∀ {d o d'}, Owned x.ref c d o → d'.id = d.id →
      MovesOnly (fun a => busy a = true) c (c.put d') := fun ho hid =>
    (MovesOnly.refl _ c).put ho.document hid
      (Or.inr ((hinv.documents _ ho.document).busy_of_isOpen ho.operation ho.isOpen))
  cases r with
  | failOperation err => exact failOperation_busy hinv h
  | acceptRejection reason active =>
    simp only [CatalogRequest.run, acceptRejection, bind_eq_ok, Prod.exists, pure_eq_ok,
      Prod.mk.injEq] at h
    obtain ⟨d,o,howned,o₁,d',hqueue,-,rfl⟩ := h
    exact owned (ownedOperation_ok howned) (queueRejectionCleanup_content hqueue).id
  | finishPreflight prepared =>
    simp only [CatalogRequest.run, finishPreflight, bind_eq_ok, orRaise_eq_ok, require_eq_ok,
      exists_const, Prod.exists] at h
    obtain ⟨d,o,howned,r,-,-,-,h⟩ := h
    split at h
    · simp only [bind_eq_ok, Prod.exists, pure_eq_ok, Prod.mk.injEq] at h
      obtain ⟨o₁,d',hqueue,-,rfl⟩ := h
      exact owned (ownedOperation_ok howned) (queueClearPublication_content hqueue).id
    · simp only [pure_eq_ok, Prod.mk.injEq] at h
      obtain ⟨-,rfl⟩ := h
      exact owned (ownedOperation_ok howned) rfl
  | finishPublication id n =>
    obtain ⟨d,o,r,p,ho,-,-,-,-,-,-,-,-,rfl⟩ := finishPublication_ok h
    exact owned ho rfl
  | commitDeletion id =>
    simp only [CatalogRequest.run, commitDeletion, bind_eq_ok, orRaise_eq_ok, require_eq_ok,
      exists_const, Prod.exists, pure_eq_ok, Prod.mk.injEq] at h
    obtain ⟨d,o,howned,t,ht,p,hprogress,-,t',hcommit,-,rfl⟩ := h
    have htm := Catalog.mem_of_document? ht
    have hmoved : t'.id = t.id ∧ (t'.state = t.state ∨ busy t.state = true) := by
      rcases commitTombstone_ok hcommit with ⟨rfl,-⟩ | ⟨hnone,q,y,hq,-,-,-,rfl⟩
      · exact ⟨rfl,Or.inl rfl⟩
      · refine ⟨rfl,Or.inr ?_⟩
        have ho := ownedOperation_ok howned
        have hw : worksOn o t.id := by
          rw [Catalog.id_of_document? ht]
          exact (hclaimed.owned ho).worksOn hinv hp.2
        rw [ho.deleting hinv htm hw hprogress hnone]
        rfl
    split
    · exact (MovesOnly.refl _ c).put htm hmoved.1 hmoved.2
    · exact (MovesOnly.refl _ c).put htm hmoved.1 hmoved.2
  | _ =>
    have hobserves := request_observes hinv hclaimed hp h
    intro d hd d' hd' hid
    rcases hobserves.documents d' hd' with ⟨hnew,-⟩ | ⟨e,he,hw⟩
    · exact absurd hid.symm (hnew d hd)
    · cases Table.eq_of_key_eq he hd (hw.id.symm.trans hid)
      refine Or.inl (hw.state.resolve_right ?_)
      rintro (hcloses | hcommit)
      · exact hcloses
      · cases hcommit

/-- A mutation leaves the documents that are being worked on alone. -/
theorem Observes.idle (h : Observes mutationAllowance c c') :
    MovesOnly (fun a => busy a = false) c c' := by
  intro d hd d' hd' hid
  by_cases hbusy : busy d.state = true
  · have hframe : ¬ mutationAllowance.touches d := fun ht => by
      change busy d.state = false at ht
      rw [hbusy] at ht
      cases ht
    exact Or.inl (congrArg Document.state (Table.eq_of_key_eq hd' (h.frame d hd hframe) hid))
  · rw [Bool.not_eq_true] at hbusy
    exact Or.inr hbusy

/-! ### Steps -/

/-- Who makes an event, if it may move documents. -/
def party : Event → Option Party
  | .decide _ | .retry _ _ | .delete _ _ => some .operator
  | .work _ _ => some .worker
  | _ => none

/-- The states of which an event moves documents on. -/
def moved (e : Event) (a : DocumentState) : Prop :=
  match party e with
  | some .operator => busy a = false
  | some .worker => busy a = true
  | none => False

theorem apply_moved (h : WorldInv s strands w know) (happly : w.apply s enc e = some w') :
    MovesOnly (moved e) w.shared.catalog w'.shared.catalog := by
  have mutation : ∀ {y : Outcome Catalog}, w.commit y = some w' →
      (∀ c, y = .ok c → Observes mutationAllowance w.shared.catalog c) →
      MovesOnly (fun a => busy a = false) w.shared.catalog w'.shared.catalog := by
    intro y hy hobserves
    obtain ⟨c,hc,rfl⟩ := commit_ok hy
    exact (hobserves c hc).idle
  cases e with
  | upload y committed =>
    obtain ⟨m,hm,rfl⟩ := upload_ok happly
    cases committed with
    | false => exact MovesOnly.refl _ _
    | true =>
      obtain ⟨-,hput⟩ := registerAdmission_ok hm
      intro d hd d' hd' hid
      change d' ∈ m.catalog.documents at hd'
      rw [hput] at hd'
      rcases mem_put.1 hd' with rfl | ⟨hd',-⟩
      · have hfresh := (h.catalog.documents d hd).fresh
        have hdrawn := congrArg Uuid.drawnAt
          ((h.catalog.documents d hd).drawn.symm.trans hid.symm)
        rw [show d.createdAt = w.shared.now from hdrawn] at hfresh
        exact absurd hfresh (lt_irrefl _)
      · exact Or.inl (congrArg Document.state (Table.eq_of_key_eq hd' hd hid))
  | decide y =>
    apply mutation happly
    intro c hc
    obtain ⟨m,hm,rfl⟩ := runMutation_ok hc
    exact recordDecision_observes h.catalog hm
  | retry id actor =>
    apply mutation happly
    intro c hc
    obtain ⟨m,hm,rfl⟩ := runMutation_ok hc
    exact requestRetry_observes hm
  | delete id actor =>
    apply mutation happly
    intro c hc
    obtain ⟨m,hm,rfl⟩ := runMutation_ok hc
    exact deleteDocument_observes h.catalog hm
  | claim slot =>
    obtain ⟨-,claimed,p,c,hclaim,rfl⟩ := claim_ok happly
    obtain ⟨d,o,o',hd,-,-,-,-,-,rfl⟩ := claimNext_ok h.catalog hclaim
    exact (MovesOnly.refl _ _).put hd rfl (Or.inl rfl)
  | work slot i =>
    obtain ⟨claimed,r,k,a,σ,hslot,hexec,-,rfl⟩ := work_ok happly
    obtain ⟨hclaimed,-,hp,-⟩ := h.threads slot _ hslot
    change MovesOnly _ _ σ.catalog
    cases r with
    | catalog r =>
      rcases exec_catalog hexec with ⟨b,c,hrun,-,rfl⟩ | ⟨err,-,rfl,-⟩
      · exact request_busy h.catalog hclaimed hp hrun
      · exact MovesOnly.refl _ _
    | _ =>
      rw [(exec_other hexec (by rintro _ ⟨⟩)).1]
      exact MovesOnly.refl _ _
  | recoverLeases | renewLeases =>
    cases happly
    intro d hd d' hd' hid
    obtain ⟨d₁,hd₁,rfl⟩ := mem_mapOperations.1 hd'
    cases Table.eq_of_key_eq hd₁ hd hid
    exact Or.inl rfl
  | wait n =>
    cases happly
    exact MovesOnly.refl _ _
  | restart =>
    cases happly
    exact MovesOnly.refl _ _

/-- A step moves a document along an edge of the chart, or not at all. -/
theorem step_successor (h : WorldInv s True w know) (hstep : w.step s enc e = some w')
    (hd : d ∈ w.shared.catalog.documents) : ∃ d', d' ∈ w'.shared.catalog.documents ∧ d'.id = d.id ∧
      (d'.state = d.state ∨ d'.state ∈ successors d.state ∧
        ∃ p, party e = some p ∧ mover d.state = some p) := by
  have hchange : CatalogChange s True (fun _ => True) _ _ _ :=
    step_change h (fun _ => trivial) (fun _ _ => trivial) hstep
  obtain ⟨d',hd',hc⟩ := hchange.forward h.catalog hd
  refine ⟨d',hd',hc.id,?_⟩
  unfold World.step at hstep
  obtain ⟨w₁,happly,rfl⟩ := Option.map_eq_some_iff.1 hstep
  rcases hc.successor (h.catalog.documents d hd) with hsame | hedge
  · exact Or.inl hsame
  rcases apply_moved h happly d hd d' hd' hc.id with hsame | hmoved
  · exact Or.inl hsame
  refine Or.inr ⟨hedge,?_⟩
  unfold moved at hmoved
  cases hp : party e with
  | none =>
    rw [hp] at hmoved
    exact hmoved.elim
  | some p =>
    rw [hp] at hmoved
    cases p with
    | operator => exact ⟨_,rfl,mover_idle hmoved hedge⟩
    | worker => exact ⟨_,rfl,mover_busy hmoved⟩

/-! ### Runs -/

/-- The state of a document in a world. -/
def stateIn (id : Uuid) (w : World) : Option DocumentState :=
  (w.shared.catalog.document? id).map (·.state)

/-- The move that a document makes in one step, if it moves. -/
def moveOf (id : Uuid) (w : World) (e : Event) (w' : World) :
    List (Option Party × DocumentState) :=
  match stateIn id w, stateIn id w' with
  | some a, some b => if a = b then [] else [(party e,b)]
  | _, _ => []

/-- The moves of a document in a run, each with the party of its event and the state reached. -/
def moves (s : Settings) (enc : Encoding) (id : Uuid) :
    World → List Event → List (Option Party × DocumentState)
  | _, [] => []
  | w, e :: es =>
      match w.step s enc e with
      | none => []
      | some w' => moveOf id w e w' ++ moves s enc id w' es

theorem moves_cons {es : List Event} {id : Uuid} (hstep : w.step s enc e = some w') :
    moves s enc id w (e :: es) = moveOf id w e w' ++ moves s enc id w' es := by
  rw [moves, hstep]

theorem stateIn_of_mem (hd : d ∈ w.shared.catalog.documents) :
    stateIn d.id w = some d.state := by
  unfold stateIn Catalog.document?
  rw [Table.lookup_of_mem hd]
  rfl

theorem stateIn_eq_none {id : Uuid} (h : ∀ d, d ∈ w.shared.catalog.documents → d.id ≠ id) :
    stateIn id w = none := by
  unfold stateIn Catalog.document?
  rw [Table.lookup_eq_none.2 h]
  rfl

/-- What a document does in a run: the moves that it makes there are a path of the chart, made by
the events of the run. -/
def Follows (s : Settings) (enc : Encoding) (w : World) (es : List Event) (id : Uuid)
    (a b : DocumentState) : Prop :=
  ∃ ms, Path a ms b ∧ (moves s enc id w es = ms.map fun m => (some m.1,m.2)) ∧
    (ms.map Prod.fst).Sublist (es.filterMap party)

theorem Follows.cons {es : List Event} {id : Uuid} {a b c : DocumentState}
    (hstep : w.step s enc e = some w') (ha : stateIn id w = some a) (hw' : stateIn id w' = some b)
    (hb : b = a ∨ b ∈ successors a ∧ ∃ p, party e = some p ∧ mover a = some p)
    (h : Follows s enc w' es id b c) : Follows s enc w (e :: es) id a c := by
  obtain ⟨ms,hpath,hmoves,hsub⟩ := h
  have hskip : (es.filterMap party).Sublist ((e :: es).filterMap party) :=
    (List.sublist_cons_self e es).filterMap party
  by_cases hsame : a = b
  · subst hsame
    refine ⟨ms,hpath,?_,hsub.trans hskip⟩
    simp only [moves_cons hstep, moveOf, ha, hw', if_true, List.nil_append]
    exact hmoves
  · obtain ⟨hb,p,hp,hm⟩ := hb.resolve_left (Ne.symm hsame)
    refine ⟨(p,b) :: ms,hpath.cons hm hb,?_,?_⟩
    · simp only [moves_cons hstep, moveOf, ha, hw', if_neg hsame, hp, List.map_cons]
      rw [hmoves]
      rfl
    · rw [List.filterMap_cons_some hp]
      exact hsub.cons_cons p

/-- A document that is not there does not move. -/
theorem Follows.before {es : List Event} {id : Uuid} {a b : DocumentState}
    (hstep : w.step s enc e = some w') (hnone : stateIn id w = none)
    (h : Follows s enc w' es id a b) : Follows s enc w (e :: es) id a b := by
  obtain ⟨ms,hpath,hmoves,hsub⟩ := h
  refine ⟨ms,hpath,?_,hsub.trans ((List.sublist_cons_self e es).filterMap party)⟩
  simp only [moves_cons hstep, moveOf, hnone, List.nil_append]
  exact hmoves

/-- Whether an event is a request of the operator about an existing document. -/
def byOperator (e : Event) : Bool := party e = some .operator

theorem count_filterMap_party (es : List Event) :
    (es.filterMap party).count .operator = es.countP byOperator := by
  induction es with
  | nil => rfl
  | cons e es ih =>
    rw [List.countP_cons, ← ih]
    cases hp : party e with
    | none =>
      rw [List.filterMap_cons_none hp]
      simp [byOperator, hp]
    | some p =>
      rw [List.filterMap_cons_some hp, List.count_cons]
      cases p <;> simp [byOperator, hp]

theorem run_follows {es : List Event} (h : WorldInv s True w know)
    (hrun : w.run s enc es = some w') (hd : d ∈ w.shared.catalog.documents) :
    ∃ d', d' ∈ w'.shared.catalog.documents ∧ d'.id = d.id ∧
      Follows s enc w es d.id d.state d'.state := by
  induction es generalizing w know d with
  | nil =>
    cases hrun
    exact ⟨d,hd,rfl,[],Path.nil _,rfl,List.nil_sublist _⟩
  | cons e es ih =>
    simp only [World.run, Option.bind_eq_some_iff] at hrun
    obtain ⟨w₁,hstep,hrun⟩ := hrun
    obtain ⟨d₁,hd₁,hid₁,hmove⟩ := step_successor h hstep hd
    obtain ⟨d',hd',hid,hfollows⟩ := ih (step_inv h (fun _ => trivial) hstep) hrun hd₁
    have hstate := stateIn_of_mem hd₁
    rw [hid₁] at hfollows hstate
    exact ⟨d',hd',hid.trans hid₁,hfollows.cons hstep (stateIn_of_mem hd) hstate hmove⟩

/-- A document that a run adds has been preflighted first. -/
theorem run_arrives {es : List Event} (h : WorldInv s True w know)
    (hrun : w.run s enc es = some w') (hd' : d' ∈ w'.shared.catalog.documents)
    (hnew : ∀ d, d ∈ w.shared.catalog.documents → d.id ≠ d'.id) :
    Follows s enc w es d'.id .preflighting d'.state := by
  induction es generalizing w know with
  | nil =>
    cases hrun
    exact absurd rfl (hnew d' hd')
  | cons e es ih =>
    simp only [World.run, Option.bind_eq_some_iff] at hrun
    obtain ⟨w₁,hstep,hrun⟩ := hrun
    have hinv₁ := step_inv h (fun _ => trivial) hstep
    refine Follows.before hstep (stateIn_eq_none hnew) ?_
    by_cases hthere : ∃ d₁, d₁ ∈ w₁.shared.catalog.documents ∧ d₁.id = d'.id
    · obtain ⟨d₁,hd₁,hid₁⟩ := hthere
      have hchange : CatalogChange s True (fun _ => True) _ _ _ :=
        step_change h (fun _ => trivial) (fun _ _ => trivial) hstep
      rcases hchange.backward hd₁ with ⟨d,hd,hc⟩ | ⟨y,rfl⟩
      · exact absurd (hc.id.symm.trans hid₁) (hnew d hd)
      · obtain ⟨d₂,hd₂,hid₂,hfollows⟩ := run_follows hinv₁ hrun hd₁
        cases Table.eq_of_key_eq hd₂ hd' (hid₂.trans hid₁)
        rw [hid₁] at hfollows
        exact hfollows
    · exact ih hinv₁ hrun fun d₁ hd₁ hid₁ => hthere ⟨d₁,hd₁,hid₁⟩

/-- The course of a document in a run, from a given state: the moves that it makes in the worlds
of the run are these, and a path of the chart. -/
structure Course (s : Settings) (enc : Encoding) (w : World) (es : List Event) (id : Uuid)
    (a b : DocumentState) (ms : List (Party × DocumentState)) : Prop where
  path : Path a ms b
  passed : moves s enc id w es = ms.map fun m => (some m.1,m.2)
  made : (ms.map Prod.fst).Sublist (es.filterMap party)
  bounded : ms.length ≤ 2 + 3 * es.countP byOperator

theorem Follows.course {es : List Event} {id : Uuid} {a b : DocumentState}
    (h : Follows s enc w es id a b) : ∃ ms, Course s enc w es id a b ms := by
  obtain ⟨ms,hpath,hmoves,hsub⟩ := h
  have hlength := hpath.length_le
  have hcount := hsub.count_le Party.operator
  rw [count_filterMap_party] at hcount
  exact ⟨ms,hpath,hmoves,hsub,by omega⟩

/-- The system refines the statechart. Over every run each document of the catalog stays, and the
moves that it makes there, from state to state, are a path of the chart; a new one starts its path
in `PREFLIGHTING`. The moves are made in their order by events of the party that the chart names, so
that a document moves at most twice, and three times more for each request of the operator. -/
theorem lifecycle_refines_statechart {es : List Event} (h : Reachable s enc w)
    (hrun : w.run s enc es = some w') :
    (∀ d, d ∈ w.shared.catalog.documents → ∃ d', d' ∈ w'.shared.catalog.documents ∧ d'.id = d.id ∧
      ∃ ms, Course s enc w es d.id d.state d'.state ms) ∧
    ∀ d', d' ∈ w'.shared.catalog.documents →
      (∀ d, d ∈ w.shared.catalog.documents → d.id ≠ d'.id) →
      ∃ ms, Course s enc w es d'.id .preflighting d'.state ms := by
  obtain ⟨know,hinv⟩ : ∃ know, WorldInv s True w know := h.inv fun _ _ _ _ => trivial
  constructor
  · intro d hd
    obtain ⟨d',hd',hid,hfollows⟩ := run_follows hinv hrun hd
    exact ⟨d',hd',hid,hfollows.course⟩
  · intro d' hd' hnew
    exact (run_arrives hinv hrun hd' hnew).course

/-- A preflight fails once and is taken up again. -/
def failsOnce : List Event :=
  [uploadOf "a",.claim .first] ++ List.replicate 3 (.work .first .proceed) ++
  [.work .first .databaseFault,.work .first .proceed,.retry (uuid4 0 0) sampleOperator]

theorem lifecycle_refines_statechart_failing : ∃ (w : World) (d : Document)
    (ms : List (Party × DocumentState)),
    World.initial.run booksSettings plainEncoding failsOnce = some w ∧
    d ∈ w.shared.catalog.documents ∧ d.operations.rows.length = 2 ∧
    Course booksSettings plainEncoding World.initial failsOnce d.id .preflighting d.state ms := by
  have h : (World.initial.run booksSettings plainEncoding failsOnce).any (fun w =>
      w.shared.catalog.documents.rows.any (·.operations.rows.length = 2)) = true := by
    decide +kernel
  obtain ⟨w,hrun,h⟩ := (Option.any_eq_true _ _).1 h
  obtain ⟨d,hd,htwo⟩ := List.any_eq_true.1 h
  obtain ⟨ms,hcourse⟩ := (lifecycle_refines_statechart ReachableBy.initial hrun).2 d hd
    fun e he => absurd he (Table.not_mem_empty e)
  exact ⟨w,d,ms,hrun,hd,of_decide_eq_true htwo,hcourse⟩

end Lifecycle
end PdfBridge
