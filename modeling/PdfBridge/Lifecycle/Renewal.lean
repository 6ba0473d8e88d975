import PdfBridge.Lifecycle.Contents
import PdfBridge.Lifecycle.Endings

/-! The renewal of leases by the heartbeat: while every failure is recorded, the operations that a
worker renews are those that its slots execute. -/
namespace PdfBridge
namespace Lifecycle
open Worker Api Preparation Intake

variable {s : Settings} {enc : Encoding} {now : Time} {worker : Uuid} {ref : OperationRef}
  {x : ClaimedOperation} {K : Knowledge} {c c' : Catalog} {d d' : Document} {o o' : WorkOperation}
  {w w' : World} {e : Event} {know : Slot → Knowledge} {slot slot' : Slot} {t t' : Thread}

/-! ### Operations that have ended -/

/-- A document that is written back with an operation that does not run. -/
theorem not_owns_put (hid : d.id = ref.documentId) (ho : d.operation? ref.operationId = some o)
    (hstate : o.state ≠ .running) : ¬ owns worker ref (c.put d) := by
  rintro ⟨d₁,o₁,hd₁,ho₁,hr,-⟩
  rw [Catalog.document?_put, if_pos hid] at hd₁
  obtain rfl := Option.some.inj hd₁
  rw [ho] at ho₁
  obtain rfl := Option.some.inj ho₁
  exact hstate hr

theorem not_owns_succeed {phase : OperationPhase} (hid : d.id = ref.documentId)
    (ho : o.id = ref.operationId) :
    ¬ owns worker ref (c.put (d.putOperation (succeed now phase o))) := by
  refine not_owns_put (o := succeed now phase o) hid ?_ (by rintro ⟨⟩)
  have hkey : (succeed now phase o).id = ref.operationId := by
    rw [← ho]
    unfold succeed setOperationPhase
    split <;> rfl
  rw [← hkey]
  exact Table.lookup_put_self _ _

/-- The record of a failure ends an operation that runs. -/
theorem failOperation_not_owns {err : ServiceError} {u : Unit}
    (h : failOperation now ref err c = .ok (u,c')) : ¬ owns worker ref c' := by
  simp only [failOperation] at h
  split at h
  · rename_i hnone
    cases h
    rintro ⟨d,o,hd,ho,-⟩
    rw [hd, Option.bind_some, ho] at hnone
    cases hnone
  · rename_i d o hfound
    simp only [Option.bind_eq_some_iff, Option.map_eq_some_iff, Prod.mk.injEq] at hfound
    obtain ⟨d₁,hd,o₁,ho,rfl,rfl⟩ := hfound
    split at h
    · rename_i hstate
      cases h
      rintro ⟨d₂,o₂,hd₂,ho₂,hr,-⟩
      cases hd.symm.trans hd₂
      cases ho.symm.trans ho₂
      exact hstate hr
    · simp only [pure_eq_ok, Prod.mk.injEq] at h
      obtain ⟨-,rfl⟩ := h
      have hid : d₁.id = ref.documentId := Catalog.id_of_document? hd
      refine not_owns_put (o := failedOperation now (safeFailure err).1 (safeFailure err).2.1
        (safeFailure err).2.2 o₁) (failDocument_operations.1.trans hid) ?_ (by rintro ⟨⟩)
      refine (congrArg (·.lookup ref.operationId) failDocument_operations.2).trans ?_
      rw [← Table.key_of_lookup ho]
      exact Table.lookup_put_self _ _

theorem failOperation_succeeds (err : ServiceError) :
    ∃ c', failOperation now ref err c = .ok ((),c') := by
  simp only [failOperation]
  split
  · exact ⟨_,rfl⟩
  · split <;> exact ⟨_,rfl⟩

/-- A request that ends the operation leaves it to nobody. -/
theorem closes_not_owns {r : CatalogRequest} (hclaimed : Claimed x c)
    (hp : permits s x (.catalog r) K) {a : r.Response} (hr : closes x r true)
    (h : r.run s enc now worker x.ref c = .ok (a,c')) : ¬ owns worker x.ref c' := by
  cases r with
  | failOperation err => exact failOperation_not_owns h
  | acceptRejection reason active =>
    simp only [CatalogRequest.run, acceptRejection, bind_eq_ok, Prod.exists, pure_eq_ok,
      Prod.mk.injEq] at h
    obtain ⟨d,o,howned,o₁,d',hqueue,-,rfl⟩ := h
    have ho := ownedOperation_ok howned
    have hid : d'.id = d.id := (queueRejectionCleanup_content hqueue).id
    exact not_owns_succeed (hid.trans ho.documentId) ho.operationId
  | finishPreflight prepared =>
    simp only [CatalogRequest.run, finishPreflight, bind_eq_ok, orRaise_eq_ok, require_eq_ok,
      exists_const, Prod.exists] at h
    obtain ⟨d,o,howned,r,-,-,-,h⟩ := h
    have ho := ownedOperation_ok howned
    split at h
    · simp only [bind_eq_ok, Prod.exists, pure_eq_ok, Prod.mk.injEq] at h
      obtain ⟨o₁,d',hqueue,-,rfl⟩ := h
      have hid : d'.id = d.id := (queueClearPublication_content hqueue).id
      exact not_owns_succeed (d := d'.clearFailure) (hid.trans ho.documentId) ho.operationId
    · simp only [pure_eq_ok, Prod.mk.injEq] at h
      obtain ⟨-,rfl⟩ := h
      exact not_owns_succeed (d := {d.clearFailure with state := .reviewRequired}) ho.documentId
        ho.operationId
  | finishPublication id n =>
    simp only [CatalogRequest.run, finishPublication, bind_eq_ok, orRaise_eq_ok, require_eq_ok,
      exists_const, Prod.exists] at h
    obtain ⟨d,o,howned,r,-,p,-,-,h⟩ := h
    have ho := ownedOperation_ok howned
    have hlost : ∀ verified, ¬ owns worker x.ref (c.put (({(d.putPublication
        verified).clearFailure with state := .ready, readyAt := some now} : Document).putOperation
        (succeed now .complete o))) := fun verified =>
      not_owns_succeed (d := {(d.putPublication verified).clearFailure with
        state := .ready, readyAt := some now}) ho.documentId ho.operationId
    split at h
    · simp only [pure_eq_ok, Prod.mk.injEq, true_and] at h
      subst h
      exact hlost _
    · simp only [bind_eq_ok, require_eq_ok, exists_const, pure_eq_ok, Prod.mk.injEq,
        true_and] at h
      obtain ⟨-,rfl⟩ := h
      exact hlost _
  | commitDeletion id =>
    simp only [CatalogRequest.run, commitDeletion, bind_eq_ok, orRaise_eq_ok, require_eq_ok,
      exists_const, Prod.exists, pure_eq_ok, Prod.mk.injEq] at h
    obtain ⟨d,o,howned,t,ht,p,-,-,t',hcommit,-,rfl⟩ := h
    have ho := ownedOperation_ok howned
    have hown : id = x.documentId := by
      rcases hp.2 with ⟨-,hid⟩ | ⟨htype,-⟩
      · exact hid
      · cases htype.symm.trans hr.2
    have hdelete : o.operationType = .delete ∧ x.ref.documentId = id :=
      ⟨(hclaimed.type ho).trans hr.2,hown.symm⟩
    rw [if_pos hdelete]
    have hid : t'.id = t.id := by
      rcases commitTombstone_ok hcommit with ⟨rfl,-⟩ | ⟨-,q,y,-,-,-,-,rfl⟩ <;> rfl
    exact not_owns_succeed (hid.trans ((Catalog.id_of_document? ht).trans hown)) ho.operationId
  | _ => exact hr.elim

theorem protectedArtifactBytes_not_lost {payload : ArtifactPayload} :
    protectedArtifactBytes enc payload ≠ .error .leaseLost := by
  intro h
  unfold protectedArtifactBytes at h
  cases hjson : enc.artifactJson payload with
  | none =>
    rw [hjson] at h
    cases h
  | some raw =>
    by_cases hraw : raw ≠ [] ∧ raw.length ≤ maxProtectedArtifactBytes
    · by_cases hgzip : enc.gzip raw ≠ [] ∧ (enc.gzip raw).length ≤ maxProtectedArtifactBytes
      · simp [hjson, orRaise, require, hraw, hgzip, bind, Except.bind, pure, Except.pure] at h
      · simp only [hjson, orRaise, require, if_pos hraw, if_neg hgzip, bind, Except.bind] at h
        cases h
    · simp only [hjson, orRaise, require, if_neg hraw, bind, Except.bind] at h
      cases h

theorem prepared_not_lost {r : FileRequest} : r.prepared enc ≠ .error .leaseLost := by
  intro h
  cases r with
  | writeArtifact d r kind n x =>
    rw [FileRequest.prepared] at h
    cases hbytes : protectedArtifactBytes enc ⟨d,r,kind,n,x⟩ with
    | ok bytes =>
      rw [hbytes] at h
      cases h
    | error e =>
      rw [hbytes] at h
      cases h
      exact protectedArtifactBytes_not_lost hbytes
  | _ => cases h

/-- The answers that come when the records of failures succeed. -/
theorem exec_credible {i : Input} {σ σ' : Shared} {r : Request}
    {a : Except ServiceError r.Response} (h : exec s enc ref i σ r = some (a,σ'))
    (hr : ∀ err, r = .catalog (.failOperation err) → i ≠ .databaseFault) : credible r a := by
  cases r with
  | catalog q =>
    rcases exec_catalog h with ⟨b,c,-,rfl,-⟩ | ⟨err,rfl,-,hcause⟩
    · cases q <;> trivial
    · cases q with
      | failOperation err' =>
        rcases hcause with hfault | hrun
        · exact hr err' rfl hfault
        · have hok : ∃ c', failOperation σ.now ref err' σ.catalog = .ok ((),c') :=
            failOperation_succeeds err'
          obtain ⟨c',hok⟩ := hok
          cases hok.symm.trans hrun
      | _ => trivial
  | points q =>
    cases i with
    | fault applied =>
      cases h
      rintro ⟨⟩
    | _ =>
      simp only [exec, Option.map_eq_some_iff] at h
      obtain ⟨b,-,hb⟩ := h
      cases hb
      trivial
  | files q =>
    rcases exec_files_cases h with ⟨b,-,rfl,-⟩ | ⟨err,hcause,rfl,-⟩
    · trivial
    · rintro rfl
      rcases hcause with hprepared | hans | hos
      · exact prepared_not_lost hprepared
      · cases q with
        | remove key missingOk =>
          simp only [FileRequest.answer] at hans
          split at hans <;> cases hans
        | _ => cases hans
      · cases hos
  | provider q =>
    simp only [exec, Option.map_eq_some_iff] at h
    obtain ⟨b,-,hb⟩ := h
    cases hb
    trivial
  | release y =>
    cases h
    trivial
  | raise err =>
    cases h
    rfl

/-- A tombstoned document has no operation in execution. -/
theorem tombstoned_not_owns (hinv : CatalogInv s True now c) {id : Uuid} {flags : DeletionFlags}
    (h : deletionFlags id c = .ok flags) (ht : flags.tombstoned = true)
    (hid : ref.documentId = id) : ¬ owns worker ref c := by
  simp only [deletionFlags, bind_eq_ok, orRaise_eq_ok, pure_eq_ok] at h
  obtain ⟨d,hd,p,hp,rfl⟩ := h
  rintro ⟨d₁,o,hd₁,ho,hr,-⟩
  rw [hid] at hd₁
  cases hd.symm.trans hd₁
  have dinv := hinv.documents d (Catalog.mem_of_document? hd)
  have hstate := (dinv.deletion.of_some hp).tombstoned.1 ht
  obtain ⟨-,hs⟩ := dinv.state_of_isOpen (Table.mem_of_lookup ho)
    (by simp [WorkOperation.isOpen, hr])
  have hpending : ending o = .pending := by simp [ending, hr]
  have hshape := congrArg Prod.snd hs.shape
  rw [hpending, hstate] at hshape
  have never : ∀ (t : TerminalDisposition) replaced, (expected t.toState replaced).2 ≠ .pending := by
    rintro t replaced h
    cases t <;> cases replaced <;> cases h
  exact never _ _ hshape.symm

/-! ### Requests that lose no operation -/

/-- The failure of an operation is recorded, and a lost lease is reported only to an execution that
has lost its operation. -/
def Recorded (s : Settings) (enc : Encoding) (w : World) : Event → Prop
  | .work slot i => ∀ x r k, w.slots slot = some ⟨x,.call (.catalog r) k⟩ →
      (∀ err, r = .failOperation err → i ≠ .databaseFault) ∧
      (r.run s enc w.shared.now w.shared.process.workerId x.ref w.shared.catalog =
          .error .leaseLost →
        ¬ owns w.shared.process.workerId x.ref w.shared.catalog)
  | _ => True

/-- What an answer shows is so. -/
theorem shows_not_owns {i : Input} {σ σ' : Shared} {r : Request}
    {a : Except ServiceError r.Response} (hinv : CatalogInv s True σ.now σ.catalog)
    (hclaimed : Claimed x σ.catalog) (hp : permits s x r K)
    (hlost : ∀ q, r = .catalog q → q.run s enc σ.now σ.process.workerId x.ref σ.catalog =
      .error .leaseLost → ¬ owns σ.process.workerId x.ref σ.catalog)
    (h : exec s enc x.ref i σ r = some (a,σ')) (hs : Shows x r a) :
    ¬ owns σ.process.workerId x.ref σ'.catalog := by
  cases r with
  | catalog q =>
    rcases exec_catalog h with ⟨b,c,hrun,rfl,rfl⟩ | ⟨err,rfl,rfl,hcause⟩
    · cases q with
      | deletionFlags id =>
        obtain ⟨rfl,hflags⟩ := reading_ok hrun
        exact tombstoned_not_owns hinv hflags hs.2.2 hs.2.1.symm
      | _ => exact closes_not_owns hclaimed hp hs hrun
    · have hleaseLost : err = .leaseLost := by cases q <;> exact hs
      subst hleaseLost
      refine hlost q rfl ?_
      rcases hcause with rfl | hrun
      · cases h
      · exact hrun
  | points q => cases a <;> exact hs.elim
  | files q => cases a <;> exact hs.elim
  | provider q => cases a <;> exact hs.elim
  | release y => cases a <;> exact hs.elim
  | raise err => cases a <;> exact hs.elim

/-! ### Executed operations -/

/-- No slot waits to release its claim again, an execution that can return has lost its operation,
and the operations that the worker owns are the ones that its slots execute. -/
structure RenewalInv (s : Settings) (w : World) : Prop where
  executing : ∀ slot t, w.slots slot = some t → Executing t
  endings : ∀ slot t, w.slots slot = some t → ∃ q S, t.program = guarded t.claimed q ∧
    Program.Follows (endings t.claimed) (fun y S => y = .ok () ∧ S) q S ∧
    (S → ¬ owns w.shared.process.workerId t.claimed.ref w.shared.catalog)
  executed : ∀ ref, owns w.shared.process.workerId ref w.shared.catalog →
    ∃ slot t, w.slots slot = some t ∧ t.claimed.ref = ref
  worker : w.shared.process.workerId.drawnAt ≤ w.shared.now
  drawn : ∀ worker ref, owns worker ref w.shared.catalog → worker.drawnAt < w.shared.now

theorem renewal_initial : RenewalInv s World.initial where
  executing := fun _ _ h => nomatch h
  endings := fun _ _ h => nomatch h
  executed := fun _ ⟨_,_,hd,_⟩ => nomatch hd
  worker := le_refl _
  drawn := fun _ _ ⟨_,_,hd,_⟩ => nomatch hd

theorem RenewalInv.undisturbed (h : RenewalInv s w) (e : Event) : Undisturbed w e := by
  cases e with
  | work slot i => exact fun t ht hn => absurd (h.executing slot t ht) hn
  | _ => trivial

theorem apply_worker (hinv : WorldInv s True w know) (happly : w.apply s enc e = some w')
    (he : ¬ Restarts e) : w'.shared.process.workerId = w.shared.process.workerId :=
  (@apply_owns s enc (uuid4 0 0) ⟨uuid4 0 0,uuid4 0 0⟩ w w' e know hinv happly he).1

/-- Events that neither claim nor run a request nor start the process again. -/
theorem RenewalInv.same (h : RenewalInv s w) (hslots : w'.slots = w.slots)
    (hworker : w'.shared.process.workerId = w.shared.process.workerId)
    (howns : ∀ worker ref, owns worker ref w'.shared.catalog → owns worker ref w.shared.catalog)
    (hnow : w.shared.now ≤ w'.shared.now) : RenewalInv s w' := by
  constructor
  · rw [hslots]
    exact h.executing
  · intro slot t ht
    rw [hslots] at ht
    obtain ⟨q,S,hq,hf,hS⟩ := h.endings slot t ht
    rw [hworker]
    exact ⟨q,S,hq,hf,fun hs ho => hS hs (howns _ _ ho)⟩
  · intro ref ho
    rw [hworker] at ho
    rw [hslots]
    exact h.executed ref (howns _ _ ho)
  · rw [hworker]
    exact h.worker.trans hnow
  · exact fun worker ref ho => (h.drawn worker ref (howns _ _ ho)).trans_le hnow

/-- One request of a slot. -/
theorem RenewalInv.work (h : RenewalInv s w) (hinv : WorldInv s True w know) {i : Input}
    (he : Recorded s enc w (.work slot i)) (hwork : w.work s enc slot i = some w') :
    RenewalInv s w' := by
  obtain ⟨claimed,r,k,a,σ,hslot,hexec,-,rfl⟩ := work_ok hwork
  obtain ⟨hclaimed,-,hp,-⟩ := hinv.threads slot _ hslot
  have hworker : σ.process.workerId = w.shared.process.workerId := exec_process hexec
  have howns : ∀ worker ref, owns worker ref σ.catalog → owns worker ref w.shared.catalog := by
    intro worker ref ho
    rcases (apply_owns (e := .work slot i) hinv hwork id).2 ho with ho | ⟨-,hc⟩
    · exact ho
    · exact hc.elim
  have hnow : σ.now = w.shared.now := by
    have hchange : CatalogChange s True (fun _ => True) w.shared.now w.shared.catalog σ.catalog ∧
        σ.now = w.shared.now ∧ answers s claimed r a :=
      exec_change hinv.catalog hclaimed hp (fun _ _ => trivial) hexec
    exact hchange.2.1
  obtain ⟨q,S,hq,hfollows,hS⟩ := h.endings slot _ hslot
  replace hq : Program.call r k = guarded claimed q := hq
  cases q with
  | fail err => exact nomatch hfollows.1
  | pure u =>
    cases hq
    cases hexec
    have hgone := hS hfollows.2
    have hslots : ∀ slot' t, Function.update w.slots slot none slot' = some t →
        slot' ≠ slot ∧ w.slots slot' = some t := by
      intro slot' t ht
      by_cases hne : slot' = slot
      · rw [hne, Function.update_self] at ht
        cases ht
      · rw [Function.update_of_ne hne] at ht
        exact ⟨hne,ht⟩
    refine ⟨fun slot' t ht => h.executing slot' t (hslots slot' t ht).2,
      fun slot' t ht => h.endings slot' t (hslots slot' t ht).2,fun ref ho => ?_,h.worker,h.drawn⟩
    obtain ⟨slot',t,ht,href⟩ := h.executed ref ho
    refine ⟨slot',t,?_,href⟩
    have hne : slot' ≠ slot := by
      rintro rfl
      cases hslot.symm.trans ht
      exact hgone (href ▸ ho)
    exact (Function.update_of_ne hne _ _).trans ht
  | call r' k' =>
    rw [guarded_call] at hq
    obtain ⟨rfl,hk⟩ := Program.call.inj hq
    obtain rfl := eq_of_heq hk
    have hcredible : credible r a := by
      refine exec_credible hexec ?_
      rintro err rfl
      exact (he claimed _ _ hslot).1 err rfl
    have hgone : S ∨ Shows claimed r a → ¬ owns w.shared.process.workerId claimed.ref σ.catalog := by
      rintro (hs | hs)
      · exact fun ho => hS hs (howns _ _ ho)
      · refine shows_not_owns hinv.catalog hclaimed hp ?_ hexec hs
        rintro q rfl
        exact (he claimed _ _ hslot).2
    rw [resume_guarded]
    have hslots : ∀ slot' t, Function.update w.slots slot (some ⟨claimed,guarded claimed (k' a)⟩)
        slot' = some t → (slot' = slot ∧ t = ⟨claimed,guarded claimed (k' a)⟩) ∨
          w.slots slot' = some t := by
      intro slot' t ht
      by_cases hne : slot' = slot
      · rw [hne, Function.update_self] at ht
        exact Or.inl ⟨hne,(Option.some.inj ht).symm⟩
      · rw [Function.update_of_ne hne] at ht
        exact Or.inr ht
    constructor
    · intro slot' t ht
      rcases hslots slot' t ht with ⟨-,rfl⟩ | ht
      · exact guarded_executing _ _
      · exact h.executing slot' t ht
    · intro slot' t ht
      change ∃ q S, _ ∧ _ ∧ (S → ¬ owns σ.process.workerId _ σ.catalog)
      rw [hworker]
      rcases hslots slot' t ht with ⟨-,rfl⟩ | ht
      · exact ⟨k' a,_,rfl,hfollows.2 a hcredible,hgone⟩
      · obtain ⟨q,S,hq,hf,hS⟩ := h.endings slot' t ht
        exact ⟨q,S,hq,hf,fun hs ho => hS hs (howns _ _ ho)⟩
    · intro ref ho
      change owns σ.process.workerId ref σ.catalog at ho
      rw [hworker] at ho
      obtain ⟨slot',t,ht,href⟩ := h.executed ref (howns _ _ ho)
      by_cases hne : slot' = slot
      · subst hne
        cases hslot.symm.trans ht
        exact ⟨slot',_,Function.update_self _ _ _,href⟩
      · exact ⟨slot',t,(Function.update_of_ne hne _ _).trans ht,href⟩
    · change σ.process.workerId.drawnAt ≤ σ.now
      rw [hworker, hnow]
      exact h.worker
    · intro worker ref ho
      change worker.drawnAt < σ.now
      rw [hnow]
      exact h.drawn worker ref (howns _ _ ho)

/-- A claim starts the execution of the operation that it makes the worker own. -/
theorem RenewalInv.claim (h : RenewalInv s w) (hexclusive : SlotsExclusive w)
    (hinv : WorldInv s True w know) (hclaim : w.claim s enc slot = some w') :
    RenewalInv s {w' with shared := w'.shared.tick 0} := by
  have happly : w.apply s enc (.claim slot) = some w' := hclaim
  have hworker : w'.shared.process.workerId = w.shared.process.workerId :=
    apply_worker hinv happly id
  have howns : ∀ worker ref, owns worker ref w'.shared.catalog → owns worker ref w.shared.catalog ∨
      (worker = w.shared.process.workerId ∧ Claims s w ref (.claim slot)) := fun worker ref ho =>
    (apply_owns hinv happly id).2 ho
  obtain ⟨hslot,claimed,p,c,hnext,rfl⟩ := claim_ok hclaim
  rw [slotTurn_eq, resume_guarded] at hworker howns ⊢
  have hslots : ∀ slot' t, Function.update w.slots slot
      (some ⟨claimed,guarded claimed (body s enc claimed)⟩) slot' = some t →
      (slot' = slot ∧ t = ⟨claimed,guarded claimed (body s enc claimed)⟩) ∨
        w.slots slot' = some t := by
    intro slot' t ht
    by_cases hne : slot' = slot
    · rw [hne, Function.update_self] at ht
      exact Or.inl ⟨hne,(Option.some.inj ht).symm⟩
    · rw [Function.update_of_ne hne] at ht
      exact Or.inr ht
  have hnow : w.shared.now < w.shared.now + 0 + 1 := Nat.lt_succ_self _
  have hp : p.workerId = w.shared.process.workerId := hworker
  constructor
  · intro slot' t ht
    rcases hslots slot' t ht with ⟨-,rfl⟩ | ht
    · exact guarded_executing _ _
    · exact h.executing slot' t ht
  · intro slot' t ht
    rcases hslots slot' t ht with ⟨-,rfl⟩ | ht
    · exact ⟨body s enc claimed,False,rfl,body_ends,False.elim⟩
    · obtain ⟨q,S,hq,hf,hS⟩ := h.endings slot' t ht
      refine ⟨q,S,hq,hf,fun hs ho => hS hs ?_⟩
      change owns p.workerId t.claimed.ref c at ho
      rw [hp] at ho
      rcases howns _ _ ho with ho | ⟨-,claimed',p',c',hnext',href⟩
      · exact ho
      -- the documents of an execution are busy
      · cases hnext.symm.trans hnext'
        obtain ⟨d,o,o',hd,ho,hclaimable,hx,-⟩ := claimNext_ok hinv.catalog hnext
        have hdocument : claimed.documentId = t.claimed.documentId :=
          congrArg OperationRef.documentId href
        have hbusy := (hexclusive.busy claimed.documentId).2
          ⟨slot',t,⟨ht,h.executing slot' t ht⟩,hdocument ▸ (hinv.threads slot' t ht).locked⟩
        refine absurd hbusy ((claimable_iff.1 hclaimable).2 _ (mem_lockedDocuments.2 (Or.inl ?_)))
        rw [hx]
        exact ((hinv.catalog.documents d hd).operations.valid o ho).document.symm
  · intro ref ho
    change owns p.workerId ref c at ho
    rw [hp] at ho
    rcases howns _ _ ho with ho | ⟨-,claimed',p',c',hnext',href⟩
    · obtain ⟨slot',t,ht,href⟩ := h.executed ref ho
      have hne : slot' ≠ slot := by
        rintro rfl
        cases hslot.symm.trans ht
      exact ⟨slot',t,(Function.update_of_ne hne _ _).trans ht,href⟩
    · cases hnext.symm.trans hnext'
      exact ⟨slot,_,Function.update_self _ _ _,href⟩
  · change p.workerId.drawnAt ≤ w.shared.now + 0 + 1
    rw [hp]
    exact h.worker.trans hnow.le
  · intro worker ref ho
    show worker.drawnAt < w.shared.now + 0 + 1
    rcases howns worker ref ho with ho | ⟨rfl,-⟩
    · exact (h.drawn worker ref ho).trans hnow
    · exact h.worker.trans_lt hnow

theorem RenewalInv.step (h : RenewalInv s w) (hexclusive : SlotsExclusive w)
    (hinv : WorldInv s True w know) (he : Recorded s enc w e) (hstep : w.step s enc e = some w') :
    RenewalInv s w' := by
  unfold World.step at hstep
  obtain ⟨w₁,happly,rfl⟩ := Option.map_eq_some_iff.1 hstep
  have hlater : ∀ n, w₁.shared.now ≤ (w₁.shared.tick n).now := fun n =>
    (Nat.le_add_right _ n).trans (Nat.le_succ _)
  have tick : RenewalInv s w₁ → RenewalInv s {w₁ with shared := w₁.shared.tick e.ticks} :=
    fun h => h.same rfl rfl (fun _ _ ho => ho) (hlater _)
  -- an event that runs no slot leaves the operations to their workers
  have still : (∀ ref, ¬ Claims s w ref e) → ¬ Restarts e → w₁.slots = w.slots →
      w₁.shared.now = w.shared.now → RenewalInv s w₁ := by
    intro hclaims hrestarts hslots hnow
    refine h.same hslots (apply_worker hinv happly hrestarts) (fun worker ref ho => ?_) hnow.ge
    rcases (apply_owns hinv happly hrestarts).2 ho with ho | ⟨-,hc⟩
    · exact ho
    · exact absurd hc (hclaims ref)
  cases e with
  | claim slot => exact h.claim hexclusive hinv happly
  | work slot i => exact tick (h.work hinv he happly)
  | upload y committed =>
    refine tick (still (fun _ => id) id ?_ ?_) <;> obtain ⟨m,-,rfl⟩ := upload_ok happly <;> rfl
  | decide y | retry id actor | delete id actor =>
    refine tick (still (fun _ hc => hc) (fun hc => hc) ?_ ?_) <;>
      obtain ⟨c,-,rfl⟩ := commit_ok happly <;> rfl
  | recoverLeases | renewLeases | wait n =>
    refine tick (still (fun _ hc => hc) (fun hc => hc) ?_ ?_) <;> cases happly <;> rfl
  | restart =>
    cases happly
    refine tick ⟨fun _ _ ht => (nomatch ht),fun _ _ ht => (nomatch ht),fun ref ho => ?_,le_refl _,
      h.drawn⟩
    exact absurd (h.drawn _ _ ho) (lt_irrefl _)

theorem ReachableBy.renewal (h : ReachableBy s enc (Recorded s enc) w) :
    ∃ know, WorldInv s True w know ∧ SlotsInv s w know ∧ RenewalInv s w := by
  induction h with
  | initial => exact ⟨fun _ => ∅,initial_inv _,slots_initial _,renewal_initial⟩
  | @step w w' e _ he hstep ih =>
    obtain ⟨know,hinv,hslots,h⟩ := ih
    exact ⟨_,step_inv hinv (fun _ => trivial) hstep,hslots.step hinv (h.undisturbed e) hstep,
      h.step hslots.exclusive hinv he hstep⟩

/-! ### The heartbeat -/

/-- The heartbeat would extend the lease of the operation. -/
def Renewed (s : Settings) (w : World) (o : WorkOperation) : Prop :=
  (renewLease s w.shared.now w.shared.process o).leaseExpiresAt ≠ o.leaseExpiresAt

theorem Renewed.young (h : Renewed s w o) : o.state = .running ∧
    o.workerId = some w.shared.process.workerId ∧
    ∀ at_, (o.id,at_) ∈ w.shared.process.claimTimes → w.shared.now < at_ + s.maxOperationSeconds := by
  unfold Renewed renewLease at h
  split at h
  · rename_i hr
    refine ⟨hr.1,hr.2.1,fun at_ hat => ?_⟩
    by_contra hn
    refine hr.2.2 (List.mem_map.2 ⟨_,List.mem_filter.2 ⟨hat,?_⟩,rfl⟩)
    exact decide_eq_true (not_lt.1 hn)
  · exact absurd rfl h

/-- The heartbeat renews only operations that a slot executes and that it claimed less than the
runtime cap ago. The time of a claim is kept until its execution ends, and an expired lease goes
with the next sweep. -/
structure NoZombies (s : Settings) (enc : Encoding) (w : World) : Prop where
  renewed : ∀ d, d ∈ w.shared.catalog.documents → ∀ o, o ∈ d.operations → Renewed s w o →
    ∃ slot t at_, Executes w slot t ∧ t.claimed.ref = ⟨o.id,d.id⟩ ∧
      (o.id,at_) ∈ w.shared.process.claimTimes ∧ w.shared.now < at_ + s.maxOperationSeconds
  overdue : ∀ slot t at_, Executes w slot t →
    (t.claimed.operationId,at_) ∈ w.shared.process.claimTimes →
    at_ + s.maxOperationSeconds ≤ w.shared.now → ∀ e w', w.step s enc e = some w' →
    (∀ t', ¬ Executes w' slot t') ∨
    ((∃ t', Executes w' slot t' ∧ t'.claimed = t.claimed) ∧
      (t.claimed.operationId,at_) ∈ w'.shared.process.claimTimes ∧
      ∀ o, o.id = t.claimed.operationId → ¬ Renewed s w' o)
  recovered : ∀ d, d ∈ w.shared.catalog.documents → ∀ o, o ∈ d.operations → o.state = .running →
    ∀ at_, o.leaseExpiresAt = some at_ → at_ ≤ w.shared.now →
    ∃ d' o', d' ∈ (recoverLeases w.shared.now w.shared.catalog).documents ∧ d'.id = d.id ∧
      o' ∈ d'.operations ∧ o'.id = o.id ∧ o'.state = .queued

/-- An execution goes on under the time of its claim, or it ends. -/
theorem claimTime_kept (h : SlotsInv s w know) (hinv : WorldInv s True w know)
    (hexecuting : ∀ slot t, w.slots slot = some t → Executing t) (ht : Executes w slot t)
    {at_ : Time}
    (hat : (t.claimed.operationId,at_) ∈ w.shared.process.claimTimes)
    (happly : w.apply s enc e = some w') : (∀ t', ¬ Executes w' slot t') ∨
      ((∃ t', Executes w' slot t' ∧ t'.claimed = t.claimed) ∧
        (t.claimed.operationId,at_) ∈ w'.shared.process.claimTimes) := by
  cases e with
  | claim slot₁ =>
    obtain ⟨hslot,claimed,p,c,hnext,rfl⟩ := claim_ok happly
    obtain ⟨d,o,o',-,-,-,-,-,hp,-⟩ := claimNext_ok hinv.catalog hnext
    have hne : slot ≠ slot₁ := by
      rintro rfl
      cases hslot.symm.trans ht.1
    refine Or.inr ⟨⟨t,executes_setSlot.2 (Or.inr ⟨hne,ht⟩),rfl⟩,?_⟩
    change _ ∈ p.claimTimes
    rw [hp]
    exact List.mem_cons_of_mem _ hat
  | work slot₁ i =>
    obtain ⟨claimed,r,k,a,σ,hslot,hexec,-,rfl⟩ := work_ok happly
    obtain ⟨q,hq,hholding⟩ := h.programs slot₁ _ ⟨hslot,hexecuting slot₁ _ hslot⟩
    replace hq : Program.call r k = guarded claimed q := hq
    by_cases hne : slot = slot₁
    · subst hne
      cases hslot.symm.trans ht.1
      cases q with
      | call r' k' =>
        rw [guarded_call] at hq
        obtain ⟨rfl,hk⟩ := Program.call.inj hq
        obtain rfl := eq_of_heq hk
        rw [resume_guarded]
        refine Or.inr ⟨⟨_,executes_setSlot.2 (Or.inl ⟨rfl,rfl,guarded_executing _ _⟩),rfl⟩,?_⟩
        change _ ∈ σ.process.claimTimes
        rw [exec_process_eq ?_ hexec]
        · exact hat
        · rintro y rfl
          exact hholding.not_release
      | pure u =>
        cases hq
        cases hexec
        refine Or.inl fun t' ht' => ?_
        rcases executes_setSlot.1 ht' with ⟨-,hsome,-⟩ | ⟨hn,-⟩
        · cases hsome
        · exact hn rfl
      | fail err =>
        cases hq
        cases hexec
        refine Or.inl fun t' ht' => ?_
        rcases executes_setSlot.1 ht' with ⟨-,hsome,hexecuting'⟩ | ⟨hn,-⟩
        · obtain rfl := Option.some.inj hsome
          exact hexecuting' rfl
        · exact hn rfl
    · refine Or.inr ⟨⟨t,executes_setSlot.2 (Or.inr ⟨hne,ht⟩),rfl⟩,?_⟩
      change _ ∈ σ.process.claimTimes
      by_cases hrelease : ∃ y, r = .release y
      · obtain ⟨y,rfl⟩ := hrelease
        obtain rfl : y = claimed := (hinv.threads slot₁ _ hslot).follows.1.1
        cases hexec
        have hother := h.others hinv ⟨hslot,hexecuting slot₁ _ hslot⟩ slot t hne ht
        exact List.mem_filter.2 ⟨hat,decide_eq_true hother.1⟩
      · rw [exec_process_eq (fun y hy => hrelease ⟨y,hy⟩) hexec]
        exact hat
  | upload y committed =>
    obtain ⟨m,-,rfl⟩ := upload_ok happly
    exact Or.inr ⟨⟨t,ht,rfl⟩,hat⟩
  | decide y | retry id actor | delete id actor =>
    obtain ⟨c,-,rfl⟩ := commit_ok happly
    exact Or.inr ⟨⟨t,ht,rfl⟩,hat⟩
  | recoverLeases | renewLeases | wait n =>
    cases happly
    exact Or.inr ⟨⟨t,ht,rfl⟩,hat⟩
  | restart =>
    cases happly
    exact Or.inl fun _ ht => nomatch ht.1

/-- While every failure is recorded and no lost lease is reported for an owned operation, the
heartbeat keeps no zombie alive. -/
theorem heartbeat_keeps_no_zombies (h : ReachableBy s enc (Recorded s enc) w) :
    NoZombies s enc w := by
  obtain ⟨know,hinv,hslots,hrenewal⟩ := h.renewal
  constructor
  · intro d hd o ho hrenewed
    obtain ⟨hr,hw,hyoung⟩ := hrenewed.young
    have howns : owns w.shared.process.workerId ⟨o.id,d.id⟩ w.shared.catalog :=
      ⟨d,o,Catalog.document?_of_mem hd,Table.lookup_of_mem ho,hr,hw⟩
    obtain ⟨slot,t,ht,href⟩ := hrenewal.executed _ howns
    have hexecutes : Executes w slot t := ⟨ht,hrenewal.executing slot t ht⟩
    obtain ⟨⟨id,at_⟩,hat,hid⟩ := List.mem_map.1 ((hslots.exclusive.times o.id).2
      ⟨slot,t,hexecutes,congrArg OperationRef.operationId href⟩)
    obtain rfl : id = o.id := hid
    exact ⟨slot,t,at_,hexecutes,href,hat,hyoung at_ hat⟩
  · intro slot t at_ ht hat hover e w' hstep
    unfold World.step at hstep
    obtain ⟨w₁,happly,rfl⟩ := Option.map_eq_some_iff.1 hstep
    rcases claimTime_kept hslots hinv hrenewal.executing ht hat happly with hends | ⟨hgoes,hkept⟩
    · exact Or.inl hends
    · refine Or.inr ⟨hgoes,hkept,fun o ho hrenewed => ?_⟩
      have hnow : w₁.shared.now = w.shared.now :=
        (apply_change hinv (fun _ => trivial) (fun _ _ => trivial) happly).2.1
      have hyoung := hrenewed.young.2.2 at_ (ho.symm ▸ hkept)
      have hlater : w₁.shared.now < w₁.shared.now + e.ticks + 1 :=
        Nat.lt_succ_of_le (Nat.le_add_right _ _)
      change w₁.shared.now + e.ticks + 1 < at_ + s.maxOperationSeconds at hyoung
      rw [hnow] at hyoung hlater
      exact absurd (hlater.trans hyoung) (not_lt.2 hover)
  · intro d hd o ho hr at_ hat hexpired
    refine ⟨_,_,mem_mapOperations.2 ⟨d,hd,rfl⟩,rfl,List.mem_map.2 ⟨o,ho,rfl⟩,recoverLease_id _ o,?_⟩
    unfold recoverLease
    rw [if_pos ⟨hr,by rw [hat]; exact decide_eq_true hexpired⟩]

/-! ### Runs -/

/-- Nobody works. -/
def idle (w : World) : Bool := (w.slots .first).isNone && (w.slots .second).isNone

theorem recorded_of_idle (h : idle w = true) (e : Event) : Recorded s enc w e := by
  simp only [idle, Bool.and_eq_true, Option.isNone_iff_eq_none] at h
  cases e with
  | work slot i =>
    intro x r k hslot
    cases slot with
    | first => cases h.1.symm.trans hslot
    | second => cases h.2.symm.trans hslot
  | _ => trivial

/-- The heartbeat would extend the lease of some operation. -/
def renewsSome (w : World) : Bool :=
  w.shared.catalog.documents.rows.any fun d => d.operations.rows.any fun o =>
    decide ((renewLease booksSettings w.shared.now w.shared.process o).leaseExpiresAt ≠
      o.leaseExpiresAt)

/-- The heartbeat renews the preflight of the first upload, which a slot executes. -/
theorem heartbeat_keeps_first_preflight : ∃ w d o slot t,
    NoZombies booksSettings plainEncoding w ∧ d ∈ w.shared.catalog.documents ∧
      o ∈ d.operations ∧ Renewed booksSettings w o ∧ Executes w slot t ∧
      t.claimed.ref = ⟨o.id,d.id⟩ := by
  have h : (play booksSettings plainEncoding idle [.act (uploadOf "a"),.act (.claim .first)]
      World.initial).any renewsSome = true := by
    decide +kernel
  obtain ⟨w,hw,hrenews⟩ := (Option.any_eq_true _ _).1 h
  simp only [renewsSome, List.any_eq_true, decide_eq_true_eq] at hrenews
  obtain ⟨d,hd,o,ho,hrenewed⟩ := hrenews
  have hreach : ReachableBy booksSettings plainEncoding (Recorded booksSettings plainEncoding) w :=
    ReachableBy.initial.steps (play_steps (fun _ _ _ hidle => recorded_of_idle hidle _)
      (fun e _ _ hidle => recorded_of_idle hidle e) hw)
  have hzombies := heartbeat_keeps_no_zombies hreach
  obtain ⟨slot,t,-,ht,href,-⟩ := hzombies.renewed d hd o ho hrenewed
  exact ⟨w,d,o,slot,t,hzombies,hd,ho,hrenewed,ht,href⟩

/-- The preflight and the record of its failure both fail, and the slot gives its claim back. -/
def unrecordedFailure : List Cue :=
  [.act (uploadOf "a"),.act (.claim .first),.act (.work .first .databaseFault),
    .act (.work .first .databaseFault),.act (.work .first .proceed),
    .act (.work .first .proceed)]

/-- The operation of an unrecorded failure stays in execution for the heartbeat alone. -/
theorem unrecorded_failure_renewed : ¬ ∀ w, Reachable booksSettings plainEncoding w →
    ∀ d, d ∈ w.shared.catalog.documents → ∀ o, o ∈ d.operations → Renewed booksSettings w o →
      ∃ slot t, Executes w slot t ∧ t.claimed.operationId = o.id := by
  obtain ⟨w,hw,h⟩ := play_any booksSettings plainEncoding (fun _ _ => True) unrecordedFailure
    (fun w => idle w && renewsSome w) (fun _ _ _ => trivial) (fun _ _ _ => trivial)
    (by decide +kernel)
  simp only [idle, renewsSome, Bool.and_eq_true, List.any_eq_true, decide_eq_true_eq,
    Option.isNone_iff_eq_none] at h
  obtain ⟨⟨hfirst,hsecond⟩,d,hd,o,ho,hrenewed⟩ := h
  intro hclaim
  obtain ⟨slot,t,⟨ht,-⟩,-⟩ := hclaim w hw d hd o ho hrenewed
  cases slot with
  | first => cases hfirst.symm.trans ht
  | second => cases hsecond.symm.trans ht

end Lifecycle
end PdfBridge
