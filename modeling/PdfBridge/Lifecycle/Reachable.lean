import PdfBridge.Lifecycle.Requests
import PdfBridge.Managers.System

/-! Every step of the system is a transition of the catalog, so that its invariant holds in every
reachable world. -/
namespace PdfBridge
namespace Lifecycle
open Worker Api

variable {s : Settings} {enc : Encoding} {strands : Prop} {rejects : FailureCode → Prop}
  {w w' : World} {e : Event}
  {es : List Event} {know : Slot → Knowledge}

/-- A thread runs a claimed operation and follows its protocol. -/
structure ThreadInv (s : Settings) (c : Catalog) (t : Thread) (K : Knowledge) : Prop where
  claimed : Claimed t.claimed c
  locked : t.claimed.documentId ∈ t.claimed.lockedDocumentIds
  follows : Program.Follows (protocol s t.claimed) (fun _ _ => True) t.program K

structure WorldInv (s : Settings) (strands : Prop) (w : World) (know : Slot → Knowledge) :
    Prop where
  catalog : CatalogInv s strands w.shared.now w.shared.catalog
  threads : ∀ slot t, w.slots slot = some t → ThreadInv s w.shared.catalog t (know slot)

/-- What the threads know after an event. -/
def knows (s : Settings) (enc : Encoding) (w : World) (know : Slot → Knowledge) :
    Event → Slot → Knowledge
  | .claim slot => Function.update know slot base
  | .work slot i =>
      match w.slots slot, w.workStep s enc slot i with
      | some t, some x => Function.update know slot
          (next s t.claimed x.request (know slot) x.answer)
      | _, _ => know
  | _ => know

theorem ThreadInv.change {t : Thread} {K : Knowledge} {c c' : Catalog} {now : Time}
    (h : ThreadInv s c t K) (hinv : CatalogInv s strands now c)
    (hc : CatalogChange s strands rejects now c c') : ThreadInv s c' t K :=
  {h with claimed := h.claimed.change hinv hc}

/-- The system starts empty. -/
theorem initial_inv (know : Slot → Knowledge) : WorldInv s strands World.initial know where
  catalog := CatalogInv.empty
  threads := fun _ _ h => by cases h

theorem runMutation_ok {x : Outcome Intake.MutationOutcome} {c : Catalog}
    (h : runMutation x = .ok c) : ∃ m, x = .ok m ∧ c = m.catalog := by
  simp only [runMutation, bind_eq_ok, pure_eq_ok] at h
  obtain ⟨m,hm,-,-,rfl⟩ := h
  exact ⟨m,hm,rfl⟩

theorem commit_ok {x : Outcome Catalog} (h : w.commit x = some w') :
    ∃ c, x = .ok c ∧ w' = {w with shared := {w.shared with catalog := c}} := by
  unfold World.commit at h
  split at h
  · rename_i c
    exact ⟨c,rfl,(Option.some.inj h).symm⟩
  · cases h

theorem upload_ok {x : PreparedAdmission} {committed : Bool}
    (h : w.upload s x committed = some w') :
    ∃ m, registerAdmission s w.shared.now x w.shared.catalog = .ok m ∧
      w' = {w with shared := {w.shared with
        storage := w.shared.storage.write (sourceFile w.shared.now x)
        catalog := if committed then m.catalog else w.shared.catalog}} := by
  unfold World.upload at h
  split at h
  · cases h
  · rename_i c hc
    obtain ⟨m,hm,rfl⟩ := runMutation_ok hc
    exact ⟨m,hm,(Option.some.inj h).symm⟩

theorem claim_ok {slot : Slot} (h : w.claim s enc slot = some w') :
    w.slots slot = none ∧ ∃ claimed p c,
      claimNext s w.shared.now w.shared.process w.shared.catalog = .ok (some claimed,p,c) ∧
      w' = ({w with shared := {w.shared with catalog := c, process := p}}).setSlot slot
        (World.resume claimed (slotTurn s enc claimed)) := by
  unfold World.claim at h
  split at h
  · cases h
  · rename_i hslot
    split at h
    · rename_i claimed p c hclaim
      exact ⟨hslot,claimed,p,c,hclaim,(Option.some.inj h).symm⟩
    · cases h

theorem work_ok {slot : Slot} {i : Input} (h : w.work s enc slot i = some w') :
    ∃ claimed r k a σ, w.slots slot = some ⟨claimed,.call r k⟩ ∧
      exec s enc claimed.ref i w.shared r = some (a,σ) ∧
      w.workStep s enc slot i = some ⟨r,a,w'⟩ ∧
      w' = ({w with shared := σ}).setSlot slot (World.resume claimed (k a)) := by
  unfold World.work World.workStep at h
  unfold World.workStep
  split at h
  · rename_i claimed r k hslot
    rw [hslot]
    simp only [Option.map_map, Option.map_eq_some_iff] at h
    obtain ⟨⟨a,σ⟩,hexec,rfl⟩ := h
    exact ⟨claimed,r,k,a,σ,rfl,hexec,by simp [hexec],rfl⟩
  · cases h

/-- A program that has not returned stays in its slot. -/
theorem resume_eq_some {claimed : ClaimedOperation} {p : Prog Unit} {t : Thread}
    (h : World.resume claimed p = some t) : t = ⟨claimed,p⟩ := by
  unfold World.resume at h
  split at h
  · exact (Option.some.inj h).symm
  · cases h

/-! ### Single requests -/

theorem exec_catalog {ref : OperationRef} {i : Input} {σ σ' : Shared} {r : CatalogRequest}
    {a : Except ServiceError r.Response}
    (h : exec s enc ref i σ (.catalog r) = some (a,σ')) :
    (∃ b c, r.run s enc σ.now σ.process.workerId ref σ.catalog = .ok (b,c) ∧ a = .ok b ∧
      σ' = {σ with catalog := c}) ∨
    (∃ e, a = .error e ∧ σ' = σ ∧ (i = .databaseFault ∨
      r.run s enc σ.now σ.process.workerId ref σ.catalog = .error e)) := by
  cases i with
  | proceed =>
    cases hrun : r.run s enc σ.now σ.process.workerId ref σ.catalog with
    | ok y =>
      simp only [exec, hrun] at h
      cases h
      exact Or.inl ⟨y.1,y.2,rfl,rfl,rfl⟩
    | error e =>
      simp only [exec, hrun] at h
      cases h
      exact Or.inr ⟨e,rfl,rfl,Or.inr rfl⟩
  | databaseFault =>
    cases h
    exact Or.inr ⟨_,rfl,rfl,Or.inl rfl⟩
  | _ => cases h

/-- A Qdrant call is answered after its effect, or fails with or without it. -/
theorem exec_points {ref : OperationRef} {i : Input} {σ σ' : Shared} {r : PointRequest}
    {a : Except ServiceError r.Response}
    (h : exec s enc ref i σ (.points r) = some (a,σ')) :
    (∃ b, r.answer σ.qdrant i = some b ∧ a = .ok b ∧
      σ' = {σ with qdrant := r.effect σ.qdrant}) ∨
    (∃ e, a = .error e ∧ (σ' = σ ∨ σ' = {σ with qdrant := r.effect σ.qdrant})) := by
  cases i with
  | fault applied =>
    cases h
    refine Or.inr ⟨_,rfl,?_⟩
    cases applied with
    | false => exact Or.inl rfl
    | true => exact Or.inr rfl
  | _ =>
    simp only [exec, Option.map_eq_some_iff] at h
    obtain ⟨b,hb,hr⟩ := h
    cases hr
    exact Or.inl ⟨b,hb,rfl,rfl⟩

/-- How a file operation ends: it answers, or it fails before the storage root or there. -/
theorem exec_files_cases {ref : OperationRef} {i : Input} {σ σ' : Shared} {r : FileRequest}
    {a : Except ServiceError r.Response}
    (h : exec s enc ref i σ (.files r) = some (a,σ')) :
    (∃ b, r.answer σ.now σ.storage = .ok b ∧ a = .ok b ∧
      σ' = {σ with storage := r.effect σ.now σ.storage}) ∨
    (∃ e, (r.prepared enc = .error e ∨ r.answer σ.now σ.storage = .error e ∨ e = .os) ∧
      a = .error e ∧ (σ' = σ ∨ σ' = {σ with storage := r.effect σ.now σ.storage})) := by
  cases hprepared : r.prepared enc with
  | error e =>
    cases i <;> simp only [exec, hprepared, reduceCtorEq] at h <;> cases h <;>
      exact Or.inr ⟨_,Or.inl rfl,rfl,Or.inl rfl⟩
  | ok _ =>
    cases i with
    | proceed =>
      cases hans : r.answer σ.now σ.storage with
      | ok b =>
        simp only [exec, hprepared, hans] at h
        cases h
        exact Or.inl ⟨b,rfl,rfl,rfl⟩
      | error e =>
        simp only [exec, hprepared, hans] at h
        cases h
        exact Or.inr ⟨e,Or.inr (Or.inl rfl),rfl,Or.inl rfl⟩
    | fault applied =>
      simp only [exec, hprepared] at h
      cases h
      refine Or.inr ⟨_,Or.inr (Or.inr rfl),rfl,?_⟩
      cases applied with
      | false => exact Or.inl rfl
      | true => exact Or.inr rfl
    | _ => simp [exec, hprepared] at h

theorem exec_files {ref : OperationRef} {i : Input} {σ σ' : Shared} {r : FileRequest}
    {a : Except ServiceError r.Response}
    (h : exec s enc ref i σ (.files r) = some (a,σ')) :
    (∃ b, r.answer σ.now σ.storage = .ok b ∧ a = .ok b ∧
      σ' = {σ with storage := r.effect σ.now σ.storage}) ∨
    (∃ e, a = .error e ∧ (σ' = σ ∨ σ' = {σ with storage := r.effect σ.now σ.storage})) :=
  (exec_files_cases h).imp_right fun ⟨e,_,ha,hσ⟩ => ⟨e,ha,hσ⟩

/-- Calls outside the catalog leave it alone. -/
theorem exec_other {ref : OperationRef} {i : Input} {σ σ' : Shared} {r : Request}
    {a : Except ServiceError r.Response} (h : exec s enc ref i σ r = some (a,σ'))
    (hr : ∀ q, r ≠ .catalog q) : σ'.catalog = σ.catalog ∧ σ'.now = σ.now := by
  cases r with
  | catalog q => exact absurd rfl (hr q)
  | points q =>
    rcases exec_points h with ⟨b,-,-,rfl⟩ | ⟨e,-,rfl | rfl⟩ <;> exact ⟨rfl,rfl⟩
  | files q =>
    rcases exec_files h with ⟨b,-,-,rfl⟩ | ⟨e,-,rfl | rfl⟩ <;> exact ⟨rfl,rfl⟩
  | provider q =>
    simp only [exec, Option.map_eq_some_iff] at h
    obtain ⟨b,-,hb⟩ := h
    cases hb
    exact ⟨rfl,rfl⟩
  | release claimed =>
    cases h
    exact ⟨rfl,rfl⟩
  | raise e =>
    cases h
    exact ⟨rfl,rfl⟩

theorem answers_error {x : ClaimedOperation} {r : Request} {e : ServiceError}
    (hr : ∀ y, r ≠ .release y) : answers s x r (.error e) := by
  cases r with
  | catalog r => cases r <;> trivial
  | points r => cases r <;> trivial
  | files r => cases r <;> trivial
  | release y => exact absurd rfl (hr y)
  | _ => trivial

/-- The request has ended a preflight in a terminal rejection for this reason. -/
def Rejection : (r : Request) → Except ServiceError r.Response → FailureCode → Prop
  | .catalog (.acceptRejection code _), .ok _, reason => reason = code
  | _, _, _ => False

/-- What an executed request does to the catalog and how it is answered. -/
theorem exec_change {x : ClaimedOperation} {K : Knowledge} {i : Input} {σ σ' : Shared}
    {r : Request} {a : Except ServiceError r.Response}
    (hinv : CatalogInv s strands σ.now σ.catalog) (hclaimed : Claimed x σ.catalog)
    (hp : permits s x r K)
    (hrejects : ∀ code, Rejection r a code → rejects code)
    (h : exec s enc x.ref i σ r = some (a,σ')) :
    CatalogChange s strands rejects σ.now σ.catalog σ'.catalog ∧ σ'.now = σ.now ∧
      answers s x r a := by
  have other : (∀ q, r ≠ .catalog q) →
      CatalogChange s strands rejects σ.now σ.catalog σ'.catalog ∧ σ'.now = σ.now := by
    intro hr
    obtain ⟨hc,hnow⟩ := exec_other h hr
    rw [hc]
    exact ⟨CatalogChange.same,hnow⟩
  cases r with
  | catalog r =>
    rcases exec_catalog h with ⟨b,c,hrun,rfl,rfl⟩ | ⟨e,rfl,rfl,-⟩
    · refine ⟨request_change hinv hclaimed hp ?_ hrun,rfl,request_answers hinv hclaimed hrun⟩
      rintro code active rfl
      exact hrejects code rfl
    · exact ⟨CatalogChange.same,rfl,answers_error fun _ hc => by cases hc⟩
  | points r =>
    obtain ⟨hc,hnow⟩ := other fun _ hc => by cases hc
    refine ⟨hc,hnow,?_⟩
    cases r <;> trivial
  | files r =>
    obtain ⟨hc,hnow⟩ := other fun _ hc => by cases hc
    refine ⟨hc,hnow,?_⟩
    rcases exec_files h with ⟨b,hb,rfl,-⟩ | ⟨e,rfl,-⟩
    · cases r with
      | writeArtifact => cases hb; rfl
      | _ => trivial
    · exact answers_error fun _ hc => by cases hc
  | provider r =>
    obtain ⟨hc,hnow⟩ := other fun _ hc => by cases hc
    exact ⟨hc,hnow,trivial⟩
  | release y =>
    cases h
    exact ⟨CatalogChange.same,rfl,trivial⟩
  | raise e =>
    obtain ⟨hc,hnow⟩ := other fun _ hc => by cases hc
    exact ⟨hc,hnow,trivial⟩

/-! ### Steps and runs -/

/-- The event deletes an incoming document that has not finished to replace another. -/
def StrandsReplaced (w : World) : Event → Prop
  | .delete id _ => Stranding w.shared.catalog id
  | _ => False

/-- The event ends a preflight in a terminal rejection for this reason. -/
def RejectsPreflight (s : Settings) (enc : Encoding) (w : World) : Event → FailureCode → Prop
  | .work slot i, code =>
      ∃ x, w.workStep s enc slot i = some x ∧ Rejection x.request x.answer code
  | _, _ => False

theorem WorldInv.threads_change {w₁ : World} {now : Time} (h : WorldInv s strands w know)
    (hnow : w.shared.now = now) (hc : CatalogChange s strands rejects now w.shared.catalog
      w₁.shared.catalog) (hslots : w₁.slots = w.slots) :
    ∀ slot t, w₁.slots slot = some t → ThreadInv s w₁.shared.catalog t (know slot) := by
  subst hnow
  intro slot t ht
  rw [hslots] at ht
  exact (h.threads slot t ht).change h.catalog hc

/-- What one event does before the clock moves on. -/
theorem apply_change (h : WorldInv s strands w know) (hs : StrandsReplaced w e → strands)
    (hrejects : ∀ code, RejectsPreflight s enc w e code → rejects code)
    (happly : w.apply s enc e = some w') :
    CatalogChange s strands rejects w.shared.now w.shared.catalog w'.shared.catalog ∧
      w'.shared.now = w.shared.now ∧
      ∀ slot t, w'.slots slot = some t →
        ThreadInv s w'.shared.catalog t (knows s enc w know e slot) := by
  have mutation : ∀ {x : Outcome Catalog}, w.commit x = some w' →
      (∀ c, x = .ok c → CatalogChange s strands rejects w.shared.now w.shared.catalog c) →
      CatalogChange s strands rejects w.shared.now w.shared.catalog w'.shared.catalog ∧
        w'.shared.now = w.shared.now ∧
        ∀ slot t, w'.slots slot = some t → ThreadInv s w'.shared.catalog t (know slot) := by
    intro x hx hchange
    obtain ⟨c,hc,rfl⟩ := commit_ok hx
    exact ⟨hchange c hc,rfl,h.threads_change rfl (hchange c hc) rfl⟩
  cases e with
  | upload x committed =>
    obtain ⟨m,hm,rfl⟩ := upload_ok happly
    have hchange : CatalogChange s strands rejects w.shared.now w.shared.catalog
        (if committed then m.catalog else w.shared.catalog) := by
      split
      · exact registerAdmission_change hm
      · exact CatalogChange.same
    exact ⟨hchange,rfl,h.threads_change rfl hchange rfl⟩
  | decide x =>
    refine mutation happly fun c hc => ?_
    obtain ⟨m,hm,rfl⟩ := runMutation_ok hc
    exact recordDecision_change h.catalog hm
  | retry id actor =>
    refine mutation happly fun c hc => ?_
    obtain ⟨m,hm,rfl⟩ := runMutation_ok hc
    exact requestRetry_change h.catalog hm
  | delete id actor =>
    refine mutation happly fun c hc => ?_
    obtain ⟨m,hm,rfl⟩ := runMutation_ok hc
    exact deleteDocument_change h.catalog hm hs
  | claim slot =>
    obtain ⟨hslot,claimed,p,c,hclaim,rfl⟩ := claim_ok happly
    have hchange : CatalogChange s strands rejects w.shared.now w.shared.catalog c :=
      claimNext_change h.catalog hclaim
    refine ⟨hchange,rfl,fun slot' t ht => ?_⟩
    simp only [World.setSlot, Function.update_apply] at ht
    simp only [knows, Function.update_apply]
    split
    · rename_i he
      rw [if_pos he] at ht
      obtain rfl := resume_eq_some ht
      obtain ⟨d,o,o',hd,ho,-,hx,ho',-,rfl⟩ := claimNext_ok h.catalog hclaim
      have hlocked : claimed.documentId ∈ claimed.lockedDocumentIds := by
        rw [hx]
        exact mem_lockedDocuments.2 (Or.inl
          ((h.catalog.documents d hd).operations.valid o ho).document.symm)
      refine ⟨⟨d.putOperation o',o',mem_put.2 (Or.inl rfl),by rw [hx]; rfl,by rw [hx]; rfl,
        Table.mem_put_self _ _,by rw [hx, ho'],by rw [hx, ho'],by rw [hx, ho']; rfl⟩,hlocked,
        slotTurn_follows hlocked⟩
    · rename_i he
      rw [if_neg he] at ht
      exact (h.threads slot' t ht).change h.catalog hchange
  | work slot i =>
    obtain ⟨claimed,r,k,a,σ,hslot,hexec,hwork,rfl⟩ := work_ok happly
    obtain ⟨hclaimed,hlocked,hp,hk⟩ := h.threads slot _ hslot
    obtain ⟨hchange,hnow,hans⟩ := exec_change h.catalog hclaimed hp
      (fun code hcode => hrejects code ⟨_,hwork,hcode⟩) hexec
    refine ⟨hchange,hnow,fun slot' t ht => ?_⟩
    simp only [World.setSlot, Function.update_apply] at ht
    simp only [knows, hslot, hwork, Function.update_apply]
    split
    · rename_i he
      rw [if_pos he] at ht
      obtain rfl := resume_eq_some ht
      exact ⟨hclaimed.change h.catalog hchange,hlocked,hk a hans⟩
    · rename_i he
      rw [if_neg he] at ht
      exact (h.threads slot' t ht).change h.catalog hchange
  | recoverLeases =>
    cases happly
    have hchange : CatalogChange s strands rejects w.shared.now w.shared.catalog _ :=
      recoverLeases_change w.shared.now w.shared.catalog
    exact ⟨hchange,rfl,h.threads_change rfl hchange rfl⟩
  | renewLeases =>
    cases happly
    have hchange : CatalogChange s strands rejects w.shared.now w.shared.catalog _ :=
      renewLeases_change w.shared.now w.shared.process w.shared.catalog
    exact ⟨hchange,rfl,h.threads_change rfl hchange rfl⟩
  | wait n =>
    cases happly
    exact ⟨CatalogChange.same,rfl,h.threads⟩
  | restart =>
    cases happly
    exact ⟨CatalogChange.same,rfl,fun slot t ht => by cases ht⟩

/-- Every step keeps the invariant. -/
theorem step_inv (h : WorldInv s strands w know) (hs : StrandsReplaced w e → strands)
    (hstep : w.step s enc e = some w') : WorldInv s strands w' (knows s enc w know e) := by
  unfold World.step at hstep
  obtain ⟨w₁,happly,rfl⟩ := Option.map_eq_some_iff.1 hstep
  have hrejects : ∀ code, RejectsPreflight s enc w e code → True := fun _ _ => trivial
  obtain ⟨hchange,hnow,hthreads⟩ := apply_change h hs hrejects happly
  refine ⟨(hchange.inv h.catalog).mono ?_,hthreads⟩
  show w.shared.now + 1 ≤ w₁.shared.now + e.ticks + 1
  rw [hnow]
  exact Nat.succ_le_succ (Nat.le_add_right _ _)

/-- Every step is a transition of the catalog. -/
theorem step_change (h : WorldInv s strands w know) (hs : StrandsReplaced w e → strands)
    (hrejects : ∀ code, RejectsPreflight s enc w e code → rejects code)
    (hstep : w.step s enc e = some w') :
    CatalogChange s strands rejects w.shared.now w.shared.catalog w'.shared.catalog := by
  unfold World.step at hstep
  obtain ⟨w₁,happly,rfl⟩ := Option.map_eq_some_iff.1 hstep
  exact (apply_change h hs hrejects happly).1

theorem step_now (h : WorldInv s True w know) (hstep : w.step s enc e = some w') :
    w.shared.now < w'.shared.now := by
  unfold World.step at hstep
  obtain ⟨w₁,happly,rfl⟩ := Option.map_eq_some_iff.1 hstep
  have hsame : w₁.shared.now = w.shared.now := (apply_change h (fun _ => trivial)
    (fun (_ : FailureCode) _ => trivial) happly).2.1
  show w.shared.now < w₁.shared.now + e.ticks + 1
  rw [hsame]
  exact Nat.lt_succ_of_le (Nat.le_add_right _ _)

/-- The worlds that the system reaches by steps which all meet a condition. -/
inductive ReachableBy (s : Settings) (enc : Encoding) (P : World → Event → Prop) : World → Prop
  | initial : ReachableBy s enc P World.initial
  | step {w w' : World} {e : Event} (h : ReachableBy s enc P w) (he : P w e)
      (hstep : w.step s enc e = some w') : ReachableBy s enc P w'

/-- The worlds that the system reaches at all. -/
abbrev Reachable (s : Settings) (enc : Encoding) (w : World) : Prop :=
  ReachableBy s enc (fun _ _ => True) w

variable {P Q : World → Event → Prop}

theorem run_append (es es' : List Event) (w : World) :
    w.run s enc (es ++ es') = (w.run s enc es).bind fun w' => w'.run s enc es' := by
  induction es generalizing w with
  | nil => rfl
  | cons e es ih =>
    simp only [List.cons_append, World.run]
    cases w.step s enc e with
    | none => rfl
    | some w₁ => exact ih w₁

theorem ReachableBy.run {es : List Event} (h : Reachable s enc w)
    (hrun : w.run s enc es = some w') : Reachable s enc w' := by
  induction es generalizing w with
  | nil =>
    cases hrun
    exact h
  | cons e es ih =>
    simp only [World.run, Option.bind_eq_some_iff] at hrun
    obtain ⟨w₁,hstep,hrun⟩ := hrun
    exact ih (h.step trivial hstep) hrun

/-- A run is a list of steps from the initial world. -/
theorem reachable_iff_run : Reachable s enc w ↔ ∃ es, World.initial.run s enc es = some w := by
  constructor
  · intro h
    induction h with
    | initial => exact ⟨[],rfl⟩
    | @step w w' e _ _ hstep ih =>
      obtain ⟨es,hes⟩ := ih
      refine ⟨es ++ [e],?_⟩
      rw [run_append, hes, Option.bind_some, World.run, hstep]
      rfl
  · rintro ⟨es,hes⟩
    exact ReachableBy.initial.run hes

/-- Every reachable world satisfies the invariant; without a stranding delete, so does its
stronger form. -/
theorem ReachableBy.inv (h : ReachableBy s enc P w)
    (hP : ∀ w e, P w e → StrandsReplaced w e → strands) : ∃ know, WorldInv s strands w know := by
  induction h with
  | initial => exact ⟨fun _ => ∅,initial_inv _⟩
  | step _ he hstep ih =>
    obtain ⟨know,hinv⟩ := ih
    exact ⟨_,step_inv hinv (hP _ _ he) hstep⟩

theorem ReachableBy.catalog (h : ReachableBy s enc P w) :
    CatalogInv s True w.shared.now w.shared.catalog := by
  obtain ⟨know,hinv⟩ : ∃ know, WorldInv s True w know := h.inv fun _ _ _ _ => trivial
  exact hinv.catalog

/-! ### Documents along a run -/

/-- A property of documents holds everywhere when admission establishes it and every transition
that the steps can make keeps it. -/
theorem ReachableBy.documents {I : Document → Prop} (h : ReachableBy s enc P w)
    (rejects : FailureCode → Prop)
    (hP : ∀ w e code, P w e → RejectsPreflight s enc w e code → rejects code)
    (hnew : ∀ now x, I (admitted now x))
    (hI : ∀ now d d', DocumentInv s now d → I d → Change s rejects now d d' → I d') :
    ∀ d, d ∈ w.shared.catalog.documents → I d := by
  induction h with
  | initial => exact fun d hd => absurd hd (Table.not_mem_empty d)
  | @step w w' e h he hstep ih =>
    obtain ⟨know,hinv⟩ : ∃ know, WorldInv s True w know := h.inv fun _ _ _ _ => trivial
    have hchange := step_change hinv (fun _ => trivial) (fun code => hP w e code he) hstep
    intro d' hd'
    rcases hchange.backward hd' with ⟨d,hd,hc⟩ | ⟨x,rfl⟩
    · exact hI _ d d' (hinv.catalog.documents d hd) (ih d hd) hc
    · exact hnew _ x

/-- The worlds that steps which all meet a condition reach from a given one. -/
abbrev Steps (s : Settings) (enc : Encoding) (P : World → Event → Prop) : World → World → Prop :=
  Relation.ReflTransGen fun w w' => ∃ e, P w e ∧ w.step s enc e = some w'

theorem Steps.mono (hrun : Steps s enc P w w') (h : ∀ w e, P w e → Q w e) :
    Steps s enc Q w w' := by
  induction hrun with
  | refl => exact Relation.ReflTransGen.refl
  | tail _ hstep ih =>
    obtain ⟨e,he,hstep⟩ := hstep
    exact ih.tail ⟨e,h _ e he,hstep⟩

theorem ReachableBy.steps (h : ReachableBy s enc P w) (hrun : Steps s enc P w w') :
    ReachableBy s enc P w' := by
  induction hrun with
  | refl => exact h
  | tail _ hstep ih =>
    obtain ⟨e,he,hstep⟩ := hstep
    exact ih.step he hstep

/-- Every document stays in the catalog, with what its transitions keep. -/
theorem Steps.document {I : Document → Prop} {d : Document} (hrun : Steps s enc Q w w')
    (hw : Reachable s enc w) (hd : d ∈ w.shared.catalog.documents) (hId : I d)
    (hI : ∀ w e, Q w e → ∀ d d', d ∈ w.shared.catalog.documents →
      DocumentInv s w.shared.now d → I d → Change s (fun _ => True) w.shared.now d d' → I d') :
    Reachable s enc w' ∧ ∃ d', d' ∈ w'.shared.catalog.documents ∧ d'.id = d.id ∧ I d' := by
  induction hrun with
  | refl => exact ⟨hw,d,hd,rfl,hId⟩
  | @tail w₁ w₂ _ hstep ih =>
    obtain ⟨hw₁,d₁,hd₁,hid,hId₁⟩ := ih
    obtain ⟨e,he,hstep⟩ := hstep
    obtain ⟨know,hinv⟩ : ∃ know, WorldInv s True w₁ know := hw₁.inv fun _ _ _ _ => trivial
    have hchange : CatalogChange s True (fun _ => True) _ _ _ :=
      step_change hinv (fun _ => trivial) (fun _ _ => trivial) hstep
    obtain ⟨d₂,hd₂,hc⟩ := hchange.forward hinv.catalog hd₁
    exact ⟨hw₁.step trivial hstep,d₂,hd₂,hc.id.trans hid,
      hI w₁ e he d₁ d₂ hd₁ (hinv.catalog.documents d₁ hd₁) hId₁ hc⟩

end Lifecycle
end PdfBridge
