import PdfBridge.Managers.Idempotency
import PdfBridge.Lifecycle.Mutations
import PdfBridge.Lifecycle.Scenario
import PdfBridge.Services.SealedManifest

/-! At most one committed effect for each idempotency key, over every sequence of requests and
every statement at which one of them fails. -/
namespace PdfBridge
namespace Idempotency
open Intake Api Program

variable {s : Settings} {canonical : Canonical} {env : Environment} {v w : Service}
  {r : Request s} {σ τ : Session} {α β : Type} {row : IdempotencyRow} {body : ResponseBody}
  {m : Mutation}

/-! ### What a request may do -/

def visibleKey (canonical : Canonical) (key : String) : Bool :=
  8 ≤ key.length && key.length ≤ 128 && key.toList.all canonical.visible

/-- Every committed row has a valid key and complete replay material. -/
def RecordsInv (canonical : Canonical) (v : Service) : Prop :=
  ∀ row, row ∈ v.rows.records → visibleKey canonical row.key = true ∧
    row.responseStatus = some 202 ∧
    ∃ b, row.responseBody = some b ∧ b.idempotentReplay = false

/-- The identity that a transaction reserves its key for. -/
structure Identity where
  key : String
  action : String
  actorId : Text 255
  material : RequestMaterial

/-- The row of a key was reserved for this very identity. -/
structure Matches (canonical : Canonical) (row : IdempotencyRow) (x : Identity) : Prop where
  action : row.action = x.action
  actorId : row.actorId = x.actorId
  requestSha256 : row.requestSha256 = canonical.requestSha256 x.action x.material

def conflict : Raised :=
  .error (.lifecycle "idempotency_conflict"
    "The idempotency key was already used for a different request." 409)

/-- No statement of the request raises. -/
def Environment.Unfailing (env : Environment) : Prop := ∀ n, env.fault n = none

variable {x : Identity}

/-- Nothing durable has changed, and without a fault a bound key is refused as a conflict. -/
def Refused (canonical : Canonical) (env : Environment) (v : Service) (x : Identity)
    (e : Raised) (σ : Session) : Prop :=
  σ.service = v ∧ (env.Unfailing → ∀ row, v.rows.records.lookup x.key = some row →
    ¬ Matches canonical row x ∧ e = conflict)

/-- The session sees what is durable. -/
def Clean (v : Service) (σ : Session) : Prop := σ.service = v ∧ σ.rows = v.rows

/-- The stored response of the identical request is there. -/
def Replays (canonical : Canonical) (v : Service) (x : Identity) (stored : IdempotencyReplay) :
    Prop :=
  stored.status = 202 ∧ stored.body.idempotentReplay = false ∧
    ∃ row, v.rows.records.lookup x.key = some row ∧
      Matches canonical row x ∧
      row.responseBody = some stored.body

/-- A row that was reserved for a free key. -/
structure Reserved (canonical : Canonical) (v : Service) (x : Identity) (row : IdempotencyRow) :
    Prop where
  free : v.rows.records.lookup x.key = none
  visible : visibleKey canonical x.key = true
  key : row.key = x.key
  matches_ : Matches canonical row x
  completedAt : row.completedAt = none

/-- The row of a request that completed with a response. -/
structure Completed (canonical : Canonical) (v : Service) (x : Identity) (row : IdempotencyRow)
    (body : ResponseBody) : Prop where
  free : v.rows.records.lookup x.key = none
  visible : visibleKey canonical x.key = true
  key : row.key = x.key
  matches_ : Matches canonical row x
  responseStatus : row.responseStatus = some 202
  responseBody : row.responseBody = some body

theorem Refused.of_fault {e : Raised} {n : ℕ} {f : Fault} (hn : env.fault n = some f)
    (h : σ.service = v) : Refused canonical env v x e σ := by
  refine ⟨h,fun hf => ?_⟩
  rw [hf n] at hn
  cases hn

theorem Refused.of_free {e : Raised} (hfree : v.rows.records.lookup x.key = none)
    (h : σ.service = v) : Refused canonical env v x e σ := by
  refine ⟨h,fun _ row hrow => ?_⟩
  rw [hfree] at hrow
  cases hrow

theorem Refused.service {e : Raised} (h : Refused canonical env v x e σ) : σ.service = v := h.1

theorem Refused.frame {e : Raised} (h : Refused canonical env v x e σ)
    (hs : τ.service = σ.service) : Refused canonical env v x e τ := ⟨hs.trans h.1,h.2⟩

/-! ### Statements -/

/-- A statement that may raise before it takes effect. -/
theorem triple_call {q : Statement} {P : Session → Prop} {V : q.Response → Session → Prop}
    {E : Raised → Session → Prop}
    (hfault : ∀ σ n f, P σ → env.fault n = some f → E f.raised {σ.next with rows := f.rows})
    (hperform : ∀ σ, P σ → EndsIn V E (σ.next.perform s env.now q)) :
    Triple (Session.execute s env) P (call q) V E := by
  refine Triple.request fun σ hσ => ?_
  simp only [Session.execute]
  split
  · rename_i f hf
    split at hf
    · cases hf
    · exact hfault σ _ f hσ hf
  · exact hperform σ hσ

/-- Compensation always takes effect. -/
theorem triple_compensate {q : Statement} {P : Session → Prop}
    {V : q.Response → Session → Prop} {E : Raised → Session → Prop}
    (hq : q.compensates = true)
    (hperform : ∀ σ, P σ → EndsIn V E (σ.next.perform s env.now q)) :
    Triple (Session.execute s env) P (call q) V E := by
  refine Triple.request fun σ hσ => ?_
  simp only [Session.execute, hq, if_true]
  exact hperform σ hσ

/-! ### Reservation and completion -/

/-- What a reservation found, and the rows that its session sees. -/
def Reservation (canonical : Canonical) (v : Service) (x : Identity) :
    IdempotencyRow ⊕ IdempotencyReplay → Session → Prop
  | .inl row, σ => Reserved canonical v x row ∧ σ.service = v ∧
      σ.rows = ⟨v.rows.catalog,v.rows.records.put row⟩
  | .inr stored, σ => Replays canonical v x stored ∧ Clean v σ

/-- A stored row answers the identical request, and no other. -/
theorem triple_replayOf (hv : RecordsInv canonical v)
    (hrow : v.rows.records.lookup x.key = some row) :
    Triple (Session.execute s env) (Clean v)
      (replayOf row x.action x.actorId (canonical.requestSha256 x.action x.material))
      (fun stored σ => Replays canonical v x stored ∧ Clean v σ)
      (Refused canonical env v x) := by
  obtain ⟨-,hstatus,b,hbody,hfresh⟩ := hv row (Table.mem_of_lookup hrow)
  unfold replayOf
  split
  · rename_i hne
    refine Triple.fail fun σ hσ => ⟨hσ.1,fun _ row' hrow' => ⟨fun hm => ?_,rfl⟩⟩
    rw [hrow] at hrow'
    cases hrow'
    exact hne.elim (fun h => h hm.action) fun h =>
      h.elim (fun h => h hm.actorId) fun h => h hm.requestSha256
  · rename_i hne
    push Not at hne
    rw [hstatus, hbody]
    exact Triple.pure fun σ hσ =>
      ⟨⟨rfl,hfresh,row,hrow,⟨hne.1,hne.2.1,hne.2.2⟩,hbody⟩,hσ⟩

/-- A free key gets a row, the key of the identical request its stored response. -/
theorem triple_reserveIdempotency (hv : RecordsInv canonical v)
    (hx : 1 ≤ x.action.length ∧ x.action.length ≤ 64) :
    Triple (Session.execute s env) (Clean v)
      (reserveIdempotency canonical x.key x.action x.actorId x.material)
      (Reservation canonical v x) (Refused canonical env v x) := by
  unfold reserveIdempotency
  simp only [bind_eq]
  refine Triple.bind (V := fun _ σ => visibleKey canonical x.key = true ∧ Clean v σ)
    (Triple.require (fun hc σ hσ => ⟨hc,hσ⟩) fun hc σ hσ => ⟨hσ.1,fun _ row hrow => ?_⟩)
    fun _ => ?_
  · have hvisible := (hv row (Table.mem_of_lookup hrow)).1
    rw [Table.key_of_lookup hrow] at hvisible
    exact absurd (hvisible.symm.trans hc) (by decide)
  refine Triple.bind (V := fun _ σ => visibleKey canonical x.key = true ∧ Clean v σ)
    (Triple.require (fun _ σ hσ => hσ) fun hc => ?_) fun _ => ?_
  · rw [Bool.and_eq_false_iff, decide_eq_false_iff_not, decide_eq_false_iff_not] at hc
    omega
  refine Triple.bind (V := fun y σ => y = v.rows.records.lookup x.key ∧
      visibleKey canonical x.key = true ∧ Clean v σ)
    (triple_call (fun σ n f hσ hf => Refused.of_fault hf hσ.2.1) fun σ hσ => ?_)
    fun existing => ?_
  · refine ⟨?_,hσ.1,hσ.2⟩
    exact congrArg (fun t : Rows => t.records.lookup x.key) hσ.2.2
  cases existing with
  | some row =>
    intro σ hσ
    exact Triple.bind (triple_replayOf hv hσ.1.symm) (fun stored => Triple.pure fun τ hτ => hτ)
      σ hσ.2.2
  | none =>
    refine Triple.bind (V := fun _ σ => v.rows.records.lookup x.key = none ∧
        visibleKey canonical x.key = true ∧ Clean v σ)
      (triple_call (fun σ n f hσ hf => Refused.of_fault hf hσ.2.2.1) fun σ hσ =>
        ⟨hσ.1.symm,hσ.2⟩) fun now => ?_
    refine Triple.bind (V := fun _ σ => Reservation canonical v x (.inl ⟨x.key,x.action,
        canonical.requestSha256 x.action x.material,x.actorId,none,none,none,none,now,none⟩) σ)
      (triple_call (fun σ n f hσ hf => Refused.of_fault hf hσ.2.2.1) fun σ hσ => ?_)
      fun _ => Triple.pure fun σ hσ => hσ
    obtain ⟨hfree,hvisible,hservice,hrows⟩ := hσ
    simp only [Session.perform]
    have hlookup : σ.next.rows.records.lookup x.key = none :=
      (congrArg (fun t : Rows => t.records.lookup x.key) hrows).trans hfree
    rw [if_neg (by rw [hlookup]; decide)]
    refine ⟨⟨hfree,hvisible,rfl,⟨rfl,rfl,rfl⟩,rfl⟩,hservice,?_⟩
    simp only [Session.next, hrows]

/-- A lost race reads the key again. -/
theorem triple_reserveOnce (hv : RecordsInv canonical v)
    (hx : 1 ≤ x.action.length ∧ x.action.length ≤ 64) :
    Triple (Session.execute s env) (Clean v)
      (reserveOnce canonical x.key x.action x.actorId x.material)
      (Reservation canonical v x) (Refused canonical env v x) := by
  refine Triple.tryCatch (triple_reserveIdempotency hv hx) fun e => ?_
  cases e with
  | error e => exact Triple.fail fun σ hσ => hσ
  | integrityError =>
    refine Triple.bind (V := fun _ => Clean v) ?_ fun _ => triple_reserveIdempotency hv hx
    exact triple_compensate rfl fun σ hσ => ⟨hσ.1,congrArg Service.rows hσ.1⟩

theorem Reserved.refused {e : Raised} (h : Reserved canonical v x row) (hs : σ.service = v) :
    Refused canonical env v x e σ := Refused.of_free h.free hs

/-- What a transaction has done by the time its response is stored: its row is complete, and the
catalog and the storage are those of its mutation. -/
structure Stored (canonical : Canonical) (v w : Service) (x : Identity) (catalog : Catalog)
    (body : ResponseBody) (σ : Session) : Prop where
  service : σ.service = w
  catalog : σ.rows.catalog = catalog
  record : ∃ row, Completed canonical v x row body ∧
    σ.rows.records = v.rows.records.put row

/-- The row of a fresh reservation is completed in place. `w` is the durable state by then. -/
theorem triple_completeIdempotency {catalog : Catalog} {E : Raised → Session → Prop}
    {resourceId : Uuid} (hrow : Reserved canonical v x row)
    (hE : ∀ e σ, σ.service = w → E e σ) :
    Triple (Session.execute s env)
      (fun σ => σ.service = w ∧ σ.rows = ⟨catalog,v.rows.records.put row⟩)
      (completeIdempotency row 202 body "document" resourceId)
      (fun _ => Stored canonical v w x catalog body) E := by
  unfold completeIdempotency
  simp only [bind_eq]
  refine Triple.bind (V := fun _ (σ : Session) => σ.service = w ∧
      σ.rows = ⟨catalog,v.rows.records.put row⟩)
    (Triple.require (fun _ σ hσ => hσ) fun hc => absurd hc (by decide +kernel)) fun _ => ?_
  simp only [hrow.completedAt, Option.isSome_none, Bool.false_eq_true, if_false]
  refine Triple.bind (V := fun _ (σ : Session) => σ.service = w ∧
      σ.rows = ⟨catalog,v.rows.records.put row⟩)
    (triple_call (fun σ n f hσ _ => hE _ _ hσ.1) fun σ hσ => hσ) fun now => ?_
  refine triple_call (fun σ n f hσ _ => hE _ _ hσ.1) fun σ hσ => ?_
  refine ⟨hσ.1,congrArg Rows.catalog hσ.2,{row with
      responseStatus := some 202, responseBody := some body, resourceType := some "document",
      resourceId := some resourceId, completedAt := some now},
    ⟨hrow.free,hrow.visible,hrow.key,⟨hrow.matches_.action,hrow.matches_.actorId,
      hrow.matches_.requestSha256⟩,rfl,rfl⟩,?_⟩
  simp only [Session.next, hσ.2]
  exact Table.put_put rfl

theorem triple_service {y : Outcome α} {P : Session → Prop} {E : Raised → Session → Prop}
    (hE : ∀ e σ, P σ → E e σ) :
    Triple (Session.execute s env) P (service y) (fun a σ => y = .ok a ∧ P σ) E := by
  cases y with
  | ok a => exact Triple.pure fun σ hσ => ⟨rfl,hσ⟩
  | error e => exact Triple.fail fun σ hσ => hE _ σ hσ

/-- A failed transaction rolls back what its session has flushed. -/
theorem triple_rollbackAndRaise {V : α → Session → Prop} (e : Raised) :
    Triple (Session.execute s env) (Refused canonical env v x e) (rollbackAndRaise e) V
      (Refused canonical env v x) := by
  refine Triple.bind (V := fun _ => Refused canonical env v x e) ?_
    fun _ => Triple.fail fun σ hσ => hσ
  exact triple_compensate rfl fun σ hσ => hσ.frame rfl

/-! ### Mutations -/

/-- The identity that a request reserves its key for. -/
def Request.identity (r : Request s) : Identity := ⟨r.key,r.action,r.actorId,r.material⟩

/-- The canonical objects after an accepted request. -/
def Request.storage (now : Time) (storage : Storage) (r : Request s) : Storage :=
  match r.body with
  | .upload x _ => storage.write (sourceFile now x)
  | .mutation _ => storage

theorem Request.storage_upload {now : Time} {storage : Storage} {r : Request s}
    {x : PreparedAdmission} {prepared : Prepared s x} (h : r.body = .upload x prepared) :
    r.storage now storage = storage.write (sourceFile now x) := by
  rw [Request.storage, h]

theorem Request.storage_mutation {now : Time} {storage : Storage} {r : Request s} {m : Mutation}
    (h : r.body = .mutation m) : r.storage now storage = storage := by
  rw [Request.storage, h]

/-- The committed effect of a request: its mutation, its row and its object. -/
structure Commits (canonical : Canonical) (now : Time) (v w : Service) (r : Request s)
    (body : ResponseBody) : Prop where
  outcome : ∃ m, r.outcome now v.rows.catalog = .ok m ∧ responseBody m = .ok body ∧
    w.rows.catalog = m.catalog
  record : ∃ row, Completed canonical v r.identity row body ∧
    w.rows.records = v.rows.records.put row
  storage : w.storage = r.storage now v.storage

/-- An answer is the response of the committed effect or a stored response. -/
def Answered (canonical : Canonical) (now : Time) (v w : Service) (r : Request s)
    (body : ResponseBody) : Prop :=
  Commits canonical now v w r body ∨
    ∃ stored, Replays canonical v r.identity stored ∧
      body = {stored.body with idempotentReplay := true} ∧ w = v

/-- A stored response is answered and the session is rolled back. -/
theorem triple_replay {stored : IdempotencyReplay} (kind : String) :
    Triple (Session.execute s env)
      (fun σ => Replays canonical v x stored ∧ Clean v σ)
      ((replay kind stored).bind fun response => (call .rollback).bind fun _ => .pure response)
      (fun body σ => Replays canonical v x stored ∧
        body = {stored.body with idempotentReplay := true} ∧ σ.service = v)
      (Refused canonical env v x) := by
  intro σ hσ
  obtain ⟨hstored,hclean⟩ := hσ
  have hreplay : replay kind stored = .pure {stored.body with idempotentReplay := true} := by
    simp only [replay, hstored.1, decide_true, Program.require, if_true, bind_eq, pure_bind,
      pure_eq]
  rw [hreplay, pure_bind]
  have hroll : Triple (Session.execute s env) (Clean v) (call .rollback) (fun _ => Clean v)
      (Refused canonical env v x) :=
    triple_compensate rfl fun σ hσ => ⟨hσ.1,congrArg Service.rows hσ.1⟩
  exact Triple.bind hroll (fun _ => Triple.pure fun τ hτ => ⟨hstored,rfl,hτ.1⟩) σ hclean

/-- The mutation of a reserved request, up to its commit. -/
theorem triple_mutate {m : Mutation} (hrow : Reserved canonical v x row) :
    Triple (Session.execute s env)
      (fun σ => σ.service = v ∧ σ.rows = ⟨v.rows.catalog,v.rows.records.put row⟩)
      (call (.mutate m))
      (fun outcome σ => m.run s env.now v.rows.catalog = .ok outcome ∧ σ.service = v ∧
        σ.rows = ⟨outcome.catalog,v.rows.records.put row⟩) (Refused canonical env v x) := by
  refine triple_call (fun σ n f hσ _ => hrow.refused hσ.1) fun σ hσ => ?_
  have hcatalog : σ.rows.catalog = v.rows.catalog := by rw [hσ.2]
  simp only [Session.perform, Session.next, hcatalog]
  cases hm : m.run s env.now v.rows.catalog with
  | error e => exact hrow.refused hσ.1
  | ok outcome => exact ⟨rfl,hσ.1,by rw [hσ.2]⟩

/-- `_run_mutation` commits its mutation once, answers what is stored, or changes nothing. -/
theorem triple_runMutation (hv : RecordsInv canonical v) (hr : r.body = .mutation m) :
    Triple (Session.execute s env) (Clean v) (runMutation canonical r.key m)
      (fun body σ => Answered canonical env.now v σ.service r body)
      (Refused canonical env v r.identity) := by
  have hidentity : r.identity = ⟨r.key,mutationAction m,mutationActor m,mutationMaterial m⟩ := by
    simp only [Request.identity, Request.action, Request.actorId, Request.material, hr]
  have haction : 1 ≤ (mutationAction m).length ∧ (mutationAction m).length ≤ 64 := by
    cases m <;> refine ⟨?_,?_⟩ <;> simp only [mutationAction] <;> decide +kernel
  unfold runMutation
  simp only [bind_eq]
  refine Triple.bind (V := fun _ => Clean v)
    (triple_call (fun σ n f hσ hf => Refused.of_fault hf hσ.1) fun σ hσ => hσ) fun _ => ?_
  refine Triple.tryCatch (F := Refused canonical env v r.identity) ?_ triple_rollbackAndRaise
  rw [hidentity]
  refine Triple.bind (triple_reserveOnce
    (x := ⟨r.key,mutationAction m,mutationActor m,mutationMaterial m⟩) hv haction) fun y => ?_
  rw [← hidentity]
  cases y with
  | inr stored =>
    exact (triple_replay "mutation").post (fun body τ hτ => Or.inr ⟨stored,hτ⟩)
      fun e τ hτ => hτ
  | inl row =>
    intro σ hσ
    obtain ⟨hrow,hσ⟩ := hσ
    refine Triple.bind (triple_mutate hrow) (fun outcome => ?_) σ hσ
    refine Triple.bind (triple_service fun e τ hτ => hrow.refused hτ.2.1) fun body τ hτ => ?_
    obtain ⟨hbody,houtcome,hτ⟩ := hτ
    refine Triple.bind (triple_completeIdempotency hrow fun e ρ hρ => hrow.refused hρ)
      (fun _ => ?_) τ hτ
    refine Triple.bind (V := fun _ ρ => Answered canonical env.now v ρ.service r body)
      (triple_call (fun ρ n f hρ _ => hrow.refused hρ.service) fun ρ hρ => ?_)
      fun _ => Triple.pure fun ρ hρ => hρ
    refine Or.inl ⟨⟨outcome,?_,hbody,hρ.catalog⟩,hρ.record,?_⟩
    · simp only [Request.outcome, hr]
      exact houtcome
    · simp only [Request.storage, hr]
      exact congrArg Service.storage hρ.service

/-! ### Uploads -/

section Uploads
variable {y : PreparedAdmission} {hy : Prepared s y}

/-- The durable state while the bytes of an upload are promoted. -/
def promoted (now : Time) (v : Service) (y : PreparedAdmission) : Service :=
  {v with storage := v.storage.write (sourceFile now y)}

/-- Removing a new object restores the storage. -/
theorem remove_write {t : Storage} {f : StoredFile} (h : t.isFile f.key = false) :
    (t.write f).remove f.key = t := by
  have hfree : ∀ g, g ∈ t.files → g.key ≠ f.key := by
    intro g hg he
    have hfound : (t.files.lookup f.key).isSome = true := by
      rw [← he, Table.lookup_of_mem hg]
      rfl
    exact Bool.noConfusion (h.symm.trans hfound)
  have hrows : ((t.write f).remove f.key).files.rows = t.files.rows := by
    simp only [Storage.remove, Storage.write, Table.keep, Table.rows_put_of_not_mem hfree]
    rw [List.filter_cons_of_neg (by simp)]
    exact List.filter_eq_self.2 fun g hg => by simpa using hfree g hg
  exact congrArg Storage.mk (Table.ext_rows hrows)

/-- The admission that an upload has registered and not yet committed. -/
def Admitted (canonical : Canonical) (now : Time) (v : Service) (r : Request s)
    (y : PreparedAdmission) : AdmissionOutcome ⊕ IdempotencyReplay → Session → Prop
  | .inl o, σ => o.documentId = uuid4 now 0 ∧
      v.storage.isFile (.object (uuid4 now 0)) = false ∧
      ∃ m, r.outcome now v.rows.catalog = .ok m ∧ responseBody m = .ok o.responseBody ∧
        Stored canonical v (promoted now v y) r.identity m.catalog o.responseBody σ
  | .inr stored, σ => Replays canonical v r.identity stored ∧ Clean v σ

/-- Taking the promoted bytes back leaves nothing durable. -/
theorem triple_unlinkObject {e : Raised} (hfree : v.rows.records.lookup x.key = none)
    (hobject : v.storage.isFile (.object (uuid4 env.now 0)) = false) :
    Triple (Session.execute s env) (fun σ => σ.service = promoted env.now v y)
      ((call (.unlinkObject (uuid4 env.now 0))).bind fun _ => (.fail e : Tx α))
      (fun _ _ => False) (Refused canonical env v x) := by
  refine Triple.bind (V := fun _ (σ : Session) => σ.service = v) ?_
    fun _ => Triple.fail fun σ hσ => Refused.of_free hfree hσ
  refine triple_compensate rfl fun σ hσ => ?_
  have hrestored : ({σ.service with
      storage := σ.service.storage.remove (.object (uuid4 env.now 0))} : Service) = v := by
    rw [hσ]
    exact congrArg (Service.mk v.rows) (remove_write hobject)
  exact hrestored

/-- The two statements that admit a document are the mutation of an upload. -/
theorem outcome_upload {d : Document} {o : WorkOperation} {now : Time} {c : Catalog}
    (hr : r.body = .upload y hy) (hdup : findExactDuplicate c y.collectionKey y.sha256 = none)
    (h : Intake.enqueueOperation now (admittedDocument now y) .preflight .normal none none
      .queued = .ok (o,d)) :
    r.outcome now c = .ok ⟨d,o,(c.put (admittedDocument now y)).put d⟩ := by
  obtain ⟨-,-,-,-,hd⟩ := Lifecycle.enqueueOperation_ok h
  have hput : (c.put (admittedDocument now y)).put d = c.put d := by
    subst hd
    exact congrArg Catalog.mk (Table.put_put rfl)
  rw [hput]
  simp only [Request.outcome, hr, Api.registerAdmission, bind_eq_ok, require_eq_ok,
    exists_const, Prod.exists, pure_eq_ok]
  exact ⟨hy.collection,hy.sizeBytes,hdup,o,d,h,rfl⟩

/-- The rows of an admission, or its bytes are taken back. -/
theorem triple_registerDocument (hr : r.body = .upload y hy)
    (hrow : Reserved canonical v r.identity row)
    (hdup : findExactDuplicate v.rows.catalog y.collectionKey y.sha256 = none)
    (hobject : v.storage.isFile (.object (uuid4 env.now 0)) = false) :
    Triple (Session.execute s env)
      (fun σ => σ.service = promoted env.now v y ∧
        σ.rows = ⟨v.rows.catalog,v.rows.records.put row⟩)
      (registerDocument row (admittedDocument env.now y))
      (fun o => Admitted canonical env.now v r y (.inl o)) (Refused canonical env v r.identity) := by
  unfold registerDocument
  simp only [bind_eq]
  refine Triple.tryCatch (F := fun _ σ => σ.service = promoted env.now v y) ?_
    fun e => (triple_unlinkObject hrow.free hobject).post (fun _ _ h => h.elim) fun _ _ h => h
  refine Triple.bind (V := fun _ (σ : Session) => σ.service = promoted env.now v y ∧
      σ.rows = ⟨v.rows.catalog.put (admittedDocument env.now y),v.rows.records.put row⟩)
    (triple_call (fun σ n f hσ _ => hσ.1) fun σ hσ => ?_) fun _ => ?_
  · refine EndsIn.ite (fun _ => hσ.1) fun _ => ⟨hσ.1,?_⟩
    simp only [Session.next, hσ.2]
  refine Triple.bind (V := fun m (σ : Session) => r.outcome env.now v.rows.catalog = .ok m ∧
      σ.service = promoted env.now v y ∧ σ.rows = ⟨m.catalog,v.rows.records.put row⟩)
    (triple_call (fun σ n f hσ _ => hσ.1) fun σ hσ => ?_) fun m => ?_
  · simp only [Session.perform, Session.next]
    cases hd : Intake.enqueueOperation env.now (admittedDocument env.now y) .preflight .normal
      none none .queued with
    | error e => exact hσ.1
    | ok z =>
      refine ⟨?_,hσ.1,by rw [hσ.2]⟩
      rw [hσ.2]
      exact outcome_upload hr hdup hd
  refine Triple.bind (triple_service fun e σ hσ => hσ.2.1) fun body σ hσ => ?_
  obtain ⟨hbody,houtcome,hσ⟩ := hσ
  refine Triple.bind (triple_completeIdempotency hrow fun e τ hτ => hτ) (fun _ => ?_) σ hσ
  refine Triple.bind (V := fun _ => Stored canonical v (promoted env.now v y) r.identity
      m.catalog body) (triple_call (fun τ n f hτ _ => hτ.service) fun τ hτ =>
        ⟨hτ.service,hτ.catalog,hτ.record⟩)
    fun _ => Triple.pure fun τ hτ => ⟨rfl,hobject,m,houtcome,hbody,hτ⟩

/-- A promotion that raises has left no object. -/
theorem triple_promote (hrow : Reserved canonical v x row) :
    Triple (Session.execute s env)
      (fun σ => σ.service = v ∧ σ.rows = ⟨v.rows.catalog,v.rows.records.put row⟩)
      ((call (.promoteStagedFile (uuid4 env.now 0) y.sha256)).tryCatch fun e =>
        (call .unlinkStaged).bind fun _ => .fail e)
      (fun _ σ => v.storage.isFile (.object (uuid4 env.now 0)) = false ∧
        σ.service = promoted env.now v y ∧
        σ.rows = ⟨v.rows.catalog,v.rows.records.put row⟩)
      (Refused canonical env v x) := by
  refine Triple.tryCatch (F := fun _ σ => σ.service = v)
    (triple_call (fun σ n f hσ _ => hσ.1) fun σ hσ => ?_) fun e => ?_
  · obtain ⟨rfl,hrows⟩ := hσ
    exact EndsIn.ite (fun _ => rfl) fun hobject => ⟨Bool.eq_false_iff.2 hobject,rfl,hrows⟩
  · refine Triple.bind (V := fun _ (σ : Session) => σ.service = v)
      (triple_compensate rfl fun σ hσ => hσ)
      fun _ => Triple.fail fun σ hσ => hrow.refused hσ

theorem triple_registerAdmission (hv : RecordsInv canonical v) (hr : r.body = .upload y hy) :
    Triple (Session.execute s env) (Clean v) (registerAdmission canonical r.key y)
      (Admitted canonical env.now v r y) (Refused canonical env v r.identity) := by
  have hidentity : r.identity = ⟨r.key,"upload_document",y.actorId,uploadMaterial y⟩ := by
    simp only [Request.identity, Request.action, Request.actorId, Request.material, hr]
  have haction : 1 ≤ "upload_document".length ∧ "upload_document".length ≤ 64 := by
    decide +kernel
  unfold registerAdmission
  simp only [bind_eq]
  rw [hidentity]
  refine Triple.bind (triple_reserveIdempotency
    (x := ⟨r.key,"upload_document",y.actorId,uploadMaterial y⟩) hv haction) fun z => ?_
  rw [← hidentity]
  cases z with
  | inr stored =>
    refine Triple.bind (V := fun _ σ => Replays canonical v r.identity stored ∧ Clean v σ)
      (triple_compensate rfl fun σ hσ => hσ) fun _ => Triple.pure fun σ hσ => hσ
  | inl row =>
    intro σ hσ
    obtain ⟨hrow,hσ⟩ := hσ
    refine Triple.bind
      (P := fun τ => τ.service = v ∧ τ.rows = ⟨v.rows.catalog,v.rows.records.put row⟩)
      (V := fun d (τ : Session) =>
        d = findExactDuplicate v.rows.catalog y.collectionKey y.sha256 ∧
        τ.service = v ∧ τ.rows = ⟨v.rows.catalog,v.rows.records.put row⟩)
      (triple_call (fun τ n f hτ _ => hrow.refused hτ.1) fun τ hτ => ?_)
      (fun duplicate => ?_) σ hσ
    · refine ⟨?_,hτ⟩
      simp only [Session.next, hτ.2]
    cases duplicate with
    | some d =>
      refine Triple.bind (V := fun _ (τ : Session) => τ.service = v)
        (triple_compensate rfl fun τ hτ => hτ.2.1)
        fun _ => Triple.fail fun τ hτ => hrow.refused hτ
    | none =>
      intro τ hτ
      obtain ⟨hdup,hτ⟩ := hτ
      have hclock : Triple (Session.execute s env)
          (fun τ => τ.service = v ∧ τ.rows = ⟨v.rows.catalog,v.rows.records.put row⟩)
          (call .utcNow)
          (fun (now : Time) τ => now = env.now ∧ τ.service = v ∧
            τ.rows = ⟨v.rows.catalog,v.rows.records.put row⟩)
          (Refused canonical env v r.identity) :=
        triple_call (fun τ n f hτ _ => hrow.refused hτ.1) fun τ hτ => ⟨rfl,hτ⟩
      refine Triple.bind hclock (fun now ρ hρ => ?_) τ hτ
      obtain ⟨rfl,hρ⟩ := hρ
      refine Triple.bind (triple_promote hrow) (fun _ ξ hξ => ?_) ρ hρ
      exact Triple.bind (triple_registerDocument hr hrow hdup.symm hξ.1)
        (fun o => Triple.pure fun ζ hζ => hζ) ξ hξ.2

theorem triple_unlinkStaged {P : Session → Prop}
    (hP : ∀ σ τ : Session, P σ → τ.service = σ.service → P τ) :
    Triple (Session.execute s env) P (call .unlinkStaged) (fun _ => P) fun _ _ => False :=
  triple_compensate rfl fun σ hσ => hP σ {σ.next with staged := false} hσ rfl

/-- A second admission starts from a clean session. -/
theorem triple_admitOnce (hv : RecordsInv canonical v) (hr : r.body = .upload y hy) :
    Triple (Session.execute s env) (Clean v) (admitOnce canonical r.key y)
      (Admitted canonical env.now v r y) (Refused canonical env v r.identity) := by
  refine Triple.tryCatch (triple_registerAdmission hv hr) fun e => ?_
  cases e with
  | error e => exact Triple.fail fun σ hσ => hσ
  | integrityError =>
    have hroll : Triple (Session.execute s env)
        (Refused canonical env v r.identity .integrityError) (call .rollback)
        (fun _ σ => Clean v σ ∧ Refused canonical env v r.identity .integrityError σ)
        (Refused canonical env v r.identity) :=
      triple_compensate rfl fun σ hσ =>
        ⟨⟨hσ.service,congrArg Service.rows hσ.service⟩,hσ.frame rfl⟩
    have hstaged : Triple (Session.execute s env)
        (fun σ => Clean v σ ∧ Refused canonical env v r.identity .integrityError σ)
        (call .stagedIsFile)
        (fun (_ : Bool) σ => Clean v σ ∧ Refused canonical env v r.identity .integrityError σ)
        (Refused canonical env v r.identity) :=
      triple_compensate rfl fun σ hσ => ⟨hσ.1,hσ.2.frame rfl⟩
    refine Triple.bind hroll fun _ => Triple.bind hstaged fun staged => ?_
    cases staged with
    | true => exact (triple_registerAdmission hv hr).pre fun σ hσ => hσ.1
    | false => exact Triple.fail fun σ hσ => hσ.2

/-- An admission commits, or its bytes are taken back. -/
theorem triple_commitAdmission (o : AdmissionOutcome) (hr : r.body = .upload y hy) :
    Triple (Session.execute s env) (Admitted canonical env.now v r y (.inl o))
      (commitAdmission o)
      (fun body σ => Answered canonical env.now v σ.service r body)
      (Refused canonical env v r.identity) := by
  intro σ hσ
  obtain ⟨id,body⟩ := o
  obtain ⟨rfl,hobject,m,houtcome,hbody,hstored⟩ := hσ
  obtain ⟨row,hrow,-⟩ := hstored.record
  refine Triple.tryCatch
    (P := Stored canonical v (promoted env.now v y) r.identity m.catalog body)
    (F := fun _ τ => τ.service = promoted env.now v y) ?_ (fun e => ?_) σ hstored
  · refine Triple.bind (V := fun _ τ => Answered canonical env.now v τ.service r body)
      (triple_call (fun τ n f hτ _ => hτ.service) fun τ hτ => ?_)
      fun _ => Triple.pure fun τ hτ => hτ
    refine Or.inl ⟨⟨m,houtcome,hbody,hτ.catalog⟩,hτ.record,?_⟩
    simp only [Request.storage, hr]
    exact congrArg Service.storage hτ.service
  · have hroll : Triple (Session.execute s env)
        (fun τ => τ.service = promoted env.now v y) (call .rollback)
        (fun _ τ => τ.service = promoted env.now v y) (Refused canonical env v r.identity) :=
      triple_compensate rfl fun τ hτ => hτ
    exact Triple.bind hroll fun _ => (triple_unlinkObject hrow.free hobject).post
      (fun _ _ h => h.elim) fun _ _ h => h

/-- `upload_document` admits its bytes once, answers what is stored, or changes nothing. -/
theorem triple_uploadDocument (hv : RecordsInv canonical v) (hr : r.body = .upload y hy) :
    Triple (Session.execute s env) (Clean v) (uploadDocument canonical r.key y)
      (fun body σ => Answered canonical env.now v σ.service r body)
      (Refused canonical env v r.identity) := by
  unfold uploadDocument
  simp only [bind_eq]
  refine Triple.bind (V := fun _ => Clean v)
    (triple_call (fun σ n f hσ hf => Refused.of_fault hf hσ.1) fun σ hσ => hσ) fun _ => ?_
  refine Triple.finally_ (V := fun body σ => Answered canonical env.now v σ.service r body)
    (E := Refused canonical env v r.identity) ?_
    (fun body => triple_unlinkStaged fun σ τ hσ hs => hs ▸ hσ)
    fun e => triple_unlinkStaged fun σ τ hσ hs => hσ.frame hs
  refine Triple.bind (Triple.tryCatch (triple_admitOnce hv hr) triple_rollbackAndRaise)
    fun z => ?_
  cases z with
  | inl o => exact triple_commitAdmission o hr
  | inr stored =>
    refine Triple.tryCatch (F := Refused canonical env v r.identity) ?_ triple_rollbackAndRaise
    exact (triple_replay "upload").post (fun body σ hσ => Or.inr ⟨stored,hσ⟩) fun e σ hσ => hσ

end Uploads

/-! ### Requests -/

/-- How a request ends: its effect is committed once, a stored response is answered, or nothing
durable has changed. -/
def Serves (canonical : Canonical) (env : Environment) (v : Service) (r : Request s) :
    Except Raised ResponseBody × Service → Prop
  | (.ok body,w) => Answered canonical env.now v w r body
  | (.error e,w) => w = v ∧ (env.Unfailing → ∀ row,
      v.rows.records.lookup r.key = some row → ¬ Matches canonical row r.identity ∧ e = conflict)

theorem serve_ends (hv : RecordsInv canonical v) :
    Serves canonical env v r (v.serve canonical env r) := by
  have hend : EndsIn (fun body (σ : Session) => Answered canonical env.now v σ.service r body)
      (Refused canonical env v r.identity)
      ((r.transaction canonical).run (Session.execute s env) ⟨v,v.rows,r.isUpload,0⟩) := by
    unfold Request.transaction
    split
    · rename_i y hy hr
      exact triple_uploadDocument hv hr _ ⟨rfl,rfl⟩
    · rename_i m hr
      exact triple_runMutation hv hr _ ⟨rfl,rfl⟩
  unfold Service.serve
  generalize (r.transaction canonical).run (Session.execute s env) _ = z at hend ⊢
  obtain ⟨e | body,σ⟩ := z
  · exact hend
  · exact hend

/-! ### Sequences of requests -/

/-- One request that was served. -/
structure Served (s : Settings) where
  before : Service
  environment : Environment
  request : Request s
  answer : Except Raised ResponseBody
  after : Service

/-- The response of the request that took effect, which no replay carries. -/
def Served.Committed (e : Served s) (body : ResponseBody) : Prop :=
  e.answer = .ok body ∧ body.idempotentReplay = false

/-- Requests in the order of the transition lock, from a service without idempotency records.
Between two of them anybody else may change the documents and the objects. -/
inductive History (s : Settings) (canonical : Canonical) : List (Served s) → Service → Prop where
  | start {v : Service} (h : v.rows.records = ∅) : History s canonical [] v
  | serve {es : List (Served s)} {v : Service} (h : History s canonical es v)
      (env : Environment) (r : Request s) :
      History s canonical (es ++ [⟨v,env,r,(v.serve canonical env r).1,
        (v.serve canonical env r).2⟩]) (v.serve canonical env r).2
  | other {es : List (Served s)} {v : Service} (h : History s canonical es v)
      (catalog : Catalog) (storage : Storage) :
      History s canonical es ⟨⟨catalog,v.rows.records⟩,storage⟩

/-- A later request with the key of a committed one changes nothing durable. It is answered with
the stored response if it repeats that request, and else refused as a conflict. -/
structure Bound (a b : Served s) (body : ResponseBody) : Prop where
  unchanged : b.after = b.before
  replay : b.request.Repeats a.request →
    (∀ x, b.answer = .ok x → x = {body with idempotentReplay := true}) ∧
    (b.environment.Unfailing → b.answer = .ok {body with idempotentReplay := true})
  conflict : ¬ b.request.Repeats a.request →
    (∀ x, b.answer ≠ .ok x) ∧ (b.environment.Unfailing → b.answer = .error conflict)

def Binds (a b : Served s) : Prop :=
  ∀ body, a.Committed body → b.request.key = a.request.key → Bound a b body

structure HistoryInv (canonical : Canonical) (es : List (Served s)) (v : Service) : Prop where
  records : RecordsInv canonical v
  bound : ∀ e, e ∈ es → ∀ body, e.Committed body →
    ∃ row, v.rows.records.lookup e.request.key = some row ∧
      Matches canonical row e.request.identity ∧ row.responseBody = some body
  effect : ∀ e, e ∈ es → ∀ body, e.Committed body →
    Commits canonical e.environment.now e.before e.after e.request body
  binds : es.Pairwise Binds
  unchanged : ∀ e, e ∈ es → (∀ body, ¬ e.Committed body) → e.after = e.before

section Histories
variable {es : List (Served s)} {a b : Served s}

theorem Commits.fresh {now : Time} (h : Commits canonical now v w r body) :
    body.idempotentReplay = false := by
  obtain ⟨m,-,hbody,-⟩ := h.outcome
  unfold responseBody at hbody
  cases hm : mutationResponse m with
  | error e =>
    rw [hm] at hbody
    cases hbody
  | ok z =>
    rw [hm] at hbody
    cases hbody
    rfl

theorem RecordsInv.commits {now : Time} (hv : RecordsInv canonical v)
    (h : Commits canonical now v w r body) : RecordsInv canonical w := by
  obtain ⟨row,hrow,hrecords⟩ := h.record
  intro row' hrow'
  rw [hrecords] at hrow'
  rcases Table.mem_put.1 hrow' with rfl | ⟨hold,-⟩
  · refine ⟨?_,hrow.responseStatus,body,hrow.responseBody,h.fresh⟩
    rw [hrow.key]
    exact hrow.visible
  · exact hv row' hold

/-- Two identities with one hash are the same request. -/
theorem Matches.repeats (hsha : Function.Injective2 canonical.requestSha256) {q : Request s}
    (hr : Matches canonical row r.identity) (hq : Matches canonical row q.identity)
    (hkey : r.key = q.key) : r.Repeats q :=
  ⟨hkey,hr.action.symm.trans hq.action,hr.actorId.symm.trans hq.actorId,
    (hsha (hr.requestSha256.symm.trans hq.requestSha256)).2⟩

theorem Matches.of_repeats {q : Request s} (h : r.Repeats q)
    (hq : Matches canonical row q.identity) : Matches canonical row r.identity := by
  refine ⟨hq.action.trans h.2.1.symm,hq.actorId.trans h.2.2.1.symm,?_⟩
  rw [hq.requestSha256]
  exact congrArg₂ canonical.requestSha256 h.2.1.symm h.2.2.2.symm

/-- The answer to a key that a committed request has bound. -/
theorem Serves.bound (hsha : Function.Injective2 canonical.requestSha256)
    (h : Serves canonical b.environment b.before b.request (b.answer,b.after))
    (hkey : b.request.key = a.request.key)
    (hrow : b.before.rows.records.lookup a.request.key = some row)
    (hmatch : Matches canonical row a.request.identity)
    (hbody : row.responseBody = some body) : Bound a b body := by
  rw [← hkey] at hrow
  obtain ⟨before,env,q,answer,after⟩ := b
  cases answer with
  | ok x =>
    rcases h with hcommit | ⟨stored,⟨-,-,row',hrow',hmatch',hbody'⟩,rfl,hafter⟩
    · obtain ⟨row',hdone,-⟩ := hcommit.record
      exact absurd (hrow.symm.trans hdone.free) fun hn => by cases hn
    · obtain rfl := Option.some.inj (hrow.symm.trans hrow')
      obtain rfl := Option.some.inj (hbody.symm.trans hbody')
      have hrepeats := hmatch'.repeats hsha hmatch hkey
      refine ⟨hafter,fun _ => ⟨fun y hy => ?_,fun _ => rfl⟩,fun hn => absurd hrepeats hn⟩
      cases hy
      rfl
  | error e =>
    obtain ⟨hafter,hfail⟩ := h
    refine ⟨hafter,fun hrepeats => ⟨fun y hy => ?_,fun hu => ?_⟩,
      fun _ => ⟨fun y hy => ?_,fun hu => ?_⟩⟩
    · cases hy
    · exact absurd (hmatch.of_repeats hrepeats) (hfail hu row hrow).1
    · cases hy
    · exact congrArg Except.error (hfail hu row hrow).2

/-- A served request has taken effect, or has changed nothing. -/
theorem Serves.cases {z : Except Raised ResponseBody × Service}
    (h : Serves canonical env v r z) :
    (∃ body, z.1 = .ok body ∧ Commits canonical env.now v z.2 r body) ∨
    (z.2 = v ∧ ∀ body, z.1 = .ok body → body.idempotentReplay = true) := by
  obtain ⟨e | body,w⟩ := z
  · exact Or.inr ⟨h.1,fun body hb => by cases hb⟩
  · rcases h with h | ⟨stored,-,rfl,rfl⟩
    · exact Or.inl ⟨body,rfl,h⟩
    · refine Or.inr ⟨rfl,fun body hb => ?_⟩
      cases hb
      rfl

theorem HistoryInv.serve (hsha : Function.Injective2 canonical.requestSha256)
    (h : HistoryInv canonical es v) (env : Environment) (r : Request s) :
    HistoryInv canonical (es ++ [⟨v,env,r,(v.serve canonical env r).1,
      (v.serve canonical env r).2⟩]) (v.serve canonical env r).2 := by
  have hserves : Serves canonical env v r (v.serve canonical env r) := serve_ends h.records
  generalize v.serve canonical env r = z at hserves ⊢
  have hbinds : ∀ a, a ∈ es → Binds a ⟨v,env,r,z.1,z.2⟩ := by
    intro a ha body hbody hkey
    obtain ⟨row,hrow,hmatch,hstored⟩ := h.bound a ha body hbody
    exact Serves.bound hsha hserves hkey hrow hmatch hstored
  have hpairwise : List.Pairwise Binds (es ++ [(⟨v,env,r,z.1,z.2⟩ : Served s)]) := by
    refine List.pairwise_append.2 ⟨h.binds,List.pairwise_singleton _ _,fun a ha b hb => ?_⟩
    rw [List.mem_singleton.1 hb]
    exact hbinds a ha
  rcases hserves.cases with ⟨body,hanswer,hcommit⟩ | ⟨hsame,hreplay⟩
  · obtain ⟨row,hdone,hrecords⟩ := hcommit.record
    have hcommitted : ∀ body', Served.Committed ⟨v,env,r,z.1,z.2⟩ body' → body' = body :=
      fun body' hb => Except.ok.inj (hb.1.symm.trans hanswer)
    refine ⟨h.records.commits hcommit,
      List.forall_mem_append.2 ⟨fun e he body' hb => ?_,List.forall_mem_singleton.2 ?_⟩,
      List.forall_mem_append.2 ⟨h.effect,List.forall_mem_singleton.2 fun body' hb => ?_⟩,
      hpairwise,
      List.forall_mem_append.2 ⟨h.unchanged,List.forall_mem_singleton.2 fun hn => ?_⟩⟩
    · obtain ⟨row',hrow',hmatch',hbody'⟩ := h.bound e he body' hb
      refine ⟨row',?_,hmatch',hbody'⟩
      rw [hrecords, Table.lookup_put_of_ne, hrow']
      intro hkey
      rw [← hkey, hdone.key] at hrow'
      exact absurd (hrow'.symm.trans hdone.free) fun hn => by cases hn
    · intro body' hb
      obtain rfl := hcommitted body' hb
      refine ⟨row,?_,hdone.matches_,hdone.responseBody⟩
      rw [hrecords, show r.key = row.key from hdone.key.symm]
      exact Table.lookup_put_self _ _
    · obtain rfl := hcommitted body' hb
      exact hcommit
    · exact (hn body ⟨hanswer,hcommit.fresh⟩).elim
  · have hnone : ∀ body', ¬ Served.Committed ⟨v,env,r,z.1,z.2⟩ body' :=
      fun body' hb => Bool.noConfusion ((hreplay body' hb.1).symm.trans hb.2)
    rw [hsame] at hnone hpairwise ⊢
    exact ⟨h.records,
      List.forall_mem_append.2 ⟨h.bound,
        List.forall_mem_singleton.2 fun body' hb => absurd hb (hnone body')⟩,
      List.forall_mem_append.2 ⟨h.effect,
        List.forall_mem_singleton.2 fun body' hb => absurd hb (hnone body')⟩,
      hpairwise,
      List.forall_mem_append.2 ⟨h.unchanged,List.forall_mem_singleton.2 fun _ => rfl⟩⟩

theorem History.inv (hsha : Function.Injective2 canonical.requestSha256)
    (h : History s canonical es v) : HistoryInv canonical es v := by
  induction h with
  | start h =>
    refine ⟨fun row hrow => ?_,fun e he => absurd he List.not_mem_nil,
      fun e he => absurd he List.not_mem_nil,List.Pairwise.nil,
      fun e he => absurd he List.not_mem_nil⟩
    rw [h] at hrow
    exact absurd hrow (Table.not_mem_empty row)
  | serve _ env r ih => exact ih.serve hsha env r
  | other _ catalog storage ih => exact ⟨ih.records,ih.bound,ih.effect,ih.binds,ih.unchanged⟩

/-- Every key is bound to at most one committed mutation, whose catalog, row and object appear
together. A later request with that key is answered with the stored response or refused, and a
request without a committed effect leaves the catalog, the keys and the objects as they were. -/
theorem one_effect_per_key (hsha : Function.Injective2 canonical.requestSha256)
    (h : History s canonical es v) :
    (∀ e, e ∈ es → ∀ body, e.Committed body →
      Commits canonical e.environment.now e.before e.after e.request body) ∧
    es.Pairwise (fun a b => (∃ x, a.Committed x) → (∃ x, b.Committed x) →
      a.request.key ≠ b.request.key) ∧
    es.Pairwise Binds ∧
    ∀ e, e ∈ es → (∀ body, ¬ e.Committed body) → e.after = e.before := by
  have hinv := h.inv hsha
  refine ⟨hinv.effect,hinv.binds.imp fun {a b} hab hx hy hkey => ?_,hinv.binds,
    hinv.unchanged⟩
  obtain ⟨x,hx⟩ := hx
  obtain ⟨y,hy⟩ := hy
  -- the later one could only have been a replay
  have hbound := hab x hx hkey.symm
  by_cases hrepeats : b.request.Repeats a.request
  · have hreplay := (hbound.replay hrepeats).1 y hy.1
    rw [hreplay] at hy
    cases hy.2
  · exact (hbound.conflict hrepeats).1 y hy.1

end Histories

/-! ### A key that is used three times -/

deriving instance Countable for DecisionAction
deriving instance Countable for RequestMaterial

def smooth : Environment := ⟨0,fun _ => none⟩

def booksUpload : Request Lifecycle.booksSettings :=
  ⟨"upload-0001",.upload ⟨Lifecycle.books,Lifecycle.sampleFilename,"a.pdf",1,⟨"a"⟩,Lifecycle.sampleScanner,
    Lifecycle.sampleOperator⟩ ⟨by decide +kernel,by decide⟩⟩

def booksDelete : Request Lifecycle.booksSettings :=
  ⟨"upload-0001",.mutation (.delete (uuid4 0 0) Lifecycle.sampleOperator)⟩

/-- An upload takes effect, its repetition is answered with the stored response, and a deletion
under its key is a conflict. -/
theorem one_effect_per_key_books :
    ∃ (canonical : Canonical) (v : Service) (a b c : Served Lifecycle.booksSettings)
      (body : ResponseBody),
      History Lifecycle.booksSettings canonical [a,b,c] v ∧ a.Committed body ∧
      b.answer = .ok {body with idempotentReplay := true} ∧ c.answer = .error conflict := by
  obtain ⟨f,hf⟩ := Preparation.exists_hash (String × RequestMaterial)
  let canonical : Canonical := ⟨fun c => c.isAlphanum || c = '-',fun a m => f (a,m)⟩
  have hsha : Function.Injective2 canonical.requestSha256 := by
    intro a a' m m' h
    exact Prod.mk.inj (hf h)
  have hstart : History Lifecycle.booksSettings canonical [] ⟨⟨.empty,∅⟩,.empty⟩ := .start rfl
  have hrun := ((hstart.serve smooth booksUpload).serve smooth booksUpload).serve smooth
    booksDelete
  have hbody : ∃ body, Served.Committed ⟨⟨⟨.empty,∅⟩,.empty⟩,smooth,booksUpload,
      (Service.serve canonical ⟨⟨.empty,∅⟩,.empty⟩ smooth booksUpload).1,
      (Service.serve canonical ⟨⟨.empty,∅⟩,.empty⟩ smooth booksUpload).2⟩ body :=
    ⟨_,rfl,rfl⟩
  obtain ⟨body,hbody⟩ := hbody
  have haction : ¬ booksDelete.action = booksUpload.action := by decide +kernel
  have hbinds := (one_effect_per_key hsha hrun).2.2.1
  simp only [List.nil_append, List.cons_append, List.pairwise_cons, List.mem_cons] at hbinds
  refine ⟨canonical,_,_,_,_,body,hrun,hbody,?_,?_⟩
  · exact ((hbinds.1 _ (Or.inl rfl) body hbody rfl).replay ⟨rfl,rfl,rfl,rfl⟩).2 fun _ => rfl
  · refine ((hbinds.1 _ (Or.inr (Or.inl rfl)) body hbody rfl).conflict fun h => ?_).2
      fun _ => rfl
    exact haction h.2.1

end Idempotency
end PdfBridge
