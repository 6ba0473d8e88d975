import PdfBridge.Foundation.Triples
import PdfBridge.Managers.Document

/-! Idempotent requests: each one is a transaction that reserves its key, mutates the catalog,
stores its response and commits. Any statement can raise, and what a failed transaction has
flushed is rolled back. -/
namespace PdfBridge
namespace Idempotency
open Intake Api

inductive Raised where
  | integrityError
  | error (e : ServiceError)
deriving DecidableEq

/-! ### Rows -/

/-- The canonical material of a request. -/
inductive RequestMaterial where
  | upload (collectionKey : CollectionKey) (filename : Text 255) (sizeBytes : ℕ)
      (sha256 : Digest)
  | decision (documentId preparedRevisionId : Uuid) (action : DecisionAction)
      (targetDocumentId : Option Uuid)
  | document (documentId : Uuid)
deriving DecidableEq

/-- The JSON object of `UploadAcceptedResponse` and `MutationResponse`. -/
structure ResponseBody where
  document : DocumentSummary
  operation : OperationSummary
  idempotentReplay : Bool
deriving DecidableEq

/-- A row of `idempotency_records`. -/
structure IdempotencyRow where
  key : String
  action : String
  requestSha256 : Digest
  actorId : Text 255
  resourceType : Option String
  resourceId : Option Uuid
  responseStatus : Option ℕ
  responseBody : Option ResponseBody
  createdAt : Time
  completedAt : Option Time
deriving DecidableEq

/-- Completed response material for an identical repeated mutation. -/
structure IdempotencyReplay where
  status : ℕ
  body : ResponseBody

/-- The tables that a session reads and writes. -/
structure Rows where
  catalog : Catalog
  records : Table IdempotencyRow.key

/-- What is durable between two requests. -/
structure Service where
  rows : Rows
  storage : Storage

/-- One request under the transition lock: what is durable, the rows that its session sees, and
whether its upload is still staged. -/
structure Session where
  service : Service
  rows : Rows
  staged : Bool
  executed : ℕ

/-! ### Statements -/

/-- A mutation of one document that exists. -/
inductive Mutation where
  | decide (x : DecisionRequest)
  | retry (documentId : Uuid) (actorId : Text 255)
  | delete (documentId : Uuid) (actorId : Text 255)
deriving DecidableEq

def Mutation.run (s : Settings) (now : Time) (c : Catalog) : Mutation → Outcome MutationOutcome
  | .decide x => decideDocument s now x c
  | .retry id actorId => retryDocument now id actorId c
  | .delete id actorId => deleteDocument s now id actorId c

inductive Statement where
  | requireWorker
  | utcNow
  | selectRecord (key : String)
  | insertRecord (row : IdempotencyRow)
  | selectDuplicate (collectionKey : CollectionKey) (sha256 : Digest)
  | promoteStagedFile (documentId : Uuid) (sha256 : Digest)
  | insertDocument (d : Document)
  | enqueueOperation (d : Document)
  | mutate (m : Mutation)
  | completeRecord (row : IdempotencyRow)
  | audit
  | commit
  | rollback
  | unlinkObject (documentId : Uuid)
  | unlinkStaged
  | stagedIsFile

def Statement.Response : Statement → Type
  | .utcNow => Time
  | .selectRecord _ => Option IdempotencyRow
  | .selectDuplicate _ _ => Option Document
  | .enqueueOperation _ | .mutate _ => MutationOutcome
  | .stagedIsFile => Bool
  | _ => Unit

def Sql : Signature := ⟨Statement,Statement.Response⟩

abbrev Tx (α : Type) := Program Sql Raised α

def call (x : Statement) : Tx x.Response := @Program.request Sql Raised x

def raise {α : Type} (code message : String) (status : ℕ) : Tx α :=
  .fail (.error (.lifecycle code message status))

def service {α : Type} (x : Outcome α) : Tx α := Program.lift (x.mapError Raised.error)

/-! ### Reservation and completion -/

/-- `str.isspace` or not `str.isprintable` is invisible; `canonical_request_sha256` hashes the
canonical JSON of an action and its material. -/
structure Canonical where
  visible : Char → Bool
  requestSha256 : String → RequestMaterial → Digest

/-- The stored response of a key that is already there. -/
def replayOf (row : IdempotencyRow) (action : String) (actorId : Text 255)
    (requestHash : Digest) : Tx IdempotencyReplay :=
  if row.action ≠ action ∨ row.actorId ≠ actorId ∨ row.requestSha256 ≠ requestHash then
    raise "idempotency_conflict"
      "The idempotency key was already used for a different request." 409
  else match row.responseStatus, row.responseBody with
    | some status, some body => .pure ⟨status,body⟩
    | _, _ => raise "idempotency_in_progress"
        "The original request is still being committed; retry shortly." 409

/-- A globally unique key, or the stored response of the identical request. -/
def reserveIdempotency (canonical : Canonical) (key action : String) (actorId : Text 255)
    (requestMaterial : RequestMaterial) : Tx (IdempotencyRow ⊕ IdempotencyReplay) := do
  Program.require (8 ≤ key.length && key.length ≤ 128 && key.toList.all canonical.visible)
    (.error (.lifecycle "invalid_idempotency_key"
      "Idempotency-Key must contain 8 to 128 visible characters." 400))
  Program.require (1 ≤ action.length && action.length ≤ 64)
    (.error (.lifecycle "invalid_idempotency_identity"
      "The idempotency action and actor identity are invalid." 400))
  let requestHash := canonical.requestSha256 action requestMaterial
  let existing ← call (.selectRecord key)
  match existing with
  | some row => do
      let stored ← replayOf row action actorId requestHash
      pure (.inr stored)
  | none => do
      let now ← call .utcNow
      let row : IdempotencyRow := ⟨key,action,requestHash,actorId,none,none,none,none,now,none⟩
      call (.insertRecord row)
      pure (.inl row)

/-- Seal replay material once; an exact duplicate completion is a no-op. -/
def completeIdempotency (row : IdempotencyRow) (status : ℕ) (body : ResponseBody)
    (resourceType : String) (resourceId : Uuid) : Tx Unit := do
  Program.require (100 ≤ status && status ≤ 599 && 1 ≤ resourceType.length &&
      resourceType.length ≤ 64)
    (.error (.lifecycle "invalid_idempotency_response"
      "The idempotency response metadata is invalid." 500))
  if row.completedAt.isSome then
    Program.require (row.responseStatus = some status && row.responseBody = some body &&
        row.resourceType = some resourceType && row.resourceId = some resourceId)
      (.error (.lifecycle "idempotency_completion_conflict"
        "Completed idempotency replay material cannot be changed." 409))
  else do
    let now ← call .utcNow
    call (.completeRecord {row with
      responseStatus := some status, responseBody := some body,
      resourceType := some resourceType, resourceId := some resourceId,
      completedAt := some now})

/-- `_reserve_idempotency`: the losing side of a unique-key race reads the key once more. -/
def reserveOnce (canonical : Canonical) (key action : String) (actorId : Text 255)
    (requestMaterial : RequestMaterial) : Tx (IdempotencyRow ⊕ IdempotencyReplay) :=
  let reserve := reserveIdempotency canonical key action actorId requestMaterial
  reserve.tryCatch fun
    | .integrityError => do
        call .rollback
        reserve
    | e => .fail e

/-- `_upload_replay` and `_mutation_replay` of a stored response of the contract `kind`. -/
def replay (kind : String) (x : IdempotencyReplay) : Tx ResponseBody := do
  Program.require (x.status = 202)
    (.error (.serialization ("stored " ++ kind ++ " replay has an unexpected HTTP status")))
  pure {x.body with idempotentReplay := true}

def uploadReplay : IdempotencyReplay → Tx ResponseBody := replay "upload"
def mutationReplay : IdempotencyReplay → Tx ResponseBody := replay "mutation"

/-- `mutation_response` and `upload_accepted_response`. -/
def responseBody (x : MutationOutcome) : Outcome ResponseBody :=
  (fun y => ⟨y.1,y.2,false⟩) <$> mutationResponse x

def rollbackAndRaise {α : Type} (e : Raised) : Tx α := do
  call .rollback
  .fail e

/-! ### The requests -/

def mutationAction : Mutation → String
  | .decide _ => "decide_document"
  | .retry _ _ => "retry_document"
  | .delete _ _ => "delete_document"

def mutationActor : Mutation → Text 255
  | .decide x => x.actorId
  | .retry _ actorId | .delete _ actorId => actorId

def mutationMaterial : Mutation → RequestMaterial
  | .decide x => .decision x.documentId x.preparedRevisionId x.action x.targetDocumentId
  | .retry id _ | .delete id _ => .document id

/-- `_run_mutation`. -/
def runMutation (canonical : Canonical) (key : String) (m : Mutation) : Tx ResponseBody := do
  call .requireWorker
  Program.tryCatch (do
    let reservation ← reserveOnce canonical key (mutationAction m) (mutationActor m)
      (mutationMaterial m)
    match reservation with
    | .inr stored => do
        let response ← mutationReplay stored
        call .rollback
        pure response
    | .inl row => do
        let outcome ← call (.mutate m)
        let response ← service (responseBody outcome)
        completeIdempotency row 202 response "document" outcome.document.id
        call .commit
        pure response) rollbackAndRaise

structure AdmissionOutcome where
  documentId : Uuid
  responseBody : ResponseBody

def uploadMaterial (x : PreparedAdmission) : RequestMaterial :=
  .upload x.collectionKey x.originalFilename x.sizeBytes x.sha256

/-- The rows of a promoted upload; an exception takes the promoted bytes back. -/
def registerDocument (row : IdempotencyRow) (d : Document) : Tx AdmissionOutcome :=
  Program.tryCatch (do
    call (.insertDocument d)
    let outcome ← call (.enqueueOperation d)
    let body ← service (responseBody outcome)
    completeIdempotency row 202 body "document" d.id
    call .audit
    pure ⟨d.id,body⟩) fun e => do
      call (.unlinkObject d.id)
      .fail e

/-- Promote clean bytes and register `PREFLIGHTING` with its operation. -/
def registerAdmission (canonical : Canonical) (key : String) (x : PreparedAdmission) :
    Tx (AdmissionOutcome ⊕ IdempotencyReplay) := do
  let reservation ← reserveIdempotency canonical key "upload_document" x.actorId
    (uploadMaterial x)
  match reservation with
  | .inr stored => do
      call .unlinkStaged
      pure (.inr stored)
  | .inl row => do
      let duplicate ← call (.selectDuplicate x.collectionKey x.sha256)
      match duplicate with
      | some _ => do
          call .unlinkStaged
          raise "exact_duplicate"
            "The same PDF bytes are already retained in this collection." 409
      | none => do
          let now ← call .utcNow
          let d := admittedDocument now x
          (call (.promoteStagedFile d.id x.sha256)).tryCatch fun e => do
            call .unlinkStaged
            .fail e
          let outcome ← registerDocument row d
          pure (.inl outcome)

/-- The admission is tried once more after an integrity error while the upload is staged. -/
def admitOnce (canonical : Canonical) (key : String) (x : PreparedAdmission) :
    Tx (AdmissionOutcome ⊕ IdempotencyReplay) :=
  (registerAdmission canonical key x).tryCatch fun
    | .integrityError => do
        call .rollback
        let staged : Bool ← call .stagedIsFile
        if staged then registerAdmission canonical key x else .fail .integrityError
    | e => .fail e

/-- The commit of an admission, which takes the promoted bytes back when it fails. -/
def commitAdmission (outcome : AdmissionOutcome) : Tx ResponseBody :=
  Program.tryCatch (do
    call .commit
    pure outcome.responseBody) fun e => do
      call .rollback
      call (.unlinkObject outcome.documentId)
      .fail e

/-- `upload_document` after the upload was streamed, checked and scanned. -/
def uploadDocument (canonical : Canonical) (key : String) (x : PreparedAdmission) :
    Tx ResponseBody := do
  call .requireWorker
  Program.finally_ (do
    let registration ← (admitOnce canonical key x).tryCatch rollbackAndRaise
    match registration with
    | .inr stored =>
        Program.tryCatch (do
          let response ← uploadReplay stored
          call .rollback
          pure response) rollbackAndRaise
    | .inl outcome => commitAdmission outcome) (call .unlinkStaged)

/-! ### Execution -/

/-- An exception that a statement raises, and the rows that its session has flushed by then. -/
structure Fault where
  raised : Raised
  rows : Rows

/-- What the clock shows to a request, and which of its statements raise. -/
structure Environment where
  now : Time
  fault : ℕ → Option Fault

/-- The compensation of a failed request: it does not fail itself. -/
def Statement.compensates : Statement → Bool
  | .rollback | .unlinkObject _ | .unlinkStaged | .stagedIsFile => true
  | _ => false

namespace Session

/-- The effect of a statement that the environment lets through. -/
def perform (s : Settings) (now : Time) (σ : Session) :
    (x : Statement) → Except Raised x.Response × Session
  | .requireWorker | .audit => (.ok (),σ)
  | .utcNow => (.ok now,σ)
  | .selectRecord key => (.ok (σ.rows.records.lookup key),σ)
  | .insertRecord row =>
      if (σ.rows.records.lookup row.key).isSome then (.error .integrityError,σ)
      else (.ok (),{σ with rows := {σ.rows with records := σ.rows.records.put row}})
  | .selectDuplicate collectionKey sha256 =>
      (.ok (findExactDuplicate σ.rows.catalog collectionKey sha256),σ)
  | .promoteStagedFile id sha256 =>
      if σ.service.storage.isFile (.object id) then
        (.error (.error (.storage "canonical storage key already exists")),σ)
      else (.ok (),{σ with
        service := {σ.service with
          storage := σ.service.storage.write ⟨.object id,.source sha256⟩},
        staged := false})
  | .insertDocument d =>
      if (σ.rows.catalog.document? d.id).isSome then (.error .integrityError,σ)
      else (.ok (),{σ with rows := {σ.rows with catalog := σ.rows.catalog.put d}})
  | .enqueueOperation d =>
      match Intake.enqueueOperation now d .preflight .normal none none .queued with
      | .ok (operation,d) =>
          let catalog := σ.rows.catalog.put d
          (.ok ⟨d,operation,catalog⟩,{σ with rows := {σ.rows with catalog := catalog}})
      | .error e => (.error (.error e),σ)
  | .mutate m =>
      match m.run s now σ.rows.catalog with
      | .ok outcome =>
          (.ok outcome,{σ with rows := {σ.rows with catalog := outcome.catalog}})
      | .error e => (.error (.error e),σ)
  | .completeRecord row =>
      (.ok (),{σ with rows := {σ.rows with records := σ.rows.records.put row}})
  | .commit => (.ok (),{σ with service := {σ.service with rows := σ.rows}})
  | .rollback => (.ok (),{σ with rows := σ.service.rows})
  | .unlinkObject id =>
      (.ok (),{σ with service := {σ.service with
        storage := σ.service.storage.remove (.object id)}})
  | .unlinkStaged => (.ok (),{σ with staged := false})
  | .stagedIsFile => (.ok σ.staged,σ)

def next (σ : Session) : Session := {σ with executed := σ.executed + 1}

def execute (s : Settings) (env : Environment) : Program.Handler Sql Raised Session :=
  fun x σ =>
    match if x.compensates then none else env.fault σ.executed with
    | some fault => (.error fault.raised,{σ.next with rows := fault.rows})
    | none => σ.next.perform s env.now x

end Session

/-- An upload that `prepare_admission` accepted. -/
structure Prepared (s : Settings) (x : PreparedAdmission) : Prop where
  collection : (s.enabledCollection? x.collectionKey).isSome = true
  sizeBytes : 0 < x.sizeBytes

inductive RequestBody (s : Settings) where
  | upload (x : PreparedAdmission) (prepared : Prepared s x)
  | mutation (m : Mutation)

structure Request (s : Settings) where
  key : String
  body : RequestBody s

namespace Request
variable {s : Settings}

def action (r : Request s) : String :=
  match r.body with
  | .upload _ _ => "upload_document"
  | .mutation m => mutationAction m

def actorId (r : Request s) : Text 255 :=
  match r.body with
  | .upload x _ => x.actorId
  | .mutation m => mutationActor m

def material (r : Request s) : RequestMaterial :=
  match r.body with
  | .upload x _ => uploadMaterial x
  | .mutation m => mutationMaterial m

/-- The same key, action, actor and request material. -/
def Repeats (r q : Request s) : Prop :=
  r.key = q.key ∧ r.action = q.action ∧ r.actorId = q.actorId ∧ r.material = q.material

instance (r q : Request s) : Decidable (r.Repeats q) :=
  inferInstanceAs (Decidable (_ ∧ _ ∧ _ ∧ _))

def transaction (canonical : Canonical) (r : Request s) : Tx ResponseBody :=
  match r.body with
  | .upload x _ => uploadDocument canonical r.key x
  | .mutation m => runMutation canonical r.key m

def isUpload (r : Request s) : Bool :=
  match r.body with
  | .upload _ _ => true
  | .mutation _ => false

/-- The mutation of the catalog that a request asks for. -/
def outcome (now : Time) (c : Catalog) (r : Request s) : Outcome MutationOutcome :=
  match r.body with
  | .upload x _ => Api.registerAdmission s now x c
  | .mutation m => m.run s now c

end Request

/-- Serve one request under the transition lock. -/
def Service.serve {s : Settings} (canonical : Canonical) (v : Service) (env : Environment)
    (r : Request s) : Except Raised ResponseBody × Service :=
  let x := (r.transaction canonical).run (Session.execute s env) ⟨v,v.rows,r.isUpload,0⟩
  (x.1,x.2.service)

end Idempotency
end PdfBridge
