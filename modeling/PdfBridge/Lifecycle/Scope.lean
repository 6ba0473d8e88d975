import PdfBridge.Core.AccessToken
import PdfBridge.Lifecycle.Visibility

/-! The reach of a worker: the collections and documents that its calls to Qdrant address, in every
order of steps. The access token of the service grants every one of these collections. -/
namespace PdfBridge
namespace Lifecycle
open Worker Preparation Program

variable {s : Settings} {enc : Encoding} {x : ClaimedOperation} {α β : Type}

/-! ### What a call addresses -/

/-- The screening collection, or the active collection of the operation. -/
def InScope (s : Settings) (x : ClaimedOperation) (c : Text 255) : Prop :=
  c = s.screening ∨ activeName? s x.collectionKey = some c

/-- The call addresses a collection of the operation. It reads and deletes points of documents that
the operation locks, writes points of its own document, and searches its logical collection. -/
def Addresses (s : Settings) (x : ClaimedOperation) : PointRequest → Prop
  | .upsert c points => InScope s x c ∧ ∀ p ∈ points, p.chunk.documentId = x.documentId
  | .setPayload c id _ => InScope s x c ∧ id = x.documentId
  | .count c id | .delete c id => InScope s x c ∧ id ∈ x.lockedDocumentIds
  | .retrieve c ids => InScope s x c ∧ ∀ id ∈ ids, id.documentId = x.documentId
  | .query c _ f _ => InScope s x c ∧ f.collectionKey = x.collectionKey

/-- Calls to Qdrant are confined; what a thread knows plays no role. -/
def confines (s : Settings) (x : ClaimedOperation) : Request → Prop
  | .points r => Addresses s x r
  | _ => True

/-- A preparation works in the logical collection of its document. -/
def keyed (x : ClaimedOperation) : (r : Request) → Except ServiceError r.Response → Prop
  | .catalog (.beginPreparation _), .ok h => h.collectionKey = x.collectionKey
  | _, _ => True

def confinement (s : Settings) (x : ClaimedOperation) : Program.Protocol signature ServiceError
    Knowledge where
  answers r a := answers s x r a ∧ keyed x r a
  permits r _ := confines s x r
  next _ K _ := K

/-- A program whose calls are confined, and whose value satisfies `V`. -/
abbrev Confined (s : Settings) (x : ClaimedOperation) (V : α → Prop) (p : Prog α) : Prop :=
  Keeps (confinement s x) ∅ V p

/-! ### Single requests -/

theorem confined_call {r : Request} {V : r.Response → Prop} (hr : confines s x r)
    (hv : ∀ a, answers s x r (.ok a) ∧ keyed x r (.ok a) → V a) : Confined s x V (call r) := by
  apply Grants.request (fun _ _ => hr)
  intro K hK y hy
  refine ⟨hK,?_⟩
  rintro a rfl
  exact ⟨hv a hy,Set.empty_subset _⟩

theorem confined_catalog {r : CatalogRequest} {V : r.Response → Prop}
    (hv : ∀ a, answers s x (.catalog r) (.ok a) ∧ keyed x (.catalog r) (.ok a) → V a) :
    Confined s x V (catalog r) :=
  confined_call trivial hv

theorem confined_any {r : CatalogRequest} : Confined s x (fun _ => True) (catalog r) :=
  confined_catalog fun _ _ => trivial

theorem confined_points {r : PointRequest} (hr : Addresses s x r) :
    Confined s x (fun _ => True) (points r) :=
  confined_call hr fun _ _ => trivial

theorem confined_files (r : FileRequest) : Confined s x (fun _ => True) (files r) :=
  confined_call trivial fun _ _ => trivial

theorem confined_provider (r : ProviderRequest) : Confined s x (fun _ => True) (provider r) :=
  confined_call trivial fun _ _ => trivial

theorem confined_lift (y : Outcome α) : Confined s x (fun _ => True) (Program.lift y : Prog α) :=
  Keeps.lift fun _ _ => trivial

theorem confined_require (c : Bool) (e : ServiceError) :
    Confined s x (fun _ => True) (Program.require c e : Prog Unit) :=
  Grants.mono Keeps.require fun _ _ => ⟨trivial,Set.empty_subset _⟩

theorem confined_raising (y : Outcome α) : Confined s x (fun _ => True) (raising y) := by
  cases y with
  | ok a => exact Keeps.pure trivial
  | error e =>
    apply Keeps.bind (confined_call (r := .raise e) (V := fun _ => True) trivial fun _ _ => trivial)
    intro v
    cases v

theorem confined_attempt {V : α → Prop} {p : Prog α} (h : Confined s x V p) :
    Confined s x (fun y => ∀ a, y = .ok a → V a) (attempt p) := by
  apply Grants.tryCatch
  · apply h.bind
    intro a ha
    apply Keeps.pure
    intro b hb
    cases hb
    exact ha
  · intro e
    apply Keeps.pure
    intro b hb
    cases hb

theorem confined_stage {r : CatalogRequest} {V : r.Response → Prop} {e : ServiceError}
    (h : Confined s x V (catalog r)) : Confined s x V (stage r e) :=
  Grants.tryCatch h fun _ => Grants.fail

theorem confined_external (toError : ProviderFailure → ServiceError)
    (y : Except ProviderFailure α) : Confined s x (fun _ => True) (external toError y) := by
  cases y with
  | ok a => exact Keeps.pure trivial
  | error e => exact Grants.fail

theorem confined_either {c : Prop} [Decidable c] {V : α → Prop} {p q : Prog α}
    (hp : Confined s x V p) (hq : Confined s x V q) : Confined s x V (if c then p else q) := by
  split
  · exact hp
  · exact hq

/-! ### Preparation -/

/-- A stretch of preparation whose calls are confined. -/
def ConfinedStretch (s : Settings) (x : ClaimedOperation) (V : α → Prop) (p : Stretch α) : Prop :=
  Confined s x (fun y => ∀ a, y.2 = .ok a → V a) p

theorem ConfinedStretch.then_ {V : α → Prop} {W : β → Prop} {p : Stretch α} {f : α → Stretch β}
    (h : ConfinedStretch s x V p) (hf : ∀ a, V a → ConfinedStretch s x W (f a)) :
    ConfinedStretch s x W (p.then_ f) := by
  apply Keeps.bind h
  intro y hy
  obtain ⟨exchanges,result⟩ := y
  cases result with
  | error e =>
    apply Keeps.pure
    intro a ha
    cases ha
  | ok a => exact Keeps.bind (hf a (hy a rfl)) fun z hz => Keeps.pure hz

theorem confined_step {V : α → Prop} {p : Prog α} (h : Confined s x V p) :
    ConfinedStretch s x V (step p) :=
  (confined_attempt h).bind fun _ hy => Keeps.pure hy

theorem confined_checkpoint {V : α → Prop} {phase : OperationPhase} {p : Stretch α}
    (h : ConfinedStretch s x V p) : ConfinedStretch s x V (checkpoint phase p) :=
  Keeps.bind confined_any fun _ _ => h

theorem confined_captured {p : Prog (Captured α)} (h : Confined s x (fun _ => True) p) :
    ConfinedStretch s x (fun _ => True) (captured p) :=
  h.bind fun _ _ => Keeps.pure fun _ _ => trivial

/-- A provider call whose failure becomes an exception. -/
theorem confined_reply (r : ProviderRequest) (toError : ProviderFailure → ServiceError)
    {f : r.Response → Except ProviderFailure α} :
    Confined s x (fun _ => True) ((provider r).bind fun y => external toError (f y)) :=
  (confined_provider r).bind fun y _ => confined_external toError (f y)

theorem confined_formatMarkdownDocument (y : ExtractedDocument) :
    ConfinedStretch s x (fun _ => True) (formatMarkdownDocument y) :=
  confined_checkpoint <|
    (confined_step (confined_reply (f := id) (.packFormatterBatches y) externalError)).then_
    fun _ _ => confined_checkpoint <| (confined_captured (confined_provider _)).then_
    fun _ _ => confined_checkpoint <| confined_captured (confined_provider _)

theorem confined_buildBundle (h : PreparationHandle) (pages : List PreparedPage) :
    ConfinedStretch s x (fun _ => True) (buildBundle enc h pages) := by
  apply confined_checkpoint
  apply (confined_step (confined_reply (f := id) (.chunkMarkdown h pages) bundleError)).then_
  intro chunks _
  apply confined_checkpoint
  apply (confined_step (confined_reply (f := id) (.embedDense _) bundleError)).then_
  intro dense _
  apply confined_checkpoint
  apply confined_step
  apply (confined_provider _).bind
  intro sparse _
  exact (confined_external bundleError sparse).bind fun _ _ => confined_lift _

/-- Prepared content of the own document, in its logical collection. -/
structure ScopedContent (s : Settings) (x : ClaimedOperation) (content : ContentPreparationResult) :
    Prop extends OwnContent s x content where
  collection : content.handle.collectionKey = x.collectionKey

theorem confined_recordContent {h : PreparationHandle} (hid : h.documentId = x.documentId)
    (hkey : h.collectionKey = x.collectionKey) (key : StorageKey) :
    ConfinedStretch s x (ScopedContent s x) (recordContent enc h key) := by
  apply (confined_step (confined_reply (f := id) (.extract key) externalError)).then_
  intro document _
  apply confined_checkpoint
  apply ConfinedStretch.then_ (V := fun _ => True)
  · apply confined_step
    apply (confined_provider _).bind
    intro eligible _
    exact (confined_external externalError eligible).bind fun _ _ => confined_stage confined_any
  intro extraction _
  apply (confined_formatMarkdownDocument document).then_
  intro formatted _
  apply ConfinedStretch.then_ (V := fun _ => True)
  · apply confined_step
    apply Keeps.bind (confined_stage confined_any)
    intro markdown _
    apply Keeps.bind (confined_stage confined_any)
    intro pages _
    exact Keeps.pure trivial
  intro prepared _
  apply (confined_buildBundle h prepared.2).then_
  intro bundle _
  apply confined_step
  apply Keeps.bind (confined_stage confined_any)
  intro vectors _
  apply Keeps.bind (confined_stage (confined_catalog (r := .reconstructChunkPoints _ false)
    (V := fun ps => ∀ p ∈ ps, OwnPoint s x p) fun _ ha => ha.1))
  intro ps hps
  exact Keeps.pure ⟨⟨hid,hps⟩,hkey⟩

theorem confined_prepareRevisionContent (identity : PreparationIdentity) (key : StorageKey) :
    ConfinedStretch s x (ScopedContent s x) (prepareRevisionContent enc identity key) := by
  apply ConfinedStretch.then_ (V := fun h : PreparationHandle =>
    h.documentId = x.documentId ∧ h.collectionKey = x.collectionKey)
  · exact confined_step (confined_stage (confined_catalog fun _ ha => ha))
  rintro h ⟨hid,hkey⟩
  apply Keeps.bind (confined_recordContent hid hkey key)
  intro y hy
  split
  · rename_i content hcontent
    apply Keeps.pure
    rintro _ ⟨⟩
    exact hy _ hcontent
  · apply Keeps.bind (confined_attempt (confined_stage confined_any))
    intro saved _
    split <;>
    · apply Keeps.pure
      intro _ he
      cases he

/-! ### Points -/

theorem validateBatch_own {ps : List ChunkPoint} (hps : ∀ p ∈ ps, OwnPoint s x p) {id : Uuid}
    (h : validateBatch ps = .ok id) : id = x.documentId := by
  simp only [validateBatch, bind_eq_ok, orRaise_eq_ok, pure_eq_ok] at h
  obtain ⟨p,hp,-,-,-,-,-,-,rfl⟩ := h
  exact (hps p (List.mem_of_mem_head? hp)).document

theorem confined_verifyDocumentZero {c : Text 255} (hc : InScope s x c) {id : Uuid}
    (hid : id ∈ x.lockedDocumentIds) :
    Confined s x (fun _ => True) (verifyDocumentZero c id) :=
  Keeps.bind (confined_points (r := .count c id) ⟨hc,hid⟩) fun _ _ => confined_require _ _

section Own
variable (hlocked : x.documentId ∈ x.lockedDocumentIds)
include hlocked

theorem confined_verifyPreparedPoints {c : Text 255} (hc : InScope s x c) {ps : List ChunkPoint}
    (hps : ∀ p ∈ ps, OwnPoint s x p) (published : Bool) (visibility : Visibility) :
    Confined s x (fun _ => True) (verifyPreparedPoints c ps published visibility) := by
  apply Keeps.bind (Keeps.lift fun _ h => validateBatch_own hps h)
  rintro id rfl
  apply Keeps.bind (confined_points (r := .count c x.documentId) ⟨hc,hlocked⟩)
  intro total _
  apply Keeps.bind (confined_require _ _)
  intro _ _
  have hids : ∀ id ∈ ps.map (·.chunkId), id.documentId = x.documentId := by
    intro id hid
    obtain ⟨p,hp,rfl⟩ := List.mem_map.1 hid
    exact (hps p hp).chunk
  exact Keeps.bind (confined_points (r := .retrieve c _) ⟨hc,hids⟩) fun _ _ => confined_lift _

omit hlocked in
theorem confined_upsert {c : Text 255} (hc : InScope s x c) {ps : List ChunkPoint}
    (hps : ∀ p ∈ ps, OwnPoint s x p) (visibility : Visibility) (message : String) :
    Confined s x (fun _ => True) (upsertPoints c (pointBatch visibility message ps)) := by
  apply Keeps.bind (Keeps.lift fun _ h => pointBatch_ok h)
  rintro batch rfl
  apply confined_points (r := .upsert c _)
  refine ⟨hc,?_⟩
  intro point hpoint
  obtain ⟨p,hp,rfl⟩ := List.mem_map.1 hpoint
  exact (hps p hp).document

theorem confined_writeScreeningPoints {content : ContentPreparationResult}
    (hcontent : OwnContent s x content) :
    Confined s x (fun _ => True) (writeScreeningPoints s content) := by
  have hscreening : InScope s x s.screening := Or.inl rfl
  have hid : content.handle.documentId ∈ x.lockedDocumentIds := hcontent.document ▸ hlocked
  apply Keeps.bind (confined_require _ _)
  intro _ _
  apply Keeps.bind confined_any
  intro _ _
  apply Keeps.bind confined_any
  intro _ _
  apply Keeps.bind (confined_points (r := .delete s.screening _) ⟨hscreening,hid⟩)
  intro _ _
  apply Keeps.bind (confined_verifyDocumentZero hscreening hid)
  intro _ _
  apply Keeps.bind (confined_upsert hscreening hcontent.points _ _)
  intro _ _
  apply Keeps.bind (confined_verifyPreparedPoints hlocked hscreening hcontent.points _ _)
  intro _ _
  exact confined_any

end Own

/-! ### Candidates and advisory review -/

theorem confined_queryChunk {h : PreparationHandle} (hkey : h.collectionKey = x.collectionKey)
    (found : Discovery) {chunk : ChunkPoint × SparseVector} (hchunk : OwnPoint s x chunk.1) :
    Confined s x (fun _ => True) (queryChunk s.screening h found chunk) := by
  have hscreening : InScope s x s.screening := Or.inl rfl
  have hactive : InScope s x chunk.1.activeQdrantCollection := Or.inr hchunk.active
  apply Keeps.bind (confined_points (r := .query _ _ _ _) ⟨hactive,hkey⟩)
  intro activeDense _
  apply Keeps.bind (confined_points (r := .query _ _ _ _) ⟨hscreening,hkey⟩)
  intro screeningDense _
  apply Keeps.bind (confined_points (r := .query _ _ _ _) ⟨hactive,hkey⟩)
  intro activeSparse _
  apply Keeps.bind (confined_points (r := .query _ _ _ _) ⟨hscreening,hkey⟩)
  intro screeningSparse _
  exact confined_raising _

theorem confined_discoverCandidates {content : ContentPreparationResult}
    (hcontent : ScopedContent s x content) :
    Confined s x (fun _ => True) (discoverCandidates s content) := by
  apply (confined_provider _).bind
  intro reply _
  apply (confined_external providerError reply).bind
  intro queries _
  apply Keeps.bind (confined_require _ _)
  intro _ _
  apply Keeps.bind (V := fun _ => True)
  · refine Keeps.foldl (W := fun _ => True) (fun found _ chunk hchunk => ?_) trivial
    exact confined_queryChunk hcontent.collection found
      (hcontent.points _ (List.of_mem_zip hchunk).1)
  intro found _
  apply Keeps.bind confined_any
  intro context _
  exact Keeps.bind (confined_raising _) fun _ _ => Keeps.pure trivial

theorem confined_persistRevisionArtifact (documentId revisionId : Uuid) (kind : String)
    (material : ArtifactMaterial) :
    Confined s x (fun _ => True) (persistRevisionArtifact documentId revisionId kind material) := by
  apply Keeps.bind confined_any
  intro sequence _
  apply (confined_files _).bind
  intro artifact _
  apply Grants.tryCatch confined_any
  intro e
  exact Keeps.bind (confined_files _) fun _ _ => Grants.fail

theorem confined_persistFormatterExchanges (documentId revisionId : Uuid)
    (exchanges : List ProtectedExchange) :
    Confined s x (fun _ => True) (persistFormatterExchanges documentId revisionId exchanges) :=
  Keeps.forEach fun _ _ => confined_persistRevisionArtifact documentId revisionId _ _

theorem confined_persistFailedFormatterExchanges (documentId : Uuid)
    (exchanges : List ProtectedExchange) :
    Confined s x (fun _ => True) (persistFailedFormatterExchanges documentId exchanges) :=
  confined_either (Keeps.pure trivial)
    (Keeps.bind confined_any fun _ _ => confined_persistFormatterExchanges _ _ exchanges)

theorem confined_classifyCandidate (h : PreparationHandle) (candidateId : Uuid)
    (incoming candidate : List SourceExcerpt) (kind : EvidenceKind) :
    Confined s x (fun _ => True) (classifyCandidate s h candidateId incoming candidate kind) := by
  apply (confined_provider _).bind
  intro reply _
  split
  · exact Keeps.pure trivial
  · exact Grants.fail
  · exact Keeps.bind (confined_persistRevisionArtifact _ _ _ _) fun _ _ => confined_lift _

theorem confined_reviewNext (h : PreparationHandle) (found : Advisory)
    (item : (CandidateDiscovery × Uuid) × ℕ) :
    Confined s x (fun _ => True) (reviewNext s h found item) := by
  apply confined_either (Keeps.pure trivial)
  apply Keeps.bind (V := fun _ => True)
  · apply Keeps.bind confined_any
    intro excerpts _
    apply Keeps.bind (confined_classifyCandidate _ _ _ _ _)
    intro a _
    apply Keeps.bind (confined_classifyCandidate _ _ _ _ _)
    intro b _
    exact Keeps.pure trivial
  intro records _
  exact Keeps.pure trivial

theorem confined_classifyCandidates (h : PreparationHandle)
    (discoveries : List CandidateDiscovery) (ids : List Uuid) :
    Confined s x (fun _ => True) (classifyCandidates s h discoveries ids) := by
  apply Keeps.bind (confined_require _ _)
  intro _ _
  apply confined_either (Keeps.pure trivial)
  apply Keeps.bind (confined_require _ _)
  intro _ _
  exact Keeps.foldl (fun found _ item _ => confined_reviewNext h found item) trivial

/-! ### Preflight -/

theorem confined_sealContent (hlocked : x.documentId ∈ x.lockedDocumentIds)
    {content : ContentPreparationResult} (hcontent : ScopedContent s x content)
    (exchanges : List ProtectedExchange) :
    Confined s x (fun _ => True) (sealContent s content exchanges) := by
  apply Keeps.bind (confined_persistFormatterExchanges _ _ _)
  intro _ _
  apply Keeps.bind (confined_writeScreeningPoints hlocked hcontent.toOwnContent)
  intro _ _
  apply Keeps.bind confined_any
  intro _ _
  apply Keeps.bind (confined_discoverCandidates hcontent)
  intro discoveries _
  apply Keeps.bind (confined_stage confined_any)
  intro ids _
  apply Keeps.bind confined_any
  intro _ _
  apply Keeps.bind (confined_classifyCandidates _ _ _)
  intro advisory _
  apply Keeps.bind (confined_stage confined_any)
  intro _ _
  apply Keeps.bind confined_any
  intro _ _
  apply Keeps.bind (confined_stage confined_any)
  intro prepared _
  exact confined_any

theorem confined_failSealing (revisionId : Uuid) (e : ServiceError) :
    Confined s x (fun _ => True) (failSealing revisionId e) := by
  apply Keeps.bind (confined_attempt (confined_stage confined_any))
  intro saved _
  split
  · exact Grants.fail
  · exact confined_either Grants.fail Grants.fail
  · exact Grants.fail

theorem confined_runPreflight (hlocked : x.documentId ∈ x.lockedDocumentIds) :
    Confined s x (fun _ => True) (runPreflight s enc x.documentId) := by
  apply Keeps.bind confined_any
  intro snapshot _
  apply (confined_files _).bind
  intro present _
  apply Keeps.bind (confined_require _ _)
  intro _ _
  apply Keeps.bind (confined_lift _)
  intro collection _
  apply Keeps.bind (confined_require _ _)
  intro _ _
  apply Keeps.bind confined_any
  intro _ _
  apply Keeps.bind (confined_prepareRevisionContent _ _)
  intro y hy
  obtain ⟨exchanges,prepared⟩ := y
  cases prepared with
  | error e =>
    apply Keeps.bind (confined_persistFailedFormatterExchanges _ _)
    intro _ _
    cases e with
    | preparation code message => exact confined_either confined_any Grants.fail
    | _ => exact Grants.fail
  | ok content =>
    apply Keeps.bind confined_any
    intro _ _
    exact Grants.tryCatch (confined_sealContent hlocked (hy content rfl) exchanges)
      fun e => confined_failSealing _ e

/-! ### Deletion and publication -/

theorem confined_onOutbox {outbox : Option OutboxKey} {f : OutboxKey → Prog Unit}
    (h : ∀ k, Confined s x (fun _ => True) (f k)) :
    Confined s x (fun _ => True) (onOutbox outbox f) := by
  cases outbox with
  | none => exact Keeps.pure trivial
  | some k => exact h k

theorem confined_deletePoints {id : Uuid} (hid : id ∈ x.lockedDocumentIds)
    (revisionId : Option Uuid) (target : IndexTarget) {c : Text 255} (hc : InScope s x c)
    (deleting verifying : DeletionPhase) :
    Confined s x (fun _ => True) (deletePoints id revisionId target c deleting verifying) := by
  apply Keeps.bind confined_any
  intro _ _
  apply Keeps.bind (confined_onOutbox fun _ => confined_any)
  intro _ _
  apply Keeps.bind (confined_points (r := .delete c id) ⟨hc,hid⟩)
  intro _ _
  apply Keeps.bind (confined_onOutbox fun _ => confined_any)
  intro _ _
  apply Keeps.bind confined_any
  intro _ _
  apply Keeps.bind (confined_verifyDocumentZero hc hid)
  intro _ _
  exact confined_any

theorem confined_purgeDocumentContent (id : Uuid) (allowMissing : Bool) :
    Confined s x (fun _ => True) (purgeDocumentContent id allowMissing) := by
  apply Keeps.bind confined_any
  intro b _
  apply Keeps.bind (V := fun _ => True)
  · exact Grants.tryCatch (Keeps.forEach fun _ _ => confined_files _) fun _ => Grants.fail
  intro _ _
  exact Keeps.bind (confined_files _) fun _ _ => confined_any

theorem confined_runDeletionPhases {id : Uuid} (hid : id ∈ x.lockedDocumentIds) :
    Confined s x (fun _ => True) (runDeletionPhases s id) := by
  apply Keeps.bind (confined_catalog (r := .deletionCheckpoint id)
    (V := fun a => InScope s x a.2.1 ∧ InScope s x a.2.2)
    fun a ha => ⟨Or.inr ha.1.1,Or.inl ha.1.2⟩)
  rintro ⟨revisionId,active,screening⟩ ⟨hactive,hscreening⟩
  apply Keeps.bind confined_any
  intro _ _
  apply Keeps.bind (confined_require _ _)
  intro _ _
  apply Keeps.bind confined_any
  intro flags _
  apply Keeps.bind (confined_either (Keeps.pure trivial)
    (confined_deletePoints hid revisionId .active hactive _ _))
  intro _ _
  apply Keeps.bind (confined_either (Keeps.pure trivial)
    (confined_deletePoints hid revisionId .screening hscreening _ _))
  intro _ _
  apply Keeps.bind (confined_either (Keeps.pure trivial)
    (Keeps.bind confined_any fun _ _ => confined_purgeDocumentContent id _))
  intro _ _
  exact confined_either (Keeps.pure trivial) (Keeps.bind confined_any fun _ _ => confined_any)

theorem confined_runDelete (hlocked : x.documentId ∈ x.lockedDocumentIds) :
    Confined s x (fun _ => True) (runDelete s x.documentId) := by
  apply Keeps.bind confined_any
  intro snapshot _
  apply Keeps.bind (confined_require _ _)
  intro _ _
  exact confined_runDeletionPhases hlocked

theorem confined_activatePoints (hlocked : x.documentId ∈ x.lockedDocumentIds)
    (revisionId : Uuid) {active : Text 255} (hactive : InScope s x active) {ps : List ChunkPoint}
    (hps : ∀ p ∈ ps, OwnPoint s x p) :
    Confined s x (fun _ => True) (activatePoints x.documentId revisionId active ps) := by
  apply Keeps.bind confined_any
  intro _ _
  apply Keeps.bind confined_any
  intro _ _
  apply Keeps.bind (confined_upsert hactive hps _ _)
  intro _ _
  apply Keeps.bind confined_any
  intro _ _
  apply Keeps.bind (confined_verifyPreparedPoints hlocked hactive hps _ _)
  intro _ _
  apply Keeps.bind (confined_points (r := .setPayload active _ revisionId) ⟨hactive,rfl⟩)
  intro _ _
  apply Keeps.bind (confined_verifyPreparedPoints hlocked hactive hps _ _)
  intro _ _
  exact Keeps.bind confined_any fun _ _ => confined_any

theorem confined_removeScreeningPoints (hlocked : x.documentId ∈ x.lockedDocumentIds)
    (revisionId : Uuid) :
    Confined s x (fun _ => True) (removeScreeningPoints s x.documentId revisionId) := by
  have hscreening : InScope s x s.screening := Or.inl rfl
  apply Keeps.bind confined_any
  intro _ _
  apply Keeps.bind confined_any
  intro _ _
  apply Keeps.bind (confined_points (r := .delete s.screening _) ⟨hscreening,hlocked⟩)
  intro _ _
  apply Keeps.bind confined_any
  intro _ _
  apply Keeps.bind (confined_verifyDocumentZero hscreening hlocked)
  intro _ _
  exact confined_any

theorem confined_publishRevision (hlocked : x.documentId ∈ x.lockedDocumentIds)
    (revisionId : Uuid) :
    Confined s x (fun _ => True) (publishRevision s x.documentId revisionId) := by
  apply Keeps.bind (confined_catalog (r := .publicationBinding revisionId)
    (V := fun a => InScope s x a.1) fun _ ha => Or.inr ha.1)
  rintro ⟨active,expected⟩ hactive
  apply Keeps.bind (confined_stage (confined_catalog (r := .reconstructChunkPoints revisionId true)
    (V := fun ps => ∀ p ∈ ps, OwnPoint s x p) fun _ ha => ha.1))
  intro ps hps
  apply Keeps.bind (confined_require _ _)
  intro _ _
  apply Keeps.bind (confined_require _ _)
  intro _ _
  apply Keeps.bind (confined_activatePoints hlocked revisionId hactive hps)
  intro _ _
  apply Keeps.bind (confined_removeScreeningPoints hlocked revisionId)
  intro _ _
  exact confined_any

theorem confined_runPublish (hlocked : x.documentId ∈ x.lockedDocumentIds) :
    Confined s x (fun _ => True) (runPublish s x.documentId) := by
  apply Keeps.bind (confined_catalog (r := .operationSnapshot)
    (V := fun a => ∀ id, a.replacementTargetDocumentId = some id → id ∈ x.lockedDocumentIds)
    fun a ha id hid => (ha.1.2.2 id).2 (Or.inr hid))
  intro snapshot htarget
  apply Keeps.bind (confined_require _ _)
  intro _ _
  apply Keeps.bind (confined_lift _)
  intro revisionId _
  cases hreplaced : snapshot.replacementTargetDocumentId with
  | none => exact confined_publishRevision hlocked revisionId
  | some target =>
    exact Keeps.bind (confined_runDeletionPhases (htarget target hreplaced)) fun _ _ =>
      confined_publishRevision hlocked revisionId

/-! ### The whole turn -/

theorem confined_dispatch (hlocked : x.documentId ∈ x.lockedDocumentIds) :
    Confined s x (fun _ => True) (dispatch s enc x) := by
  unfold dispatch
  split
  · exact confined_runPreflight hlocked
  · exact confined_runPublish hlocked
  · exact confined_runDelete hlocked

theorem confined_slotTurn (hlocked : x.documentId ∈ x.lockedDocumentIds) (K : Knowledge) :
    Program.Follows (confinement s x) (fun _ _ => True) (slotTurn s enc x) K := by
  apply Program.Follows.tryCatch (Q := fun _ _ => True) _ (fun _ _ _ => trivial)
  · intro e K _
    exact Program.Follows.request trivial fun _ _ => trivial
  · apply Program.Follows.finally_ (Q := fun _ _ => True)
    · have hwork : Confined s x (fun _ => True) ((dispatch s enc x).tryCatch fun e =>
          if e = .leaseLost then .pure () else catalog (.failOperation e)) :=
        Grants.tryCatch (confined_dispatch hlocked)
          fun _ => confined_either (Keeps.pure trivial) confined_any
      exact (hwork K (Set.empty_subset K)).mono fun _ _ _ => trivial
    · intro y K _
      apply Program.Follows.request trivial
      intro z _
      cases z <;> trivial

/-! ### Every run -/

/-- The threads of a world go on with confined programs. -/
def ThreadsConfined (s : Settings) (w : World) : Prop :=
  ∀ slot t, w.slots slot = some t →
    ∃ K, Program.Follows (confinement s t.claimed) (fun _ _ => True) t.program K

variable {w w' : World} {e : Event} {P : World → Event → Prop}

theorem ThreadsConfined.same (h : ThreadsConfined s w) (hslots : w'.slots = w.slots) :
    ThreadsConfined s w' := by
  intro slot t ht
  rw [hslots] at ht
  exact h slot t ht

theorem ThreadsConfined.set (h : ThreadsConfined s w) (hslots : w'.slots = w.slots)
    {slot : Slot} {claimed : ClaimedOperation} {p : Prog Unit} {K : Knowledge}
    (hp : Program.Follows (confinement s claimed) (fun _ _ => True) p K) :
    ThreadsConfined s (w'.setSlot slot (World.resume claimed p)) := by
  intro slot' t ht
  simp only [World.setSlot, Function.update_apply] at ht
  split at ht
  · obtain rfl := resume_eq_some ht
    exact ⟨K,hp⟩
  · exact h.same hslots slot' t ht

theorem commit_slots {y : Outcome Catalog} (h : w.commit y = some w') : w'.slots = w.slots := by
  obtain ⟨c,-,rfl⟩ := commit_ok h
  rfl

/-- The handle of a begun preparation carries the collection of the claimed document. -/
theorem exec_keyed {i : Input} {σ σ' : Shared} {r : Request}
    {a : Except ServiceError r.Response} (hclaimed : Claimed x σ.catalog)
    (h : exec s enc x.ref i σ r = some (a,σ')) : keyed x r a := by
  cases r with
  | catalog r =>
    rcases exec_catalog h with ⟨b,c,hrun,rfl,-⟩ | ⟨e,rfl,-⟩
    · cases r with
      | beginPreparation identity =>
        simp only [CatalogRequest.run, onDocument, beginPreparation, bind_eq_ok, orRaise_eq_ok,
          require_eq_ok, exists_const, Prod.exists, pure_eq_ok, Prod.mk.injEq] at hrun
        obtain ⟨d,hd,b',d',⟨-,rfl,-⟩,rfl,-⟩ := hrun
        obtain ⟨d₁,o,hf⟩ := hclaimed
        have hid : d.id = x.documentId := Catalog.id_of_document? hd
        cases Table.eq_of_key_eq hf.document (Catalog.mem_of_document? hd)
          (hf.documentId.trans hid.symm)
        exact hf.collection
      | _ => trivial
    · cases r <;> trivial
  | points r => cases r <;> trivial
  | files r => cases r <;> trivial
  | provider r => cases r <;> trivial
  | release y => trivial
  | raise e => trivial

/-- What an event leaves in the slots. -/
theorem ThreadsConfined.apply {know : Slot → Knowledge} (h : ThreadsConfined s w)
    (hw : WorldInv s True w know) (happly : w.apply s enc e = some w') :
    ThreadsConfined s w' := by
  cases e with
  | upload y committed =>
    obtain ⟨m,-,rfl⟩ := upload_ok happly
    exact h.same rfl
  | decide y => exact h.same (commit_slots happly)
  | retry id actor => exact h.same (commit_slots happly)
  | delete id actor => exact h.same (commit_slots happly)
  | claim slot =>
    obtain ⟨-,claimed,p,c,hclaim,rfl⟩ := claim_ok happly
    obtain ⟨d,o,o',hd,ho,-,hx,-⟩ := claimNext_ok hw.catalog hclaim
    have hlocked : claimed.documentId ∈ claimed.lockedDocumentIds := by
      rw [hx]
      exact mem_lockedDocuments.2 (Or.inl
        ((hw.catalog.documents d hd).operations.valid o ho).document.symm)
    exact h.set rfl (confined_slotTurn hlocked base)
  | work slot i =>
    obtain ⟨claimed,r,k,a,σ,hslot,hexec,-,rfl⟩ := work_ok happly
    obtain ⟨hclaimed,-,hp,-⟩ := hw.threads slot _ hslot
    have hanswers := (exec_change hw.catalog hclaimed hp
      (fun (_ : FailureCode) _ => trivial) hexec).2.2
    obtain ⟨K,-,hrest⟩ := h slot _ hslot
    exact h.set rfl (hrest a ⟨hanswers,exec_keyed hclaimed hexec⟩)
  | recoverLeases =>
    cases happly
    exact h.same rfl
  | renewLeases =>
    cases happly
    exact h.same rfl
  | wait n =>
    cases happly
    exact h
  | restart =>
    cases happly
    intro slot t ht
    cases ht

theorem ReachableBy.confined (h : ReachableBy s enc P w) : ThreadsConfined s w := by
  induction h with
  | initial =>
    intro slot t ht
    cases ht
  | @step w w' e h _ hstep ih =>
    obtain ⟨know,hw⟩ : ∃ know, WorldInv s True w know := h.inv fun _ _ _ _ => trivial
    unfold World.step at hstep
    obtain ⟨w₁,happly,rfl⟩ := Option.map_eq_some_iff.1 hstep
    exact (ih.apply hw happly).same rfl

/-! ### Collections -/

/-- The collection that a call addresses. -/
def collectionOf : PointRequest → Text 255
  | .upsert c _ | .setPayload c _ _ | .count c _ | .delete c _ | .retrieve c _
  | .query c _ _ _ => c

theorem Addresses.inScope {r : PointRequest} (h : Addresses s x r) :
    InScope s x (collectionOf r) := by
  cases r <;> exact h.1

/-- The names for which the configuration demands a grant from the token. -/
def grantedCollections (s : Settings) : Finset Unicode.Str :=
  AccessToken.allowedCollections
    ((s.collections.filter (·.enabled)).map fun d => Unicode.str d.qdrantCollectionName.1)
    (Unicode.str s.screening.1)

theorem InScope.granted {c : Text 255} (h : InScope s x c) :
    Unicode.str c.1 ∈ grantedCollections s := by
  unfold grantedCollections AccessToken.allowedCollections
  rw [List.mem_toFinset, List.mem_append]
  rcases h with rfl | h
  · exact Or.inr List.mem_cons_self
  · obtain ⟨d,hd,rfl⟩ := Option.map_eq_some_iff.1 h
    have henabled := List.find?_some hd
    have hmem : d ∈ s.collections.filter (·.enabled) := by
      rw [List.mem_filter]
      refine ⟨Settings.enabledCollection?_mem hd,?_⟩
      rw [Bool.and_eq_true] at henabled
      exact henabled.2
    exact Or.inl (List.mem_map_of_mem (f := fun d => Unicode.str d.qdrantCollectionName.1) hmem)

/-! ### Documents -/

/-- The call names the document, or a point of it. -/
def mentions : PointRequest → Uuid → Prop
  | .upsert _ points, id => ∃ p ∈ points, p.chunk.documentId = id
  | .retrieve _ ids, id => ∃ i ∈ ids, i.documentId = id
  | .setPayload _ d _, id | .count _ d, id | .delete _ d, id => d = id
  | .query _ _ _ _, _ => False

/-- The call writes points. -/
def writes : PointRequest → Prop
  | .upsert _ _ | .setPayload _ _ _ => True
  | _ => False

theorem Addresses.locked {r : PointRequest} (h : Addresses s x r)
    (hlocked : x.documentId ∈ x.lockedDocumentIds) {id : Uuid} (hid : mentions r id) :
    id ∈ x.lockedDocumentIds := by
  cases r with
  | upsert c points =>
    obtain ⟨p,hp,rfl⟩ := hid
    rw [h.2 p hp]
    exact hlocked
  | retrieve c ids =>
    obtain ⟨i,hi,rfl⟩ := hid
    rw [h.2 i hi]
    exact hlocked
  | setPayload c d revision =>
    obtain rfl := hid
    rw [h.2]
    exact hlocked
  | count c d =>
    obtain rfl := hid
    exact h.2
  | delete c d =>
    obtain rfl := hid
    exact h.2
  | query c v f limit => exact hid.elim

theorem Addresses.own {r : PointRequest} (h : Addresses s x r) (hr : writes r) {id : Uuid}
    (hid : mentions r id) : id = x.documentId := by
  cases r with
  | upsert c points =>
    obtain ⟨p,hp,rfl⟩ := hid
    exact h.2 p hp
  | setPayload c d revision =>
    obtain rfl := hid
    exact h.2
  | retrieve c ids => exact hr.elim
  | count c d => exact hr.elim
  | delete c d => exact hr.elim
  | query c v f limit => exact hr.elim

/-- A search is for points of the logical collection. -/
def Searches (key : CollectionKey) : PointRequest → Prop
  | .query _ _ f _ => f.collectionKey = key
  | _ => True

theorem Addresses.searches {r : PointRequest} (h : Addresses s x r) :
    Searches x.collectionKey r := by
  cases r with
  | query c v f limit => exact h.2
  | _ => trivial

/-- A collection that holds points of the document: the screening collection, or the active one of
its logical collection. -/
def Houses (s : Settings) (d : Document) (c : Text 255) : Prop :=
  c = s.screening ∨ activeName? s d.intake.collectionKey = some c

/-- In every order of steps, the next call of a worker to Qdrant addresses the screening collection
or the active collection of its own document, and the token of the service grants that collection;
a search is for the logical collection of that document. What the call writes are points of the
own document, and every document of the catalog that it names has its points there, and is the own
one or is being deleted. -/
theorem worker_calls_confined (h : Reachable s enc w) {slot : Slot} {claimed : ClaimedOperation}
    {r : PointRequest} {k : Except ServiceError r.Response → Prog Unit}
    (hslot : w.slots slot = some ⟨claimed,.call (.points r) k⟩) :
    (∃ d, d ∈ w.shared.catalog.documents ∧ d.id = claimed.documentId ∧
      Houses s d (collectionOf r) ∧ Searches d.intake.collectionKey r) ∧
    Unicode.str (collectionOf r).1 ∈ grantedCollections s ∧
    (writes r → ∀ id, mentions r id → id = claimed.documentId) ∧
    ∀ d, d ∈ w.shared.catalog.documents → mentions r d.id → Houses s d (collectionOf r) ∧
      (d.id = claimed.documentId ∨ (deletionState d.state = true ∧ ¬ writes r)) := by
  obtain ⟨K,haddresses,-⟩ := h.confined slot _ hslot
  obtain ⟨know,hw⟩ : ∃ know, WorldInv s True w know := h.inv fun _ _ _ _ => trivial
  obtain ⟨hclaimed,hlocked,-,-⟩ := hw.threads slot _ hslot
  have hscope : InScope s claimed (collectionOf r) := Addresses.inScope haddresses
  have houses : ∀ {d}, d.intake.collectionKey = claimed.collectionKey →
      Houses s d (collectionOf r) := by
    intro d hd
    unfold Houses
    rw [hd]
    exact hscope
  refine ⟨?_,hscope.granted,fun hwrites id => Addresses.own haddresses hwrites,
    fun d hd hmentions => ?_⟩
  · obtain ⟨d,hd,hid,-⟩ := Claimed.document hclaimed
    have hmem : d.id ∈ claimed.lockedDocumentIds := by
      rw [hid]
      exact hlocked
    have hkey := (hclaimed.locks hw.catalog hd hmem).1
    have hsearches : Searches d.intake.collectionKey r := by
      rw [hkey]
      exact Addresses.searches haddresses
    exact ⟨d,hd,hid,houses hkey,hsearches⟩
  · have hmem := Addresses.locked haddresses hlocked hmentions
    obtain ⟨hcollection,hstate⟩ := hclaimed.locks hw.catalog hd hmem
    refine ⟨houses hcollection,?_⟩
    rcases hstate with hown | hdeleting
    · exact Or.inl hown
    · by_cases hwrites : writes r
      · exact Or.inl (Addresses.own haddresses hwrites hmentions)
      · exact Or.inr ⟨hdeleting,hwrites⟩

/-- The request deletes points. -/
def deletesPoints : Request → Bool
  | .points (.delete _ _) => true
  | _ => false

/-- The program deletes points next. -/
def aboutToDelete : Prog Unit → Bool
  | .call (.points (.delete _ _)) _ => true
  | _ => false

/-- A preflight is about to clear the screening collection of its document. -/
theorem worker_calls_confined_screening : ∃ (w : World) (claimed : ClaimedOperation)
    (c : Text 255) (id : Uuid) (k : Except ServiceError Unit → Prog Unit),
    w.slots .first = some ⟨claimed,.call (.points (.delete c id)) k⟩ ∧
    Unicode.str c.1 ∈ grantedCollections booksSettings ∧
    ∃ d, d ∈ w.shared.catalog.documents ∧ d.id = claimed.documentId ∧
      Houses booksSettings d c := by
  obtain ⟨w,hw,htest⟩ := play_any booksSettings plainEncoding (fun _ _ => True)
    [.act (uploadOf "a"),.act (.claim .first),.turn .first smoothly deletesPoints]
    (fun w => (w.slots .first).any fun t => aboutToDelete t.program)
    (fun _ _ _ => trivial) (fun _ _ _ => trivial) (by decide +kernel)
  obtain ⟨⟨claimed,program⟩,hslot,hdeletes⟩ := (Option.any_eq_true _ _).1 htest
  cases program with
  | pure a => cases hdeletes
  | fail e => cases hdeletes
  | call r k =>
    cases r with
    | points r =>
      cases r with
      | delete c id =>
        obtain ⟨⟨d,hd,hid,hhouses,-⟩,hgranted,-⟩ := worker_calls_confined hw hslot
        exact ⟨w,claimed,c,id,k,hslot,hgranted,d,hd,hid,hhouses⟩
      | upsert | setPayload | count | retrieve | query => cases hdeletes
    | catalog | files | provider | release | raise => cases hdeletes

end Lifecycle
end PdfBridge
