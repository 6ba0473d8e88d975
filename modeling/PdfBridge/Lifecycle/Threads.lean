import PdfBridge.Lifecycle.Protocol

/-! Every worker thread follows its protocol, whatever the providers, Qdrant, the storage root
and the catalog answer. -/
namespace PdfBridge
namespace Lifecycle
open Worker Preparation Program

variable {s : Settings} {enc : Encoding} {x : ClaimedOperation} {F : Knowledge} {α β : Type}

/-! ### Single requests -/

theorem grants_request {r : Request} {V : r.Response → Prop} {G : r.Response → Knowledge}
    (hp : ∀ K, F ⊆ K → permits s x r K) (hkeep : ∀ f ∈ F, ∀ ok, ¬ lost s x r ok f)
    (hv : ∀ a, answers s x r (.ok a) → V a)
    (hg : ∀ a, ∀ f ∈ G a, ∀ K, F ⊆ K → gained s x K r (.ok a) f) :
    Grants (protocol s x) F V G (call r) := by
  refine Grants.request hp fun K hK a ha => ⟨fun f hf => Or.inr ⟨hK hf,hkeep f hf _⟩,?_⟩
  rintro a rfl
  exact ⟨hv a ha,fun f hf => Or.inl (hg a f hf K hK)⟩

theorem keeps_request {r : Request} {V : r.Response → Prop}
    (hp : ∀ K, F ⊆ K → permits s x r K) (hkeep : ∀ f ∈ F, ∀ ok, ¬ lost s x r ok f)
    (hv : ∀ a, answers s x r (.ok a) → V a) : Keeps (protocol s x) F V (call r) :=
  grants_request hp hkeep hv fun _ _ hf => hf.elim

/-- No catalog request that leaves the operation open loses anything but a written artifact. -/
def Settled (F : Knowledge) : Prop := ∀ a, .written a ∉ F

theorem keeps_catalog {r : CatalogRequest} {V : r.Response → Prop} (hF : Settled F)
    (hq : ∀ ok, ¬ closes x r ok) (hp : ∀ K, F ⊆ K → permitsCatalog s x K r)
    (hv : ∀ a, answers s x (.catalog r) (.ok a) → V a) :
    Keeps (protocol s x) F V (catalog r) := by
  refine keeps_request hp (fun f hf ok hl => ?_) hv
  rcases hl with ⟨hc,-⟩ | ⟨id,a,-,-,rfl⟩
  · exact hq ok hc
  · exact hF a hf

theorem grants_catalog {r : CatalogRequest} {V : r.Response → Prop}
    {G : r.Response → Knowledge} (hF : Settled F) (hq : ∀ ok, ¬ closes x r ok)
    (hp : ∀ K, F ⊆ K → permitsCatalog s x K r)
    (hv : ∀ a, answers s x (.catalog r) (.ok a) → V a)
    (hg : ∀ a, ∀ f ∈ G a, ∀ K, F ⊆ K → gained s x K (.catalog r) (.ok a) f) :
    Grants (protocol s x) F V G (catalog r) := by
  refine grants_request hp (fun f hf ok hl => ?_) hv hg
  rcases hl with ⟨hc,-⟩ | ⟨id,a,-,-,rfl⟩
  · exact hq ok hc
  · exact hF a hf

theorem keeps_provider (r : ProviderRequest) :
    Keeps (protocol s x) F (fun _ => True) (provider r) :=
  keeps_request (fun _ _ => trivial) (fun _ _ _ hl => hl) fun _ _ => trivial

theorem keeps_count (hlive : .live ∈ F) (c : Text 255) (id : Uuid) :
    Grants (protocol s x) F (fun _ => True)
      (fun n => {f | n = 0 ∧ f = .zero c id}) (points (.count c id)) :=
  grants_request (fun _ hK => hK hlive) (fun _ _ _ hl => hl) (fun _ _ => trivial)
    fun _ _ hf _ _ => hf

theorem keeps_retrieve (hlive : .live ∈ F) (c : Text 255) (ids : List ChunkId) :
    Keeps (protocol s x) F (fun _ => True) (points (.retrieve c ids)) :=
  keeps_request (fun _ hK => hK hlive) (fun _ _ _ hl => hl) fun _ _ => trivial

theorem keeps_query (hlive : .live ∈ F) (c : Text 255) (v : QueryVector) (f : CandidateFilter)
    (limit : ℕ) : Keeps (protocol s x) F (fun _ => True) (points (.query c v f limit)) :=
  keeps_request (fun _ hK => hK hlive) (fun _ _ _ hl => hl) fun _ _ => trivial

theorem keeps_raising {V : α → Prop} {a : Outcome α} (h : ∀ v, a = .ok v → V v) :
    Keeps (protocol s x) F V (raising a) := by
  cases a with
  | ok v => exact Keeps.pure (h v rfl)
  | error e =>
    exact Keeps.bind (V := fun _ => True)
      (keeps_request (fun _ _ => trivial) (fun _ _ _ hl => hl) fun _ _ => trivial)
      fun v _ => nomatch v

/-! ### Combinators -/

theorem keeps_attempt {V : α → Prop} {p : Prog α} (h : Keeps (protocol s x) F V p) :
    Keeps (protocol s x) F (fun y => ∀ a, y = .ok a → V a) (attempt p) := by
  refine Grants.tryCatch (h.bind fun a ha => Keeps.pure ?_) fun e => Keeps.pure ?_
  · rintro _ ⟨⟩
    exact ha
  · rintro _ ⟨⟩

theorem keeps_stage {r : CatalogRequest} {V : r.Response → Prop} {e : ServiceError}
    (h : Keeps (protocol s x) F V (catalog r)) : Keeps (protocol s x) F V (stage r e) :=
  Grants.tryCatch h fun _ => Grants.fail

/-- A stretch of preparation keeps `F`, and its value satisfies `V`. -/
def Prepares (s : Settings) (x : ClaimedOperation) (F : Knowledge) (V : α → Prop)
    (p : Stretch α) : Prop :=
  Keeps (protocol s x) F (fun y => ∀ a, y.2 = .ok a → V a) p

theorem Prepares.then_ {V : α → Prop} {W : β → Prop} {p : Stretch α} {f : α → Stretch β}
    (h : Prepares s x F V p) (hf : ∀ a, V a → Prepares s x F W (f a)) :
    Prepares s x F W (p.then_ f) := by
  refine Keeps.bind h fun y hy => ?_
  obtain ⟨exchanges,result⟩ := y
  cases result with
  | error e => exact Keeps.pure fun _ he => nomatch he
  | ok a => exact Keeps.bind (hf a (hy a rfl)) fun z hz => Keeps.pure hz

theorem prepares_step {V : α → Prop} {p : Prog α} (h : Keeps (protocol s x) F V p) :
    Prepares s x F V (step p) :=
  (keeps_attempt h).bind fun _ hy => Keeps.pure hy

theorem keeps_external {V : α → Prop} (toError : ProviderFailure → ServiceError)
    (a : Except ProviderFailure α) (h : ∀ v, a = .ok v → V v) :
    Keeps (protocol s x) F V (external toError a) := by
  cases a with
  | ok v => exact Keeps.pure (h v rfl)
  | error e => exact Grants.fail

theorem prepares_checkpoint {V : α → Prop} {phase : OperationPhase} {p : Stretch α}
    (hF : Settled F) (hlive : .live ∈ F)
    (hphase : Intake.allowedPhase x.operationType false phase = true)
    (h : Prepares s x F V p) : Prepares s x F V (checkpoint phase p) :=
  Keeps.bind (keeps_catalog (r := .setPhase phase) (V := fun _ => True) hF (fun _ hc => hc)
    (fun _ hK => ⟨hK hlive,hphase⟩) fun _ _ => trivial) fun _ _ => h

theorem prepares_captured {p : Prog (Captured α)} (h : Keeps (protocol s x) F (fun _ => True) p) :
    Prepares s x F (fun _ => True) (captured p) :=
  h.bind fun _ _ => Keeps.pure fun _ _ => trivial

/-! ### Preflight -/

/-- What a thread knows from its claim until its operation ends. -/
def base : Knowledge := {.live,.held}

theorem live_mem_base : .live ∈ base := by simp [base]
theorem held_mem_base : .held ∈ base := by simp [base]
theorem settled_base : Settled base := by simp [Settled, base]

/-- How a thread leaves its operation: it still holds the claim, and an exception leaves the
operation open. -/
def Ends : Except ServiceError α → Knowledge → Prop := fun y K =>
  .held ∈ K ∧ ∀ e, y = .error e → base ⊆ K

section Preflight
variable (hx : x.operationType = .preflight)
include hx

theorem keeps_setPhase {phase : OperationPhase}
    (hphase : Intake.preflightOperationPhases phase = true) :
    Keeps (protocol s x) base (fun _ => True) (catalog (.setPhase phase)) :=
  keeps_catalog settled_base (fun _ hc => hc)
    (fun _ hK => ⟨hK live_mem_base,by rw [hx]; exact hphase⟩) fun _ _ => trivial

theorem ofPreflight_base {K : Knowledge} {id : Uuid} (hK : base ⊆ K) (hid : id = x.documentId) :
    ofPreflight x K id := ⟨hK live_mem_base,hx,hid⟩

omit hx in
/-- A stage of the preparation, on the revision of the own document. -/
theorem keeps_preflight {r : CatalogRequest} (hq : ∀ ok, ¬ closes x r ok)
    (hp : ∀ K, base ⊆ K → permitsCatalog s x K r) :
    Keeps (protocol s x) base (fun _ => True) (catalog r) :=
  keeps_catalog settled_base hq hp fun _ _ => trivial

theorem prepares_formatMarkdownDocument (document : ExtractedDocument) :
    Prepares s x base (fun _ => True) (formatMarkdownDocument document) := by
  have hphase {phase} (h : Intake.preflightOperationPhases phase = true) :
      Intake.allowedPhase x.operationType false phase = true := by rw [hx]; exact h
  refine prepares_checkpoint settled_base live_mem_base (hphase rfl) ?_
  refine Prepares.then_ (V := fun _ => True) (prepares_step ((keeps_provider _).bind
    fun a _ => keeps_external _ a fun _ _ => trivial)) fun _ _ => ?_
  refine prepares_checkpoint settled_base live_mem_base (hphase rfl) ?_
  refine Prepares.then_ (V := fun _ => True) (prepares_captured (keeps_provider _))
    fun _ _ => ?_
  exact prepares_checkpoint settled_base live_mem_base (hphase rfl)
    (prepares_captured (keeps_provider _))

theorem prepares_buildBundle (h : PreparationHandle) (pages : List PreparedPage) :
    Prepares s x base (fun _ => True) (buildBundle enc h pages) := by
  have hphase {phase} (h : Intake.preflightOperationPhases phase = true) :
      Intake.allowedPhase x.operationType false phase = true := by rw [hx]; exact h
  refine prepares_checkpoint settled_base live_mem_base (hphase rfl) ?_
  refine Prepares.then_ (V := fun _ => True) (prepares_step ((keeps_provider _).bind
    fun a _ => keeps_external _ a fun _ _ => trivial)) fun chunks _ => ?_
  refine prepares_checkpoint settled_base live_mem_base (hphase rfl) ?_
  refine Prepares.then_ (V := fun _ => True) (prepares_step ((keeps_provider _).bind
    fun a _ => keeps_external _ a fun _ _ => trivial)) fun dense _ => ?_
  refine prepares_checkpoint settled_base live_mem_base (hphase rfl) (prepares_step ?_)
  refine (keeps_provider _).bind fun a _ => ?_
  refine Keeps.bind (V := fun _ => True) (keeps_external _ a fun _ _ => trivial) fun _ _ => ?_
  exact Keeps.lift fun _ _ => trivial

/-- The prepared content belongs to the own document. -/
structure OwnContent (s : Settings) (x : ClaimedOperation) (content : ContentPreparationResult) :
    Prop where
  document : content.handle.documentId = x.documentId
  points : ∀ p ∈ content.points, OwnPoint s x p

theorem prepares_recordContent {h : PreparationHandle} (hid : h.documentId = x.documentId)
    (key : StorageKey) : Prepares s x base (OwnContent s x) (recordContent enc h key) := by
  have hphase {phase} (h : Intake.preflightOperationPhases phase = true) :
      Intake.allowedPhase x.operationType false phase = true := by rw [hx]; exact h
  refine Prepares.then_ (V := fun _ => True) (prepares_step ((keeps_provider _).bind
    fun a _ => keeps_external _ a fun _ _ => trivial)) fun document _ => ?_
  refine prepares_checkpoint settled_base live_mem_base (hphase rfl) ?_
  refine Prepares.then_ (V := fun _ => True) (prepares_step ?_) fun extraction _ => ?_
  · refine (keeps_provider _).bind fun a _ => ?_
    refine Keeps.bind (V := fun _ => True) (keeps_external _ a fun _ _ => trivial)
      fun _ _ => keeps_stage ?_
    exact keeps_preflight (fun _ hc => hc) fun K hK => ofPreflight_base hx hK hid
  refine Prepares.then_ (prepares_formatMarkdownDocument hx document) fun formatted _ => ?_
  refine Prepares.then_ (V := fun _ => True) (prepares_step ?_) fun prepared _ => ?_
  · refine Keeps.bind (V := fun _ => True) (keeps_stage (keeps_preflight (fun _ hc => hc)
      fun K hK => ofPreflight_base hx hK hid)) fun markdown _ => ?_
    refine Keeps.bind (V := fun _ => True) (keeps_stage (keeps_preflight (fun _ hc => hc)
      fun _ hK => hK live_mem_base)) fun pages _ => ?_
    exact Keeps.pure trivial
  refine Prepares.then_ (prepares_buildBundle hx h prepared.2) fun bundle _ =>
    prepares_step ?_
  refine Keeps.bind (V := fun _ => True) (keeps_stage (keeps_preflight (fun _ hc => hc)
    fun K hK => ofPreflight_base hx hK hid)) fun vectors _ => ?_
  refine Keeps.bind (V := fun ps => ∀ p ∈ ps, OwnPoint s x p) (keeps_stage
    (keeps_catalog settled_base (fun _ hc => hc) (fun _ hK => hK live_mem_base)
      fun _ ha => ha)) fun ps hps => ?_
  exact Keeps.pure ⟨hid,hps⟩

theorem keeps_failPreparation (revisionId : Uuid) (code : FailureCode) (message : Text 500) :
    Keeps (protocol s x) base (fun _ => True)
      (Worker.failPreparation revisionId code message) :=
  keeps_stage (keeps_preflight (fun _ hc => hc) fun _ hK => ofPreflight_base hx hK rfl)

theorem prepares_prepareRevisionContent {identity : PreparationIdentity}
    {definition : CollectionDefinition}
    (hdef : s.enabledCollection? x.collectionKey = some definition)
    (hidentity : identity.revision = definition.identity) (key : StorageKey) :
    Prepares s x base (OwnContent s x) (prepareRevisionContent enc identity key) := by
  refine Prepares.then_ (V := fun h : PreparationHandle => h.documentId = x.documentId)
    (prepares_step (keeps_stage (keeps_catalog settled_base (fun _ hc => hc)
      (fun K hK => ⟨ofPreflight_base hx hK rfl,definition,hdef,hidentity⟩) fun _ ha => ha)))
    fun h hid => ?_
  refine Keeps.bind (prepares_recordContent hx hid key) fun y hy => ?_
  split
  · rename_i content hcontent
    refine Keeps.pure ?_
    rintro _ ⟨⟩
    exact hy _ hcontent
  · refine Keeps.bind (keeps_attempt (keeps_failPreparation hx _ _ _)) fun saved _ => ?_
    split
    · exact Keeps.pure fun _ he => nomatch he
    · exact Keeps.pure fun _ he => nomatch he

/-- The row of a written artifact is inserted, or its file is removed again. -/
theorem keeps_insertArtifact (revisionId : Uuid) {a : RevisionArtifact} {K : Knowledge}
    (hK : base ⊆ K) (ha : .written a ∈ K) :
    Follows (protocol s x) (fun _ K => base ⊆ K)
      ((catalog (.insertArtifact revisionId a)).tryCatch fun e =>
        (files (.remove a.storageKey true)).bind fun _ => .fail e) K := by
  refine Follows.tryCatch (Q := fun y K => base ⊆ K ∧ ∀ e, y = .error e → .written a ∈ K)
    (Follows.request ⟨ofPreflight_base hx hK rfl,ha⟩ fun y _ => ⟨?_,?_⟩)
    (fun _ _ hy => hy.1) fun e K hy => ?_
  · intro f hf
    refine Or.inr ⟨hK hf,?_⟩
    rintro (⟨hc,-⟩ | ⟨-,b,-,-,rfl⟩)
    · exact hc
    · exact settled_base b hf
  · rintro e rfl
    refine Or.inr ⟨ha,?_⟩
    rintro (⟨hc,-⟩ | ⟨-,b,-,hok,-⟩)
    · exact hc
    · cases hok
  · refine Follows.bind (Q := fun _ K => base ⊆ K)
      (Follows.request ⟨hy.1 live_mem_base,Or.inl ⟨a,hy.2 e rfl,rfl⟩⟩ fun _ _ f hf => ?_)
      (fun _ _ h => h) (fun _ _ h => h)
    exact Or.inr ⟨hy.1 hf,fun hl => hl⟩

theorem keeps_persistRevisionArtifact {documentId : Uuid} (hid : documentId = x.documentId)
    (revisionId : Uuid) (kind : String) (material : ArtifactMaterial) :
    Keeps (protocol s x) base (fun _ => True)
      (persistRevisionArtifact documentId revisionId kind material) := by
  refine Keeps.bind (V := fun _ => True) (keeps_preflight (fun _ hc => hc)
    fun K hK => hK live_mem_base) fun sequence _ => ?_
  intro K hK
  refine Follows.bind (Q := fun y K => base ⊆ K ∧ ∀ a, y = .ok a → .written a ∈ K)
    (Follows.request (ofPreflight_base hx hK hid) fun y _ => ⟨?_,?_⟩) (fun a K ha => ?_)
    (fun _ _ he => ⟨he.1,fun _ hc => nomatch hc⟩)
  · rintro f hf
    refine Or.inr ⟨hK hf,?_⟩
    rcases hf with rfl | rfl <;> exact fun hl => hl
  · rintro a rfl
    exact Or.inl rfl
  · exact (keeps_insertArtifact hx revisionId ha.1 (ha.2 a rfl)).mono fun _ _ h =>
      ⟨h,fun _ _ => ⟨trivial,Set.empty_subset _⟩⟩

theorem keeps_persistFormatterExchanges {documentId : Uuid} (hid : documentId = x.documentId)
    (revisionId : Uuid) (exchanges : List ProtectedExchange) :
    Keeps (protocol s x) base (fun _ => True)
      (persistFormatterExchanges documentId revisionId exchanges) :=
  Keeps.forEach fun _ _ => keeps_persistRevisionArtifact hx hid revisionId _ _

theorem keeps_persistFailedFormatterExchanges {documentId : Uuid}
    (hid : documentId = x.documentId) (exchanges : List ProtectedExchange) :
    Keeps (protocol s x) base (fun _ => True)
      (persistFailedFormatterExchanges documentId exchanges) := by
  unfold persistFailedFormatterExchanges
  split
  · exact Keeps.pure trivial
  · exact Keeps.bind (V := fun _ => True) (keeps_preflight (fun _ hc => hc)
      fun K hK => hK live_mem_base) fun revisionId _ =>
        keeps_persistFormatterExchanges hx hid revisionId exchanges

/-! Screening points and discovery. -/

omit hx in
theorem keeps_outbox {r : CatalogRequest} {k : OutboxKey} {n : ℕ}
    (hr : r = .beginOutbox k n ∨ r = .completeOutbox k) (hF : Settled F) (hlive : .live ∈ F)
    (hk : k.documentId ∈ x.lockedDocumentIds) :
    Keeps (protocol s x) F (fun _ => True) (catalog r) := by
  rcases hr with rfl | rfl <;>
    exact keeps_catalog hF (fun _ hc => hc) (fun _ hK => ⟨hK hlive,hk⟩) fun _ _ => trivial

omit hx in
/-- A count of zero establishes that no point is left. -/
theorem grants_verifyDocumentZero (hlive : .live ∈ F) (c : Text 255) (id : Uuid) :
    Grants (protocol s x) F (fun _ => True) (fun _ => {.zero c id})
      (verifyDocumentZero c id) := by
  refine Grants.bind (keeps_count hlive c id) fun n _ => ?_
  unfold Program.require
  split
  · rename_i hn
    refine Grants.pure trivial ?_
    rintro f rfl
    exact Or.inr ⟨by simpa using hn,rfl⟩
  · exact Grants.fail

omit hx in
theorem keeps_verifyPreparedPoints (hlive : .live ∈ F) (c : Text 255) (ps : List ChunkPoint)
    (published : Bool) (visibility : Visibility) :
    Keeps (protocol s x) F (fun _ => True) (verifyPreparedPoints c ps published visibility) := by
  refine Keeps.bind (V := fun _ => True) (Keeps.lift fun _ _ => trivial) fun id _ => ?_
  refine Keeps.bind (V := fun _ => True)
    (Grants.mono (keeps_count hlive c id) fun _ _ => ⟨trivial,Set.empty_subset _⟩) fun n _ => ?_
  refine Keeps.bind Keeps.require fun _ _ => ?_
  exact Keeps.bind (keeps_retrieve hlive c _) fun records _ => Keeps.lift fun _ _ => trivial

omit hx in
theorem pointBatch_ok {visibility : Visibility} {message : String} {ps : List ChunkPoint}
    {batch : List Point} (h : pointBatch visibility message ps = .ok batch) :
    batch = ps.map fun p => ⟨p,false,visibility⟩ := by
  simp only [pointBatch, bind_eq_ok, require_eq_ok, exists_const, pure_eq_ok] at h
  obtain ⟨-,_,-,h⟩ := h
  exact h.symm

theorem keeps_upsertScreeningPoints {ps : List ChunkPoint} (hps : ∀ p ∈ ps, OwnPoint s x p) :
    Keeps (protocol s x) base (fun _ => True) (upsertScreeningPoints s.screening ps) := by
  refine Keeps.bind (V := fun batch => batch = ps.map screeningPoint)
    (Keeps.lift fun _ h => pointBatch_ok h) fun batch hbatch => ?_
  refine keeps_request (fun K hK => ⟨hK live_mem_base,Or.inl ⟨hx,rfl,ps,hbatch,hps⟩⟩) ?_
    fun _ _ => trivial
  rintro f (rfl | rfl) _ hl <;> exact hl

theorem keeps_writeScreeningPoints (hlocked : x.documentId ∈ x.lockedDocumentIds)
    {content : ContentPreparationResult} (hcontent : OwnContent s x content) :
    Keeps (protocol s x) base (fun _ => True) (writeScreeningPoints s content) := by
  have houtbox : content.handle.documentId ∈ x.lockedDocumentIds :=
    hcontent.document.symm ▸ hlocked
  refine Keeps.bind (V := fun _ => True)
    (Grants.mono Keeps.require fun _ _ => ⟨trivial,Set.empty_subset _⟩) fun _ _ => ?_
  refine (keeps_setPhase hx rfl).bind fun _ _ => ?_
  refine Keeps.bind (keeps_outbox (Or.inl rfl) settled_base live_mem_base houtbox) fun _ _ => ?_
  refine Keeps.bind (V := fun _ => True) (keeps_request
    (fun K hK => ⟨hK live_mem_base,Or.inl ⟨rfl,hcontent.document⟩⟩) ?_ fun _ _ => trivial)
    fun _ _ => ?_
  · rintro f (rfl | rfl) _ ⟨-,hl⟩ <;> exact hl
  refine Keeps.bind (V := fun _ => True) (Grants.mono
    (grants_verifyDocumentZero live_mem_base _ _) fun _ _ => ⟨trivial,Set.empty_subset _⟩)
    fun _ _ => ?_
  refine Keeps.bind (keeps_upsertScreeningPoints hx hcontent.points) fun _ _ => ?_
  refine Keeps.bind (keeps_verifyPreparedPoints live_mem_base _ _ _ _) fun _ _ => ?_
  exact keeps_outbox (n := 0) (Or.inr rfl) settled_base live_mem_base houtbox

omit hx in
theorem keeps_queryChunk (screening : Text 255) (h : PreparationHandle) (found : Discovery)
    (chunk : ChunkPoint × SparseVector) :
    Keeps (protocol s x) base (fun _ => True) (queryChunk screening h found chunk) := by
  refine Keeps.bind (keeps_query live_mem_base _ _ _ _) fun _ _ => ?_
  refine Keeps.bind (keeps_query live_mem_base _ _ _ _) fun _ _ => ?_
  refine Keeps.bind (keeps_query live_mem_base _ _ _ _) fun _ _ => ?_
  refine Keeps.bind (keeps_query live_mem_base _ _ _ _) fun _ _ => ?_
  exact keeps_raising fun _ _ => trivial

omit hx in
theorem keeps_discoverCandidates (content : ContentPreparationResult) :
    Keeps (protocol s x) base (fun _ => True) (discoverCandidates s content) := by
  refine (keeps_provider _).bind fun queries _ => ?_
  refine Keeps.bind (V := fun _ => True) (keeps_external _ _ fun _ _ => trivial)
    fun queries _ => ?_
  refine Keeps.bind Keeps.require fun _ _ => ?_
  refine Keeps.bind (Keeps.foldl (W := fun _ => True)
    (fun found _ chunk _ => keeps_queryChunk _ _ found chunk) trivial) fun found _ => ?_
  refine Keeps.bind (V := fun _ => True) (keeps_preflight (fun _ hc => hc)
    fun K hK => hK live_mem_base) fun context _ => ?_
  exact Keeps.bind (V := fun _ => True) (keeps_raising fun _ _ => trivial)
    fun _ _ => Keeps.pure trivial

/-! Advisory review. -/

theorem keeps_classifyCandidate {h : PreparationHandle} (hid : h.documentId = x.documentId)
    (candidateId : Uuid) (incoming candidate : List SourceExcerpt) (kind : EvidenceKind) :
    Keeps (protocol s x) base (fun _ => True)
      (classifyCandidate s h candidateId incoming candidate kind) := by
  refine (keeps_provider _).bind fun reply _ => ?_
  split
  · exact Keeps.pure trivial
  · exact Grants.fail
  · refine Keeps.bind (keeps_persistRevisionArtifact hx hid _ _ _) fun _ _ => ?_
    exact Keeps.lift fun _ _ => trivial

theorem keeps_reviewCandidate {h : PreparationHandle} (hid : h.documentId = x.documentId)
    (found : CandidateDiscovery) (candidateId : Uuid) :
    Keeps (protocol s x) base (fun _ => True) (reviewCandidate s h found candidateId) := by
  refine Keeps.bind (V := fun _ => True) (keeps_preflight (fun _ hc => hc)
    fun K hK => hK live_mem_base) fun excerpts _ => ?_
  refine Keeps.bind (keeps_classifyCandidate hx hid _ _ _ _) fun a _ => ?_
  exact Keeps.bind (keeps_classifyCandidate hx hid _ _ _ _) fun b _ => Keeps.pure trivial

/-- The reasons that a review leaves behind. -/
def KnownReasons (x : Advisory) : Prop := x.incompleteReasons ⊆ advisoryReasons

theorem keeps_reviewNext {h : PreparationHandle} (hid : h.documentId = x.documentId)
    {found : Advisory} (hfound : KnownReasons found) (item : (CandidateDiscovery × Uuid) × ℕ) :
    Keeps (protocol s x) base KnownReasons (reviewNext s h found item) := by
  have hbudget : failureCode "advisory_candidate_budget" ∈ advisoryReasons := by
    simp [advisoryReasons]
  have hincomplete : failureCode "advisory_incomplete" ∈ advisoryReasons := by
    simp [advisoryReasons]
  unfold reviewNext
  split
  · refine Keeps.pure ?_
    intro reason hr
    rcases List.mem_append.1 hr with hr | hr
    · exact hfound hr
    · rw [List.mem_singleton.1 hr]
      exact hbudget
  · refine Keeps.bind (keeps_reviewCandidate hx hid _ _) fun records _ => Keeps.pure ?_
    unfold KnownReasons
    simp only
    split
    · exact hfound
    · intro reason hr
      rcases List.mem_append.1 hr with hr | hr
      · exact hfound hr
      · rw [List.mem_singleton.1 hr]
        exact hincomplete

theorem keeps_classifyCandidates {h : PreparationHandle} (hid : h.documentId = x.documentId)
    (discoveries : List CandidateDiscovery) (ids : List Uuid) :
    Keeps (protocol s x) base KnownReasons (classifyCandidates s h discoveries ids) := by
  have hnone : KnownReasons ⟨[],true,[]⟩ := List.nil_subset _
  refine Keeps.bind Keeps.require fun _ _ => ?_
  split
  · exact Keeps.pure hnone
  · refine Keeps.bind Keeps.require fun _ _ => ?_
    exact Keeps.foldl (fun found hfound item _ => keeps_reviewNext hx hid hfound item) hnone

/-! Sealing, and the end of a preflight. -/

omit hx in
/-- A finished stretch of work: it keeps what it knows, or it has ended the operation. -/
theorem Follows.ofKeeps {V : α → Prop} {p : Prog α} (h : Keeps (protocol s x) base V p)
    {K : Knowledge} (hK : base ⊆ K) : Follows (protocol s x) Ends p K :=
  (h K hK).mono fun _ _ hy => ⟨hy.1 held_mem_base,fun _ _ => hy.1⟩

omit hx in
theorem Ends.bind {V : α → Prop} {p : Prog α} {f : α → Prog β}
    (h : Keeps (protocol s x) base V p)
    (hf : ∀ a, V a → ∀ K, base ⊆ K → Follows (protocol s x) Ends (f a) K) {K : Knowledge}
    (hK : base ⊆ K) : Follows (protocol s x) Ends (p.bind f) K :=
  (h K hK).bind (fun a _ ha => hf a (ha.2 a rfl).1 _ ha.1)
    fun _ _ he => ⟨he.1 held_mem_base,fun _ _ => he.1⟩

omit hx in
/-- A request that ends the operation when it succeeds. -/
theorem follows_closer {r : CatalogRequest} {K : Knowledge} (hK : base ⊆ K)
    (hp : permitsCatalog s x K r) (hq : ¬ closes x r false)
    (hw : ∀ id a, r ≠ .insertArtifact id a) : Follows (protocol s x) Ends (catalog r) K := by
  refine Follows.request hp fun y _ => ⟨?_,?_⟩
  · refine Or.inr ⟨hK held_mem_base,?_⟩
    rintro (⟨-,ho⟩ | ⟨id,a,hr,-⟩)
    · exact ho trivial
    · exact hw id a hr
  · rintro e rfl f hf
    refine Or.inr ⟨hK hf,?_⟩
    rintro (⟨hc,-⟩ | ⟨id,a,hr,-⟩)
    · exact hq hc
    · exact hw id a hr

theorem follows_sealContent (hlocked : x.documentId ∈ x.lockedDocumentIds)
    {content : ContentPreparationResult} (hcontent : OwnContent s x content)
    (exchanges : List ProtectedExchange) {K : Knowledge} (hK : base ⊆ K) :
    Follows (protocol s x) Ends (sealContent s content exchanges) K := by
  have hid := hcontent.document
  refine Ends.bind (keeps_persistFormatterExchanges hx hid _ _) (fun _ _ K hK => ?_) hK
  refine Ends.bind (keeps_writeScreeningPoints hx hlocked hcontent) (fun _ _ K hK => ?_) hK
  refine Ends.bind (keeps_setPhase hx rfl) (fun _ _ K hK => ?_) hK
  refine Ends.bind (keeps_discoverCandidates content) (fun discoveries _ K hK => ?_) hK
  refine Ends.bind (keeps_stage (keeps_preflight (r := .recordPreflightCandidates content.handle _)
    (fun _ hc => hc)
    fun K hK => ofPreflight_base hx hK hid)) (fun ids _ K hK => ?_) hK
  refine Ends.bind (keeps_setPhase hx rfl) (fun _ _ K hK => ?_) hK
  refine Ends.bind (keeps_classifyCandidates hx hid _ _) (fun advisory hknown K hK => ?_) hK
  refine Ends.bind (keeps_stage (keeps_preflight (r := .appendAdvisoryEvidence content.handle _)
    (fun _ hc => hc)
    fun K hK => ofPreflight_base hx hK hid)) (fun _ _ K hK => ?_) hK
  refine Ends.bind (keeps_setPhase hx rfl) (fun _ _ K hK => ?_) hK
  refine Ends.bind (keeps_stage (keeps_preflight (r := .sealPreparedRevision
    content.handle ⟨true,advisory.complete,_,advisory.incompleteReasons⟩)
    (fun _ hc => hc)
    fun K hK => ⟨ofPreflight_base hx hK hid,hknown⟩)) (fun prepared _ K hK => ?_) hK
  exact follows_closer hK (ofPreflight_base hx hK rfl) (fun hc => by cases hc)
    fun _ _ hc => by cases hc

theorem keeps_failSealing (revisionId : Uuid) (e : ServiceError) :
    Keeps (protocol s x) base (fun _ => True) (failSealing revisionId e) := by
  refine Keeps.bind (keeps_attempt (keeps_failPreparation hx _ _ _)) fun saved _ => ?_
  split
  · exact Grants.fail
  · split <;> exact Grants.fail
  · exact Grants.fail

theorem follows_runPreflight (hlocked : x.documentId ∈ x.lockedDocumentIds) {K : Knowledge}
    (hK : base ⊆ K) : Follows (protocol s x) Ends (runPreflight s enc x.documentId) K := by
  refine Ends.bind (V := fun a : DocumentWorkSnapshot => a.collectionKey = x.collectionKey)
    (keeps_catalog (r := .preflightSource) settled_base (fun _ hc => hc)
      (fun K hK => hK live_mem_base) fun _ ha => ha) (fun snapshot hkey K hK => ?_) hK
  refine Ends.bind (V := fun _ => True) (keeps_request (r := .files (.isFile _))
    (fun K hK => hK live_mem_base) (fun _ _ _ hl => hl) fun _ _ => trivial)
    (fun present _ K hK => ?_) hK
  refine Ends.bind Keeps.require (fun _ _ K hK => ?_) hK
  refine Ends.bind (V := fun definition =>
      s.enabledCollection? x.collectionKey = some definition)
    (Keeps.lift fun definition h => ?_) (fun definition hdef K hK => ?_) hK
  · rw [orRaise_eq_ok, hkey] at h
    exact h
  refine Ends.bind Keeps.require (fun _ _ K hK => ?_) hK
  refine Ends.bind (keeps_setPhase hx rfl) (fun _ _ K hK => ?_) hK
  refine Ends.bind (prepares_prepareRevisionContent hx hdef rfl _) (fun y hy K hK => ?_) hK
  obtain ⟨exchanges,prepared⟩ := y
  cases prepared with
  | error e =>
    refine Ends.bind (keeps_persistFailedFormatterExchanges hx rfl _) (fun _ _ K hK => ?_) hK
    cases e with
    | preparation code message =>
      show Follows (protocol s x) Ends (if _ then _ else _) K
      split
      · exact follows_closer hK ⟨ofPreflight_base hx hK rfl,by rw [activeName?, hdef]; rfl⟩
          (fun hc => by cases hc) fun _ _ hc => by cases hc
      · exact ⟨hK held_mem_base,fun _ _ => hK⟩
    | _ => exact ⟨hK held_mem_base,fun _ _ => hK⟩
  | ok content =>
    refine Ends.bind (keeps_preflight (r := .bindRevision _) (fun _ hc => hc)
      fun K hK => ofPreflight_base hx hK rfl) (fun _ _ K hK => ?_) hK
    exact (follows_sealContent hx hlocked (hy content rfl) exchanges hK).tryCatch
      (fun _ _ h => h) fun e K he => Follows.ofKeeps (keeps_failSealing hx _ e) (he.2 e rfl)

end Preflight

/-! ### Verified deletion -/

/-- The facts that only the end of the operation takes away. -/
def Fact.lasting : Fact → Prop
  | .live | .held | .unrecorded | .purging _ _ | .tombstoned _ | .publishes _
  | .reconstructed _ _ => True
  | _ => False

/-- Knowledge of an open operation that no call to Qdrant or to the storage root takes away. -/
structure Steady (F : Knowledge) : Prop where
  base : base ⊆ F
  lasting : ∀ f ∈ F, f.lasting

theorem Steady.live (hF : Steady F) : .live ∈ F := hF.base live_mem_base

theorem Steady.settled (hF : Steady F) : Settled F := fun _ ha => hF.lasting _ ha

theorem steady_base : Steady base := ⟨subset_rfl,by rintro f (rfl | rfl) <;> trivial⟩

theorem Steady.union {G : Knowledge} (hF : Steady F) (hG : ∀ f ∈ G, f.lasting) :
    Steady (F ∪ G) where
  base := hF.base.trans Set.subset_union_left
  lasting := fun f hf => hf.elim (hF.lasting f) (hG f)

theorem Fact.lasting.not_aboutPoints {f : Fact} (h : f.lasting) : ¬ f.aboutPoints := by
  cases f <;> simp_all [Fact.lasting, Fact.aboutPoints]

theorem Fact.lasting.not_aboutActive {f : Fact} (h : f.lasting) : ¬ f.aboutActive := by
  cases f <;> simp_all [Fact.lasting, Fact.aboutActive]

/-- A step whose failure ends the whole program. -/
theorem follows_then {V : α → Prop} {G : α → Knowledge} {p : Prog α} {f : α → Prog β}
    {post : Except ServiceError β → Knowledge → Prop} {K : Knowledge}
    (h : Grants (protocol s x) F V G p) (hK : F ⊆ K)
    (hf : ∀ a, V a → ∀ K, F ∪ G a ⊆ K → Follows (protocol s x) post (f a) K)
    (herr : ∀ e K, F ⊆ K → post (.error e) K) : Follows (protocol s x) post (p.bind f) K :=
  (h K hK).bind (fun a K ha => hf a (ha.2 a rfl).1 K (Set.union_subset ha.1 (ha.2 a rfl).2))
    fun e K he => herr e K he.1

section Deletion
variable {id : Uuid}

theorem keeps_deletion {r : CatalogRequest} (hF : Steady F) (hq : ∀ ok, ¬ closes x r ok)
    (hp : ∀ K, F ⊆ K → permitsCatalog s x K r) :
    Keeps (protocol s x) F (fun _ => True) (catalog r) :=
  keeps_catalog hF.settled hq hp fun _ _ => trivial

theorem keeps_onOutbox {outbox : Option OutboxKey} {f : OutboxKey → Prog Unit}
    (h : ∀ k, outbox = some k → Keeps (protocol s x) F (fun _ => True) (f k)) :
    Keeps (protocol s x) F (fun _ => True) (onOutbox outbox f) := by
  cases outbox with
  | none => exact Keeps.pure trivial
  | some k => exact h k rfl

theorem keeps_deletePoints (hF : Steady F) (hclean : cleans x id)
    (hlocked : id ∈ x.lockedDocumentIds) (revisionId : Option Uuid) (target : IndexTarget)
    {c : Text 255} (hc : targetName? s x.collectionKey target = some c)
    (deleting verifying : DeletionPhase) :
    Keeps (protocol s x) F (fun _ => True)
      (deletePoints id revisionId target c deleting verifying) := by
  have hkey : ∀ k, deletionOutbox id revisionId target c = some k →
      k.documentId ∈ x.lockedDocumentIds := by
    intro k hk
    obtain ⟨r,-,rfl⟩ := Option.map_eq_some_iff.1 hk
    exact hlocked
  refine Keeps.bind (keeps_deletion (r := .setDeletionPhase id deleting) hF
    (fun _ hc => hc) fun K hK => ⟨hK hF.live,hclean⟩) fun _ _ => ?_
  refine Keeps.bind (keeps_onOutbox fun k hk =>
    keeps_outbox (Or.inl rfl) hF.settled hF.live (hkey k hk)) fun _ _ => ?_
  refine Keeps.bind (V := fun _ => True) (keeps_request
    (fun K hK => ⟨hK hF.live,Or.inr hclean⟩)
    (fun f hf _ hl => (hF.lasting f hf).not_aboutActive hl.2) fun _ _ => trivial) fun _ _ => ?_
  refine Keeps.bind (keeps_onOutbox fun k hk =>
    keeps_outbox (n := 0) (Or.inr rfl) hF.settled hF.live (hkey k hk)) fun _ _ => ?_
  refine Keeps.bind (keeps_deletion (r := .setDeletionPhase id verifying) hF
    (fun _ hc => hc) fun K hK => ⟨hK hF.live,hclean⟩) fun _ _ => ?_
  -- the count of zero is what the checkpoint records
  refine Grants.bind (grants_verifyDocumentZero hF.live c id) fun _ _ => ?_
  refine keeps_catalog ?_ (fun _ hc => hc) (fun K hK => ⟨⟨hK (Or.inl hF.live),hclean⟩,c,hc,?_⟩)
    fun _ _ => trivial
  · rintro a (ha | ha)
    · exact hF.settled a ha
    · cases ha
  · exact hK (Or.inr rfl)

theorem keeps_purgeDocumentContent (hF : Steady F) (hclean : cleans x id) (allowMissing : Bool) :
    Keeps (protocol s x) F (fun _ => True) (purgeDocumentContent id allowMissing) := by
  refine Grants.bind (V := fun _ => True) (G := fun b => {.purging id b}) (grants_catalog
    (r := .purgeBinding id) hF.settled (fun _ hc => hc) (fun K hK => hK hF.live)
    (fun _ _ => trivial) ?_) fun b _ => ?_
  · rintro b f rfl K -
    rfl
  have hF' : Steady (F ∪ {.purging id b}) := hF.union (by rintro f rfl; trivial)
  have remove : ∀ {F' : Knowledge}, F ∪ {.purging id b} ⊆ F' → ∀ key ∈ b.storageKey :: b.artifactKeys,
      Grants (protocol s x) F' (fun _ => True) (fun _ => {.removed key})
        (files (.remove key allowMissing)) := by
    intro F' hsub key hkey
    refine grants_request (fun K hK => ⟨hK (hsub hF'.live),Or.inr ⟨id,b,hclean,?_,hkey⟩⟩)
      (fun _ _ _ hl => hl) (fun _ _ => trivial) ?_
    · exact hK (hsub (Or.inr rfl))
    · rintro _ f rfl K -
      rfl
  refine Grants.bind (V := fun _ => True) (G := fun _ => {.removed b.storageKey}) ?_ fun _ _ => ?_
  · refine Grants.tryCatch (Grants.bind (remove subset_rfl _ List.mem_cons_self) fun _ _ => ?_)
      fun _ => Grants.fail
    refine Grants.mono (Keeps.forEach fun key hkey => Grants.mono
      (remove Set.subset_union_left key (List.mem_cons_of_mem _ hkey))
      fun _ _ => ⟨trivial,Set.empty_subset _⟩) fun _ _ => ⟨trivial,?_⟩
    exact fun f hf => Or.inl (Or.inr hf)
  refine Grants.bind (V := fun _ => True) (G := fun _ => {.removedArtifacts id})
    (grants_request (r := .files (.removeArtifacts id)) (fun K hK =>
      ⟨⟨hK (Or.inl hF'.live),hclean⟩,b,hK (Or.inl (Or.inr rfl))⟩) (fun _ _ _ hl => hl)
      (fun _ _ => trivial) ?_) fun _ _ => ?_
  · rintro _ f rfl K -
    rfl
  refine keeps_catalog ?_ (fun _ hc => hc) (fun K hK => ⟨⟨?_,hclean⟩,?_,?_,?_⟩) fun _ _ => trivial
  · rintro a ((ha | ha) | ha)
    · exact hF'.settled a ha
    · cases ha
    · cases ha
  · exact hK (Or.inl (Or.inl hF'.live))
  · exact hK (Or.inl (Or.inl (Or.inr rfl)))
  · exact hK (Or.inl (Or.inr rfl))
  · exact hK (Or.inr rfl)

theorem keeps_unless {flag : Bool} {p : Prog Unit}
    (h : Keeps (protocol s x) F (fun _ => True) p) :
    Keeps (protocol s x) F (fun _ => True) (unless_ flag p) := by
  unfold unless_
  split
  · exact Keeps.pure trivial
  · exact h

/-- The phases of a deletion up to its tombstone; what follows depends on who deletes. -/
theorem follows_runDeletionPhases (hclean : cleans x id) (hlocked : id ∈ x.lockedDocumentIds)
    {post : Except ServiceError Unit → Knowledge → Prop} {K : Knowledge} (hK : base ⊆ K)
    (herr : ∀ e K, base ⊆ K → post (.error e) K)
    (hdone : ∀ K, base ⊆ K → .tombstoned id ∈ K → post (.ok ()) K)
    (hcommit : ∀ K, base ⊆ K →
      Follows (protocol s x) post (catalog (.commitDeletion id)) K) :
    Follows (protocol s x) post (runDeletionPhases s id) K := by
  have herr' : ∀ {F : Knowledge}, base ⊆ F → ∀ e K, F ⊆ K → post (.error e) K :=
    fun hF e K hK => herr e K (hF.trans hK)
  refine follows_then (V := fun a : Option Uuid × Text 255 × Text 255 =>
    activeName? s x.collectionKey = some a.2.1 ∧ a.2.2 = s.screening) (keeps_catalog (r := .deletionCheckpoint id) settled_base
      (fun _ hc => hc) (fun K hK => hK live_mem_base) fun _ ha => ha) hK
    (fun a ha K hK => ?_) (herr' subset_rfl)
  obtain ⟨revisionId,active,screening⟩ := a
  obtain ⟨hactive,rfl⟩ := ha
  rw [Set.union_empty] at hK
  refine follows_then (keeps_deletion (r := .countDeletionAttempt id) steady_base
    (fun _ hc => hc) fun K hK => ⟨hK live_mem_base,hclean⟩) hK (fun _ _ K hK => ?_)
    (herr' subset_rfl)
  rw [Set.union_empty] at hK
  refine follows_then Keeps.require hK (fun _ _ K hK => ?_) (herr' subset_rfl)
  rw [Set.union_empty] at hK
  refine follows_then (V := fun _ => True)
    (G := fun flags : DeletionFlags => {f | flags.tombstoned = true ∧ f = .tombstoned id})
    (grants_catalog (r := .deletionFlags id) settled_base (fun _ hc => hc)
      (fun K hK => hK live_mem_base) (fun _ _ => trivial) fun _ _ hf _ _ => hf) hK
    (fun flags _ K hK => ?_) (herr' subset_rfl)
  have hF : Steady (base ∪ {f | flags.tombstoned = true ∧ f = .tombstoned id}) :=
    steady_base.union (by rintro f ⟨-,rfl⟩; trivial)
  refine follows_then (keeps_unless (keeps_deletePoints hF hclean hlocked revisionId
    .active hactive _ _)) hK (fun _ _ K hK => ?_) (herr' hF.base)
  rw [Set.union_empty] at hK
  refine follows_then (keeps_unless (keeps_deletePoints hF hclean hlocked revisionId
    .screening rfl _ _)) hK (fun _ _ K hK => ?_) (herr' hF.base)
  rw [Set.union_empty] at hK
  refine follows_then (keeps_unless (Keeps.bind (keeps_deletion
    (r := .setDeletionPhase id .purgeStorage) hF (fun _ hc => hc)
    fun K hK => ⟨hK hF.live,hclean⟩) fun _ _ => keeps_purgeDocumentContent hF hclean _)) hK
    (fun _ _ K hK => ?_) (herr' hF.base)
  rw [Set.union_empty] at hK
  unfold unless_
  split
  · rename_i hflag
    exact hdone K (hF.base.trans hK) (hK (Or.inr ⟨hflag,rfl⟩))
  · refine follows_then (keeps_deletion (r := .setDeletionPhase id .commitTombstone) hF
      (fun _ hc => hc) fun K hK => ⟨hK hF.live,hclean⟩) hK (fun _ _ K hK => ?_)
      (herr' hF.base)
    rw [Set.union_empty] at hK
    exact hcommit K (hF.base.trans hK)

theorem follows_runDelete (hx : x.operationType = .delete)
    (hlocked : x.documentId ∈ x.lockedDocumentIds) {K : Knowledge} (hK : base ⊆ K) :
    Follows (protocol s x) Ends (runDelete s x.documentId) K := by
  have hclean : cleans x x.documentId := Or.inl ⟨hx,rfl⟩
  refine Ends.bind (V := fun _ => True) (keeps_catalog (r := .operationSnapshot) settled_base
    (fun _ hc => hc) (fun K hK => hK live_mem_base) fun _ _ => trivial)
    (fun snapshot _ K hK => ?_) hK
  refine Ends.bind Keeps.require (fun _ _ K hK => ?_) hK
  refine follows_runDeletionPhases hclean hlocked hK
    (fun _ K hK => ⟨hK held_mem_base,fun _ _ => hK⟩)
    (fun K hK _ => ⟨hK held_mem_base,fun _ hc => by cases hc⟩) fun K hK => ?_
  exact follows_closer hK ⟨hK live_mem_base,hclean⟩ (fun hc => by cases hc.1)
    fun _ _ hc => by cases hc

end Deletion

/-! ### Publication -/

section Publication
variable (hx : x.operationType = .publish)
include hx

omit hx in
theorem keeps_stageActivePoints {c : Text 255} {ps : List ChunkPoint} {revisionId : Uuid}
    (hx : x.operationType = .publish) (hF : Steady F)
    (hc : activeName? s x.collectionKey = some c)
    (hgone : ∀ id ∈ x.lockedDocumentIds, id ≠ x.documentId → .tombstoned id ∈ F)
    (hpub : .publishes revisionId ∈ F) (hrec : .reconstructed revisionId ps ∈ F)
    (hps : ∀ p ∈ ps, OwnPoint s x p) :
    Grants (protocol s x) F (fun _ => True) (fun _ => {.staged ps}) (stageActivePoints c ps) := by
  refine Keeps.bind (V := fun batch => batch = ps.map stagedPoint)
    (Keeps.lift fun _ h => pointBatch_ok h) fun batch hbatch => ?_
  refine grants_request (fun K hK => ⟨hK hF.live,Or.inr ⟨hx,hc,?_,revisionId,ps,hK hpub,hK hrec,
    hbatch,hps⟩⟩) (fun f hf _ hl => (hF.lasting f hf).not_aboutPoints hl) (fun _ _ => trivial) ?_
  · exact fun id hid hne => hK (hgone id hid hne)
  · rintro _ f rfl K -
    exact ⟨hc,ps,hbatch,rfl⟩

omit hx in
/-- The gate that is opened over staged points leaves them all visible. -/
theorem follows_setPayload (hx : x.operationType = .publish) (hF : Steady F) {c : Text 255}
    {ps : List ChunkPoint} {revisionId : Uuid} (hc : activeName? s x.collectionKey = some c)
    (hgone : ∀ id ∈ x.lockedDocumentIds, id ≠ x.documentId → .tombstoned id ∈ F)
    (hpub : .publishes revisionId ∈ F) (hrec : .reconstructed revisionId ps ∈ F)
    {K : Knowledge} (hK : F ∪ {.staged ps} ⊆ K) :
    Follows (protocol s x) (fun y K => F ⊆ K ∧ ∀ u, y = .ok u → .opened ps ∈ K)
      (points (.setPayload c x.documentId revisionId)) K := by
  have hsub : F ⊆ K := Set.subset_union_left.trans hK
  refine Follows.request ⟨hsub hF.live,hx,hc,rfl,fun id hid hne => hsub (hgone id hid hne),ps,
    hsub hpub,hsub hrec,hK (Or.inr rfl)⟩ fun y _ => ⟨fun f hf => ?_,?_⟩
  · exact Or.inr ⟨hsub hf,(hF.lasting f hf).not_aboutActive⟩
  · rintro u rfl
    exact Or.inl ⟨ps,hK (Or.inr rfl),rfl⟩

theorem keeps_publishPhase (hF : Settled F) (hlive : .live ∈ F) {phase : OperationPhase}
    (hphase : Intake.publicationOperationPhases phase = true) :
    Keeps (protocol s x) F (fun _ => True) (catalog (.setPhase phase)) :=
  keeps_catalog hF (fun _ hc => hc)
    (fun _ hK => ⟨hK hlive,by rw [hx]; simp [Intake.allowedPhase, hphase]⟩) fun _ _ => trivial

/-- Staging, opening and checking the complete revision. -/
theorem follows_activatePoints (hlocked : x.documentId ∈ x.lockedDocumentIds) (hF : Steady F)
    {c : Text 255} {ps : List ChunkPoint} {revisionId : Uuid}
    (hc : activeName? s x.collectionKey = some c)
    (hgone : ∀ id ∈ x.lockedDocumentIds, id ≠ x.documentId → .tombstoned id ∈ F)
    (hpub : .publishes revisionId ∈ F) (hrec : .reconstructed revisionId ps ∈ F)
    (hps : ∀ p ∈ ps, OwnPoint s x p) {K : Knowledge} (hK : F ⊆ K) :
    Follows (protocol s x) (fun y K => F ⊆ K ∧ ∀ u, y = .ok u → .opened ps ∈ K)
      (activatePoints x.documentId revisionId c ps) K := by
  have herr : ∀ {F' : Knowledge}, F ⊆ F' → ∀ (e : ServiceError) K, F' ⊆ K → F ⊆ K ∧
      ∀ u, (.error e : Except ServiceError Unit) = .ok u → .opened ps ∈ K :=
    fun hsub e K hK => ⟨hsub.trans hK,fun _ he => by cases he⟩
  have settled_staged : Settled (F ∪ {.staged ps}) := by
    rintro a (ha | ha)
    · exact hF.settled a ha
    · cases ha
  refine follows_then (keeps_publishPhase hx hF.settled hF.live rfl) hK
    (fun _ _ K hK => ?_) (herr subset_rfl)
  rw [Set.union_empty] at hK
  refine follows_then (keeps_outbox (Or.inl rfl) hF.settled hF.live hlocked) hK
    (fun _ _ K hK => ?_) (herr subset_rfl)
  rw [Set.union_empty] at hK
  refine follows_then (keeps_stageActivePoints hx hF hc hgone hpub hrec hps) hK
    (fun _ _ K hK => ?_) (herr subset_rfl)
  refine follows_then (keeps_publishPhase hx settled_staged (Or.inl hF.live) rfl) hK
    (fun _ _ K hK => ?_) (herr Set.subset_union_left)
  rw [Set.union_empty] at hK
  refine follows_then (keeps_verifyPreparedPoints (Or.inl hF.live) _ _ _ _) hK
    (fun _ _ K hK => ?_) (herr Set.subset_union_left)
  rw [Set.union_empty] at hK
  refine Follows.bind (follows_setPayload hx hF hc hgone hpub hrec hK) (fun u K hK => ?_)
    fun _ _ he => ⟨he.1,fun _ hc => by cases hc⟩
  have hopened : F ∪ {.opened ps} ⊆ K := by
    rintro f (hf | rfl)
    · exact hK.1 hf
    · exact hK.2 u rfl
  have settled_opened : Settled (F ∪ {.opened ps}) := by
    rintro a (ha | ha)
    · exact hF.settled a ha
    · cases ha
  refine follows_then (keeps_verifyPreparedPoints (Or.inl hF.live) _ _ _ _) hopened
    (fun _ _ K hK => ?_) (herr Set.subset_union_left)
  rw [Set.union_empty] at hK
  refine follows_then (keeps_outbox (n := 0) (Or.inr rfl) settled_opened (Or.inl hF.live)
    hlocked) hK (fun _ _ K hK => ?_) (herr Set.subset_union_left)
  rw [Set.union_empty] at hK
  refine (keeps_catalog (r := .markUpserted revisionId) (V := fun _ => True) settled_opened
    (fun _ hc => hc) (fun K hK => ⟨hK (Or.inl hF.live),hx⟩) (fun _ _ => trivial) K hK).mono
    fun y K hy => ⟨Set.subset_union_left.trans hy.1,fun _ _ => hy.1 (Or.inr rfl)⟩

/-- The screening points are gone, and the opened points stay. -/
theorem grants_removeScreeningPoints (hlocked : x.documentId ∈ x.lockedDocumentIds)
    (hF : Steady F) {ps : List ChunkPoint} (revisionId : Uuid) :
    Grants (protocol s x) (F ∪ {.opened ps}) (fun _ => True)
      (fun _ => {.zero s.screening x.documentId})
      (removeScreeningPoints s x.documentId revisionId) := by
  have settled_opened : Settled (F ∪ {.opened ps}) := by
    rintro a (ha | ha)
    · exact hF.settled a ha
    · cases ha
  have hlive : .live ∈ F ∪ {.opened ps} := Or.inl hF.live
  refine Keeps.bind (keeps_publishPhase hx settled_opened hlive rfl) fun _ _ => ?_
  refine Keeps.bind (keeps_outbox (Or.inl rfl) settled_opened hlive hlocked) fun _ _ => ?_
  refine Keeps.bind (V := fun _ => True) (keeps_request
    (fun K hK => ⟨hK hlive,Or.inl ⟨rfl,rfl⟩⟩) (fun f _ _ hl => hl.1 rfl)
    fun _ _ => trivial) fun _ _ => ?_
  refine Keeps.bind (keeps_publishPhase hx settled_opened hlive rfl) fun _ _ => ?_
  refine Grants.bind (grants_verifyDocumentZero hlive _ _) fun _ _ => ?_
  refine Grants.mono (keeps_outbox (n := 0) (Or.inr rfl) ?_ (Or.inl hlive) hlocked)
    fun _ _ => ⟨trivial,fun f hf => Or.inl (Or.inr hf)⟩
  rintro a (ha | ha)
  · exact settled_opened a ha
  · cases ha

/-- The publication of one revision, from what is known about its points. -/
theorem follows_publishRevision (hlocked : x.documentId ∈ x.lockedDocumentIds) (hF : Steady F)
    (hgone : ∀ id ∈ x.lockedDocumentIds, id ≠ x.documentId → .tombstoned id ∈ F)
    (revisionId : Uuid) {K : Knowledge} (hK : F ⊆ K) :
    Follows (protocol s x) Ends (publishRevision s x.documentId revisionId) K := by
  have herr : ∀ {F' : Knowledge}, base ⊆ F' → ∀ (e : ServiceError) K, F' ⊆ K →
      Ends (.error e : Except ServiceError Unit) K := fun hF e K hK =>
    ⟨hK (hF held_mem_base),fun _ _ => hF.trans hK⟩
  refine follows_then (V := fun a : Text 255 × ℕ => activeName? s x.collectionKey = some a.1)
    (G := fun _ => {.publishes revisionId}) (grants_catalog (r := .publicationBinding revisionId)
      hF.settled (fun _ hc => hc) (fun K hK => hK hF.live) (fun _ ha => ha) ?_) hK
    (fun a hactive K hK => ?_) (herr hF.base)
  · rintro a f rfl K -
    rfl
  obtain ⟨active,expected⟩ := a
  have hF₁ : Steady (F ∪ {.publishes revisionId}) := hF.union (by rintro f rfl; trivial)
  refine follows_then (V := fun ps : List ChunkPoint => ∀ p ∈ ps, OwnPoint s x p)
    (G := fun ps => {.reconstructed revisionId ps}) (Grants.tryCatch (grants_catalog
      (r := .reconstructChunkPoints revisionId true) hF₁.settled (fun _ hc => hc)
      (fun K hK => hK hF₁.live) (fun _ ha => ha) ?_) fun _ => Grants.fail) hK
    (fun ps hps K hK => ?_) (herr hF₁.base)
  · rintro a f rfl K -
    rfl
  have hF₂ : Steady (F ∪ {.publishes revisionId} ∪ {.reconstructed revisionId ps}) :=
    hF₁.union (by rintro f rfl; trivial)
  have hpub : .publishes revisionId ∈ F ∪ {.publishes revisionId} ∪
    {.reconstructed revisionId ps} := Or.inl (Or.inr rfl)
  have hrec : .reconstructed revisionId ps ∈ F ∪ {.publishes revisionId} ∪
    {.reconstructed revisionId ps} := Or.inr rfl
  have hgone₂ : ∀ id ∈ x.lockedDocumentIds, id ≠ x.documentId →
      .tombstoned id ∈ F ∪ {.publishes revisionId} ∪ {.reconstructed revisionId ps} :=
    fun id hid hne => Or.inl (Or.inl (hgone id hid hne))
  generalize F ∪ {.publishes revisionId} ∪ {.reconstructed revisionId ps} = F' at *
  refine follows_then Keeps.require hK (fun _ _ K hK => ?_) (herr hF₂.base)
  rw [Set.union_empty] at hK
  refine follows_then Keeps.require hK (fun _ _ K hK => ?_) (herr hF₂.base)
  rw [Set.union_empty] at hK
  refine Follows.bind (follows_activatePoints hx hlocked hF₂ hactive hgone₂ hpub hrec hps hK)
    (fun u K hK => ?_) fun e K he => herr hF₂.base e K he.1
  have hopened : F' ∪ {.opened ps} ⊆ K := by
    rintro f (hf | rfl)
    · exact hK.1 hf
    · exact hK.2 u rfl
  refine follows_then (grants_removeScreeningPoints hx hlocked hF₂ revisionId) hopened
    (fun _ _ K hK => ?_) (herr (hF₂.base.trans Set.subset_union_left))
  refine follows_closer (fun f hf => hK (Or.inl (Or.inl (hF₂.base hf))))
    ⟨hK (Or.inl (Or.inl hF₂.live)),hx,hK (Or.inr rfl),ps,hK (Or.inl (Or.inl hrec)),
      hK (Or.inl (Or.inr rfl))⟩ (fun hc => by cases hc) fun _ _ hc => by cases hc

theorem follows_runPublish (hlocked : x.documentId ∈ x.lockedDocumentIds) {K : Knowledge}
    (hK : base ⊆ K) : Follows (protocol s x) Ends (runPublish s x.documentId) K := by
  refine Ends.bind (V := fun a : OperationSnapshot => a.operationType = x.operationType ∧
      a.replacementTargetDocumentId ≠ some x.documentId ∧ ∀ id, id ∈ x.lockedDocumentIds ↔
        id = x.documentId ∨ a.replacementTargetDocumentId = some id)
    (keeps_catalog (r := .operationSnapshot) settled_base (fun _ hc => hc)
      (fun K hK => hK live_mem_base) fun _ ha => ha) (fun snapshot hsnapshot K hK => ?_) hK
  obtain ⟨-,hself,hids⟩ := hsnapshot
  refine Ends.bind Keeps.require (fun _ _ K hK => ?_) hK
  refine Ends.bind (V := fun _ => True) (Keeps.lift fun _ _ => trivial)
    (fun revisionId _ K hK => ?_) hK
  cases htarget : snapshot.replacementTargetDocumentId with
  | none =>
    refine follows_publishRevision hx hlocked steady_base (fun id hid hne => ?_) revisionId hK
    rcases (hids id).1 hid with h | h
    · exact absurd h hne
    · rw [htarget] at h
      cases h
  | some target =>
    have hne : target ≠ x.documentId := fun he => hself (htarget.trans (congrArg some he))
    have hmem : target ∈ x.lockedDocumentIds := (hids target).2 (Or.inr htarget)
    have hclean : cleans x target := Or.inr ⟨hx,hne,hmem⟩
    refine Follows.bind (Q := fun y K => base ⊆ K ∧ ∀ u, y = .ok u → .tombstoned target ∈ K)
      (follows_runDeletionPhases hclean hmem hK (fun _ K hK => ⟨hK,fun _ hc => by cases hc⟩)
        (fun K hK ht => ⟨hK,fun _ _ => ht⟩) fun K hK => ?_) (fun u K hK => ?_)
      fun _ K he => ⟨he.1 held_mem_base,fun _ _ => he.1⟩
    · refine Follows.request ⟨hK live_mem_base,hclean⟩ fun y _ => ⟨fun f hf => ?_,?_⟩
      · refine Or.inr ⟨hK hf,?_⟩
        rintro (⟨⟨-,hc⟩,-⟩ | ⟨_,_,hc,-⟩)
        · rw [hx] at hc
          cases hc
        · cases hc
      · rintro u rfl
        exact Or.inl ⟨hx,rfl⟩
    · refine follows_publishRevision hx hlocked (steady_base.union (G := {.tombstoned target})
        (by rintro f rfl; trivial)) (fun id hid hid' => Or.inr ?_) revisionId ?_
      · rcases (hids id).1 hid with h | h
        · exact absurd h hid'
        · rw [htarget] at h
          cases h
          rfl
      · rintro f (hf | rfl)
        · exact hK.1 hf
        · exact hK.2 u rfl

end Publication

/-! ### The whole turn -/

theorem follows_dispatch (hlocked : x.documentId ∈ x.lockedDocumentIds) {K : Knowledge}
    (hK : base ⊆ K) : Follows (protocol s x) Ends (dispatch s enc x) K := by
  unfold dispatch
  split
  · rename_i hx
    exact follows_runPreflight hx hlocked hK
  · rename_i hx
    exact follows_runPublish hx hlocked hK
  · rename_i hx
    exact follows_runDelete hx hlocked hK

/-- A claim is released once, or its failure could not be recorded. -/
theorem follows_execute (hlocked : x.documentId ∈ x.lockedDocumentIds) {K : Knowledge}
    (hK : base ⊆ K) : Follows (protocol s x) (fun y K => ∀ e, y = .error e → .unrecorded ∈ K)
      (execute s enc x) K := by
  refine Follows.finally_ (Q := fun y K => .held ∈ K ∧ ∀ e, y = .error e → .unrecorded ∈ K)
    (Follows.tryCatch (follows_dispatch hlocked hK) (fun _ _ h => ⟨h.1,fun _ hc => by cases hc⟩)
      fun e K h => ?_) fun y K h => ?_
  · split
    · exact ⟨h.1,fun _ hc => by cases hc⟩
    · refine Follows.request h.1 fun z _ => ⟨Or.inr ⟨h.1,?_⟩,?_⟩
      · rintro (⟨-,ho⟩ | ⟨_,_,hc,-⟩)
        · exact ho trivial
        · cases hc
      · rintro e' rfl
        exact Or.inl rfl
  · refine Follows.request ⟨rfl,Or.inl h.1⟩ fun z hz => ?_
    cases z with
    | error e => exact hz.elim
    | ok u =>
      intro e he
      exact Or.inr ⟨h.2 e he,fun hl => hl rfl⟩

/-- Every thread follows its protocol from its claim on. -/
theorem slotTurn_follows (hlocked : x.documentId ∈ x.lockedDocumentIds) :
    Follows (protocol s x) (fun _ _ => True) (slotTurn s enc x) base := by
  refine Follows.tryCatch (follows_execute hlocked subset_rfl) (fun _ _ _ => trivial)
    fun e K h => ?_
  exact Follows.request ⟨rfl,Or.inr (h e rfl)⟩ fun _ _ => trivial

end Lifecycle
end PdfBridge
