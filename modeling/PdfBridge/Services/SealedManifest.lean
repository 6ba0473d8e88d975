import Mathlib.Tactic.DeriveCountable
import Mathlib.Data.Countable.Basic
import Mathlib.Data.Rat.Encodable
import Mathlib.Logic.Equiv.List
import PdfBridge.Services.Preparation

/-! What the manifest of a sealed revision binds: the tree of hashes over the rows that sealing
validates, and the points that publication rebuilds from them. -/
namespace PdfBridge
namespace Preparation

/-- SHA-256 has no collisions on the texts and canonical manifests that are hashed. -/
structure CollisionFree (enc : Encoding) : Prop where
  text : Function.Injective enc.sha256Text
  dense : Function.Injective enc.denseDigest
  sparse : Function.Injective enc.sparseDigest
  vectors : Function.Injective enc.vectorManifest
  whole : Function.Injective enc.wholeManifest

/-- `_whole_manifest` of a revision with its validated hashes. -/
def wholeManifest (enc : Encoding) (d : Document) (r : PreparedRevision)
    (extraction markdown evidence : Digest) (formatterTokenizerClass : Text 255)
    (completeness : PreflightCompleteness) (reasons : List FailureCode) : Digest :=
  enc.wholeManifest
    { revisionId := r.id, documentId := d.id, revisionNumber := r.revisionNumber,
      collectionKey := d.intake.collectionKey, identity := r.identity,
      formatterTokenizerClass := formatterTokenizerClass, pageCount := r.pageCount,
      chunkCount := r.chunkCount, expectedPointCount := r.expectedPointCount,
      extraction := extraction, markdown := markdown,
      vectors := vectorManifest enc r.content.chunks, evidence := evidence,
      nativeTextEligible := r.nativeTextEligible, formatterComplete := r.formatterComplete,
      vectorComplete := r.vectorComplete,
      candidateDiscoveryComplete := completeness.candidateDiscoveryComplete,
      advisoryComplete := completeness.advisoryComplete,
      clearForPublication := completeness.clearForPublication, incompleteReasons := reasons }

/-- Persisted rows that pass the validation of sealing, under the manifest that names them. -/
structure SealedRows (enc : Encoding) (d : Document) (r : PreparedRevision) (m : Digest) :
    Prop where
  stored : loadRevision d r.id = .ok r
  status : r.status = .sealed
  manifest : r.manifestSha256 = some m
  pages : ∃ extraction markdown, validatePersistedPages enc r = .ok (extraction,markdown) ∧
    ∃ evidence tokenizer completeness reasons,
      m = wholeManifest enc d r extraction markdown evidence tokenizer completeness reasons
  chunks : ∃ points, validateChunkRows enc d r = .ok points

/-- Where the text of a chunk stands in the document. -/
def provenance (c : PreparedChunk) : ℕ × ℕ × List String :=
  (c.pageStart,c.pageEnd,c.headingPath)

variable {enc : Encoding} {d d' e : Document} {r r' : PreparedRevision} {m : Digest}
  {c c' : PreparedChunk} {p : ChunkPoint} {i : ℕ}

/-! ### The points of validated rows -/

/-- The point that publication rebuilds from one chunk row. -/
def pointOf (d : Document) (r : PreparedRevision) (c : PreparedChunk) : ChunkPoint where
  chunkId := c.id
  documentId := d.id
  preparedRevisionId := r.id
  collectionKey := d.intake.collectionKey
  activeQdrantCollection := r.identity.activeQdrantCollection
  chunkIndex := c.chunkIndex
  pageStart := c.pageStart
  pageEnd := c.pageEnd
  headingPath := c.headingPath
  textSha256 := c.textSha256
  markdown := c.markdown
  contentProfileId := r.identity.contentProfileId
  indexProfileId := r.identity.indexProfileId
  dense := c.vector.dense
  sparse := c.vector.sparse

/-- The hashes stored with a chunk are those of its text and vectors. -/
structure Hashed (enc : Encoding) (c : PreparedChunk) : Prop where
  text : c.textSha256 = enc.sha256Text c.markdown
  dense : c.vector.denseSha256 = enc.denseDigest c.vector.dense
  sparse : c.vector.sparseSha256 = enc.sparseDigest c.vector.sparse

theorem chunkPoint_hashed (h : chunkPoint enc d r i c = .ok p) :
    Hashed enc c ∧ p = pointOf d r c := by
  simp only [chunkPoint, denseVectorSha256, sparseVectorSha256, bind_eq_ok, require_eq_ok,
    pure_eq_ok, exists_const] at h
  obtain ⟨hrow,_,⟨-,-,rfl⟩,_,⟨-,rfl⟩,⟨hdense,hsparse⟩,rfl⟩ := h
  exact ⟨⟨hrow.2.2.1,hdense,hsparse⟩,rfl⟩

theorem chunkPoints_hashed {chunks : List PreparedChunk} {points : List ChunkPoint}
    (h : chunkPoints enc d r i chunks = .ok points) :
    (∀ c ∈ chunks, Hashed enc c) ∧ points = chunks.map (pointOf d r) := by
  induction chunks generalizing i points with
  | nil =>
    simp only [chunkPoints, pure_eq_ok] at h
    exact ⟨by simp,h.symm⟩
  | cons c cs ih =>
    simp only [chunkPoints, bind_eq_ok, pure_eq_ok] at h
    obtain ⟨p,hp,ps,hps,rfl⟩ := h
    obtain ⟨hc,rfl⟩ := chunkPoint_hashed hp
    obtain ⟨hcs,rfl⟩ := ih hps
    exact ⟨List.forall_mem_cons.2 ⟨hc,hcs⟩,rfl⟩

theorem validateChunkRows_hashed {points : List ChunkPoint}
    (h : validateChunkRows enc d r = .ok points) :
    (∀ c ∈ r.content.chunks, Hashed enc c) ∧ points = r.content.chunks.map (pointOf d r) := by
  simp only [validateChunkRows, bind_eq_ok, require_eq_ok, pure_eq_ok, exists_const] at h
  obtain ⟨-,_,hpoints,-,-,rfl⟩ := h
  exact chunkPoints_hashed hpoints

theorem SealedRows.reconstruct (h : SealedRows enc d r m) :
    reconstructChunkPoints enc r.id true d = .ok (r.content.chunks.map (pointOf d r)) := by
  obtain ⟨points,hpoints⟩ := h.chunks
  simp only [reconstructChunkPoints, bind_eq_ok, require_eq_ok, exists_const]
  exact ⟨r,h.stored,fun _ => h.status,(validateChunkRows_hashed hpoints).2 ▸ hpoints⟩

theorem SealedRows.hashed (h : SealedRows enc d r m) : ∀ c ∈ r.content.chunks, Hashed enc c := by
  obtain ⟨points,hpoints⟩ := h.chunks
  exact (validateChunkRows_hashed hpoints).1

/-- Points depend on the header of the revision and of the document. -/
theorem chunkPoints_congr (hid : d.id = d'.id)
    (hkey : d.intake.collectionKey = d'.intake.collectionKey) (hr : r.id = r'.id)
    (hidentity : r.identity = r'.identity) (hpages : r.pageCount = r'.pageCount)
    (chunks : List PreparedChunk) : chunkPoints enc d r i chunks = chunkPoints enc d' r' i chunks := by
  induction chunks generalizing i with
  | nil => rfl
  | cons c cs ih =>
    simp only [chunkPoints, chunkPoint, ih, hid, hkey, hr, hidentity, hpages]

theorem loadRevision_put (d : Document) (r : PreparedRevision) :
    loadRevision (d.putRevision r) r.id = .ok r :=
  orRaise_eq_ok.2 (Table.lookup_put_self _ _)

/-- Sealing leaves rows that its manifest names. -/
theorem sealPreparedRevision_rows {now : Time} {h : PreparationHandle}
    {completeness : PreflightCompleteness} {x : SealedPreparation}
    (hseal : sealPreparedRevision enc now h completeness d = .ok (x,e)) :
    ∃ r, SealedRows enc e r x.manifestSha256 := by
  simp only [sealPreparedRevision, loadStage, loadPreparing, bind_eq_ok, require_eq_ok,
    pure_eq_ok, exists_const, Prod.exists, Prod.mk.injEq] at hseal
  obtain ⟨r,-,-,-,extraction,markdown,hpages,-,points,hpoints,evidence,reasons,-,rfl,rfl⟩ := hseal
  have hhashes : r.extractionSha256 = some extraction ∧ r.markdownSha256 = some markdown := by
    simp only [validatePersistedPages, bind_eq_ok, require_eq_ok, pure_eq_ok, exists_const,
      Prod.mk.injEq] at hpages
    obtain ⟨-,⟨-,hextraction⟩,-,hmarkdown,rfl,rfl⟩ := hpages
    exact ⟨hextraction,hmarkdown⟩
  refine ⟨_,loadRevision_put d _,rfl,rfl,⟨extraction,markdown,?_,evidence,_,completeness,reasons,rfl⟩,
    points,?_⟩
  · rw [← hpages]
    simp only [validatePersistedPages, hhashes]
  · simp only [validateChunkRows, bind_eq_ok, require_eq_ok, pure_eq_ok, exists_const] at hpoints ⊢
    obtain ⟨hne,ps,hps,hcount,-,rfl⟩ := hpoints
    refine ⟨hne,ps,?_,hcount,trivial,rfl⟩
    rw [← hps]
    apply chunkPoints_congr <;> rfl

/-! ### What equal manifests fix -/

/-- Rows under one manifest agree in the headers of their points and in the hashes of their
chunks. -/
theorem SealedRows.same_hashes (henc : CollisionFree enc) (h : SealedRows enc d r m)
    (h' : SealedRows enc d' r' m) :
    r.id = r'.id ∧ d.id = d'.id ∧ d.intake.collectionKey = d'.intake.collectionKey ∧
    r.identity = r'.identity ∧
    r.content.chunks.map (fun c =>
      (c.id,c.chunkIndex,c.textSha256,c.vector.denseSha256,c.vector.sparseSha256)) =
    r'.content.chunks.map (fun c =>
      (c.id,c.chunkIndex,c.textSha256,c.vector.denseSha256,c.vector.sparseSha256)) := by
  obtain ⟨_,_,-,_,_,_,_,hm⟩ := h.pages
  obtain ⟨_,_,-,_,_,_,_,hm'⟩ := h'.pages
  have hmaterial := henc.whole (hm.symm.trans hm')
  simp only [ManifestMaterial.mk.injEq] at hmaterial
  obtain ⟨hr,hd,-,hkey,hidentity,-,-,-,-,-,-,hvectors,-⟩ := hmaterial
  exact ⟨hr,hd,hkey,hidentity,henc.vectors hvectors⟩

/-- Chunk rows with the same stored hashes have the same point up to their provenance. -/
theorem pointOf_eq_iff (henc : CollisionFree enc) (hc : Hashed enc c) (hc' : Hashed enc c')
    (hr : r.id = r'.id) (hd : d.id = d'.id)
    (hkey : d.intake.collectionKey = d'.intake.collectionKey) (hidentity : r.identity = r'.identity)
    (hsame : (c.id,c.chunkIndex,c.textSha256,c.vector.denseSha256,c.vector.sparseSha256) =
      (c'.id,c'.chunkIndex,c'.textSha256,c'.vector.denseSha256,c'.vector.sparseSha256)) :
    pointOf d r c = pointOf d' r' c' ↔ provenance c = provenance c' := by
  simp only [Prod.mk.injEq] at hsame
  obtain ⟨hid,hindex,htext,hdense,hsparse⟩ := hsame
  have hmarkdown : c.markdown = c'.markdown :=
    henc.text (hc.text.symm.trans (htext.trans hc'.text))
  have hdense' : c.vector.dense = c'.vector.dense :=
    henc.dense (hc.dense.symm.trans (hdense.trans hc'.dense))
  have hsparse' : c.vector.sparse = c'.vector.sparse :=
    henc.sparse (hc.sparse.symm.trans (hsparse.trans hc'.sparse))
  simp only [pointOf, provenance, ChunkPoint.mk.injEq, Prod.mk.injEq, hid, hindex, htext,
    hmarkdown, hdense', hsparse', hr, hd, hkey, hidentity, true_and, and_true]

theorem points_eq_iff (henc : CollisionFree enc) {chunks chunks' : List PreparedChunk}
    (hc : ∀ c ∈ chunks, Hashed enc c) (hc' : ∀ c ∈ chunks', Hashed enc c)
    (hr : r.id = r'.id) (hd : d.id = d'.id)
    (hkey : d.intake.collectionKey = d'.intake.collectionKey) (hidentity : r.identity = r'.identity)
    (hsame : chunks.map (fun c =>
        (c.id,c.chunkIndex,c.textSha256,c.vector.denseSha256,c.vector.sparseSha256)) =
      chunks'.map (fun c =>
        (c.id,c.chunkIndex,c.textSha256,c.vector.denseSha256,c.vector.sparseSha256))) :
    chunks.map (pointOf d r) = chunks'.map (pointOf d' r') ↔
      chunks.map provenance = chunks'.map provenance := by
  induction chunks generalizing chunks' with
  | nil =>
    cases chunks' with
    | nil => simp
    | cons c' cs' => simp at hsame
  | cons c cs ih =>
    cases chunks' with
    | nil => simp at hsame
    | cons c' cs' =>
      rw [List.forall_mem_cons] at hc hc'
      simp only [List.map_cons, List.cons.injEq] at hsame ⊢
      rw [pointOf_eq_iff henc hc.1 hc'.1 hr hd hkey hidentity hsame.1,
        ih hc.2 hc'.2 hsame.2]

/-- Rows sealed under one manifest give the same points exactly when their chunks stand at the
same places of the document. -/
theorem manifest_binds_points (henc : CollisionFree enc) (h : SealedRows enc d r m)
    (h' : SealedRows enc d' r' m) :
    (∃ points, reconstructChunkPoints enc r.id true d = .ok points ∧
      reconstructChunkPoints enc r'.id true d' = .ok points) ↔
    r.content.chunks.map provenance = r'.content.chunks.map provenance := by
  obtain ⟨hr,hd,hkey,hidentity,hsame⟩ := h.same_hashes henc h'
  rw [← points_eq_iff henc h.hashed h'.hashed hr hd hkey hidentity hsame, h.reconstruct,
    h'.reconstruct]
  constructor
  · rintro ⟨points,hp,hp'⟩
    exact (Except.ok.inj hp).trans (Except.ok.inj hp').symm
  · intro heq
    exact ⟨_,rfl,congrArg Except.ok heq.symm⟩

/-! ### A hash without collisions, and two row sets under one manifest -/

instance charCountable : Countable Char :=
  Function.Injective.countable (f := Char.toNat) fun _ _ => Char.toNat_inj.1

instance stringCountable : Countable String :=
  Function.Injective.countable (f := String.toList) fun _ _ => String.toList_inj.1

instance : Countable Uuid := inferInstanceAs (Countable (ℕ × ℕ))

deriving instance Countable for Digest
deriving instance Countable for ProfileId
deriving instance Countable for ChunkId
deriving instance Countable for SparseVector
deriving instance Countable for RevisionIdentity
deriving instance Countable for ManifestMaterial

theorem exists_hash (α : Type) [Countable α] :
    ∃ f : α → Digest, Function.Injective f := by
  obtain ⟨f,hf⟩ := exists_injective_nat α
  refine ⟨fun a => ⟨String.ofList (List.replicate (f a) 'a')⟩,fun a b hab => hf ?_⟩
  have hlist := congrArg (fun x : Digest => x.hex.toList.length) hab
  simpa using hlist

/-- The checks of the sample rows that are not about hashes pass. -/
structure Plain (enc : Encoding) : Prop where
  normalized : ∀ v, enc.isNormalized v = true
  covered : ∀ x p, enc.slicesCover x p = true

/-- An encoding that hashes with given functions and accepts every page. -/
def hashing (f : String → Digest) (dense : List ℚ → Digest) (sparse : SparseVector → Digest)
    (vectors : List (ChunkId × ℕ × Digest × Digest × Digest) → Digest)
    (whole : ManifestMaterial → Digest) : Encoding where
  sha256Text := f
  denseDigest := dense
  sparseDigest := sparse
  vectorManifest := vectors
  extractionManifest := fun _ => ⟨""⟩
  evidenceManifest := fun _ => ⟨""⟩
  wholeManifest := whole
  isNormalized := fun _ => true
  canonicalMarkdown := fun _ => ""
  slicesCover := fun _ _ => true
  batchesCover := fun _ _ => true
  filenameFamily := fun _ _ => false
  artifactJson := fun _ => none
  gzip := id

theorem exists_collisionFree : ∃ enc : Encoding, CollisionFree enc ∧ Plain enc := by
  obtain ⟨f,hf⟩ := exists_hash String
  obtain ⟨dense,hdense⟩ := exists_hash (List ℚ)
  obtain ⟨sparse,hsparse⟩ := exists_hash SparseVector
  obtain ⟨vectors,hvectors⟩ := exists_hash (List (ChunkId × ℕ × Digest × Digest × Digest))
  obtain ⟨whole,hwhole⟩ := exists_hash ManifestMaterial
  exact ⟨hashing f dense sparse vectors whole,⟨hf,hdense,hsparse,hvectors,hwhole⟩,
    fun _ => rfl,fun _ _ => rfl⟩

def sampleIdentity : RevisionIdentity :=
  ⟨text "active",⟨⟨"content"⟩⟩,⟨⟨"index"⟩⟩,⟨⟨"preflight"⟩⟩,text "formatter",text "dense",
    text "sparse"⟩

/-- A chunk on two pages, at a given place. -/
def sampleChunk (enc : Encoding) (i : ℕ) (markdown : String) (place : ℕ × ℕ × List String) :
    PreparedChunk where
  id := chunkIdentity (uuid4 0 0) (uuid4 1 0) i (enc.sha256Text markdown)
  chunkIndex := i
  pageStart := place.1
  pageEnd := place.2.1
  headingPath := place.2.2
  tokenCount := 1
  textSha256 := enc.sha256Text markdown
  markdown := markdown
  vector := ⟨List.replicate denseDimension 0,⟨[0],[1]⟩,
    enc.denseDigest (List.replicate denseDimension 0),enc.sparseDigest ⟨[0],[1]⟩⟩

def sampleExtracted (enc : Encoding) : List ExtractedPage :=
  [⟨1,"a",1,enc.sha256Text "a"⟩,⟨2,"a",1,enc.sha256Text "a"⟩]

def samplePrepared (enc : Encoding) : List PreparedPage :=
  [⟨1,"a",enc.sha256Text "a"⟩,⟨2,"a",enc.sha256Text "a"⟩]

/-- The first of two chunks stands at a given place, the second one on the second page. -/
def sampleChunks (enc : Encoding) (place : ℕ × ℕ × List String) : List PreparedChunk :=
  [sampleChunk enc 0 "a" place,sampleChunk enc 1 "b" (2,2,["a"])]

theorem english_text : 1 ≤ "en".length ∧ "en".length ≤ 16 := by decide +kernel

def sampleRevision (enc : Encoding) (place : ℕ × ℕ × List String) (m : Digest) :
    PreparedRevision where
  id := uuid4 1 0
  revisionNumber := 1
  status := .sealed
  identity := sampleIdentity
  languageCode := some (text "en" english_text)
  nativeTextEligible := true
  formatterComplete := true
  vectorComplete := true
  candidateDiscoveryComplete := true
  advisoryComplete := true
  clearForPublication := true
  incompleteReasons := []
  pageCount := some 2
  chunkCount := some 2
  expectedPointCount := some 2
  extractionSha256 := some (enc.extractionManifest (sampleExtracted enc))
  markdownSha256 := some (enc.sha256Text (enc.canonicalMarkdown (samplePrepared enc)))
  vectorManifestSha256 := some (vectorManifest enc (sampleChunks enc place))
  evidenceManifestSha256 := none
  manifestSha256 := some m
  failureCode := none
  failureMessage := none
  createdAt := 1
  sealedAt := some 2
  content := ⟨[],sampleExtracted enc,[],samplePrepared enc,sampleChunks enc place,[]⟩

def sampleDocument (r : PreparedRevision) : Document where
  id := uuid4 0 0
  intake := ⟨⟨"books",by decide +kernel⟩,text "a.pdf","a.pdf","application/pdf",1,⟨"a"⟩,.clean,
    some (text "scanner"),some 0,text "operator"⟩
  storageKey := some (.object (uuid4 0 0))
  state := .publishing
  terminalDisposition := none
  createdAt := 0
  readyAt := none
  rejectedAt := none
  cancelledAt := none
  deletedAt := none
  failureCode := none
  failureMessage := none
  failureRetryable := false
  replacedByDocumentId := none
  preparedRevisions := Table.put ∅ r
  operations := ∅
  decisions := []
  publications := ∅
  deletionProgress := none
  tombstone := none
  outbox := []

def sampleManifest (enc : Encoding) : Digest :=
  let r := sampleRevision enc (1,1,[]) ⟨""⟩
  wholeManifest enc (sampleDocument r) r (enc.extractionManifest (sampleExtracted enc))
    (enc.sha256Text (enc.canonicalMarkdown (samplePrepared enc))) ⟨""⟩ (text "tokenizer")
    ⟨true,true,true,[]⟩ []

theorem isBlank_letters : isBlank "a" = false ∧ isBlank "b" = false := by decide +kernel

/-- The sample rows pass the validation of sealing wherever their first chunk stands. -/
theorem sampleRows (henc : Plain enc) {place : ℕ × ℕ × List String}
    (hplace : 1 ≤ place.1 ∧ place.1 ≤ place.2.1 ∧ place.2.1 ≤ 2) :
    SealedRows enc (sampleDocument (sampleRevision enc place (sampleManifest enc)))
      (sampleRevision enc place (sampleManifest enc)) (sampleManifest enc) := by
  have hpages : validatePersistedPages enc (sampleRevision enc place (sampleManifest enc)) =
      .ok (enc.extractionManifest (sampleExtracted enc),
        enc.sha256Text (enc.canonicalMarkdown (samplePrepared enc))) := by
    simp [validatePersistedPages, sampleRevision, sampleExtracted, samplePrepared, pagesValid,
      pageValid, preparedPageValid, henc.covered, isBlank_letters.1]
    exact ⟨rfl,rfl⟩
  have hchunks : validateChunkRows enc
      (sampleDocument (sampleRevision enc place (sampleManifest enc)))
      (sampleRevision enc place (sampleManifest enc)) = .ok
        ((sampleChunks enc place).map
          (pointOf (sampleDocument (sampleRevision enc place (sampleManifest enc)))
            (sampleRevision enc place (sampleManifest enc)))) := by
    simp [validateChunkRows, chunkPoints, chunkPoint, denseVectorSha256, sparseVectorSha256,
      sampleRevision, sampleChunks, sampleChunk, sampleDocument, hplace, henc.normalized,
      isBlank_letters, sparseValid, hardMaxTokens, pointOf]
    rfl
  exact ⟨orRaise_eq_ok.2 (Table.lookup_put_self _ _),rfl,rfl,
    ⟨_,_,hpages,⟨""⟩,text "tokenizer",⟨true,true,true,[]⟩,[],rfl⟩,_,hchunks⟩

/-- Two row sets under one manifest with different heading paths and page ranges in their
points. -/
theorem manifest_misses_provenance : ∃ (enc : Encoding) (d d' : Document)
    (r r' : PreparedRevision) (m : Digest), CollisionFree enc ∧ d.id = d'.id ∧
    SealedRows enc d r m ∧ SealedRows enc d' r' m ∧
    ¬ ∃ points, reconstructChunkPoints enc r.id true d = .ok points ∧
      reconstructChunkPoints enc r'.id true d' = .ok points := by
  obtain ⟨enc,henc,hplain⟩ := exists_collisionFree
  have h := @sampleRows enc hplain (1,1,[]) (by decide)
  have h' := @sampleRows enc hplain (1,2,["a"]) (by decide)
  refine ⟨enc,sampleDocument (sampleRevision enc (1,1,[]) (sampleManifest enc)),
    sampleDocument (sampleRevision enc (1,2,["a"]) (sampleManifest enc)),_,_,_,henc,rfl,h,h',?_⟩
  rintro ⟨points,hp,hp'⟩
  rw [h.reconstruct] at hp
  rw [h'.reconstruct] at hp'
  have heq := (Except.ok.inj hp).trans (Except.ok.inj hp').symm
  have hpath := congrArg (List.map ChunkPoint.headingPath) heq
  simp [sampleRevision, sampleChunks, sampleChunk, pointOf] at hpath

/-- Rows with a chunk on both pages give their points again. -/
theorem manifest_binds_points_sample : ∃ (enc : Encoding) (d : Document) (r : PreparedRevision)
    (points : List ChunkPoint), reconstructChunkPoints enc r.id true d = .ok points ∧
    points.map (fun p => (p.chunkIndex,p.pageStart,p.pageEnd,p.headingPath,p.markdown)) =
      [(0,1,2,["a"],"a"),(1,2,2,["a"],"b")] := by
  obtain ⟨enc,henc,hplain⟩ := exists_collisionFree
  have h := @sampleRows enc hplain (1,2,["a"]) (by decide)
  obtain ⟨points,hp,-⟩ := (manifest_binds_points henc h h).2 rfl
  refine ⟨enc,_,_,points,hp,?_⟩
  rw [h.reconstruct] at hp
  rw [← Except.ok.inj hp]
  rfl

end Preparation
end PdfBridge
