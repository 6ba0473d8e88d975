import PdfBridge.Persistence.Artifacts

/-! Settings, and the functions on text and vectors that the lifecycle only passes around. -/
namespace PdfBridge

/-- A collection definition with the model identities that `build_pipeline_profiles` and
`_pipeline_identity` derive for it. -/
structure CollectionDefinition where
  key : CollectionKey
  enabled : Bool
  identity : RevisionIdentity
  formatterTokenizerClass : Text 255
deriving DecidableEq

def CollectionDefinition.qdrantCollectionName (d : CollectionDefinition) : Text 255 :=
  d.identity.activeQdrantCollection

/-- Validated settings: logical keys are unique and every physical collection is distinct. -/
structure Settings where
  collections : List CollectionDefinition
  screening : Text 255
  leaseSeconds : ℕ
  maxOperationSeconds : ℕ
  qdrantConfigured : Bool
  preparationConfigured : Bool
  advisoryConfigured : Bool
  classifierIdentity : Text 255
  verifierIdentity : Text 255
  keys_nodup : (collections.map (·.key)).Nodup
  names_nodup : (screening :: collections.map (·.qdrantCollectionName)).Nodup

theorem Settings.name_ne_screening (s : Settings) {d : CollectionDefinition}
    (h : d ∈ s.collections) : d.qdrantCollectionName ≠ s.screening := by
  intro he
  exact (List.nodup_cons.1 s.names_nodup).1 (he ▸ List.mem_map_of_mem h)

/-- The first enabled definition of a key. -/
def Settings.enabledCollection? (s : Settings) (key : CollectionKey) :
    Option CollectionDefinition :=
  s.collections.find? fun d => d.key = key && d.enabled

theorem Settings.enabledCollection?_mem {s : Settings} {key : CollectionKey}
    {d : CollectionDefinition} (h : s.enabledCollection? key = some d) : d ∈ s.collections :=
  List.mem_of_find?_eq_some h

/-- The material of a sealed manifest: the header with its completeness and content hashes. -/
structure ManifestMaterial where
  revisionId : Uuid
  documentId : Uuid
  revisionNumber : ℕ
  collectionKey : CollectionKey
  identity : RevisionIdentity
  formatterTokenizerClass : Text 255
  pageCount : Option ℕ
  chunkCount : Option ℕ
  expectedPointCount : Option ℕ
  extraction : Digest
  markdown : Digest
  vectors : Digest
  evidence : Digest
  nativeTextEligible : Bool
  formatterComplete : Bool
  vectorComplete : Bool
  candidateDiscoveryComplete : Bool
  advisoryComplete : Bool
  clearForPublication : Bool
  incompleteReasons : List FailureCode

structure EvidenceMaterial where
  candidateDiscoveryComplete : Bool
  advisoryComplete : Bool
  clearForPublication : Bool
  incompleteReasons : List FailureCode
  candidates : List PreparedCandidate

/-- Hashes over text, vectors and canonical manifests, the text comparisons of preparation and
the bytes of protected artifacts. The lifecycle is the same for every choice of them. -/
structure Encoding where
  sha256Text : String → Digest
  denseDigest : List ℚ → Digest
  sparseDigest : SparseVector → Digest
  vectorManifest : List (ChunkId × ℕ × Digest × Digest × Digest) → Digest
  extractionManifest : List ExtractedPage → Digest
  evidenceManifest : EvidenceMaterial → Digest
  wholeManifest : ManifestMaterial → Digest
  /-- The norm is one within the tolerance of the source. -/
  isNormalized : List ℚ → Bool
  canonicalMarkdown : List PreparedPage → String
  /-- Every slice of a page covers its source text and keeps its projection. -/
  slicesCover : ExtractedPage → PreparedPage → Bool
  batchesCover : List FormatterBatch → List PreparedPage → Bool
  /-- `compare_filenames` of two original filenames finds a family match. -/
  filenameFamily : String → String → Bool
  /-- The JSON text of an artifact in UTF-8, unless it has no serialization. -/
  artifactJson : ArtifactPayload → Option (List UInt8)
  /-- The gzip file of given bytes, with modification time zero. -/
  gzip : List UInt8 → List UInt8

def denseDimension : ℕ := 768
def hardMaxTokens : ℕ := 384

end PdfBridge
