import PdfBridge.Persistence.Models

/-! What a protected artifact of a revision records: a captured formatter exchange, or the
exchange of one advisory check. -/
namespace PdfBridge

/-- One chunk offered to an advisory model, with the correlation of a citation of it. -/
structure SourceExcerpt where
  reference : ChunkId
  documentId : Uuid
  pageStart : ℕ
  pageEnd : ℕ
  text : String
deriving DecidableEq

/-- The bounded excerpt lists that `build_prompt` renders. -/
structure Prompt where
  incoming : List SourceExcerpt
  candidate : List SourceExcerpt
deriving DecidableEq

structure CandidateFinding where
  label : String
  summary : String
  evidence : List (ChunkId × String)
deriving DecidableEq

/-- What the provider returned over all attempts; `finding` is the last parsed answer. -/
structure ModelReply where
  inputTokens : ℕ
  attempts : ℕ
  rawOutputs : List String
  finding : Option CandidateFinding
  error : Option String
deriving DecidableEq

structure FindingResult where
  role : EvidenceKind
  modelIdentity : Text 255
  prompt : Prompt
  reply : ModelReply
  finding : Option CandidateFinding
deriving DecidableEq

/-- One bounded formatter request and response captured for protected storage. -/
structure ProtectedExchange where
  request : String
  response : Option String
  failure : Option String
deriving DecidableEq

inductive ArtifactMaterial where
  | formatterExchange (x : ProtectedExchange)
  | advisoryExchange (candidateId : Uuid) (result : FindingResult)
deriving DecidableEq

/-- The payload of an artifact file. -/
structure ArtifactPayload where
  documentId : Uuid
  preparedRevisionId : Uuid
  kind : String
  sequence : ℕ
  material : ArtifactMaterial

/-- `_MAX_PROTECTED_ARTIFACT_BYTES`. -/
def maxProtectedArtifactBytes : ℕ := 8 * 1024 * 1024

end PdfBridge
