import Mathlib.Data.List.Infix
import PdfBridge.Services.Preparation

/-! Advisory findings, protected artifacts and the storage root. -/
namespace PdfBridge
open Preparation

def maxExcerptChunks : ℕ := 12
def maxExcerptChars : ℕ := 1200

def SourceExcerpt.bounded (x : SourceExcerpt) : SourceExcerpt :=
  {x with text := String.ofList (x.text.toList.take maxExcerptChars)}

def boundedExcerpts (xs : List SourceExcerpt) : List SourceExcerpt :=
  (xs.take maxExcerptChunks).map SourceExcerpt.bounded

def buildPrompt (incoming candidate : List SourceExcerpt) : Prompt :=
  ⟨boundedExcerpts incoming,boundedExcerpts candidate⟩

/-- A cited quote occurs verbatim in its excerpt. -/
def quoteRetained (p : Prompt) (x : ChunkId × String) : Bool :=
  (p.incoming ++ p.candidate).any fun e => e.reference = x.1 && x.2.toList <:+: e.text.toList

def validFinding (p : Prompt) (f : CandidateFinding) : Bool := f.evidence.all (quoteRetained p)

/-- `classify_candidate` after the provider answered. -/
def findingResult (role : EvidenceKind) (model : Text 255) (p : Prompt) (reply : ModelReply) :
    FindingResult :=
  ⟨role,model,p,reply,reply.finding.filter (validFinding p)⟩

inductive FileBody where
  | source (sha256 : Digest)
  | artifact (kind : String) (sequence : ℕ) (material : ArtifactMaterial)
deriving DecidableEq

structure StoredFile where
  key : StorageKey
  body : FileBody
deriving DecidableEq

/-- The protected storage root. -/
structure Storage where
  files : Table StoredFile.key
deriving DecidableEq

/-- `objects/{id}.pdf` belongs to the document, and so does every file below
`artifacts/{id}`. -/
def StorageKey.owner : StorageKey → Uuid
  | .object id => id
  | .artifact documentId _ _ => documentId

def StorageKey.isArtifactOf (documentId : Uuid) : StorageKey → Bool
  | .object _ => false
  | .artifact d _ _ => d = documentId

namespace Storage

def empty : Storage := ⟨∅⟩

def isFile (s : Storage) (k : StorageKey) : Bool := (s.files.lookup k).isSome

def write (s : Storage) (f : StoredFile) : Storage := ⟨s.files.put f⟩

def remove (s : Storage) (k : StorageKey) : Storage := ⟨s.files.keep fun f => f.key ≠ k⟩

/-- `rmtree` of the artifact directory of a document. -/
def removeArtifacts (s : Storage) (documentId : Uuid) : Storage :=
  ⟨s.files.keep fun f => !f.key.isArtifactOf documentId⟩

end Storage
end PdfBridge
