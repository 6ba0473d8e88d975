import Mathlib.Data.List.Infix
import PdfBridge.Foundation.Unicode
import PdfBridge.Managers.WorkerRequests

/-! Explanation-only classification of candidates: what is read of the answers of the advisory
provider, and the structured finding that one bounded check reports. -/
namespace PdfBridge
namespace Classification
open Unicode Worker

/-- A value that `json` decodes. Of a float only its truth is read. -/
inductive Json where
  | null
  | bool (b : Bool)
  | int (n : ℤ)
  | float (truth : Bool)
  | str (s : Str)
  | list (xs : List Json)
  | dict (fields : List (Str × Json))

/-- The outcome of decoding: a value, a `ValueError`, or a nesting that is too deep. -/
inductive Decoded where
  | value (x : Json)
  | valueError
  | recursionError

/-- One HTTP request to the advisory provider: a transport error, or a response. -/
inductive Exchange where
  | failed
  | response (statusCode : Json) (json : Decoded)

abbrev Payload := List (Str × Json)

def get (payload : Payload) (key : String) : Option Json :=
  (payload.find? fun f => f.1 = str key).map (·.2)

/-- `bool(x)`. -/
def Json.truth : Json → Bool
  | .null => false
  | .bool b => b
  | .int n => n ≠ 0
  | .float b => b
  | .str s => s ≠ []
  | .list xs => !xs.isEmpty
  | .dict fields => !fields.isEmpty

def isText (s : String) : Option Json → Bool
  | some (.str t) => t = str s
  | _ => false

/-- A non-negative `int` that is no `bool`. -/
def tokenCount : Option Json → Option ℕ
  | some (.int n) => if 0 ≤ n then some n.toNat else none
  | _ => none

/-- `s.encode("utf-8")`, given by the text it encodes; a surrogate has no encoding. -/
def encodeUtf8 (s : Str) : Option String :=
  (s.mapM fun (c : CodePoint) =>
    if h : c.val.isValidChar then some (Char.ofNatAux c.val h) else none).map String.ofList

structure LlmConfig where
  classifierModel : String
  verifierModel : String
  maxInputTokens : ℕ
  maxOutputTokens : ℕ
  maxAttempts : ℕ
  attempts : 1 ≤ maxAttempts ∧ maxAttempts ≤ 5

def LlmConfig.model (c : LlmConfig) : EvidenceKind → String
  | .verifier => c.verifierModel
  | _ => c.classifierModel

/-- The configuration, `json.loads` and `str` of the identity of a chunk. -/
structure Advisor where
  config : LlmConfig
  loads : String → Decoded
  reference : ChunkId → String

/-! ### Requests -/

/-- Raise `ClassificationUnavailableError` unless a check holds. -/
def available (b : Bool) : Except ProviderFailure Unit :=
  if b then .ok () else .error .classificationUnavailable

def orUnavailable {α : Type} : Option α → Except ProviderFailure α
  | some a => .ok a
  | none => .error .classificationUnavailable

def successful : Json → Bool
  | .int n => 200 ≤ n && n < 300
  | _ => false

/-- `_request_json`; only transport errors and `ValueError` are caught. -/
def requestJson : Exchange → Except ProviderFailure Payload
  | .failed => .error .classificationUnavailable
  | .response statusCode json =>
      if successful statusCode then
        match json with
        | .value (.dict payload) => .ok payload
        | .value _ | .valueError => .error .classificationUnavailable
        | .recursionError => .error .other
      else .error .classificationUnavailable

/-- `_input_token_count`. -/
def inputTokenCount (x : Exchange) : Except ProviderFailure ℕ := do
  let payload ← requestJson x
  match get payload "count" with
  | some (.int n) => orUnavailable (tokenCount (some (.int n)))
  | _ => match get payload "tokens" with
    | some (.list tokens) => .ok tokens.length
    | _ => .error .classificationUnavailable

def reportsModel (model : String) (payload : Payload) : Bool :=
  match get payload "model" with
  | none | some .null => true
  | x => isText model x

/-- The content of the only choice of a completion that finished normally. -/
def choiceContent (payload : Payload) : Option Str :=
  match get payload "choices" with
  | some (.list [.dict choice]) =>
      if isText "stop" (get choice "finish_reason") then
        match get choice "message" with
        | some (.dict message) =>
            if (get message "tool_calls").any Json.truth then none
            else match get message "content" with
              | some (.str content) => some content
              | _ => none
        | _ => none
      else none
  | _ => none

/-- Both token counts of a completion are reported and within their limits. -/
def usageWithin (config : LlmConfig) (payload : Payload) : Bool :=
  match get payload "usage" with
  | some (.dict usage) =>
      (tokenCount (get usage "prompt_tokens")).any (fun n => n ≤ config.maxInputTokens) &&
      (tokenCount (get usage "completion_tokens")).any (fun n => n ≤ config.maxOutputTokens)
  | _ => false

/-- `_call_model`. The content is encoded to measure it, and a content that has no encoding
raises `UnicodeEncodeError`. -/
def callModel (config : LlmConfig) (role : EvidenceKind) (x : Exchange) :
    Except ProviderFailure String := do
  let payload ← requestJson x
  available (reportsModel (config.model role) payload)
  let content ← orUnavailable (choiceContent payload)
  available (usageWithin config payload)
  match encodeUtf8 content with
  | none => .error .value
  | some text => do
      available (text.utf8ByteSize ≤ max 4096 (config.maxOutputTokens * 64))
      pure text

/-! ### Findings -/

def findingLabels : List String :=
  ["near_duplicate","likely_revision","potential_contradiction","consistent_overlap",
    "unrelated","uncertain"]

/-- A finding before its references are resolved. -/
structure ParsedFinding where
  label : String
  summary : String
  evidence : List (String × String)

/-- A `str` field with bounds on its length; an unencodable text is no string for it. -/
def constrained (minLength maxLength : ℕ) : Json → Option String
  | .str s => (encodeUtf8 s).filter fun t => minLength ≤ t.length && t.length ≤ maxLength
  | _ => none

def onlyFields (names : List String) (payload : Payload) : Bool :=
  payload.all fun f => names.any fun n => f.1 = str n

/-- `FindingEvidence.model_validate`. -/
def findingEvidence : Json → Option (String × String)
  | .dict payload =>
      if onlyFields ["chunk_reference","quote"] payload then do
        let reference ← (get payload "chunk_reference").bind (constrained 0 100)
        let quote ← (get payload "quote").bind (constrained 1 600)
        some (reference,quote)
      else none
  | _ => none

def evidenceField : Option Json → Option (List (String × String))
  | none => some []
  | some (.list xs) => if xs.length ≤ 8 then xs.mapM findingEvidence else none
  | some _ => none

/-- `CandidateFinding.model_validate`. -/
def candidateFinding : Json → Option ParsedFinding
  | .dict payload =>
      if onlyFields ["label","summary","evidence"] payload then do
        let label ← (get payload "label").bind (constrained 0 100)
        let summary ← (get payload "summary").bind (constrained 1 800)
        let evidence ← evidenceField (get payload "evidence")
        if label ∈ findingLabels then some ⟨label,summary,evidence⟩ else none
      else none
  | _ => none

def parseFinding (loads : String → Decoded) (raw : String) :
    Except ProviderFailure (Option ParsedFinding) :=
  match loads raw with
  | .value x => .ok (candidateFinding x)
  | .valueError => .ok none
  | .recursionError => .error .other

def citedQuote (reference : ChunkId → String) (p : Prompt) (x : String × String) :
    Except String (ChunkId × String) :=
  match (p.incoming ++ p.candidate).find? fun e => reference e.reference = x.1 with
  | none => .error "evidence references an unknown retained chunk"
  | some e =>
      if x.2.toList <:+: e.text.toList then .ok (e.reference,x.2)
      else .error "evidence quote does not appear in its retained source chunk"

/-- `_validate_finding`, with the chunks that the evidence references. -/
def validateFinding (reference : ChunkId → String) (p : Prompt) (f : ParsedFinding) :
    Except String CandidateFinding := do
  let evidence ← f.evidence.mapM (citedQuote reference p)
  pure ⟨f.label,f.summary,evidence⟩

/-- What one attempt at a completion comes to. -/
inductive Attempt where
  | unavailable
  | raised (e : ProviderFailure)
  | invalid (raw error : String)
  | valid (raw : String) (finding : CandidateFinding)

def runAttempt (advisor : Advisor) (role : EvidenceKind) (p : Prompt) (x : Exchange) : Attempt :=
  match callModel advisor.config role x with
  | .error .classificationUnavailable => .unavailable
  | .error e => .raised e
  | .ok raw =>
      match parseFinding advisor.loads raw with
      | .error e => .raised e
      | .ok none => .invalid raw "structured output was invalid"
      | .ok (some f) =>
          match validateFinding advisor.reference p f with
          | .error error => .invalid raw error
          | .ok finding => .valid raw finding

/-- The bounded attempts of one check, from the `k`th on, with the outputs and the error so
far. -/
def runAttempts (inputTokens total : ℕ) :
    ℕ → List Attempt → List String → Option String → Except ProviderFailure ModelReply
  | _, [], raws, error =>
      if raws = [] then .error .classificationUnavailable
      else .ok ⟨inputTokens,total,raws,none,some (error.getD "advisory output was unavailable")⟩
  | k, .unavailable :: as, raws, error => runAttempts inputTokens total (k + 1) as raws error
  | _, .raised e :: _, _, _ => .error e
  | k, .invalid raw error :: as, raws, _ =>
      runAttempts inputTokens total (k + 1) as (raws ++ [raw]) (some error)
  | k, .valid raw finding :: _, raws, _ =>
      .ok ⟨inputTokens,k,raws ++ [raw],some finding,none⟩

/-- The attempts of a check; exchange 0 counts the tokens of the prompt. -/
def attempts (advisor : Advisor) (role : EvidenceKind) (p : Prompt) (x : ℕ → Exchange) :
    List Attempt :=
  (List.range' 1 advisor.config.maxAttempts).map fun k => runAttempt advisor role p (x k)

/-- Both documents have excerpts and no two excerpts have one reference. -/
def offered (advisor : Advisor) (p : Prompt) : Bool :=
  p.incoming ≠ [] && p.candidate ≠ [] &&
  ((p.incoming ++ p.candidate).map fun e => advisor.reference e.reference).Nodup

/-- `classify_candidate`. -/
def classifyCandidate (advisor : Advisor) (role : EvidenceKind) (p : Prompt)
    (x : ℕ → Exchange) : Except ProviderFailure ModelReply := do
  available (offered advisor p)
  let inputTokens ← inputTokenCount (x 0)
  available (inputTokens ≤ advisor.config.maxInputTokens)
  runAttempts inputTokens advisor.config.maxAttempts 1 (attempts advisor role p x) [] none

end Classification
end PdfBridge
