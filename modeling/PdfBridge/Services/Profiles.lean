import Mathlib.Data.Fin.Tuple.Basic
import Mathlib.Data.Fin.VecNotation
import Mathlib.Data.Fintype.Basic
import PdfBridge.Foundation.JsonText

/-! Deterministic identities of preparation profiles: canonical JSON, its digest, three profiles
that embed each other's identifiers, and the check of an identity before it is used. -/
namespace PdfBridge
namespace Profiles
open Json Unicode

/-! ### Inputs -/

/-- A key of a mapping; one that is not a string is known by its identity. -/
inductive Key where
  | str (s : Str)
  | other (identity : ℕ)
deriving DecidableEq

inductive SequenceKind where
  | list
  | tuple
deriving DecidableEq

/-- A Python value. The keys of a mapping are distinct. -/
inductive Input where
  | none
  | bool (b : Bool)
  | str (s : Str)
  | int (n : ℤ)
  | float (x : Double)
  | mapping {n : ℕ} (keys : Fin n ↪ Key) (values : Fin n → Input)
  | sequence (kind : SequenceKind) {n : ℕ} (items : Fin n → Input)
  | other (typeName : Str)

inductive Raised where
  | value (message : Str)
  | type (message : Str)
  | unicodeEncode
deriving DecidableEq

abbrev Build (α : Type) := Except Raised α

/-- The values of a family in order, up to the first that raises. -/
def collect {ε α : Type} : {n : ℕ} → (Fin n → Except ε α) → Except ε (Fin n → α)
  | 0, _ => .ok Fin.elim0
  | _ + 1, f => do
      let a ← f 0
      let g ← collect fun i => f i.succ
      pure (Fin.cons a g)

/-- `not key or any(ord(character) < 32 for character in key)`. -/
def invalidKey (key : Str) : Bool := key = [] || key.any fun c => c.val < 32

/-- The text of a key that is a non-empty control-free string. -/
def checkKey (location : Str) : Key → Build Str
  | .str key =>
      if invalidKey key then
        .error (.type (location ++ str " mapping keys must be non-empty control-free strings"))
      else .ok key
  | .other _ =>
      .error (.type (location ++ str " mapping keys must be non-empty control-free strings"))

/-- `_canonical_value(value, location=location)`. -/
def canonicalValue : Input → Str → Build Input
  | .none, _ => .ok .none
  | .bool b, _ => .ok (.bool b)
  | .str s, location =>
      if s.any isSurrogate then .error (.value (location ++ str " contains invalid Unicode"))
      else .ok (.str s)
  | .int n, _ => .ok (.int n)
  | .float .negativeZero, _ => .ok (.float (.finite 0))
  | .float (.finite x), _ => .ok (.float (.finite x))
  | .float _, location => .error (.value (location ++ str " contains a non-finite float"))
  | .mapping keys values, location => do
      let normalized ← collect fun i => do
        let key ← checkKey location (keys i)
        canonicalValue (values i) (location ++ str "." ++ key)
      pure (.mapping keys normalized)
  | .sequence _ items, location => do
      let normalized ← collect fun i =>
        canonicalValue (items i) (location ++ str "[" ++ digits i.val ++ str "]")
      pure (.sequence .list normalized)
  | .other typeName, location =>
      .error (.type (location ++ str " contains unsupported profile value type " ++ typeName ++
        str "; convert it explicitly to JSON data"))

def keyText : Key → Str
  | .str s => s
  | .other _ => []

/-- The JSON value of a normalized input. -/
def toJson : Input → Value
  | .none => .null
  | .bool b => .bool b
  | .str s => .str s
  | .int n => .int n
  | .float x => .float x
  | .mapping keys values => .object (List.ofFn fun i => (keyText (keys i),toJson (values i)))
  | .sequence _ items => .list (List.ofFn fun i => toJson (items i))
  | .other _ => .null

/-! ### Profiles -/

/-- One profile's persisted identifier and exact canonical source JSON. -/
structure ProfileIdentity where
  profileId : Str
  canonicalJson : Str
deriving DecidableEq

/-- Correlated content, index, and preflight-policy profile identities. -/
structure PipelineProfiles where
  content : ProfileIdentity
  index : ProfileIdentity
  preflightPolicy : ProfileIdentity
deriving DecidableEq

/-- A digest of SHA-256. -/
abbrev Digest := Fin (2 ^ 256)

/-- The last `width` hexadecimal digits of a number. -/
def hexDigits : ℕ → ℕ → Str
  | 0, _ => []
  | width + 1, n => hexDigits width (n / 16) ++ [hexDigit (n % 16)]

def hexdigest (d : Digest) : Str := hexDigits 64 d.val

def lowerHex (c : CodePoint) : Bool := isDigit c || (97 ≤ c.val && c.val ≤ 102)

/-- `^sha256:[0-9a-f]{64}$`. -/
def isProfileId (s : Str) : Bool :=
  s.take 7 = str "sha256:" && (s.drop 7).length = 64 && (s.drop 7).all lowerHex

def alphanumeric (c : CodePoint) : Bool :=
  isDigit c || (65 ≤ c.val && c.val ≤ 90) || (97 ≤ c.val && c.val ≤ 122)

/-- `^[A-Za-z0-9][A-Za-z0-9._-]{0,254}$`. -/
def isCollectionName (s : Str) : Bool :=
  match s with
  | [] => false
  | c :: rest => alphanumeric c && rest.length ≤ 254 &&
      rest.all fun d => alphanumeric d || d.val = 46 || d.val = 95 || d.val = 45

/-- An interpreter that converts integers of any length and containers of any depth. -/
def unlimited (py : Interpreter) : Interpreter := {py with maxDigits := none, stack := none}

section Builders
variable (py : Interpreter) (sha256 : Str → Digest)

def canonicalProfileJson (material : Input) : Build Str := do
  let normalized ← canonicalValue material (str "profile")
  match normalized with
  | .mapping keys values => pure (dumps (unlimited py) (toJson (.mapping keys values)))
  | _ => .error (.type (str "profile material must be a mapping"))

/-- `_identity`; the digest is that of the UTF-8 text. -/
def identity (material : Input) : Build ProfileIdentity := do
  let canonical ← canonicalProfileJson py material
  if canonical.any isSurrogate then .error .unicodeEncode
  else pure ⟨str "sha256:" ++ hexdigest (sha256 canonical),canonical⟩

def validatedInputs (profileName : Str) : Input → Build Input
  | .mapping (n := n) keys values =>
      if n = 0 then .error (.value (profileName ++ str " inputs cannot be empty"))
      else canonicalValue (.mapping keys values) (profileName ++ str ".inputs")
  | _ => .error (.type (profileName ++ str " inputs must be a mapping"))

def validateProfileId (fieldName value : Str) : Build Unit :=
  if isProfileId value then .ok ()
  else .error (.value (fieldName ++ str " must be a lowercase sha256 profile identifier"))

abbrev schemaKey : Str := str "profile_schema_version"
abbrev kindKey : Str := str "profile_kind"
abbrev inputsKey : Str := str "inputs"
abbrev contentIdKey : Str := str "content_profile_id"
abbrev indexIdKey : Str := str "index_profile_id"
abbrev collectionKey : Str := str "active_qdrant_collection"
abbrev tokenizerKey : Str := str "formatter_tokenizer_class"

def contentKeys : Fin 3 ↪ Key := ⟨![.str schemaKey,.str kindKey,.str inputsKey],by decide⟩

def contentMaterial (inputs : Input) : Input :=
  .mapping contentKeys ![.int 1,.str (str "content"),inputs]

def indexKeys : Fin 5 ↪ Key :=
  ⟨![.str schemaKey,.str kindKey,.str contentIdKey,.str collectionKey,.str inputsKey],by decide⟩

def indexMaterial (contentProfileId activeQdrantCollection : Str) (inputs : Input) : Input :=
  .mapping indexKeys
    ![.int 1,.str (str "index"),.str contentProfileId,.str activeQdrantCollection,inputs]

def policyKeys : Fin 4 ↪ Key :=
  ⟨![.str schemaKey,.str kindKey,.str indexIdKey,.str inputsKey],by decide⟩

def policyMaterial (indexProfileId : Str) (inputs : Input) : Input :=
  .mapping policyKeys ![.int 1,.str (str "preflight_policy"),.str indexProfileId,inputs]

def buildContentProfile (inputs : Input) : Build ProfileIdentity := do
  let normalized ← validatedInputs (str "content") inputs
  identity py sha256 (contentMaterial normalized)

def buildIndexProfile (inputs : Input) (contentProfileId activeQdrantCollection : Str) :
    Build ProfileIdentity := do
  validateProfileId (str "content_profile_id") contentProfileId
  if isCollectionName activeQdrantCollection = false then
    .error (.value (str "active_qdrant_collection must be a safe resolved physical name"))
  else do
    let normalized ← validatedInputs (str "index") inputs
    identity py sha256 (indexMaterial contentProfileId activeQdrantCollection normalized)

def buildPreflightPolicyProfile (inputs : Input) (indexProfileId : Str) :
    Build ProfileIdentity := do
  validateProfileId (str "index_profile_id") indexProfileId
  let normalized ← validatedInputs (str "preflight_policy") inputs
  identity py sha256 (policyMaterial indexProfileId normalized)

/-- Build the three independently useful, cryptographically chained profiles. -/
def buildPipelineProfiles (contentInputs indexInputs preflightPolicyInputs : Input)
    (activeQdrantCollection : Str) : Build PipelineProfiles := do
  let content ← buildContentProfile py sha256 contentInputs
  let index ← buildIndexProfile py sha256 indexInputs content.profileId activeQdrantCollection
  let policy ← buildPreflightPolicyProfile py sha256 preflightPolicyInputs index.profileId
  pure ⟨content,index,policy⟩

end Builders

/-! ### The check of an identity -/

mutual

/-- `a == b` of JSON values. -/
def valuesEqual : Value → Value → Bool
  | .null, .null => true
  | .str a, .str b => a = b
  | .list a, .list b => itemsEqual a b
  | .object a, .object b => a.length = b.length && membersEqual a b
  | .float .nan, _ => false
  | _, .float .nan => false
  | .float (.infinite a), .float (.infinite b) => a = b
  | a, b =>
      match numberOf a, numberOf b with
      | some x, some y => x = y
      | _, _ => false

def itemsEqual : List Value → List Value → Bool
  | [], [] => true
  | a :: as, b :: bs => valuesEqual a b && itemsEqual as bs
  | _, _ => false

def membersEqual : Members → Members → Bool
  | [], _ => true
  | (key,a) :: as, bs =>
      (match bs.lookup key with
        | some b => valuesEqual a b
        | none => false) && membersEqual as bs

/-- A boolean, an integer or a finite float as a number. -/
def numberOf : Value → Option ℚ
  | .bool b => some (if b then 1 else 0)
  | .int n => some n
  | .float .negativeZero => some 0
  | .float (.finite x) => some x.1
  | _ => none

end

/-- `payload.get(a) == other.get(a)`; a missing field is `None`. -/
def fieldsEqual (a b : Option Value) : Bool := valuesEqual (a.getD .null) (b.getD .null)

/-- Resolved immutable target and model/profile identities for one revision. -/
structure PreparationIdentity where
  activeQdrantCollection : Str
  profiles : PipelineProfiles
  formatterModelId : Str
  formatterTokenizerClass : Str
  denseModelId : Str
  sparseModelId : Str
deriving DecidableEq

/-- `PreparationError`, or the `RecursionError` of a reader without stack. -/
inductive Refusal where
  | preparation (code message : String)
  | recursion
deriving DecidableEq

abbrev Check (α : Type) := Except Refusal α

def demand (c : Bool) (code message : String) : Check Unit :=
  if c then .ok () else .error (.preparation code message)

/-- A non-empty text of at most 255 characters, none of them a control or a space. -/
def isLabel (s : Str) : Bool := s ≠ [] && s.length ≤ 255 && s.all fun c => 33 ≤ c.val

/-- `model_id.strip()` is not empty and the text is short. -/
def isModelId (s : Str) : Bool := !isBlank s && s.length ≤ 255

section Validation
variable (py : Interpreter) (sha256 : Str → Digest)

def sha256Text (text : Str) : Check Str :=
  if text.any isSurrogate then
    .error (.preparation "invalid_unicode" "preparation data contained invalid Unicode")
  else .ok (hexdigest (sha256 text))

/-- `_validate_profile_identity`. -/
def validateProfileIdentity (profile : ProfileIdentity) (kind : String) : Check Members := do
  demand (isProfileId profile.profileId) "profile_mismatch" (kind ++ " profile ID was invalid")
  let digest ← sha256Text sha256 profile.canonicalJson
  demand (profile.profileId = str "sha256:" ++ digest) "profile_mismatch"
    (kind ++ " profile hash did not match")
  match loads (unlimited py) profile.canonicalJson with
  | .error .invalid =>
      .error (.preparation "profile_mismatch" (kind ++ " profile JSON was invalid"))
  | .error .recursion => .error .recursion
  | .ok (.object payload) => do
      demand (fieldsEqual (payload.lookup kindKey) (some (.str (str kind)))) "profile_mismatch"
        (kind ++ " profile kind did not match")
      pure payload
  | .ok _ => .error (.preparation "profile_mismatch" (kind ++ " profile kind did not match"))

/-- Validate all profile chains, resolved target, and persisted model labels. -/
def validatePreparationIdentity (identity : PreparationIdentity) : Check Unit := do
  demand (isLabel identity.activeQdrantCollection) "invalid_target"
    "active Qdrant collection was invalid"
  demand (isModelId identity.formatterModelId) "invalid_model_identity"
    "formatter model identity was invalid"
  demand (isModelId identity.denseModelId) "invalid_model_identity"
    "dense model identity was invalid"
  demand (isModelId identity.sparseModelId) "invalid_model_identity"
    "sparse model identity was invalid"
  demand (isLabel identity.formatterTokenizerClass) "invalid_model_identity"
    "formatter tokenizer identity was invalid"
  let content ← validateProfileIdentity py sha256 identity.profiles.content "content"
  let index ← validateProfileIdentity py sha256 identity.profiles.index "index"
  let policy ← validateProfileIdentity py sha256 identity.profiles.preflightPolicy
    "preflight_policy"
  demand (match content.lookup inputsKey with
      | some (.object inputs) => fieldsEqual (inputs.lookup tokenizerKey)
          (some (.str identity.formatterTokenizerClass))
      | _ => false) "profile_mismatch" "content profile did not bind the formatter tokenizer"
  demand (fieldsEqual (content.lookup schemaKey) (index.lookup schemaKey)) "profile_mismatch"
    "content and index profile schemas differed"
  demand (fieldsEqual (index.lookup contentIdKey)
      (some (.str identity.profiles.content.profileId))) "profile_mismatch"
    "index profile did not bind the content profile"
  demand (fieldsEqual (index.lookup collectionKey)
      (some (.str identity.activeQdrantCollection))) "profile_mismatch"
    "index profile did not bind the active target"
  demand (fieldsEqual (policy.lookup indexIdKey)
      (some (.str identity.profiles.index.profileId))) "profile_mismatch"
    "policy profile did not bind the index profile"

end Validation

end Profiles
end PdfBridge
