import Mathlib.Data.Finset.Dedup
import Mathlib.Data.List.Permutation
import PdfBridge.Foundation.Codec
import PdfBridge.Foundation.JsonReaders
import PdfBridge.Foundation.Utf8
import PdfBridge.Services.Profiles

/-! The access token for Qdrant: a compact JWT that grants reading and writing in the enabled
collections and in the screening collection. An accepted token says the same to every reader. -/
namespace PdfBridge
namespace AccessToken
open Json Unicode

/-! ### Segments -/

/-- `ValueError`, and the `RecursionError` of deeply nested containers. -/
inductive TokenError where
  | value (message : String)
  | recursion
deriving DecidableEq

def invalidSegment (name : String) : TokenError :=
  .value ("qdrant_api_key has an invalid " ++ name ++ " base64url segment")

def nonCanonicalSegment (name : String) : TokenError :=
  .value ("qdrant_api_key has a non-canonical " ++ name ++ " base64url segment")

def oversizedSegment (name : String) : TokenError :=
  .value ("qdrant_api_key " ++ name ++ " segment exceeds its size limit")

/-- The six bits of a character of `[A-Za-z0-9_-]`. -/
def segmentDigit (c : CodePoint) : Option ℕ := Codec.digitOf (Char.ofNat c.val)

/-- `base64.urlsafe_b64encode` without its padding. -/
def encodeSegment (bytes : List ℕ) : Str :=
  (Codec.sextets bytes).map fun d => codePoint (Codec.digitChar d)

def decodeJwtSegment (name : String) (encoded : Str) (maximumBytes : ℕ) :
    Except TokenError (List ℕ) :=
  match encoded.mapM segmentDigit with
  | none => .error (invalidSegment name)
  | some digits =>
      if encoded.isEmpty then .error (invalidSegment name)
      else
        match Codec.octets digits with
        | none => .error (invalidSegment name)
        | some decoded =>
            if encodeSegment decoded ≠ encoded then .error (nonCanonicalSegment name)
            else if maximumBytes < decoded.length then .error (oversizedSegment name)
            else .ok decoded

/-! ### Strict objects -/

/-- `_unique_json_object`, behind the members read so far. -/
def uniqueJsonObject (result : Members) : Members → Option Members
  | [] => some result
  | (key,value) :: pairs =>
      if key ∈ result.map Prod.fst then none else uniqueJsonObject (result ++ [(key,value)]) pairs

def rejectJsonConstant (_ : Double) : Option Value := none

def strict : Hooks := ⟨uniqueJsonObject [],rejectJsonConstant⟩

def decodeJwtJson (py : Interpreter) (name : String) (encoded : Str) :
    Except TokenError Members := do
  let raw ← decodeJwtSegment name encoded 8192
  match Utf8.decode raw with
  | none => .error (.value ("qdrant_api_key " ++ name ++ " must be a strict UTF-8 JSON object"))
  | some decoded =>
      match readText strict py decoded with
      | .error .recursion => .error .recursion
      | .error .invalid =>
          .error (.value ("qdrant_api_key " ++ name ++ " must be a strict UTF-8 JSON object"))
      | .ok (.object members) => .ok members
      | .ok _ => .error (.value ("qdrant_api_key " ++ name ++ " must be a JSON object"))

/-! ### Claims -/

/-- `set(members) == {first, second}`. -/
def hasKeys (members : Members) (first second : Str) : Bool :=
  (members.map Prod.fst).toFinset = {first,second}

/-- `members[key] == s`. -/
def isText (members : Members) (key s : Str) : Bool :=
  match members.lookup key with
  | some (.str t) => t = s
  | _ => false

def require (condition : Bool) (message : String) : Except TokenError Unit :=
  if condition then .ok () else .error (.value message)

/-- The grants of the rules, behind the collections granted so far. -/
def readGrants (granted : List Str) : List Value → Except TokenError (List Str)
  | [] => .ok granted
  | .object rule :: rules => do
      require (hasKeys rule (str "collection") (str "access"))
        "qdrant_api_key JWT access entries must contain only collection and access"
      match rule.lookup (str "collection") with
      | some (.str collection) =>
          require (Profiles.isCollectionName collection)
            "qdrant_api_key JWT contains an invalid collection name"
          require (isText rule (str "access") (str "rw"))
            "qdrant_api_key JWT must grant exactly rw collection access"
          require (!granted.contains collection)
            "qdrant_api_key JWT contains a duplicate collection grant"
          readGrants (granted ++ [collection]) rules
      | _ => .error (.value "qdrant_api_key JWT contains an invalid collection name")
  | _ :: _ => .error (.value
      "qdrant_api_key JWT access entries must contain only collection and access")

def checkExpiration (now : ℤ) (payload : Members) : Except TokenError Unit :=
  match payload.lookup (str "exp") with
  | some (.int expiration) => do
      require (expiration ≤ 9223372036854775807)
        "qdrant_api_key JWT exp must be a bounded Unix timestamp integer"
      require (now + 30 < expiration)
        "qdrant_api_key JWT must remain valid beyond Qdrant's clock-skew window"
  | _ => .error (.value "qdrant_api_key JWT exp must be a bounded Unix timestamp integer")

def checkAccess (allowedCollections : Finset Str) (payload : Members) :
    Except TokenError Unit :=
  match payload.lookup (str "access") with
  | some (.list access) => do
      let granted ← readGrants [] access
      require (granted.toFinset = allowedCollections)
        ("qdrant_api_key JWT collection grants must exactly match enabled active " ++
          "collections plus screening")
  | _ => .error (.value "qdrant_api_key JWT access must be a collection-scoped list")

def checkClaims (now : ℤ) (allowedCollections : Finset Str) (header payload : Members)
    (signature : List ℕ) : Except TokenError Unit := do
  require (hasKeys header (str "alg") (str "typ") && isText header (str "alg") (str "HS256") &&
      isText header (str "typ") (str "JWT"))
    "qdrant_api_key JWT header must contain only alg=HS256 and typ=JWT"
  require (signature.length = 32) "qdrant_api_key JWT must carry a 32-byte HS256 signature"
  require (hasKeys payload (str "access") (str "exp"))
    "qdrant_api_key JWT payload must contain only access and exp claims"
  checkExpiration now payload
  checkAccess allowedCollections payload

/-- `_validate_qdrant_access_token` at the whole second `now`. -/
def validateQdrantAccessToken (py : Interpreter) (now : ℤ) (token : Str)
    (allowedCollections : Finset Str) : Except TokenError Unit := do
  require (token.length ≤ 16384) "qdrant_api_key JWT exceeds the size limit"
  match token.splitOn 46 with
  | [first,second,third] => do
      let header ← decodeJwtJson py "header" first
      let payload ← decodeJwtJson py "payload" second
      let signature ← decodeJwtSegment "signature" third 64
      checkClaims now allowedCollections header payload signature
  | _ => .error (.value "qdrant_api_key must be a three-segment compact JWT")

/-- The collections that the service works with outside test mode. -/
def allowedCollections (enabled : List Str) (screening : Str) : Finset Str :=
  (enabled ++ [screening]).toFinset

/-! ### Segments are canonical -/

theorem digitOf_lt {c : Char} {d : ℕ} (h : Codec.digitOf c = some d) : d < 64 := by
  unfold Codec.digitOf at h
  split_ifs at h with hupper hlower hdigit hminus hunderscore
  · cases h
    have hc : c.toNat ≤ 90 := hupper.2
    omega
  · cases h
    have hc : c.toNat ≤ 122 := hlower.2
    omega
  · cases h
    have hc : c.toNat ≤ 57 := hdigit.2
    omega
  · cases h
    decide
  · cases h
    decide

theorem segmentDigit_digitChar : ∀ d, d < 64 →
    segmentDigit (codePoint (Codec.digitChar d)) = some d := by decide

theorem digitChar_ne_dot : ∀ d, d < 64 → codePoint (Codec.digitChar d) ≠ 46 := by decide

theorem mapM_segmentDigit {digits : List ℕ} (h : ∀ d ∈ digits, d < 64) :
    (digits.map fun d => codePoint (Codec.digitChar d)).mapM segmentDigit = some digits := by
  induction digits with
  | nil => rfl
  | cons d digits ih =>
    rw [List.map_cons, List.mapM_cons, segmentDigit_digitChar d (h d List.mem_cons_self),
      ih fun x hx => h x (List.mem_cons_of_mem _ hx)]
    rfl

theorem mapM_segmentDigit_lt {encoded : Str} {digits : List ℕ}
    (h : encoded.mapM segmentDigit = some digits) : ∀ d ∈ digits, d < 64 := by
  induction encoded generalizing digits with
  | nil =>
    cases h
    simp
  | cons c encoded ih =>
    rw [List.mapM_cons] at h
    obtain ⟨d,hd,h⟩ := Option.bind_eq_some_iff.1 h
    obtain ⟨rest,hrest,h⟩ := Option.bind_eq_some_iff.1 h
    cases h
    exact List.forall_mem_cons.2 ⟨digitOf_lt hd,ih hrest⟩

theorem octets_lt (digits : List ℕ) {bytes : List ℕ} (h : ∀ d ∈ digits, d < 64)
    (hbytes : Codec.octets digits = some bytes) : ∀ b ∈ bytes, b < 256 := by
  induction digits using Codec.octets.induct generalizing bytes with
  | case1 p q r s rest ih =>
    simp only [List.mem_cons, forall_eq_or_imp] at h
    obtain ⟨hp,hq,hr,hs,hrest⟩ := h
    rw [Codec.octets] at hbytes
    obtain ⟨tail,htail,hbytes⟩ := Option.bind_eq_some_iff.1 hbytes
    cases hbytes
    simp only [List.mem_cons, forall_eq_or_imp]
    exact ⟨by omega,by omega,by omega,ih hrest htail⟩
  | case2 p q r =>
    simp only [List.mem_cons, List.not_mem_nil, or_false, forall_eq_or_imp, forall_eq] at h
    cases hbytes
    simp only [List.mem_cons, List.not_mem_nil, or_false, forall_eq_or_imp, forall_eq]
    omega
  | case3 p q =>
    simp only [List.mem_cons, List.not_mem_nil, or_false, forall_eq_or_imp, forall_eq] at h
    cases hbytes
    simp only [List.mem_singleton, forall_eq]
    omega
  | case4 => cases hbytes
  | case5 =>
    cases hbytes
    simp

theorem sextets_ne_nil {bytes : List ℕ} (h : bytes ≠ []) : Codec.sextets bytes ≠ [] := by
  induction bytes using Codec.sextets.induct with
  | case4 => exact absurd rfl h
  | _ => simp [Codec.sextets]

/-- A segment is accepted if it is the encoding of a few bytes, and stands for these. -/
theorem decodeJwtSegment_eq_ok {name : String} {encoded : Str} {limit : ℕ} {bytes : List ℕ} :
    decodeJwtSegment name encoded limit = .ok bytes ↔
      encoded = encodeSegment bytes ∧ bytes ≠ [] ∧ bytes.length ≤ limit ∧
        ∀ b ∈ bytes, b < 256 := by
  unfold decodeJwtSegment
  constructor
  · intro h
    cases hdigits : encoded.mapM segmentDigit with
    | none => simp [hdigits] at h
    | some digits =>
      simp only [hdigits] at h
      split_ifs at h with hempty
      cases hoctets : Codec.octets digits with
      | none => simp [hoctets] at h
      | some decoded =>
        simp only [hoctets] at h
        split_ifs at h with hcanonical hlong
        cases h
        have hsame : encodeSegment bytes = encoded := not_not.1 hcanonical
        refine ⟨hsame.symm,?_,not_lt.1 hlong,
          octets_lt digits (mapM_segmentDigit_lt hdigits) hoctets⟩
        rintro rfl
        rw [← hsame] at hempty
        exact hempty rfl
  · rintro ⟨rfl,hne,hlimit,hbytes⟩
    have hdigits : (encodeSegment bytes).mapM segmentDigit = some (Codec.sextets bytes) :=
      mapM_segmentDigit (Codec.sextets_lt bytes hbytes)
    have hempty : ¬ (encodeSegment bytes).isEmpty = true := by
      rw [List.isEmpty_iff, encodeSegment, List.map_eq_nil_iff]
      exact sextets_ne_nil hne
    simp only [hdigits, if_neg hempty, Codec.octets_sextets bytes hbytes, ne_eq,
      not_true_eq_false, if_false, if_neg (not_lt.2 hlimit)]

theorem dot_not_mem {bytes : List ℕ} (h : ∀ b ∈ bytes, b < 256) :
    (46 : CodePoint) ∉ encodeSegment bytes := by
  intro hdot
  obtain ⟨d,hd,he⟩ := List.mem_map.1 hdot
  exact digitChar_ne_dot d (Codec.sextets_lt bytes h d hd) he

/-! ### Objects are read strictly -/

theorem uniqueJsonObject_eq {result : Members} (ms : Members)
    (h : (result.map Prod.fst).Nodup) :
    uniqueJsonObject result ms =
      if ((result ++ ms).map Prod.fst).Nodup then some (result ++ ms) else none := by
  induction ms generalizing result with
  | nil => rw [uniqueJsonObject, List.append_nil, if_pos h]
  | cons m ms ih =>
    obtain ⟨key,value⟩ := m
    have hsplit : result ++ (key,value) :: ms = (result ++ [(key,value)]) ++ ms := by simp
    rw [uniqueJsonObject]
    by_cases hkey : key ∈ result.map Prod.fst
    · rw [if_pos hkey, if_neg]
      intro hnodup
      rw [List.map_append, List.map_cons] at hnodup
      exact (List.nodup_append.1 hnodup).2.2 key hkey key List.mem_cons_self rfl
    · rw [if_neg hkey, ih, hsplit]
      rw [List.map_append, List.map_singleton]
      exact List.Nodup.append h (List.nodup_singleton key) (by simpa using hkey)

theorem strict_object (ms : Members) :
    strict.object ms = if (ms.map Prod.fst).Nodup then some ms else none :=
  uniqueJsonObject_eq ms List.nodup_nil

theorem strict_strict : strict.Strict where
  faithful ms h := by rw [strict_object, if_pos h]
  object ms ms' h := by
    rw [strict_object] at h
    split_ifs at h with hnodup
    exact hnodup
  constant _ := rfl

/-- Every reader that keeps objects without repetitions reads the text as this value. -/
def ReadAs (py : Interpreter) (text : Str) (v : Value) : Prop :=
  ∀ R : Hooks, R.Faithful → readText R py text = .ok v

section Readings
variable {py : Interpreter}

theorem readAs_iff {text : Str} {v : Value} :
    ReadAs py text v ↔ readText strict py text = .ok v := by
  constructor
  · intro h
    exact h strict strict_strict.faithful
  · intro h R hR
    exact (strict_strict.readText hR h).2

theorem ReadAs.distinct {text : Str} {v : Value} (h : ReadAs py text v) : Distinct v :=
  (strict_strict.readText plain_faithful (readAs_iff.1 h)).1

theorem encode_ne_nil {text : Str} (h : text ≠ []) : Utf8.encode text ≠ [] := by
  cases text with
  | nil => exact absurd rfl h
  | cons c text =>
    rw [Utf8.encode, List.flatMap_cons]
    apply List.append_ne_nil_of_left_ne_nil
    unfold Utf8.encodeChar
    split_ifs <;> simp

/-- A segment that carries a text: the encoding of at most 8192 bytes of UTF-8. -/
structure Carries (segment text : Str) : Prop where
  encoding : segment = encodeSegment (Utf8.encode text)
  encodable : Utf8.Encodable text
  bounded : (Utf8.encode text).length ≤ 8192

theorem decodeJwtJson_eq_ok {name : String} {encoded : Str} {members : Members} :
    decodeJwtJson py name encoded = .ok members ↔
      ∃ text, Carries encoded text ∧ ReadAs py text (.object members) := by
  unfold decodeJwtJson
  constructor
  · intro h
    cases hraw : decodeJwtSegment name encoded 8192 with
    | error e => simp [hraw, bind, Except.bind] at h
    | ok raw =>
      simp only [hraw, bind, Except.bind] at h
      obtain ⟨hencoded,-,hlimit,-⟩ := decodeJwtSegment_eq_ok.1 hraw
      cases htext : Utf8.decode raw with
      | none => simp [htext] at h
      | some text =>
        simp only [htext] at h
        obtain ⟨rfl,hencodable⟩ := Utf8.decode_eq_some.1 htext
        refine ⟨text,⟨hencoded,hencodable,hlimit⟩,readAs_iff.2 ?_⟩
        cases hread : readText strict py text with
        | error e =>
          rw [hread] at h
          cases e <;> cases h
        | ok v =>
          rw [hread] at h
          cases v with
          | object ms =>
            cases h
            rfl
          | null | bool b | int n | float x | str s | list items => cases h
  · rintro ⟨text,⟨rfl,hencodable,hbounded⟩,hread⟩
    have hstrict := readAs_iff.1 hread
    have hne : text ≠ [] := by
      rintro rfl
      rw [readText_nil] at hstrict
      cases hstrict
    have hraw : decodeJwtSegment name (encodeSegment (Utf8.encode text)) 8192 =
        .ok (Utf8.encode text) :=
      decodeJwtSegment_eq_ok.2 ⟨rfl,encode_ne_nil hne,hbounded,Utf8.encode_lt text⟩
    simp only [hraw, bind, Except.bind, Utf8.decode_encode hencodable, hstrict]

end Readings

/-! ### Claims are exact -/

theorem eq_pair_of_keys {ms : Members} {k₁ k₂ : Str} (h : ms.map Prod.fst = [k₁,k₂]) :
    ∃ v₁ v₂, ms = [(k₁,v₁),(k₂,v₂)] := by
  obtain ⟨⟨_,v₁⟩,rest,rfl,rfl,hrest⟩ := List.map_eq_cons_iff.1 h
  obtain ⟨⟨_,v₂⟩,rest,rfl,rfl,hnil⟩ := List.map_eq_cons_iff.1 hrest
  cases List.map_eq_nil_iff.1 hnil
  exact ⟨v₁,v₂,rfl⟩

theorem lookup_pair {k₁ k₂ : Str} (hne : k₁ ≠ k₂) (v₁ v₂ : Value) :
    List.lookup k₁ [(k₁,v₁),(k₂,v₂)] = some v₁ ∧ List.lookup k₂ [(k₁,v₁),(k₂,v₂)] = some v₂ := by
  have hbeq : (k₂ == k₁) = false := beq_false_of_ne hne.symm
  constructor
  · exact List.lookup_cons_self
  · rw [List.lookup_cons, hbeq]
    exact List.lookup_cons_self

/-- An object without repetitions has exactly these two members. -/
theorem two_members {ms : Members} (hkeys : (ms.map Prod.fst).Nodup) {k₁ k₂ : Str}
    (hne : k₁ ≠ k₂) {v₁ v₂ : Value} :
    (hasKeys ms k₁ k₂ = true ∧ ms.lookup k₁ = some v₁ ∧ ms.lookup k₂ = some v₂) ↔
      ms.Perm [(k₁,v₁),(k₂,v₂)] := by
  constructor
  · rintro ⟨hset,h₁,h₂⟩
    have hperm : (ms.map Prod.fst).Perm [k₁,k₂] := by
      apply List.perm_of_nodup_nodup_toFinset_eq hkeys
      · simp [hne]
      · simpa [hasKeys] using hset
    rcases List.perm_pair.1 hperm with he | he
    · obtain ⟨w₁,w₂,rfl⟩ := eq_pair_of_keys he
      obtain ⟨hw₁,hw₂⟩ := lookup_pair hne w₁ w₂
      rw [hw₁, Option.some_inj] at h₁
      rw [hw₂, Option.some_inj] at h₂
      rw [h₁, h₂]
    · obtain ⟨w₂,w₁,rfl⟩ := eq_pair_of_keys he
      obtain ⟨hw₂,hw₁⟩ := lookup_pair hne.symm w₂ w₁
      rw [hw₁, Option.some_inj] at h₁
      rw [hw₂, Option.some_inj] at h₂
      rw [h₁, h₂]
      exact List.Perm.swap _ _ _
  · intro hperm
    rcases List.perm_pair.1 hperm with rfl | rfl
    · exact ⟨by simp [hasKeys],lookup_pair hne v₁ v₂⟩
    · exact ⟨by simp [hasKeys, Finset.pair_comm],(lookup_pair hne.symm v₂ v₁).symm⟩

theorem isText_iff {ms : Members} {key s : Str} :
    isText ms key s = true ↔ ms.lookup key = some (.str s) := by
  unfold isText
  cases ms.lookup key with
  | none => simp
  | some v => cases v <;> simp

@[simp] theorem require_eq_ok {condition : Bool} {message : String} {u : Unit} :
    require condition message = .ok u ↔ condition = true := by
  cases condition <;> simp [require]

theorem token_bind_eq_ok {α β : Type} {x : Except TokenError α} {f : α → Except TokenError β}
    {b : β} : (x >>= f) = .ok b ↔ ∃ a, x = .ok a ∧ f a = .ok b := by
  cases x with
  | error e => simp [bind, Except.bind]
  | ok a => simp [bind, Except.bind]

/-- A rule that grants reading and writing in one collection, and nothing else. -/
def Grants (rule : Value) (collection : Str) : Prop :=
  ∃ ms : Members, rule = .object ms ∧
    ms.Perm [(str "collection",.str collection),(str "access",.str (str "rw"))]

theorem collection_ne_access : str "collection" ≠ str "access" := by decide

theorem readGrants_cons {rule : Value} (hrule : Distinct rule) {rules : List Value}
    {granted out : List Str} :
    readGrants granted (rule :: rules) = .ok out ↔
      ∃ name, Grants rule name ∧ Profiles.isCollectionName name = true ∧ name ∉ granted ∧
        readGrants (granted ++ [name]) rules = .ok out := by
  constructor
  · intro h
    cases rule with
    | object ms =>
      cases hrule with
      | object hkeys hall =>
        rw [readGrants, token_bind_eq_ok] at h
        obtain ⟨⟨⟩,hset,h⟩ := h
        cases hname : ms.lookup (str "collection") with
        | none => simp [hname] at h
        | some v =>
          rw [hname] at h
          cases v with
          | str name =>
            simp only [token_bind_eq_ok, require_eq_ok, exists_const] at h hset
            obtain ⟨hvalid,haccess,hfresh,h⟩ := h
            refine ⟨name,⟨ms,rfl,?_⟩,hvalid,by simpa using hfresh,h⟩
            exact (two_members hkeys collection_ne_access).1 ⟨hset,hname,isText_iff.1 haccess⟩
          | null | bool b | int n | float x | list items | object members => cases h
    | null | bool b | int n | float x | str s | list items => cases h
  · rintro ⟨name,⟨ms,rfl,hperm⟩,hvalid,hfresh,h⟩
    cases hrule with
    | object hkeys hall =>
      obtain ⟨hset,hname,haccess⟩ := (two_members hkeys collection_ne_access).2 hperm
      rw [readGrants, token_bind_eq_ok]
      refine ⟨(),require_eq_ok.2 hset,?_⟩
      have hnot : (!granted.contains name) = true := by simpa using hfresh
      simp only [hname, token_bind_eq_ok, require_eq_ok, exists_const]
      exact ⟨hvalid,isText_iff.2 haccess,hnot,h⟩

theorem readGrants_eq_ok {rules : List Value} (hdistinct : ∀ v ∈ rules, Distinct v)
    {granted out : List Str} :
    readGrants granted rules = .ok out ↔
      ∃ names, out = granted ++ names ∧ List.Forall₂ Grants rules names ∧
        (∀ name ∈ names, Profiles.isCollectionName name = true) ∧ names.Nodup ∧
        ∀ name ∈ names, name ∉ granted := by
  induction rules generalizing granted with
  | nil =>
    constructor
    · intro h
      cases h
      exact ⟨[],by simp⟩
    · rintro ⟨names,rfl,hrules,-⟩
      cases hrules
      rw [readGrants, List.append_nil]
  | cons rule rules ih =>
    obtain ⟨hrule,hrules⟩ := List.forall_mem_cons.1 hdistinct
    rw [readGrants_cons hrule]
    constructor
    · rintro ⟨name,hgrants,hvalid,hfresh,h⟩
      obtain ⟨names,rfl,hall,hnames,hnodup,hrest⟩ := (ih hrules).1 h
      have hnotin : name ∉ names := fun hm => hrest name hm (by simp)
      refine ⟨name :: names,by simp,.cons hgrants hall,List.forall_mem_cons.2 ⟨hvalid,hnames⟩,
        List.nodup_cons.2 ⟨hnotin,hnodup⟩,List.forall_mem_cons.2 ⟨hfresh,fun n hn hg => ?_⟩⟩
      exact hrest n hn (List.mem_append_left _ hg)
    · rintro ⟨names,rfl,hall,hnames,hnodup,hrest⟩
      cases hall with
      | @cons _ name _ names hgrants hall =>
        obtain ⟨hnotin,hnodup⟩ := List.nodup_cons.1 hnodup
        obtain ⟨hvalid,hnames⟩ := List.forall_mem_cons.1 hnames
        obtain ⟨hfresh,hrest⟩ := List.forall_mem_cons.1 hrest
        refine ⟨name,hgrants,hvalid,hfresh,(ih hrules).2 ⟨names,by simp,hall,hnames,hnodup,?_⟩⟩
        intro n hn hmem
        rcases List.mem_append.1 hmem with hmem | hmem
        · exact hrest n hn hmem
        · rw [List.mem_singleton.1 hmem] at hn
          exact hnotin hn

theorem checkExpiration_eq_ok {now : ℤ} {payload : Members} {u : Unit} :
    checkExpiration now payload = .ok u ↔ ∃ exp : ℤ, payload.lookup (str "exp") = some (.int exp) ∧
      now + 30 < exp ∧ exp ≤ 9223372036854775807 := by
  unfold checkExpiration
  cases payload.lookup (str "exp") with
  | none => simp
  | some v =>
    cases v with
    | int exp =>
      simp only [token_bind_eq_ok, require_eq_ok, exists_const, decide_eq_true_eq,
        Option.some_inj, Value.int.injEq, exists_eq_left']
      exact and_comm
    | null | bool b | float x | str s | list items | object members => simp

theorem checkAccess_eq_ok {allowed : Finset Str} {payload : Members} :
    checkAccess allowed payload = .ok () ↔ ∃ rules granted,
      payload.lookup (str "access") = some (.list rules) ∧
      readGrants [] rules = .ok granted ∧ granted.toFinset = allowed := by
  unfold checkAccess
  cases payload.lookup (str "access") with
  | none => simp
  | some v =>
    cases v with
    | list rules =>
      simp only [token_bind_eq_ok, require_eq_ok, decide_eq_true_eq, Option.some_inj,
        Value.list.injEq, exists_and_left, exists_eq_left']
    | null | bool b | int n | float x | str s | object members => simp

/-! ### Accepted tokens -/

def compact (header payload signature : Str) : Str :=
  List.intercalate [46] [header,payload,signature]

/-- To every reader the header names the algorithm and the type, and nothing else. -/
def SaysHeader (py : Interpreter) (text : Str) : Prop :=
  ∃ header : Members, ReadAs py text (.object header) ∧
    header.Perm [(str "alg",.str (str "HS256")),(str "typ",.str (str "JWT"))]

/-- To every reader the payload grants reading and writing in each allowed collection once, until
`exp`, and nothing else. -/
def SaysPayload (py : Interpreter) (allowed : Finset Str) (exp : ℤ) (text : Str) : Prop :=
  ∃ (payload : Members) (rules : List Value) (names : List Str),
    ReadAs py text (.object payload) ∧
    payload.Perm [(str "access",.list rules),(str "exp",.int exp)] ∧
    List.Forall₂ Grants rules names ∧ names.Nodup ∧ names.toFinset = allowed ∧
    ∀ name ∈ names, Profiles.isCollectionName name = true

/-- A compact token whose grants are the allowed collections, and which outlives the skew of the
clocks. -/
def Scoped (py : Interpreter) (now : ℤ) (allowed : Finset Str) (token : Str) : Prop :=
  token.length ≤ 16384 ∧ ∃ (first second header payload : Str) (signature : List ℕ) (exp : ℤ),
    token = compact first second (encodeSegment signature) ∧
    Carries first header ∧ SaysHeader py header ∧
    Carries second payload ∧ SaysPayload py allowed exp payload ∧
    signature.length = 32 ∧ (∀ b ∈ signature, b < 256) ∧
    now + 30 < exp ∧ exp ≤ 9223372036854775807

section Accepted
variable {py : Interpreter} {now : ℤ} {allowed : Finset Str}

theorem splitOn_compact {token first second third : Str} (h₁ : (46 : CodePoint) ∉ first)
    (h₂ : (46 : CodePoint) ∉ second) (h₃ : (46 : CodePoint) ∉ third) :
    token.splitOn 46 = [first,second,third] ↔ token = compact first second third := by
  constructor
  · intro h
    rw [compact, ← h, List.intercalate_splitOn]
  · rintro rfl
    apply List.splitOn_intercalate
    · simp only [List.mem_cons, List.not_mem_nil, or_false, forall_eq_or_imp, forall_eq]
      exact ⟨h₁,h₂,h₃⟩
    · exact List.cons_ne_nil _ _

theorem Carries.dot_not_mem {segment text : Str} (h : Carries segment text) :
    (46 : CodePoint) ∉ segment := by
  rw [h.encoding]
  exact AccessToken.dot_not_mem (Utf8.encode_lt text)

theorem checkClaims_eq_ok {header payload : Members} (hheader : Distinct (.object header))
    (hpayload : Distinct (.object payload)) {signature : List ℕ} :
    checkClaims now allowed header payload signature = .ok () ↔
      header.Perm [(str "alg",.str (str "HS256")),(str "typ",.str (str "JWT"))] ∧
      signature.length = 32 ∧ ∃ (rules : List Value) (names : List Str) (exp : ℤ),
        payload.Perm [(str "access",.list rules),(str "exp",.int exp)] ∧
        now + 30 < exp ∧ exp ≤ 9223372036854775807 ∧
        List.Forall₂ Grants rules names ∧ names.Nodup ∧ names.toFinset = allowed ∧
        ∀ name ∈ names, Profiles.isCollectionName name = true := by
  have halg : str "alg" ≠ str "typ" := by decide
  have haccess : str "access" ≠ str "exp" := by decide
  cases hheader with
  | object hheaderKeys hheaderAll =>
  cases hpayload with
  | object hpayloadKeys hpayloadAll =>
  simp only [checkClaims, token_bind_eq_ok, require_eq_ok, exists_const, Bool.and_eq_true,
    isText_iff, and_assoc, checkExpiration_eq_ok, checkAccess_eq_ok, decide_eq_true_eq]
  constructor
  · rintro ⟨hkeys,hname,htype,hlength,hclaims,⟨exp,hexp,hlate,hbound⟩,rules,granted,hrules,hread,
      hexact⟩
    have hperm := (two_members hpayloadKeys haccess).1 ⟨hclaims,hrules,hexp⟩
    have hdistinct : Distinct (.list rules) :=
      hpayloadAll _ (hperm.mem_iff.2 List.mem_cons_self)
    cases hdistinct with
    | list hall =>
      obtain ⟨names,hgranted,hgrants,hvalid,hnodup,-⟩ := (readGrants_eq_ok hall).1 hread
      rw [hgranted, List.nil_append] at hexact
      exact ⟨(two_members hheaderKeys halg).1 ⟨hkeys,hname,htype⟩,hlength,rules,names,exp,hperm,
        hlate,hbound,hgrants,hnodup,hexact,hvalid⟩
  · rintro ⟨hheader,hlength,rules,names,exp,hperm,hlate,hbound,hgrants,hnodup,hexact,hvalid⟩
    obtain ⟨hkeys,hname,htype⟩ := (two_members hheaderKeys halg).2 hheader
    obtain ⟨hclaims,hrules,hexp⟩ := (two_members hpayloadKeys haccess).2 hperm
    have hdistinct : Distinct (.list rules) :=
      hpayloadAll _ (hperm.mem_iff.2 List.mem_cons_self)
    cases hdistinct with
    | list hall =>
      have hread : readGrants [] rules = .ok names :=
        (readGrants_eq_ok hall).2 ⟨names,rfl,hgrants,hvalid,hnodup,by simp⟩
      exact ⟨hkeys,hname,htype,hlength,hclaims,⟨exp,hexp,hlate,hbound⟩,rules,names,hrules,hread,
        hexact⟩

end Accepted

/-- A token is accepted exactly if it is scoped to the allowed collections: to every reader of
JSON, whatever it makes of repeated members and of constants, it grants reading and writing in
each of them, and nothing else. -/
theorem accepted_iff_scoped (py : Interpreter) (now : ℤ) (allowed : Finset Str) (token : Str) :
    validateQdrantAccessToken py now token allowed = .ok () ↔ Scoped py now allowed token := by
  unfold validateQdrantAccessToken Scoped
  rw [token_bind_eq_ok]
  constructor
  · rintro ⟨⟨⟩,hbounded,h⟩
    refine ⟨by simpa using hbounded,?_⟩
    split at h
    · next first second third hsplit =>
      rw [token_bind_eq_ok] at h
      obtain ⟨alg,halg,h⟩ := h
      rw [token_bind_eq_ok] at h
      obtain ⟨claims,hclaims,h⟩ := h
      rw [token_bind_eq_ok] at h
      obtain ⟨signature,hsignature,h⟩ := h
      obtain ⟨header,hfirst,hheader⟩ := decodeJwtJson_eq_ok.1 halg
      obtain ⟨payload,hsecond,hpayload⟩ := decodeJwtJson_eq_ok.1 hclaims
      obtain ⟨rfl,-,-,hbytes⟩ := decodeJwtSegment_eq_ok.1 hsignature
      obtain ⟨hnames,hlength,rules,names,exp,hperm,hlate,hbound,hgrants⟩ :=
        (checkClaims_eq_ok hheader.distinct hpayload.distinct).1 h
      have htoken := (splitOn_compact hfirst.dot_not_mem hsecond.dot_not_mem
        (dot_not_mem hbytes)).1 hsplit
      exact ⟨first,second,header,payload,signature,exp,htoken,hfirst,⟨alg,hheader,hnames⟩,hsecond,
        ⟨claims,rules,names,hpayload,hperm,hgrants⟩,hlength,hbytes,hlate,hbound⟩
    · cases h
  · rintro ⟨hbounded,first,second,header,payload,signature,exp,htoken,hfirst,
      ⟨alg,hheader,hnames⟩,hsecond,⟨claims,rules,names,hpayload,hperm,hgrants⟩,hlength,hbytes,hlate,
      hbound⟩
    have hsplit := (splitOn_compact hfirst.dot_not_mem hsecond.dot_not_mem
      (dot_not_mem hbytes)).2 htoken
    have hne : signature ≠ [] := by
      intro he
      rw [he] at hlength
      cases hlength
    have halg : decodeJwtJson py "header" first = .ok alg :=
      decodeJwtJson_eq_ok.2 ⟨header,hfirst,hheader⟩
    have hread : decodeJwtJson py "payload" second = .ok claims :=
      decodeJwtJson_eq_ok.2 ⟨payload,hsecond,hpayload⟩
    have hsignature : decodeJwtSegment "signature" (encodeSegment signature) 64 = .ok signature :=
      decodeJwtSegment_eq_ok.2 ⟨rfl,hne,by omega,hbytes⟩
    have hclaims : checkClaims now allowed alg claims signature = .ok () :=
      (checkClaims_eq_ok hheader.distinct hpayload.distinct).2
        ⟨hnames,hlength,rules,names,exp,hperm,hlate,hbound,hgrants⟩
    refine ⟨(),by simpa using hbounded,?_⟩
    simp only [hsplit, token_bind_eq_ok]
    exact ⟨alg,halg,claims,hread,signature,hsignature,hclaims⟩

/-- A token for two collections, and the last second at which it is accepted. -/
example :
    let token := str "eyJhbGciOiJIUzI1NiIs" ++ str "InR5cCI6IkpXVCJ9" ++
      str ".eyJhY2Nlc3MiOlt7ImFjY2V" ++ str "zcyI6InJ3IiwiY29sbGVjdGl" ++
      str "vbiI6ImN1c3RvbWVyIn0seyJ" ++ str "hY2Nlc3MiOiJydyIsImNvbGx" ++
      str "lY3Rpb24iOiJzY3JlZW5pbmc" ++ str "ifV0sImV4cCI6NDYwMH0" ++
      str ".c3Nzc3Nzc3Nzc3Nzc3Nzc" ++ str "3Nzc3Nzc3Nzc3Nzc3Nzc3M"
    let validate := fun now => validateQdrantAccessToken (fractions none none) now token
      (allowedCollections [str "customer"] (str "screening"))
    (validate 4569).toBool = true ∧ (validate 4570).toBool = false := by decide +kernel

end AccessToken
end PdfBridge
