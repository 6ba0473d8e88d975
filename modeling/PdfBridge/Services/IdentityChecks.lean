import PdfBridge.Services.ProfileChain

/-! The check of an identity reads the links of a chain back: built profiles pass it, and no part
of an accepted identity can be replaced alone. -/
namespace PdfBridge
namespace Profiles
open Json Unicode

variable {py : Interpreter} {sha256 : Str → Digest}

/-! ### Members of an object -/

theorem lookup_of_mem {ms : Members} {m : Str × Value} (hkeys : (ms.map Prod.fst).Nodup)
    (hm : m ∈ ms) : ms.lookup m.1 = some m.2 := by
  induction ms with
  | nil => cases hm
  | cons x xs ih =>
    rw [List.map_cons, List.nodup_cons] at hkeys
    rw [List.lookup_cons]
    rcases List.mem_cons.1 hm with rfl | hm
    · rw [beq_self_eq_true]
    · have hne : (m.1 == x.1) = false := by
        rw [beq_eq_false_iff_ne]
        intro heq
        exact hkeys.1 (heq ▸ List.mem_map_of_mem hm)
      rw [hne]
      exact ih hkeys.2 hm

/-- A field of a written record is found under its key. -/
theorem lookup_byKey {n : ℕ} {keys : Fin n ↪ Key} (h : TextKeys keys) (values : Fin n → Input)
    {key : Str} (i : Fin n) (hkey : keys i = .str key) :
    (byKey (members keys values)).lookup key = some (form (values i)) := by
  have hnodup : ((byKey (members keys values)).map Prod.fst).Nodup := by
    rw [((perm_byKey _).map Prod.fst).nodup_iff]
    exact h.nodup values
  have hmem : (key,form (values i)) ∈ byKey (members keys values) := by
    rw [(perm_byKey _).mem_iff, mem_members]
    exact ⟨i,by rw [hkey, keyText]⟩
  exact lookup_of_mem hnodup hmem

theorem form_str (s : Str) : form (.str s) = .str s := by
  rw [form, toJson, sorted]

/-- Comparison with a text. -/
theorem fieldsEqual_str {x : Option Value} {s : Str} :
    fieldsEqual x (some (.str s)) = true ↔ x = some (.str s) := by
  cases x with
  | none => simp [fieldsEqual, valuesEqual, numberOf]
  | some v =>
    cases v with
    | float x => cases x <;> simp [fieldsEqual, valuesEqual, numberOf]
    | _ => simp [fieldsEqual, valuesEqual, numberOf]

/-! ### One profile -/

theorem demand_eq_ok {c : Bool} {code message : String} {u : Unit} :
    demand c code message = .ok u ↔ c = true := by
  simp only [demand]
  split <;> simp [*]

/-- What `_validate_profile_identity` has read from an accepted profile. -/
structure Reads (py : Interpreter) (sha256 : Str → Digest) (profile : ProfileIdentity)
    (kind : String) (payload : Members) : Prop where
  isId : isProfileId profile.profileId = true
  valid : profile.canonicalJson.any isSurrogate = false
  digest : profile.profileId = str "sha256:" ++ hexdigest (sha256 profile.canonicalJson)
  json : loads (unlimited py) profile.canonicalJson = .ok (.object payload)
  kind : payload.lookup kindKey = some (.str (str kind))

theorem sha256Text_eq_ok {text digest : Str} :
    sha256Text sha256 text = .ok digest ↔
      text.any isSurrogate = false ∧ hexdigest (sha256 text) = digest := by
  simp only [sha256Text]
  split
  · rename_i h
    simp [h]
  · rename_i h
    simp [h]

theorem validateProfileIdentity_eq_ok {profile : ProfileIdentity} {kind : String}
    {payload : Members} :
    validateProfileIdentity py sha256 profile kind = .ok payload ↔
      Reads py sha256 profile kind payload := by
  simp only [validateProfileIdentity, bind_ok, demand_eq_ok, sha256Text_eq_ok, decide_eq_true_eq]
  constructor
  · rintro ⟨⟨⟩,hid,digest,⟨hvalid,rfl⟩,⟨⟩,hdigest,h⟩
    split at h
    · cases h
    · cases h
    · rename_i payload' hjson
      obtain ⟨⟨⟩,hkind,h⟩ := bind_ok.1 h
      rw [pure_ok] at h
      subst h
      exact ⟨hid,hvalid,hdigest,hjson,fieldsEqual_str.1 (demand_eq_ok.1 hkind)⟩
    · cases h
  · intro h
    refine ⟨(),h.isId,_,⟨h.valid,rfl⟩,(),h.digest,?_⟩
    rw [h.json]
    exact bind_ok.2 ⟨(),demand_eq_ok.2 (fieldsEqual_str.2 h.kind),rfl⟩

theorem Reads.payload_unique {profile : ProfileIdentity} {kind : String} {a b : Members}
    (ha : Reads py sha256 profile kind a) (hb : Reads py sha256 profile kind b) : a = b := by
  have h := ha.json
  rw [hb.json] at h
  cases h
  rfl

/-- An accepted profile is known from its identifier, where no two texts collide. -/
theorem Reads.eq_of_profileId {texts : Set Str} (hfree : Set.InjOn sha256 texts)
    {p r : ProfileIdentity} {kind : String} {a b : Members} (hp : Reads py sha256 p kind a)
    (hr : Reads py sha256 r kind b) (hpt : p.canonicalJson ∈ texts)
    (hrt : r.canonicalJson ∈ texts) (h : p.profileId = r.profileId) : p = r := by
  have hjson : p.canonicalJson = r.canonicalJson := by
    rw [← digest_eq_iff hfree hpt hrt, ← hp.digest, ← hr.digest]
    exact h
  cases p
  cases r
  simp only at h hjson
  rw [h, hjson]

/-! ### The whole identity -/

/-- What `validate_preparation_identity` has checked of an accepted identity. -/
structure Checked (py : Interpreter) (sha256 : Str → Digest) (d : PreparationIdentity)
    (content index policy : Members) : Prop where
  target : isLabel d.activeQdrantCollection = true
  formatterModel : isModelId d.formatterModelId = true
  denseModel : isModelId d.denseModelId = true
  sparseModel : isModelId d.sparseModelId = true
  tokenizerClass : isLabel d.formatterTokenizerClass = true
  contentRead : Reads py sha256 d.profiles.content "content" content
  indexRead : Reads py sha256 d.profiles.index "index" index
  policyRead : Reads py sha256 d.profiles.preflightPolicy "preflight_policy" policy
  tokenizer : ∃ inputs, content.lookup inputsKey = some (.object inputs) ∧
    inputs.lookup tokenizerKey = some (.str d.formatterTokenizerClass)
  schema : fieldsEqual (content.lookup schemaKey) (index.lookup schemaKey) = true
  contentLink : index.lookup contentIdKey = some (.str d.profiles.content.profileId)
  collectionLink : index.lookup collectionKey = some (.str d.activeQdrantCollection)
  indexLink : policy.lookup indexIdKey = some (.str d.profiles.index.profileId)

theorem tokenizer_eq_true {content : Members} {tokenizerClass : Str} :
    (match content.lookup inputsKey with
      | some (.object inputs) => fieldsEqual (inputs.lookup tokenizerKey)
          (some (.str tokenizerClass))
      | _ => false) = true ↔
      ∃ inputs, content.lookup inputsKey = some (.object inputs) ∧
        inputs.lookup tokenizerKey = some (.str tokenizerClass) := by
  split
  · rename_i inputs h
    rw [fieldsEqual_str]
    constructor
    · exact fun hclass => ⟨inputs,h,hclass⟩
    · rintro ⟨inputs',hinputs,hclass⟩
      rw [h] at hinputs
      cases hinputs
      exact hclass
  · rename_i h
    refine ⟨fun hfalse => (by cases hfalse),?_⟩
    rintro ⟨inputs,hinputs,-⟩
    exact absurd hinputs (h inputs)

theorem validate_eq_ok {d : PreparationIdentity} :
    validatePreparationIdentity py sha256 d = .ok () ↔
      ∃ content index policy, Checked py sha256 d content index policy := by
  simp only [validatePreparationIdentity, bind_ok, demand_eq_ok, validateProfileIdentity_eq_ok,
    fieldsEqual_str]
  constructor
  · rintro ⟨⟨⟩,htarget,⟨⟩,hformatter,⟨⟩,hdense,⟨⟩,hsparse,⟨⟩,hclass,content,hcontent,index,
      hindex,policy,hpolicy,⟨⟩,htokenizer,⟨⟩,hschema,⟨⟩,hcontentLink,⟨⟩,hcollection,hindexLink⟩
    exact ⟨content,index,policy,htarget,hformatter,hdense,hsparse,hclass,hcontent,hindex,hpolicy,
      tokenizer_eq_true.1 htokenizer,hschema,hcontentLink,hcollection,hindexLink⟩
  · rintro ⟨content,index,policy,h⟩
    exact ⟨(),h.target,(),h.formatterModel,(),h.denseModel,(),h.sparseModel,(),h.tokenizerClass,
      content,h.contentRead,index,h.indexRead,policy,h.policyRead,(),tokenizer_eq_true.2 h.tokenizer,(),h.schema,(),h.contentLink,
      (),h.collectionLink,h.indexLink⟩

/-! ### Built profiles are accepted -/

/-- The mapping of inputs names a tokenizer class. -/
inductive NamesTokenizer : Input → Str → Prop
  | mapping {n : ℕ} {keys : Fin n ↪ Key} {values : Fin n → Input} {tokenizerClass : Str} (i : Fin n)
      (hkey : keys i = .str tokenizerKey) (hvalue : values i = .str tokenizerClass) :
      NamesTokenizer (.mapping keys values) tokenizerClass

theorem Normal.eq_str {s : Str} {v : Input} (h : Normal (.str s) v) : v = .str s := by
  cases h
  rfl

/-- The class is found in the form of the normalized inputs. -/
theorem NamesTokenizer.lookup {inputs v : Input} {tokenizerClass : Str}
    (h : NamesTokenizer inputs tokenizerClass) (hnormal : Normal inputs v) :
    ∃ ms, form v = .object ms ∧ ms.lookup tokenizerKey = some (.str tokenizerClass) := by
  cases h with
  | @mapping n keys values _ i hkey hvalue =>
    cases hnormal with
    | @mapping _ _ _ values' hkeys h =>
      have htext : TextKeys keys := fun i => (hkeys i).imp fun _ h => h.1
      refine ⟨_,form_mapping keys values',?_⟩
      rw [lookup_byKey htext values' i hkey]
      have hi := h i
      rw [hvalue] at hi
      rw [hi.eq_str, form_str]

theorem Built.reads {n : ℕ} {keys : Fin n ↪ Key} {values : Fin n → Input} {p : ProfileIdentity}
    {kind : String} (h : Built py sha256 (.mapping keys values) p)
    (hnormal : Normal (.mapping keys values) (.mapping keys values)) (i : Fin n)
    (hkey : keys i = .str kindKey) (hvalue : values i = .str (str kind)) :
    Reads py sha256 p kind (byKey (members keys values)) := by
  have htext : TextKeys keys := by
    cases hnormal with
    | mapping _ hkeys _ => exact fun i => (hkeys i).imp fun _ h => h.1
  have hdigest := h.profileId
  refine ⟨?_,?_,hdigest,?_,?_⟩
  · rw [hdigest]
    exact isProfileId_digest _
  · rw [h.eq]
    exact h.valid
  · rw [h.eq]
    exact (loads_canonicalText hnormal).trans (by rw [form_mapping])
  · rw [lookup_byKey htext _ i hkey, hvalue, form_str]

theorem contentKeys_textKeys : TextKeys contentKeys :=
  fun i => (contentKeys_text i).imp fun _ h => h.1

theorem indexKeys_textKeys : TextKeys indexKeys :=
  fun i => (indexKeys_text i).imp fun _ h => h.1

theorem policyKeys_textKeys : TextKeys policyKeys :=
  fun i => (policyKeys_text i).imp fun _ h => h.1

/-- A chain is accepted with its collection and the class that its content inputs name, if this
class and the model identifiers pass the checks of their own. -/
theorem Chain.validate_iff {contentInputs indexInputs policyInputs : Input} {collection : Str}
    {p : PipelineProfiles} {c i q : Input}
    (h : Chain py sha256 contentInputs indexInputs policyInputs collection p c i q)
    {tokenizerClass : Str} (hclass : NamesTokenizer contentInputs tokenizerClass)
    (formatterModelId denseModelId sparseModelId : Str) :
    validatePreparationIdentity py sha256
        ⟨collection,p,formatterModelId,tokenizerClass,denseModelId,sparseModelId⟩ = .ok () ↔
      isLabel tokenizerClass = true ∧ isModelId formatterModelId = true ∧
        isModelId denseModelId = true ∧ isModelId sparseModelId = true := by
  rw [validate_eq_ok]
  constructor
  · rintro ⟨content,index,policy,hchecked⟩
    exact ⟨hchecked.tokenizerClass,hchecked.formatterModel,hchecked.denseModel,
      hchecked.sparseModel⟩
  · rintro ⟨hlabel,hformatter,hdense,hsparse⟩
    obtain ⟨ms,hms,hlookup⟩ := hclass.lookup h.contentNormal
    refine ⟨_,_,_,collectionName_label h.target,hformatter,hdense,hsparse,hlabel,
      h.content.reads (normal_contentMaterial h.contentNormal) 1 rfl rfl,
      h.index.reads h.index_normal 1 rfl rfl,h.policy.reads h.policy_normal 1 rfl rfl,
      ⟨ms,?_,hlookup⟩,?_,?_,?_,?_⟩
    · rw [lookup_byKey contentKeys_textKeys _ 2 rfl]
      exact congrArg some hms
    · rw [lookup_byKey contentKeys_textKeys _ 0 rfl, lookup_byKey indexKeys_textKeys _ 0 rfl]
      rfl
    · rw [lookup_byKey indexKeys_textKeys _ 2 rfl]
      exact congrArg some (form_str _)
    · rw [lookup_byKey indexKeys_textKeys _ 3 rfl]
      exact congrArg some (form_str _)
    · rw [lookup_byKey policyKeys_textKeys _ 2 rfl]
      exact congrArg some (form_str _)

/-! ### Alterations -/

/-- Nothing that differs in one part only is accepted beside `d`. -/
structure Isolated (py : Interpreter) (sha256 : Str → Digest) (texts : Set Str)
    (d : PreparationIdentity) : Prop where
  collection : ∀ target, target ≠ d.activeQdrantCollection →
    validatePreparationIdentity py sha256 {d with activeQdrantCollection := target} ≠ .ok ()
  tokenizerClass : ∀ tokenizerClass, tokenizerClass ≠ d.formatterTokenizerClass →
    validatePreparationIdentity py sha256 {d with formatterTokenizerClass := tokenizerClass} ≠
      .ok ()
  content : ∀ r, r ≠ d.profiles.content → r.canonicalJson ∈ texts →
    validatePreparationIdentity py sha256 {d with profiles.content := r} ≠ .ok ()
  index : ∀ r, r ≠ d.profiles.index → r.canonicalJson ∈ texts →
    validatePreparationIdentity py sha256 {d with profiles.index := r} ≠ .ok ()
  policy : ∀ inputs indexId r, buildPreflightPolicyProfile py sha256 inputs indexId = .ok r →
    indexId ≠ d.profiles.index.profileId →
    validatePreparationIdentity py sha256 {d with profiles.preflightPolicy := r} ≠ .ok ()
  builtIndex : ∀ inputs contentId target r,
    buildIndexProfile py sha256 inputs contentId target = .ok r → r ≠ d.profiles.index →
    r.canonicalJson ∈ texts → r.profileId ≠ d.profiles.index.profileId

section Alterations
variable {texts : Set Str} {d : PreparationIdentity} {content index policy : Members}

theorem text_inj {s t : Str} (h : some (Value.str s) = some (Value.str t)) : s = t :=
  Value.str.inj (Option.some.inj h)

theorem Checked.collection_unique (h : Checked py sha256 d content index policy) {target : Str}
    {content' index' policy' : Members}
    (h' : Checked py sha256 {d with activeQdrantCollection := target} content' index' policy') :
    target = d.activeQdrantCollection := by
  have hlink := h'.collectionLink
  rw [h'.indexRead.payload_unique h.indexRead, h.collectionLink] at hlink
  exact (text_inj hlink).symm

theorem Checked.tokenizerClass_unique (h : Checked py sha256 d content index policy)
    {tokenizerClass : Str} {content' index' policy' : Members}
    (h' : Checked py sha256 {d with formatterTokenizerClass := tokenizerClass} content' index'
      policy') : tokenizerClass = d.formatterTokenizerClass := by
  obtain ⟨inputs,hinputs,hclass⟩ := h.tokenizer
  obtain ⟨inputs',hinputs',hclass'⟩ := h'.tokenizer
  rw [h'.contentRead.payload_unique h.contentRead, hinputs] at hinputs'
  cases hinputs'
  rw [hclass] at hclass'
  exact (text_inj hclass').symm

/-- The index profile binds the content profile. -/
theorem Checked.content_unique (hfree : Set.InjOn sha256 texts)
    (h : Checked py sha256 d content index policy)
    (hd : d.profiles.content.canonicalJson ∈ texts) {r : ProfileIdentity}
    (hr : r.canonicalJson ∈ texts) {content' index' policy' : Members}
    (h' : Checked py sha256 {d with profiles.content := r} content' index' policy') :
    r = d.profiles.content := by
  have hlink := h'.contentLink
  rw [h'.indexRead.payload_unique h.indexRead, h.contentLink] at hlink
  exact h'.contentRead.eq_of_profileId hfree h.contentRead hr hd (text_inj hlink).symm

/-- The policy profile binds the index profile. -/
theorem Checked.index_unique (hfree : Set.InjOn sha256 texts)
    (h : Checked py sha256 d content index policy)
    (hd : d.profiles.index.canonicalJson ∈ texts) {r : ProfileIdentity}
    (hr : r.canonicalJson ∈ texts) {content' index' policy' : Members}
    (h' : Checked py sha256 {d with profiles.index := r} content' index' policy') :
    r = d.profiles.index := by
  have hlink := h'.indexLink
  rw [h'.policyRead.payload_unique h.policyRead, h.indexLink] at hlink
  exact h'.indexRead.eq_of_profileId hfree h.indexRead hr hd (text_inj hlink).symm

/-- A built policy profile is accepted beside the index profile that it was built on. -/
theorem Checked.policy_unique {inputs : Input} {indexId : Str} {r : ProfileIdentity}
    (hr : buildPreflightPolicyProfile py sha256 inputs indexId = .ok r)
    {content' index' policy' : Members}
    (h' : Checked py sha256 {d with profiles.preflightPolicy := r} content' index' policy') :
    indexId = d.profiles.index.profileId := by
  obtain ⟨v,-,hbuilt,hnormal⟩ := built_policy hr
  have hlink := h'.indexLink
  rw [h'.policyRead.payload_unique (hbuilt.reads hnormal 1 rfl rfl),
    lookup_byKey policyKeys_textKeys _ 2 rfl] at hlink
  exact text_inj ((congrArg some (form_str indexId)).symm.trans hlink)

/-- An index profile built elsewhere has an identifier of its own. -/
theorem Checked.builtIndex_unique (hfree : Set.InjOn sha256 texts)
    (h : Checked py sha256 d content index policy)
    (hd : d.profiles.index.canonicalJson ∈ texts) {inputs : Input} {contentId target : Str}
    {r : ProfileIdentity} (hr : buildIndexProfile py sha256 inputs contentId target = .ok r)
    (hrt : r.canonicalJson ∈ texts) (heq : r.profileId = d.profiles.index.profileId) :
    r = d.profiles.index := by
  obtain ⟨-,v,-,hbuilt,hnormal⟩ := built_index hr
  exact (hbuilt.reads hnormal 1 rfl rfl).eq_of_profileId hfree h.indexRead hrt hd heq

theorem isolated_of_validate (hfree : Set.InjOn sha256 texts) (hd : d.profiles.texts ⊆ texts)
    (h : validatePreparationIdentity py sha256 d = .ok ()) : Isolated py sha256 texts d := by
  obtain ⟨content,index,policy,h⟩ := validate_eq_ok.1 h
  refine ⟨fun target hne h' => ?_,fun tokenizerClass hne h' => ?_,fun r hne hr h' => ?_,
    fun r hne hr h' => ?_,fun inputs indexId r hr hne h' => ?_,
    fun inputs contentId target r hr hne hrt heq => ?_⟩
  · obtain ⟨content',index',policy',h'⟩ := validate_eq_ok.1 h'
    exact hne (h.collection_unique h')
  · obtain ⟨content',index',policy',h'⟩ := validate_eq_ok.1 h'
    exact hne (h.tokenizerClass_unique h')
  · obtain ⟨content',index',policy',h'⟩ := validate_eq_ok.1 h'
    exact hne (h.content_unique hfree (hd (Or.inl rfl)) hr h')
  · obtain ⟨content',index',policy',h'⟩ := validate_eq_ok.1 h'
    exact hne (h.index_unique hfree (hd (Or.inr (Or.inl rfl))) hr h')
  · obtain ⟨content',index',policy',h'⟩ := validate_eq_ok.1 h'
    exact hne (h'.policy_unique hr)
  · exact hne (h.builtIndex_unique hfree (hd (Or.inr (Or.inl rfl))) hr hrt heq)

end Alterations

/-! ### Two chains -/

theorem injOn_texts {p : PipelineProfiles}
    (hcontent : sha256 p.content.canonicalJson ≠ sha256 p.index.canonicalJson)
    (hindex : sha256 p.index.canonicalJson ≠ sha256 p.preflightPolicy.canonicalJson)
    (hpolicy : sha256 p.content.canonicalJson ≠ sha256 p.preflightPolicy.canonicalJson) :
    Set.InjOn sha256 p.texts := by
  rintro s (rfl | rfl | rfl) t (rfl | rfl | rfl) heq
  · rfl
  · exact absurd heq hcontent
  · exact absurd heq hpolicy
  · exact absurd heq.symm hcontent
  · rfl
  · exact absurd heq hindex
  · exact absurd heq.symm hpolicy
  · exact absurd heq.symm hindex
  · rfl

def single (key : Str) (value : Input) : Input :=
  .mapping ⟨fun _ : Fin 1 => .str key,Function.injective_of_subsingleton _⟩ fun _ => value

def sampleInputs : Input :=
  .mapping ⟨![.str tokenizerKey,.str (str "weights")],by decide⟩
    ![.str (str "Tok"),.sequence .list ![.float (.finite 0),.int 1]]

/-- The same data with another order of keys, a tuple and a negative zero. -/
def reorderedInputs : Input :=
  .mapping ⟨![.str (str "weights"),.str tokenizerKey],by decide⟩
    ![.sequence .tuple ![.float .negativeZero,.int 1],.str (str "Tok")]

def unnamedInputs : Input := single tokenizerKey (.str [])

def sampleIndex : Input := single (str "dimensions") (.int 768)
def samplePolicy : Input := single (str "threshold") (.int 2)

def contentText (inputs : Str) : Str :=
  str "\x7b\"inputs\":" ++ inputs ++ str ",\"profile_kind\":" ++ str "\"content\"," ++
    str "\"profile_schema_" ++ str "version\":1\x7d"

def indexText (content : Digest) : Str :=
  str "\x7b\"active_qdrant_" ++ str "collection\":" ++ str "\"bridge-1\"," ++
    str "\"content_profile_" ++ str "id\":\"sha256:" ++ hexdigest content ++
    str "\",\"inputs\":" ++ str "\x7b\"dimensions\":" ++ str "768\x7d," ++
    str "\"profile_kind\":" ++ str "\"index\"," ++
    str "\"profile_schema_" ++ str "version\":1\x7d"

def policyText (index : Digest) : Str :=
  str "\x7b\"index_profile_" ++ str "id\":\"sha256:" ++ hexdigest index ++
    str "\",\"inputs\":" ++ str "\x7b\"threshold\":2\x7d," ++
    str "\"profile_kind\":" ++ str "\"preflight_policy\"," ++
    str "\"profile_schema_" ++ str "version\":1\x7d"

def sampleText : Str :=
  contentText (str "\x7b\"formatter_" ++ str "tokenizer_class\":" ++ str "\"Tok\"," ++
    str "\"weights\":[0.0,1]\x7d")

def unnamedText : Str :=
  contentText (str "\x7b\"formatter_" ++ str "tokenizer_class\":" ++ str "\"\"\x7d")

def digestOf (n : ℕ) : Digest := Fin.ofNat _ n

/-- SHA-256 on the six texts below, in the order of their chains. -/
def sampleDigests : List Digest := [
  digestOf 0x29cf47e0141c6982eae402a4b5ea25221b0dccdbbd1b47f12c62212193984c25,
  digestOf 0x4e99d3f51d9fdd2e9b6b53acac5f3d769adcdb474db498d7d07ed44f6f01a140,
  digestOf 0xf2144c13f640c191b71d669a417338395e56556e1313289115e7d497129916b1,
  digestOf 0x846129e1aa60f471100f5e5a1405e4f2fc3ecefcc0e64d21bff6746e4d41e2ae,
  digestOf 0xe25383edb082378a624ded1e5f807114d5d67411592caa1c369503031c10bcda,
  digestOf 0x6041c6826c0a7114ba3cb4b9ccd0e12e563ec975528994c5a889b5f647e6da12]

def sampleTexts : List Str :=
  [sampleText,indexText (sampleDigests.getD 0 0),policyText (sampleDigests.getD 1 0),
    unnamedText,indexText (sampleDigests.getD 3 0),policyText (sampleDigests.getD 4 0)]

def sampleSha256 (text : Str) : Digest := sampleDigests.getD (sampleTexts.idxOf text) 0

def profileAt (k : ℕ) : ProfileIdentity :=
  ⟨str "sha256:" ++ hexdigest (sampleDigests.getD k 0),sampleTexts.getD k []⟩

def sampleProfiles : PipelineProfiles := ⟨profileAt 0,profileAt 1,profileAt 2⟩
def unnamedProfiles : PipelineProfiles := ⟨profileAt 3,profileAt 4,profileAt 5⟩

def samplePython : Interpreter := fractions none none

theorem build_sample : buildPipelineProfiles samplePython sampleSha256 sampleInputs sampleIndex
    samplePolicy (str "bridge-1") = .ok sampleProfiles := by
  decide +kernel

theorem build_reordered : buildPipelineProfiles samplePython sampleSha256 reorderedInputs sampleIndex
    samplePolicy (str "bridge-1") = .ok sampleProfiles := by
  decide +kernel

theorem build_unnamed : buildPipelineProfiles samplePython sampleSha256 unnamedInputs sampleIndex
    samplePolicy (str "bridge-1") = .ok unnamedProfiles := by
  decide +kernel

theorem sampleSha256_at : ∀ k, k < 6 →
    sampleSha256 (sampleTexts.getD k []) = sampleDigests.getD k 0 := by
  decide +kernel

theorem sampleTexts_injOn : Set.InjOn sampleSha256 sampleProfiles.texts := by
  have h0 := sampleSha256_at 0 (by decide)
  have h1 := sampleSha256_at 1 (by decide)
  have h2 := sampleSha256_at 2 (by decide)
  refine injOn_texts (fun h => ?_) (fun h => ?_) fun h => ?_
  · exact absurd (h0.symm.trans (h.trans h1)) (by decide)
  · exact absurd (h1.symm.trans (h.trans h2)) (by decide)
  · exact absurd (h0.symm.trans (h.trans h2)) (by decide)

theorem unnamedTexts_injOn : Set.InjOn sampleSha256 unnamedProfiles.texts := by
  have h3 := sampleSha256_at 3 (by decide)
  have h4 := sampleSha256_at 4 (by decide)
  have h5 := sampleSha256_at 5 (by decide)
  refine injOn_texts (fun h => ?_) (fun h => ?_) fun h => ?_
  · exact absurd (h3.symm.trans (h.trans h4)) (by decide)
  · exact absurd (h4.symm.trans (h.trans h5)) (by decide)
  · exact absurd (h3.symm.trans (h.trans h5)) (by decide)

/-! ### The chain as a whole -/

/-- Identifiers are equal exactly for equal data; a chain is accepted with its own collection and
tokenizer class; and an accepted identity is the only one among those that differ in one part. -/
theorem profile_chain {texts : Set Str} (hfree : Set.InjOn sha256 texts)
    {contentInputs indexInputs policyInputs : Input} {collection : Str} {p : PipelineProfiles}
    (h : buildPipelineProfiles py sha256 contentInputs indexInputs policyInputs collection = .ok p)
    (hp : p.texts ⊆ texts) :
    (∀ {contentInputs' indexInputs' policyInputs' : Input} {collection' : Str}
        {p' : PipelineProfiles},
        buildPipelineProfiles py sha256 contentInputs' indexInputs' policyInputs' collection' =
          .ok p' → p'.texts ⊆ texts →
        (p.content.profileId = p'.content.profileId ↔ Same contentInputs contentInputs') ∧
        (p.index.profileId = p'.index.profileId ↔
          Same contentInputs contentInputs' ∧ Same indexInputs indexInputs' ∧
            collection = collection') ∧
        (p.preflightPolicy.profileId = p'.preflightPolicy.profileId ↔
          Same contentInputs contentInputs' ∧ Same indexInputs indexInputs' ∧
            Same policyInputs policyInputs' ∧ collection = collection')) ∧
    (∀ formatterModelId tokenizerClass denseModelId sparseModelId,
        NamesTokenizer contentInputs tokenizerClass →
        (validatePreparationIdentity py sha256
            ⟨collection,p,formatterModelId,tokenizerClass,denseModelId,sparseModelId⟩ = .ok () ↔
          isLabel tokenizerClass = true ∧ isModelId formatterModelId = true ∧
            isModelId denseModelId = true ∧ isModelId sparseModelId = true)) ∧
    ∀ d, d.profiles.texts ⊆ texts → validatePreparationIdentity py sha256 d = .ok () →
      Isolated py sha256 texts d := by
  obtain ⟨c,i,q,hchain⟩ := chain_of_build h
  refine ⟨fun h' hp' => ?_,fun formatterModelId tokenizerClass denseModelId sparseModelId hclass => ?_,
    fun d hd hvalid => isolated_of_validate hfree hd hvalid⟩
  · obtain ⟨c',i',q',hchain'⟩ := chain_of_build h'
    exact ⟨content_profileId_eq_iff hfree hchain hchain' hp hp',
      index_profileId_eq_iff hfree hchain hchain' hp hp',
      policy_profileId_eq_iff hfree hchain hchain' hp hp'⟩
  · exact hchain.validate_iff hclass formatterModelId denseModelId sparseModelId

theorem profile_chain_sample :
    Same sampleInputs reorderedInputs ∧
      validatePreparationIdentity samplePython sampleSha256
        ⟨str "bridge-1",sampleProfiles,str "formatter",str "Tok",str "dense",str "sparse"⟩ = .ok () ∧
      validatePreparationIdentity samplePython sampleSha256
        ⟨str "bridge-2",sampleProfiles,str "formatter",str "Tok",str "dense",str "sparse"⟩ ≠
          .ok () := by
  obtain ⟨hsame,haccept,hisolated⟩ :=
    profile_chain sampleTexts_injOn build_sample (Set.Subset.refl _)
  have hvalid := (haccept (str "formatter") (str "Tok") (str "dense") (str "sparse")
    (.mapping 0 rfl rfl)).2 (by decide)
  refine ⟨(hsame build_reordered (Set.Subset.refl _)).1.1 rfl,hvalid,?_⟩
  exact (hisolated _ (Set.Subset.refl _) hvalid).collection (str "bridge-2") (by decide)

/-- The builder takes an empty class, the check refuses it. -/
theorem unnamed_refused : Set.InjOn sampleSha256 unnamedProfiles.texts ∧
    buildPipelineProfiles samplePython sampleSha256 unnamedInputs sampleIndex samplePolicy
      (str "bridge-1") = .ok unnamedProfiles ∧ NamesTokenizer unnamedInputs [] ∧
    validatePreparationIdentity samplePython sampleSha256
        ⟨str "bridge-1",unnamedProfiles,str "formatter",[],str "dense",str "sparse"⟩ =
      .error (.preparation "invalid_model_identity" "formatter tokenizer identity was invalid") :=
  ⟨unnamedTexts_injOn,build_unnamed,.mapping 0 rfl rfl,by decide +kernel⟩

end Profiles
end PdfBridge
