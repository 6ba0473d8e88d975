import Mathlib.Algebra.GroupWithZero.Nat
import Mathlib.Data.List.Sort
import Mathlib.Data.Rat.Defs
import Mathlib.Order.Defs.LinearOrder
import PdfBridge.Foundation.Keyset
import PdfBridge.Foundation.Program
import PdfBridge.Persistence.Models

/-! The resumable reingestion client: the validation of a manifest, the state file, and the loop
that accepts documents while it keeps the outstanding set bounded. -/
namespace PdfBridge
namespace Reingestion

inductive Error where
  | reingestion (message : String)
  | value (message : String)
  /-- The process was stopped between two rounds of its loop. -/
  | stopped
deriving DecidableEq

/-! ### Manifests -/

structure ManifestDocument where
  path : Text 1024
  filename : Text 255
  collectionKey : CollectionKey
  sha256 : Digest
deriving DecidableEq

structure ValidatedDocument where
  index : ℕ
  path : String
  filename : Text 255
  collectionKey : CollectionKey
  sha256 : Digest
  sizeBytes : ℕ
deriving DecidableEq

/-- Every document is at the place that its index says. -/
structure ValidatedManifest where
  manifestSha256 : String
  documents : List ValidatedDocument
  totalBytes : ℕ
  indices : documents.map ValidatedDocument.index = List.range documents.length

/-- What a manifest path resolves to under the source root. -/
structure SourceFile where
  path : String
  pathIdentity : String
  isFile : Bool
  isBeneath : Bool
  /-- The signature check, the size and the hash of a file that can be read. -/
  content : Option (Bool × ℕ × Digest)

/-- The sources of a manifest, and the hash of its canonical JSON. -/
structure Sources where
  resolve : Text 1024 → Option SourceFile
  canonicalSha256 : List ManifestDocument → String

/-- What the loop over the manifest entries has seen and validated so far. -/
structure Validation where
  seenPaths : List String
  seenContent : List (CollectionKey × Digest)
  validated : List ValidatedDocument
  totalBytes : ℕ
  indices : validated.map ValidatedDocument.index = List.range validated.length

def Validation.empty : Validation := ⟨[],[],[],0,rfl⟩

def Validation.push (v : Validation) (identity : String) (item : ManifestDocument)
    (path : String) (sizeBytes : ℕ) (digest : Digest) : Validation where
  seenPaths := identity :: v.seenPaths
  seenContent := (item.collectionKey,item.sha256) :: v.seenContent
  validated := v.validated ++
    [⟨v.validated.length,path,item.filename,item.collectionKey,digest,sizeBytes⟩]
  totalBytes := v.totalBytes + sizeBytes
  indices := by
    rw [List.map_append, v.indices, List.length_append, List.length_singleton, List.range_succ]
    rfl

def raise {α : Type} (message : String) : Except Error α := .error (.reingestion message)

def validateEntry (sources : Sources) (v : Validation) (item : ManifestDocument) :
    Except Error Validation :=
  let entry := "Manifest entry " ++ toString v.validated.length
  match sources.resolve item.path with
  | none => raise (entry ++ " source file is unavailable.")
  | some candidate =>
    if ¬ (candidate.isFile ∧ candidate.isBeneath) then
      raise (entry ++ " escapes the source root.")
    else if candidate.pathIdentity ∈ v.seenPaths ∨
        (item.collectionKey,item.sha256) ∈ v.seenContent then
      raise "The manifest contains a duplicate path or collection hash."
    else match candidate.content with
    | none => raise (entry ++ " could not be read.")
    | some (signature,sizeBytes,digest) =>
      if signature = false ∨ digest ≠ item.sha256 then
        raise (entry ++ " is not the declared PDF content.")
      else .ok (v.push candidate.pathIdentity item candidate.path sizeBytes digest)

/-- Validate the complete manifest and source set without writing anything. -/
def validateManifest (sources : Sources) (documents : List ManifestDocument) :
    Except Error ValidatedManifest := do
  if documents = [] ∨ 10000 < documents.length then
    raise "The reingestion manifest is invalid."
  let v ← documents.foldlM (validateEntry sources) Validation.empty
  pure ⟨sources.canonicalSha256 documents,v.validated,v.totalBytes,v.indices⟩

/-! ### The state file -/

structure AcceptedDocument where
  documentId : Uuid
  operationId : Uuid
  state : DocumentState
deriving DecidableEq

/-- An entry of the `accepted` dictionary, whose key is the decimal index. -/
structure Entry where
  index : ℕ
  document : AcceptedDocument
deriving DecidableEq

/-- The acceptances in the order in which they were made. -/
abbrev Accepted := List Entry

structure ReingestionState where
  manifestSha256 : String
  accepted : Accepted
deriving DecidableEq

/-- `_TERMINAL_STATES`. -/
def terminal : DocumentState → Bool
  | .ready | .rejected | .cancelled | .deleted => true
  | _ => false

def Accepted.outstanding (accepted : Accepted) : ℕ :=
  accepted.countP fun e => !terminal e.document.state

def Accepted.indices (accepted : Accepted) : List ℕ := accepted.map Entry.index

/-! ### The client -/

/-- `{index:06d}`. -/
def paddedIndex (index : ℕ) : String :=
  let digits := Nat.toDigits 10 index
  String.ofList (List.replicate (6 - digits.length) '0' ++ digits)

def idempotencyKey (manifestSha256 : String) (index : ℕ) : String :=
  "reingest-" ++ String.ofList (manifestSha256.toList.take 48) ++ "-" ++ paddedIndex index

inductive Request where
  | bootstrap
  | readState
  | saveState (state : ReingestionState)
  | document (documentId : Uuid)
  | upload (item : ValidatedDocument) (idempotencyKey : String)
  | monotonic
  | sleep (seconds : ℚ)

def Request.Response : Request → Type
  | .bootstrap => List CollectionKey
  | .readState => Option ReingestionState
  | .document _ => DocumentState
  | .upload _ _ => AcceptedDocument
  | .monotonic => ℚ
  | .saveState _ | .sleep _ => Unit

def Http : Signature := ⟨Request,Request.Response⟩

abbrev Client (α : Type) := Program Http Error α

def call (r : Request) : Client r.Response := @Program.request Http Error r

/-- Read a matching resumable state file, or create an empty state. -/
def loadState (manifestSha256 : String) : Client ReingestionState := do
  let stored ← call .readState
  match stored with
  | none => pure ⟨manifestSha256,[]⟩
  | some state => do
      Program.require (state.manifestSha256 = manifestSha256)
        (.reingestion "The state file belongs to a different manifest.")
      pure state

def documentState (documentId : Uuid) : Client DocumentState := call (.document documentId)

/-- The status of an acceptance; a terminal one is not asked for again. -/
def currentState (retained : AcceptedDocument) : Client DocumentState :=
  if terminal retained.state then pure retained.state else documentState retained.documentId

def refresh : Accepted → Client Accepted
  | [] => pure []
  | retained :: rest => do
      let state ← currentState retained.document
      let rest ← refresh rest
      pure ({retained with document := {retained.document with state := state}} :: rest)

/-- `while pending and outstanding < max_outstanding`. -/
def acceptPending (manifestSha256 : String) (maxOutstanding : ℕ) :
    List ValidatedDocument → ℕ → Accepted → Client (ℕ × Accepted)
  | [], outstanding, accepted => pure (outstanding,accepted)
  | item :: pending, outstanding, accepted =>
      if outstanding < maxOutstanding then do
        let document ← call (.upload item (idempotencyKey manifestSha256 item.index))
        let accepted := accepted ++ [⟨item.index,document⟩]
        call (.saveState ⟨manifestSha256,accepted⟩)
        acceptPending manifestSha256 maxOutstanding pending (outstanding + 1) accepted
      else pure (outstanding,accepted)

structure Waiting where
  waitSeconds : ℚ
  pollSeconds : ℚ
  deadline : ℚ

/-- The rounds of the loop; a process that makes no more of them is `stopped`. -/
def applyRounds (manifest : ValidatedManifest) (maxOutstanding : ℕ) (waiting : Waiting) :
    ℕ → Accepted → Client ReingestionState
  | 0, _ => .fail .stopped
  | rounds + 1, accepted => do
      let accepted ← refresh accepted
      call (.saveState ⟨manifest.manifestSha256,accepted⟩)
      let pending := manifest.documents.filter fun item => item.index ∉ accepted.indices
      let (outstanding,accepted) ← acceptPending manifest.manifestSha256 maxOutstanding pending
        accepted.outstanding accepted
      let state : ReingestionState := ⟨manifest.manifestSha256,accepted⟩
      if accepted.length = manifest.documents.length ∧ outstanding = 0 then pure state
      else if waiting.waitSeconds = 0 then pure state
      else do
        let now : ℚ ← call .monotonic
        if waiting.deadline ≤ now then pure state
        else do
          call (.sleep waiting.pollSeconds)
          applyRounds manifest maxOutstanding waiting rounds accepted

/-- The collections of a manifest that the Bridge does not offer, in order. -/
def missingCollections (manifest : ValidatedManifest) (configured : List CollectionKey) :
    List String :=
  (((manifest.documents.map ValidatedDocument.collectionKey).filter (· ∉ configured)).map
    Subtype.val).dedup.insertionSort (· ≤ ·)

/-- Resume acceptance while never exceeding the bounded outstanding set. -/
def applyManifest (manifest : ValidatedManifest) (maxOutstanding : ℕ)
    (waitSeconds pollSeconds : ℚ) (rounds : ℕ) : Client ReingestionState := do
  Program.require (1 ≤ maxOutstanding && maxOutstanding ≤ 5 && 0 ≤ waitSeconds &&
      0 < pollSeconds)
    (.value "reingestion concurrency and wait values are invalid")
  let configured ← call .bootstrap
  let missing := missingCollections manifest configured
  Program.require (missing = []) (.reingestion
    ("Manifest uses unavailable collections: " ++ ", ".intercalate missing))
  let state ← loadState manifest.manifestSha256
  Program.require (state.accepted.indices.all (· < manifest.documents.length) &&
      (state.accepted.map fun e => e.document.documentId).Nodup)
    (.reingestion "The state file contains invalid or duplicate acceptances.")
  let now : ℚ ← call .monotonic
  applyRounds manifest maxOutstanding ⟨waitSeconds,pollSeconds,now + waitSeconds⟩ rounds
    state.accepted

/-! ### Manifests and keys -/

/-- An entry names a source file with the declared content, and became this document. -/
def Resolves (sources : Sources) (item : ManifestDocument) (x : ValidatedDocument) : Prop :=
  ∃ f, sources.resolve item.path = some f ∧ f.isFile = true ∧ f.isBeneath = true ∧
    f.content = some (true,x.sizeBytes,x.sha256) ∧ x.path = f.path ∧
    x.filename = item.filename ∧ x.collectionKey = item.collectionKey ∧ x.sha256 = item.sha256

def Sources.identity (sources : Sources) (item : ManifestDocument) : Option String :=
  (sources.resolve item.path).map (·.pathIdentity)

def ManifestDocument.contentKey (item : ManifestDocument) : CollectionKey × Digest :=
  (item.collectionKey,item.sha256)

/-- What the validation of a manifest guarantees: every entry resolves, and no source file and no
content of a collection is named twice. -/
structure Validated (sources : Sources) (documents : List ManifestDocument)
    (manifest : ValidatedManifest) : Prop where
  hash : manifest.manifestSha256 = sources.canonicalSha256 documents
  count : 1 ≤ documents.length ∧ documents.length ≤ 10000
  entries : List.Forall₂ (Resolves sources) documents manifest.documents
  paths : (documents.map sources.identity).Nodup
  content : (documents.map ManifestDocument.contentKey).Nodup
  bytes : manifest.totalBytes = (manifest.documents.map (·.sizeBytes)).sum

theorem validateEntry_ok {sources : Sources} {v v' : Validation} {item : ManifestDocument}
    (h : validateEntry sources v item = .ok v') : ∃ (f : SourceFile) (x : ValidatedDocument),
      Resolves sources item x ∧
      sources.identity item = some f.pathIdentity ∧ f.pathIdentity ∉ v.seenPaths ∧
      item.contentKey ∉ v.seenContent ∧ v'.validated = v.validated ++ [x] ∧
      v'.totalBytes = v.totalBytes + x.sizeBytes ∧
      v'.seenPaths = f.pathIdentity :: v.seenPaths ∧
      v'.seenContent = item.contentKey :: v.seenContent := by
  unfold validateEntry at h
  cases hf : sources.resolve item.path with
  | none =>
    rw [hf] at h
    cases h
  | some f =>
    simp only [hf] at h
    split at h
    · cases h
    rename_i hplace
    split at h
    · cases h
    rename_i hfresh
    cases hcontent : f.content with
    | none =>
      rw [hcontent] at h
      cases h
    | some c =>
      obtain ⟨signature,sizeBytes,digest⟩ := c
      simp only [hcontent] at h
      split at h
      · cases h
      rename_i hdeclared
      cases h
      rw [not_not] at hplace
      rw [not_or] at hfresh
      rw [not_or, Bool.not_eq_false, not_not] at hdeclared
      obtain ⟨rfl,rfl⟩ := hdeclared
      exact ⟨f,_,⟨f,hf,hplace.1,hplace.2,hcontent,rfl,rfl,rfl,rfl⟩,
        by rw [Sources.identity, hf]; rfl,hfresh.1,hfresh.2,rfl,rfl,rfl,rfl⟩

/-- The loop validates every entry, and none of them repeats what was seen before. -/
theorem validateEntries_ok {sources : Sources} {documents : List ManifestDocument}
    {v v' : Validation} (h : documents.foldlM (validateEntry sources) v = .ok v') :
    ∃ new, v'.validated = v.validated ++ new ∧ List.Forall₂ (Resolves sources) documents new ∧
      v'.totalBytes = v.totalBytes + (new.map (·.sizeBytes)).sum ∧
      (∀ p ∈ v.seenPaths, some p ∉ documents.map sources.identity) ∧
      (documents.map sources.identity).Nodup ∧
      (∀ c ∈ v.seenContent, c ∉ documents.map ManifestDocument.contentKey) ∧
      (documents.map ManifestDocument.contentKey).Nodup := by
  induction documents generalizing v with
  | nil =>
    cases h
    exact ⟨[],(List.append_nil _).symm,.nil,rfl,fun _ _ => List.not_mem_nil,List.nodup_nil,
      fun _ _ => List.not_mem_nil,List.nodup_nil⟩
  | cons item documents ih =>
    rw [List.foldlM_cons] at h
    cases hentry : validateEntry sources v item with
    | error e =>
      rw [hentry] at h
      cases h
    | ok v₁ =>
      rw [hentry] at h
      obtain ⟨new,hnew,hresolved,hbytes,hpaths,hnodup,hcontent,hdistinct⟩ := ih h
      obtain ⟨f,x,hx,hidentity,hpath,hkey,hpushed,htotal,hseen,hseen'⟩ := validateEntry_ok hentry
      rw [hseen] at hpaths
      rw [hseen'] at hcontent
      obtain ⟨hhere,hbefore⟩ := List.forall_mem_cons.1 hpaths
      obtain ⟨hhere',hbefore'⟩ := List.forall_mem_cons.1 hcontent
      refine ⟨x :: new,?_,.cons hx hresolved,?_,fun p hp => ?_,?_,fun c hc => ?_,?_⟩
      · rw [hnew, hpushed, List.append_assoc, List.singleton_append]
      · rw [hbytes, htotal, List.map_cons, List.sum_cons, Nat.add_assoc]
      · rw [List.map_cons, hidentity]
        refine List.not_mem_cons_of_ne_of_not_mem (fun he => hpath ?_) (hbefore p hp)
        rw [← Option.some.inj he]
        exact hp
      · rw [List.map_cons, hidentity]
        exact List.nodup_cons.2 ⟨hhere,hnodup⟩
      · rw [List.map_cons]
        refine List.not_mem_cons_of_ne_of_not_mem (fun he => hkey ?_) (hbefore' c hc)
        rw [← he]
        exact hc
      · exact List.nodup_cons.2 ⟨hhere',hdistinct⟩

theorem validateManifest_ok {sources : Sources} {documents : List ManifestDocument}
    {manifest : ValidatedManifest} (h : validateManifest sources documents = .ok manifest) :
    Validated sources documents manifest := by
  unfold validateManifest at h
  split at h
  · cases h
  rename_i hcount
  rw [not_or, not_lt] at hcount
  cases hrun : documents.foldlM (validateEntry sources) Validation.empty with
  | error e =>
    simp only [hrun, bind, Except.bind] at h
    cases h
  | ok v =>
    simp only [hrun, bind, Except.bind] at h
    cases h
    obtain ⟨new,hnew,hresolved,hbytes,-,hpaths,-,hcontent⟩ := validateEntries_ok hrun
    have hvalidated : v.validated = new := hnew
    refine ⟨rfl,⟨List.length_pos_iff.2 hcount.1,hcount.2⟩,?_,hpaths,hcontent,?_⟩
    · show List.Forall₂ (Resolves sources) documents v.validated
      rw [hvalidated]
      exact hresolved
    · show v.totalBytes = (v.validated.map (·.sizeBytes)).sum
      rw [hvalidated, hbytes]
      exact Nat.zero_add _

/-- The index of a manifest document determines it. -/
theorem ValidatedManifest.ext_index (manifest : ValidatedManifest) {a b : ValidatedDocument}
    (ha : a ∈ manifest.documents) (hb : b ∈ manifest.documents) (h : a.index = b.index) :
    a = b := by
  refine List.inj_on_of_nodup_map ?_ ha hb h
  rw [manifest.indices]
  exact List.nodup_range

theorem ValidatedManifest.index_getElem (manifest : ValidatedManifest) {n : ℕ}
    {item : ValidatedDocument} (h : manifest.documents[n]? = some item) : item.index = n := by
  have hmap : (manifest.documents.map ValidatedDocument.index)[n]? = some item.index := by
    rw [List.getElem?_map, h]
    rfl
  rw [manifest.indices] at hmap
  obtain ⟨hn,he⟩ := List.getElem?_eq_some_iff.1 hmap
  simpa using he.symm

/-- The documents after the first `n` are those with an index that is not below `n`. -/
theorem ValidatedManifest.drop_eq (manifest : ValidatedManifest) (n : ℕ) :
    manifest.documents.filter (fun item => item.index ∉ List.range n) =
      manifest.documents.drop n := by
  rw [← Keyset.filter_position manifest.indices]
  refine List.filter_congr fun item _ => ?_
  simp

theorem paddedIndex_injective : Function.Injective paddedIndex := by
  intro i j h
  have hvalue : ∀ n, Nat.ofDigitChars 10 (paddedIndex n).toList 0 = n := by
    intro n
    simp only [paddedIndex, String.toList_ofList, Nat.ofDigitChars_append,
      Nat.ofDigitChars_replicate_zero, Nat.mul_zero, Nat.ofDigitChars_ten_toDigits]
  rw [← hvalue i, h, hvalue j]

/-- Different indices of one manifest upload under different keys. -/
theorem idempotencyKey_injective (manifestSha256 : String) :
    Function.Injective (idempotencyKey manifestSha256) := by
  intro i j h
  have hlist := congrArg String.toList h
  simp only [idempotencyKey, String.toList_append, List.append_assoc,
    List.append_cancel_left_eq] at hlist
  exact paddedIndex_injective (String.toList_injective hlist)

end Reingestion
end PdfBridge
