import PdfBridge.Lifecycle.Reachable

/-! Scripted runs: the operator acts, and a thread runs until a request where it should stop, with
answers that a policy chooses. Every world that a script reaches is reachable. -/
namespace PdfBridge
namespace Lifecycle
open Worker Api Preparation

/-- One line of a script. -/
inductive Cue where
  | act (e : Event)
  | turn (slot : Slot) (policy : Request → Input) (stop : Request → Bool)

/-- Run the thread of a slot for at most `n` requests, as long as the worlds pass a guard. -/
def drive (s : Settings) (enc : Encoding) (guard : World → Bool) (slot : Slot)
    (policy : Request → Input) (stop : Request → Bool) : ℕ → World → Option World
  | 0, w => some w
  | n + 1, w =>
      match w.slots slot with
      | some ⟨_,.call r _⟩ =>
          if stop r then some w
          else if guard w then
            (w.step s enc (.work slot (policy r))).bind (drive s enc guard slot policy stop n)
          else none
      | _ => some w

/-- The longest turn of a script. -/
def turnLength : ℕ := 200

def play (s : Settings) (enc : Encoding) (guard : World → Bool) : List Cue → World → Option World
  | [], w => some w
  | .act e :: cues, w =>
      if guard w then (w.step s enc e).bind (play s enc guard cues) else none
  | .turn slot policy stop :: cues, w =>
      (drive s enc guard slot policy stop turnLength w).bind (play s enc guard cues)

variable {s : Settings} {enc : Encoding} {guard : World → Bool} {P : World → Event → Prop}
  {w w' : World}

theorem drive_steps {slot : Slot} {policy : Request → Input} {stop : Request → Bool}
    (hP : ∀ w i, guard w = true → P w (.work slot i)) (n : ℕ)
    (h : drive s enc guard slot policy stop n w = some w') : Steps s enc P w w' := by
  induction n generalizing w with
  | zero =>
    cases h
    exact Relation.ReflTransGen.refl
  | succ n ih =>
    unfold drive at h
    split at h
    · split at h
      · cases h
        exact Relation.ReflTransGen.refl
      · split at h
        · rename_i hguard
          obtain ⟨w₁,hstep,h⟩ := Option.bind_eq_some_iff.1 h
          exact Relation.ReflTransGen.head ⟨_,hP _ _ hguard,hstep⟩ (ih h)
        · cases h
    · cases h
      exact Relation.ReflTransGen.refl

/-- A script makes steps that meet a condition when its acts do and the guard implies it. -/
theorem play_steps {cues : List Cue} (hwork : ∀ w slot i, guard w = true → P w (.work slot i))
    (hact : ∀ e, .act e ∈ cues → ∀ w, guard w = true → P w e)
    (h : play s enc guard cues w = some w') : Steps s enc P w w' := by
  induction cues generalizing w with
  | nil =>
    cases h
    exact Relation.ReflTransGen.refl
  | cons cue cues ih =>
    have hact' : ∀ e, .act e ∈ cues → ∀ w, guard w = true → P w e :=
      fun e he => hact e (List.mem_cons_of_mem _ he)
    cases cue with
    | act e =>
      unfold play at h
      split at h
      · rename_i hguard
        obtain ⟨w₁,hstep,h⟩ := Option.bind_eq_some_iff.1 h
        exact Relation.ReflTransGen.head ⟨e,hact e List.mem_cons_self w hguard,hstep⟩
          (ih hact' h)
      · cases h
    | turn slot policy stop =>
      obtain ⟨w₁,hdrive,h⟩ := Option.bind_eq_some_iff.1 h
      exact (drive_steps (fun w i => hwork w slot i) _ hdrive).trans (ih hact' h)

/-- No guard. -/
def always : World → Bool := fun _ => true

/-- A scripted world that passes a test, and how it is reached. -/
theorem play_any (s : Settings) (enc : Encoding) (P : World → Event → Prop) (cues : List Cue)
    (test : World → Bool)
    (hwork : ∀ w slot i, P w (.work slot i)) (hact : ∀ e, .act e ∈ cues → ∀ w, P w e)
    (h : (play s enc always cues World.initial).any test = true) :
    ∃ w, ReachableBy s enc P w ∧ test w = true := by
  obtain ⟨w,hw,ht⟩ := (Option.any_eq_true _ _).1 h
  exact ⟨w,ReachableBy.initial.steps (play_steps (fun w slot i _ => hwork w slot i)
    (fun e he w _ => hact e he w) hw),ht⟩

/-- A document of a scripted world that passes a test. -/
theorem play_document (s : Settings) (enc : Encoding) (P : World → Event → Prop)
    (cues : List Cue) (test : Document → Bool) (hwork : ∀ w slot i, P w (.work slot i))
    (hact : ∀ e, .act e ∈ cues → ∀ w, P w e)
    (h : (play s enc always cues World.initial).any
      (fun w => w.shared.catalog.documents.rows.any test) = true) :
    ∃ w d, ReachableBy s enc P w ∧ d ∈ w.shared.catalog.documents ∧ test d = true := by
  obtain ⟨w,hw,ht⟩ := play_any s enc P cues _ hwork hact h
  obtain ⟨d,hd,ht⟩ := List.any_eq_true.1 ht
  exact ⟨w,d,hw,hd,ht⟩

/-! ### A small configuration -/

theorem books_key : isCollectionKey "books" = true := by decide

def books : CollectionKey := ⟨"books",books_key⟩

theorem filename_text : 1 ≤ "a.pdf".length ∧ "a.pdf".length ≤ 255 := by decide

theorem scanner_text : 1 ≤ "scanner".length ∧ "scanner".length ≤ 100 := by decide

theorem operator_text : 1 ≤ "operator".length ∧ "operator".length ≤ 255 := by decide

/-- The file name, the scanner and the actor of every example. -/
def sampleFilename : Text 255 := text "a.pdf" filename_text

def sampleScanner : Text 100 := text "scanner" scanner_text

def sampleOperator : Text 255 := text "operator" operator_text

theorem formatter_text : 1 ≤ "formatter".length ∧ "formatter".length ≤ 255 := by decide

theorem dense_text : 1 ≤ "dense".length ∧ "dense".length ≤ 255 := by decide

theorem sparse_text : 1 ≤ "sparse".length ∧ "sparse".length ≤ 255 := by decide

theorem tokenizer_text : 1 ≤ "tokenizer".length ∧ "tokenizer".length ≤ 255 := by decide

def booksIdentity : RevisionIdentity :=
  ⟨text "books_active",⟨⟨"content"⟩⟩,⟨⟨"index"⟩⟩,⟨⟨"preflight"⟩⟩,text "formatter" formatter_text,
    text "dense" dense_text,text "sparse" sparse_text⟩

def booksSettings : Settings where
  collections := [⟨books,true,booksIdentity,text "tokenizer" tokenizer_text⟩]
  screening := text "screening"
  leaseSeconds := 60
  maxOperationSeconds := 3600
  qdrantConfigured := true
  preparationConfigured := true
  advisoryConfigured := true
  classifierIdentity := text "classifier"
  verifierIdentity := text "verifier"
  keys_nodup := by decide
  names_nodup := by decide

/-- Texts are their own hashes, and an artifact is its kind. -/
def plainEncoding : Encoding where
  sha256Text := fun s => ⟨s⟩
  denseDigest := fun v => ⟨toString v.length⟩
  sparseDigest := fun v => ⟨toString v.indices.length⟩
  vectorManifest := fun v => ⟨toString v.length⟩
  extractionManifest := fun pages => ⟨toString pages.length⟩
  evidenceManifest := fun x => ⟨toString x.candidates.length⟩
  wholeManifest := fun x => ⟨toString x.revisionNumber⟩
  isNormalized := fun _ => true
  canonicalMarkdown := fun pages => String.join (pages.map (·.markdown))
  slicesCover := fun _ _ => true
  batchesCover := fun _ _ => true
  filenameFamily := fun _ _ => false
  artifactJson := fun payload => some (payload.kind.toList.map fun c => UInt8.ofNat c.toNat)
  gzip := id

/-- One page and one chunk; every provider succeeds and no search finds anything. -/
def smoothly : Request → Input
  | .provider (.extract _) => .extraction (.ok ⟨1,1,[⟨1,"a",1,⟨"a"⟩⟩]⟩)
  | .provider (.validateNativeEnglish _) | .provider (.packFormatterBatches _) =>
      .checked (.ok ())
  | .provider (.requestFormatter _) => .requested ⟨[],.ok ()⟩
  | .provider (.formatMarkdown _) => .formatted ⟨[],.ok ⟨[⟨1,"a","a"⟩],[]⟩⟩
  | .provider (.chunkMarkdown h _) => .chunks (.ok
      [⟨chunkIdentity h.documentId h.revisionId 0 ⟨"a"⟩,0,1,1,[],1,⟨"a"⟩,"a"⟩])
  | .provider (.embedDense _) => .dense (.ok [List.replicate denseDimension 0])
  | .provider (.embedSparseDocuments _) | .provider (.embedSparseQueries _) =>
      .sparse (.ok [⟨[0],[1]⟩])
  | .points (.query _ _ _ _) => .hits []
  | _ => .proceed

def never : Request → Bool := fun _ => false

/-- An upload of the bytes with a given hash. -/
def uploadOf (sha256 : String) : Event :=
  .upload ⟨books,sampleFilename,"a.pdf",1,⟨sha256⟩,sampleScanner,sampleOperator⟩ true

/-- Claim the next operation and run it to its end. -/
def turnOf (policy : Request → Input) : List Cue :=
  [.act (.claim .first),.turn .first policy never]

/-- The first document is published, and the searches of the second one find it. -/
def findsFirst : Request → Input
  | .points (.query _ (.dense _) filter _) =>
      if filter.published then .hits
        [⟨uuid4 0 0,uuid4 5 0,chunkIdentity (uuid4 0 0) (uuid4 5 0) 0 ⟨"a"⟩,1⟩]
      else .hits []
  | .provider (.classify _ _) => .reply (.error .classificationUnavailable)
  | r => smoothly r

def failsDeletes : Request → Input
  | .points (.delete _ _) => .fault false
  | r => smoothly r

def imageOnly : Request → Input
  | .provider (.extract _) => .extraction (.error (.extractionRejected .imageOnly))
  | r => smoothly r

/-- The preflight of a scanned document ends in a terminal rejection. -/
def rejecting : List Cue := .act (uploadOf "scan") :: turnOf imageOnly

/-- Publish one document, and let the operator replace it by a second one. -/
def replacing : List Cue :=
  .act (uploadOf "old") :: turnOf smoothly ++ turnOf smoothly ++
  .act (uploadOf "new") :: turnOf findsFirst ++
  [.act (.decide ⟨uuid4 72 0,uuid4 77 0,.replace,some (uuid4 0 0),sampleOperator⟩)]

end Lifecycle
end PdfBridge
