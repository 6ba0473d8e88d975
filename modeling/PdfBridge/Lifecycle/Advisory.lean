import PdfBridge.Foundation.Triples
import PdfBridge.Lifecycle.Scenario
import PdfBridge.Services.Classification

/-! Advisory output is only advisory: what the advisory review of a recorded candidate list
leaves behind, for every behaviour of the provider. -/
namespace PdfBridge
namespace Advice
open Classification Preparation Worker

variable {advisor : Advisor} {role : EvidenceKind} {p : Prompt} {x : ℕ → Exchange}
  {a : Attempt} {as : List Attempt} {f : CandidateFinding} {e : ProviderFailure}

/-! ### One check -/

/-- The attempt ends its check: it raises an exception that no handler names, or its finding
validates. -/
def decisive : Attempt → Bool
  | .raised _ | .valid _ _ => true
  | _ => false

/-- Neither the summary nor a quote is blank. -/
def plain (f : CandidateFinding) : Bool :=
  !Preparation.isBlank f.summary && f.evidence.all fun c => !Preparation.isBlank c.2

/-- A validated finding that can be stored. -/
def recordable : Attempt → Bool
  | .valid _ f => plain f
  | _ => false

/-- The token count of the prompt does not raise, and the first attempt that raises or
validates, if there is one, validates with a summary and quotes that are not blank. -/
def Recordable (advisor : Advisor) (role : EvidenceKind) (p : Prompt) (x : ℕ → Exchange) :
    Prop :=
  offered advisor p = true →
    (∀ e, inputTokenCount (x 0) = .error e → e = .classificationUnavailable) ∧
    ∀ n, inputTokenCount (x 0) = .ok n → n ≤ advisor.config.maxInputTokens →
      ∀ a, (attempts advisor role p x).find? decisive = some a → recordable a = true

/-- The attempts before the first decisive one. -/
def undecided (as : List Attempt) : List Attempt := as.takeWhile fun a => !decisive a

/-- An output that did not validate, and why. -/
def rejected : Attempt → Option (String × String)
  | .invalid raw error => some (raw,error)
  | _ => none

def rejections (as : List Attempt) : List (String × String) := (undecided as).filterMap rejected

/-- What the check reports of its attempts, unless one raises or none has an output. -/
def reportOf (inputTokens total : ℕ) (as : List Attempt) : Option ModelReply :=
  let raws := (rejections as).map (·.1)
  match as.find? decisive with
  | some (.valid raw f) =>
      some ⟨inputTokens,(undecided as).length + 1,raws ++ [raw],some f,none⟩
  | some _ => none
  | none => (rejections as).getLast?.map fun x => ⟨inputTokens,total,raws,none,some x.2⟩

def report (advisor : Advisor) (role : EvidenceKind) (p : Prompt) (x : ℕ → Exchange) :
    Option ModelReply :=
  if offered advisor p then
    (inputTokenCount (x 0)).toOption.bind fun n =>
      if n ≤ advisor.config.maxInputTokens then
        reportOf n advisor.config.maxAttempts (attempts advisor role p x)
      else none
  else none

/-- The number of exchanges that a check leaves in the protected storage. -/
def sent (advisor : Advisor) (role : EvidenceKind) (p : Prompt) (x : ℕ → Exchange) : ℕ :=
  if (report advisor role p x).isSome then 1 else 0

/-- The bytes of a protected artifact exist within their limits. -/
def Storable (enc : Encoding) (payload : ArtifactPayload) : Prop :=
  ∃ raw, enc.artifactJson payload = some raw ∧
    (raw ≠ [] ∧ raw.length ≤ maxProtectedArtifactBytes) ∧
    (enc.gzip raw ≠ [] ∧ (enc.gzip raw).length ≤ maxProtectedArtifactBytes)

/-- What a validated finding satisfies: the bounds of its contract, and quotes of offered
excerpts. -/
structure Grounded (p : Prompt) (f : CandidateFinding) : Prop where
  label : f.label.length ≤ 100 ∧ f.label ∈ findingLabels
  summary : 1 ≤ f.summary.length ∧ f.summary.length ≤ 800
  evidence : f.evidence.length ≤ 8
  quotes : ∀ c, c ∈ f.evidence → 1 ≤ c.2.length ∧ c.2.length ≤ 600 ∧
    ∃ s, s ∈ p.incoming ++ p.candidate ∧ s.reference = c.1 ∧ c.2.toList <:+: s.text.toList

theorem constrained_bounds {lo hi : ℕ} {j : Json} {t : String}
    (h : constrained lo hi j = some t) : lo ≤ t.length ∧ t.length ≤ hi := by
  unfold constrained at h
  split at h
  · obtain ⟨-,h⟩ := Option.filter_eq_some_iff.1 h
    simpa using h
  · cases h

theorem findingEvidence_bounds {j : Json} {c : String × String}
    (h : findingEvidence j = some c) : 1 ≤ c.2.length ∧ c.2.length ≤ 600 := by
  unfold findingEvidence at h
  split at h
  · split at h
    · simp only [Option.bind_eq_bind, Option.bind_eq_some_iff, Option.some.injEq] at h
      obtain ⟨r,-,q,⟨j',-,hq⟩,rfl⟩ := h
      exact constrained_bounds hq
    · cases h
  · cases h

/-- Every element of a mapped list comes from one of the list. -/
theorem mem_of_mapM_option {α β : Type} {g : α → Option β} {l : List α} {l' : List β}
    (h : l.mapM g = some l') : l'.length = l.length ∧
      ∀ b, b ∈ l' → ∃ a, a ∈ l ∧ g a = some b := by
  induction l generalizing l' with
  | nil =>
    rw [List.mapM_nil] at h
    cases h
    exact ⟨rfl,fun b hb => absurd hb List.not_mem_nil⟩
  | cons a l ih =>
    simp only [List.mapM_cons, Option.bind_eq_bind, Option.pure_def, Option.bind_eq_some_iff,
      Option.some.injEq] at h
    obtain ⟨b,hg,bs,hl,rfl⟩ := h
    obtain ⟨hlen,hmem⟩ := ih hl
    refine ⟨by rw [List.length_cons, List.length_cons, hlen],fun b' hb' => ?_⟩
    rcases List.mem_cons.1 hb' with rfl | hb'
    · exact ⟨a,List.mem_cons_self,hg⟩
    · obtain ⟨a',ha',he⟩ := hmem b' hb'
      exact ⟨a',List.mem_cons_of_mem _ ha',he⟩

theorem toOption_mapM {α β ε : Type} (g : α → Except ε β) (l : List α) :
    (l.mapM g).toOption = l.mapM fun a => (g a).toOption := by
  induction l with
  | nil => rfl
  | cons a l ih =>
    rw [List.mapM_cons, List.mapM_cons, ← ih]
    cases g a with
    | error e => rfl
    | ok b => cases l.mapM g <;> rfl

theorem mem_of_mapM {α β ε : Type} {g : α → Except ε β} {l : List α} {l' : List β}
    (h : l.mapM g = .ok l') : l'.length = l.length ∧
      ∀ b, b ∈ l' → ∃ a, a ∈ l ∧ g a = .ok b := by
  have hoption : (l.mapM fun a => (g a).toOption) = some l' := by
    rw [← toOption_mapM, h]
    rfl
  obtain ⟨hlen,hmem⟩ := mem_of_mapM_option hoption
  refine ⟨hlen,fun b hb => ?_⟩
  obtain ⟨a,ha,hg⟩ := hmem b hb
  cases hga : g a with
  | error e =>
    rw [hga] at hg
    cases hg
  | ok b' =>
    rw [hga] at hg
    cases hg
    exact ⟨a,ha,hga⟩

theorem evidenceField_bounds {j : Option Json} {cs : List (String × String)}
    (h : evidenceField j = some cs) : cs.length ≤ 8 ∧
      ∀ c, c ∈ cs → 1 ≤ c.2.length ∧ c.2.length ≤ 600 := by
  unfold evidenceField at h
  split at h
  · cases h
    exact ⟨Nat.zero_le 8,fun c hc => absurd hc List.not_mem_nil⟩
  · rename_i js
    split at h
    · rename_i hlen
      obtain ⟨hsame,hmem⟩ := mem_of_mapM_option h
      refine ⟨hsame ▸ hlen,fun c hc => ?_⟩
      obtain ⟨j',-,hj⟩ := hmem c hc
      exact findingEvidence_bounds hj
    · cases h
  · cases h

/-- A finding of the contract whose quotes occur in the offered excerpts. -/
theorem grounded_of_parsed {j : Json} {pf : ParsedFinding} {reference : ChunkId → String}
    (hj : candidateFinding j = some pf) (h : validateFinding reference p pf = .ok f) :
    Grounded p f := by
  unfold candidateFinding at hj
  split at hj
  case h_2 => cases hj
  split at hj
  case isFalse => cases hj
  simp only [Option.bind_eq_bind, Option.bind_eq_some_iff] at hj
  obtain ⟨label,⟨j₁,-,hlabel⟩,summary,⟨j₂,-,hsummary⟩,cs,hcs,hj⟩ := hj
  split at hj
  case isFalse => cases hj
  rename_i hknown
  cases hj
  unfold validateFinding at h
  cases hc : cs.mapM (citedQuote reference p) with
  | error e => simp [hc, bind, Except.bind] at h
  | ok evidence =>
    simp only [hc, bind, Except.bind, pure, Except.pure, Except.ok.injEq] at h
    subst h
    obtain ⟨hlen,hmem⟩ := mem_of_mapM hc
    obtain ⟨hcount,hquotes⟩ := evidenceField_bounds hcs
    refine ⟨⟨(constrained_bounds hlabel).2,hknown⟩,constrained_bounds hsummary,hlen ▸ hcount,
      fun c hc => ?_⟩
    obtain ⟨c',hc',hcited⟩ := hmem c hc
    unfold citedQuote at hcited
    split at hcited
    · cases hcited
    · rename_i s hs
      split at hcited
      · rename_i hsub
        cases hcited
        exact ⟨(hquotes c' hc').1,(hquotes c' hc').2,s,List.mem_of_find?_eq_some hs,rfl,hsub⟩
      · cases hcited

theorem attempt_valid {raw : String} {y : Exchange}
    (h : runAttempt advisor role p y = .valid raw f) : Grounded p f := by
  unfold runAttempt at h
  split at h
  · cases h
  · cases h
  · split at h
    · cases h
    · cases h
    · rename_i pf hpf
      split at h
      · cases h
      · rename_i g hg
        cases h
        unfold parseFinding at hpf
        split at hpf
        · exact grounded_of_parsed (Except.ok.inj hpf) hg
        · cases hpf
        · cases hpf

/-- No handler names what an attempt raises. -/
theorem attempt_raised {y : Exchange} (h : runAttempt advisor role p y = .raised e) :
    e ≠ .classificationUnavailable := by
  unfold runAttempt at h
  split at h
  · cases h
  · rename_i e' hne _
    cases h
    exact fun he => hne he
  · split at h
    · rename_i e' he'
      cases h
      unfold parseFinding at he'
      split at he'
      · cases he'
      · cases he'
      · cases he'
        exact fun he => by cases he
    · cases h
    · split at h <;> cases h

section Attempts
variable {raw message : String}

@[simp] theorem undecided_unavailable : undecided (.unavailable :: as) =
    .unavailable :: undecided as := rfl
@[simp] theorem undecided_invalid : undecided (.invalid raw message :: as) =
    .invalid raw message :: undecided as := rfl
@[simp] theorem rejections_unavailable : rejections (.unavailable :: as) = rejections as := rfl
@[simp] theorem rejections_invalid : rejections (.invalid raw message :: as) =
    (raw,message) :: rejections as := rfl

end Attempts

/-- The first decisive attempt settles a check; without one it reports its last output. -/
theorem runAttempts_cases (n total k : ℕ) (raws : List String) (error : Option String) :
    (as.find? decisive = none → runAttempts n total k as raws error =
      if raws ++ (rejections as).map (·.1) = [] then .error .classificationUnavailable
      else .ok ⟨n,total,raws ++ (rejections as).map (·.1),none,
        some ((((rejections as).getLast?.map (·.2)).or error).getD
          "advisory output was unavailable")⟩) ∧
    (∀ e, as.find? decisive = some (.raised e) →
      runAttempts n total k as raws error = .error e) ∧
    ∀ raw f, as.find? decisive = some (.valid raw f) →
      runAttempts n total k as raws error = .ok ⟨n,k + (undecided as).length,
        raws ++ (rejections as).map (·.1) ++ [raw],some f,none⟩ := by
  induction as generalizing k raws error with
  | nil =>
    refine ⟨fun _ => ?_,fun e he => (nomatch he),fun raw f hf => (nomatch hf)⟩
    simp [rejections, undecided, runAttempts]
  | cons a as ih =>
    have hlength : k + ((undecided as).length + 1) = k + 1 + (undecided as).length := by omega
    cases a with
    | unavailable =>
      rw [undecided_unavailable, rejections_unavailable, List.length_cons, hlength]
      exact ih (k + 1) raws error
    | invalid raw message =>
      obtain ⟨hnone,hraised,hvalid⟩ := ih (k + 1) (raws ++ [raw]) (some message)
      rw [undecided_invalid, rejections_invalid, List.length_cons, hlength, List.map_cons,
        List.append_cons, List.getLast?_cons]
      refine ⟨fun h => ?_,hraised,hvalid⟩
      refine (hnone h).trans ?_
      cases (rejections as).getLast? <;> simp
    | raised e =>
      refine ⟨fun h => (nomatch h),fun e' he => ?_,fun raw f h => ?_⟩
      · cases he
        rfl
      · cases h
    | valid raw f =>
      refine ⟨fun h => (nomatch h),fun e he => ?_,fun raw' f' h => ?_⟩
      · cases he
      · cases h
        simp [rejections, undecided, decisive, runAttempts]

/-- The attempts of a check come to its report. -/
theorem runAttempts_report (n total : ℕ) :
    (as.find? decisive = none →
      (runAttempts n total 1 as [] none = .error .classificationUnavailable ∧
        reportOf n total as = none) ∨
      ∃ reply, runAttempts n total 1 as [] none = .ok reply ∧
        reportOf n total as = some reply ∧ reply.finding = none) ∧
    ∀ raw f, as.find? decisive = some (.valid raw f) →
      ∃ reply, runAttempts n total 1 as [] none = .ok reply ∧
        reportOf n total as = some reply ∧ reply.finding = some f := by
  obtain ⟨hnone,-,hvalid⟩ := @runAttempts_cases as n total 1 [] none
  refine ⟨fun hfind => ?_,fun raw f hfind => ⟨_,hvalid raw f hfind,?_,rfl⟩⟩
  · rw [hnone hfind, reportOf, hfind]
    cases hlast : (rejections as).getLast? with
    | none =>
      rw [List.getLast?_eq_none_iff] at hlast
      simp [hlast]
    | some x =>
      have hne : rejections as ≠ [] := by
        intro hnil
        rw [hnil] at hlast
        cases hlast
      simp [hne]
  · rw [reportOf, hfind]
    simp [Nat.add_comm]

/-- What a check may report. -/
inductive Reports (p : Prompt) (recordable : Prop) :
    Option ModelReply → Except ProviderFailure ModelReply → Prop where
  | unavailable (h : recordable) : Reports p recordable none (.error .classificationUnavailable)
  | invalid (h : recordable) {reply : ModelReply} (hn : reply.finding = none) :
      Reports p recordable (some reply) (.ok reply)
  | valid (h : recordable) {reply : ModelReply} {f : CandidateFinding}
      (hf : reply.finding = some f) (hg : Grounded p f) (hp : plain f = true) :
      Reports p recordable (some reply) (.ok reply)
  | raised (h : ¬ recordable) {reported : Option ModelReply} {e : ProviderFailure}
      (he : e ≠ .classificationUnavailable) : Reports p recordable reported (.error e)
  | blank (h : ¬ recordable) {reply : ModelReply} {f : CandidateFinding}
      (hf : reply.finding = some f) (hg : Grounded p f) (hp : plain f = false) :
      Reports p recordable (some reply) (.ok reply)

/-- The members of the attempts that validate are grounded, and what they raise is not
handled. -/
theorem mem_attempts (ha : a ∈ attempts advisor role p x) :
    (∀ e, a = .raised e → e ≠ .classificationUnavailable) ∧
    ∀ raw f, a = .valid raw f → Grounded p f := by
  obtain ⟨k,-,rfl⟩ := List.mem_map.1 ha
  exact ⟨fun e he => attempt_raised he,fun raw f hf => attempt_valid hf⟩

theorem classifyCandidate_reports :
    Reports p (Recordable advisor role p x) (report advisor role p x)
      (Classification.classifyCandidate advisor role p x) := by
  unfold Classification.classifyCandidate report
  cases hoffered : offered advisor p with
  | false =>
    refine .unavailable fun h => ?_
    rw [hoffered] at h
    cases h
  | true =>
    simp only [available, if_true, bind, Except.bind]
    cases hcount : inputTokenCount (x 0) with
    | error e =>
      by_cases he : e = .classificationUnavailable
      · subst he
        refine .unavailable fun _ => ⟨fun e' he' => ?_,fun n hn => ?_⟩
        · exact (Except.error.inj (hcount.symm.trans he')).symm
        · rw [hcount] at hn
          cases hn
      · exact .raised (fun h => he ((h hoffered).1 e hcount)) he
    | ok n =>
      have hcounted : ∀ e, inputTokenCount (x 0) = .error e → e = .classificationUnavailable := by
        intro e he
        rw [hcount] at he
        cases he
      by_cases hlimit : n ≤ advisor.config.maxInputTokens
      · simp only [hlimit, decide_true, if_true, Except.toOption, Option.bind_some]
        obtain ⟨-,hraised,-⟩ := @runAttempts_cases (attempts advisor role p x) n
          advisor.config.maxAttempts 1 [] none
        obtain ⟨hnone,hvalid⟩ := @runAttempts_report (attempts advisor role p x) n
          advisor.config.maxAttempts
        cases hfind : (attempts advisor role p x).find? decisive with
        | none =>
          have hok : Recordable advisor role p x := fun _ =>
            ⟨hcounted,fun m hm hle b hb => (nomatch hfind.symm.trans hb)⟩
          rcases hnone hfind with ⟨h,hreport⟩ | ⟨reply,h,hreport,hn⟩
          · rw [h, hreport]
            exact .unavailable hok
          · rw [h, hreport]
            exact .invalid hok hn
        | some b =>
          have hmem := mem_attempts (List.mem_of_find?_eq_some hfind)
          have hdecisive := List.find?_some hfind
          have hiff : Recordable advisor role p x ↔ recordable b = true := by
            constructor
            · exact fun h => (h hoffered).2 n hcount hlimit b hfind
            · intro h _
              refine ⟨hcounted,fun m hm hle b' hb' => ?_⟩
              rw [← Option.some.inj (hfind.symm.trans hb')]
              exact h
          cases b with
          | unavailable => cases hdecisive
          | invalid raw message => cases hdecisive
          | raised e =>
            rw [hraised e hfind]
            exact .raised (fun h => (nomatch hiff.1 h)) (hmem.1 e rfl)
          | valid raw f =>
            obtain ⟨reply,h,hreport,hf⟩ := hvalid raw f hfind
            rw [h, hreport]
            cases hp : plain f with
            | true => exact .valid (hiff.2 hp) hf (hmem.2 raw f rfl) hp
            | false =>
              refine .blank (fun h => ?_) hf (hmem.2 raw f rfl) hp
              exact Bool.noConfusion (hp.symm.trans (hiff.1 h))
      · simp only [hlimit, decide_false, Bool.false_eq_true, if_false, Except.toOption,
          Option.bind_some]
        refine .unavailable fun _ => ⟨hcounted,fun m hm hle => ?_⟩
        rw [hcount] at hm
        cases hm
        exact absurd hle hlimit

/-- A check that reports a finding is recordable exactly when the finding is plain. -/
theorem recordable_iff {reply : ModelReply}
    (hreply : Classification.classifyCandidate advisor role p x = .ok reply)
    (hf : reply.finding = some f) : Recordable advisor role p x ↔ plain f = true := by
  have hreports := @classifyCandidate_reports advisor role p x
  rw [hreply] at hreports
  generalize report advisor role p x = reported at hreports
  cases hreports with
  | invalid _ hn => cases hn.symm.trans hf
  | valid hr hf' _ hp =>
    obtain rfl := Option.some.inj (hf'.symm.trans hf)
    exact ⟨fun _ => hp,fun _ => hr⟩
  | blank hr hf' _ hp =>
    obtain rfl := Option.some.inj (hf'.symm.trans hf)
    exact ⟨fun h => absurd h hr,fun h => Bool.noConfusion (hp.symm.trans h)⟩

/-! ### One record -/

variable {s : Settings} {c : Catalog} {allowed : List Uuid} {sources : List SourceExcerpt}
  {incoming candidate : List SourceExcerpt} {kind : EvidenceKind}
  {out : Except ProviderFailure ModelReply}

theorem protectedArtifactBytes_ok {enc : Encoding} {payload : ArtifactPayload} :
    (∃ bytes, protectedArtifactBytes enc payload = .ok bytes) ↔ Storable enc payload := by
  simp only [protectedArtifactBytes, Storable, bind_eq_ok, orRaise_eq_ok, require_eq_ok,
    exists_const, pure_eq_ok]
  constructor
  · rintro ⟨bytes,raw,hjson,hraw,hgzip,-⟩
    exact ⟨raw,hjson,hraw,hgzip⟩
  · rintro ⟨raw,hjson,hraw,hgzip⟩
    exact ⟨_,raw,hjson,hraw,hgzip,rfl⟩

/-- The protected record of a check, with its sequence number. -/
def exchange (s : Settings) (h : PreparationHandle) (candidateId : Uuid) (q : ℕ)
    (kind : EvidenceKind) (p : Prompt) (reply : ModelReply) : ArtifactPayload :=
  ⟨h.documentId,h.revisionId,"advisory_exchange",q,
    .advisoryExchange candidateId (findingResult kind (Settings.modelIdentity s kind) p reply)⟩

/-- The record of one check, for what the check reports. -/
def checkRecord (s : Settings) (enc : Encoding) (h : PreparationHandle) (candidateId : Uuid)
    (q : ℕ) (kind : EvidenceKind) (p : Prompt) (sources : List SourceExcerpt) :
    Except ProviderFailure ModelReply → Outcome EvidenceInput
  | .error .classificationUnavailable => .ok (unavailableAdvisory s kind)
  | .error e => .error (providerError e)
  | .ok reply => do
      let _ ← protectedArtifactBytes enc (exchange s h candidateId q kind p reply)
      findingRecord kind (findingResult kind (Settings.modelIdentity s kind) p reply) sources

variable {enc : Encoding} {h : PreparationHandle} {candidateId : Uuid} {q : ℕ}

theorem checkRecord_reply {reply : ModelReply} {record : EvidenceInput} :
    checkRecord s enc h candidateId q kind p sources (.ok reply) = .ok record ↔
      Storable enc (exchange s h candidateId q kind p reply) ∧
      findingRecord kind (findingResult kind (Settings.modelIdentity s kind) p reply) sources =
        .ok record := by
  rw [← protectedArtifactBytes_ok]
  simp only [checkRecord, bind_eq_ok]
  constructor
  · rintro ⟨bytes,hbytes,hrecord⟩
    exact ⟨⟨bytes,hbytes⟩,hrecord⟩
  · rintro ⟨⟨bytes,hbytes⟩,hrecord⟩
    exact ⟨bytes,hbytes,hrecord⟩

/-- A check can be recorded: it is recordable, and its protected record can be stored. -/
def Passes (s : Settings) (enc : Encoding) (h : PreparationHandle) (candidateId : Uuid) (q : ℕ)
    (kind : EvidenceKind) (p : Prompt) (recordable : Prop) (reported : Option ModelReply) : Prop :=
  recordable ∧ ∀ reply, reported = some reply →
    Storable enc (exchange s h candidateId q kind p reply)

/-- Every excerpt is a retained chunk of an allowed document. -/
def Cited (c : Catalog) (allowed : List Uuid) (sources : List SourceExcerpt) : Prop :=
  ∀ e, e ∈ sources → e.documentId ∈ allowed ∧ 1 ≤ e.pageStart ∧ e.pageStart ≤ e.pageEnd ∧
    chunkOwner c e.reference = some e.documentId

/-- The public citations of grounded quotes exist, and are valid unless a quote is blank. -/
theorem citations_ok (hsources : Cited c allowed sources) {quotes : List (ChunkId × String)}
    (h : ∀ q, q ∈ quotes → q.2.length ≤ 600 ∧ ∃ e, e ∈ sources ∧ e.reference = q.1) :
    ∃ cs, quotes.mapM (publicCitation sources) = .ok cs ∧ cs.length = quotes.length ∧
      cs.all (citationValid c allowed) = quotes.all fun q => !Preparation.isBlank q.2 := by
  induction quotes with
  | nil => exact ⟨[],rfl,rfl,rfl⟩
  | cons q quotes ih =>
    obtain ⟨cs,hcs,hlen,hall⟩ := ih fun q hq => h q (List.mem_cons_of_mem _ hq)
    obtain ⟨hquote,e,he,hreference⟩ := h q List.mem_cons_self
    have hfound : (sources.find? fun e => e.reference = q.1).isSome = true :=
      List.find?_isSome.2 ⟨e,he,by simpa using hreference⟩
    obtain ⟨e',he'⟩ := Option.isSome_iff_exists.1 hfound
    obtain ⟨hallowed,hstart,hend,howner⟩ := hsources e' (List.mem_of_find?_eq_some he')
    have hkey : e'.reference = q.1 := by simpa using List.find?_some he'
    refine ⟨⟨e'.documentId,q.1,e'.pageStart,e'.pageEnd,q.2⟩ :: cs,?_,?_,?_⟩
    · rw [List.mapM_cons, hcs]
      simp only [publicCitation, he', orRaise, bind, Except.bind, pure, Except.pure]
    · rw [List.length_cons, List.length_cons, hlen]
    · rw [List.all_cons, List.all_cons, hall]
      congr 1
      rw [hkey] at howner
      have hlong : q.2.length ≤ 4000 := by omega
      simp [citationValid, hallowed, hstart, hend, hlong, howner]

theorem Grounded.valid (h : Grounded p f) : validFinding p f = true := by
  refine List.all_eq_true.2 fun q hq => ?_
  obtain ⟨-,-,e,he,hreference,hsub⟩ := h.quotes q hq
  refine List.any_eq_true.2 ⟨e,he,?_⟩
  simpa using ⟨hreference,hsub⟩

/-- An excerpt of a prompt is a bounded excerpt of its sources. -/
theorem mem_buildPrompt {e : SourceExcerpt}
    (h : e ∈ (buildPrompt incoming candidate).incoming ++
      (buildPrompt incoming candidate).candidate) :
    ∃ e', e' ∈ incoming ++ candidate ∧ e'.reference = e.reference := by
  rcases List.mem_append.1 h with h | h
  · obtain ⟨e',he',rfl⟩ := List.mem_map.1 h
    exact ⟨e',List.mem_append_left _ (List.mem_of_mem_take he'),rfl⟩
  · obtain ⟨e',he',rfl⟩ := List.mem_map.1 h
    exact ⟨e',List.mem_append_right _ (List.mem_of_mem_take he'),rfl⟩

def advisory (kind : EvidenceKind) : Prop := kind = .classifier ∨ kind = .verifier

theorem modelIdentity_ne : (Settings.modelIdentity s kind).1 ≠ "" := by
  intro h
  have hlength := (Settings.modelIdentity s kind).2.1
  rw [h] at hlength
  exact absurd hlength (by decide)

/-- The record of a check that reported no finding is accepted. -/
theorem failed_valid {summary : String} {code : FailureCode} (hk : advisory kind)
    (hs : Preparation.isBlank summary = false ∧ summary.length ≤ 2000) :
    evidenceValid c allowed (failedAdvisory kind (some (Settings.modelIdentity s kind)) summary
      code) = true := by
  have hlength := (Settings.modelIdentity s kind).2.2
  rcases hk with rfl | rfl <;>
    simp [evidenceValid, failedAdvisory, hs.1, hs.2, hlength, modelIdentity_ne]

/-- The record of a grounded finding is accepted exactly when the finding is not blank. -/
theorem findingRecord_ok (hk : advisory kind) (hf : Grounded (buildPrompt incoming candidate) f)
    (hsources : Cited c allowed (incoming ++ candidate)) {reply : ModelReply}
    (hreply : reply.finding = some f) :
    ∃ record, findingRecord kind (findingResult kind (Settings.modelIdentity s kind)
        (buildPrompt incoming candidate) reply) (incoming ++ candidate) = .ok record ∧
      record.kind = kind ∧ record.valid = true ∧
      evidenceValid c allowed record = plain f := by
  have hquotes : ∀ q, q ∈ f.evidence → q.2.length ≤ 600 ∧
      ∃ e, e ∈ incoming ++ candidate ∧ e.reference = q.1 := by
    intro q hq
    obtain ⟨-,hlen,e,he,hreference,-⟩ := hf.quotes q hq
    obtain ⟨e',he',hsame⟩ := mem_buildPrompt he
    exact ⟨hlen,e',he',hsame.trans hreference⟩
  obtain ⟨cs,hcs,hlen,hall⟩ := citations_ok hsources hquotes
  have hfilter : reply.finding.filter (validFinding (buildPrompt incoming candidate)) =
      some f := by
    rw [hreply]
    exact Option.filter_eq_some_iff.2 ⟨rfl,hf.valid⟩
  refine ⟨⟨kind,some (Settings.modelIdentity s kind).1,true,some f.label,some f.summary,cs,
    none⟩,?_,rfl,rfl,?_⟩
  · simp only [findingRecord, findingResult, hfilter, hcs, bind, Except.bind, pure, Except.pure]
  · have hmodel := (Settings.modelIdentity s kind).2.2
    have hsummary : f.summary.length ≤ 2000 := by have := hf.summary.2; omega
    have hlabel : f.label.length ≤ 64 := by
      have hknown := hf.label.2
      simp only [findingLabels, List.mem_cons, List.not_mem_nil, or_false] at hknown
      rcases hknown with h | h | h | h | h | h <;> rw [h] <;> decide +kernel
    have hcount : cs.length ≤ 50 := by have := hf.evidence; omega
    rcases hk with rfl | rfl <;>
      simp [evidenceValid, plain, hmodel, hsummary, hlabel, hcount, hall, modelIdentity_ne]

/-- A record of the check exists and is accepted exactly when the check passes; it is valid
exactly when the check reported a finding. -/
theorem Reports.recorded {R : Prop} {reported : Option ModelReply} (hk : advisory kind)
    (hsources : Cited c allowed (incoming ++ candidate))
    (hreports : Reports (buildPrompt incoming candidate) R reported out) :
    (Passes s enc h candidateId q kind (buildPrompt incoming candidate) R reported →
      ∃ record, checkRecord s enc h candidateId q kind (buildPrompt incoming candidate)
        (incoming ++ candidate) out = .ok record ∧ record.kind = kind ∧
      evidenceValid c allowed record = true ∧
      (record.valid = true ↔ ∃ reply f, out = .ok reply ∧ reply.finding = some f)) ∧
    (¬ Passes s enc h candidateId q kind (buildPrompt incoming candidate) R reported →
      ∀ record, checkRecord s enc h candidateId q kind (buildPrompt incoming candidate)
        (incoming ++ candidate) out = .ok record → record.kind = kind ∧
      evidenceValid c allowed record = false) := by
  cases hreports with
  | unavailable hR =>
    refine ⟨fun _ => ⟨_,rfl,rfl,failed_valid hk (by decide +kernel),fun hv => ?_,?_⟩,
      fun hn => absurd ⟨hR,fun reply hreply => (nomatch hreply)⟩ hn⟩
    · cases hv
    · rintro ⟨reply,f,hreply,-⟩
      cases hreply
  | invalid hR hn =>
    rename_i reply
    have hrecord : findingRecord kind (findingResult kind (Settings.modelIdentity s kind)
        (buildPrompt incoming candidate) reply) (incoming ++ candidate) =
        .ok (failedAdvisory kind (some (Settings.modelIdentity s kind))
          "Advisory output did not pass strict validation." (failureCode "advisory_invalid")) := by
      simp only [findingRecord, findingResult, hn, Option.filter_none]
      rfl
    refine ⟨fun hpass => ⟨_,checkRecord_reply.2 ⟨hpass.2 reply rfl,hrecord⟩,rfl,
      failed_valid hk (by decide +kernel),fun hv => ?_,?_⟩,fun hfail record hok => ?_⟩
    · cases hv
    · rintro ⟨reply',f,hreply,hf⟩
      cases hreply
      rw [hn] at hf
      cases hf
    · refine absurd ⟨hR,?_⟩ hfail
      rintro _ ⟨⟩
      exact (checkRecord_reply.1 hok).1
  | valid hR hf hg hp =>
    rename_i reply f
    obtain ⟨record,hrecord,hkind,hvalid,haccept⟩ := findingRecord_ok hk hg hsources hf
    refine ⟨fun hpass => ⟨record,checkRecord_reply.2 ⟨hpass.2 reply rfl,hrecord⟩,hkind,
      haccept.trans hp,fun _ => ⟨reply,f,rfl,hf⟩,fun _ => hvalid⟩,fun hfail record hok => ?_⟩
    refine absurd ⟨hR,?_⟩ hfail
    rintro _ ⟨⟩
    exact (checkRecord_reply.1 hok).1
  | raised hR he =>
    refine ⟨fun hpass => absurd hpass.1 hR,fun _ record hrecord => ?_⟩
    unfold checkRecord at hrecord
    split at hrecord
    · rename_i hunavailable
      exact absurd (Except.error.inj hunavailable) he
    · cases hrecord
    · rename_i hreply
      cases hreply
  | blank hR hf hg hp =>
    rename_i reply f
    obtain ⟨record,hrecord,hkind,-,haccept⟩ := findingRecord_ok hk hg hsources hf
    refine ⟨fun hpass => absurd hpass.1 hR,fun _ record' hrecord' => ?_⟩
    obtain rfl := Except.ok.inj (hrecord.symm.trans (checkRecord_reply.1 hrecord').2)
    exact ⟨hkind,haccept.trans hp⟩

/-! ### The review as a run -/

/-- What the threads share, and the number of checks made so far. -/
structure Review where
  shared : Shared
  checks : ℕ

/-- The exchanges of each check, in the order in which the checks are made. -/
abbrev Provider := ℕ → ℕ → Exchange

/-- The catalog and the storage work, and the provider answers a check. -/
def input (advisor : Advisor) (provider : Provider) (checks : ℕ) : Request → Input
  | .provider (.classify kind p) =>
      .reply (Classification.classifyCandidate advisor kind p (provider checks))
  | _ => .proceed

def isCheck : Request → Bool
  | .provider (.classify _ _) => true
  | _ => false

def handler (s : Settings) (enc : Encoding) (ref : OperationRef) (advisor : Advisor)
    (provider : Provider) : Program.Handler signature ServiceError Review := fun r σ =>
  match exec s enc ref (input advisor provider σ.checks r) σ.shared r with
  | some (x,t) => (x,⟨t.tick 0,if isCheck r then σ.checks + 1 else σ.checks⟩)
  | none => (.error .database,σ)

theorem record_advisory_failed_code : isFailureCode "record_advisory_failed" = true := by
  decide +kernel

theorem record_advisory_failed_text : 1 ≤ "advisory evidence could not be recorded".length ∧
    "advisory evidence could not be recorded".length ≤ 500 := by decide +kernel

/-- `_classify_candidates`, and then `append_advisory_evidence`. -/
def adviseCandidates (s : Settings) (h : PreparationHandle)
    (discoveries : List CandidateDiscovery) (candidateIds : List Uuid) : Prog Advisory := do
  let advice ← classifyCandidates s h discoveries candidateIds
  stage (.appendAdvisoryEvidence h advice.evidence)
    (preparationError "record_advisory_failed" "advisory evidence could not be recorded"
      record_advisory_failed_code record_advisory_failed_text)
  .pure advice

/-- A document retains a chunk in one of its revisions. -/
def hasChunk (d : Document) (id : ChunkId) : Bool :=
  d.preparedRevisions.rows.any fun r => r.content.chunks.any fun k => k.id = id

def Retains (c : Catalog) (documentId : Uuid) (id : ChunkId) : Prop :=
  ∃ d, d ∈ c.documents ∧ d.id = documentId ∧ hasChunk d id = true

/-- The constraints of the chunk table: the identity of a chunk is its primary key, and its page
range is one. -/
structure ChunkTable (c : Catalog) : Prop where
  unique : ∀ i j id, Retains c i id → Retains c j id → i = j
  pages : ∀ d r k, d ∈ c.documents → r ∈ d.preparedRevisions → k ∈ r.content.chunks →
    1 ≤ k.pageStart ∧ k.pageStart ≤ k.pageEnd

def withArtifacts (r : PreparedRevision) (artifacts : List RevisionArtifact) :
    PreparedRevision := {r with content := {r.content with artifacts := artifacts}}

/-- The catalog `c'` differs from `c` only in the protected artifacts of the revision `r`. -/
structure View (h : PreparationHandle) (c : Catalog) (r : PreparedRevision) (c' : Catalog) :
    Prop where
  document : ∃ d artifacts, c'.document? h.documentId = some d ∧
    loadStage d h = .ok (withArtifacts r artifacts)
  others : ∀ id, id ≠ h.documentId → c'.document? id = c.document? id
  retains : ∀ id k, Retains c' id k ↔ Retains c id k

section Views
variable {h : PreparationHandle} {r : PreparedRevision} {c' : Catalog} {d : Document}
  {id : Uuid} {revisionId : Option Uuid}

theorem loadStage_ok {r' : PreparedRevision} :
    loadStage d h = .ok r' ↔ d.revision? h.revisionId = some r' ∧ r'.status = .preparing ∧
      validateRevisionIdentity r' h = .ok () := by
  simp only [loadStage, loadPreparing, loadRevision, bind_eq_ok, orRaise_eq_ok, require_eq_ok,
    pure_eq_ok, exists_const]
  constructor
  · rintro ⟨x,⟨y,hy,hs,rfl⟩,_,hv,rfl⟩
    exact ⟨hy,hs,hv⟩
  · rintro ⟨hr,hs,hv⟩
    exact ⟨r',⟨r',hr,hs,rfl⟩,(),hv,rfl⟩

theorem chunkOwner_eq {k : ChunkId} (hunique : ∀ i j, Retains c i k → Retains c j k → i = j)
    (hk : Retains c id k) : chunkOwner c k = some id := by
  obtain ⟨d,hd,hid,hchunk⟩ := hk
  have hsome : (c.documents.rows.find? fun d => hasChunk d k).isSome = true :=
    List.find?_isSome.2 ⟨d,hd,hchunk⟩
  obtain ⟨e,he⟩ := Option.isSome_iff_exists.1 hsome
  have hfound : chunkOwner c k = some e.id := congrArg (Option.map Document.id) he
  rw [hfound]
  have hholds := List.find?_some he
  exact congrArg some (hunique e.id id ⟨e,List.mem_of_find?_eq_some he,rfl,hholds⟩
    ⟨d,hd,hid,hchunk⟩)

theorem hasChunk_putRevision {r r' : PreparedRevision} (hr : r' ∈ d.preparedRevisions)
    (hid : r.id = r'.id) (hchunks : r.content.chunks = r'.content.chunks) (k : ChunkId) :
    hasChunk (d.putRevision r) k = hasChunk d k := by
  rw [Bool.eq_iff_iff]
  simp only [hasChunk, List.any_eq_true]
  constructor
  · rintro ⟨x,hx,hk⟩
    rcases Table.mem_put.1 hx with rfl | ⟨hx,-⟩
    · exact ⟨r',hr,hchunks ▸ hk⟩
    · exact ⟨x,hx,hk⟩
  · rintro ⟨x,hx,hk⟩
    by_cases hsame : x.id = r.id
    · obtain rfl := Table.eq_of_key_eq hx hr (hsame.trans hid)
      exact ⟨r,Table.mem_put.2 (Or.inl rfl),hchunks ▸ hk⟩
    · exact ⟨x,Table.mem_put.2 (Or.inr ⟨hx,hsame⟩),hk⟩

/-- Replacing a document by one with the same chunks changes no retention. -/
theorem retains_put {e : Document} (hd : d ∈ c.documents) (hid : e.id = d.id)
    (hchunks : ∀ k, hasChunk e k = hasChunk d k) (i : Uuid) (k : ChunkId) :
    Retains (c.put e) i k ↔ Retains c i k := by
  constructor
  · rintro ⟨x,hx,hi,hk⟩
    rcases Table.mem_put.1 hx with rfl | ⟨hx,-⟩
    · exact ⟨d,hd,hid.symm.trans hi,(hchunks k).symm.trans hk⟩
    · exact ⟨x,hx,hi,hk⟩
  · rintro ⟨x,hx,hi,hk⟩
    by_cases hsame : x.id = e.id
    · obtain rfl := Table.eq_of_key_eq hx hd (hsame.trans hid)
      exact ⟨e,Table.mem_put.2 (Or.inl rfl),hsame.symm.trans hi,(hchunks k).trans hk⟩
    · exact ⟨x,Table.mem_put.2 (Or.inr ⟨hx,hsame⟩),hi,hk⟩

theorem artifactSequence_staged {artifacts : List RevisionArtifact} {kind : String}
    (hd : c'.document? h.documentId = some d)
    (hstage : loadStage d h = .ok (withArtifacts r artifacts)) :
    Worker.artifactSequence h.documentId h.revisionId kind c' =
      .ok (nextSequence kind artifacts) := by
  obtain ⟨hr,hstatus,-⟩ := loadStage_ok.1 hstage
  have hopen : ¬ (withArtifacts r artifacts).status = .sealed := by
    rw [hstatus]
    decide
  simp only [Worker.artifactSequence, hd, orRaise, hr, require, if_pos hopen, bind,
    Except.bind, pure, Except.pure]
  rfl

theorem nextSequence_append {a : RevisionArtifact} {artifacts : List RevisionArtifact}
    {kind : String} (hk : a.kind = kind) (hs : a.sequence = nextSequence kind artifacts) :
    nextSequence kind (artifacts ++ [a]) = nextSequence kind artifacts + 1 := by
  have hmax : ∀ (ns : List ℕ) (n : ℕ), ns.foldr max 0 ≤ n → (ns ++ [n]).foldr max 0 = n := by
    intro ns n hn
    induction ns with
    | nil => simp
    | cons m ns ih =>
      rw [List.foldr_cons, max_le_iff] at hn
      rw [List.cons_append, List.foldr_cons, ih hn.2]
      exact max_eq_right hn.1
  have hfilter : ([a].filter fun x => x.kind = kind) = [a] := by simp [hk]
  rw [nextSequence, List.filter_append, hfilter, List.map_append, List.map_singleton, hs]
  exact hmax _ _ (Nat.le_succ _)

/-- The insertion of a protected artifact is seen by the review in the sequence number only. -/
theorem View.insertArtifact (hv : View h c r c') {a : RevisionArtifact}
    (ha : Worker.artifactSequence h.documentId h.revisionId a.kind c' = .ok a.sequence)
    {lost : ServiceError} :
    ∃ c'', onDocument c' h.documentId lost (Worker.insertArtifact h.revisionId a) =
      .ok ((),c'') ∧ View h c r c'' ∧
      Worker.artifactSequence h.documentId h.revisionId a.kind c'' = .ok (a.sequence + 1) := by
  obtain ⟨d,artifacts,hd,hstage⟩ := hv.document
  obtain ⟨hr,hstatus,hidentity⟩ := loadStage_ok.1 hstage
  rw [artifactSequence_staged hd hstage, Except.ok.injEq] at ha
  have hmem : withArtifacts r artifacts ∈ d.preparedRevisions := Table.mem_of_lookup hr
  have hid : d.id = h.documentId := Catalog.id_of_document? hd
  have hkey : h.revisionId = (withArtifacts r (artifacts ++ [a])).id :=
    (Table.key_of_lookup hr).symm
  have hd' : (c'.put (d.putRevision (withArtifacts r (artifacts ++ [a])))).document?
      h.documentId = some (d.putRevision (withArtifacts r (artifacts ++ [a]))) := by
    have hput : h.documentId = (d.putRevision (withArtifacts r (artifacts ++ [a]))).id := hid.symm
    rw [hput]
    exact Table.lookup_put_self _ _
  have hstage' : loadStage (d.putRevision (withArtifacts r (artifacts ++ [a]))) h =
      .ok (withArtifacts r (artifacts ++ [a])) := by
    refine loadStage_ok.2 ⟨?_,hstatus,hidentity⟩
    rw [hkey]
    exact Table.lookup_put_self _ _
  refine ⟨c'.put (d.putRevision (withArtifacts r (artifacts ++ [a]))),?_,
    ⟨⟨_,artifacts ++ [a],hd',hstage'⟩,fun id hne => ?_,fun i k => ?_⟩,?_⟩
  · have hopen : ¬ (withArtifacts r artifacts).status = .sealed := by
      rw [hstatus]
      decide
    simp only [onDocument, hd, orRaise, Worker.insertArtifact, hr, require, if_pos hopen, bind,
      Except.bind, pure, Except.pure]
    rfl
  · have hput : (d.putRevision (withArtifacts r (artifacts ++ [a]))).id ≠ id :=
      fun he => hne (he.symm.trans hid)
    rw [Catalog.document?_put_of_ne hput]
    exact hv.others id hne
  · rw [← hv.retains i k]
    have hchunks : ∀ k, hasChunk (d.putRevision (withArtifacts r (artifacts ++ [a]))) k =
        hasChunk d k := hasChunk_putRevision hmem rfl rfl
    exact retains_put (e := d.putRevision (withArtifacts r (artifacts ++ [a])))
      (Catalog.mem_of_document? hd) rfl hchunks i k
  · rw [artifactSequence_staged hd' hstage', nextSequence_append rfl ha.symm, ha]

end Views

section Excerpts
variable {h : PreparationHandle} {r : PreparedRevision} {c' : Catalog} {id : Uuid}
  {revisionId : Option Uuid}

theorem View.staged_chunks (hv : View h c r c') :
    (((c'.document? h.documentId).bind (·.revision? h.revisionId)).map
      (·.content.chunks)).getD [] = r.content.chunks := by
  obtain ⟨d,artifacts,hd,hstage⟩ := hv.document
  rw [hd, Option.bind_some, (loadStage_ok.1 hstage).1]
  rfl

/-- The review reads the same excerpts at every moment. -/
theorem excerpts_view (hc : View h c r c) (hv : View h c r c') (hid : id ≠ h.documentId) :
    classificationExcerpts h id revisionId c' = classificationExcerpts h id revisionId c := by
  simp only [classificationExcerpts, hv.others id hid, hv.staged_chunks, hc.staged_chunks]

theorem mem_excerptsOf {documentId : Uuid} {chunks : List PreparedChunk} {e : SourceExcerpt}
    (he : e ∈ excerptsOf documentId chunks) : ∃ k, k ∈ chunks ∧ e.documentId = documentId ∧
      e.reference = k.id ∧ e.pageStart = k.pageStart ∧ e.pageEnd = k.pageEnd := by
  obtain ⟨k,hk,rfl⟩ := List.mem_map.1 he
  exact ⟨k,hk,rfl,rfl,rfl,rfl⟩

/-- A chunk of a stored revision can be cited for its document. -/
theorem cited_chunk (htable : ChunkTable c) (hv : View h c r c') {d : Document}
    {r' : PreparedRevision} {k : PreparedChunk} (hd : c.document? id = some d)
    (hr : r' ∈ d.preparedRevisions) (hk : k ∈ r'.content.chunks) :
    1 ≤ k.pageStart ∧ k.pageStart ≤ k.pageEnd ∧ chunkOwner c' k.id = some id := by
  have hmem := Catalog.mem_of_document? hd
  obtain ⟨hstart,hend⟩ := htable.pages d r' k hmem hr hk
  refine ⟨hstart,hend,chunkOwner_eq (fun i j hi hj => ?_) ?_⟩
  · exact htable.unique i j k.id ((hv.retains i k.id).1 hi) ((hv.retains j k.id).1 hj)
  · refine (hv.retains id k.id).2 ⟨d,hmem,Catalog.id_of_document? hd,?_⟩
    exact List.any_eq_true.2 ⟨r',hr,List.any_eq_true.2 ⟨k,hk,by simp⟩⟩

theorem cited_excerpts (htable : ChunkTable c) (hc : View h c r c) (hv : View h c r c')
    {incoming candidate : List SourceExcerpt}
    (hx : classificationExcerpts h id revisionId c = .ok (incoming,candidate)) :
    Cited c' [h.documentId,id] (incoming ++ candidate) := by
  simp only [classificationExcerpts, bind_eq_ok, orRaise_eq_ok, require_eq_ok, exists_const,
    pure_eq_ok, Prod.mk.injEq] at hx
  obtain ⟨candidateRevision,-,-,hincoming,hcandidate⟩ := hx
  rw [hc.staged_chunks] at hincoming
  intro e he
  rcases List.mem_append.1 he with he | he
  · rw [← hincoming] at he
    obtain ⟨k,hk,hdocument,hreference,hstart,hend⟩ := mem_excerptsOf he
    obtain ⟨d,artifacts,hd,hstage⟩ := hc.document
    have hmem : withArtifacts r artifacts ∈ d.preparedRevisions :=
      Table.mem_of_lookup (loadStage_ok.1 hstage).1
    rw [hdocument, hreference, hstart, hend]
    exact ⟨List.mem_cons_self,cited_chunk htable hv hd hmem hk⟩
  · rw [← hcandidate] at he
    obtain ⟨k,hk,hdocument,hreference,hstart,hend⟩ := mem_excerptsOf he
    rw [hdocument, hreference, hstart, hend]
    refine ⟨List.mem_cons_of_mem _ List.mem_cons_self,?_⟩
    cases hd : c.document? id with
    | none =>
      rw [hd] at hk
      exact absurd hk List.not_mem_nil
    | some d =>
      rw [hd, Option.bind_some] at hk
      cases hr : d.revision? candidateRevision with
      | none =>
        rw [hr] at hk
        exact absurd hk List.not_mem_nil
      | some r' =>
        rw [hr] at hk
        exact cited_chunk htable hv hd (Table.mem_of_lookup hr) hk

end Excerpts

/-! ### Runs of the review -/

section Runs

variable {h : PreparationHandle} {r : PreparedRevision} {enc : Encoding} {ref : OperationRef}
  {provider : Provider} {n q : ℕ} {candidateId : Uuid}

theorem sent_eq_one {x : ℕ → Exchange} {reply : ModelReply}
    (hout : Classification.classifyCandidate advisor kind p x = .ok reply) :
    sent advisor kind p x = 1 := by
  have hreports := @classifyCandidate_reports advisor kind p x
  unfold sent
  rw [hout] at hreports
  generalize report advisor kind p x = reported at hreports
  cases hreports <;> rfl

theorem sent_eq_zero {x : ℕ → Exchange} (hout : Classification.classifyCandidate advisor kind p x =
    .error .classificationUnavailable) : sent advisor kind p x = 0 := by
  have hreports := @classifyCandidate_reports advisor kind p x
  unfold sent
  rw [hout] at hreports
  generalize report advisor kind p x = reported at hreports
  cases hreports with
  | unavailable _ => rfl
  | raised _ he => exact absurd rfl he

/-- The review has made `n` checks, and `q` is the next sequence number of their records. -/
structure Made (h : PreparationHandle) (c : Catalog) (r : PreparedRevision) (n q : ℕ)
    (σ : Review) : Prop where
  view : View h c r σ.shared.catalog
  checks : σ.checks = n
  sequence : Worker.artifactSequence h.documentId h.revisionId "advisory_exchange"
    σ.shared.catalog = .ok q

/-- A protected artifact is written and recorded, if it can be stored. -/
theorem triple_persist {material : ArtifactMaterial} (href : ref.documentId = h.documentId) :
    Program.Triple (handler s enc ref advisor provider) (Made h c r n q)
      (Worker.persistRevisionArtifact h.documentId h.revisionId "advisory_exchange" material)
      (fun _ σ => (∃ bytes, protectedArtifactBytes enc
        ⟨h.documentId,h.revisionId,"advisory_exchange",q,material⟩ = .ok bytes) ∧
        Made h c r n (q + 1) σ)
      (fun e _ => protectedArtifactBytes enc
        ⟨h.documentId,h.revisionId,"advisory_exchange",q,material⟩ = .error e) := by
  unfold Worker.persistRevisionArtifact
  simp only [Program.bind_eq]
  have hsequence : ∀ σ, Made h c r n q σ → Program.EndsIn
      (fun (x : ℕ) σ => x = q ∧ Made h c r n q σ)
      (fun e _ => protectedArtifactBytes enc
        ⟨h.documentId,h.revisionId,"advisory_exchange",q,material⟩ = .error e)
      (handler s enc ref advisor provider
        (.catalog (.artifactSequence h.revisionId "advisory_exchange")) σ) := by
    intro σ hσ
    simp only [handler, exec, input, CatalogRequest.run, reading, href, hσ.sequence, Except.map]
    exact ⟨rfl,hσ.view,hσ.checks,hσ.sequence⟩
  refine Program.Triple.bind (Program.Triple.request hsequence) fun sequence => ?_
  rintro σ ⟨rfl,hσ⟩
  have hwrite : ∀ σ, Made h c r n sequence σ → Program.EndsIn
      (fun (a : RevisionArtifact) σ => (∃ bytes, protectedArtifactBytes enc
        ⟨h.documentId,h.revisionId,"advisory_exchange",sequence,material⟩ = .ok bytes) ∧
        (a.kind = "advisory_exchange" ∧ a.sequence = sequence) ∧ Made h c r n sequence σ)
      (fun e _ => protectedArtifactBytes enc
        ⟨h.documentId,h.revisionId,"advisory_exchange",sequence,material⟩ = .error e)
      (handler s enc ref advisor provider (.files (.writeArtifact h.documentId h.revisionId
        "advisory_exchange" sequence material)) σ) := by
    intro σ hσ
    cases hbytes : protectedArtifactBytes enc
        ⟨h.documentId,h.revisionId,"advisory_exchange",sequence,material⟩ with
    | error e =>
      simp only [handler, exec, input, FileRequest.prepared, hbytes, Except.map]
      rfl
    | ok bytes =>
      simp only [handler, exec, input, FileRequest.prepared, hbytes, Except.map]
      exact ⟨⟨bytes,rfl⟩,⟨rfl,rfl⟩,hσ.view,hσ.checks,hσ.sequence⟩
  refine Program.Triple.bind (Program.Triple.request hwrite) (fun artifact => ?_) σ hσ
  rintro τ ⟨hbytes,⟨hkind,hsame⟩,hτ⟩
  have hinsert : Program.Triple (handler s enc ref advisor provider) (fun υ => υ = τ)
      (Worker.catalog (.insertArtifact h.revisionId artifact))
      (fun (_ : Unit) υ => (∃ bytes, protectedArtifactBytes enc
        ⟨h.documentId,h.revisionId,"advisory_exchange",sequence,material⟩ = .ok bytes) ∧
        Made h c r n (sequence + 1) υ) (fun _ _ => False) := by
    refine Program.Triple.request ?_
    rintro υ rfl
    have hnext : Worker.artifactSequence h.documentId h.revisionId artifact.kind
        υ.shared.catalog = .ok artifact.sequence := by
      rw [hkind, hsame]
      exact hτ.sequence
    obtain ⟨c'',hc'',hv,hseq⟩ := hτ.view.insertArtifact hnext
    have hrun : CatalogRequest.run s enc υ.shared.now υ.shared.process.workerId ref
        υ.shared.catalog (.insertArtifact h.revisionId artifact) = .ok ((),c'') := by
      simp only [CatalogRequest.run, href]
      exact hc''
    rw [hkind, hsame] at hseq
    simp only [handler, exec, input, hrun]
    exact ⟨hbytes,hv,hτ.checks,hseq⟩
  exact Program.Triple.tryCatch hinsert (fun e υ hυ => hυ.elim) τ rfl

/-- One check is made and its artifact recorded; it raises exactly when it has no record. -/
theorem triple_classify (href : ref.documentId = h.documentId) :
    Program.Triple (handler s enc ref advisor provider) (Made h c r n q)
      (Worker.classifyCandidate s h candidateId incoming candidate kind)
      (fun record σ => checkRecord s enc h candidateId q kind (buildPrompt incoming candidate)
          (incoming ++ candidate) (Classification.classifyCandidate advisor kind
            (buildPrompt incoming candidate) (provider n)) = .ok record ∧
        Made h c r (n + 1)
          (q + sent advisor kind (buildPrompt incoming candidate) (provider n)) σ)
      (fun e _ => checkRecord s enc h candidateId q kind (buildPrompt incoming candidate)
          (incoming ++ candidate) (Classification.classifyCandidate advisor kind
            (buildPrompt incoming candidate) (provider n)) = .error e) := by
  unfold Worker.classifyCandidate
  simp only [Program.bind_eq]
  have hcheck : ∀ σ, Made h c r n q σ → Program.EndsIn
      (fun (y : Except ProviderFailure ModelReply) σ =>
        y = Classification.classifyCandidate advisor kind (buildPrompt incoming candidate)
          (provider n) ∧ Made h c r (n + 1) q σ)
      (fun e _ => checkRecord s enc h candidateId q kind (buildPrompt incoming candidate)
          (incoming ++ candidate) (Classification.classifyCandidate advisor kind
            (buildPrompt incoming candidate) (provider n)) = .error e)
      (handler s enc ref advisor provider
        (.provider (.classify kind (buildPrompt incoming candidate))) σ) := by
    intro σ hσ
    obtain ⟨hv,rfl,hq⟩ := hσ
    exact ⟨rfl,hv,rfl,hq⟩
  refine Program.Triple.bind (Program.Triple.request hcheck) fun out σ hσ => ?_
  obtain ⟨hout,hσ⟩ := hσ
  rw [← hout]
  cases out with
  | error e =>
    cases e with
    | classificationUnavailable =>
      refine ⟨rfl,?_⟩
      rw [sent_eq_zero hout.symm]
      exact hσ
    | extractionRejected reason => exact rfl
    | extractionInfrastructure => exact rfl
    | markdownFormatting message => exact rfl
    | markdownChunking => exact rfl
    | localModel => exact rfl
    | value => exact rfl
    | other => exact rfl
  | ok reply =>
    rw [sent_eq_one hout.symm]
    have hpersist := @triple_persist advisor s c h r enc ref provider (n + 1) q
      (.advisoryExchange candidateId (findingResult kind (Settings.modelIdentity s kind)
        (buildPrompt incoming candidate) reply)) href
    refine Program.Triple.bind (hpersist.post (fun _ _ hx => hx) fun e τ he => ?_) (fun _ => ?_)
      σ hσ
    · simp only [checkRecord, exchange, he, bind, Except.bind]
    · rintro τ ⟨⟨bytes,hbytes⟩,hτ⟩
      refine Program.Triple.lift (fun record hrecord υ hυ => ?_) (fun e he υ hυ => ?_) τ hτ
      · simp only [checkRecord, exchange, hbytes, bind, Except.bind]
        exact ⟨hrecord,hυ⟩
      · simp only [checkRecord, exchange, hbytes, bind, Except.bind]
        exact he

end Runs

/-! ### Whole reviews -/

section Reviews
variable {h : PreparationHandle} {r : PreparedRevision} {enc : Encoding} {ref : OperationRef}
  {provider : Provider} {n q : ℕ} {candidateId : Uuid} {y : CandidateDiscovery}

/-- The records of both checks of a candidate, the first of which is the `n`th check, and its
protected record the `q`th one. -/
def reviewRecords (s : Settings) (enc : Encoding) (advisor : Advisor) (provider : Provider)
    (h : PreparationHandle) (c : Catalog) (y : CandidateDiscovery) (candidateId : Uuid)
    (n q : ℕ) : Outcome (List EvidenceInput) := do
  let (incoming,candidate) ←
    classificationExcerpts h y.candidate.documentId y.preparedRevisionId c
  let p := buildPrompt incoming candidate
  let a ← checkRecord s enc h candidateId q .classifier p (incoming ++ candidate)
    (Classification.classifyCandidate advisor .classifier p (provider n))
  let b ← checkRecord s enc h candidateId (q + sent advisor .classifier p (provider n)) .verifier
    p (incoming ++ candidate)
    (Classification.classifyCandidate advisor .verifier p (provider (n + 1)))
  pure (if a.valid && b.valid then [a,b] else [a,b,
    incompleteAdvisory "One or more independent advisory checks were incomplete."
      (failureCode "advisory_incomplete" advisory_incomplete_code)])

/-- The number of protected records of both checks of a candidate. -/
def sentBoth (advisor : Advisor) (provider : Provider) (h : PreparationHandle) (c : Catalog)
    (y : CandidateDiscovery) (n : ℕ) : ℕ :=
  match classificationExcerpts h y.candidate.documentId y.preparedRevisionId c with
  | .ok (incoming,candidate) =>
      sent advisor .classifier (buildPrompt incoming candidate) (provider n) +
        sent advisor .verifier (buildPrompt incoming candidate) (provider (n + 1))
  | .error _ => 0

theorem triple_review (href : ref.documentId = h.documentId) (hc : View h c r c)
    (hne : y.candidate.documentId ≠ h.documentId) :
    Program.Triple (handler s enc ref advisor provider) (Made h c r n q)
      (reviewCandidate s h y candidateId)
      (fun records σ =>
        reviewRecords s enc advisor provider h c y candidateId n q = .ok records ∧
        Made h c r (n + 2) (q + sentBoth advisor provider h c y n) σ)
      (fun e _ => reviewRecords s enc advisor provider h c y candidateId n q = .error e) := by
  unfold reviewCandidate
  simp only [Program.bind_eq]
  have hread : ∀ σ, Made h c r n q σ → Program.EndsIn
      (fun (x : List SourceExcerpt × List SourceExcerpt) σ => classificationExcerpts h
        y.candidate.documentId y.preparedRevisionId c = .ok x ∧ Made h c r n q σ)
      (fun e _ => reviewRecords s enc advisor provider h c y candidateId n q = .error e)
      (handler s enc ref advisor provider (.catalog (.classificationExcerpts h
        y.candidate.documentId y.preparedRevisionId)) σ) := by
    intro σ hσ
    have hsame := @excerpts_view c h r σ.shared.catalog y.candidate.documentId
      y.preparedRevisionId hc hσ.view hne
    simp only [handler, exec, input, CatalogRequest.run, hsame]
    cases hx : classificationExcerpts h y.candidate.documentId y.preparedRevisionId c with
    | error e =>
      simp only [reading, Except.map, Program.EndsIn, reviewRecords, hx, bind, Except.bind]
    | ok x => exact ⟨rfl,hσ.view,hσ.checks,hσ.sequence⟩
  refine Program.Triple.bind (Program.Triple.request hread) fun x => ?_
  obtain ⟨incoming,candidate⟩ := x
  rintro σ ⟨hx,hσ⟩
  have hfirst := @triple_classify advisor s c incoming candidate .classifier h r enc ref
    provider n q candidateId href
  refine Program.Triple.bind (hfirst.post (fun _ _ ha => ha) fun e τ he => ?_) (fun a => ?_)
    σ hσ
  · simp only [reviewRecords, hx, he, bind, Except.bind]
  rintro τ ⟨ha,hτ⟩
  have hsecond := @triple_classify advisor s c incoming candidate .verifier h r enc ref
    provider (n + 1) (q + sent advisor .classifier (buildPrompt incoming candidate) (provider n))
    candidateId href
  refine Program.Triple.bind (hsecond.post (fun _ _ hb => hb) fun e υ he => ?_) (fun b => ?_)
    τ hτ
  · simp only [reviewRecords, hx, ha, he, bind, Except.bind]
  rintro υ ⟨hb,hυ⟩
  refine ⟨?_,?_⟩
  · simp only [reviewRecords, hx, ha, hb, bind, Except.bind, pure, Except.pure]
  · simp only [sentBoth, hx, ← Nat.add_assoc]
    exact hυ

/-- The records of the candidate with index `i`. -/
def recordsAt (s : Settings) (enc : Encoding) (advisor : Advisor) (provider : Provider)
    (h : PreparationHandle) (c : Catalog) (i q : ℕ) (y : CandidateDiscovery)
    (candidateId : Uuid) : Outcome (List EvidenceInput) :=
  if Candidates.maxClassifiedCandidates ≤ i then .ok (budgetRecords s)
  else reviewRecords s enc advisor provider h c y candidateId (2 * i) q

/-- The number of protected records of the candidate with index `i`. -/
def sentAt (advisor : Advisor) (provider : Provider) (h : PreparationHandle) (c : Catalog)
    (i : ℕ) (y : CandidateDiscovery) : ℕ :=
  if Candidates.maxClassifiedCandidates ≤ i then 0 else sentBoth advisor provider h c y (2 * i)

/-- The records of the candidates from index `i` on. -/
def recordsFrom (s : Settings) (enc : Encoding) (advisor : Advisor) (provider : Provider)
    (h : PreparationHandle) (c : Catalog) :
    ℕ → ℕ → List (CandidateDiscovery × Uuid) → Outcome (List (Uuid × List EvidenceInput))
  | _, _, [] => .ok []
  | i, q, (y,id) :: ys => do
      let records ← recordsAt s enc advisor provider h c i q y id
      let rest ← recordsFrom s enc advisor provider h c (i + 1)
        (q + sentAt advisor provider h c i y) ys
      pure ((id,records) :: rest)

def allValid (evidence : List (Uuid × List EvidenceInput)) : Bool :=
  evidence.all fun x => x.2.all (·.valid)

/-- The number of checks before the candidate with index `i`. -/
def checksBefore (i : ℕ) : ℕ := 2 * min i Candidates.maxClassifiedCandidates

theorem triple_next (href : ref.documentId = h.documentId) (hc : View h c r c) {i : ℕ}
    {advice : Worker.Advisory} (hne : y.candidate.documentId ≠ h.documentId) :
    Program.Triple (handler s enc ref advisor provider) (Made h c r (checksBefore i) q)
      (reviewNext s h advice ((y,candidateId),i))
      (fun next σ =>
        Made h c r (checksBefore (i + 1)) (q + sentAt advisor provider h c i y) σ ∧
        ∃ records, recordsAt s enc advisor provider h c i q y candidateId = .ok records ∧
          next.evidence = advice.evidence ++ [(candidateId,records)] ∧
          next.complete = (advice.complete && records.all (·.valid)))
      (fun e _ => recordsAt s enc advisor provider h c i q y candidateId = .error e) := by
  unfold reviewNext recordsAt sentAt
  by_cases hi : Candidates.maxClassifiedCandidates ≤ i
  · simp only [hi, if_true]
    refine Program.Triple.pure fun σ hσ => ⟨?_,_,rfl,rfl,?_⟩
    · have hsame : checksBefore (i + 1) = checksBefore i := by
        unfold checksBefore
        omega
      rw [hsame]
      exact hσ
    · simp [budgetRecords, unavailableAdvisory, failedAdvisory]
  · simp only [hi, if_false, Program.bind_eq]
    have hcount : checksBefore i = 2 * i ∧ checksBefore (i + 1) = 2 * i + 2 := by
      unfold checksBefore
      omega
    rw [hcount.1, hcount.2]
    refine Program.Triple.bind (triple_review href hc hne) fun records => ?_
    exact Program.Triple.pure fun σ hσ => ⟨hσ.2,records,hσ.1,rfl,rfl⟩

theorem triple_advice (href : ref.documentId = h.documentId) (hc : View h c r c)
    {ys : List (CandidateDiscovery × Uuid)}
    (hne : ∀ y, y ∈ ys → y.1.candidate.documentId ≠ h.documentId) (i q : ℕ)
    (advice : Worker.Advisory) :
    Program.Triple (handler s enc ref advisor provider) (Made h c r (checksBefore i) q)
      (Program.foldl (reviewNext s h) advice (ys.zipIdx i))
      (fun final σ => View h c r σ.shared.catalog ∧
        ∃ evidence, recordsFrom s enc advisor provider h c i q ys = .ok evidence ∧
          final.evidence = advice.evidence ++ evidence ∧
          final.complete = (advice.complete && allValid evidence))
      (fun e _ => recordsFrom s enc advisor provider h c i q ys = .error e) := by
  induction ys generalizing i q advice with
  | nil =>
    refine Program.Triple.pure fun σ hσ => ⟨hσ.view,[],rfl,?_,?_⟩
    · exact (List.append_nil _).symm
    · exact (Bool.and_true _).symm
  | cons y ys ih =>
    obtain ⟨y,id⟩ := y
    rw [List.zipIdx_cons, Program.foldl]
    have hnext := @triple_next advisor s c h r enc ref provider q id y href hc i advice
      (hne _ List.mem_cons_self)
    refine Program.Triple.bind (hnext.post (fun _ _ hx => hx) fun e τ he => ?_) fun next => ?_
    · simp only [recordsFrom, he, bind, Except.bind]
    rintro σ ⟨hσ,records,hrecords,hevidence,hcomplete⟩
    have hrest := ih (fun y hy => hne y (List.mem_cons_of_mem _ hy)) (i + 1)
      (q + sentAt advisor provider h c i y) next
    refine (hrest σ hσ).mono (fun final τ hfinal => ?_) fun e τ he => ?_
    · obtain ⟨hτ,evidence,hfrom,hfe,hfc⟩ := hfinal
      refine ⟨hτ,(id,records) :: evidence,?_,?_,?_⟩
      · simp only [recordsFrom, hrecords, hfrom, bind, Except.bind, pure, Except.pure]
      · rw [hfe, hevidence, List.append_assoc, List.singleton_append]
      · rw [hfc, hcomplete, Bool.and_assoc]
        rfl
    · simp only [recordsFrom, hrecords, he, bind, Except.bind]

end Reviews

/-! ### The records of a candidate -/

section Records
variable {h : PreparationHandle} {r : PreparedRevision} {c' : Catalog} {enc : Encoding}
  {provider : Provider} {y : CandidateDiscovery} {candidateId : Uuid} {i n q : ℕ}
  {records : List EvidenceInput}

/-- Both checks of a candidate, the first of which is the `n`th check, can be recorded: both
documents have retained chunks, and both checks pass, their protected records from the `q`th on. -/
def Reviewable (s : Settings) (enc : Encoding) (advisor : Advisor) (provider : Provider)
    (h : PreparationHandle) (c : Catalog) (y : CandidateDiscovery) (candidateId : Uuid)
    (n q : ℕ) : Prop :=
  ∃ incoming candidate,
    classificationExcerpts h y.candidate.documentId y.preparedRevisionId c =
      .ok (incoming,candidate) ∧
    Passes s enc h candidateId q .classifier (buildPrompt incoming candidate)
      (Recordable advisor .classifier (buildPrompt incoming candidate) (provider n))
      (report advisor .classifier (buildPrompt incoming candidate) (provider n)) ∧
    Passes s enc h candidateId
      (q + sent advisor .classifier (buildPrompt incoming candidate) (provider n))
      .verifier (buildPrompt incoming candidate)
      (Recordable advisor .verifier (buildPrompt incoming candidate) (provider (n + 1)))
      (report advisor .verifier (buildPrompt incoming candidate) (provider (n + 1)))

/-- The `n`th check, of this kind and about this candidate, reports a valid finding. -/
def ReportsFinding (advisor : Advisor) (provider : Provider) (h : PreparationHandle)
    (c : Catalog) (y : CandidateDiscovery) (kind : EvidenceKind) (n : ℕ) : Prop :=
  ∃ incoming candidate reply f,
    classificationExcerpts h y.candidate.documentId y.preparedRevisionId c =
      .ok (incoming,candidate) ∧
    Classification.classifyCandidate advisor kind (buildPrompt incoming candidate)
      (provider n) = .ok reply ∧ reply.finding = some f

/-- The records of the candidate with index `i` tell what became of its two checks: a record of
each role, valid exactly for a reported finding, and an incomplete record unless both are
valid. -/
def Told (advisor : Advisor) (provider : Provider) (h : PreparationHandle) (c : Catalog)
    (y : CandidateDiscovery) (i : ℕ) (records : List EvidenceInput) : Prop :=
  ∃ a b, a ∈ records ∧ b ∈ records ∧ a.kind = .classifier ∧ b.kind = .verifier ∧
    (a.valid = true ↔ i < Candidates.maxClassifiedCandidates ∧
      ReportsFinding advisor provider h c y .classifier (2 * i)) ∧
    (b.valid = true ↔ i < Candidates.maxClassifiedCandidates ∧
      ReportsFinding advisor provider h c y .verifier (2 * i + 1)) ∧
    ((a.valid = true ∧ b.valid = true) ∨
      ∃ e, e ∈ records ∧ e.kind = .incomplete ∧ e.valid = false)

/-- The kinds that a candidate's advisory records have. -/
def advisoryKinds (kinds : List EvidenceKind) : Prop :=
  kinds.Nodup ∧ EvidenceKind.deterministic ∉ kinds ∧ EvidenceKind.classifier ∈ kinds ∧
    EvidenceKind.verifier ∈ kinds

theorem reviewed_kinds {a b e : EvidenceInput} (ha : a.kind = .classifier)
    (hb : b.kind = .verifier) (he : e.kind = .incomplete) {valid : Bool} :
    advisoryKinds ((if valid then [a,b] else [a,b,e]).map (·.kind)) := by
  cases valid <;> simp [advisoryKinds, ha, hb, he]

theorem incomplete_valid {summary : String} {code : FailureCode}
    (hs : Preparation.isBlank summary = false ∧ summary.length ≤ 2000) :
    evidenceValid c allowed (incompleteAdvisory summary code) = true := by
  simp [evidenceValid, incompleteAdvisory, failedAdvisory, hs.1, hs.2]

theorem budget_valid : (budgetRecords s).all (evidenceValid c allowed) = true := by
  have hsummary : Preparation.isBlank "The independent advisory check did not complete." = false ∧
      "The independent advisory check did not complete.".length ≤ 2000 := by decide +kernel
  have hbudget : Preparation.isBlank "Candidate exceeded the bounded advisory review budget." =
      false ∧ "Candidate exceeded the bounded advisory review budget.".length ≤ 2000 := by
    decide +kernel
  have hclassifier : evidenceValid c allowed (unavailableAdvisory s .classifier) = true :=
    failed_valid (Or.inl rfl) hsummary
  have hverifier : evidenceValid c allowed (unavailableAdvisory s .verifier) = true :=
    failed_valid (Or.inr rfl) hsummary
  simp only [budgetRecords, List.all_cons, List.all_nil, hclassifier, hverifier,
    incomplete_valid hbudget, Bool.and_self]

theorem budget_told (hi : Candidates.maxClassifiedCandidates ≤ i) :
    Told advisor provider h c y i (budgetRecords s) := by
  refine ⟨unavailableAdvisory s .classifier,unavailableAdvisory s .verifier,by
    simp [budgetRecords],by simp [budgetRecords],rfl,rfl,⟨fun hv => (nomatch hv),fun hv => ?_⟩,
    ⟨fun hv => (nomatch hv),fun hv => ?_⟩,Or.inr ⟨_,List.mem_cons_of_mem _
      (List.mem_cons_of_mem _ List.mem_cons_self),rfl,rfl⟩⟩
  · exact absurd hv.1 (not_lt.2 hi)
  · exact absurd hv.1 (not_lt.2 hi)

/-- The records of a reviewable candidate exist, are accepted and tell what happened. -/
theorem reviewable_recorded (htable : ChunkTable c) (hc : View h c r c) (hv : View h c r c')
    (hi : i < Candidates.maxClassifiedCandidates)
    (hr : Reviewable s enc advisor provider h c y candidateId (2 * i) q) :
    ∃ records, reviewRecords s enc advisor provider h c y candidateId (2 * i) q = .ok records ∧
      advisoryKinds (records.map (·.kind)) ∧
      records.all (evidenceValid c' [h.documentId,y.candidate.documentId]) = true ∧
      Told advisor provider h c y i records := by
  obtain ⟨incoming,candidate,hx,hfirst,hsecond⟩ := hr
  have hcited := cited_excerpts htable hc hv hx
  obtain ⟨a,ha,hakind,haccept,havalid⟩ := ((@classifyCandidate_reports advisor .classifier
    (buildPrompt incoming candidate) (provider (2 * i))).recorded (Or.inl rfl) hcited).1 hfirst
  obtain ⟨b,hb,hbkind,hbccept,hbvalid⟩ := ((@classifyCandidate_reports advisor .verifier
    (buildPrompt incoming candidate) (provider (2 * i + 1))).recorded (Or.inr rfl)
      hcited).1 hsecond
  have hincomplete : evidenceValid c' [h.documentId,y.candidate.documentId]
      (incompleteAdvisory "One or more independent advisory checks were incomplete."
        (failureCode "advisory_incomplete")) = true := incomplete_valid (by decide +kernel)
  have hkinds := @reviewed_kinds a b (incompleteAdvisory
    "One or more independent advisory checks were incomplete."
    (failureCode "advisory_incomplete")) hakind hbkind rfl (a.valid && b.valid)
  refine ⟨_,?_,hkinds,?_,a,b,?_,?_,hakind,hbkind,?_,?_,?_⟩
  · simp only [reviewRecords, hx, ha, hb, bind, Except.bind, pure, Except.pure]
  · split <;> simp [haccept, hbccept, hincomplete]
  · split <;> simp
  · split <;> simp
  · rw [havalid]
    constructor
    · rintro ⟨reply,f,hreply,hf⟩
      exact ⟨hi,incoming,candidate,reply,f,hx,hreply,hf⟩
    · rintro ⟨-,incoming',candidate',reply,f,hx',hreply,hf⟩
      obtain ⟨rfl,rfl⟩ := Prod.mk.inj (Except.ok.inj (hx.symm.trans hx'))
      exact ⟨reply,f,hreply,hf⟩
  · rw [hbvalid]
    constructor
    · rintro ⟨reply,f,hreply,hf⟩
      exact ⟨hi,incoming,candidate,reply,f,hx,hreply,hf⟩
    · rintro ⟨-,incoming',candidate',reply,f,hx',hreply,hf⟩
      obtain ⟨rfl,rfl⟩ := Prod.mk.inj (Except.ok.inj (hx.symm.trans hx'))
      exact ⟨reply,f,hreply,hf⟩
  · cases hboth : a.valid && b.valid with
    | true => exact Or.inl (by simpa using hboth)
    | false => exact Or.inr ⟨_,List.mem_cons_of_mem _ (List.mem_cons_of_mem _
        List.mem_cons_self),rfl,rfl⟩

/-- The records of another candidate, if there are any, are refused. -/
theorem unreviewable_refused (htable : ChunkTable c) (hc : View h c r c) (hv : View h c r c')
    (hr : ¬ Reviewable s enc advisor provider h c y candidateId n q)
    (hrecords : reviewRecords s enc advisor provider h c y candidateId n q = .ok records) :
    records.all (evidenceValid c' [h.documentId,y.candidate.documentId]) = false := by
  simp only [reviewRecords, bind_eq_ok, pure_eq_ok] at hrecords
  obtain ⟨⟨incoming,candidate⟩,hx,a,ha,b,hb,rfl⟩ := hrecords
  have hcited := cited_excerpts htable hc hv hx
  by_cases hfirst : Passes s enc h candidateId q .classifier (buildPrompt incoming candidate)
      (Recordable advisor .classifier (buildPrompt incoming candidate) (provider n))
      (report advisor .classifier (buildPrompt incoming candidate) (provider n))
  · have hsecond : ¬ Passes s enc h candidateId
        (q + sent advisor .classifier (buildPrompt incoming candidate) (provider n))
        .verifier (buildPrompt incoming candidate)
        (Recordable advisor .verifier (buildPrompt incoming candidate) (provider (n + 1)))
        (report advisor .verifier (buildPrompt incoming candidate) (provider (n + 1))) :=
      fun hsecond => hr ⟨incoming,candidate,hx,hfirst,hsecond⟩
    have hrefused := (((@classifyCandidate_reports advisor .verifier
      (buildPrompt incoming candidate) (provider (n + 1))).recorded (Or.inr rfl)
        hcited).2 hsecond b hb).2
    split <;> simp [hrefused]
  · have hrefused := (((@classifyCandidate_reports advisor .classifier
      (buildPrompt incoming candidate) (provider n)).recorded (Or.inl rfl)
        hcited).2 hfirst a ha).2
    split <;> simp [hrefused]

end Records

/-! ### The recorded list -/

section Lists
variable {h : PreparationHandle} {r : PreparedRevision} {c' : Catalog} {enc : Encoding}
  {provider : Provider} {y : CandidateDiscovery} {i n q : ℕ}
  {evidence : List (Uuid × List EvidenceInput)}
  {rows rows' : List PreparedCandidate} {discoveries : List CandidateDiscovery}
  {ids : List Uuid} {now : Time}

/-- The stored candidates are the discovered ones in their order, each with its deterministic
evidence alone. -/
structure Listed (h : PreparationHandle) (discoveries : List CandidateDiscovery)
    (ids : List Uuid) (rows : List PreparedCandidate) : Prop where
  ids_eq : rows.map (·.id) = ids
  nodup : ids.Nodup
  length : rows.length = discoveries.length
  row : ∀ (i : ℕ) (y : CandidateDiscovery), discoveries[i]? = some y →
    ∃ row : PreparedCandidate, rows[i]? = some row ∧
      row.matchedDocumentId = y.candidate.documentId ∧ row.evidence = [deterministicEvidence]
  other : ∀ y, y ∈ discoveries → y.candidate.documentId ≠ h.documentId

theorem candidateRows_listed {rank : ℕ} {xs : List CandidateInput}
    (h' : candidateRows now c h rank xs = .ok rows) :
    rows.map (·.id) = (List.range' rank xs.length).map (uuid4 now) ∧
    rows.length = xs.length ∧
    ∀ (i : ℕ) (x : CandidateInput), xs[i]? = some x →
      ∃ row : PreparedCandidate, rows[i]? = some row ∧
      row.matchedDocumentId = x.matchedDocumentId ∧ row.evidence = x.evidence := by
  induction xs generalizing rank rows with
  | nil =>
    cases h'
    exact ⟨rfl,rfl,fun i x hx => (nomatch hx)⟩
  | cons x xs ih =>
    simp only [candidateRows, bind_eq_ok, orRaise_eq_ok, pure_eq_ok] at h'
    obtain ⟨matched,hmatched,-,-,-,-,rest,hrest,rfl⟩ := h'
    obtain ⟨hids,hlen,hrow⟩ := ih hrest
    refine ⟨?_,?_,fun i x' hx' => ?_⟩
    · rw [List.length_cons, List.range'_succ, List.map_cons, List.map_cons, hids]
      rfl
    · rw [List.length_cons, List.length_cons, hlen]
    · cases i with
      | zero =>
        obtain rfl : x = x' := Option.some.inj hx'
        exact ⟨_,rfl,Catalog.id_of_document? hmatched,rfl⟩
      | succ i => exact hrow i x' hx'

theorem uuid4_injective : Function.Injective (uuid4 now) := by
  intro i j hij
  have hpair : ofLex (uuid4 now i) = ofLex (uuid4 now j) := congrArg ofLex hij
  exact congrArg Prod.snd hpair

theorem recorded_listed {d d' : Document} (h' : recordPreflightCandidates now h
    (discoveries.map deterministicCandidateInput) c d = .ok (ids,d')) :
    ∃ r, loadStage d' h = .ok r ∧ Listed h discoveries ids r.content.candidates := by
  simp only [recordPreflightCandidates, bind_eq_ok, require_eq_ok, exists_const, pure_eq_ok,
    Prod.mk.injEq] at h'
  obtain ⟨-,⟨-,hself⟩,r,hr,-,-,-,rows,hrows,rfl,rfl⟩ := h'
  obtain ⟨hids,hlen,hrow⟩ := candidateRows_listed hrows
  obtain ⟨hrevision,hstatus,hidentity⟩ := loadStage_ok.1 hr
  refine ⟨{r with content := {r.content with candidates := rows}},
    loadStage_ok.2 ⟨?_,hstatus,hidentity⟩,rfl,?_,?_,fun i y hy => ?_,fun y hy he => ?_⟩
  · rw [(Table.key_of_lookup hrevision).symm]
    exact Table.lookup_put_self _ _
  · rw [hids]
    exact List.Nodup.map uuid4_injective List.nodup_range'
  · exact hlen.trans (List.length_map _)
  · have hmapped : (discoveries.map deterministicCandidateInput)[i]? =
        some (deterministicCandidateInput y) := by rw [List.getElem?_map, hy]; rfl
    exact hrow i _ hmapped
  · refine hself (List.mem_map.2 ⟨deterministicCandidateInput y,List.mem_map_of_mem hy,he⟩)

/-- The recorder accepts the advisory records of a stored candidate. -/
def Accepts (c : Catalog) (h : PreparationHandle) (evidence : List (Uuid × List EvidenceInput))
    (x : PreparedCandidate) : Prop :=
  (x.evidence ≠ [] ∧ ∀ e, e ∈ x.evidence → e.kind = .deterministic) ∧
  advisoryKinds ((advisoryRecords evidence x.id).map (·.kind)) ∧
  (advisoryRecords evidence x.id).all (evidenceValid c [h.documentId,x.matchedDocumentId]) = true

def withAdvice (evidence : List (Uuid × List EvidenceInput)) (x : PreparedCandidate) :
    PreparedCandidate := {x with evidence := x.evidence ++ advisoryRecords evidence x.id}

theorem appendRecords_ok : appendRecords c h evidence rows = .ok rows' ↔
    (∀ x, x ∈ rows → Accepts c h evidence x) ∧ rows' = rows.map (withAdvice evidence) := by
  induction rows generalizing rows' with
  | nil =>
    constructor
    · intro hrun
      cases hrun
      exact ⟨fun x hx => absurd hx List.not_mem_nil,rfl⟩
    · rintro ⟨-,rfl⟩
      rfl
  | cons x rows ih =>
    simp only [appendRecords, requireEvidence, bind_eq_ok, require_eq_ok, exists_const,
      pure_eq_ok]
    constructor
    · rintro ⟨hdeterministic,hkinds,hvalid,rest,hrest,rfl⟩
      obtain ⟨haccept,rfl⟩ := ih.1 hrest
      exact ⟨List.forall_mem_cons.2 ⟨⟨hdeterministic,hkinds,hvalid⟩,haccept⟩,rfl⟩
    · rintro ⟨haccept,rfl⟩
      obtain ⟨⟨hdeterministic,hkinds,hvalid⟩,hrest⟩ := List.forall_mem_cons.1 haccept
      exact ⟨hdeterministic,hkinds,hvalid,_,ih.2 ⟨hrest,rfl⟩,rfl⟩

theorem advisoryRecords_of_mem {id : Uuid} {records : List EvidenceInput}
    (hnodup : (evidence.map (·.1)).Nodup) (hmem : (id,records) ∈ evidence) :
    advisoryRecords evidence id = records := by
  induction evidence with
  | nil => exact absurd hmem List.not_mem_nil
  | cons x evidence ih =>
    obtain ⟨hfresh,hrest⟩ := List.nodup_cons.1 hnodup
    rcases List.mem_cons.1 hmem with rfl | hmem
    · simp [advisoryRecords]
    · have hne : x.1 ≠ id := fun he => hfresh (List.mem_map.2 ⟨_,hmem,he.symm⟩)
      have hskip : advisoryRecords (x :: evidence) id = advisoryRecords evidence id := by
        simp [advisoryRecords, hne]
      rw [hskip]
      exact ih hrest hmem

/-- The number of protected records of the first `i` candidates, counted from index `n` on. -/
def sentBefore (advisor : Advisor) (provider : Provider) (h : PreparationHandle) (c : Catalog)
    (n : ℕ) (ys : List CandidateDiscovery) (i : ℕ) : ℕ :=
  (((ys.take i).zipIdx n).map fun x => sentAt advisor provider h c x.2 x.1).sum

theorem sentBefore_cons {ys : List CandidateDiscovery} :
    sentBefore advisor provider h c n (y :: ys) (i + 1) =
      sentAt advisor provider h c n y + sentBefore advisor provider h c (n + 1) ys i := by
  simp [sentBefore]

/-- The advice covers the candidates in their order. -/
theorem recordsFrom_ok {ys : List (CandidateDiscovery × Uuid)}
    (hrun : recordsFrom s enc advisor provider h c n q ys = .ok evidence) :
    evidence.map (·.1) = ys.map (·.2) ∧ ∀ i y, ys[i]? = some y → ∃ records,
      (y.2,records) ∈ evidence ∧
      recordsAt s enc advisor provider h c (n + i)
        (q + sentBefore advisor provider h c n (ys.map (·.1)) i) y.1 y.2 = .ok records := by
  induction ys generalizing n q evidence with
  | nil =>
    cases hrun
    exact ⟨rfl,fun i y hy => (nomatch hy)⟩
  | cons y ys ih =>
    obtain ⟨y,id⟩ := y
    simp only [recordsFrom, bind_eq_ok, pure_eq_ok] at hrun
    obtain ⟨records,hrecords,rest,hrest,rfl⟩ := hrun
    obtain ⟨hkeys,hall⟩ := ih hrest
    refine ⟨by rw [List.map_cons, List.map_cons, hkeys],fun i y' hy' => ?_⟩
    cases i with
    | zero =>
      obtain rfl : (y,id) = y' := Option.some.inj hy'
      exact ⟨records,List.mem_cons_self,hrecords⟩
    | succ i =>
      obtain ⟨records',hmem,hrecords'⟩ := hall i y' hy'
      refine ⟨records',List.mem_cons_of_mem _ hmem,?_⟩
      rw [Nat.add_right_comm, Nat.add_assoc q] at hrecords'
      rw [List.map_cons, sentBefore_cons]
      exact hrecords'

theorem recordsFrom_exists {ys : List (CandidateDiscovery × Uuid)}
    (hall : ∀ i y, ys[i]? = some y → ∃ records,
      recordsAt s enc advisor provider h c (n + i)
        (q + sentBefore advisor provider h c n (ys.map (·.1)) i) y.1 y.2 = .ok records) :
    ∃ evidence, recordsFrom s enc advisor provider h c n q ys = .ok evidence := by
  induction ys generalizing n q with
  | nil => exact ⟨[],rfl⟩
  | cons y ys ih =>
    obtain ⟨records,hrecords⟩ := hall 0 y rfl
    obtain ⟨rest,hrest⟩ := @ih (n + 1) (q + sentAt advisor provider h c n y.1) fun i y' hy' => by
      have hnext := hall (i + 1) y' hy'
      rw [List.map_cons, sentBefore_cons, ← Nat.add_assoc, Nat.add_right_comm,
        ← Nat.add_assoc] at hnext
      exact hnext
    have hhere : recordsAt s enc advisor provider h c n q y.1 y.2 = .ok records := hrecords
    refine ⟨(y.2,records) :: rest,?_⟩
    simp only [recordsFrom, hhere, hrest, bind, Except.bind, pure, Except.pure]

end Lists

/-! ### The review of a recorded list -/

section Final
variable {h : PreparationHandle} {r : PreparedRevision} {c' : Catalog} {enc : Encoding}
  {ref : OperationRef} {provider : Provider} {evidence : List (Uuid × List EvidenceInput)}
  {discoveries : List CandidateDiscovery} {ids : List Uuid} {now : Time} {q : ℕ}

def withCandidates (r : PreparedRevision) (artifacts : List RevisionArtifact)
    (rows : List PreparedCandidate) : PreparedRevision :=
  {r with content := {r.content with artifacts := artifacts, candidates := rows}}

/-- Storing the advice succeeds exactly when the records of each candidate are accepted. -/
theorem append_run (hv : View h c r c')
    (hkeys : evidence.map (·.1) = r.content.candidates.map (·.id)) :
    ((∀ x, x ∈ r.content.candidates → Accepts c' h evidence x) →
      ∃ c'' d' r', onDocument c' h.documentId revisionNotFound
          (Preparation.appendAdvisoryEvidence h evidence c') = .ok ((),c'') ∧
        c''.document? h.documentId = some d' ∧ loadStage d' h = .ok r' ∧
        r'.content.candidates = r.content.candidates.map (withAdvice evidence)) ∧
    ((¬ ∀ x, x ∈ r.content.candidates → Accepts c' h evidence x) →
      ∃ e, onDocument c' h.documentId revisionNotFound
          (Preparation.appendAdvisoryEvidence h evidence c') = .error e) := by
  obtain ⟨d,artifacts,hd,hstage⟩ := hv.document
  obtain ⟨hr,hstatus,hidentity⟩ := loadStage_ok.1 hstage
  have hcover : (∀ x, x ∈ r.content.candidates → x.id ∈ evidence.map (·.1)) ∧
      ∀ id, id ∈ evidence.map (·.1) → id ∈ r.content.candidates.map (·.id) := by
    rw [hkeys]
    exact ⟨fun x hx => List.mem_map_of_mem hx,fun id hid => hid⟩
  have hrun : onDocument c' h.documentId revisionNotFound
      (Preparation.appendAdvisoryEvidence h evidence c') =
      (appendRecords c' h evidence r.content.candidates).map fun rows =>
        ((),c'.put (d.putRevision (withCandidates r artifacts rows))) := by
    simp only [onDocument, hd, orRaise, Preparation.appendAdvisoryEvidence, hstage, require,
      withArtifacts, if_pos hcover, bind, Except.bind, pure, Except.pure]
    cases appendRecords c' h evidence r.content.candidates <;> rfl
  rw [hrun]
  refine ⟨fun haccept => ?_,fun hrefused => ?_⟩
  · rw [appendRecords_ok.2 ⟨haccept,rfl⟩]
    refine ⟨_,d.putRevision (withCandidates r artifacts
      (r.content.candidates.map (withAdvice evidence))),withCandidates r artifacts
      (r.content.candidates.map (withAdvice evidence)),rfl,?_,
      loadStage_ok.2 ⟨?_,hstatus,hidentity⟩,rfl⟩
    · have hkey : d.id = h.documentId := Catalog.id_of_document? hd
      rw [hkey.symm]
      exact Table.lookup_put_self _ _
    · have hkey : (withArtifacts r artifacts).id = h.revisionId := Table.key_of_lookup hr
      rw [hkey.symm]
      exact Table.lookup_put_self _ _
  · cases happend : appendRecords c' h evidence r.content.candidates with
    | error e => exact ⟨e,rfl⟩
    | ok rows => exact absurd (appendRecords_ok.1 happend).1 hrefused

/-- A revision with candidates is never sealed as clear. -/
theorem sealed_not_clear {d : Document} (hstage : loadStage d h = .ok r)
    (hne : r.content.candidates ≠ []) {completeness : PreflightCompleteness}
    {x : SealedPreparation × Document}
    (hseal : sealPreparedRevision enc now h completeness d = .ok x) :
    x.1.clearForPublication = false := by
  simp only [sealPreparedRevision, hstage, evidenceManifest, bind_eq_ok, require_eq_ok,
    exists_const, pure_eq_ok, Prod.exists] at hseal
  obtain ⟨r',hr',-,-,-,-,-,-,-,-,-,-,⟨hclear,-⟩,rfl⟩ := hseal
  cases hr'
  have hempty : r.content.candidates.isEmpty = false := List.isEmpty_eq_false_iff.2 hne
  rw [hempty] at hclear
  simpa using hclear

/-- What the review leaves behind: the stored candidates are the old ones in their order, each
with its evidence and the advisory records of its two checks, and the revision is not sealed
as clear. -/
structure Recorded (advisor : Advisor) (provider : Provider) (h : PreparationHandle)
    (c : Catalog) (r : PreparedRevision) (discoveries : List CandidateDiscovery)
    (d' : Document) (r' : PreparedRevision) : Prop where
  stage : loadStage d' h = .ok r'
  length : r'.content.candidates.length = r.content.candidates.length
  rows : ∀ i row, r.content.candidates[i]? = some row → ∃ y records,
    discoveries[i]? = some y ∧
    r'.content.candidates[i]? = some {row with evidence := row.evidence ++ records} ∧
    Told advisor provider h c y i records
  notClear : ∀ enc now completeness x,
    sealPreparedRevision enc now h completeness d' = .ok x → x.1.clearForPublication = false

/-- Every candidate within the budget of the review can be recorded, the protected records of
all of them from the `q`th on. -/
def AllReviewable (s : Settings) (enc : Encoding) (advisor : Advisor) (provider : Provider)
    (h : PreparationHandle) (c : Catalog) (q : ℕ) (discoveries : List CandidateDiscovery)
    (ids : List Uuid) : Prop :=
  ∀ i y id, discoveries[i]? = some y → ids[i]? = some id →
    i < Candidates.maxClassifiedCandidates →
    Reviewable s enc advisor provider h c y id (2 * i)
      (q + sentBefore advisor provider h c 0 discoveries i)

/-- Whether the records of a listed candidate are accepted. -/
theorem listed_accepts (htable : ChunkTable c) (hc : View h c r c) (hv : View h c r c')
    (hlisted : Listed h discoveries ids r.content.candidates)
    (hadvice : recordsFrom s enc advisor provider h c 0 q (discoveries.zip ids) = .ok evidence)
    {i : ℕ} {y : CandidateDiscovery} (hy : discoveries[i]? = some y) :
    ∃ row, r.content.candidates[i]? = some row ∧ ids[i]? = some row.id ∧
      (Accepts c' h evidence row ↔ (i < Candidates.maxClassifiedCandidates →
        Reviewable s enc advisor provider h c y row.id (2 * i)
          (q + sentBefore advisor provider h c 0 discoveries i))) ∧
      (Accepts c' h evidence row →
        Told advisor provider h c y i (advisoryRecords evidence row.id)) := by
  obtain ⟨row,hrow,hmatched,hdeterministic⟩ := hlisted.row i y hy
  obtain ⟨hkeys,hrecords⟩ := recordsFrom_ok hadvice
  have hid : ids[i]? = some row.id := by
    rw [← hlisted.ids_eq, List.getElem?_map, hrow]
    rfl
  have hzip : (discoveries.zip ids)[i]? = some (y,row.id) :=
    List.getElem?_zip_eq_some.2 ⟨hy,hid⟩
  have hlength : discoveries.length = ids.length := by
    rw [← hlisted.ids_eq, List.length_map, hlisted.length]
  have hnodup : (evidence.map (·.1)).Nodup := by
    rw [hkeys, List.map_snd_zip (le_of_eq hlength.symm)]
    exact hlisted.nodup
  obtain ⟨records,hmem,hat⟩ := hrecords i (y,row.id) hzip
  have hfound : advisoryRecords evidence row.id = records := advisoryRecords_of_mem hnodup hmem
  have hfirst : row.evidence ≠ [] ∧ ∀ e, e ∈ row.evidence → e.kind = .deterministic := by
    rw [hdeterministic]
    refine ⟨List.cons_ne_nil _ _,fun e he => ?_⟩
    rw [List.mem_singleton.1 he]
    rfl
  refine ⟨row,hrow,hid,?_⟩
  simp only [Accepts, hfound, hmatched]
  rw [Nat.zero_add, List.map_fst_zip (le_of_eq hlength)] at hat
  unfold recordsAt at hat
  split at hat
  · rename_i hbudget
    cases hat
    refine ⟨⟨fun _ hi => absurd hi (not_lt.2 hbudget),fun _ => ⟨hfirst,?_,budget_valid⟩⟩,
      fun _ => budget_told hbudget⟩
    exact @reviewed_kinds (unavailableAdvisory s .classifier) (unavailableAdvisory s .verifier)
      (incompleteAdvisory "Candidate exceeded the bounded advisory review budget."
        (failureCode "advisory_candidate_budget")) rfl rfl rfl false
  · rename_i hbudget
    have hi := not_le.1 hbudget
    by_cases hreviewable : Reviewable s enc advisor provider h c y row.id (2 * i)
        (q + sentBefore advisor provider h c 0 discoveries i)
    · obtain ⟨records',hrecords',hkinds,hvalid,htold⟩ :=
        reviewable_recorded htable hc hv hi hreviewable
      obtain rfl := Except.ok.inj (hat.symm.trans hrecords')
      exact ⟨⟨fun _ _ => hreviewable,fun _ => ⟨hfirst,hkinds,hvalid⟩⟩,fun _ => htold⟩
    · have hrefused := unreviewable_refused htable hc hv hreviewable hat
      refine ⟨⟨fun haccept => ?_,fun hall => absurd (hall hi) hreviewable⟩,fun haccept => ?_⟩
      · exact Bool.noConfusion (haccept.2.2.symm.trans hrefused)
      · exact Bool.noConfusion (haccept.2.2.symm.trans hrefused)

theorem listed_length (hlisted : Listed h discoveries ids r.content.candidates) :
    discoveries.length = ids.length := by
  rw [← hlisted.ids_eq, List.length_map, hlisted.length]

/-- The records of every listed candidate are accepted when all of them can be recorded. -/
theorem listed_accepts_iff (htable : ChunkTable c) (hc : View h c r c) (hv : View h c r c')
    (hlisted : Listed h discoveries ids r.content.candidates)
    (hadvice : recordsFrom s enc advisor provider h c 0 q (discoveries.zip ids) = .ok evidence) :
    (∀ x, x ∈ r.content.candidates → Accepts c' h evidence x) ↔
      AllReviewable s enc advisor provider h c q discoveries ids := by
  constructor
  · intro hrows i y id hy hid
    obtain ⟨row,hrow,hrowid,hiff,-⟩ := listed_accepts htable hc hv hlisted hadvice hy
    obtain rfl := Option.some.inj (hrowid.symm.trans hid)
    exact hiff.1 (hrows row (List.mem_of_getElem? hrow))
  · intro hall x hx
    obtain ⟨i,hi⟩ := List.mem_iff_getElem?.1 hx
    obtain ⟨hlt,-⟩ := List.getElem?_eq_some_iff.1 hi
    rw [hlisted.length] at hlt
    obtain ⟨row,hrow,hid,hiff,-⟩ :=
      listed_accepts htable hc hv hlisted hadvice (List.getElem?_eq_getElem hlt)
    obtain rfl := Option.some.inj (hi.symm.trans hrow)
    exact hiff.2 (hall i _ _ (List.getElem?_eq_getElem hlt) hid)

/-- The checks of a list that can be recorded give records. -/
theorem listed_records (htable : ChunkTable c) (hc : View h c r c)
    (hlisted : Listed h discoveries ids r.content.candidates)
    (hall : AllReviewable s enc advisor provider h c q discoveries ids) :
    ∃ evidence,
      recordsFrom s enc advisor provider h c 0 q (discoveries.zip ids) = .ok evidence := by
  refine @recordsFrom_exists advisor s c h enc provider 0 q (discoveries.zip ids) fun i y hy => ?_
  obtain ⟨hy,hid⟩ := List.getElem?_zip_eq_some.1 hy
  rw [Nat.zero_add, List.map_fst_zip (le_of_eq (listed_length hlisted))]
  unfold recordsAt
  split
  · exact ⟨_,rfl⟩
  · rename_i hbudget
    obtain ⟨records,hrecords,-⟩ := reviewable_recorded htable hc hc (not_le.1 hbudget)
      (hall i y.1 y.2 hy hid (not_le.1 hbudget))
    exact ⟨records,hrecords⟩

/-- What appending the records of a recorded list leaves, when it does not raise. -/
theorem append_recorded (htable : ChunkTable c) (hc : View h c r c) (hv : View h c r c')
    (hlisted : Listed h discoveries ids r.content.candidates)
    (hadvice : recordsFrom s enc advisor provider h c 0 q (discoveries.zip ids) = .ok evidence)
    (hne : discoveries ≠ []) :
    (AllReviewable s enc advisor provider h c q discoveries ids → ∃ c'' d' r',
      onDocument c' h.documentId revisionNotFound
        (Preparation.appendAdvisoryEvidence h evidence c') = .ok ((),c'') ∧
      c''.document? h.documentId = some d' ∧ Recorded advisor provider h c r discoveries d' r') ∧
    (¬ AllReviewable s enc advisor provider h c q discoveries ids →
      ∃ e, onDocument c' h.documentId revisionNotFound
        (Preparation.appendAdvisoryEvidence h evidence c') = .error e) := by
  have hrowkeys : evidence.map (·.1) = r.content.candidates.map (·.id) := by
    rw [(recordsFrom_ok hadvice).1, List.map_snd_zip (le_of_eq (listed_length hlisted).symm),
      hlisted.ids_eq]
  obtain ⟨hok,herror⟩ := append_run hv hrowkeys
  rw [← listed_accepts_iff htable hc hv hlisted hadvice]
  refine ⟨fun hrows => ?_,herror⟩
  obtain ⟨c'',d',r',hrun,hd',hstage,hcandidates⟩ := hok hrows
  refine ⟨c'',d',r',hrun,hd',hstage,?_,fun i row hrow => ?_,fun enc now x y hy => ?_⟩
  · rw [hcandidates, List.length_map]
  · obtain ⟨hlt,-⟩ := List.getElem?_eq_some_iff.1 hrow
    rw [hlisted.length] at hlt
    obtain ⟨row',hrow',-,-,htold⟩ :=
      listed_accepts htable hc hv hlisted hadvice (List.getElem?_eq_getElem hlt)
    obtain rfl := Option.some.inj (hrow.symm.trans hrow')
    refine ⟨_,_,List.getElem?_eq_getElem hlt,?_,htold (hrows row (List.mem_of_getElem? hrow))⟩
    rw [hcandidates, List.getElem?_map, hrow]
    rfl
  · refine sealed_not_clear hstage (fun hnil => hne ?_) hy
    have hzero : r.content.candidates.length = 0 := by
      rw [← List.length_map (f := withAdvice evidence), ← hcandidates, hnil]
      rfl
    exact List.length_eq_zero_iff.1 (hlisted.length.symm.trans hzero)

/-- The review of a recorded list, from before its first check. -/
theorem triple_advise (htable : ChunkTable c) (hc : View h c r c)
    (hlisted : Listed h discoveries ids r.content.candidates)
    (href : ref.documentId = h.documentId) (hconfigured : s.advisoryConfigured = true)
    (hne : discoveries ≠ []) :
    Program.Triple (handler s enc ref advisor provider) (Made h c r 0 q)
      (adviseCandidates s h discoveries ids)
      (fun _ σ => AllReviewable s enc advisor provider h c q discoveries ids ∧
        ∃ d' r', σ.shared.catalog.document? h.documentId = some d' ∧
          Recorded advisor provider h c r discoveries d' r')
      (fun _ _ => ¬ AllReviewable s enc advisor provider h c q discoveries ids) := by
  have hempty : discoveries.isEmpty = false := List.isEmpty_eq_false_iff.2 hne
  have hother : ∀ x, x ∈ discoveries.zip ids → x.1.candidate.documentId ≠ h.documentId :=
    fun x hx => hlisted.other x.1 (List.of_mem_zip hx).1
  have hadvise := @triple_advice advisor s c h r enc ref provider href hc
    (discoveries.zip ids) hother 0 q ⟨[],true,[]⟩
  have hstart : checksBefore 0 = 0 := rfl
  rw [hstart] at hadvise
  unfold adviseCandidates Worker.classifyCandidates
  simp only [Program.bind_eq, listed_length hlisted, decide_true, Program.require, if_true, hempty,
    Bool.false_eq_true, if_false, hconfigured, Program.bind]
  refine Program.Triple.bind (hadvise.post (fun _ _ hx => hx) fun e σ he hall => ?_)
    fun advice => ?_
  · obtain ⟨evidence,hevidence⟩ := listed_records htable hc hlisted hall
    cases hevidence.symm.trans he
  · rintro σ ⟨hσ,evidence,hevidence,hsame,-⟩
    rw [List.nil_append] at hsame
    obtain ⟨hok,herror⟩ := append_recorded htable hc hσ hlisted hevidence hne
    have hstage : Program.Triple (handler s enc ref advisor provider) (fun τ => τ = σ)
        (stage (.appendAdvisoryEvidence h advice.evidence)
          (preparationError "record_advisory_failed" "advisory evidence could not be recorded"))
        (fun (_ : Unit) (τ : Review) => AllReviewable s enc advisor provider h c q discoveries ids ∧
          ∃ d' r', τ.shared.catalog.document? h.documentId = some d' ∧
            Recorded advisor provider h c r discoveries d' r')
        (fun _ _ => ¬ AllReviewable s enc advisor provider h c q discoveries ids) := by
      refine Program.Triple.tryCatch (Program.Triple.request ?_) fun e =>
        Program.Triple.fail fun τ hτ => hτ
      rintro τ rfl
      simp only [handler, exec, input, CatalogRequest.run, hsame]
      by_cases hall : AllReviewable s enc advisor provider h c q discoveries ids
      · obtain ⟨c'',d',r',hrun,hd',hrecorded⟩ := hok hall
        rw [hrun]
        exact ⟨hall,d',r',hd',hrecorded⟩
      · obtain ⟨e,hrun⟩ := herror hall
        rw [hrun]
        exact hall
    exact Program.Triple.bind hstage (fun _ => Program.Triple.pure fun τ hτ => hτ) σ rfl

theorem View.refl {d : Document} (hd : c.document? h.documentId = some d)
    (hstage : loadStage d h = .ok r) : View h c r c :=
  ⟨⟨d,r.content.artifacts,hd,hstage⟩,fun _ _ => rfl,fun _ _ => Iff.rfl⟩

/-- Recording the candidates changes no chunk. -/
theorem chunkTable_recorded {d d' : Document} (htable : ChunkTable c)
    (hd : c.document? h.documentId = some d) (hrecord : recordPreflightCandidates now h
      (discoveries.map deterministicCandidateInput) c d = .ok (ids,d')) :
    ChunkTable (c.put d') ∧ d'.id = h.documentId := by
  simp only [recordPreflightCandidates, bind_eq_ok, require_eq_ok, exists_const, pure_eq_ok,
    Prod.mk.injEq] at hrecord
  obtain ⟨-,-,r,hr,-,-,-,rows,-,-,rfl⟩ := hrecord
  have hmem := Catalog.mem_of_document? hd
  have hid : d.id = h.documentId := Catalog.id_of_document? hd
  have hrevision := Table.mem_of_lookup (loadStage_ok.1 hr).1
  have hretains := retains_put (c := c)
    (e := d.putRevision {r with content := {r.content with candidates := rows}}) hmem rfl
    (hasChunk_putRevision hrevision rfl rfl)
  refine ⟨⟨fun i j k hi hj => htable.unique i j k ((hretains i k).1 hi) ((hretains j k).1 hj),
    fun x r' k hx hr' hk => ?_⟩,hid⟩
  rcases Table.mem_put.1 hx with rfl | ⟨hx,-⟩
  · rcases Table.mem_put.1 hr' with rfl | ⟨hr',-⟩
    · exact htable.pages d r k hmem hrevision hk
    · exact htable.pages d r' k hmem hr' hk
  · exact htable.pages x r' k hx hr' hk

/-- The review of a recorded list ends with the records exactly when every candidate within the
budget can be recorded. -/
theorem adviseCandidates_ends {c₀ : Catalog} {d₀ d : Document}
    (hd₀ : c₀.document? h.documentId = some d₀) (htable : ChunkTable c₀)
    (hrecord : recordPreflightCandidates now h (discoveries.map deterministicCandidateInput)
      c₀ d₀ = .ok (ids,d))
    (hne : discoveries ≠ []) (hconfigured : s.advisoryConfigured = true)
    (href : ref.documentId = h.documentId) {σ : Review}
    (hcatalog : σ.shared.catalog = c₀.put d) (hchecks : σ.checks = 0) :
    ∃ r, loadStage d h = .ok r ∧ Listed h discoveries ids r.content.candidates ∧
      Program.EndsIn (fun _ (τ : Review) =>
        AllReviewable s enc advisor provider h (c₀.put d)
          (nextSequence "advisory_exchange" r.content.artifacts) discoveries ids ∧
        ∃ d' r', τ.shared.catalog.document? h.documentId = some d' ∧
          Recorded advisor provider h (c₀.put d) r discoveries d' r')
      (fun _ _ => ¬ AllReviewable s enc advisor provider h (c₀.put d)
        (nextSequence "advisory_exchange" r.content.artifacts) discoveries ids)
      ((adviseCandidates s h discoveries ids).run (handler s enc ref advisor provider) σ) := by
  obtain ⟨htable',hid⟩ := chunkTable_recorded htable hd₀ hrecord
  obtain ⟨r,hstage,hlisted⟩ := recorded_listed hrecord
  have hd : (c₀.put d).document? h.documentId = some d := by
    rw [← hid]
    exact Table.lookup_put_self _ _
  have hview := View.refl hd hstage
  have hmade : Made h (c₀.put d) r 0 (nextSequence "advisory_exchange" r.content.artifacts) σ := by
    refine ⟨hcatalog ▸ hview,hchecks,?_⟩
    rw [hcatalog]
    exact artifactSequence_staged hd hstage
  exact ⟨r,hstage,hlisted,triple_advise htable' hview hlisted href hconfigured hne σ hmade⟩

end Final

/-! ### Two books -/

section Books
open Lifecycle Unicode

def bookChunk (documentId revisionId : Uuid) (markdown : String) : PreparedChunk where
  id := chunkIdentity documentId revisionId 0 ⟨markdown⟩
  chunkIndex := 0
  pageStart := 1
  pageEnd := 1
  headingPath := []
  tokenCount := 1
  textSha256 := ⟨markdown⟩
  markdown := markdown
  vector := ⟨[],⟨[],[]⟩,⟨""⟩,⟨""⟩⟩

def bookRevision (now : Time) (documentId : Uuid) (markdown : String) : PreparedRevision :=
  {newRevision now 1 booksIdentity with
    vectorComplete := true,
    content := {RevisionContent.empty with
      chunks := [bookChunk documentId (uuid4 now 0) markdown]}}

def book (now : Time) (sha256 : Digest) (revision : PreparedRevision) : Document :=
  {Api.admittedDocument now ⟨books,sampleFilename,"a.pdf",1,sha256,sampleScanner,
      sampleOperator⟩ with
    preparedRevisions := Table.put ∅ revision}

def incomingBook : Document := book 1 ⟨"new"⟩ (bookRevision 2 (uuid4 1 0) "new")

def retainedBook : Document :=
  {book 3 ⟨"old"⟩ (bookRevision 4 (uuid4 3 0) "old") with state := .ready}

def bookshelf : Catalog := (Catalog.empty.put incomingBook).put retainedBook

def bookHandle : PreparationHandle :=
  ⟨uuid4 2 0,uuid4 1 0,1,books,⟨booksIdentity,text "tokenizer" tokenizer_text⟩⟩

def bookDiscovery : CandidateDiscovery :=
  ⟨⟨uuid4 3 0,.active,[Candidates.ruleFilenameFamily],0,0,0,0,0,[]⟩,some (uuid4 4 0)⟩

def bookRecord : Outcome (List Uuid × Document) :=
  recordPreflightCandidates 5 bookHandle [deterministicCandidateInput bookDiscovery] bookshelf
    incomingBook

/-- A finding whose summary is one space, as the model writes it. -/
def blankFinding : String :=
  "\x7b\"label\":\"uncertain\",\"summary\":\" \",\"evidence\":[]\x7d"

/-- A finding that quotes the incoming book. -/
def citingFinding : String :=
  "\x7b\"label\":\"unrelated\",\"summary\":\"Two books.\",\"evidence\":" ++
  "[\x7b\"chunk_reference\":\"00000000-0000-5000-8000-000000000001\"," ++
  "\"quote\":\"new\"\x7d]\x7d"

def bookAdvisor : Advisor where
  config := ⟨"classifier","verifier",100,100,2,by decide⟩
  loads := fun raw => if raw = blankFinding then
    .value (.dict [(str "label",.str (str "uncertain")),(str "summary",.str (str " ")),
      (str "evidence",.list [])])
    else if raw = citingFinding then
    .value (.dict [(str "label",.str (str "unrelated")),
      (str "summary",.str (str "Two books.")),
      (str "evidence",.list [.dict [
        (str "chunk_reference",.str (str "00000000-0000-5000-8000-000000000001")),
        (str "quote",.str (str "new"))]])])
    else .valueError
  reference := fun k => if k = (bookChunk (uuid4 1 0) (uuid4 2 0) "new").id then
    "00000000-0000-5000-8000-000000000001" else "00000000-0000-5000-8000-000000000002"

/-- Every check is answered with this text. -/
def answering (text : String) : Provider := fun _ k =>
  .response (.int 200) (.value (.dict (if k = 0 then [(str "count",.int 10)] else
    [(str "choices",.list [.dict [(str "finish_reason",.str (str "stop")),
      (str "message",.dict [(str "content",.str (str text))])]]),
      (str "usage",.dict [(str "prompt_tokens",.int 10),
        (str "completion_tokens",.int 10)])])))

theorem chunkTable_books : ChunkTable bookshelf := by
  have hunique : ∀ d, d ∈ bookshelf.documents.rows → ∀ e, e ∈ bookshelf.documents.rows →
      ∀ k, k ∈ d.preparedRevisions.rows.flatMap (·.content.chunks) →
      ∀ k', k' ∈ e.preparedRevisions.rows.flatMap (·.content.chunks) → k.id = k'.id →
      d.id = e.id := by decide +kernel
  have hpages : ∀ d, d ∈ bookshelf.documents.rows →
      ∀ k, k ∈ d.preparedRevisions.rows.flatMap (·.content.chunks) →
      1 ≤ k.pageStart ∧ k.pageStart ≤ k.pageEnd := by decide +kernel
  have hchunk : ∀ {d : Document} {id : ChunkId}, hasChunk d id = true → ∃ k,
      k ∈ d.preparedRevisions.rows.flatMap (·.content.chunks) ∧ k.id = id := by
    intro d id hk
    obtain ⟨r,hr,hk⟩ := List.any_eq_true.1 hk
    obtain ⟨k,hk,hid⟩ := List.any_eq_true.1 hk
    exact ⟨k,List.mem_flatMap.2 ⟨r,hr,hk⟩,by simpa using hid⟩
  refine ⟨?_,fun d r k hd hr hk => hpages d hd k (List.mem_flatMap.2 ⟨r,hr,hk⟩)⟩
  rintro i j id ⟨d,hd,rfl,hk⟩ ⟨e,he,rfl,hk'⟩
  obtain ⟨k,hk,hid⟩ := hchunk hk
  obtain ⟨k',hk',hid'⟩ := hchunk hk'
  exact hunique d hd e he k hk k' hk' (hid.trans hid'.symm)

/-- What the review of the recorded books reads. -/
def bookExcerpts : Outcome (List SourceExcerpt × List SourceExcerpt) := do
  let (_,d) ← bookRecord
  classificationExcerpts bookHandle bookDiscovery.candidate.documentId
    bookDiscovery.preparedRevisionId (bookshelf.put d)

theorem exists_of_isOk {α : Type} {x : Outcome α} (h : x.toBool = true) : ∃ a, x = .ok a := by
  cases x with
  | error e => cases h
  | ok a => exact ⟨a,rfl⟩

theorem bookRecord_excerpts : ∃ ids d incoming candidate, bookRecord = .ok (ids,d) ∧
    classificationExcerpts bookHandle bookDiscovery.candidate.documentId
      bookDiscovery.preparedRevisionId (bookshelf.put d) = .ok (incoming,candidate) ∧
    bookExcerpts = .ok (incoming,candidate) := by
  obtain ⟨⟨incoming,candidate⟩,hx⟩ := exists_of_isOk (x := bookExcerpts) (by decide +kernel)
  have hx' := hx
  simp only [bookExcerpts, bind_eq_ok] at hx'
  obtain ⟨⟨ids,d⟩,hrecord,hexcerpts⟩ := hx'
  exact ⟨ids,d,incoming,candidate,hrecord,hexcerpts,hx⟩

def bookReview (c : Catalog) : Review :=
  ⟨⟨6,c,.empty,.empty,⟨uuid4 0 0,[],[]⟩⟩,0⟩

/-- A check of the books reports a finding, plain or not. -/
def answersPlain (kind : EvidenceKind) (text : String) (b : Bool) : Bool :=
  bookExcerpts.toOption.any fun x => ((Classification.classifyCandidate bookAdvisor kind
    (buildPrompt x.1 x.2) (answering text 0)).toOption.bind (·.finding)).any fun f => plain f == b

theorem bookCheck {incoming candidate : List SourceExcerpt} {kind : EvidenceKind} {text : String}
    {b : Bool} (hx : bookExcerpts = .ok (incoming,candidate))
    (hanswers : answersPlain kind text b = true) : ∃ reply f,
      Classification.classifyCandidate bookAdvisor kind (buildPrompt incoming candidate)
        (answering text 0) = .ok reply ∧ reply.finding = some f ∧ plain f = b := by
  unfold answersPlain at hanswers
  rw [hx] at hanswers
  cases hcheck : Classification.classifyCandidate bookAdvisor kind
      (buildPrompt incoming candidate) (answering text 0) with
  | error e => simp [Except.toOption, hcheck] at hanswers
  | ok reply =>
    cases hfinding : reply.finding with
    | none => simp [Except.toOption, hcheck, hfinding] at hanswers
    | some f =>
      exact ⟨reply,f,rfl,hfinding,by
        simpa [Except.toOption, hcheck, hfinding] using hanswers⟩

end Books

end Advice
end PdfBridge
