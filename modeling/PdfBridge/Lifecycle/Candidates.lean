import PdfBridge.Lifecycle.Advisory
import PdfBridge.Services.CandidateRules

/-! From discovery to recording: which qualified candidates `record_preflight_candidates` accepts,
for every catalog and every list of hits. -/
namespace PdfBridge
namespace Advice
open Worker Preparation Candidates

variable {dense bm25 : List (List ChunkHit)} {filenames identical : List Uuid} {id : Uuid}
  {sources : Sources} {found : List DeterministicCandidate} {x : DeterministicCandidate}

/-! ### What the catalog says of a candidate -/

section Recording
variable {h : PreparationHandle} {c : Catalog} {enc : Encoding} {markdown : Digest}
  {seen : List SeenDocument} {context : CandidateContext} {now : Time} {d d' : Document}
  {r : PreparedRevision} {ids : List Uuid} {xs : List CandidateInput}
  {rows : List PreparedCandidate}

/-- The source fits the state of the document. -/
def sourceFits (m : Document) : HitSource → Prop
  | .active => m.state = .ready
  | .screening => allowedScreeningState m.state = true

theorem mem_candidateDocuments {m : Document} (hm : m ∈ candidateDocuments h c) :
    c.document? m.id = some m ∧ m.intake.collectionKey = h.collectionKey ∧
      m.id ≠ h.documentId ∧ allowedCandidateState m.state = true := by
  obtain ⟨hm,hcandidate⟩ := List.mem_filter.1 hm
  simp only [Bool.and_eq_true, decide_eq_true_eq] at hcandidate
  obtain ⟨⟨⟨hkey,hne⟩,hstate⟩,-⟩ := hcandidate
  exact ⟨Table.lookup_of_mem hm,hkey,hne,hstate⟩

/-- Every source of a context is that of a candidate document, and fits its state. -/
theorem source_document (hcontext : catalogCandidateContext enc h markdown seen c = .ok context)
    {source : HitSource} (hsource : context.sources.find id = some source) :
    ∃ m, m ∈ candidateDocuments h c ∧ m.id = id ∧ sourceFits m source := by
  simp only [catalogCandidateContext, bind_eq_ok, orRaise_eq_ok, require_eq_ok, exists_const,
    pure_eq_ok] at hcontext
  obtain ⟨incoming,-,hseen,rfl⟩ := hcontext
  obtain ⟨⟨id',source'⟩,hfind,hsame⟩ := Option.map_eq_some_iff.1 hsource
  have hid : id' = id := by simpa using List.find?_some hfind
  obtain rfl : source' = source := hsame
  rcases List.mem_append.1 (List.mem_of_find?_eq_some hfind) with hmem | hmem
  · obtain ⟨y,hy,hpair⟩ := List.mem_map.1 hmem
    obtain ⟨rfl,rfl⟩ := Prod.mk.inj hpair
    obtain ⟨m,hm,hmatches⟩ := List.any_eq_true.1 (List.all_eq_true.1 hseen y hy)
    simp only [Bool.and_eq_true, decide_eq_true_eq] at hmatches
    obtain ⟨⟨hmid,-⟩,hstate⟩ := hmatches
    refine ⟨m,hm,hmid.trans hid,?_⟩
    cases hsource : y.source with
    | active => simpa [hsource, sourceFits] using hstate
    | screening => simpa [hsource, sourceFits] using hstate
  · obtain ⟨m,hm,hpair⟩ := List.mem_map.1 hmem
    obtain ⟨rfl,rfl⟩ := Prod.mk.inj hpair
    refine ⟨m,hm,hid,?_⟩
    obtain ⟨-,-,-,hstate⟩ := mem_candidateDocuments hm
    by_cases hready : m.state = .ready
    · simp only [hready, if_true, sourceFits]
    · simpa only [hready, if_false, sourceFits, allowedCandidateState, decide_false,
        Bool.false_or] using hstate

/-- The rows exist exactly when every input agrees with the catalog. -/
theorem candidateRows_exists {rank : ℕ} :
    (∃ rows, candidateRows now c h rank xs = .ok rows) ↔ ∀ x, x ∈ xs → ∃ m,
      c.document? x.matchedDocumentId = some m ∧ validateCandidate h m x = .ok () ∧
      requireEvidence c [h.documentId,m.id] x.evidence = .ok () := by
  induction xs generalizing rank with
  | nil => exact ⟨fun _ x hx => absurd hx List.not_mem_nil,fun _ => ⟨[],rfl⟩⟩
  | cons x xs ih =>
    rw [List.forall_mem_cons, ← @ih (rank + 1)]
    simp only [candidateRows, bind_eq_ok, orRaise_eq_ok, pure_eq_ok]
    constructor
    · rintro ⟨_,m,hm,_,hvalid,_,hevidence,rows,hrows,rfl⟩
      exact ⟨⟨m,hm,hvalid,hevidence⟩,rows,hrows⟩
    · rintro ⟨⟨m,hm,hvalid,hevidence⟩,rows,hrows⟩
      exact ⟨_,m,hm,(),hvalid,(),hevidence,rows,hrows,rfl⟩

/-- The rows carry the data of their inputs. -/
theorem candidateRows_rows {rank : ℕ} (hrun : candidateRows now c h rank xs = .ok rows) :
    List.Forall₂ (fun (x : CandidateInput) (row : PreparedCandidate) =>
      row.matchedDocumentId = x.matchedDocumentId ∧ row.source = x.source ∧
      row.reasons = x.reasons ∧ row.maxCosine = x.maxCosine ∧ row.bm25Score = x.bm25Score ∧
      row.fusedScore = x.fusedScore ∧ row.matchedChunkPairs = x.matchedChunkPairs) xs rows := by
  induction xs generalizing rank rows with
  | nil =>
    cases hrun
    exact List.Forall₂.nil
  | cons x xs ih =>
    simp only [candidateRows, bind_eq_ok, orRaise_eq_ok, pure_eq_ok] at hrun
    obtain ⟨m,hm,-,-,-,-,rest,hrest,rfl⟩ := hrun
    refine List.Forall₂.cons ⟨?_,rfl,rfl,rfl,rfl,rfl,rfl⟩ (ih hrest)
    exact Catalog.id_of_document? hm

theorem deterministic_valid {allowed : List Uuid} :
    requireEvidence c allowed [deterministicEvidence] = .ok () := by
  have hsummary : Preparation.isBlank
      "Deterministic preflight rules selected this candidate." = false := by decide +kernel
  have hlength : "Deterministic preflight rules selected this candidate.".length ≤ 2000 ∧
      "candidate".length ≤ 64 := by decide +kernel
  rw [requireEvidence, require_eq_ok]
  simp [evidenceValid, deterministicEvidence, hsummary, hlength.1, hlength.2]

/-- A document whose source fits passes the correlation of recording exactly when its scores are
in range. -/
theorem validateCandidate_ok {m : Document} {x : CandidateInput} (hm : m ∈ candidateDocuments h c)
    (hsource : match x.source with
      | .active => sourceFits m .active
      | .screening => sourceFits m .screening)
    (hreasons : x.reasons ≠ [] ∧ x.reasons.length ≤ 50 ∧ x.reasons.Nodup)
    (hevidence : x.evidence = [deterministicEvidence]) :
    validateCandidate h m x = .ok () ↔
      -1 ≤ x.maxCosine ∧ x.maxCosine ≤ 1 ∧ 0 ≤ x.bm25Score ∧ 0 ≤ x.fusedScore := by
  obtain ⟨-,hkey,-,-⟩ := mem_candidateDocuments hm
  have hkinds : x.evidence.map (·.kind) = [.deterministic] := by
    rw [hevidence]
    rfl
  unfold validateCandidate
  cases hs : x.source with
  | active =>
    rw [hs] at hsource
    have hready : m.state = .ready := hsource
    simp only [bind_eq_ok, require_eq_ok, hkey, hready, hreasons, hkinds, exists_const,
      true_and, and_true, ne_eq, not_false_eq_true]
  | screening =>
    rw [hs] at hsource
    have hretained : m.state ∉ [DocumentState.rejected,.cancelled,.deleted] := by
      intro hmem
      simp only [List.mem_cons, List.not_mem_nil, or_false] at hmem
      rcases hmem with hmem | hmem | hmem <;>
        simp [sourceFits, hmem, allowedScreeningState] at hsource
    simp only [bind_eq_ok, require_eq_ok, hkey, hretained, hreasons, hkinds, exists_const,
      true_and, and_true, ne_eq, not_false_eq_true]

end Recording

/-! ### Recording what was discovered -/

section Discovered
variable {h : PreparationHandle} {c : Catalog} {enc : Encoding} {markdown : Digest}
  {seen : List SeenDocument} {context : CandidateContext} {now : Time} {d : Document}
  {r : PreparedRevision}

/-- A row keeps the reasons and scores of a candidate. -/
structure Keeps (x : DeterministicCandidate) (row : PreparedCandidate) : Prop where
  document : row.matchedDocumentId = x.documentId
  source : row.source = toCandidateSource x.source
  reasons : row.reasons = x.reasons
  maxCosine : row.maxCosine = x.maxCosine
  bm25Score : row.bm25Score = x.bm25StrongPlacements
  fusedScore : row.fusedScore = x.fusedScore
  pairs : row.matchedChunkPairs = x.matchedChunkPairs

/-- The inputs that discovery hands to recording. -/
def discoveredInputs (context : CandidateContext) (found : List DeterministicCandidate) :
    List CandidateInput :=
  found.map fun x => deterministicCandidateInput ⟨x,context.revision? x.documentId⟩

theorem discovered_matched :
    (discoveredInputs context found).map (·.matchedDocumentId) = found.map (·.documentId) := by
  rw [discoveredInputs, List.map_map]
  rfl

/-- A found candidate is a candidate document of the catalog that its source fits. -/
theorem found_document (hcontext : catalogCandidateContext enc h markdown seen c = .ok context)
    (hfound : evaluateCandidates dense bm25 context.filenameIds context.identicalIds
      context.sources = .ok found) (hx : x ∈ found) :
    ∃ m, m ∈ candidateDocuments h c ∧ m.id = x.documentId ∧ sourceFits m x.source := by
  obtain ⟨id,hid,rfl⟩ := (mem_found hfound).1 hx
  obtain ⟨⟨-,hsources⟩,-⟩ := evaluateCandidates_ok.1 hfound
  obtain ⟨source,hsource⟩ := Option.isSome_iff_exists.1 (hsources id (List.mem_filter.1 hid).1)
  obtain ⟨m,hm,hmid,hfits⟩ := source_document hcontext hsource
  refine ⟨m,hm,hmid,?_⟩
  have hsame : (candidateOf dense bm25 context.filenameIds context.identicalIds context.sources
      id).source = source := by rw [candidateOf, hsource, Option.getD_some]
  rw [hsame]
  exact hfits

/-- A found candidate is accepted exactly when its maximal cosine is in range. -/
theorem found_accepted (hcontext : catalogCandidateContext enc h markdown seen c = .ok context)
    (hfound : evaluateCandidates dense bm25 context.filenameIds context.identicalIds
      context.sources = .ok found) (hx : x ∈ found) :
    (∃ m, c.document? x.documentId = some m ∧
      validateCandidate h m (deterministicCandidateInput ⟨x,context.revision? x.documentId⟩) =
        .ok () ∧
      requireEvidence c [h.documentId,m.id] [deterministicEvidence] = .ok ()) ↔
    x.maxCosine ≤ 1 := by
  obtain ⟨m,hm,hmid,hfits⟩ := found_document hcontext hfound hx
  obtain ⟨hlookup,-,-,-⟩ := mem_candidateDocuments hm
  rw [hmid] at hlookup
  obtain ⟨id,hid,rfl⟩ := (mem_found hfound).1 hx
  obtain ⟨hcount,hnodup⟩ := @candidateReasons_valid dense bm25 context.filenameIds
    context.identicalIds id
  have hreasons : candidateReasons dense bm25 context.filenameIds context.identicalIds id ≠ [] := by
    simpa using (List.mem_filter.1 hid).2
  have hrange := validateCandidate_ok (x := deterministicCandidateInput ⟨candidateOf dense bm25
    context.filenameIds context.identicalIds context.sources id,
    context.revision? id⟩) hm (by
      cases hs : (candidateOf dense bm25 context.filenameIds context.identicalIds
        context.sources id).source <;>
      · rw [hs] at hfits
        simpa only [deterministicCandidateInput, toCandidateSource, hs] using hfits)
    ⟨hreasons,hcount,hnodup⟩ rfl
  constructor
  · rintro ⟨m',hm',hvalid,-⟩
    obtain rfl := Option.some.inj (hlookup.symm.trans hm')
    exact (hrange.1 hvalid).2.1
  · intro hcosine
    refine ⟨m,hlookup,hrange.2 ⟨?_,hcosine,?_,fusedScore_nonneg⟩,deterministic_valid⟩
    · exact le_trans (by norm_num) (@maxCosine_nonneg dense id)
    · exact Nat.cast_nonneg _

/-- Every found candidate is in range exactly when no dense hit scores above 1. -/
theorem found_in_range (hfound : evaluateCandidates dense bm25 filenames identical sources =
    .ok found) : (∀ x, x ∈ found → x.maxCosine ≤ 1) ↔
      ∀ hit, hit ∈ dense.flatten → hit.score ≤ 1 := by
  constructor
  · intro hall hit hhit
    by_contra hhigh
    have hstrong : cosineStrongThreshold ≤ hit.score :=
      cosineStrongThreshold_le_one.trans (not_le.1 hhigh).le
    have hmem := (mem_found hfound).2 ⟨_,qualified_of_strong hhit hstrong,rfl⟩
    exact hhigh (maxCosine_le_one.1 (hall _ hmem) hit hhit rfl)
  · intro hall x hx
    obtain ⟨id,-,rfl⟩ := (mem_found hfound).1 hx
    exact maxCosine_le_one.2 fun hit hhit _ => hall hit hhit

/-- The rows of the found candidates exist exactly when no dense hit scores above 1. -/
theorem discoveredRows_exists
    (hcontext : catalogCandidateContext enc h markdown seen c = .ok context)
    (hfound : evaluateCandidates dense bm25 context.filenameIds context.identicalIds
      context.sources = .ok found) :
    (∃ rows, candidateRows now c h 1 (discoveredInputs context found) = .ok rows) ↔
      ∀ hit, hit ∈ dense.flatten → hit.score ≤ 1 := by
  rw [candidateRows_exists, ← found_in_range hfound, discoveredInputs]
  simp only [List.forall_mem_map]
  exact forall₂_congr fun x hx => found_accepted hcontext hfound hx

/-- What recording the found candidates does. -/
theorem record_discovered
    (hcontext : catalogCandidateContext enc h markdown seen c = .ok context)
    (hfound : evaluateCandidates dense bm25 context.filenameIds context.identicalIds
      context.sources = .ok found)
    (hstage : loadStage d h = .ok r) (hvectors : r.vectorComplete = true)
    (hfirst : r.content.candidates = []) {ids : List Uuid} {d' : Document} :
    recordPreflightCandidates now h (discoveredInputs context found) c d = .ok (ids,d') ↔
      (qualifiedIds dense bm25 context.filenameIds context.identicalIds).length ≤ 100 ∧
      ∃ rows, candidateRows now c h 1 (discoveredInputs context found) = .ok rows ∧
        rows.map (·.id) = ids ∧
        d.putRevision {r with content := {r.content with candidates := rows}} = d' := by
  have hlength : (discoveredInputs context found).length =
      (qualifiedIds dense bm25 context.filenameIds context.identicalIds).length :=
    (List.length_map _).trans (length_found hfound)
  have hother : h.documentId ∉ found.map (·.documentId) := by
    intro hmem
    obtain ⟨x,hx,hid⟩ := List.mem_map.1 hmem
    obtain ⟨m,hm,hmid,-⟩ := found_document hcontext hfound hx
    exact (mem_candidateDocuments hm).2.2.1 (hmid.trans hid)
  have hretained : ∀ id, id ∈ found.map (·.documentId) → (c.document? id).isSome = true := by
    intro id hid
    obtain ⟨x,hx,rfl⟩ := List.mem_map.1 hid
    obtain ⟨m,hm,hmid,-⟩ := found_document hcontext hfound hx
    rw [← hmid, (mem_candidateDocuments hm).1]
    rfl
  simp only [recordPreflightCandidates, discovered_matched, hstage, hvectors, hfirst, hlength,
    nodup_found hfound, hother, bind_eq_ok, require_eq_ok, pure_eq_ok, Prod.mk.injEq,
    exists_const, not_false_eq_true, true_and, and_true, Except.ok.injEq, exists_eq_left']
  constructor
  · rintro ⟨hcount,-,rows,hrows,hids,hd'⟩
    exact ⟨hcount,rows,hrows,hids,hd'⟩
  · rintro ⟨hcount,rows,hrows,hids,hd'⟩
    exact ⟨hcount,hretained,rows,hrows,hids,hd'⟩

/-- If the hits and the catalog are consistent, the qualified candidates are recorded in their
order with their reasons and scores, and the revision is never sealed as clear, exactly when at
most 100 documents qualify and no dense hit scores above 1. -/
theorem candidates_recorded
    (hcontext : catalogCandidateContext enc h markdown seen c = .ok context)
    (hfound : evaluateCandidates dense bm25 context.filenameIds context.identicalIds
      context.sources = .ok found)
    (hstage : loadStage d h = .ok r) (hvectors : r.vectorComplete = true)
    (hfirst : r.content.candidates = []) :
    (∃ ids d' r', recordPreflightCandidates now h (discoveredInputs context found) c d =
        .ok (ids,d') ∧ loadStage d' h = .ok r' ∧
      List.Forall₂ Keeps found r'.content.candidates ∧
      (found ≠ [] → ∀ enc now completeness d'' r'' sealing, loadStage d'' h = .ok r'' →
        r''.content.candidates.map (·.id) = r'.content.candidates.map (·.id) →
        sealPreparedRevision enc now h completeness d'' = .ok sealing →
        sealing.1.clearForPublication = false)) ↔
    (qualifiedIds dense bm25 context.filenameIds context.identicalIds).length ≤ 100 ∧
      ∀ hit, hit ∈ dense.flatten → hit.score ≤ 1 := by
  have hexists := @discoveredRows_exists dense bm25 found h c enc markdown seen context now
    hcontext hfound
  rw [← hexists]
  constructor
  · rintro ⟨ids,d',-,hrecord,-⟩
    obtain ⟨hcount,rows,hrows,-⟩ :=
      (record_discovered hcontext hfound hstage hvectors hfirst).1 hrecord
    exact ⟨hcount,rows,hrows⟩
  · rintro ⟨hcount,rows,hrows⟩
    obtain ⟨hrevision,hstatus,hidentity⟩ := loadStage_ok.1 hstage
    refine ⟨_,_,{r with content := {r.content with candidates := rows}},
      (record_discovered hcontext hfound hstage hvectors hfirst).2
        ⟨hcount,rows,hrows,rfl,rfl⟩,loadStage_ok.2 ⟨?_,hstatus,hidentity⟩,?_,?_⟩
    · rw [(Table.key_of_lookup hrevision).symm]
      exact Table.lookup_put_self _ _
    · have hkept := candidateRows_rows hrows
      rw [discoveredInputs, List.forall₂_map_left_iff] at hkept
      exact hkept.imp fun x row hrow => ⟨hrow.1,hrow.2.1,hrow.2.2.1,hrow.2.2.2.1,
        hrow.2.2.2.2.1,hrow.2.2.2.2.2.1,hrow.2.2.2.2.2.2⟩
    · intro hne enc now completeness d'' r'' sealing hstage'' hids hseal
      refine sealed_not_clear hstage'' (fun hnil => hne ?_) hseal
      rw [hnil] at hids
      have hzero : rows.length = 0 := by
        rw [← List.length_map (f := fun x : PreparedCandidate => x.id), ← hids]
        rfl
      have hsame := (candidateRows_rows hrows).length_eq
      rw [hzero, discoveredInputs, List.length_map] at hsame
      exact List.length_eq_zero_iff.1 hsame

/-! ### A cosine above 1 -/

/-- One hit of the retained book with a given score. -/
def bookHits (score : ℚ) : List (List ChunkHit) :=
  [[⟨uuid4 3 0,.active,(bookChunk (uuid4 3 0) (uuid4 4 0) "old").id,score,1⟩]]

def bookSeen : List SeenDocument := [⟨uuid4 3 0,uuid4 4 0,.active⟩]

def bookDiscoveries (score : ℚ) : Outcome (CandidateContext × List DeterministicCandidate) := do
  let context ← catalogCandidateContext Lifecycle.plainEncoding bookHandle ⟨"new"⟩ bookSeen
    bookshelf
  let found ← evaluateCandidates (bookHits score) [] context.filenameIds context.identicalIds
    context.sources
  pure (context,found)

theorem bookDiscoveries_ok (score : ℚ) (hrun : (bookDiscoveries score).toBool = true) :
    ∃ context found, catalogCandidateContext Lifecycle.plainEncoding bookHandle ⟨"new"⟩ bookSeen
        bookshelf = .ok context ∧
      evaluateCandidates (bookHits score) [] context.filenameIds context.identicalIds
        context.sources = .ok found := by
  obtain ⟨⟨context,found⟩,hx⟩ := exists_of_isOk hrun
  simp only [bookDiscoveries, bind_eq_ok, pure_eq_ok, Prod.mk.injEq] at hx
  obtain ⟨context',hcontext,found',hfound,rfl,rfl⟩ := hx
  exact ⟨context',found',hcontext,hfound⟩

theorem bookStage : ∃ r, loadStage incomingBook bookHandle = .ok r ∧ r.vectorComplete = true ∧
    r.content.candidates = [] := by
  refine ⟨bookRevision 2 (uuid4 1 0) "new",loadStage_ok.2 ⟨Table.lookup_put_self _ _,rfl,?_⟩,rfl,
    rfl⟩
  exact require_eq_ok.2 ⟨rfl,rfl,rfl⟩

/-- A hit whose cosine is rounded up to a little more than 1: the document qualifies, and
recording fails. -/
theorem rounded_cosine_refused : ∃ context found,
    catalogCandidateContext Lifecycle.plainEncoding bookHandle ⟨"new"⟩ bookSeen bookshelf =
      .ok context ∧
    evaluateCandidates (bookHits (1000001 / 1000000)) [] context.filenameIds
      context.identicalIds context.sources = .ok found ∧ found ≠ [] ∧
    ∀ now, ¬ ∃ ids d', recordPreflightCandidates now bookHandle
      (discoveredInputs context found) bookshelf incomingBook = .ok (ids,d') := by
  obtain ⟨context,found,hcontext,hfound⟩ :=
    bookDiscoveries_ok (1000001 / 1000000) (by decide +kernel)
  obtain ⟨r,hstage,hvectors,hfirst⟩ := bookStage
  have hstrong := @qualified_of_strong (bookHits (1000001 / 1000000)) [] context.filenameIds
    context.identicalIds ⟨uuid4 3 0,.active,(bookChunk (uuid4 3 0) (uuid4 4 0) "old").id,
      1000001 / 1000000,1⟩ List.mem_cons_self (cosineStrongThreshold_le_one.trans (by norm_num))
  refine ⟨context,found,hcontext,hfound,
    List.ne_nil_of_mem ((mem_found hfound).2 ⟨_,hstrong,rfl⟩),fun now => ?_⟩
  rintro ⟨ids,d',hrecord⟩
  obtain ⟨-,rows,hrows,-⟩ := (record_discovered hcontext hfound hstage hvectors hfirst).1 hrecord
  have hrange := (discoveredRows_exists hcontext hfound).1 ⟨rows,hrows⟩ _ List.mem_cons_self
  norm_num at hrange

/-- A hit of cosine 1. -/
theorem candidates_recorded_book : ∃ context found,
    catalogCandidateContext Lifecycle.plainEncoding bookHandle ⟨"new"⟩ bookSeen bookshelf =
      .ok context ∧
    evaluateCandidates (bookHits 1) [] context.filenameIds context.identicalIds
      context.sources = .ok found ∧
    ∃ ids d' r', recordPreflightCandidates 5 bookHandle (discoveredInputs context found)
        bookshelf incomingBook = .ok (ids,d') ∧ loadStage d' bookHandle = .ok r' ∧
      List.Forall₂ Keeps found r'.content.candidates := by
  obtain ⟨context,found,hcontext,hfound⟩ := bookDiscoveries_ok 1 (by decide +kernel)
  obtain ⟨r,hstage,hvectors,hfirst⟩ := bookStage
  have hcount : (((catalogCandidateContext Lifecycle.plainEncoding bookHandle ⟨"new"⟩ bookSeen
      bookshelf).toOption.map fun context => (qualifiedIds (bookHits 1) [] context.filenameIds
        context.identicalIds).length).getD 0) ≤ 100 := by decide +kernel
  rw [hcontext] at hcount
  obtain ⟨ids,d',r',hrecord,hstage',hkept,-⟩ :=
    (@candidates_recorded (bookHits 1) [] found bookHandle bookshelf Lifecycle.plainEncoding
      ⟨"new"⟩ bookSeen context 5 incomingBook r hcontext hfound hstage hvectors hfirst).2
      ⟨hcount,fun hit hhit => by
        rw [List.mem_singleton.1 hhit]⟩
  exact ⟨context,found,hcontext,hfound,ids,d',r',hrecord,hstage',hkept⟩

end Discovered

end Advice
end PdfBridge
