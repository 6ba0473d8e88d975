import PdfBridge.Services.Candidates
import Mathlib.Algebra.Order.BigOperators.Group.List
import Mathlib.Algebra.BigOperators.Group.List.Lemmas
import Mathlib.Data.Finset.Card
import Mathlib.Data.List.Dedup
import Mathlib.Data.List.Sort

/-! The candidate rules: which documents an evaluation returns, with which reasons, in which order,
and how that depends on the order and the number of the hits. -/
namespace PdfBridge
namespace Candidates
open Binary64 (nearest)

variable {dense bm25 dense' bm25' : List (List ChunkHit)} {filenames identical : List Uuid}
  {id : Uuid} {sources : Sources} {found : List DeterministicCandidate}
  {x : DeterministicCandidate}

/-! ### Qualified candidates -/

/-- The referenced documents that some rule admits. -/
def qualifiedIds (dense bm25 : List (List ChunkHit)) (filenames identical : List Uuid) :
    List Uuid :=
  (referencedIds dense bm25 filenames identical).filter fun id =>
    candidateReasons dense bm25 filenames identical id ≠ []

theorem evaluateCandidates_ok :
    evaluateCandidates dense bm25 filenames identical sources = .ok found ↔
      (checkHits sources (dense ++ bm25).flatten = .ok () ∧
        ∀ id, id ∈ referencedIds dense bm25 filenames identical →
          (sources.find id).isSome = true) ∧
      found = ((qualifiedIds dense bm25 filenames identical).map
        (candidateOf dense bm25 filenames identical sources)).insertionSort candidateBefore := by
  have hqualified : ((referencedIds dense bm25 filenames identical).map
      (candidateOf dense bm25 filenames identical sources)).filter (fun x => x.reasons ≠ []) =
      (qualifiedIds dense bm25 filenames identical).map
        (candidateOf dense bm25 filenames identical sources) := by
    rw [List.filter_map]
    rfl
  simp only [evaluateCandidates, bind_eq_ok, require_eq_ok, exists_const, pure_eq_ok, hqualified]
  constructor
  · rintro ⟨⟨⟩,hhits,hsources,rfl⟩
    exact ⟨⟨hhits,hsources⟩,rfl⟩
  · rintro ⟨⟨hhits,hsources⟩,rfl⟩
    exact ⟨(),hhits,hsources,rfl⟩

theorem mem_found (h : evaluateCandidates dense bm25 filenames identical sources = .ok found) :
    x ∈ found ↔ ∃ id, id ∈ qualifiedIds dense bm25 filenames identical ∧
      candidateOf dense bm25 filenames identical sources id = x := by
  obtain ⟨-,rfl⟩ := evaluateCandidates_ok.1 h
  rw [List.mem_insertionSort, List.mem_map]

theorem length_found (h : evaluateCandidates dense bm25 filenames identical sources = .ok found) :
    found.length = (qualifiedIds dense bm25 filenames identical).length := by
  obtain ⟨-,rfl⟩ := evaluateCandidates_ok.1 h
  rw [List.length_insertionSort, List.length_map]

theorem nodup_found (h : evaluateCandidates dense bm25 filenames identical sources = .ok found) :
    (found.map (·.documentId)).Nodup := by
  obtain ⟨-,rfl⟩ := evaluateCandidates_ok.1 h
  have hperm := (List.perm_insertionSort candidateBefore ((qualifiedIds dense bm25 filenames
    identical).map (candidateOf dense bm25 filenames identical sources))).map (·.documentId)
  rw [hperm.nodup_iff, List.map_map]
  have hid : (·.documentId) ∘ candidateOf dense bm25 filenames identical sources = id := rfl
  rw [hid, List.map_id]
  exact (List.nodup_dedup _).filter _

/-! ### Scores -/

theorem foldl_max_le {l : List ℚ} {a b : ℚ} :
    l.foldl max a ≤ b ↔ a ≤ b ∧ ∀ q, q ∈ l → q ≤ b := by
  induction l generalizing a with
  | nil => simp
  | cons q l ih =>
    rw [List.foldl_cons, ih, max_le_iff, List.forall_mem_cons, and_assoc]

theorem le_foldl_max {l : List ℚ} {a : ℚ} : a ≤ l.foldl max a :=
  (foldl_max_le.1 (le_refl _)).1

theorem maxCosine_nonneg : 0 ≤ maxCosine dense id := le_foldl_max

/-- The maximal cosine of a document is in range exactly when its hits are. -/
theorem maxCosine_le_one : maxCosine dense id ≤ 1 ↔
    ∀ h, h ∈ dense.flatten → h.documentId = id → h.score ≤ 1 := by
  rw [maxCosine, foldl_max_le]
  simp only [List.mem_map, List.mem_filter, decide_eq_true_eq]
  constructor
  · rintro ⟨-,hall⟩ h hh hid
    exact hall h.score ⟨h,⟨hh,hid⟩,rfl⟩
  · rintro hall
    refine ⟨by norm_num,?_⟩
    rintro q ⟨h,⟨hh,hid⟩,rfl⟩
    exact hall h hh hid

theorem rankContribution_nonneg (position : ℕ) : 0 ≤ rankContribution position := by
  have hplace : 0 ≤ nearest ((rrfK + position : ℕ) : ℚ) :=
    Binary64.nearest_nonneg (Nat.cast_nonneg _)
  exact Binary64.nearest_nonneg (by positivity)

theorem reciprocalRankFusion_nonneg (rankings : List (List Uuid)) :
    0 ≤ reciprocalRankFusion rankings id := by
  unfold reciprocalRankFusion
  apply List.foldlRecOn rankings _ le_rfl
  intro score hscore ranking _
  split
  · exact Binary64.nearest_nonneg (add_nonneg hscore (rankContribution_nonneg _))
  · exact hscore

theorem fusedScore_nonneg : 0 ≤ fusedScore dense bm25 id :=
  Binary64.roundTo_nonneg (reciprocalRankFusion_nonneg _)

theorem cosineMulti_le_strong : nearest (72 / 100) ≤ nearest (86 / 100) := by
  decide +kernel

theorem cosineStrongThreshold_le_one : cosineStrongThreshold ≤ 1 := by decide +kernel

/-- A hit that is at least strong qualifies its document. -/
theorem qualified_of_strong {hit : ChunkHit} (hhit : hit ∈ dense.flatten)
    (hstrong : cosineStrongThreshold ≤ hit.score) :
    hit.documentId ∈ qualifiedIds dense bm25 filenames identical := by
  obtain ⟨hits,hhits,hmem⟩ := List.mem_flatten.1 hhit
  obtain ⟨i,hi⟩ := List.mem_iff_getElem?.1 hhits
  have hchunk : i ∈ strongChunks dense hit.documentId := by
    refine List.mem_map.2 ⟨(hits,i),List.mem_filter.2 ⟨List.mem_zipIdx_iff_getElem?.2 hi,?_⟩,rfl⟩
    exact List.any_eq_true.2 ⟨hit,hmem,by simpa [strongHit] using hstrong⟩
  refine List.mem_filter.2 ⟨?_,?_⟩
  · refine List.mem_dedup.2 (List.mem_append_right _ (List.mem_map.2 ⟨hit,?_,rfl⟩))
    rw [List.flatten_append]
    exact List.mem_append_left _ hhit
  · have hreason : ruleCosineStrong ∈
        candidateReasons dense bm25 filenames identical hit.documentId := by
      have hne : strongChunks dense hit.documentId ≠ [] := List.ne_nil_of_mem hchunk
      simp [candidateReasons, hne]
    simpa using List.ne_nil_of_mem hreason

/-- At most the five rules, each once. -/
theorem candidateReasons_valid :
    (candidateReasons dense bm25 filenames identical id).length ≤ 50 ∧
    (candidateReasons dense bm25 filenames identical id).Nodup := by
  have hrules : [ruleIdenticalText,ruleFilenameFamily,ruleCosineStrong,ruleCosineMulti,
      ruleBm25Repeated].Nodup := by decide +kernel
  have hsub : (candidateReasons dense bm25 filenames identical id).Sublist
      [ruleIdenticalText,ruleFilenameFamily,ruleCosineStrong,ruleCosineMulti,
        ruleBm25Repeated] := by
    have hone : ∀ (p : Prop) [Decidable p] (r : FailureCode),
        (if p then [r] else []).Sublist [r] := by
      intro p _ r
      split
      · exact List.Sublist.refl _
      · exact List.nil_sublist _
    exact ((((hone _ _).append (hone _ _)).append (hone _ _)).append (hone _ _)).append
      (hone _ _)
  exact ⟨hsub.length_le.trans (by decide),hrules.sublist hsub⟩

/-! ### The rules -/

/-- Hits of a document with a property for at least `n` different incoming chunks. -/
def HasHits (results : List (List ChunkHit)) (id : Uuid) (p : ChunkHit → Prop) (n : ℕ) : Prop :=
  ∃ chunks : Finset ℕ, n ≤ chunks.card ∧ ∀ i ∈ chunks, ∃ hits, results[i]? = some hits ∧
    ∃ h ∈ hits, h.documentId = id ∧ p h

inductive Rule where
  | identicalText | filenameFamily | cosineStrong | cosineMulti | bm25Repeated
deriving DecidableEq

def Rule.code : Rule → FailureCode
  | .identicalText => ruleIdenticalText
  | .filenameFamily => ruleFilenameFamily
  | .cosineStrong => ruleCosineStrong
  | .cosineMulti => ruleCosineMulti
  | .bm25Repeated => ruleBm25Repeated

/-- A document meets a rule. -/
def Meets (dense bm25 : List (List ChunkHit)) (filenames identical : List Uuid) (id : Uuid) :
    Rule → Prop
  | .identicalText => id ∈ identical
  | .filenameFamily => id ∈ filenames
  | .cosineStrong => HasHits dense id (fun h => nearest (86 / 100) ≤ h.score) 1
  | .cosineMulti => HasHits dense id (fun h => nearest (72 / 100) ≤ h.score) 2 ∧
      HasHits dense id (fun h => nearest (72 / 100) ≤ h.score ∧
        h.score < nearest (86 / 100)) 1
  | .bm25Repeated => HasHits bm25 id (fun h => h.rank ≤ 3) 3

variable {results results' : List (List ChunkHit)} {p : ChunkHit → Prop} {n : ℕ}

/-- A list of the chunks in question counts them. -/
theorem hasHits_iff_length {chunks : List ℕ} (hn : chunks.Nodup)
    (hmem : ∀ i, i ∈ chunks ↔ ∃ hits, results[i]? = some hits ∧
      ∃ h ∈ hits, h.documentId = id ∧ p h) : HasHits results id p n ↔ n ≤ chunks.length := by
  constructor
  · rintro ⟨s,hs,hall⟩
    refine hs.trans ?_
    rw [← List.toFinset_card_of_nodup hn]
    exact Finset.card_le_card fun i hi => List.mem_toFinset.2 ((hmem i).2 (hall i hi))
  · intro h
    refine ⟨chunks.toFinset,h.trans_eq (List.toFinset_card_of_nodup hn).symm,fun i hi => ?_⟩
    exact (hmem i).1 (List.mem_toFinset.1 hi)

theorem mem_chunksWith {test : ChunkHit → Bool} {i : ℕ} : i ∈ chunksWith results id test ↔
    ∃ hits, results[i]? = some hits ∧ ∃ h ∈ hits, h.documentId = id ∧ test h = true := by
  simp only [chunksWith, List.mem_map, List.mem_filter, List.any_eq_true, Bool.and_eq_true,
    decide_eq_true_eq, Prod.exists, exists_eq_right]
  constructor
  · rintro ⟨hits,hi,hit⟩
    exact ⟨hits,List.mem_zipIdx_iff_getElem?.1 hi,hit⟩
  · rintro ⟨hits,hi,hit⟩
    exact ⟨hits,List.mem_zipIdx_iff_getElem?.2 hi,hit⟩

theorem nodup_chunksWith {test : ChunkHit → Bool} : (chunksWith results id test).Nodup := by
  have hn : (results.zipIdx.map (·.2)).Nodup := by
    rw [List.zipIdx_map_snd]
    exact List.nodup_range'
  exact hn.sublist (List.filter_sublist.map _)

/-- A test counts the hits with the property that it decides. -/
theorem hasHits_iff {test : ChunkHit → Bool} (hp : ∀ h, p h ↔ test h = true) :
    HasHits results id p n ↔ n ≤ (chunksWith results id test).length := by
  refine hasHits_iff_length nodup_chunksWith fun i => ?_
  rw [mem_chunksWith]
  simp only [hp]

theorem strongHit_iff (h : ChunkHit) : nearest (86 / 100) ≤ h.score ↔ strongHit h = true := by
  rw [strongHit, decide_eq_true_eq]
  rfl

theorem moderateHit_iff (h : ChunkHit) :
    (nearest (72 / 100) ≤ h.score ∧ h.score < nearest (86 / 100)) ↔
      moderateHit h = true := by
  rw [moderateHit, Bool.and_eq_true, decide_eq_true_eq, decide_eq_true_eq]
  rfl

theorem placedHit_iff (h : ChunkHit) : h.rank ≤ 3 ↔ placedHit h = true := by
  rw [placedHit, decide_eq_true_eq]
  rfl

/-- A chunk with a hit of at least the lower threshold is moderate or strong. -/
theorem hasHits_multi : HasHits dense id (fun h => nearest (72 / 100) ≤ h.score) n ↔
    n ≤ (moderateChunks dense id ∪ strongChunks dense id).length := by
  refine hasHits_iff_length (nodup_chunksWith.union _) fun i => ?_
  rw [List.mem_union_iff, moderateChunks, strongChunks, mem_chunksWith, mem_chunksWith]
  simp only [← strongHit_iff, ← moderateHit_iff]
  constructor
  · rintro (⟨hits,hi,h,hh,hid,hscore,-⟩ | ⟨hits,hi,h,hh,hid,hscore⟩)
    · exact ⟨hits,hi,h,hh,hid,hscore⟩
    · exact ⟨hits,hi,h,hh,hid,le_trans cosineMulti_le_strong hscore⟩
  · rintro ⟨hits,hi,h,hh,hid,hscore⟩
    rcases lt_or_ge h.score (nearest (86 / 100)) with hlt | hge
    · exact Or.inl ⟨hits,hi,h,hh,hid,hscore,hlt⟩
    · exact Or.inr ⟨hits,hi,h,hh,hid,hge⟩

theorem ne_nil_iff_hasHits {chunks : List ℕ} (h : HasHits results id p 1 ↔ 1 ≤ chunks.length) :
    chunks ≠ [] ↔ HasHits results id p 1 := by
  rw [h, Nat.one_le_iff_ne_zero, ne_eq, ne_eq, List.length_eq_zero_iff]

/-- A document has exactly the reasons of the rules that it meets. -/
theorem mem_candidateReasons {code : FailureCode} :
    code ∈ candidateReasons dense bm25 filenames identical id ↔
      ∃ rule : Rule, rule.code = code ∧ Meets dense bm25 filenames identical id rule := by
  have hstrong : strongChunks dense id ≠ [] ↔ _ := ne_nil_iff_hasHits (hasHits_iff strongHit_iff)
  have hmoderate : moderateChunks dense id ≠ [] ↔ _ :=
    ne_nil_iff_hasHits (hasHits_iff moderateHit_iff)
  have hmulti := (@hasHits_multi dense id cosineMultiMinChunks).symm
  have hplaced : bm25StrongMinChunks ≤ (bm25StrongChunks bm25 id).length ↔ _ :=
    (hasHits_iff placedHit_iff).symm
  have one : ∀ (q : Prop) [Decidable q] (rule : Rule),
      code ∈ (if q then [rule.code] else []) ↔ rule.code = code ∧ q := by
    intro q _ rule
    split
    · rename_i hq
      rw [List.mem_singleton, and_iff_left hq, eq_comm]
    · rename_i hq
      exact ⟨fun h => absurd h List.not_mem_nil,fun h => absurd h.2 hq⟩
  have hmem : code ∈ candidateReasons dense bm25 filenames identical id ↔
      (Rule.identicalText.code = code ∧ Meets dense bm25 filenames identical id .identicalText) ∨
      (Rule.filenameFamily.code = code ∧ Meets dense bm25 filenames identical id .filenameFamily) ∨
      (Rule.cosineStrong.code = code ∧ Meets dense bm25 filenames identical id .cosineStrong) ∨
      (Rule.cosineMulti.code = code ∧ Meets dense bm25 filenames identical id .cosineMulti) ∨
      (Rule.bm25Repeated.code = code ∧
        Meets dense bm25 filenames identical id .bm25Repeated) := by
    simp only [candidateReasons, List.mem_append, or_assoc]
    refine or_congr (one _ .identicalText) (or_congr (one _ .filenameFamily) (or_congr
      ((one _ .cosineStrong).trans (and_congr_right fun _ => hstrong)) (or_congr
      ((one _ .cosineMulti).trans (and_congr_right fun _ => ?_))
      ((one _ .bm25Repeated).trans (and_congr_right fun _ => hplaced)))))
    exact (and_congr hmoderate hmulti).trans and_comm
  rw [hmem]
  constructor
  · rintro (h | h | h | h | h) <;> exact ⟨_,h⟩
  · rintro ⟨rule,h⟩
    cases rule with
    | identicalText => exact Or.inl h
    | filenameFamily => exact Or.inr (Or.inl h)
    | cosineStrong => exact Or.inr (Or.inr (Or.inl h))
    | cosineMulti => exact Or.inr (Or.inr (Or.inr (Or.inl h)))
    | bm25Repeated => exact Or.inr (Or.inr (Or.inr (Or.inr h)))

/-- A document that some rule admits is referenced. -/
theorem mem_qualifiedIds : id ∈ qualifiedIds dense bm25 filenames identical ↔
    ∃ rule, Meets dense bm25 filenames identical id rule := by
  have referenced : ∀ {results n p}, (∀ hits ∈ results, hits ∈ dense ++ bm25) →
      HasHits results id p n → 1 ≤ n → id ∈ referencedIds dense bm25 filenames identical := by
    rintro results n p hsub ⟨chunks,hn,hall⟩ hone
    obtain ⟨i,hi⟩ := Finset.card_pos.1 (hone.trans hn)
    obtain ⟨hits,hhits,h,hmem,rfl,-⟩ := hall i hi
    refine List.mem_dedup.2 (List.mem_append_right _ (List.mem_map.2 ⟨h,?_,rfl⟩))
    exact List.mem_flatten.2 ⟨hits,hsub hits (List.mem_of_getElem? hhits),hmem⟩
  rw [qualifiedIds, List.mem_filter, decide_eq_true_eq]
  constructor
  · rintro ⟨-,hne⟩
    obtain ⟨code,hcode⟩ := List.exists_mem_of_ne_nil _ hne
    obtain ⟨rule,-,hmeets⟩ := mem_candidateReasons.1 hcode
    exact ⟨rule,hmeets⟩
  · rintro ⟨rule,hmeets⟩
    refine ⟨?_,List.ne_nil_of_mem (mem_candidateReasons.2 ⟨rule,rfl,hmeets⟩)⟩
    cases rule with
    | identicalText =>
      exact List.mem_dedup.2 (List.mem_append_left _ (List.mem_append_right _ hmeets))
    | filenameFamily =>
      exact List.mem_dedup.2 (List.mem_append_left _ (List.mem_append_left _ hmeets))
    | cosineStrong =>
      exact referenced (fun _ => List.mem_append_left _) hmeets le_rfl
    | cosineMulti => exact referenced (fun _ => List.mem_append_left _) hmeets.2 le_rfl
    | bm25Repeated =>
      exact referenced (fun _ => List.mem_append_right _) hmeets (by decide)

/-- Two different chunks with hits of at least the lower threshold qualify a document, whichever
rule it then meets. -/
theorem meets_iff : (∃ rule, Meets dense bm25 filenames identical id rule) ↔
    id ∈ identical ∨ id ∈ filenames ∨ HasHits dense id (fun h => nearest (86 / 100) ≤ h.score) 1 ∨
      HasHits dense id (fun h => nearest (72 / 100) ≤ h.score) 2 ∨ HasHits bm25 id (fun h => h.rank ≤ 3) 3 := by
  constructor
  · rintro ⟨rule,h⟩
    cases rule with
    | identicalText => exact Or.inl h
    | filenameFamily => exact Or.inr (Or.inl h)
    | cosineStrong => exact Or.inr (Or.inr (Or.inl h))
    | cosineMulti => exact Or.inr (Or.inr (Or.inr (Or.inl h.1)))
    | bm25Repeated => exact Or.inr (Or.inr (Or.inr (Or.inr h)))
  · rintro (h | h | h | h | h)
    · exact ⟨.identicalText,h⟩
    · exact ⟨.filenameFamily,h⟩
    · exact ⟨.cosineStrong,h⟩
    · by_cases hs : HasHits dense id (fun h => nearest (86 / 100) ≤ h.score) 1
      · exact ⟨.cosineStrong,hs⟩
      · refine ⟨.cosineMulti,h,?_⟩
        obtain ⟨chunks,hn,hall⟩ := h
        refine ⟨chunks,le_trans (by decide) hn,fun i hi => ?_⟩
        obtain ⟨hits,hhits,hit,hmem,hid,hscore⟩ := hall i hi
        refine ⟨hits,hhits,hit,hmem,hid,hscore,lt_of_not_ge fun hge => hs ?_⟩
        refine ⟨{i},le_of_eq (Finset.card_singleton i).symm,fun j hj => ?_⟩
        rw [Finset.mem_singleton.1 hj]
        exact ⟨hits,hhits,hit,hmem,hid,hge⟩
    · exact ⟨.bm25Repeated,h⟩

/-! ### The order of the candidates -/

instance : Std.Total candidateBefore := ⟨by
  intro a b
  rcases lt_trichotomy a.fusedScore b.fusedScore with hlt | heq | hgt
  · exact Or.inr (Or.inl hlt)
  · rcases le_total a.documentId b.documentId with hle | hle
    · exact Or.inl (Or.inr ⟨heq,hle⟩)
    · exact Or.inr (Or.inr ⟨heq.symm,hle⟩)
  · exact Or.inl (Or.inl hgt)⟩

instance : IsTrans DeterministicCandidate candidateBefore := ⟨by
  rintro a b c (hab | ⟨hab,hid⟩) (hbc | ⟨hbc,hid'⟩)
  · exact Or.inl (hbc.trans hab)
  · exact Or.inl (hbc ▸ hab)
  · exact Or.inl (hab ▸ hbc)
  · exact Or.inr ⟨hab.trans hbc,hid.trans hid'⟩⟩

theorem candidateBefore_antisymm {a b : DeterministicCandidate} (h : candidateBefore a b)
    (h' : candidateBefore b a) : a.documentId = b.documentId := by
  rcases h with h | ⟨he,hid⟩ <;> rcases h' with h' | ⟨he',hid'⟩
  · exact absurd h' h.le.not_gt
  · exact absurd he' h.ne
  · exact absurd he h'.ne
  · exact le_antisymm hid hid'

/-- By falling score, and then by identity. -/
theorem found_ordered (h : evaluateCandidates dense bm25 filenames identical sources = .ok found) :
    found.Pairwise fun a b => b.fusedScore < a.fusedScore ∨
      (a.fusedScore = b.fusedScore ∧ a.documentId < b.documentId) := by
  have hn := List.pairwise_map.1 (nodup_found h)
  obtain ⟨-,rfl⟩ := evaluateCandidates_ok.1 h
  refine ((List.pairwise_insertionSort candidateBefore _).and hn).imp ?_
  rintro a b ⟨hlt | ⟨he,hid⟩,hne⟩
  · exact Or.inl hlt
  · exact Or.inr ⟨he,lt_of_le_of_ne hid hne⟩

/-! ### The order of the hits -/

/-- Every chunk has the same hits. -/
def SameHits (results results' : List (List ChunkHit)) : Prop :=
  List.Forall₂ List.Perm results results'

/-- The hits of one chunk have different ranks in each source. -/
def DistinctRanks (results : List (List ChunkHit)) : Prop :=
  ∀ hits ∈ results, ∀ source, ((hits.filter fun h => h.source = source).map (·.rank)).Nodup

theorem SameHits.append (h : SameHits dense dense') (h' : SameHits bm25 bm25') :
    SameHits (dense ++ bm25) (dense' ++ bm25') := List.rel_append h h'

theorem SameHits.flatten (h : SameHits results results') :
    results.flatten.Perm results'.flatten := by
  induction h with
  | nil => exact List.Perm.refl _
  | cons hhits _ ih => exact hhits.append ih

theorem SameHits.chunksWith {test : ChunkHit → Bool} (h : SameHits results results') :
    chunksWith results id test = chunksWith results' id test := by
  unfold Candidates.chunksWith
  generalize 0 = i
  induction h generalizing i with
  | nil => rfl
  | @cons hits hits' rest rest' hhits _ ih =>
    have hany : (hits.any fun h => h.documentId = id && test h) =
        hits'.any fun h => h.documentId = id && test h := hhits.any_eq
    simp only [List.zipIdx_cons, List.filter_cons, hany]
    split
    · exact congrArg (i :: ·) (ih (i + 1))
    · exact ih (i + 1)

theorem SameHits.candidateReasons (h : SameHits dense dense') (h' : SameHits bm25 bm25') :
    candidateReasons dense bm25 filenames identical id =
      candidateReasons dense' bm25' filenames identical id := by
  unfold Candidates.candidateReasons strongChunks moderateChunks bm25StrongChunks
  rw [h.chunksWith, h.chunksWith, h'.chunksWith]

theorem SameHits.maxCosine (h : SameHits dense dense') :
    maxCosine dense id = maxCosine dense' id := by
  have hperm := (h.flatten.filter fun h => h.documentId = id).map (·.score)
  have hle : ∀ {l l' : List ℚ}, l.Perm l' → l.foldl max 0 ≤ l'.foldl max 0 := fun hl =>
    foldl_max_le.2 ⟨le_foldl_max,fun q hq => (foldl_max_le.1 le_rfl).2 q (hl.subset hq)⟩
  exact le_antisymm (hle hperm) (hle hperm.symm)

/-- Hits of different ranks are sorted in one way. -/
theorem sourceRanking_perm {hits hits' : List ChunkHit} {source : HitSource} (h : hits.Perm hits')
    (hn : ((hits.filter fun h => h.source = source).map (·.rank)).Nodup) :
    sourceRanking hits source = sourceRanking hits' source := by
  let before : ChunkHit → ChunkHit → Prop := fun a b => a.rank ≤ b.rank
  have total : Std.Total before := ⟨fun a b => Nat.le_total a.rank b.rank⟩
  have trans : IsTrans ChunkHit before := ⟨fun _ _ _ hab hbc => Nat.le_trans hab hbc⟩
  have hsorted : ∀ l : List ChunkHit, ((l.insertionSort before).filter
      fun h => h.source = source).Pairwise before :=
    fun l => (List.pairwise_insertionSort before l).filter _
  have hperm : ∀ l : List ChunkHit, ((l.insertionSort before).filter
      fun h => h.source = source).Perm (l.filter fun h => h.source = source) :=
    fun l => (List.perm_insertionSort before l).filter _
  refine congrArg (List.map (·.documentId)) (List.Perm.eq_of_pairwise ?_ (hsorted hits)
    (hsorted hits') ((hperm hits).trans ((h.filter _).trans (hperm hits').symm)))
  intro a b ha hb hab hba
  exact List.inj_on_of_nodup_map hn ((hperm hits).subset ha)
    ((h.filter _).symm.subset ((hperm hits').subset hb)) (le_antisymm hab hba)

theorem SameHits.rankings (h : SameHits dense dense') (h' : SameHits bm25 bm25')
    (hn : DistinctRanks (dense ++ bm25)) : rankings dense bm25 = rankings dense' bm25' := by
  unfold Candidates.rankings
  have hall := h.append h'
  generalize dense ++ bm25 = results at hall hn
  generalize dense' ++ bm25' = results' at hall
  induction hall with
  | nil => rfl
  | @cons hits hits' rest rest' hhits _ ih =>
    have hhead := hn hits List.mem_cons_self
    rw [List.flatMap_cons, List.flatMap_cons, ih fun l hl => hn l (List.mem_cons_of_mem _ hl),
      sourceRanking_perm hhits (hhead .active), sourceRanking_perm hhits (hhead .screening)]

/-- A candidate without its matched pairs, which keep the order of the hits. -/
def withoutPairs (x : DeterministicCandidate) : DeterministicCandidate :=
  {x with matchedChunkPairs := []}

theorem SameHits.candidateOf (h : SameHits dense dense') (h' : SameHits bm25 bm25')
    (hn : DistinctRanks (dense ++ bm25)) :
    withoutPairs (candidateOf dense' bm25' filenames identical sources id) =
      withoutPairs (candidateOf dense bm25 filenames identical sources id) := by
  unfold withoutPairs Candidates.candidateOf strongChunks moderateChunks bm25StrongChunks fusedScore
  rw [h.candidateReasons h', h.maxCosine, h.chunksWith, h.chunksWith, h'.chunksWith,
    h.rankings h' hn]

theorem checkHits_eq_ok {hits : List ChunkHit} : checkHits sources hits = .ok () ↔
    ∀ h ∈ hits, 1 ≤ h.rank ∧ hitConsistent sources h = true := by
  induction hits with
  | nil => simp [checkHits]
  | cons h hits ih =>
    simp only [checkHits, bind_eq_ok, require_eq_ok, exists_const, ih, List.forall_mem_cons,
      and_assoc]

/-- The same hits in another order give the same candidates. -/
theorem SameHits.evaluateCandidates (h : SameHits dense dense') (h' : SameHits bm25 bm25')
    (hn : DistinctRanks (dense ++ bm25))
    (hfound : evaluateCandidates dense bm25 filenames identical sources = .ok found) :
    ∃ found', evaluateCandidates dense' bm25' filenames identical sources = .ok found' ∧
      found'.map withoutPairs = found.map withoutPairs := by
  obtain ⟨⟨hhits,hsources⟩,rfl⟩ := evaluateCandidates_ok.1 hfound
  have hflat := (h.append h').flatten
  have hids : (referencedIds dense bm25 filenames identical).Perm
      (referencedIds dense' bm25' filenames identical) :=
    ((hflat.map ChunkHit.documentId).append_left _).dedup
  have hqualified : (qualifiedIds dense bm25 filenames identical).Perm
      (qualifiedIds dense' bm25' filenames identical) := by
    unfold qualifiedIds
    simp only [h.candidateReasons h']
    exact hids.filter _
  refine ⟨_,evaluateCandidates_ok.2 ⟨⟨checkHits_eq_ok.2 fun x hx => ?_,fun id hid => ?_⟩,rfl⟩,?_⟩
  · exact checkHits_eq_ok.1 hhits x (hflat.symm.subset hx)
  · exact hsources id (hids.symm.subset hid)
  · have same : ∀ id, withoutPairs (Candidates.candidateOf dense' bm25' filenames identical sources
        id) = withoutPairs (Candidates.candidateOf dense bm25 filenames identical sources id) :=
      fun id => h.candidateOf h' hn
    have sorted : ∀ l : List DeterministicCandidate,
        ((l.insertionSort candidateBefore).map withoutPairs).Pairwise candidateBefore :=
      fun l => List.pairwise_map.2 (List.pairwise_insertionSort candidateBefore l)
    have perm : ∀ l : List DeterministicCandidate,
        ((l.insertionSort candidateBefore).map withoutPairs).Perm (l.map withoutPairs) :=
      fun l => (List.perm_insertionSort candidateBefore l).map _
    refine List.Perm.eq_of_pairwise ?_ (sorted _) (sorted _) ?_
    · intro a b ha hb hab hba
      obtain ⟨x,hx,rfl⟩ := List.mem_map.1 ((perm _).subset ha)
      obtain ⟨y,hy,rfl⟩ := List.mem_map.1 ((perm _).subset hb)
      obtain ⟨i,-,rfl⟩ := List.mem_map.1 hx
      obtain ⟨j,-,rfl⟩ := List.mem_map.1 hy
      obtain rfl : i = j := candidateBefore_antisymm hab hba
      exact same i
    · refine (perm _).trans (List.Perm.trans ?_ (perm _).symm)
      rw [List.map_map, List.map_map]
      refine List.Perm.trans (List.Perm.of_eq ?_) (hqualified.symm.map _)
      exact List.map_congr_left fun id _ => same id

/-! ### More hits -/

/-- Every chunk has at least the hits that it had. -/
def Extends (results results' : List (List ChunkHit)) : Prop :=
  ∀ (i : ℕ) (hits : List ChunkHit), results[i]? = some hits →
    ∃ hits', results'[i]? = some hits' ∧ hits ⊆ hits'

theorem HasHits.extend (h : HasHits results id p n) (he : Extends results results') :
    HasHits results' id p n := by
  obtain ⟨chunks,hn,hall⟩ := h
  refine ⟨chunks,hn,fun i hi => ?_⟩
  obtain ⟨hits,hhits,hit,hmem,hrest⟩ := hall i hi
  obtain ⟨hits',hhits',hsub⟩ := he i hits hhits
  exact ⟨hits',hhits',hit,hsub hmem,hrest⟩

theorem Meets.extend {filenames' identical' : List Uuid} {rule : Rule}
    (h : Meets dense bm25 filenames identical id rule) (hd : Extends dense dense')
    (hb : Extends bm25 bm25') (hf : filenames ⊆ filenames') (hi : identical ⊆ identical') :
    Meets dense' bm25' filenames' identical' id rule := by
  cases rule with
  | identicalText => exact hi h
  | filenameFamily => exact hf h
  | cosineStrong => exact HasHits.extend h hd
  | cosineMulti => exact ⟨h.1.extend hd,h.2.extend hd⟩
  | bm25Repeated => exact HasHits.extend h hb

/-- The candidate rules: exactly the documents that meet a rule, with the reasons of these rules,
in order of score and identity; the order of the hits of a chunk does not matter, and more hits or
matches only add. -/
theorem candidate_rules
    (h : evaluateCandidates dense bm25 filenames identical sources = .ok found) :
    (found.map (·.documentId)).Nodup ∧
    (∀ id, id ∈ found.map (·.documentId) ↔ id ∈ identical ∨ id ∈ filenames ∨
      HasHits dense id (fun h => nearest (86 / 100) ≤ h.score) 1 ∨
      HasHits dense id (fun h => nearest (72 / 100) ≤ h.score) 2 ∨
      HasHits bm25 id (fun h => h.rank ≤ 3) 3) ∧
    (∀ x ∈ found, x.reasons.Nodup ∧ ∀ code, code ∈ x.reasons ↔ ∃ rule : Rule, rule.code = code ∧
      Meets dense bm25 filenames identical x.documentId rule) ∧
    (found.Pairwise fun a b => b.fusedScore < a.fusedScore ∨
      (a.fusedScore = b.fusedScore ∧ a.documentId < b.documentId)) ∧
    (∀ dense' bm25', SameHits dense dense' → SameHits bm25 bm25' →
      DistinctRanks (dense ++ bm25) → ∃ found',
        evaluateCandidates dense' bm25' filenames identical sources = .ok found' ∧
        found'.map withoutPairs = found.map withoutPairs) ∧
    ∀ dense' bm25' filenames' identical' sources' found', Extends dense dense' →
      Extends bm25 bm25' → filenames ⊆ filenames' → identical ⊆ identical' →
      evaluateCandidates dense' bm25' filenames' identical' sources' = .ok found' →
      ∀ x ∈ found, ∃ x' ∈ found', x'.documentId = x.documentId ∧ x.reasons ⊆ x'.reasons := by
  have qualified : ∀ id, id ∈ found.map (·.documentId) ↔
      id ∈ qualifiedIds dense bm25 filenames identical := by
    intro id
    rw [List.mem_map]
    constructor
    · rintro ⟨x,hx,rfl⟩
      obtain ⟨i,hi,rfl⟩ := (mem_found h).1 hx
      exact hi
    · exact fun hid => ⟨_,(mem_found h).2 ⟨id,hid,rfl⟩,rfl⟩
  refine ⟨nodup_found h,fun id => ?_,fun x hx => ?_,found_ordered h,
    fun dense' bm25' hd hb hn => hd.evaluateCandidates hb hn h,?_⟩
  · rw [qualified, mem_qualifiedIds, meets_iff]
  · obtain ⟨id,-,rfl⟩ := (mem_found h).1 hx
    exact ⟨candidateReasons_valid.2,fun code => mem_candidateReasons⟩
  · intro dense' bm25' filenames' identical' sources' found' hd hb hf hi h' x hx
    obtain ⟨id,hid,rfl⟩ := (mem_found h).1 hx
    obtain ⟨rule,hmeets⟩ := mem_qualifiedIds.1 hid
    refine ⟨_,(mem_found h').2 ⟨id,mem_qualifiedIds.2 ⟨rule,hmeets.extend hd hb hf hi⟩,rfl⟩,rfl,?_⟩
    intro code hcode
    obtain ⟨rule',hcode',hmeets'⟩ := mem_candidateReasons.1 hcode
    exact mem_candidateReasons.2 ⟨rule',hcode',hmeets'.extend hd hb hf hi⟩

/-- Moderate hits of one document for two chunks. -/
def moderateHits : List (List ChunkHit) :=
  [[⟨uuid4 1 0,.active,⟨uuid4 1 0,uuid4 1 1,0,⟨""⟩⟩,73 / 100,1⟩],
    [⟨uuid4 1 0,.active,⟨uuid4 1 0,uuid4 1 1,1,⟨""⟩⟩,74 / 100,1⟩]]

/-- One document with two moderate hits, and one that only its file name matches. -/
theorem candidate_rules_moderate : ∃ found : List DeterministicCandidate,
    found.map (fun x => (x.documentId,x.reasons)) =
      [(uuid4 1 0,[ruleCosineMulti]),(uuid4 2 0,[ruleFilenameFamily])] ∧
    (found.map (·.documentId)).Nodup := by
  have hrun : evaluateCandidates moderateHits [] [uuid4 2 0] []
      [(uuid4 1 0,.active),(uuid4 2 0,.screening)] = .ok ([uuid4 1 0,uuid4 2 0].map
        (candidateOf moderateHits [] [uuid4 2 0] []
          [(uuid4 1 0,.active),(uuid4 2 0,.screening)])) := by decide +kernel
  exact ⟨_,by decide +kernel,(candidate_rules hrun).1⟩

end Candidates
end PdfBridge
