import PdfBridge.Lifecycle.Queue

/-! What monitoring reads off the catalog: every operation can be polled, and the aggregate metrics
count exactly the unfinished work. -/
namespace PdfBridge
namespace Lifecycle
open Worker Api Intake Monitoring Grouping

variable {s : Settings} {enc : Encoding} {w w' : World} {now : Time} {c : Catalog}
  {d : Document} {o : WorkOperation} {P : World → Event → Prop} {g : MetricKey × List WorkOperation}
  {r : MetricRow} {b : OperationMetricBucket} {gs : List (MetricKey × List WorkOperation)}
  {buckets : List OperationMetricBucket}

/-! ### Polling -/

theorem safeFailure_isSome {code : Option FailureCode} {message fallback : Option (Text 500)}
    {retryable required : Bool} {phase : Option OperationPhase} {x : Option SanitizedFailure}
    (h : Api.safeFailure code message retryable phase required fallback = .ok x) :
    x.isSome = code.isSome := by
  unfold Api.safeFailure at h
  cases code with
  | none =>
    simp only at h
    split at h
    · cases h
    · cases h
      rfl
  | some code =>
    simp only at h
    split at h
    · cases h
    · cases h
      rfl

/-- A failure code stands in the row of a failed operation and in no other one. -/
theorem RowValid.failure (h : RowValid o) : (o.failureCode.isSome = true ↔ o.state = .failed) ∧
    o.failureMessage.isSome = o.failureCode.isSome := by
  have hshape := h.shape
  unfold RowShape at hshape
  cases hs : o.state with
  | queued =>
    rw [hs] at hshape
    obtain ⟨-,-,-,hcode,hmessage⟩ := hshape
    simp [hcode, hmessage]
  | running =>
    rw [hs] at hshape
    obtain ⟨-,-,-,-,hcode,hmessage⟩ := hshape
    simp [hcode, hmessage]
  | succeeded =>
    rw [hs] at hshape
    obtain ⟨-,-,-,-,hcode,hmessage,-⟩ := hshape
    simp [hcode, hmessage]
  | failed =>
    rw [hs] at hshape
    obtain ⟨-,-,-,-,hcode,hmessage⟩ := hshape
    simp [hcode, hmessage]
  | cancelled =>
    rw [hs] at hshape
    exact hshape.elim

theorem RowValid.detail_ok (h : RowValid o) {id : Uuid} (hvalid : OperationValid id o)
    (position : Option ℕ) (hposition : ∀ n, position = some n → 1 ≤ n) (now : Time) :
    ∃ x, operationDetail o position now = .ok x ∧ x.summary.id = o.id ∧
      x.summary.state = o.state ∧ x.queuePosition = position ∧
      (x.failure.isSome = true ↔ o.state = .failed) := by
  obtain ⟨hcode,hmessage⟩ := h.failure
  have hfailure : ∃ f, Api.safeFailure o.failureCode o.failureMessage o.retryable (some o.phase)
      (o.state = .failed) none = .ok f := by
    apply safeFailure_ok
    · intro hnone
      rw [hnone] at hcode hmessage
      refine ⟨decide_eq_false fun hs => ?_,Option.isNone_iff_eq_none.1 ?_⟩
      · cases hcode.2 hs
      · rw [← Option.not_isSome, hmessage]
        rfl
    · intro hsome
      rw [Option.or_none, hmessage]
      exact hsome
  obtain ⟨f,hf⟩ := hfailure
  obtain ⟨x,hx⟩ := hvalid.summary_ok
  have hsome : f.isSome = true ↔ o.state = .failed := by
    rw [safeFailure_isSome hf]
    exact hcode
  have hall : position.all (1 ≤ ·) = true := by
    cases position with
    | none => rfl
    | some n => exact decide_eq_true (hposition n rfl)
  refine ⟨⟨x,o.documentId,o.preparedRevisionId,o.replacementTargetDocumentId,position,
    ageSeconds now o.createdAt,ageSeconds now o.phaseStartedAt,o.startedAt,f⟩,?_,?_,?_,rfl,hsome⟩
  · simp only [operationDetail, bind_eq_ok, require_eq_ok, exists_const, pure_eq_ok]
    exact ⟨f,hf,x,hx,hall,hsome.2,rfl⟩
  · simp only [operationSummary, bind_eq_ok, orRaise_eq_ok, require_eq_ok, exists_const,
      pure_eq_ok] at hx
    obtain ⟨_,-,-,rfl⟩ := hx
    rfl
  · simp only [operationSummary, bind_eq_ok, orRaise_eq_ok, require_eq_ok, exists_const,
      pure_eq_ok] at hx
    obtain ⟨_,-,-,rfl⟩ := hx
    rfl

theorem OperationsApart.find? (h : OperationsApart c) (ho : o ∈ c.operations) :
    c.operations.find? (fun p => p.id = o.id) = some o := by
  cases hfind : c.operations.find? (fun p => p.id = o.id) with
  | none =>
    have hnone := List.find?_eq_none.1 hfind o ho
    simp at hnone
  | some p =>
    have htest := List.find?_some hfind
    have hid : p.id = o.id := of_decide_eq_true htest
    rw [List.inj_on_of_nodup_map h.nodup (List.mem_of_find?_eq_some hfind) ho hid]

/-- Every operation of a reachable catalog can be polled. The view is never refused; it has a queue
position exactly while the operation is queued and a failure exactly when it has failed. -/
theorem operations_polled (h : Reachable s enc w) (ho : o ∈ w.shared.catalog.operations)
    (now : Time) : ∃ x, getOperation s w.shared.catalog o.id now = .ok x ∧
      x.summary.id = o.id ∧ x.summary.state = o.state ∧
      (x.queuePosition.isSome = true ↔ o.state = .queued) ∧
      (x.failure.isSome = true ↔ o.state = .failed) := by
  obtain ⟨d,hd,hmem⟩ := Catalog.mem_operations.1 ho
  have hinv := h.catalog.documents d hd
  have hvalid := hinv.operations.valid o hmem
  have hposition : ∀ n, queuePosition w.shared.catalog o = some n → 1 ≤ n := by
    intro n hn
    unfold queuePosition at hn
    split at hn
    · cases hn
      exact Nat.le_add_left 1 _
    · cases hn
  obtain ⟨x,hx,hid,hstate,hqueue,hfailure⟩ :=
    (h.rowValid hd hmem).detail_ok hvalid _ hposition now
  refine ⟨x,?_,hid,hstate,?_,hfailure⟩
  · simp only [getOperation, bind_eq_ok, orRaise_eq_ok, require_eq_ok, exists_const]
    refine ⟨o,h.operationsApart.find? ho,d,?_,hinv.intake.collection,hx⟩
    rw [hvalid.document]
    exact Catalog.document?_of_mem hd
  · rw [hqueue]
    unfold queuePosition
    split
    · rename_i hs
      simp [hs]
    · rename_i hs
      simp [hs]

theorem operations_polled_waiting : ∃ (w : World) (o : WorkOperation) (x : OperationDetail),
    o ∈ w.shared.catalog.operations ∧ o.state = .queued ∧
    getOperation booksSettings w.shared.catalog o.id 100 = .ok x ∧
    x.queuePosition.isSome = true ∧ x.failure.isSome = false := by
  obtain ⟨w,hw,ht⟩ := play_any booksSettings plainEncoding (fun _ _ => True) waiting
    (fun w => w.shared.catalog.operations.any (·.state = .queued)) (fun _ _ _ => trivial)
    (fun _ _ _ => trivial) (by decide +kernel)
  obtain ⟨o,ho,hqueued⟩ := List.any_eq_true.1 ht
  have hqueued : o.state = .queued := of_decide_eq_true hqueued
  obtain ⟨x,hx,-,-,hposition,hfailure⟩ := operations_polled hw ho 100
  refine ⟨w,o,x,ho,hqueued,hx,hposition.2 hqueued,?_⟩
  rw [Bool.eq_false_iff, ne_eq, hfailure, hqueued]
  exact fun he => by cases he

/-! ### The measured operations -/

/-- Every document is in an enabled collection, so that no work is left out. -/
theorem ReachableBy.measured (h : ReachableBy s enc P w) :
    measuredOperations ((s.collections.filter (·.enabled)).map (·.key)) w.shared.catalog =
      w.shared.catalog.operations.filter unfinished := by
  have hall : w.shared.catalog.documents.rows.filter (fun d =>
      d.intake.collectionKey ∈ (s.collections.filter (·.enabled)).map (·.key)) =
      w.shared.catalog.documents.rows := by
    rw [List.filter_eq_self]
    intro d hd
    obtain ⟨definition,hfound⟩ := Option.isSome_iff_exists.1
      (h.catalog.documents d hd).intake.collection
    have hmem := Settings.enabledCollection?_mem hfound
    have htest := List.find?_some hfound
    rw [Bool.and_eq_true, decide_eq_true_eq] at htest
    apply decide_eq_true
    exact List.mem_map.2 ⟨definition,List.mem_filter.2 ⟨hmem,htest.2⟩,htest.1⟩
  unfold measuredOperations Catalog.operations
  rw [hall, List.filter_flatMap]

/-! ### Buckets -/

/-- The bucket that a group is counted in. -/
structure Bucketed (now : Time) (g : MetricKey × List WorkOperation)
    (b : OperationMetricBucket) : Prop where
  key : (b.operationType,b.state,b.phase) = g.1
  count : b.count = g.2.length
  age : ∃ o ∈ g.2, b.oldestOperationAgeSeconds = ageSeconds now o.createdAt ∧
    ∀ o' ∈ g.2, ageSeconds now o'.createdAt ≤ b.oldestOperationAgeSeconds

theorem min?_of_ne_nil {xs : List ℕ} (h : xs ≠ []) : ∃ n, xs.min? = some n := by
  cases hmin : xs.min? with
  | none => exact absurd (List.min?_eq_none_iff.1 hmin) h
  | some n => exact ⟨n,rfl⟩

/-- A group that is not empty gives a row and a bucket. -/
theorem bucketed (now : Time) (h : g.2 ≠ []) :
    ∃ r b, metricRow g = some r ∧ metricBucket now r = .ok b ∧ Bucketed now g b := by
  have hcreated : g.2.map (·.createdAt) ≠ [] := fun he => h (List.map_eq_nil_iff.1 he)
  have hstarted : g.2.map (·.phaseStartedAt) ≠ [] := fun he => h (List.map_eq_nil_iff.1 he)
  obtain ⟨t,ht⟩ := min?_of_ne_nil hcreated
  obtain ⟨t',ht'⟩ := min?_of_ne_nil hstarted
  refine ⟨⟨g.1,g.2.length,t,t'⟩,⟨g.1.1,g.1.2.1,g.1.2.2,g.2.length,ageSeconds now t,
    ageSeconds now t'⟩,?_,?_,rfl,rfl,?_⟩
  · simp [metricRow, ht, ht']
  · simp only [metricBucket, bind_eq_ok, require_eq_ok, exists_const, pure_eq_ok]
    exact ⟨List.length_pos_iff.2 h,trivial⟩
  · obtain ⟨hmem,hle⟩ := List.min?_eq_some_iff.1 ht
    obtain ⟨o,ho,rfl⟩ := List.mem_map.1 hmem
    refine ⟨o,ho,rfl,fun o' ho' => ?_⟩
    exact Nat.sub_le_sub_left (hle _ (List.mem_map_of_mem ho')) now

theorem buckets_ok (now : Time) (h : ∀ g ∈ gs, g.2 ≠ []) :
    ∃ buckets, (gs.filterMap metricRow).mapM (metricBucket now) = .ok buckets ∧
      List.Forall₂ (Bucketed now) gs buckets := by
  induction gs with
  | nil => exact ⟨[],rfl,List.Forall₂.nil⟩
  | cons g gs ih =>
    obtain ⟨r,b,hr,hb,hbucketed⟩ := bucketed now (h g List.mem_cons_self)
    obtain ⟨buckets,hbuckets,hall⟩ := ih fun g' hg' => h g' (List.mem_cons_of_mem _ hg')
    refine ⟨b :: buckets,?_,List.Forall₂.cons hbucketed hall⟩
    rw [List.filterMap_cons_some hr, List.mapM_cons, hb, hbuckets]
    rfl

/-- The buckets of a kind of key sum up the groups of that kind. -/
theorem sum_buckets (h : List.Forall₂ (Bucketed now) gs buckets) (p : MetricKey → Bool) :
    ((buckets.filter fun b => p (b.operationType,b.state,b.phase)).map (·.count)).sum =
      ((gs.filter fun g => p g.1).map fun g => g.2.length).sum := by
  induction h with
  | nil => rfl
  | @cons g b gs buckets hb _ ih =>
    rw [List.filter_cons, List.filter_cons, hb.key]
    split
    · rw [List.map_cons, List.map_cons, List.sum_cons, List.sum_cons, ih, hb.count]
    · exact ih

theorem bucket_keys (h : List.Forall₂ (Bucketed now) gs buckets) :
    buckets.map (fun b => (b.operationType,b.state,b.phase)) = gs.map Prod.fst := by
  induction h with
  | nil => rfl
  | cons hb _ ih => rw [List.map_cons, List.map_cons, hb.key, ih]

/-! ### The bound of the response -/

def operationPhases : List OperationPhase :=
  [.queued,.extracting,.checkingEligibility,.packingFormatterBatches,.formattingMarkdown,
    .validatingMarkdown,.chunkingMarkdown,.embeddingDense,.embeddingSparse,
    .upsertingScreeningPoints,.discoveringCandidates,.classifyingCandidates,.sealingRevision,
    .awaitingDecision,.upsertActivePoints,.verifyActivePoints,.removeScreeningPoints,
    .verifyScreeningRemoval,.deletion .deleteActivePoints,.deletion .verifyActiveZero,
    .deletion .deleteScreeningPoints,.deletion .verifyScreeningZero,.deletion .purgeStorage,
    .deletion .commitTombstone,.complete]

theorem mem_operationPhases (phase : OperationPhase) : phase ∈ operationPhases := by
  cases phase with
  | deletion phase => cases phase <;> decide
  | _ => decide

/-- The keys that unfinished work can have. -/
def unfinishedKeys : List MetricKey :=
  [OperationType.preflight,.publish,.delete].flatMap fun type =>
    [OperationState.queued,.running,.failed].flatMap fun state =>
      (operationPhases.filter (allowedPhase type true)).map fun phase => (type,state,phase)

theorem length_unfinishedKeys : unfinishedKeys.length = 93 := by decide

theorem allowedPhase_true {type : OperationType} {replacement : Bool} {phase : OperationPhase}
    (h : allowedPhase type replacement phase = true) : allowedPhase type true phase = true := by
  cases replacement with
  | true => exact h
  | false => exact allowedPhase_of_false h

theorem unfinished_iff : unfinished o = true ↔
    o.state = .queued ∨ o.state = .running ∨ o.state = .failed := by
  unfold unfinished
  rw [decide_eq_true_eq]
  simp only [List.mem_cons, List.not_mem_nil, or_false]

theorem metricKey_mem {id : Uuid} (h : OperationValid id o) (hu : unfinished o = true) :
    metricKey o ∈ unfinishedKeys := by
  have hstate := unfinished_iff.1 hu
  have hphase : allowedPhase o.operationType true o.phase = true := by
    apply allowedPhase_true (h.phase _)
    rcases hstate with hs | hs | hs <;> rw [hs] <;> exact fun he => by cases he
  unfold unfinishedKeys metricKey
  simp only [List.mem_flatMap, List.mem_map]
  refine ⟨o.operationType,?_,o.state,?_,o.phase,
    List.mem_filter.2 ⟨mem_operationPhases o.phase,hphase⟩,rfl⟩
  · cases o.operationType <;> decide
  · rcases hstate with hs | hs | hs <;> rw [hs] <;> decide

/-! ### The metrics -/

theorem countP_unfinished {p : WorkOperation → Bool} (hp : ∀ o, p o = true → unfinished o = true) :
    (c.operations.filter unfinished).countP p = c.operations.countP p := by
  rw [List.countP_filter]
  apply List.countP_congr
  intro o _
  rw [Bool.and_eq_true]
  exact ⟨fun h => h.1,fun h => ⟨h,hp o h⟩⟩

theorem exists_of_mem_right {α β : Type} {R : α → β → Prop} {xs : List α} {ys : List β} {y : β}
    (h : List.Forall₂ R xs ys) (hy : y ∈ ys) : ∃ x ∈ xs, R x y := by
  induction h with
  | nil => cases hy
  | @cons x y' xs ys hr _ ih =>
    rcases List.mem_cons.1 hy with rfl | hy
    · exact ⟨x,List.mem_cons_self,hr⟩
    · obtain ⟨x',hx',hr'⟩ := ih hy
      exact ⟨x',List.mem_cons_of_mem _ hx',hr'⟩

/-- The buckets of the unfinished operations of a catalog. -/
structure Counted (now : Time) (c : Catalog) (gs : List (MetricKey × List WorkOperation))
    (buckets : List OperationMetricBucket) : Prop where
  groups : gs.Perm (groups metricKey (c.operations.filter unfinished))
  bucketed : List.Forall₂ (Bucketed now) gs buckets

theorem Counted.mem_group (h : Counted now c gs buckets) (hg : g ∈ gs) (ho : o ∈ g.2) :
    metricKey o = g.1 ∧ o ∈ c.operations ∧ unfinished o = true := by
  rw [(mem_groups.1 (h.groups.mem_iff.1 hg)).2] at ho
  obtain ⟨ho,hkey⟩ := List.mem_filter.1 ho
  exact ⟨of_decide_eq_true hkey,List.mem_filter.1 ho⟩

/-- A bucket counts operations, all of its kind. -/
theorem Counted.of_bucket (h : Counted now c gs buckets) (hb : b ∈ buckets) :
    ∃ g ∈ gs, Bucketed now g b ∧ ∃ o ∈ g.2, metricKey o = (b.operationType,b.state,b.phase) := by
  obtain ⟨g,hg,hbucketed⟩ := exists_of_mem_right h.bucketed hb
  obtain ⟨o,ho,-⟩ := hbucketed.age
  exact ⟨g,hg,hbucketed,o,ho,(h.mem_group hg ho).1.trans hbucketed.key.symm⟩

theorem state_of_metricKey (h : metricKey o = (b.operationType,b.state,b.phase)) :
    o.state = b.state := congrArg (fun k : MetricKey => k.2.1) h

/-- Every unfinished operation is counted in the bucket of its kind. -/
theorem Counted.of_operation (h : Counted now c gs buckets) (ho : o ∈ c.operations)
    (hu : unfinished o = true) : ∃ b ∈ buckets,
      metricKey o = (b.operationType,b.state,b.phase) ∧
      b.count = c.operations.countP (fun p => metricKey p = metricKey o) ∧
      ageSeconds now o.createdAt ≤ b.oldestOperationAgeSeconds := by
  have hmem := List.mem_filter.2 ⟨ho,hu⟩
  have hg := h.groups.mem_iff.2 (mem_groups.2 ⟨⟨o,hmem,rfl⟩,rfl⟩)
  obtain ⟨b,hb,hbucketed⟩ := exists_of_mem_right h.bucketed.flip hg
  obtain ⟨-,-,-,hage⟩ := hbucketed.age
  refine ⟨b,hb,hbucketed.key.symm,?_,hage o (List.mem_filter.2 ⟨hmem,decide_eq_true rfl⟩)⟩
  rw [hbucketed.count, ← List.countP_eq_length_filter]
  apply countP_unfinished
  intro p hp
  have hstate : p.state = o.state :=
    congrArg (fun k : MetricKey => k.2.1) (of_decide_eq_true hp)
  rw [unfinished_iff, hstate]
  exact unfinished_iff.1 hu

theorem Counted.bucket_unfinished (h : Counted now c gs buckets) (hb : b ∈ buckets) :
    b.state = .queued ∨ b.state = .running ∨ b.state = .failed := by
  obtain ⟨g,hg,-,o,ho,hkey⟩ := h.of_bucket hb
  rw [← state_of_metricKey hkey]
  exact unfinished_iff.1 (h.mem_group hg ho).2.2

theorem Counted.count_state (h : Counted now c gs buckets) {state : OperationState}
    (hstate : ∀ o : WorkOperation, o.state = state → unfinished o = true) :
    stateCount buckets state = c.operations.countP fun o => o.state = state := by
  unfold stateCount
  rw [sum_buckets h.bucketed fun k => decide (k.2.1 = state),
    ((h.groups.filter _).map _).sum_eq, sum_groups fun k : MetricKey => decide (k.2.1 = state)]
  exact countP_unfinished fun o ho => hstate o (of_decide_eq_true ho)

theorem Counted.nodup (h : Counted now c gs buckets) :
    (buckets.map fun b => (b.operationType,b.state,b.phase)).Nodup := by
  rw [bucket_keys h.bucketed]
  exact ((h.groups.map Prod.fst).nodup_iff).2 nodup_keys

/-- There are no more buckets than kinds of unfinished work. -/
theorem Counted.length_le (h : Counted now c gs buckets)
    (hvalid : ∀ o ∈ c.operations, ∃ id, OperationValid id o) : buckets.length ≤ 93 := by
  have hsubset : buckets.map (fun b => (b.operationType,b.state,b.phase)) ⊆ unfinishedKeys := by
    intro k hk
    obtain ⟨b,hb,rfl⟩ := List.mem_map.1 hk
    obtain ⟨g,hg,-,o,ho,hkey⟩ := h.of_bucket hb
    obtain ⟨-,hlisted,hu⟩ := h.mem_group hg ho
    obtain ⟨id,hid⟩ := hvalid o hlisted
    rw [← hkey]
    exact metricKey_mem hid hu
  have hle := (List.subperm_of_subset h.nodup hsubset).length_le
  rwa [List.length_map, length_unfinishedKeys] at hle

/-- The greatest age of the queued buckets is that of the oldest queued operation. -/
theorem Counted.oldest_queued (h : Counted now c gs buckets) :
    ((buckets.filter fun b => b.state = .queued).map (·.oldestOperationAgeSeconds)).max? =
      ((queuedOperations c).map fun o => ageSeconds now o.createdAt).max? := by
  -- a queued bucket has the age of a queued operation
  have hbucket : ∀ b ∈ buckets, b.state = .queued → ∃ o ∈ queuedOperations c,
      b.oldestOperationAgeSeconds = ageSeconds now o.createdAt := by
    intro b hb hstate
    obtain ⟨g,hg,hbucketed⟩ := exists_of_mem_right h.bucketed hb
    obtain ⟨o,ho,hage,-⟩ := hbucketed.age
    obtain ⟨hkey,hlisted,-⟩ := h.mem_group hg ho
    have hqueued := (state_of_metricKey (hkey.trans hbucketed.key.symm)).trans hstate
    exact ⟨o,mem_queuedOperations.2 ⟨hlisted,hqueued⟩,hage⟩
  cases hmax : ((queuedOperations c).map fun o => ageSeconds now o.createdAt).max? with
  | none =>
    have hempty := List.map_eq_nil_iff.1 (List.max?_eq_none_iff.1 hmax)
    rw [List.max?_eq_none_iff, List.map_eq_nil_iff, List.filter_eq_nil_iff]
    intro b hb hstate
    obtain ⟨o,ho,-⟩ := hbucket b hb (of_decide_eq_true hstate)
    rw [hempty] at ho
    cases ho
  | some age =>
    obtain ⟨hmem,hle⟩ := List.max?_eq_some_iff.1 hmax
    obtain ⟨o,ho,rfl⟩ := List.mem_map.1 hmem
    have hlower : ∀ b ∈ buckets, b.state = .queued →
        b.oldestOperationAgeSeconds ≤ ageSeconds now o.createdAt := by
      intro b hb hstate
      obtain ⟨o',ho',hage⟩ := hbucket b hb hstate
      rw [hage]
      exact hle _ (List.mem_map_of_mem ho')
    obtain ⟨hlisted,hqueued⟩ := mem_queuedOperations.1 ho
    obtain ⟨b,hb,hkey,-,hupper⟩ := h.of_operation hlisted (unfinished_iff.2 (Or.inl hqueued))
    have hstate : b.state = .queued := (state_of_metricKey hkey).symm.trans hqueued
    rw [List.max?_eq_some_iff]
    constructor
    · rw [le_antisymm hupper (hlower b hb hstate)]
      exact List.mem_map_of_mem (List.mem_filter.2 ⟨hb,decide_eq_true hstate⟩)
    · intro n hn
      obtain ⟨b',hb',rfl⟩ := List.mem_map.1 hn
      obtain ⟨hb',hstate'⟩ := List.mem_filter.1 hb'
      exact hlower b' hb' (of_decide_eq_true hstate')

theorem sum_states (h : ∀ b ∈ buckets, b.state = .queued ∨ b.state = .running ∨
    b.state = .failed) : (buckets.map (·.count)).sum = stateCount buckets .queued +
      stateCount buckets .running + stateCount buckets .failed := by
  induction buckets with
  | nil => rfl
  | cons b buckets ih =>
    have ih := ih fun b' hb' => h b' (List.mem_cons_of_mem _ hb')
    unfold stateCount at ih ⊢
    rw [List.map_cons, List.sum_cons, ih]
    rcases h b List.mem_cons_self with hs | hs | hs <;>
      simp only [List.filter_cons, hs, decide_true, reduceCtorEq, decide_false, if_true,
        Bool.false_eq_true, if_false, List.map_cons, List.sum_cons] <;> omega

/-- The response that is composed of the buckets. -/
def metricsOf (now : Time) (buckets : List OperationMetricBucket) : OperationMetricsResponse :=
  ⟨now,(buckets.map (·.count)).sum,stateCount buckets .queued,stateCount buckets .running,
    stateCount buckets .failed,
    ((buckets.filter fun b => b.state = .queued).map (·.oldestOperationAgeSeconds)).max?,buckets⟩

theorem Counted.valid (h : Counted now c gs buckets) (hlength : buckets.length ≤ 93) :
    metricsValid (metricsOf now buckets) = true := by
  have hqueued := h.count_state fun o ho => unfinished_iff.2 (Or.inl ho)
  have hnone : (stateCount buckets .queued = 0) = (((buckets.filter fun b =>
      b.state = .queued).map (·.oldestOperationAgeSeconds)).max?.isNone = true) := by
    rw [h.oldest_queued, hqueued, List.countP_eq_length_filter, Option.isNone_iff_eq_none,
      List.max?_eq_none_iff, List.map_eq_nil_iff, List.length_eq_zero_iff]
    rfl
  have hbound : buckets.length ≤ 100 := hlength.trans (by omega)
  simp only [metricsValid, metricsOf, hnone, hbound, decide_true, Bool.and_self]

theorem ReachableBy.counted (h : ReachableBy s enc P w) (now : Time) : ∃ gs buckets,
    operationMetrics s.collections now w.shared.catalog =
      (require (metricsValid (metricsOf now buckets) = true) .validation >>= fun _ =>
        pure (metricsOf now buckets)) ∧ Counted now w.shared.catalog gs buckets := by
  have hperm := List.perm_insertionSort (fun g g' : MetricKey × List WorkOperation =>
    metricOrder g.1 ≤ metricOrder g'.1)
    (groups metricKey (w.shared.catalog.operations.filter unfinished))
  obtain ⟨buckets,hbuckets,hall⟩ := buckets_ok now fun g hg =>
    group_ne_nil (hperm.mem_iff.1 hg)
  refine ⟨_,buckets,?_,hperm,hall⟩
  unfold operationMetrics operationMetricRows
  simp only [h.measured, hbuckets]
  rfl

/-- In every reachable state the metrics are served, and they are exact: the totals count the
queued, running and failed operations of the whole catalog, every kind of work is counted in one
bucket, the greatest age is that of the oldest queued operation, and there are at most 93 buckets
however much work there is. -/
theorem metrics_exact (h : Reachable s enc w) (now : Time) :
    ∃ m, operationMetrics s.collections now w.shared.catalog = .ok m ∧
      m.queued = w.shared.catalog.operations.countP (fun o => o.state = .queued) ∧
      m.running = w.shared.catalog.operations.countP (fun o => o.state = .running) ∧
      m.failed = w.shared.catalog.operations.countP (fun o => o.state = .failed) ∧
      m.total = m.queued + m.running + m.failed ∧
      m.oldestQueuedAgeSeconds =
        ((queuedOperations w.shared.catalog).map fun o => ageSeconds now o.createdAt).max? ∧
      (∀ o, o ∈ w.shared.catalog.operations → unfinished o = true →
        ∃ b ∈ m.buckets, metricKey o = (b.operationType,b.state,b.phase) ∧
          b.count = w.shared.catalog.operations.countP fun p => metricKey p = metricKey o) ∧
      (m.buckets.map fun b => (b.operationType,b.state,b.phase)).Nodup ∧
      m.buckets.length ≤ 93 := by
  obtain ⟨gs,buckets,hmetrics,hcounted⟩ := h.counted now
  have hlength : buckets.length ≤ 93 := hcounted.length_le fun o ho => by
    obtain ⟨d,hd,hod⟩ := Catalog.mem_operations.1 ho
    exact ⟨d.id,(h.catalog.documents d hd).operations.valid o hod⟩
  refine ⟨metricsOf now buckets,?_,?_,?_,?_,?_,hcounted.oldest_queued,?_,hcounted.nodup,hlength⟩
  · rw [hmetrics]
    simp only [bind_eq_ok, require_eq_ok, exists_const, pure_eq_ok]
    exact ⟨hcounted.valid hlength,trivial⟩
  · exact hcounted.count_state fun o ho => unfinished_iff.2 (Or.inl ho)
  · exact hcounted.count_state fun o ho => unfinished_iff.2 (Or.inr (Or.inl ho))
  · exact hcounted.count_state fun o ho => unfinished_iff.2 (Or.inr (Or.inr ho))
  · exact sum_states fun b hb => hcounted.bucket_unfinished hb
  · intro o ho hu
    obtain ⟨b,hb,hkey,hcount,-⟩ := hcounted.of_operation ho hu
    exact ⟨b,hb,hkey,hcount⟩

theorem metrics_exact_waiting : ∃ (w : World) (m : OperationMetricsResponse),
    operationMetrics booksSettings.collections 100 w.shared.catalog = .ok m ∧ m.queued = 2 ∧
    m.total = 2 := by
  obtain ⟨w,hw,ht⟩ := play_any booksSettings plainEncoding (fun _ _ => True) waiting
    (fun w => w.shared.catalog.operations.countP (fun o => o.state = .queued) = 2 &&
      w.shared.catalog.operations.countP (fun o => o.state = .running) = 0 &&
      w.shared.catalog.operations.countP (fun o => o.state = .failed) = 0)
    (fun _ _ _ => trivial) (fun _ _ _ => trivial) (by decide +kernel)
  simp only [Bool.and_eq_true, decide_eq_true_eq] at ht
  obtain ⟨⟨hqueued,hrunning⟩,hfailed⟩ := ht
  obtain ⟨m,hm,hq,hr,hf,htotal,-⟩ := metrics_exact hw 100
  refine ⟨w,m,hm,hq.trans hqueued,?_⟩
  rw [htotal, hq, hr, hf, hqueued, hrunning, hfailed]

end Lifecycle
end PdfBridge
