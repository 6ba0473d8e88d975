import PdfBridge.Lifecycle.Ownership
import PdfBridge.Lifecycle.Queue
import PdfBridge.Lifecycle.SearchResults

/-! The constraints of the schema: what the tables of the lifecycle declare to the database holds of
every reachable catalog, although no transaction of the model checks it. -/
namespace PdfBridge
namespace Lifecycle
open Api Intake

variable {s : Settings} {enc : Encoding} {rejects : FailureCode → Prop} {w : World} {now : Time}
  {c : Catalog} {d d' : Document} {o o' : WorkOperation} {P : World → Event → Prop}

/-! ### CHECK constraints -/

/-- `documents`. -/
structure DocumentChecks (d : Document) : Prop where
  sizeBytesPositive : 0 < d.intake.sizeBytes
  terminalDispositionMatchesState :
    ((d.state = .deleting ∨ d.state = .deleteFailed) ∧ d.terminalDisposition.isSome = true) ∨
    (terminalState d.state = true ∧ d.terminalDisposition.map (·.toState) = some d.state) ∨
    (deletionState d.state = false ∧ d.terminalDisposition = none)
  terminalDocumentHasNoSource : terminalState d.state = true → d.storageKey = none

/-- `prepared_revisions`. -/
structure RevisionChecks (r : PreparedRevision) : Prop where
  revisionNumberPositive : 1 ≤ r.revisionNumber
  sealedManifestComplete : r.status = .sealed → r.manifestSha256.isSome = true ∧
    r.sealedAt.isSome = true ∧ r.pageCount.isSome = true ∧ r.chunkCount.isSome = true ∧
    r.expectedPointCount = r.chunkCount

/-- `decisions`. -/
def replacementTargetMatchesAction (x : Decision) : Prop :=
  (x.action = .replace ∧ x.targetDocumentId.isSome = true) ∨
    ((x.action = .keep ∨ x.action = .cancel) ∧ x.targetDocumentId = none)

/-- `publication_records`. -/
def verifiedPublicationComplete (p : PublicationRecord) : Prop :=
  p.status = .verified → p.verifiedPoints = some p.expectedPoints ∧
    p.payloadRevisionVerified = true ∧ p.vectorSchemaVerified = true ∧
    p.screeningZeroVerified = true ∧ p.verifiedAt.isSome = true

/-- `deletion_progress`. -/
def physicalTargetsDistinct (p : DeletionProgress) : Prop :=
  p.activeQdrantCollection ≠ p.screeningQdrantCollection

/-- `work_operations`. -/
structure OperationChecks (o : WorkOperation) : Prop where
  attemptPositive : 1 ≤ o.attempt
  phaseStartedNotBeforeCreation : o.createdAt ≤ o.phaseStartedAt
  deletePriorityHigh : o.operationType = .delete → o.priority = 0

/-! ### The schema -/

/-- The constraints on single rows. -/
structure RowChecks (d : Document) : Prop where
  document : DocumentChecks d
  revisions : ∀ r, r ∈ d.preparedRevisions → RevisionChecks r
  decisions : ∀ x ∈ d.decisions, replacementTargetMatchesAction x
  publications : ∀ p, p ∈ d.publications → verifiedPublicationComplete p
  progress : ∀ p, d.deletionProgress = some p → physicalTargetsDistinct p
  operations : ∀ o, o ∈ d.operations → OperationChecks o

/-- The keys and unique columns: rows that share them are one row. -/
structure UniqueRows (c : Catalog) : Prop where
  storageKey : ∀ d, d ∈ c.documents → ∀ d', d' ∈ c.documents → d.storageKey.isSome = true →
    d.storageKey = d'.storageKey → d = d'
  revision : ∀ d, d ∈ c.documents → ∀ d', d' ∈ c.documents → ∀ r, r ∈ d.preparedRevisions →
    ∀ r', r' ∈ d'.preparedRevisions → r.id = r'.id ∨
      (d.id,r.revisionNumber) = (d'.id,r'.revisionNumber) → d = d' ∧ r = r'
  operation : ∀ d, d ∈ c.documents → ∀ d', d' ∈ c.documents → ∀ o, o ∈ d.operations →
    ∀ o', o' ∈ d'.operations → o.id = o'.id ∨ (o.documentId,o.operationType,o.attempt) =
      (o'.documentId,o'.operationType,o'.attempt) → d = d' ∧ o = o'
  decision : ∀ d, d ∈ c.documents → ∀ d', d' ∈ c.documents → ∀ x ∈ d.decisions,
    ∀ x' ∈ d'.decisions, x.id = x'.id ∨ x.preparedRevisionId = x'.preparedRevisionId →
      d = d' ∧ x = x'
  publication : ∀ d, d ∈ c.documents → ∀ d', d' ∈ c.documents → ∀ p, p ∈ d.publications →
    ∀ p', p' ∈ d'.publications → p.id = p'.id ∨ p.preparedRevisionId = p'.preparedRevisionId →
      d = d' ∧ p = p'

/-- The references to other rows. -/
structure ForeignKeys (c : Catalog) (d : Document) : Prop where
  replacedBy : ∀ id, d.replacedByDocumentId = some id → ∃ i, i ∈ c.documents ∧ i.id = id
  operation : ∀ o, o ∈ d.operations → o.documentId = d.id ∧
    ∀ id, o.replacementTargetDocumentId = some id → ∃ t, t ∈ c.documents ∧ t.id = id
  revision : ∀ o, o ∈ d.operations → o.operationType ≠ .preflight →
    ∀ id, o.preparedRevisionId = some id → ∃ r, r ∈ d.preparedRevisions ∧ r.id = id
  decision : ∀ x ∈ d.decisions,
    (∃ r, r ∈ d.preparedRevisions ∧ r.id = x.preparedRevisionId) ∧
    ∀ id, x.targetDocumentId = some id → ∃ t, t ∈ c.documents ∧ t.id = id
  publication : ∀ p, p ∈ d.publications →
    ∃ r, r ∈ d.preparedRevisions ∧ r.id = p.preparedRevisionId
  progress : ∀ p, d.deletionProgress = some p → ∀ id, p.preparedRevisionId = some id →
    ∃ r, r ∈ d.preparedRevisions ∧ r.id = id

/-! ### Row ids -/

def decisionIds (d : Document) : List Uuid := d.decisions.map (·.id)

def publicationIds (d : Document) : List Uuid := d.publications.rows.map (·.id)

theorem Change.decisionIds (hc : Change s rejects now d d') :
    Lifecycle.decisionIds d' = Lifecycle.decisionIds d ∨
      d.state = .reviewRequired ∧
        Lifecycle.decisionIds d' = Lifecycle.decisionIds d ++ [uuid4 now 0] := by
  cases hc with
  | @decide hstate r points x priority target hr hsealed hpoints hx hmanifest haction hpriority
      htarget hid =>
    refine Or.inr ⟨hstate,?_⟩
    show (d.decisions ++ [x]).map (·.id) = _
    rw [List.map_append, List.map_singleton, hid]
    rfl
  | @cancel hstate r x hr hsealed hx hmanifest haction p hp hdisposition hid =>
    refine Or.inr ⟨hstate,?_⟩
    show (d.decisions ++ [x]).map (·.id) = _
    rw [List.map_append, List.map_singleton, hid]
    rfl
  | fail ho hopen hs hfailed code message outbox =>
    apply Or.inl
    show (Worker.failDocument _ code message _ _).decisions.map (·.id) = _
    rw [(failDocument_remains _ code message _ _).2]
    rfl
  | _ => exact Or.inl rfl

theorem draws_decisions : Draws s rejects now decisionIds where
  arrive := fun x => List.nil_subset _
  touch := fun _ => List.Subset.refl _
  change := by
    intro d d' hc _ id hid
    rcases hc.decisionIds with he | ⟨-,he⟩
    · rw [he] at hid
      exact List.mem_cons_of_mem _ hid
    · rw [he] at hid
      exact List.mem_cons.2 ((List.mem_append.1 hid).symm.imp_left List.mem_singleton.1)
  replaced := by
    intro d d' hc h hr
    rcases hc.decisionIds with he | ⟨hstate,-⟩
    · rw [he]
      exact List.Subset.refl _
    · have hs := h.deletion_of_replaced hr
      rw [hstate] at hs
      cases hs
  yielded := fun owner => List.Subset.refl _

theorem publicationIds_put {p : PublicationRecord} :
    publicationIds (d.putPublication p) ⊆ p.id :: publicationIds d := by
  intro id hid
  obtain ⟨q,hq,rfl⟩ := List.mem_map.1 hid
  rcases Table.mem_put.1 hq with rfl | ⟨hq,-⟩
  · exact List.mem_cons_self
  · exact List.mem_cons_of_mem _ (List.mem_map_of_mem hq)

theorem publicationIds_update {p p' : PublicationRecord} (hp : p ∈ d.publications)
    (hid : p'.id = p.id) : publicationIds (d.putPublication p') ⊆ publicationIds d := by
  intro id hmem
  rcases List.mem_cons.1 (publicationIds_put hmem) with rfl | hold
  · rw [hid]
    exact List.mem_map_of_mem hp
  · exact hold

theorem failDocument_publicationIds (o : WorkOperation) (code : FailureCode) (message : Text 500)
    (retryable : Bool) (d : Document) :
    publicationIds (Worker.failDocument o code message retryable d) ⊆ publicationIds d := by
  unfold Worker.failDocument
  cases o.operationType with
  | preflight => exact List.Subset.refl _
  | delete => exact List.Subset.refl _
  | publish =>
    show publicationIds (Worker.failPublication code o.preparedRevisionId d) ⊆ _
    unfold Worker.failPublication
    split
    · exact List.Subset.refl _
    · rename_i q hq
      obtain ⟨id,-,hq⟩ := Option.bind_eq_some_iff.1 hq
      split
      · exact List.Subset.refl _
      · exact publicationIds_update (List.mem_of_find?_eq_some hq) rfl

theorem Change.publicationIds (hc : Change s rejects now d d') :
    Lifecycle.publicationIds d' ⊆ Lifecycle.publicationIds d ∨
      unapproved d.state = true ∧
        Lifecycle.publicationIds d' ⊆ uuid4 now 0 :: Lifecycle.publicationIds d := by
  cases hc with
  | approve hstate | decide hstate =>
    exact Or.inr ⟨by rw [hstate]; rfl,publicationIds_put (d := d)⟩
  | upsert hstate hp => exact Or.inl (publicationIds_update hp rfl)
  | publish hstate ho hs hsucceeded hp hid => exact Or.inl (publicationIds_update hp hid)
  | retryPublish hstate ho hpriority hp => exact Or.inl (publicationIds_update hp rfl)
  | fail ho hopen hs hfailed code message outbox =>
    exact Or.inl (failDocument_publicationIds _ code message _ _)
  | _ => exact Or.inl (List.Subset.refl _)

theorem draws_publications : Draws s rejects now publicationIds where
  arrive := fun x => List.nil_subset _
  touch := fun _ => List.Subset.refl _
  change := by
    intro d d' hc _ id hid
    rcases hc.publicationIds with he | ⟨-,he⟩
    · exact List.mem_cons_of_mem _ (he hid)
    · exact he hid
  replaced := by
    intro d d' hc h hr
    rcases hc.publicationIds with he | ⟨hstate,-⟩
    · exact he
    · have hs := h.deletion_of_replaced hr
      cases hd : d.state <;> rw [hd] at hstate hs <;> contradiction
  yielded := fun owner => List.Subset.refl _

/-! ### Every reachable catalog -/

theorem DocumentInv.storageKey_eq (h : DocumentInv s now d) :
    d.storageKey = none ∨ d.storageKey = some (.object d.id) := by
  cases hs : deletionState d.state with
  | false => exact Or.inr (h.deletion.live hs).2.source
  | true =>
    obtain ⟨p,-,hp⟩ := h.deletion.progress hs
    have hsource := hp.source
    split at hsource
    · exact Or.inl hsource
    · exact Or.inr hsource

theorem DocumentInv.documentChecks (h : DocumentInv s now d) : DocumentChecks d where
  sizeBytesPositive := h.intake.size
  terminalDispositionMatchesState := by
    cases hs : deletionState d.state with
    | false => exact Or.inr (Or.inr ⟨rfl,(h.deletion.live hs).2.disposition⟩)
    | true =>
      obtain ⟨p,-,hp⟩ := h.deletion.progress hs
      have hdisposition := hp.disposition
      rcases hp.state with he | he | he
      · exact Or.inl ⟨Or.inl he,by rw [hdisposition]; rfl⟩
      · exact Or.inl ⟨Or.inr he,by rw [hdisposition]; rfl⟩
      · refine Or.inr (Or.inl ⟨?_,by rw [hdisposition, he]; rfl⟩)
        rw [he]
        cases p.terminalDisposition <;> rfl
  terminalDocumentHasNoSource := by
    intro hterminal
    have hs : deletionState d.state = true := by
      unfold deletionState
      rw [hterminal, Bool.or_true]
    obtain ⟨p,-,hp⟩ := h.deletion.progress hs
    have hended : d.state = p.terminalDisposition.toState := by
      rcases hp.state with he | he | he
      · rw [he] at hterminal
        cases hterminal
      · rw [he] at hterminal
        cases hterminal
      · exact he
    rw [hp.source, if_pos (hp.complete (hp.tombstoned.2 hended))]

theorem RevisionValid.checks {key : CollectionKey} {r : PreparedRevision}
    (h : RevisionValid s key r) : RevisionChecks r where
  revisionNumberPositive := h.number
  sealedManifestComplete := by
    intro hsealed
    have hcomplete := h.complete hsealed
    simp only [sealedSummaryValid, Bool.and_eq_true, decide_eq_true_eq, and_assoc] at hcomplete
    exact hcomplete

theorem PublicationsInv.target_matches (h : PublicationsInv d) {x : Decision}
    (hx : x ∈ d.decisions) : replacementTargetMatchesAction x := by
  have htarget := h.decisionTarget x hx
  unfold replacementTargetMatchesAction
  cases hs : x.targetDocumentId with
  | some id =>
    rw [hs] at htarget
    exact Or.inl ⟨htarget.2 rfl,rfl⟩
  | none =>
    rw [hs] at htarget
    refine Or.inr ⟨?_,rfl⟩
    cases ha : x.action with
    | keep => exact Or.inl rfl
    | cancel => exact Or.inr rfl
    | replace => exact absurd (htarget.1 ha) Bool.false_ne_true

theorem PublicationsInv.complete (h : PublicationsInv d) {p : PublicationRecord}
    (hp : p ∈ d.publications) : verifiedPublicationComplete p := by
  intro hverified
  have hproof := h.proof p hp hverified
  simp only [verifiedSummaryValid, Bool.and_eq_true, decide_eq_true_eq, and_assoc] at hproof
  exact hproof

theorem ProgressInv.targets_distinct {p : DeletionProgress} (h : ProgressInv s d p) :
    physicalTargetsDistinct p := by
  obtain ⟨definition,hdefinition,hactive⟩ := h.active
  unfold physicalTargetsDistinct
  rw [hactive, h.screening]
  exact s.name_ne_screening (Settings.enabledCollection?_mem hdefinition)

theorem OperationValid.delete_high {id : Uuid} (h : OperationValid id o)
    (htype : o.operationType = .delete) : o.priority = 0 := by
  have hpriority := h.priority
  rw [htype] at hpriority
  cases ht : o.replacementTargetDocumentId.isSome with
  | true =>
    rw [ht] at hpriority
    cases hpriority
  | false =>
    rw [ht] at hpriority
    exact (Option.some.inj hpriority).symm

theorem ReachableBy.rowChecks (h : ReachableBy s enc P w) (hd : d ∈ w.shared.catalog.documents) :
    RowChecks d := by
  have hinv := h.catalog.documents d hd
  constructor
  · exact hinv.documentChecks
  · exact fun r hr => (hinv.revisions.valid r hr).checks
  · exact fun x hx => hinv.publications.target_matches hx
  · exact fun p hp => hinv.publications.complete hp
  · exact fun p hp => (hinv.deletion.of_some hp).targets_distinct
  · intro o ho
    have hvalid := hinv.operations.valid o ho
    exact ⟨hvalid.attempt,(h.rowValid hd ho).phaseStarted,hvalid.delete_high⟩

/-- No two attempts of a class have the same number. -/
theorem Numbered.attempt_unique (h : Numbered d) (ho : o ∈ d.operations) (ho' : o' ∈ d.operations)
    (htype : o.operationType = o'.operationType) (hattempt : o.attempt = o'.attempt) : o = o' := by
  have hnodup : (attemptsOf d.operations.rows o'.operationType).Nodup := by
    rw [← List.nodup_reverse, h]
    exact List.nodup_range'
  unfold attemptsOf at hnodup
  have hmem : o ∈ d.operations.rows.filter fun x => x.operationType = o'.operationType :=
    List.mem_filter.2 ⟨ho,decide_eq_true htype⟩
  have hmem' : o' ∈ d.operations.rows.filter fun x => x.operationType = o'.operationType :=
    List.mem_filter.2 ⟨ho',decide_eq_true rfl⟩
  exact List.inj_on_of_nodup_map hnodup hmem hmem' hattempt

theorem eq_of_length_le_one {α : Type} {l : List α} (h : l.length ≤ 1) {a b : α} (ha : a ∈ l)
    (hb : b ∈ l) : a = b := by
  obtain ⟨x,hx⟩ := List.length_eq_one_iff.1 (h.antisymm (List.length_pos_of_mem ha))
  rw [hx] at ha hb
  rw [List.mem_singleton.1 ha, List.mem_singleton.1 hb]

theorem ReachableBy.uniqueRows (h : Reachable s enc w) : UniqueRows w.shared.catalog := by
  have hinv := h.catalog
  have hapart := h.revisionsApart
  have hdecisions := (h.idsApart fun _ => draws_decisions).2
  have hpublications := (h.idsApart fun _ => draws_publications).2
  constructor
  · intro d hd d' hd' hsome hkey
    have hown : ∀ e, e ∈ w.shared.catalog.documents → e.storageKey.isSome = true →
        e.storageKey = some (.object e.id) := by
      intro e he hsome
      rcases (hinv.documents e he).storageKey_eq with hnone | hkey
      · rw [hnone] at hsome
        cases hsome
      · exact hkey
    have hkeys := (hown d hd hsome).symm.trans (hkey.trans (hown d' hd' (hkey ▸ hsome)))
    exact Table.eq_of_key_eq hd hd' (StorageKey.object.inj (Option.some.inj hkeys))
  · rintro d hd d' hd' r hr r' hr' (hid | hpair)
    · obtain rfl := hapart d hd d' hd' r hr r' hr' hid
      exact ⟨rfl,Table.eq_of_key_eq hr hr' hid⟩
    · obtain ⟨hid,hnumber⟩ := Prod.mk.inj hpair
      cases Table.eq_of_key_eq hd hd' hid
      exact ⟨rfl,(hinv.documents d hd).revisions.numbers r r' hr hr' hnumber⟩
  · rintro d hd d' hd' o ho o' ho' (hid | hpair)
    · cases Table.eq_of_key_eq hd hd' (h.operationsApart d hd d' hd' o ho o' ho' hid)
      exact ⟨rfl,Table.eq_of_key_eq ho ho' hid⟩
    · obtain ⟨hdocument,hpair⟩ := Prod.mk.inj hpair
      obtain ⟨htype,hattempt⟩ := Prod.mk.inj hpair
      rw [((hinv.documents d hd).operations.valid o ho).document,
        ((hinv.documents d' hd').operations.valid o' ho').document] at hdocument
      cases Table.eq_of_key_eq hd hd' hdocument
      exact ⟨rfl,(h.numbered d hd).attempt_unique ho ho' htype hattempt⟩
  · intro d hd d' hd' x hx x' hx' hid
    obtain rfl : d = d' := by
      rcases hid with hid | hid
      · exact Table.eq_of_key_eq hd hd' (hdecisions d hd d' hd' x.id (List.mem_map_of_mem hx)
          (hid ▸ List.mem_map_of_mem hx'))
      · obtain ⟨r,hr,hrid,-⟩ := (hinv.documents d hd).publications.decided x hx
        obtain ⟨r',hr',hrid',-⟩ := (hinv.documents d' hd').publications.decided x' hx'
        exact hapart d hd d' hd' r hr r' hr' (hrid.trans (hid.trans hrid'.symm))
    exact ⟨rfl,eq_of_length_le_one (hinv.documents d hd).publications.singleDecision hx hx'⟩
  · intro d hd d' hd' p hp p' hp' hid
    obtain rfl : d = d' := by
      rcases hid with hid | hid
      · exact Table.eq_of_key_eq hd hd' (hpublications d hd d' hd' p.id (List.mem_map_of_mem hp)
          (hid ▸ List.mem_map_of_mem hp'))
      · obtain ⟨r,target,⟨hr,-⟩,hrid,-⟩ := (hinv.documents d hd).publications.bound p hp
        obtain ⟨r',target',⟨hr',-⟩,hrid',-⟩ := (hinv.documents d' hd').publications.bound p' hp'
        exact hapart d hd d' hd' r hr r' hr' (hrid.trans (hid.trans hrid'.symm))
    exact ⟨rfl,eq_of_length_le_one (hinv.documents d hd).publications.single hp hp'⟩

/-- A publication or a deletion is bound to a revision of its document. -/
theorem DocumentInv.bound_revision (h : DocumentInv s now d) (ho : o ∈ d.operations)
    (htype : o.operationType ≠ .preflight) {id : Uuid} (hid : o.preparedRevisionId = some id) :
    ∃ r, r ∈ d.preparedRevisions ∧ r.id = id := by
  cases ht : o.operationType with
  | preflight => exact absurd ht htype
  | publish =>
    obtain ⟨p,hp⟩ := List.exists_mem_of_ne_nil _ (h.publications.attempts o ho ht)
    obtain ⟨r,target,⟨hr,-⟩,-,-,-,hbound⟩ := h.publications.bound p hp
    have hrevision := (hbound o ho ht).1
    rw [hid] at hrevision
    exact ⟨r,hr,(Option.some.inj hrevision).symm⟩
  | delete =>
    have hdeletion : deletionState d.state = true := by
      by_contra hlive
      rw [Bool.not_eq_true] at hlive
      exact (h.deletion.live hlive).2.attempts o ho ht
    obtain ⟨p,-,hp⟩ := h.deletion.progress hdeletion
    exact hp.revision id ((hp.attempts o ho ht).symm.trans hid)

theorem CatalogInv.foreignKeys (h : CatalogInv s True now c) (hd : d ∈ c.documents) :
    ForeignKeys c d := by
  have hinv := h.documents d hd
  constructor
  · intro id hid
    obtain ⟨i,hi,hiid,-⟩ := h.link.owned d hd id hid
    exact ⟨i,hi,hiid⟩
  · intro o ho
    refine ⟨(hinv.operations.valid o ho).document,fun id hid => ?_⟩
    obtain ⟨t,ht,htid,-⟩ := h.link.replaced d hd id ⟨o,ho,hid⟩
    exact ⟨t,ht,htid⟩
  · exact fun o ho htype id hid => hinv.bound_revision ho htype hid
  · intro x hx
    obtain ⟨r,hr,hrid,-⟩ := hinv.publications.decided x hx
    refine ⟨⟨r,hr,hrid⟩,fun id hid => ?_⟩
    have haction : x.action = .replace :=
      (hinv.publications.decisionTarget x hx).2 (by rw [hid]; rfl)
    obtain ⟨t,ht,htid,-⟩ := h.link.replaced d hd id (h.link.chosen d hd id ⟨x,hx,haction,hid⟩)
    exact ⟨t,ht,htid⟩
  · intro p hp
    obtain ⟨r,target,⟨hr,-⟩,hrid,-⟩ := hinv.publications.bound p hp
    exact ⟨r,hr,hrid⟩
  · exact fun p hp => (hinv.deletion.of_some hp).revision

/-- The rows of every reachable catalog satisfy the constraints that the schema declares on the
tables of the lifecycle: the checks on single rows, the unique columns and the references. -/
theorem schema_constraints (h : Reachable s enc w) : UniqueRows w.shared.catalog ∧
    ∀ d, d ∈ w.shared.catalog.documents → RowChecks d ∧ ForeignKeys w.shared.catalog d :=
  ⟨h.uniqueRows,fun _ hd => ⟨h.rowChecks hd,h.catalog.foreignKeys hd⟩⟩

/-- While it is being replaced, a document refers to the incoming one. -/
theorem schema_constraints_replacing : ∃ (w : World) (d i : Document),
    UniqueRows w.shared.catalog ∧ d ∈ w.shared.catalog.documents ∧ RowChecks d ∧
    i ∈ w.shared.catalog.documents ∧ d.replacedByDocumentId = some i.id := by
  obtain ⟨w,d,hw,hd,ht⟩ := play_document booksSettings plainEncoding (fun _ _ => True) replacing
    (fun d => d.replacedByDocumentId.isSome) (fun _ _ _ => trivial) (fun _ _ _ => trivial)
    (by decide +kernel)
  obtain ⟨hunique,hrows⟩ := schema_constraints hw
  obtain ⟨hchecks,hkeys⟩ := hrows d hd
  obtain ⟨id,hid⟩ := Option.isSome_iff_exists.1 ht
  obtain ⟨i,hi,rfl⟩ := hkeys.replacedBy id hid
  exact ⟨w,d,i,hunique,hd,hchecks,hi,hid⟩

end Lifecycle
end PdfBridge
