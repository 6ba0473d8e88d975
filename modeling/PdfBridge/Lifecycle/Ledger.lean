import PdfBridge.Foundation.AppendOnly
import PdfBridge.Lifecycle.Approval
import PdfBridge.Lifecycle.Retention

/-! What no run takes back: the operations of a document are a log, its deletion only advances, and
the rows that are immutable by their mappers stay as they were written. -/
namespace PdfBridge
namespace Lifecycle
open Worker Api Intake AppendOnly

variable {s : Settings} {enc : Encoding} {rejects : FailureCode → Prop} {w w' : World}
  {now : Time} {d d' d'' : Document} {o o' o'' : WorkOperation}

/-! ### Operations -/

/-- A later form of an operation. Only a preflight binds a revision while it runs, and a closed
operation does not change at all. -/
structure Kept (o o' : WorkOperation) : Prop where
  binding : SameBinding o o'
  priority : o'.priority = o.priority
  revision : o.operationType ≠ .preflight → o'.preparedRevisionId = o.preparedRevisionId
  final : o.isOpen = false → o' = o

theorem Kept.refl (o : WorkOperation) : Kept o o :=
  ⟨SameBinding.refl o,rfl,fun _ => rfl,fun _ => rfl⟩

theorem SameBinding.trans (h : SameBinding o o') (h' : SameBinding o' o'') : SameBinding o o'' where
  id := h'.id.trans h.id
  document := h'.document.trans h.document
  type := h'.type.trans h.type
  target := h'.target.trans h.target
  attempt := h'.attempt.trans h.attempt
  created := h'.created.trans h.created

theorem Kept.trans (h : Kept o o') (h' : Kept o' o'') : Kept o o'' where
  binding := h.binding.trans h'.binding
  priority := h'.priority.trans h.priority
  revision := by
    intro ht
    rw [h'.revision (by rwa [h.binding.type]), h.revision ht]
  final := by
    intro hclosed
    have he := h.final hclosed
    rw [← he] at hclosed
    rw [h'.final hclosed, he]

theorem Touch.kept (h : Touch o o') : Kept o o' :=
  ⟨h.sameBinding,h.priority,h.revision,h.closed⟩

theorem Settle.kept (h : Settle o o') (hopen : o.isOpen = true) : Kept o o' :=
  ⟨h.sameBinding,h.priority,h.revision,fun hclosed => by rw [hopen] at hclosed; cases hclosed⟩

theorem grows_touch {rows rows' : List WorkOperation} (h : List.Forall₂ Touch rows rows') :
    Grows Kept rows rows' :=
  Grows.of_forall₂ (h.imp fun _ _ ht => ht.kept)

theorem forall₂_settle {rest : List WorkOperation} (hs : Settle o o') (hopen : o.isOpen = true) :
    List.Forall₂ Kept (o :: rest) (o' :: rest) :=
  List.Forall₂.cons (hs.kept hopen) (List.forall₂_same.2 fun a _ => Kept.refl a)

theorem grows_settle (ho : newest d = some o) (hs : Settle o o') (hopen : o.isOpen = true) :
    Grows Kept d.operations.rows (d.putOperation o').operations.rows := by
  obtain ⟨rest,hr⟩ := newest_eq_some.1 ho
  rw [rows_putOperation hr hs.id.symm, hr]
  exact Grows.of_forall₂ (forall₂_settle hs hopen)

theorem grows_enqueue (h : OperationsInv now d.id d.operations.rows) (hid : o.id = uuid4 now 0) :
    Grows Kept d.operations.rows (d.putOperation o).operations.rows := by
  rw [h.rows_put_fresh le_rfl hid]
  exact (Grows.refl Kept.refl _).cons o

theorem grows_enqueue_settle (h : OperationsInv now d.id d.operations.rows)
    (ho : newest d = some o) (hs : Settle o o') (hopen : o.isOpen = true)
    (hid : o''.id = uuid4 now 0) :
    Grows Kept d.operations.rows ((d.putOperation o'').putOperation o').operations.rows := by
  obtain ⟨rest,hr⟩ := newest_eq_some.1 ho
  have hfront := h.rows_put_fresh le_rfl hid
  rw [hr] at hfront
  have hrows : ((d.putOperation o'').putOperation o').operations.rows = o'' :: o' :: rest :=
    Table.rows_put_append (show _ = [o''] ++ o :: rest from hfront) hs.id.symm
  rw [hrows, hr]
  exact (Grows.of_forall₂ (forall₂_settle hs hopen)).cons o''

/-- The newest operation of a document that is being worked on is open. -/
theorem DocumentInv.newest_isOpen (h : DocumentInv s now d) (ho : newest d = some o)
    {type : OperationType} (hx : expected d.state d.replacedByDocumentId.isSome = (type,.pending)) :
    o.isOpen = true :=
  isOpen_iff.2 ((h.standing_newest ho).ending_eq hx)

/-- Every transition extends the log of operations. -/
theorem Change.grows (hc : Change s rejects now d d') (h : DocumentInv s now d) :
    Grows Kept d.operations.rows d'.operations.rows := by
  have hrefl := Grows.refl Kept.refl d.operations.rows
  cases hc with
  | touch operations ht => exact grows_touch ht
  | progress hp hpp operations ht => exact grows_touch ht
  | purge hp hzero ids operations ht => exact grows_touch ht
  | review hstate ho hs hsucceeded =>
    exact grows_settle ho hs (h.newest_isOpen ho (by rw [hstate]; rfl))
  | publish hstate ho hs hsucceeded =>
    exact grows_settle ho hs (h.newest_isOpen ho (by rw [hstate]; rfl))
  | buryOwn hp hpurged ho hopen hs => exact grows_settle ho hs hopen
  | fail ho hopen hs hfailed code message outbox =>
    show Grows Kept _ (Worker.failDocument _ code message _ _).operations.rows
    rw [(failDocument_sameRows _ code message _ _).operations]
    exact grows_settle ho hs hopen
  | approve hstate ho hs =>
    exact grows_enqueue_settle h.operations ho hs (h.newest_isOpen ho (by rw [hstate]; rfl)) rfl
  | reject hstate ho hs =>
    exact grows_enqueue_settle h.operations ho hs (h.newest_isOpen ho (by rw [hstate]; rfl)) rfl
  | decide | cancel | delete | retryPreflight | retryPublish | retryDelete =>
    exact grows_enqueue h.operations rfl
  | index | revise | upsert | yield_ | failYielded | resumeYielded | bury => exact hrefl

/-! ### Deletion -/

/-- A deletion checkpoint that has moved on: what it is about stays, and nothing that it has proved
is lost. -/
structure Advances (p p' : DeletionProgress) : Prop where
  revision : p'.preparedRevisionId = p.preparedRevisionId
  disposition : p'.terminalDisposition = p.terminalDisposition
  active : p'.activeQdrantCollection = p.activeQdrantCollection
  screening : p'.screeningQdrantCollection = p.screeningQdrantCollection
  activeZero : p.activeZeroVerifiedAt.isSome = true → p'.activeZeroVerifiedAt.isSome = true
  screeningZero : p.screeningZeroVerifiedAt.isSome = true →
    p'.screeningZeroVerifiedAt.isSome = true
  purged : p.storagePurgedAt.isSome = true → p'.storagePurgedAt.isSome = true
  tombstoned : p.tombstonedAt.isSome = true → p'.tombstonedAt.isSome = true

theorem Advances.refl (p : DeletionProgress) : Advances p p :=
  ⟨rfl,rfl,rfl,rfl,id,id,id,id⟩

theorem Advances.trans {p p' p'' : DeletionProgress} (h : Advances p p') (h' : Advances p' p'') :
    Advances p p'' where
  revision := h'.revision.trans h.revision
  disposition := h'.disposition.trans h.disposition
  active := h'.active.trans h.active
  screening := h'.screening.trans h.screening
  activeZero := h'.activeZero ∘ h.activeZero
  screeningZero := h'.screeningZero ∘ h.screeningZero
  purged := h'.purged ∘ h.purged
  tombstoned := h'.tombstoned ∘ h.tombstoned

theorem Progress.advances {p p' : DeletionProgress} (h : Progress p p') : Advances p p' where
  revision := h.revision
  disposition := h.disposition
  active := h.active
  screening := h.screening
  activeZero := h.activeZero
  screeningZero := h.kept
  purged := fun hp => by rwa [h.purged]
  tombstoned := fun hp => by rwa [h.tombstoned]

theorem failProgress_checkpoint {p : DeletionProgress} (code : FailureCode)
    (hp : d.deletionProgress = some p) :
    ∃ p', (failProgress code d).deletionProgress = some p' ∧ Advances p p' := by
  refine ⟨{p with failureCode := some code},?_,{Advances.refl p with}⟩
  unfold failProgress
  rw [hp]
  rfl

/-- A failure keeps the checkpoint of a deletion. -/
theorem failDocument_deletion (o : WorkOperation) (code : FailureCode) (message : Text 500)
    (retryable : Bool) {p : DeletionProgress} (hp : d.deletionProgress = some p) :
    ∃ p', (failDocument o code message retryable d).deletionProgress = some p' ∧ Advances p p' := by
  have same : ∀ {x : Document}, x.deletionProgress = d.deletionProgress →
      ∃ p', x.deletionProgress = some p' ∧ Advances p p' :=
    fun hx => ⟨p,hx.trans hp,Advances.refl p⟩
  unfold failDocument
  cases o.operationType with
  | preflight => exact same rfl
  | publish =>
    apply same
    simp only [failPublication]
    cases o.preparedRevisionId.bind d.publicationForRevision with
    | none => rfl
    | some q =>
      simp only
      split <;> rfl
  | delete => exact failProgress_checkpoint code hp

/-- Every transition of a document that is being deleted advances its checkpoint. -/
theorem Change.advances (hc : Change s rejects now d d') (h : DocumentInv s now d)
    {p : DeletionProgress} (hp : d.deletionProgress = some p) :
    ∃ p', d'.deletionProgress = some p' ∧ Advances p p' := by
  have absent : ∀ {x : DocumentState}, d.state = x → deletionState x = false →
      ∃ p', d'.deletionProgress = some p' ∧ Advances p p' := by
    intro x hx hs
    rw [(h.deletion.live (by rw [hx]; exact hs)).1] at hp
    cases hp
  have here : ∀ {q : DeletionProgress}, d.deletionProgress = some q → p = q :=
    fun hq => Option.some.inj (hp.symm.trans hq)
  cases hc with
  | reject hstate | cancel hstate | yield_ hstate => exact absent hstate rfl
  | delete hstate => rcases hstate with hx | hx | hx | hx <;> exact absent hx rfl
  | fail ho hopen hs hfailed code message outbox => exact failDocument_deletion _ code message _ hp
  | failYielded hstate howner code => exact failProgress_checkpoint code hp
  | resumeYielded hstate howner hq =>
    cases here hq
    exact ⟨_,rfl,{Advances.refl p with}⟩
  | retryDelete hstate howner ho hpriority hq =>
    cases here hq
    exact ⟨_,rfl,{Advances.refl p with}⟩
  | progress hq hpp =>
    cases here hq
    exact ⟨_,rfl,hpp.advances⟩
  | purge hq =>
    cases here hq
    exact ⟨_,rfl,{Advances.refl p with purged := fun _ => rfl}⟩
  | bury hq =>
    cases here hq
    exact ⟨_,rfl,{Advances.refl p with tombstoned := fun _ => rfl}⟩
  | buryOwn hq =>
    cases here hq
    exact ⟨_,rfl,{Advances.refl p with tombstoned := fun _ => rfl}⟩
  | _ => exact ⟨p,hp,Advances.refl p⟩

/-- The rows that a deletion leaves behind. -/
theorem failDocument_remains (o : WorkOperation) (code : FailureCode) (message : Text 500)
    (retryable : Bool) (d : Document) :
    (failDocument o code message retryable d).tombstone = d.tombstone ∧
      (failDocument o code message retryable d).decisions = d.decisions := by
  unfold failDocument
  cases o.operationType with
  | preflight => exact ⟨rfl,rfl⟩
  | publish =>
    simp only [failPublication]
    cases o.preparedRevisionId.bind d.publicationForRevision with
    | none => exact ⟨rfl,rfl⟩
    | some p =>
      simp only
      split <;> exact ⟨rfl,rfl⟩
  | delete => exact ⟨rfl,rfl⟩

/-- The owner of a deletion never changes. -/
theorem Change.owner_kept (hc : Change s rejects now d d') (h : DocumentInv s now d)
    {p : DeletionProgress} (hp : d.deletionProgress = some p) :
    d'.replacedByDocumentId = d.replacedByDocumentId := by
  cases hc with
  | yield_ hstate =>
    rw [(h.deletion.live (by rw [hstate]; rfl)).1] at hp
    cases hp
  | fail ho hopen hs hfailed code message outbox =>
    exact (failDocument_sameRows _ code message _ _).replaced
  | _ => rfl

/-- A document with a tombstone is terminal. -/
theorem DocumentInv.terminal_of_tombstone (h : DocumentInv s now d) {t : Tombstone}
    (ht : d.tombstone = some t) : terminalState d.state = true := by
  cases hp : d.deletionProgress with
  | none =>
    have hlive := h.deletion
    unfold DeletionInv at hlive
    rw [hp] at hlive
    rw [hlive.tombstone] at ht
    cases ht
  | some p =>
    have hprogress := h.deletion.of_some hp
    cases hburied : p.tombstonedAt with
    | none =>
      rw [hprogress.pending hburied] at ht
      cases ht
    | some at_ =>
      rw [hprogress.tombstoned.1 (by rw [hburied]; rfl)]
      cases p.terminalDisposition <;> rfl

/-! ### Immutable rows -/

theorem Change.tombstone_kept (hc : Change s rejects now d d') (h : DocumentInv s now d)
    {t : Tombstone} (ht : d.tombstone = some t) : d'.tombstone = some t := by
  have hterminal := h.terminal_of_tombstone ht
  cases hc with
  | fail ho hopen hs hfailed code message outbox =>
    exact (failDocument_remains _ code message _ _).1.trans ht
  | bury hp hpurged hstate =>
    rw [hstate] at hterminal
    cases hterminal
  | buryOwn hp hpurged ho hopen =>
    rw [h.closed_of_terminal hterminal ho] at hopen
    cases hopen
  | _ => exact ht

theorem Change.decisions_prefix (hc : Change s rejects now d d') :
    d.decisions <+: d'.decisions := by
  cases hc with
  | fail ho hopen hs hfailed code message outbox =>
    show _ <+: (failDocument _ code message _ _).decisions
    rw [(failDocument_remains _ code message _ _).2]
    exact List.prefix_rfl
  | decide | cancel => exact List.prefix_append _ _
  | _ => exact List.prefix_rfl

/-- A failure does not touch a verified publication. -/
theorem failDocument_verified (o : WorkOperation) (code : FailureCode) (message : Text 500)
    (retryable : Bool) {p : PublicationRecord} (h : d.publications.rows = [p])
    (hverified : p.status = .verified) :
    p ∈ (failDocument o code message retryable d).publications := by
  have hp : p ∈ d.publications := by
    rw [Table.mem_def, h]
    exact List.mem_singleton_self p
  unfold failDocument
  cases o.operationType with
  | preflight => exact hp
  | delete => exact hp
  | publish =>
    show p ∈ (failPublication code o.preparedRevisionId d).publications
    unfold failPublication
    split
    · exact hp
    · rename_i q hq
      obtain ⟨id,-,hq⟩ := Option.bind_eq_some_iff.1 hq
      have hmem : q ∈ d.publications.rows := List.mem_of_find?_eq_some hq
      rw [h, List.mem_singleton] at hmem
      rw [hmem, if_pos hverified]
      exact hp

theorem Change.verified_kept (hc : Change s rejects now d d') (h : DocumentInv s now d)
    {p : PublicationRecord} (hp : p ∈ d.publications) (hverified : p.status = .verified) :
    p ∈ d'.publications := by
  have hpub := h.publications
  have unpublished : unapproved d.state = true → p ∈ d'.publications := by
    intro hu
    rw [Table.mem_def, hpub.unpublished hu] at hp
    cases hp
  -- a publication that is put was not verified before
  have other : ∀ {x : DocumentState}, d.state = x → ¬ statusFits x .verified →
      p ∈ d'.publications := by
    intro x hx hfits
    have hs := hpub.status p hp
    rw [hx, hverified] at hs
    exact absurd hs hfits
  cases hc with
  | approve hstate | decide hstate => exact unpublished (by rw [hstate]; rfl)
  | upsert hstate | publish hstate => exact other hstate (by rintro (h | h) <;> cases h)
  | retryPublish hstate => exact other hstate (by rintro ⟨⟩)
  | @fail o o' ho hopen hs hfailed code message outbox =>
    exact failDocument_verified o code message o'.retryable (hpub.rows_eq hp) hverified
  | _ => exact hp

/-- What is left of a sealed revision: all of it, or its header without content. -/
def Remains (r r' : PreparedRevision) : Prop := r' = r ∨ r' = {r with content := .empty}

theorem Change.sealed_remains (hc : Change s rejects now d d') {r : PreparedRevision}
    (hr : r ∈ d.preparedRevisions) (hsealed : r.status = .sealed) :
    ∃ r', r' ∈ d'.preparedRevisions ∧ Remains r r' := by
  cases hc with
  | revise revisions hkept => exact ⟨r,hkept r hr hsealed,Or.inl rfl⟩
  | purge hp hzero ids =>
    refine ⟨emptyContent ids r,Table.mem_update_of_mem (emptyContent_id ids) hr,?_⟩
    unfold emptyContent
    split
    · exact Or.inr rfl
    · exact Or.inl rfl
  | fail ho hopen hs hfailed code message outbox =>
    refine ⟨r,?_,Or.inl rfl⟩
    show r ∈ (failDocument _ code message _ _).preparedRevisions
    rw [(failDocument_content _ code message _ _).2]
    exact hr
  | _ => exact ⟨r,hr,Or.inl rfl⟩

theorem Remains.trans {r r' r'' : PreparedRevision} (h : Remains r r') (h' : Remains r' r'') :
    Remains r r'' := by
  rcases h with rfl | rfl
  · exact h'
  · rcases h' with rfl | rfl <;> exact Or.inr rfl

theorem Remains.sealed {r r' : PreparedRevision} (h : Remains r r') (hr : r.status = .sealed) :
    r'.status = .sealed := by
  rcases h with rfl | rfl <;> exact hr

/-- The rows that their mappers declare immutable are as they were written: decisions, the
tombstone, verified publications, and sealed revisions, of which a purge may delete the content. -/
structure Immutable (d d' : Document) : Prop where
  decisions : d.decisions <+: d'.decisions
  tombstone : ∀ t, d.tombstone = some t → d'.tombstone = some t
  verified : ∀ p, p ∈ d.publications → p.status = .verified → p ∈ d'.publications
  sealed_ : ∀ r, r ∈ d.preparedRevisions → r.status = .sealed →
    ∃ r', r' ∈ d'.preparedRevisions ∧ Remains r r'

theorem Immutable.refl (d : Document) : Immutable d d :=
  ⟨List.prefix_rfl,fun _ h => h,fun _ h _ => h,fun r hr _ => ⟨r,hr,Or.inl rfl⟩⟩

theorem Immutable.trans (h : Immutable d d') (h' : Immutable d' d'') : Immutable d d'' where
  decisions := h.decisions.trans h'.decisions
  tombstone := fun t ht => h'.tombstone t (h.tombstone t ht)
  verified := fun p hp hs => h'.verified p (h.verified p hp hs) hs
  sealed_ := by
    intro r hr hs
    obtain ⟨r',hr',hrem⟩ := h.sealed_ r hr hs
    obtain ⟨r'',hr'',hrem'⟩ := h'.sealed_ r' hr' (hrem.sealed hs)
    exact ⟨r'',hr'',hrem.trans hrem'⟩

theorem Change.immutable (hc : Change s rejects now d d') (h : DocumentInv s now d) :
    Immutable d d' where
  decisions := hc.decisions_prefix
  tombstone := fun _ ht => hc.tombstone_kept h ht
  verified := fun _ hp hs => hc.verified_kept h hp hs
  sealed_ := fun _ hr hs => hc.sealed_remains hr hs

/-! ### Runs -/

/-- A script, and another one that goes on from there. -/
theorem play_on (cues cues' : List Cue) (test : World → World → Bool)
    (h : (play booksSettings plainEncoding always cues World.initial).any (fun w =>
      (play booksSettings plainEncoding always cues' w).any (test w)) = true) :
    ∃ w w', Reachable booksSettings plainEncoding w ∧
      Steps booksSettings plainEncoding (fun _ _ => True) w w' ∧ test w w' = true := by
  obtain ⟨w,hw,h⟩ := (Option.any_eq_true _ _).1 h
  obtain ⟨w',hw',h⟩ := (Option.any_eq_true _ _).1 h
  exact ⟨w,w',ReachableBy.initial.steps (play_steps (fun _ _ _ _ => trivial)
    (fun _ _ _ _ => trivial) hw),play_steps (fun _ _ _ _ => trivial) (fun _ _ _ _ => trivial) hw',h⟩

/-- The operations of a document are a log: over every run the recorded operations stay in their
order with the bindings that they were enqueued with, the closed ones unchanged; new ones come in
front, numbered on within their class, and only the newest of all is open. -/
theorem operations_are_a_log (h : Reachable s enc w) (hrun : Steps s enc (fun _ _ => True) w w')
    (hd : d ∈ w.shared.catalog.documents) : ∃ d', d' ∈ w'.shared.catalog.documents ∧ d'.id = d.id ∧
      Grows Kept d.operations.rows d'.operations.rows ∧ d'.operations.rows.Pairwise Newer ∧
      ∀ o ∈ d'.operations.rows.tail, o.isOpen = false := by
  obtain ⟨hw',d',hd',hid,hgrows⟩ := hrun.document
    (I := fun x => Grows Kept d.operations.rows x.operations.rows) h hd (Grows.refl Kept.refl _)
    fun w e _ x x' _ hinv hx hc => hx.trans (fun _ _ _ => Kept.trans) (hc.grows hinv)
  have hops := (hw'.catalog.documents d' hd').operations
  exact ⟨d',hd',hid,hgrows,hops.ordered,hops.closed⟩

/-- An upload is prepared and published. -/
theorem operations_are_a_log_books : ∃ (w w' : World) (d d' : Document),
    d ∈ w.shared.catalog.documents ∧ d' ∈ w'.shared.catalog.documents ∧
    d.operations.rows.length = 1 ∧ d'.operations.rows.length = 2 ∧
    Grows Kept d.operations.rows d'.operations.rows := by
  obtain ⟨w,w',hw,hrun,ht⟩ := play_on [.act (uploadOf "a")] (turnOf smoothly ++ turnOf smoothly)
    (fun w w' => w.shared.catalog.documents.rows.any (·.operations.rows.length = 1) &&
      w'.shared.catalog.documents.rows.all (·.operations.rows.length = 2)) (by decide +kernel)
  obtain ⟨ha,hb⟩ := Bool.and_eq_true_iff.1 ht
  obtain ⟨d,hd,hone⟩ := List.any_eq_true.1 ha
  obtain ⟨d',hd',-,hgrows,-⟩ := operations_are_a_log hw hrun hd
  exact ⟨w,w',d,d',hd,hd',of_decide_eq_true hone,of_decide_eq_true (List.all_eq_true.1 hb d' hd'),
    hgrows⟩

/-- A deletion that has begun only advances: over every run its checkpoint stays bound to the same
revision, disposition and physical collections, its owner stays, no proof is lost, the source that
is gone stays gone, a tombstone is final, and the document can only end as it was disposed of. -/
theorem deletion_only_advances (h : Reachable s enc w) (hrun : Steps s enc (fun _ _ => True) w w')
    (hd : d ∈ w.shared.catalog.documents) {p : DeletionProgress}
    (hp : d.deletionProgress = some p) :
    ∃ d' p', d' ∈ w'.shared.catalog.documents ∧ d'.id = d.id ∧ d'.deletionProgress = some p' ∧
      Advances p p' ∧ d'.replacedByDocumentId = d.replacedByDocumentId ∧
      (p.storagePurgedAt.isSome = true → d'.storageKey = none) ∧
      (∀ t, d.tombstone = some t →
        d'.tombstone = some t ∧ d'.state = p.terminalDisposition.toState) ∧
      (d'.state = .deleting ∨ d'.state = .deleteFailed ∨
        d'.state = p.terminalDisposition.toState) := by
  obtain ⟨hw',d',hd',hid,⟨p',hp',hadvances⟩,howner,htombstone⟩ := hrun.document
    (I := fun x => (∃ q, x.deletionProgress = some q ∧ Advances p q) ∧
      x.replacedByDocumentId = d.replacedByDocumentId ∧
      ∀ t, d.tombstone = some t → x.tombstone = some t) h hd
    ⟨⟨p,hp,Advances.refl p⟩,rfl,fun _ ht => ht⟩ (by
      rintro w e - x x' - hinv ⟨⟨q,hq,hpq⟩,howner,ht⟩ hc
      obtain ⟨q',hq',hqq⟩ := hc.advances hinv hq
      exact ⟨⟨q',hq',hpq.trans hqq⟩,(hc.owner_kept hinv hq).trans howner,
        fun t hdt => hc.tombstone_kept hinv (ht t hdt)⟩)
  have hprogress := (hw'.catalog.documents d' hd').deletion.of_some hp'
  refine ⟨d',p',hd',hid,hp',hadvances,howner,fun hpurged => ?_,fun t ht => ⟨htombstone t ht,?_⟩,?_⟩
  · rw [hprogress.source, if_pos (hadvances.purged hpurged)]
  · rw [← hadvances.disposition]
    apply hprogress.tombstoned.1
    by_contra hnone
    rw [Bool.not_eq_true, Option.isSome_eq_false_iff, Option.isNone_iff_eq_none] at hnone
    have hempty := hprogress.pending hnone
    rw [htombstone t ht] at hempty
    cases hempty
  · rw [← hadvances.disposition]
    exact hprogress.state

/-- A replaced document is deleted by the publication of the other one. -/
theorem deletion_only_advances_replaced : ∃ (w w' : World) (d d' : Document)
    (p p' : DeletionProgress), d ∈ w.shared.catalog.documents ∧
    d' ∈ w'.shared.catalog.documents ∧ d.state = .deleting ∧ d.deletionProgress = some p ∧
    d'.deletionProgress = some p' ∧ Advances p p' ∧ p'.tombstonedAt.isSome = true := by
  obtain ⟨w,w',hw,hrun,ht⟩ := play_on replacing (turnOf smoothly)
    (fun w w' => (w.shared.catalog.documents.rows.any fun d =>
        d.state = .deleting && d.deletionProgress.isSome) &&
      w'.shared.catalog.documents.rows.all fun d =>
        d.deletionProgress.all (·.tombstonedAt.isSome)) (by decide +kernel)
  obtain ⟨ha,hb⟩ := Bool.and_eq_true_iff.1 ht
  obtain ⟨d,hd,ha⟩ := List.any_eq_true.1 ha
  obtain ⟨hstate,hsome⟩ := Bool.and_eq_true_iff.1 ha
  obtain ⟨p,hp⟩ := Option.isSome_iff_exists.1 hsome
  obtain ⟨d',p',hd',-,hp',hadvances,-⟩ := deletion_only_advances hw hrun hd hp
  have hburied := List.all_eq_true.1 hb d' hd'
  rw [hp', Option.all_some] at hburied
  exact ⟨w,w',d,d',p,p',hd,hd',of_decide_eq_true hstate,hp,hp',hadvances,hburied⟩

end Lifecycle
end PdfBridge
