import PdfBridge.Lifecycle.Frame

/-! Every transition keeps what holds of reachable documents. -/
namespace PdfBridge
namespace Lifecycle
open Intake

variable {s : Settings} {now : Time} {d : Document} {o o' : WorkOperation}

/-! ### Transitions that keep the state -/

theorem DocumentInv.touch {b : Time} (h : DocumentInv s b d) (t : Table WorkOperation.id)
    (ht : List.Forall₂ Touch d.operations.rows t.rows) :
    DocumentInv s b {d with operations := t} := by
  obtain ⟨o,ho,hstanding⟩ := h.standing
  obtain ⟨rest,hr⟩ := newest_eq_some.1 ho
  have hrows := ht
  rw [hr] at hrows
  obtain ⟨o',rest',hto,-,ht'⟩ := List.forall₂_cons_left_iff.1 hrows
  exact {
    h with
    operations := h.operations.touch ht
    standing := ⟨o',newest_eq_some.2 ⟨rest',ht'⟩,hstanding.touch hto t⟩
    failure := {h.failure with}
    publications := h.publications.frame (Or.inl rfl) rfl rfl (fun r hr _ => hr)
      (Repeats.touch (by decide) ht)
    deletion := h.deletion.frame ⟨rfl,rfl,fun r hr => ⟨r,hr,rfl⟩,rfl,
      Repeats.touch (by decide) ht⟩ rfl (Or.inl rfl) rfl rfl rfl }

theorem DocumentInv.index (h : DocumentInv s now d) (outbox : List IndexOutboxEntry) :
    DocumentInv s (now + 1) {d with outbox := outbox} := by
  obtain ⟨o,ho,hstanding⟩ := h.standing
  exact {
    h.mono (Nat.le_succ now) with
    standing := ⟨o,ho,{hstanding with}⟩
    failure := {h.failure with}
    publications := h.publications.frame (Or.inl rfl) rfl rfl (fun r hr _ => hr)
      (Repeats.refl _ _)
    deletion := h.deletion.frame ⟨rfl,rfl,fun r hr => ⟨r,hr,rfl⟩,rfl,Repeats.refl _ _⟩ rfl
      (Or.inl rfl) rfl rfl rfl }

theorem DocumentInv.revise (h : DocumentInv s now d) (t : Table PreparedRevision.id)
    (hsealed : ∀ r, r ∈ d.preparedRevisions → r.status = .sealed → r ∈ t)
    (hids : ∀ r, r ∈ d.preparedRevisions → ∃ r', r' ∈ t ∧ r'.id = r.id)
    (hinv : RevisionsInv s (now + 1) d.intake.collectionKey t) :
    DocumentInv s (now + 1) {d with preparedRevisions := t} := by
  obtain ⟨o,ho,hstanding⟩ := h.standing
  exact {
    h.mono (Nat.le_succ now) with
    standing := ⟨o,ho,{hstanding with}⟩
    failure := {h.failure with}
    revisions := hinv
    publications := h.publications.frame (Or.inl rfl) rfl rfl hsealed (Repeats.refl _ _)
    deletion := h.deletion.frame ⟨rfl,rfl,hids,rfl,Repeats.refl _ _⟩ rfl (Or.inl rfl) rfl rfl
      rfl }

/-! ### The end of a preflight -/

theorem FailureInv.clear (hcode : d.failureCode = none) (hmessage : d.failureMessage = none)
    (hretryable : d.failureRetryable = false) (hstate : Api.failedState d.state = false) : FailureInv d where
  failed := fun hf => by rw [hstate] at hf; cases hf
  message := fun _ => hmessage
  retryable := fun _ => hretryable
  code := fun _ hc => by rw [hcode] at hc; cases hc

theorem DocumentInv.standing_newest {b : Time} (h : DocumentInv s b d) (ho : newest d = some o) :
    Standing d o := by
  obtain ⟨o₁,ho₁,hs⟩ := h.standing
  rw [ho] at ho₁
  cases ho₁
  exact hs

theorem Standing.type_eq {x : OperationType × Ending} (h : Standing d o)
    (hx : expected d.state d.replacedByDocumentId.isSome = x) : o.operationType = x.1 :=
  hx ▸ (Prod.ext_iff.1 h.shape).1

theorem Standing.ending_eq {x : OperationType × Ending} (h : Standing d o)
    (hx : expected d.state d.replacedByDocumentId.isSome = x) : ending o = x.2 :=
  hx ▸ (Prod.ext_iff.1 h.shape).2

theorem Standing.succeeded (htype : (o.operationType,Ending.succeeded) =
    expected d.state d.replacedByDocumentId.isSome) (h : o.state = .succeeded) :
    Standing d o where
  shape := by rw [ending_eq_succeeded.2 h]; exact htype
  retryable := fun hf => by rw [h] at hf; cases hf

theorem DocumentInv.review (h : DocumentInv s now d) (hstate : d.state = .preflighting)
    (ho : newest d = some o) (hs : Settle o o') (hsucceeded : o'.state = .succeeded) :
    DocumentInv s (now + 1) ({d.clearFailure with state := .reviewRequired}.putOperation o') := by
  obtain ⟨rest,hr⟩ := newest_eq_some.1 ho
  have hstanding := h.standing_newest ho
  have hrows : ({d.clearFailure with state := .reviewRequired}.putOperation o').operations.rows
      = o' :: rest := rows_putOperation hr hs.id.symm
  have hops := h.operations
  rw [hr] at hops
  have hrepeats {type : OperationType} (ht : type ≠ .preflight) :
      Repeats type d.operations.rows (o' :: rest) := hr ▸ Repeats.settle ht hs
  exact {
    h.mono (Nat.le_succ now) with
    operations := by rw [hrows]; exact (hops.settle hs).mono (Nat.le_succ now)
    standing := by
      refine ⟨o',newest_eq_some.2 ⟨rest,hrows⟩,Standing.succeeded ?_ hsucceeded⟩
      rw [hs.type, hstanding.type_eq (by rw [hstate])]
      rfl
    failure := FailureInv.clear rfl rfl rfl rfl
    publications := h.publications.frame (Or.inr (Or.inr ⟨by rw [hstate]; rfl,rfl⟩)) rfl rfl
      (fun r hr _ => hr) (by rw [hrows]; exact hrepeats (by decide))
    deletion := h.deletion.frame
      ⟨rfl,rfl,fun r hr => ⟨r,hr,rfl⟩,rfl,by rw [hrows]; exact hrepeats (by decide)⟩ rfl
      (Or.inr ⟨by rw [hstate]; rfl,rfl⟩) rfl rfl rfl }

/-! ### A new operation -/

/-- `rows` puts a new operation in front of the closed history of `d`. -/
structure Extends (now : Time) (d : Document) (o : WorkOperation) (rows : List WorkOperation) :
    Prop where
  inv : OperationsInv (now + 1) d.id rows
  head : ∃ rest, rows = o :: rest ∧
    ∀ type, type ≠ .preflight → Repeats type d.operations.rows rest

variable {type : OperationType} {priority : OperationPriority}
  {revisionId target : Option Uuid} {phase : OperationPhase}

theorem Extends.of_closed (h : OperationsInv now d.id d.operations.rows)
    (ho : newest d = some o) (hclosed : o.isOpen = false)
    (hpriority : priorityForOperation type target.isSome = some priority)
    (htarget : target ≠ some d.id) (hphase : allowedPhase type target.isSome phase = true) :
    Extends now d (newOperation now d type priority revisionId target phase)
      (d.putOperation (newOperation now d type priority revisionId target phase)).operations.rows
    := by
  have hall : ∀ x ∈ d.operations.rows, x.isOpen = false := by
    obtain ⟨rest,hr⟩ := newest_eq_some.1 ho
    have ht := h.closed
    rw [hr] at ht ⊢
    exact List.forall_mem_cons.2 ⟨hclosed,ht⟩
  rw [h.rows_put_fresh le_rfl rfl]
  exact ⟨h.newOperation hall (fun x hx => ⟨x,hx,rfl,rfl⟩) hpriority htarget hphase,
    _,rfl,fun type _ => Repeats.refl type _⟩

theorem Extends.of_settle (h : OperationsInv now d.id d.operations.rows)
    (ho : newest d = some o) (hs : Settle o o')
    (hpriority : priorityForOperation type target.isSome = some priority)
    (htarget : target ≠ some d.id) (hphase : allowedPhase type target.isSome phase = true) :
    Extends now d (newOperation now d type priority revisionId target phase)
      ((d.putOperation (newOperation now d type priority revisionId target phase)).putOperation
        o').operations.rows := by
  obtain ⟨rest,hr⟩ := newest_eq_some.1 ho
  have hfront := h.rows_put_fresh (o := newOperation now d type priority revisionId target phase)
    le_rfl rfl
  rw [hr] at hfront
  have hrows : ((d.putOperation
      (newOperation now d type priority revisionId target phase)).putOperation o').operations.rows
      = newOperation now d type priority revisionId target phase :: o' :: rest :=
    Table.rows_put_append (show _ = [newOperation now d type priority revisionId target phase] ++
      o :: rest from hfront) hs.id.symm
  have hops := h
  rw [hr] at hops
  have hsettled := hops.settle hs
  have hrest := hops.closed
  rw [hrows]
  refine ⟨hsettled.newOperation (List.forall_mem_cons.2 ⟨hs.isOpen,hrest⟩) ?_ hpriority htarget
    hphase,_,rfl,fun type ht => hr ▸ Repeats.settle ht hs⟩
  rw [hr]
  refine List.forall_mem_cons.2 ⟨⟨o,List.mem_cons_self,hs.type,hs.attempt⟩,fun x hx => ?_⟩
  exact ⟨x,List.mem_cons_of_mem _ hx,rfl,rfl⟩

theorem Standing.newOperation {d' : Document}
    (hx : expected d'.state d'.replacedByDocumentId.isSome = (type,.pending)) :
    Standing d' (Intake.newOperation now d type priority revisionId target phase) where
  shape := hx.symm
  retryable := fun hf => by cases hf

/-- A revision of an unapproved document starts its publication. -/
theorem DocumentInv.toPublishing (h : DocumentInv s now d) (hu : unapproved d.state = true)
    {r : PreparedRevision} {points : ℕ} {l : List Decision} {t : Table WorkOperation.id}
    (ht : Extends now d (newOperation now d .publish priority (some r.id) target .queued) t.rows)
    (hpoints : r.expectedPointCount = some points)
    (happroved : Approved {d with decisions := l} r target)
    (hsingle : l.length ≤ 1)
    (hdecided : ∀ x ∈ l, x.preparedRevisionId = r.id ∧
      r.manifestSha256 = some x.preparedManifestSha256 ∧
      (x.action = .replace ↔ x.targetDocumentId.isSome = true)) :
    DocumentInv s (now + 1) {d.clearFailure.putPublication (newPublication now r points) with
      state := .publishing, decisions := l, operations := t} := by
  obtain ⟨rest,hrows,hrepeats⟩ := ht.head
  have hempty := h.publications.unpublished hu
  have hpubs : (d.publications.put (newPublication now r points)).rows =
      [newPublication now r points] := by
    rw [Table.rows_put_of_not_mem, hempty]
    intro x hx
    rw [Table.mem_def, hempty] at hx
    simp at hx
  have hfirst : ∀ x ∈ rest, x.operationType ≠ .publish := by
    intro x hx hxt
    obtain ⟨y,hy,hyt,-⟩ := hrepeats .publish (by decide) x hx hxt
    exact h.publications.attempts y hy hyt hempty
  refine {
    h.mono (Nat.le_succ now) with
    operations := ht.inv
    standing := ⟨_,newest_eq_some.2 ⟨rest,hrows⟩,Standing.newOperation rfl⟩
    failure := FailureInv.clear rfl rfl rfl rfl
    publications := ?_
    deletion := ?_ }
  · exact {
      decided := fun x hx => ⟨r,happroved.1,(hdecided x hx).1.symm,happroved.2.1,
        (hdecided x hx).2.1⟩
      singleDecision := hsingle
      decisionTarget := fun x hx => (hdecided x hx).2.2
      undecided := fun hc => by cases hc
      unpublished := fun hc => by cases hc
      single := (congrArg List.length hpubs).le
      bound := by
        show ∀ p ∈ (d.publications.put (newPublication now r points)).rows, Bound _ p
        rw [hpubs, List.forall_mem_singleton]
        refine ⟨r,target,happroved,rfl,rfl,hpoints,?_⟩
        show ∀ o ∈ t.rows, _
        rw [hrows]
        refine List.forall_mem_cons.2 ⟨fun _ => ⟨rfl,rfl⟩,fun x hx hxt => ?_⟩
        exact absurd hxt (hfirst x hx)
      attempts := fun _ _ _ => by
        show (d.publications.put (newPublication now r points)).rows ≠ []
        rw [hpubs]
        simp
      present := fun _ => by
        show (d.publications.put (newPublication now r points)).rows ≠ []
        rw [hpubs]
        simp
      status := by
        show ∀ p ∈ (d.publications.put (newPublication now r points)).rows, _
        rw [hpubs, List.forall_mem_singleton]
        exact Or.inl rfl
      failure := by
        show ∀ p ∈ (d.publications.put (newPublication now r points)).rows, _
        rw [hpubs, List.forall_mem_singleton]
        exact fun hf => by cases hf
      proof := by
        show ∀ p ∈ (d.publications.put (newPublication now r points)).rows, _
        rw [hpubs, List.forall_mem_singleton]
        exact fun hf => by cases hf }
  · have hdead : deletionState d.state = false := by
      cases hd : d.state <;> rw [hd] at hu <;> first | rfl | cases hu
    obtain ⟨hp,hlive⟩ := h.deletion.live hdead
    refine LiveInv.deletion (hlive.frame ⟨rfl,rfl,fun r hr => ⟨r,hr,rfl⟩,rfl,?_⟩ rfl rfl rfl rfl)
      hp
    show Repeats .delete _ t.rows
    rw [hrows]
    exact (hrepeats .delete (by decide)).cons_of_ne
      (show OperationType.publish ≠ .delete by decide)

/-- The start of a deletion, by an operation in `t` or by the incoming document. -/
theorem ProgressInv.start {p : DeletionProgress} {d' : Document} (hlive : LiveInv d)
    (hp : FreshProgress s d p) (hid : d'.id = d.id) (hintake : d'.intake = d.intake)
    (hrevisions : d'.preparedRevisions = d.preparedRevisions)
    (hsource : d'.storageKey = d.storageKey) (htombstone : d'.tombstone = d.tombstone)
    (hstate : d'.state = .deleting)
    (hdisposition : d'.terminalDisposition = some p.terminalDisposition)
    (hreplaced : d'.replacedByDocumentId.isSome = true → p.terminalDisposition = .deleted)
    (hattempts : ∀ o ∈ d'.operations.rows, o.operationType = .delete →
      o.preparedRevisionId = p.preparedRevisionId) : ProgressInv s d' p where
  disposition := hdisposition
  state := Or.inl hstate
  active := by rw [hintake]; exact hp.active
  screening := hp.screening
  revision := by rw [hrevisions]; exact hp.revision
  zeros := fun hz => by rw [hp.screeningZero] at hz; cases hz
  purged := fun hz => by rw [hp.purged] at hz; cases hz
  tombstoned := by
    rw [hp.tombstoned, hstate]
    cases p.terminalDisposition <;> simp [TerminalDisposition.toState]
  complete := fun hz => by rw [hp.tombstoned] at hz; cases hz
  tombstone := fun hz => by rw [hp.tombstoned] at hz; cases hz
  pending := fun _ => htombstone.trans hlive.tombstone
  source := by rw [hsource, hlive.source, hp.purged, hid]; rfl
  replaced := hreplaced
  attempts := hattempts

/-- A live document starts its own deletion. -/
theorem DocumentInv.toDeleting (h : DocumentInv s now d)
    (hstate : deletionState d.state = false) {p : DeletionProgress} (hp : FreshProgress s d p)
    {l : List Decision} {t : Table WorkOperation.id} {code : Option FailureCode}
    (ht : Extends now d (newOperation now d .delete .high p.preparedRevisionId none .queued)
      t.rows)
    (hpublications : PublicationsInv {d with state := .deleting, decisions := l})
    (hcode : code.isSome = true → p.terminalDisposition = .rejected) :
    DocumentInv s (now + 1) {d.clearFailure with
      deletionProgress := some p, state := .deleting,
      terminalDisposition := some p.terminalDisposition, decisions := l, operations := t,
      failureCode := code} := by
  obtain ⟨rest,hrows,hrepeats⟩ := ht.head
  have hlive := (h.deletion.live hstate).2
  exact {
    h.mono (Nat.le_succ now) with
    operations := ht.inv
    standing := by
      refine ⟨_,newest_eq_some.2 ⟨rest,hrows⟩,Standing.newOperation ?_⟩
      show expected .deleting d.replacedByDocumentId.isSome = _
      rw [hlive.replaced]
      rfl
    failure := {
      failed := fun hf => by cases hf
      message := fun _ => rfl
      retryable := fun _ => rfl
      code := fun _ hc => congrArg some (hcode hc) }
    publications := by
      refine hpublications.frame (Or.inl rfl) rfl rfl (fun r hr _ => hr) ?_
      show Repeats .publish d.operations.rows t.rows
      rw [hrows]
      exact (hrepeats .publish (by decide)).cons_of_ne
        (show OperationType.delete ≠ .publish by decide)
    deletion := by
      refine ProgressInv.deletion (ProgressInv.start hlive hp rfl rfl rfl rfl rfl rfl rfl
        (fun hc => ?_) ?_) rfl
      · have hreplaced : d.replacedByDocumentId.isSome = true := hc
        rw [hlive.replaced] at hreplaced
        cases hreplaced
      · show ∀ o ∈ t.rows, _
        rw [hrows]
        refine List.forall_mem_cons.2 ⟨fun _ => rfl,fun x hx hxt => ?_⟩
        obtain ⟨y,hy,hyt,-⟩ := hrepeats .delete (by decide) x hx hxt
        exact absurd hyt (hlive.attempts y hy) }

/-- The document still agrees with its publications when it is deleted. -/
theorem PublicationsInv.deleting (h : PublicationsInv d) :
    PublicationsInv {d with state := .deleting} :=
  h.frame (Or.inr (Or.inl rfl)) rfl rfl (fun _ hr _ => hr) (Repeats.refl _ _)

/-- A decision that cancels approves nothing. -/
theorem PublicationsInv.cancelled (h : PublicationsInv d) (hu : unapproved d.state = true)
    {r : PreparedRevision} {x : Decision} (hr : r ∈ d.preparedRevisions)
    (hsealed : r.status = .sealed) (hx : x.preparedRevisionId = r.id)
    (hmanifest : r.manifestSha256 = some x.preparedManifestSha256)
    (haction : x.action = .cancel ∧ x.targetDocumentId = none) :
    PublicationsInv {d with state := .deleting, decisions := d.decisions ++ [x]} := by
  have hempty := h.unpublished hu
  rw [h.undecided hu, List.nil_append]
  exact {
    decided := by
      rw [List.forall_mem_singleton]
      exact ⟨r,hr,hx.symm,hsealed,hmanifest⟩
    singleDecision := le_rfl
    decisionTarget := by
      rw [List.forall_mem_singleton, haction.1, haction.2]
      simp
    undecided := fun hc => by cases hc
    unpublished := fun hc => by cases hc
    single := h.single
    bound := by
      show ∀ p ∈ d.publications.rows, _
      rw [hempty]
      simp
    attempts := h.attempts
    present := fun hc => by cases hc
    status := by
      show ∀ p ∈ d.publications.rows, _
      rw [hempty]
      simp
    failure := h.failure
    proof := h.proof }

/-! ### Failures -/

theorem Standing.pending (h : Standing d o) (hopen : o.isOpen = true) :
    (d.state = .preflighting ∧ o.operationType = .preflight) ∨
    (d.state = .publishing ∧ o.operationType = .publish) ∨
    (d.state = .deleting ∧ d.replacedByDocumentId = none ∧ o.operationType = .delete) := by
  have hs := h.shape
  rw [isOpen_iff.1 hopen] at hs
  cases hd : d.state <;> rw [hd] at hs <;> cases hr : d.replacedByDocumentId <;> rw [hr] at hs <;>
    simp_all [expected]

theorem Standing.failed (htype : (o.operationType,Ending.failed) =
    expected d.state d.replacedByDocumentId.isSome) (h : o.state = .failed)
    (hr : o.retryable = d.failureRetryable) : Standing d o where
  shape := by rw [ending_eq_failed.2 h]; exact htype
  retryable := fun _ => hr

theorem FailureInv.failure (hstate : Api.failedState d.state = true)
    (hcode : d.failureCode.isSome = true) (hmessage : d.failureMessage.isSome = true) :
    FailureInv d where
  failed := fun _ => ⟨hcode,hmessage⟩
  message := fun hf => by rw [hstate] at hf; cases hf
  retryable := fun hf => by rw [hstate] at hf; cases hf
  code := fun hf => by rw [hstate] at hf; cases hf

/-- The one publication of a publishing document, with the revision of its operations. -/
theorem DocumentInv.publication {b : Time} (h : DocumentInv s b d)
    (hstate : publicationState d.state = true) :
    ∃ p, p ∈ d.publications ∧ statusFits d.state p.status ∧
      d.publicationForRevision p.preparedRevisionId = some p ∧
      ∀ o ∈ d.operations.rows, o.operationType = .publish →
        o.preparedRevisionId = some p.preparedRevisionId := by
  obtain ⟨p,hp⟩ := List.exists_mem_of_ne_nil _ (h.publications.present hstate)
  obtain ⟨r,target,-,hid,-,-,hops⟩ := h.publications.bound p hp
  refine ⟨p,hp,h.publications.status p hp,?_,fun o ho ht => hid ▸ (hops o ho ht).1⟩
  unfold Document.publicationForRevision
  rw [h.publications.rows_eq hp]
  simp

theorem DocumentInv.failPreflight (h : DocumentInv s now d) (ho : newest d = some o)
    (hs : Settle o o') (hfailed : o'.state = .failed) (hstate : d.state = .preflighting)
    (code : FailureCode) (message : Text 500) (outbox : List IndexOutboxEntry) :
    DocumentInv s (now + 1) {Worker.Document.fail (d.putOperation o') .preflightFailed code
      message o'.retryable with outbox := outbox} := by
  obtain ⟨rest,hr⟩ := newest_eq_some.1 ho
  have hrows : (d.putOperation o').operations.rows = o' :: rest :=
    rows_putOperation hr hs.id.symm
  have hops := h.operations
  rw [hr] at hops
  exact {
    h.mono (Nat.le_succ now) with
    operations := hrows ▸ (hops.settle hs).mono (Nat.le_succ now)
    standing := by
      refine ⟨o',newest_eq_some.2 ⟨rest,hrows⟩,Standing.failed ?_ hfailed rfl⟩
      rw [hs.type, (h.standing_newest ho).type_eq (by rw [hstate])]
      rfl
    failure := FailureInv.failure rfl rfl rfl
    publications := h.publications.frame (Or.inr (Or.inr ⟨by rw [hstate]; rfl,rfl⟩)) rfl rfl
      (fun r hr _ => hr) (hrows ▸ hr ▸ Repeats.settle (by decide) hs)
    deletion := h.deletion.frame
      ⟨rfl,rfl,fun r hr => ⟨r,hr,rfl⟩,rfl,hrows ▸ hr ▸ Repeats.settle (by decide) hs⟩ rfl
      (Or.inr ⟨by rw [hstate]; rfl,rfl⟩) rfl rfl rfl }

/-- Settling a publication: the operation closes and the publication record moves on. -/
theorem DocumentInv.settlePublication (h : DocumentInv s now d) (ho : newest d = some o)
    (hs : Settle o o') (hstate : d.state = .publishing) {p p' : PublicationRecord}
    (hp : p ∈ d.publications) (hid : p'.id = p.id)
    (hrevision : p'.preparedRevisionId = p.preparedRevisionId)
    (hactive : p'.activeQdrantCollection = p.activeQdrantCollection)
    (hpoints : p'.expectedPoints = p.expectedPoints)
    {state : DocumentState} {readyAt : Option Time} {code : Option FailureCode}
    {message : Option (Text 500)} {retryable : Bool} {outbox : List IndexOutboxEntry}
    (hnext : (state = .publishFailed ∧ o'.state = .failed ∧ o'.retryable = retryable ∧
        p'.status = .failed ∧ p'.failureCode.isSome = true ∧ code.isSome = true ∧
        message.isSome = true) ∨
      (state = .ready ∧ o'.state = .succeeded ∧ p'.status = .verified ∧
        Api.verifiedSummaryValid p' = true ∧ code = none ∧ message = none ∧
        retryable = false)) :
    DocumentInv s (now + 1) {(d.putOperation o').putPublication p' with
      state := state, readyAt := readyAt, failureCode := code, failureMessage := message,
      failureRetryable := retryable, outbox := outbox} := by
  obtain ⟨rest,hr⟩ := newest_eq_some.1 ho
  have hrows : (d.putOperation o').operations.rows = o' :: rest :=
    rows_putOperation hr hs.id.symm
  have hops := h.operations
  rw [hr] at hops
  have htype : o'.operationType = .publish := by
    rw [hs.type, (h.standing_newest ho).type_eq (by rw [hstate])]
    rfl
  have hlive : deletionState state = false := by
    rcases hnext with ⟨rfl,-⟩ | ⟨rfl,-⟩ <;> rfl
  exact {
    h.mono (Nat.le_succ now) with
    operations := hrows ▸ (hops.settle hs).mono (Nat.le_succ now)
    standing := by
      refine ⟨o',newest_eq_some.2 ⟨rest,hrows⟩,?_⟩
      rcases hnext with ⟨rfl,hf,hretry,-⟩ | ⟨rfl,hsucc,-⟩
      · exact Standing.failed (by rw [htype]; rfl) hf hretry
      · exact Standing.succeeded (by rw [htype]; rfl) hsucc
    failure := by
      rcases hnext with ⟨rfl,-,-,-,-,hc,hm⟩ | ⟨rfl,-,-,-,rfl,rfl,rfl⟩
      · exact FailureInv.failure rfl hc hm
      · exact FailureInv.clear rfl rfl rfl rfl
    publications := by
      refine h.publications.put hp hid rfl rfl (fun r hr _ => hr)
        (hrows ▸ hr ▸ Repeats.settle (by decide) hs) hrevision hactive hpoints ?_ ?_ ?_ ?_
      · rcases hnext with ⟨rfl,-⟩ | ⟨rfl,-⟩ <;> rfl
      · rcases hnext with ⟨rfl,-,-,hst,-⟩ | ⟨rfl,-,hst,-⟩ <;> exact hst
      · rcases hnext with ⟨-,-,-,-,hc,-⟩ | ⟨-,-,hst,-⟩
        · exact fun _ => hc
        · intro hf
          rw [hst] at hf
          cases hf
      · rcases hnext with ⟨-,-,-,hst,-⟩ | ⟨-,-,-,hv,-⟩
        · intro hf
          rw [hst] at hf
          cases hf
        · exact fun _ => hv
    deletion := h.deletion.frame
      ⟨rfl,rfl,fun r hr => ⟨r,hr,rfl⟩,rfl,hrows ▸ hr ▸ Repeats.settle (by decide) hs⟩ rfl
      (Or.inr ⟨by rw [hstate]; rfl,hlive⟩) rfl rfl rfl }

theorem DocumentInv.failDelete (h : DocumentInv s now d) (ho : newest d = some o)
    (hs : Settle o o') (hfailed : o'.state = .failed) (hstate : d.state = .deleting)
    (hreplaced : d.replacedByDocumentId = none) (code : FailureCode) (message : Text 500)
    (outbox : List IndexOutboxEntry) :
    DocumentInv s (now + 1) {Worker.Document.fail (Worker.failProgress code
      (d.putOperation o')) .deleteFailed code message o'.retryable with outbox := outbox} := by
  obtain ⟨rest,hr⟩ := newest_eq_some.1 ho
  have hrows : (d.putOperation o').operations.rows = o' :: rest :=
    rows_putOperation hr hs.id.symm
  have hops := h.operations
  rw [hr] at hops
  obtain ⟨p,hp,hinv⟩ := h.deletion.progress (by rw [hstate]; rfl)
  exact {
    h.mono (Nat.le_succ now) with
    operations := hrows ▸ (hops.settle hs).mono (Nat.le_succ now)
    standing := by
      refine ⟨o',newest_eq_some.2 ⟨rest,hrows⟩,Standing.failed ?_ hfailed rfl⟩
      rw [hs.type, (h.standing_newest ho).type_eq (by rw [hstate, hreplaced])]
      show _ = expected .deleteFailed d.replacedByDocumentId.isSome
      rw [hreplaced]
      rfl
    failure := FailureInv.failure rfl rfl rfl
    publications := h.publications.frame (Or.inr (Or.inl rfl)) rfl rfl
      (fun r hr _ => hr) (hrows ▸ hr ▸ Repeats.settle (by decide) hs)
    deletion := by
      refine ProgressInv.deletion (p := {p with failureCode := some code}) (hinv.frame
        ⟨rfl,rfl,fun r hr => ⟨r,hr,rfl⟩,rfl,hrows ▸ hr ▸ Repeats.settle (by decide) hs⟩
        {Progress.refl p with} (Or.inr (Or.inl ⟨hstate,rfl⟩)) rfl rfl rfl) ?_
      exact congrArg (Option.map _) hp }

/-! ### Publication -/

theorem DocumentInv.approve (h : DocumentInv s now d) (hstate : d.state = .preflighting)
    (ho : newest d = some o) (hs : Settle o o') {r : PreparedRevision} {points : ℕ}
    (hr : r ∈ d.preparedRevisions) (hpoints : r.expectedPointCount = some points)
    (hclear : isPublishable r = true) :
    DocumentInv s (now + 1) ((beginPublication now d r points .publish none).putOperation o') := by
  have hu : unapproved d.state = true := by rw [hstate]; rfl
  have hnone := h.publications.undecided hu
  have hsealed : r.status = .sealed := by
    unfold isPublishable at hclear
    simp only [Bool.and_eq_true, decide_eq_true_eq] at hclear
    exact hclear.1.1.1.1.1.1.1
  refine h.toPublishing hu (l := d.decisions) (Extends.of_settle h.operations ho hs rfl
    (by simp) rfl) hpoints ⟨hr,hsealed,Or.inl ⟨hclear,rfl⟩⟩ ?_ ?_
  · simp [hnone]
  · simp [hnone]

theorem Standing.not_isOpen {x : OperationType × Ending} (h : Standing d o)
    (hx : expected d.state d.replacedByDocumentId.isSome = x) (hp : x.2 ≠ .pending) :
    o.isOpen = false := isOpen_of_ending (h.ending_eq hx) hp

theorem DocumentInv.decide (h : DocumentInv s now d) (hstate : d.state = .reviewRequired)
    {r : PreparedRevision} {points : ℕ} {x : Decision} {priority : OperationPriority}
    {target : Option Uuid} (hr : r ∈ d.preparedRevisions) (hsealed : r.status = .sealed)
    (hpoints : r.expectedPointCount = some points) (hx : x.preparedRevisionId = r.id)
    (hmanifest : r.manifestSha256 = some x.preparedManifestSha256)
    (haction : (x.action = .keep ∧ x.targetDocumentId = none ∧ target = none) ∨
      (x.action = .replace ∧ x.targetDocumentId = target ∧ target.isSome = true))
    (hpriority : priorityForOperation .publish target.isSome = some priority)
    (htarget : target ≠ some d.id) :
    DocumentInv s (now + 1) (beginPublication now {d with decisions := d.decisions ++ [x]} r
      points priority target) := by
  have hu : unapproved d.state = true := by rw [hstate]; rfl
  have hone : d.decisions ++ [x] = [x] := by rw [h.publications.undecided hu]; rfl
  obtain ⟨o,ho,hstanding⟩ := h.standing
  have hclosed := hstanding.not_isOpen (x := (.preflight,.succeeded)) (by rw [hstate]; rfl)
    (by decide)
  refine h.toPublishing hu (l := d.decisions ++ [x]) (Extends.of_closed h.operations ho hclosed
    hpriority htarget rfl) hpoints ⟨hr,hsealed,Or.inr ⟨x,hone,hx,hmanifest,?_⟩⟩ ?_ ?_
  · rcases haction with ⟨ha,-,ht⟩ | ⟨ha,hd,ht⟩
    · exact Or.inl ⟨ha,ht⟩
    · exact Or.inr ⟨ha,hd.symm,ht⟩
  · rw [hone]; exact le_rfl
  · rw [hone, List.forall_mem_singleton]
    refine ⟨hx,hmanifest,?_⟩
    rcases haction with ⟨ha,hd,-⟩ | ⟨ha,hd,ht⟩
    · simp [ha, hd]
    · simp [ha, hd, ht]

theorem DocumentInv.upsert (h : DocumentInv s now d) (hstate : d.state = .publishing)
    {p : PublicationRecord} (hp : p ∈ d.publications) :
    DocumentInv s (now + 1)
      (d.putPublication {p with status := .upserted, failureCode := none}) := by
  obtain ⟨o,ho,hstanding⟩ := h.standing
  have hu : unapproved d.state = false := by rw [hstate]; rfl
  have hfits : statusFits d.state .upserted := by rw [hstate]; exact Or.inr rfl
  have hid : ({p with status := .upserted, failureCode := none} : PublicationRecord).id = p.id :=
    rfl
  exact {
    h.mono (Nat.le_succ now) with
    standing := ⟨o,ho,{hstanding with}⟩
    failure := {h.failure with}
    publications := h.publications.put hp hid rfl rfl (fun r hr _ => hr) (Repeats.refl _ _) rfl
      rfl rfl hu hfits (fun hf => by cases hf) (fun hf => by cases hf)
    deletion := h.deletion.frame ⟨rfl,rfl,fun r hr => ⟨r,hr,rfl⟩,rfl,Repeats.refl _ _⟩ rfl
      (Or.inl rfl) rfl rfl rfl }

/-! ### The start of a deletion -/

theorem DocumentInv.reject (h : DocumentInv s now d) (hstate : d.state = .preflighting)
    (ho : newest d = some o) (hs : Settle o o') {p : DeletionProgress}
    (hp : FreshProgress s d p) (hdisposition : p.terminalDisposition = .rejected)
    (code : FailureCode) :
    DocumentInv s (now + 1)
      ({startDeletion now d p with failureCode := some code}.putOperation o') :=
  h.toDeleting (by rw [hstate]; rfl) hp (l := d.decisions)
    (Extends.of_settle h.operations ho hs rfl (by simp) rfl) h.publications.deleting
    (fun _ => hdisposition)

/-- The newest operation of a document at rest has ended. -/
theorem DocumentInv.closed_of_rest (h : DocumentInv s now d) (hrest : d.state = .ready ∨
      d.state = .preflightFailed ∨ d.state = .reviewRequired ∨ d.state = .publishFailed) :
    ∃ o, newest d = some o ∧ o.isOpen = false := by
  obtain ⟨o,ho,hstanding⟩ := h.standing
  refine ⟨o,ho,hstanding.not_isOpen rfl ?_⟩
  rcases hrest with he | he | he | he <;> rw [he] <;> exact fun hc => by cases hc

theorem DocumentInv.cancel (h : DocumentInv s now d) (hstate : d.state = .reviewRequired)
    {r : PreparedRevision} {x : Decision} (hr : r ∈ d.preparedRevisions)
    (hsealed : r.status = .sealed) (hx : x.preparedRevisionId = r.id)
    (hmanifest : r.manifestSha256 = some x.preparedManifestSha256)
    (haction : x.action = .cancel ∧ x.targetDocumentId = none) {p : DeletionProgress}
    (hp : FreshProgress s d p) :
    DocumentInv s (now + 1)
      (startDeletion now {d with decisions := d.decisions ++ [x]} p) := by
  obtain ⟨o,ho,hclosed⟩ := h.closed_of_rest (Or.inr (Or.inr (Or.inl hstate)))
  exact h.toDeleting (by rw [hstate]; rfl) hp (l := d.decisions ++ [x])
    (Extends.of_closed h.operations ho hclosed rfl (by simp) rfl)
    (h.publications.cancelled (by rw [hstate]; rfl) hr hsealed hx hmanifest haction)
    (fun hc => by cases hc)

theorem DocumentInv.delete (h : DocumentInv s now d) (hstate : d.state = .ready ∨
      d.state = .preflightFailed ∨ d.state = .reviewRequired ∨ d.state = .publishFailed)
    {p : DeletionProgress} (hp : FreshProgress s d p) :
    DocumentInv s (now + 1) (startDeletion now d p) := by
  obtain ⟨o,ho,hclosed⟩ := h.closed_of_rest hstate
  refine h.toDeleting ?_ hp (l := d.decisions)
    (Extends.of_closed h.operations ho hclosed rfl (by simp) rfl) h.publications.deleting
    (fun hc => by cases hc)
  rcases hstate with he | he | he | he <;> rw [he] <;> rfl

/-! ### The replaced document -/

/-- The finished publication of a replaced document stays its newest operation. -/
theorem Standing.replaced {d' : Document} (h : Standing d o)
    (hx : expected d.state d.replacedByDocumentId.isSome = (.publish,.succeeded))
    (hx' : expected d'.state d'.replacedByDocumentId.isSome = (.publish,.succeeded)) :
    Standing d' o where
  shape := by rw [hx', ← hx]; exact h.shape
  retryable := by
    intro hf
    have := h.ending_eq hx
    rw [ending_eq_failed.2 hf] at this
    cases this

theorem DocumentInv.yield_ (h : DocumentInv s now d) (hstate : d.state = .ready)
    {p : DeletionProgress} (hp : FreshProgress s d p)
    (hdisposition : p.terminalDisposition = .deleted) (owner : Uuid) :
    DocumentInv s (now + 1) {d.clearFailure with
      deletionProgress := some p, state := .deleting, terminalDisposition := some .deleted,
      replacedByDocumentId := some owner} := by
  obtain ⟨o,ho,hstanding⟩ := h.standing
  have hlive := (h.deletion.live (by rw [hstate]; rfl)).2
  exact {
    h.mono (Nat.le_succ now) with
    standing := ⟨o,ho,hstanding.replaced (by rw [hstate]; rfl) rfl⟩
    failure := FailureInv.clear rfl rfl rfl rfl
    publications := h.publications.frame (Or.inr (Or.inl rfl)) rfl rfl (fun r hr _ => hr)
      (Repeats.refl _ _)
    deletion := ProgressInv.deletion (ProgressInv.start hlive hp rfl rfl rfl rfl rfl rfl
      (congrArg some hdisposition.symm) (fun _ => hdisposition)
      fun x hx hxt => absurd hxt (hlive.attempts x hx)) rfl }

theorem DocumentInv.failYielded (h : DocumentInv s now d) (hstate : d.state = .deleting)
    (howner : d.replacedByDocumentId.isSome = true) (code : FailureCode) (message : Text 500)
    (retryable : Bool) (outbox : List IndexOutboxEntry) :
    DocumentInv s (now + 1) {Worker.failProgress code
      (Worker.Document.fail d .deleteFailed code message retryable) with outbox := outbox} := by
  obtain ⟨o,ho,hstanding⟩ := h.standing
  obtain ⟨p,hp,hinv⟩ := h.deletion.progress (by rw [hstate]; rfl)
  exact {
    h.mono (Nat.le_succ now) with
    standing := by
      refine ⟨o,ho,hstanding.replaced (by rw [hstate, howner]; rfl) ?_⟩
      show expected .deleteFailed d.replacedByDocumentId.isSome = _
      rw [howner]
      rfl
    failure := FailureInv.failure rfl rfl rfl
    publications := h.publications.frame (Or.inr (Or.inl rfl)) rfl rfl (fun r hr _ => hr)
      (Repeats.refl _ _)
    deletion := by
      refine ProgressInv.deletion (p := {p with failureCode := some code}) (hinv.frame
        ⟨rfl,rfl,fun r hr => ⟨r,hr,rfl⟩,rfl,Repeats.refl _ _⟩ {Progress.refl p with}
        (Or.inr (Or.inl ⟨hstate,rfl⟩)) rfl rfl rfl) ?_
      exact congrArg (Option.map _) hp }

theorem DocumentInv.resumeYielded (h : DocumentInv s now d) (hstate : d.state = .deleteFailed)
    (howner : d.replacedByDocumentId.isSome = true) {p : DeletionProgress}
    (hp : d.deletionProgress = some p) :
    DocumentInv s (now + 1) {d.clearFailure with
      state := .deleting, deletionProgress := some {p with failureCode := none}} := by
  obtain ⟨o,ho,hstanding⟩ := h.standing
  exact {
    h.mono (Nat.le_succ now) with
    standing := by
      refine ⟨o,ho,hstanding.replaced (by rw [hstate, howner]; rfl) ?_⟩
      show expected .deleting d.replacedByDocumentId.isSome = _
      rw [howner]
      rfl
    failure := FailureInv.clear rfl rfl rfl rfl
    publications := h.publications.frame (Or.inr (Or.inl rfl)) rfl rfl (fun r hr _ => hr)
      (Repeats.refl _ _)
    deletion := ProgressInv.deletion (p := {p with failureCode := none})
      ((h.deletion.of_some hp).frame ⟨rfl,rfl,fun r hr => ⟨r,hr,rfl⟩,rfl,Repeats.refl _ _⟩
        {Progress.refl p with} (Or.inr (Or.inr ⟨hstate,rfl⟩)) rfl rfl rfl) rfl }

/-! ### Retries -/

theorem priority_value_injective {a b : OperationPriority} (h : a.value = b.value) : a = b := by
  cases a <;> cases b <;> first | rfl | cases h

/-- A closed newest operation can be taken up again in a phase of its class. -/
theorem DocumentInv.extends_resume (h : DocumentInv s now d) (ho : newest d = some o)
    (hclosed : o.isOpen = false) {priority : OperationPriority}
    (hpriority : priority.value = o.priority) {phase : OperationPhase}
    (hphase : allowedPhase o.operationType o.replacementTargetDocumentId.isSome phase = true) :
    Extends now d (newOperation now d o.operationType priority o.preparedRevisionId
      o.replacementTargetDocumentId phase)
      (d.putOperation (newOperation now d o.operationType priority o.preparedRevisionId
        o.replacementTargetDocumentId phase)).operations.rows := by
  have hvalid := h.operations.valid o (mem_of_newest ho)
  refine Extends.of_closed h.operations ho hclosed ?_ hvalid.target hphase
  obtain ⟨q,hq,hqv⟩ := Option.map_eq_some_iff.1 hvalid.priority
  rw [hq, priority_value_injective (hqv.trans hpriority.symm)]

/-- The resumed history repeats the bindings of its classes. -/
theorem repeats_resume (h : OperationsInv now d.id d.operations.rows) (ho : newest d = some o)
    {type : OperationType} {priority : OperationPriority} {phase : OperationPhase} :
    Repeats type d.operations.rows
      (d.putOperation (newOperation now d o.operationType priority o.preparedRevisionId
        o.replacementTargetDocumentId phase)).operations.rows := by
  rw [h.rows_put_fresh le_rfl rfl]
  exact Repeats.cons (mem_of_newest ho) rfl rfl rfl

theorem newest_resume (h : OperationsInv now d.id d.operations.rows)
    {o : WorkOperation} (hid : o.id = uuid4 now 0) : newest (d.putOperation o) = some o :=
  newest_eq_some.2 ⟨_,h.rows_put_fresh le_rfl hid⟩

theorem DocumentInv.failed_newest (h : DocumentInv s now d) (ho : newest d = some o)
    (he : (expected d.state d.replacedByDocumentId.isSome).2 = .failed) :
    o.state = .failed ∧ o.isOpen = false := by
  have hending := (h.standing_newest ho).ending_eq rfl
  rw [he] at hending
  exact ⟨ending_eq_failed.1 hending,isOpen_of_ending hending (by decide)⟩

theorem DocumentInv.allowedPhase_failed (h : DocumentInv s now d) (ho : newest d = some o)
    (hf : o.state = .failed) :
    allowedPhase o.operationType o.replacementTargetDocumentId.isSome o.phase = true :=
  (h.operations.valid o (mem_of_newest ho)).phase (by rw [hf]; exact fun hc => by cases hc)

theorem DocumentInv.retryPreflight (h : DocumentInv s now d) (hstate : d.state = .preflightFailed)
    (ho : newest d = some o) {priority : OperationPriority}
    (hpriority : priority.value = o.priority) :
    DocumentInv s (now + 1) (resume now d .preflighting o priority o.phase) := by
  have hf := h.failed_newest ho (by rw [hstate]; rfl)
  have htype := (h.standing_newest ho).type_eq (x := (.preflight,.failed)) (by rw [hstate]; rfl)
  exact {
    h.mono (Nat.le_succ now) with
    operations := (h.extends_resume ho hf.2 hpriority (h.allowedPhase_failed ho hf.1)).inv
    standing := ⟨_,newest_resume h.operations rfl,
      Standing.newOperation (by rw [htype]; rfl)⟩
    failure := FailureInv.clear rfl rfl rfl rfl
    publications := h.publications.frame (Or.inr (Or.inr ⟨by rw [hstate]; rfl,rfl⟩)) rfl rfl
      (fun r hr _ => hr) (repeats_resume h.operations ho)
    deletion := h.deletion.frame
      ⟨rfl,rfl,fun r hr => ⟨r,hr,rfl⟩,rfl,repeats_resume h.operations ho⟩ rfl
      (Or.inr ⟨by rw [hstate]; rfl,rfl⟩) rfl rfl rfl }

theorem DocumentInv.retryPublish (h : DocumentInv s now d) (hstate : d.state = .publishFailed)
    (ho : newest d = some o) {priority : OperationPriority}
    (hpriority : priority.value = o.priority) {p : PublicationRecord}
    (hp : p ∈ d.publications) :
    DocumentInv s (now + 1) (resume now
      (d.putPublication {p with status := .pending, failureCode := none}) .publishing o priority
      o.phase) := by
  have hf := h.failed_newest ho (by rw [hstate]; rfl)
  have htype := (h.standing_newest ho).type_eq (x := (.publish,.failed)) (by rw [hstate]; rfl)
  have hid : ({p with status := .pending, failureCode := none} : PublicationRecord).id = p.id :=
    rfl
  exact {
    h.mono (Nat.le_succ now) with
    operations := (h.extends_resume ho hf.2 hpriority (h.allowedPhase_failed ho hf.1)).inv
    standing := ⟨_,newest_resume h.operations rfl,
      Standing.newOperation (by rw [htype]; rfl)⟩
    failure := FailureInv.clear rfl rfl rfl rfl
    publications := h.publications.put hp hid rfl rfl (fun r hr _ => hr)
      (repeats_resume h.operations ho) rfl rfl rfl rfl (Or.inl rfl) (fun hc => by cases hc)
      (fun hc => by cases hc)
    deletion := h.deletion.frame
      ⟨rfl,rfl,fun r hr => ⟨r,hr,rfl⟩,rfl,repeats_resume h.operations ho⟩ rfl
      (Or.inr ⟨by rw [hstate]; rfl,rfl⟩) rfl rfl rfl }

theorem DocumentInv.retryDelete (h : DocumentInv s now d) (hstate : d.state = .deleteFailed)
    (howner : d.replacedByDocumentId = none) (ho : newest d = some o)
    {priority : OperationPriority} (hpriority : priority.value = o.priority)
    {p : DeletionProgress} (hp : d.deletionProgress = some p) :
    DocumentInv s (now + 1) (resume now
      {d with deletionProgress := some {p with failureCode := none}} .deleting o priority
      (.deletion p.phase)) := by
  have hf := h.failed_newest ho (by rw [hstate, howner]; rfl)
  have htype := (h.standing_newest ho).type_eq (x := (.delete,.failed))
    (by rw [hstate, howner]; rfl)
  exact {
    h.mono (Nat.le_succ now) with
    operations := (h.extends_resume ho hf.2 hpriority (by rw [htype]; rfl)).inv
    standing := by
      refine ⟨_,newest_resume h.operations rfl,Standing.newOperation ?_⟩
      show expected .deleting d.replacedByDocumentId.isSome = _
      rw [htype, howner]
      rfl
    failure := FailureInv.clear rfl rfl rfl rfl
    publications := h.publications.frame (Or.inr (Or.inl rfl)) rfl rfl
      (fun r hr _ => hr) (repeats_resume h.operations ho)
    deletion := ProgressInv.deletion (p := {p with failureCode := none})
      ((h.deletion.of_some hp).frame
        ⟨rfl,rfl,fun r hr => ⟨r,hr,rfl⟩,rfl,repeats_resume h.operations ho⟩
        {Progress.refl p with} (Or.inr (Or.inr ⟨hstate,rfl⟩)) rfl rfl rfl) rfl }

/-! ### Progress of a deletion -/

theorem DocumentInv.progress {b : Time} (h : DocumentInv s b d) {p p' : DeletionProgress}
    (hp : d.deletionProgress = some p) (hpp : Progress p p') :
    DocumentInv s b {d with deletionProgress := some p'} := by
  obtain ⟨o,ho,hstanding⟩ := h.standing
  exact {
    h with
    standing := ⟨o,ho,{hstanding with}⟩
    failure := {h.failure with}
    publications := h.publications.frame (Or.inl rfl) rfl rfl (fun r hr _ => hr)
      (Repeats.refl _ _)
    deletion := ProgressInv.deletion ((h.deletion.of_some hp).frame
      ⟨rfl,rfl,fun r hr => ⟨r,hr,rfl⟩,rfl,Repeats.refl _ _⟩ hpp (Or.inl rfl) rfl rfl rfl) rfl }

/-- What a purge keeps of a revision. -/
structure SameHeader (r r' : PreparedRevision) : Prop where
  id : r'.id = r.id
  number : r'.revisionNumber = r.revisionNumber
  status : r'.status = r.status
  identity : r'.identity = r.identity
  manifest : r'.manifestSha256 = r.manifestSha256
  points : r'.expectedPointCount = r.expectedPointCount
  publishable : isPublishable r = true → isPublishable r' = true

theorem sameHeader_emptyContent (ids : List Uuid) (r : PreparedRevision) :
    SameHeader r (Worker.emptyContent ids r) := by
  unfold Worker.emptyContent
  split
  · refine ⟨rfl,rfl,rfl,rfl,rfl,rfl,fun hp => ?_⟩
    unfold isPublishable at hp ⊢
    rw [Bool.and_eq_true] at hp ⊢
    exact ⟨hp.1,rfl⟩
  · exact ⟨rfl,rfl,rfl,rfl,rfl,rfl,id⟩

theorem RevisionValid.emptyContent {key : CollectionKey} {r : PreparedRevision}
    (h : RevisionValid s key r) (ids : List Uuid) :
    RevisionValid s key (Worker.emptyContent ids r) := by
  unfold Worker.emptyContent
  split
  · exact {h with}
  · exact h

theorem RevisionsInv.emptyContent {b : Time} {key : CollectionKey}
    {t : Table PreparedRevision.id} (h : RevisionsInv s b key t) (ids : List Uuid) :
    RevisionsInv s b key (t.update (Worker.emptyContent ids) (Worker.emptyContent_id ids)) where
  valid := by
    intro r' hr'
    obtain ⟨r,hr,rfl⟩ := Table.mem_update.1 hr'
    exact (h.valid r hr).emptyContent ids
  fresh := by
    intro r' hr'
    obtain ⟨r,hr,rfl⟩ := Table.mem_update.1 hr'
    have := h.fresh r hr
    unfold Worker.emptyContent
    split <;> exact this
  numbers := by
    intro r₁ r₂ h₁ h₂ he
    obtain ⟨a,ha,rfl⟩ := Table.mem_update.1 h₁
    obtain ⟨c,hc,rfl⟩ := Table.mem_update.1 h₂
    rw [(sameHeader_emptyContent ids a).number, (sameHeader_emptyContent ids c).number] at he
    rw [h.numbers a c ha hc he]

/-- Approval speaks about the headers of revisions. -/
theorem Approved.emptyContent {r : PreparedRevision} {target : Option Uuid}
    (h : Approved d r target) {ids : List Uuid} {d' : Document}
    (hd : d'.decisions = d.decisions) (hr : d'.preparedRevisions =
      d.preparedRevisions.update (Worker.emptyContent ids) (Worker.emptyContent_id ids)) :
    Approved d' (Worker.emptyContent ids r) target := by
  have hs := sameHeader_emptyContent ids r
  refine ⟨?_,hs.status.trans h.2.1,h.2.2.imp (fun hc => ⟨hs.publishable hc.1,hc.2⟩) ?_⟩
  · rw [hr]
    exact Table.mem_update_of_mem (Worker.emptyContent_id ids) h.1
  · rintro ⟨x,hx,hid,hm,ha⟩
    exact ⟨x,hd.trans hx,hid.trans hs.id.symm,hs.manifest.trans hm,ha⟩

theorem PublicationsInv.emptyContent (h : PublicationsInv d) {ids : List Uuid} {d' : Document}
    (hstate : d'.state = d.state) (hd : d'.decisions = d.decisions)
    (hp : d'.publications = d.publications) (ho : d'.operations = d.operations)
    (hr : d'.preparedRevisions =
      d.preparedRevisions.update (Worker.emptyContent ids) (Worker.emptyContent_id ids)) :
    PublicationsInv d' where
  decided := by
    rw [hd, hr]
    intro x hx
    obtain ⟨r,hm,hid,hsealed,hman⟩ := h.decided x hx
    have hs := sameHeader_emptyContent ids r
    exact ⟨_,Table.mem_update_of_mem (Worker.emptyContent_id ids) hm,hs.id.trans hid,hs.status.trans hsealed,
      hs.manifest.trans hman⟩
  singleDecision := hd ▸ h.singleDecision
  decisionTarget := hd ▸ h.decisionTarget
  undecided := by rw [hstate, hd]; exact h.undecided
  unpublished := by rw [hstate, hp]; exact h.unpublished
  single := hp ▸ h.single
  bound := by
    rw [hp]
    intro p hm
    obtain ⟨r,target,ha,hid,hc,he,hops⟩ := h.bound p hm
    have hs := sameHeader_emptyContent ids r
    refine ⟨_,target,ha.emptyContent hd hr,hs.id.trans hid,?_,hs.points.trans he,?_⟩
    · rw [hs.identity]; exact hc
    · rw [ho, hs.id]; exact hops
  attempts := by rw [hp, ho]; exact h.attempts
  present := by rw [hstate, hp]; exact h.present
  status := by rw [hstate, hp]; exact h.status
  failure := hp ▸ h.failure
  proof := hp ▸ h.proof

theorem DocumentInv.purge {b : Time} (h : DocumentInv s b d) {p : DeletionProgress}
    (hp : d.deletionProgress = some p) (hzero : p.screeningZeroVerifiedAt.isSome = true)
    (ids : List Uuid) : DocumentInv s b (purged now d p ids) := by
  obtain ⟨o,ho,hstanding⟩ := h.standing
  have hinv := h.deletion.of_some hp
  exact {
    h with
    standing := ⟨o,ho,{hstanding with}⟩
    failure := {h.failure with}
    revisions := h.revisions.emptyContent ids
    publications := h.publications.emptyContent rfl rfl rfl rfl rfl
    deletion := by
      refine ProgressInv.deletion (p := {p with
        storagePurgedAt := some now, phase := .commitTombstone}) ?_ rfl
      exact {
        hinv with
        revision := by
          intro id hid
          obtain ⟨r,hr,hrid⟩ := hinv.revision id hid
          exact ⟨_,Table.mem_update_of_mem (Worker.emptyContent_id ids) hr,
            (Worker.emptyContent_id ids r).trans hrid⟩
        purged := fun _ => hzero
        complete := fun _ => rfl
        source := rfl } }

/-- The tombstone of a document, with the history `t`. -/
theorem DocumentInv.entomb (h : DocumentInv s now d) {p : DeletionProgress}
    (hp : d.deletionProgress = some p) (hpurged : p.storagePurgedAt.isSome = true)
    {t : Tombstone} (ht : t.disposition = p.terminalDisposition) (reason : Option FailureCode)
    {d' : Document} (hd' : d' = {Lifecycle.tombstoned now d p reason t with
      operations := d'.operations})
    (hops : OperationsInv (now + 1) d.id d'.operations.rows)
    (hstanding : ∃ o, newest d' = some o ∧ Standing d' o)
    (hrepeats : ∀ type, type ≠ .preflight →
      Repeats type d.operations.rows d'.operations.rows) :
    DocumentInv s (now + 1) d' := by
  have hinv := h.deletion.of_some hp
  generalize d'.operations = operations at *
  subst hd'
  have hdead := deletionState_toState p.terminalDisposition
  have hlive : Api.failedState p.terminalDisposition.toState = false := by
    cases p.terminalDisposition <;> rfl
  exact {
    h.mono (Nat.le_succ now) with
    operations := hops
    standing := hstanding
    failure := {
      failed := fun hf => by
        have hf' : Api.failedState p.terminalDisposition.toState = true := hf
        rw [hlive] at hf'
        cases hf'
      message := fun _ => rfl
      retryable := fun _ => rfl
      code := by
        intro _ hc
        have hc' : (if p.terminalDisposition.toState = .rejected then reason else none).isSome =
          true := hc
        show some p.terminalDisposition = _
        cases hd : p.terminalDisposition <;> rw [hd] at hc' <;> first | rfl | cases hc' }
    publications := h.publications.frame (Or.inr (Or.inl hdead)) rfl rfl (fun r hr _ => hr)
      (hrepeats .publish (by decide))
    deletion := by
      refine ProgressInv.deletion (p := {p with
        phase := .commitTombstone, failureCode := none, tombstonedAt := some now}) ?_ rfl
      exact {
        hinv with
        disposition := rfl
        state := Or.inr (Or.inr rfl)
        tombstoned := ⟨fun _ => rfl,fun _ => rfl⟩
        complete := fun _ => hpurged
        tombstone := fun _ => ⟨t,rfl,ht⟩
        pending := fun hc => by cases hc
        attempts := by
          intro x hx hxt
          obtain ⟨y,hy,hyt,hrev,-⟩ := hrepeats .delete (by decide) x hx hxt
          exact hrev ▸ hinv.attempts y hy hyt } }

theorem DocumentInv.bury (h : DocumentInv s now d) {p : DeletionProgress}
    (hp : d.deletionProgress = some p) (hpurged : p.storagePurgedAt.isSome = true)
    (hstate : d.state = .deleting) (howner : d.replacedByDocumentId.isSome = true)
    {t : Tombstone} (ht : t.disposition = p.terminalDisposition) (reason : Option FailureCode) :
    DocumentInv s (now + 1) (tombstoned now d p reason t) := by
  obtain ⟨o,ho,hstanding⟩ := h.standing
  refine h.entomb hp hpurged ht reason rfl (h.operations.mono (Nat.le_succ now))
    ⟨o,ho,hstanding.replaced (by rw [hstate, howner]; rfl) ?_⟩ (fun type _ => Repeats.refl _ _)
  have hdeleted := (h.deletion.of_some hp).replaced howner
  show expected p.terminalDisposition.toState d.replacedByDocumentId.isSome = _
  rw [hdeleted, howner]
  rfl

theorem DocumentInv.buryOwn (h : DocumentInv s now d) {p : DeletionProgress}
    (hp : d.deletionProgress = some p) (hpurged : p.storagePurgedAt.isSome = true)
    (ho : newest d = some o) (hopen : o.isOpen = true) (hs : Settle o o')
    (hsucceeded : o'.state = .succeeded) {t : Tombstone}
    (ht : t.disposition = p.terminalDisposition) (reason : Option FailureCode) :
    DocumentInv s (now + 1) ((tombstoned now d p reason t).putOperation o') := by
  obtain ⟨rest,hr⟩ := newest_eq_some.1 ho
  have hrows : ((tombstoned now d p reason t).putOperation o').operations.rows = o' :: rest :=
    rows_putOperation hr hs.id.symm
  have hops := h.operations
  rw [hr] at hops
  have hstanding := h.standing_newest ho
  have hdeleting : d.replacedByDocumentId = none ∧ o.operationType = .delete := by
    rcases hstanding.pending hopen with ⟨he,-⟩ | ⟨he,-⟩ | ⟨-,hown,htype⟩
    · have := (h.deletion.live (by rw [he]; rfl)).1
      rw [hp] at this
      cases this
    · have := (h.deletion.live (by rw [he]; rfl)).1
      rw [hp] at this
      cases this
    · exact ⟨hown,htype⟩
  refine h.entomb hp hpurged ht reason rfl
    (hrows ▸ (hops.settle hs).mono (Nat.le_succ now))
    ⟨o',newest_eq_some.2 ⟨rest,hrows⟩,Standing.succeeded ?_ hsucceeded⟩
    (fun type htype => hrows ▸ hr ▸ Repeats.settle htype hs)
  show _ = expected p.terminalDisposition.toState d.replacedByDocumentId.isSome
  rw [hs.type, hdeleting.1, hdeleting.2]
  cases p.terminalDisposition <;> rfl

/-! ### Every transition -/

theorem DocumentInv.fail (h : DocumentInv s now d) (ho : newest d = some o)
    (hopen : o.isOpen = true) (hs : Settle o o') (hfailed : o'.state = .failed)
    (code : FailureCode) (message : Text 500) (outbox : List IndexOutboxEntry) :
    DocumentInv s (now + 1) {Worker.failDocument o code message o'.retryable
      (d.putOperation o') with outbox := outbox} := by
  unfold Worker.failDocument
  rcases (h.standing_newest ho).pending hopen with
    ⟨hstate,htype⟩ | ⟨hstate,htype⟩ | ⟨hstate,hreplaced,htype⟩
  · have hne : (d.putOperation o').state ≠ .deleting := by
      show d.state ≠ .deleting
      rw [hstate]
      decide
    rw [htype]
    simp only [if_neg hne]
    exact h.failPreflight ho hs hfailed hstate code message outbox
  · obtain ⟨p,hp,hfits,hlookup,hops⟩ := h.publication (by rw [hstate]; rfl)
    have hrevision := hops o (mem_of_newest ho) htype
    have hlookup' : (d.putOperation o').publicationForRevision p.preparedRevisionId = some p :=
      hlookup
    have hne : p.status ≠ .verified := by
      rw [hstate] at hfits
      rcases hfits with he | he <;> rw [he] <;> decide
    have hfail : Worker.failPublication code o.preparedRevisionId (d.putOperation o') =
        (d.putOperation o').putPublication
          {p with status := .failed, failureCode := some code} := by
      unfold Worker.failPublication
      rw [hrevision, Option.bind_some, hlookup']
      exact if_neg hne
    rw [htype]
    simp only [hfail]
    have hid : ({p with status := .failed, failureCode := some code} : PublicationRecord).id =
      p.id := rfl
    exact h.settlePublication ho hs hstate hp hid rfl rfl rfl
      (Or.inl ⟨rfl,hfailed,rfl,rfl,rfl,rfl,rfl⟩)
  · rw [htype]
    exact h.failDelete ho hs hfailed hstate hreplaced code message outbox

/-- Every transition of a document keeps its invariant. -/
theorem Change.documentInv {rejects : FailureCode → Prop} {d' : Document}
    (hc : Change s rejects now d d') (h : DocumentInv s now d) :
    DocumentInv s (now + 1) d' := by
  cases hc with
  | touch operations ht => exact (h.touch operations ht).mono (Nat.le_succ now)
  | index outbox => exact h.index outbox
  | revise revisions hsealed hids hinv => exact h.revise revisions hsealed hids hinv
  | review hstate ho hs hsucceeded => exact h.review hstate ho hs hsucceeded
  | approve hstate ho hs hsucceeded hr hpoints hclear =>
    exact h.approve hstate ho hs hr hpoints hclear
  | @reject _ _ hstate ho hs hsucceeded _ hp hdisposition code _ =>
    exact h.reject hstate ho hs hp hdisposition code
  | fail ho hopen hs hfailed code message outbox =>
    exact h.fail ho hopen hs hfailed code message outbox
  | upsert hstate hp => exact h.upsert hstate hp
  | publish hstate ho hs hsucceeded hp hid hrevision hactive hpoints hstatus hproof =>
    exact h.settlePublication ho hs hstate hp hid hrevision hactive hpoints
      (Or.inr ⟨rfl,hsucceeded,hstatus,hproof,rfl,rfl,rfl⟩)
  | decide hstate hr hsealed hpoints hx hmanifest haction hpriority htarget =>
    exact h.decide hstate hr hsealed hpoints hx hmanifest haction hpriority htarget
  | cancel hstate hr hsealed hx hmanifest haction hp =>
    exact h.cancel hstate hr hsealed hx hmanifest haction hp
  | delete hstate hp hdisposition => exact h.delete hstate hp
  | yield_ hstate hp hdisposition owner => exact h.yield_ hstate hp hdisposition owner
  | failYielded hstate howner code message retryable outbox =>
    exact h.failYielded hstate howner code message retryable outbox
  | resumeYielded hstate howner hp => exact h.resumeYielded hstate howner hp
  | retryPreflight hstate ho hpriority => exact h.retryPreflight hstate ho hpriority
  | retryPublish hstate ho hpriority hp => exact h.retryPublish hstate ho hpriority hp
  | retryDelete hstate howner ho hpriority hp =>
    exact h.retryDelete hstate howner ho hpriority hp
  | progress hp hpp operations ht =>
    exact ((h.touch operations ht).progress hp hpp).mono (Nat.le_succ now)
  | purge hp hzero ids operations ht =>
    exact ((h.touch operations ht).purge hp hzero ids).mono (Nat.le_succ now)
  | bury hp hpurged hstate howner ht => exact h.bury hp hpurged hstate howner ht _
  | buryOwn hp hpurged ho hopen hs hsucceeded ht =>
    exact h.buryOwn hp hpurged ho hopen hs hsucceeded ht _

end Lifecycle
end PdfBridge
