import PdfBridge.Lifecycle.Shown

/-! The reason of a terminal rejection on its way to the tombstone. -/
namespace PdfBridge
namespace Lifecycle
open Worker Api Intake

variable {s : Settings} {enc : Encoding} {rejects : FailureCode → Prop} {strands : Prop}
  {w w₁ w₂ : World} {e : Event} {now : Time} {d d' : Document} {id : Uuid} {code : FailureCode}

/-- The event ends the preflight of a document in a terminal rejection for this reason. -/
def Rejects (s : Settings) (enc : Encoding) (w : World) (e : Event) (id : Uuid)
    (code : FailureCode) : Prop :=
  match e with
  | .work slot i => ∃ t x, w.slots slot = some t ∧ t.claimed.documentId = id ∧
      w.workStep s enc slot i = some x ∧ Rejection x.request x.answer code
  | _ => False

/-- The document and its tombstone carry the reason. -/
def ReasonKept (d : Document) (code : FailureCode) : Prop :=
  d.failureCode = some code ∧ ∃ t, d.tombstone = some t ∧ t.reasonCode = some code

/-- No purge of the document has failed. -/
def PurgeIntact (c : Catalog) (id : Uuid) : Prop :=
  ∀ d ∈ c.documents.rows, d.id = id → d.state ≠ .deleteFailed

/-- A rejected document on its way to the tombstone, unless its purge has failed. -/
structure Carries (d : Document) (code : FailureCode) : Prop where
  disposition : d.terminalDisposition = some .rejected
  purging : d.state = .deleting → d.failureCode = some code
  rejected : d.state = .rejected → ReasonKept d code

theorem DocumentInv.progress_of_disposition (h : DocumentInv s now d) {x : TerminalDisposition}
    (hx : d.terminalDisposition = some x) :
    ∃ p, d.deletionProgress = some p ∧ ProgressInv s d p ∧ p.terminalDisposition = x := by
  cases hp : d.deletionProgress with
  | none =>
    have hlive := h.deletion
    unfold DeletionInv at hlive
    rw [hp] at hlive
    rw [hlive.disposition] at hx
    cases hx
  | some p =>
    have pinv := h.deletion.of_some hp
    exact ⟨p,rfl,pinv,Option.some.inj (pinv.disposition.symm.trans hx)⟩

/-- As long as its purge has not failed, a rejected document keeps its reason. -/
theorem Carries.change (hd : Carries d code) (h : DocumentInv s now d)
    (hstate : d.state ≠ .deleteFailed) (hc : Change s rejects now d d') : Carries d' code := by
  obtain ⟨p,hp,pinv,hdisposition⟩ := h.progress_of_disposition hd.disposition
  have hdeletion : deletionState d.state = true := by
    rcases pinv.state with hs | hs | hs <;> rw [hs]
    · rfl
    · rfl
    · rw [deletionState_toState]
  have live : deletionState d.state ≠ false := by rw [hdeletion]; decide
  have hfree : d.replacedByDocumentId.isSome ≠ true := fun hr => by
    have := pinv.replaced hr
    rw [hdisposition] at this
    cases this
  have purging : ∀ {o : WorkOperation}, newest d = some o → o.isOpen = true →
      d.state = .deleting ∧ o.operationType = .delete := by
    intro o ho hopen
    rcases (h.standing_newest ho).pending hopen with ⟨hs,-⟩ | ⟨hs,-⟩ | ⟨hs,-,htype⟩
    · exact absurd (by rw [hs]; rfl) live
    · exact absurd (by rw [hs]; rfl) live
    · exact ⟨hs,htype⟩
  cases hc with
  | review hs | approve hs | reject hs | upsert hs | publish hs | decide hs | cancel hs
  | yield_ hs | retryPreflight hs | retryPublish hs => exact absurd (by rw [hs]; rfl) live
  | delete hs => exact absurd (by rcases hs with hs | hs | hs | hs <;> rw [hs] <;> rfl) live
  | resumeYielded hs | retryDelete hs => exact absurd hs hstate
  | failYielded _ howner => exact absurd howner hfree
  | bury _ _ _ howner => exact absurd howner hfree
  | touch | index | revise | progress | purge =>
    exact ⟨hd.disposition,hd.purging,hd.rejected⟩
  | @fail o o' ho hopen hs hfailed failure message outbox =>
    obtain ⟨-,hdelete⟩ := purging ho hopen
    have hs' : (failDocument o failure message o'.retryable (d.putOperation o')).state =
        .deleteFailed := failDocument_state.2.2 hdelete
    exact ⟨(failDocument_disposition _ failure message _ (d.putOperation o')).trans hd.disposition,
      (fun hc => by cases hs'.symm.trans hc),(fun hc => by cases hs'.symm.trans hc)⟩
  | buryOwn hq hpurged ho hopen hs hsucceeded ht hreason =>
    cases hp.symm.trans hq
    have hretained : retainedReason d = some code := by
      rw [retainedReason, if_pos hd.disposition]
      exact hd.purging (purging ho hopen).1
    have hterminal : p.terminalDisposition.toState = .rejected := by rw [hdisposition]; rfl
    refine ⟨hdisposition ▸ rfl,fun hc => ?_,fun _ => ⟨?_,_,rfl,hreason.trans hretained⟩⟩
    · have hc : p.terminalDisposition.toState = .deleting := hc
      rw [hterminal] at hc
      cases hc
    · show (if p.terminalDisposition.toState = .rejected then retainedReason d else none) = _
      rw [if_pos hterminal, hretained]

/-- An accepted rejection gives the document its reason. -/
theorem Rejects.carries (h : Reachable s enc w) (hr : Rejects s enc w e id code)
    (hstep : w.step s enc e = some w₁) :
    ∃ d, d ∈ w₁.shared.catalog.documents ∧ d.id = id ∧ Carries d code := by
  obtain ⟨know,hinv⟩ : ∃ know, WorldInv s True w know := h.inv fun _ _ _ _ => trivial
  unfold World.step at hstep
  obtain ⟨w',happly,rfl⟩ := Option.map_eq_some_iff.1 hstep
  cases e with
  | work slot i =>
    obtain ⟨t,x,hslot,rfl,hwork,hrejection⟩ := hr
    obtain ⟨claimed,r,k,a,σ,hslot',hexec,hwork',rfl⟩ := work_ok happly
    cases hslot.symm.trans hslot'
    cases hwork.symm.trans hwork'
    obtain ⟨hclaimed,-,hp,-⟩ := hinv.threads slot _ hslot
    cases r with
    | catalog r =>
      cases r with
      | acceptRejection reason active =>
        rcases exec_catalog hexec with ⟨b,c,hrun,rfl,rfl⟩ | ⟨_,rfl,-,-⟩
        · cases hrejection
          obtain ⟨d,hd,hid,hs,hdisposition,hcode⟩ := acceptRejection_ok hinv.catalog hrun
            fun d o ho => (hclaimed.type ho).trans hp.1.2.1
          exact ⟨d,hd,hid,hdisposition,fun _ => hcode,fun hc => by cases hs.symm.trans hc⟩
        · cases hrejection
      | _ => cases hrejection
    | _ => cases hrejection
  | _ => cases hr

/-- The reason of a rejection reaches the tombstone when no purge of the document fails. -/
theorem rejection_reason_kept (h : Reachable s enc w) (hr : Rejects s enc w e id code)
    (hstep : w.step s enc e = some w₁)
    (hrun : Steps s enc (fun w _ => PurgeIntact w.shared.catalog id) w₁ w₂)
    (hd : d ∈ w₂.shared.catalog.documents) (hid : d.id = id) (hstate : d.state = .rejected) :
    ReasonKept d code := by
  obtain ⟨d₁,hd₁,hid₁,hcarries⟩ := hr.carries h hstep
  have hkeep : ∀ (w : World) (_ : Event), PurgeIntact w.shared.catalog id → ∀ x x',
      x ∈ w.shared.catalog.documents → DocumentInv s w.shared.now x →
      x.id = id ∧ Carries x code → Change s (fun _ => True) w.shared.now x x' → x'.id = id ∧ Carries x' code := by
    intro w e he x x' hx hinv hI hc
    exact ⟨hc.id.trans hI.1,hI.2.change hinv (he x hx hI.1) hc⟩
  obtain ⟨-,d₂,hd₂,-,hid₂,hcarries₂⟩ :=
    hrun.document (h.step trivial hstep) hd₁ ⟨hid₁,hcarries⟩ hkeep
  cases Table.eq_of_key_eq hd hd₂ (hid.trans hid₂.symm)
  exact hcarries₂.rejected hstate

/-! ### A purge that fails once -/

instance (c : Catalog) (id : Uuid) : Decidable (PurgeIntact c id) :=
  inferInstanceAs (Decidable (∀ d ∈ c.documents.rows, d.id = id → d.state ≠ .deleteFailed))

/-- The rejection that the next step of a slot accepts. -/
def nextRejection (s : Settings) (enc : Encoding) (w : World) (slot : Slot) (i : Input) :
    Option (Uuid × FailureCode) :=
  match w.slots slot, w.workStep s enc slot i with
  | some t, some ⟨.catalog (.acceptRejection code _),.ok _,_⟩ => some (t.claimed.documentId,code)
  | _, _ => none

theorem nextRejection_rejects {slot : Slot} {i : Input}
    (h : nextRejection s enc w slot i = some (id,code)) :
    Rejects s enc w (.work slot i) id code := by
  unfold nextRejection at h
  split at h
  · rename_i t reason active u w' hslot hwork
    cases h
    exact ⟨t,_,hslot,rfl,hwork,rfl⟩
  · cases h

def isRejection : Request → Bool
  | .catalog (.acceptRejection _ _) => true
  | _ => false

/-- A preflight about to be rejected. -/
def beforeRejection : List Cue :=
  [.act (uploadOf "scan"),.act (.claim .first),.turn .first imageOnly isRejection]

/-- The first document after its rejection and a script. -/
def afterRejection (s : Settings) (enc : Encoding) (guard : World → Bool) (cues : List Cue)
    (code : FailureCode) (test : Document → Bool) : Bool :=
  (play s enc always beforeRejection World.initial).any fun w =>
    nextRejection s enc w .first .proceed = some (uuid4 0 0,code) &&
    ((w.step s enc (.work .first .proceed)).bind (play s enc guard cues)).any fun w₂ =>
      w₂.shared.catalog.documents.rows.any fun d => d.id = uuid4 0 0 && test d

theorem afterRejection_run {guard : World → Bool} {cues : List Cue} {test : Document → Bool}
    (h : afterRejection s enc guard cues code test = true) :
    ∃ w w₁ w₂ d, Reachable s enc w ∧ Rejects s enc w (.work .first .proceed) (uuid4 0 0) code ∧
      w.step s enc (.work .first .proceed) = some w₁ ∧
      Steps s enc (fun w _ => guard w = true) w₁ w₂ ∧ d ∈ w₂.shared.catalog.documents ∧
      d.id = uuid4 0 0 ∧ test d = true := by
  obtain ⟨w,hw,ht⟩ := play_any s enc (fun _ _ => True) beforeRejection _ (fun _ _ _ => trivial)
    (fun _ _ _ => trivial) h
  rw [Bool.and_eq_true, decide_eq_true_eq, Option.any_eq_true] at ht
  obtain ⟨hreject,w₂,hrun,ht⟩ := ht
  obtain ⟨w₁,hstep,hplay⟩ := Option.bind_eq_some_iff.1 hrun
  obtain ⟨d,hd,ht⟩ := List.any_eq_true.1 ht
  rw [Bool.and_eq_true, decide_eq_true_eq] at ht
  exact ⟨w,w₁,w₂,d,hw,nextRejection_rejects hreject,hstep,
    play_steps (fun _ _ _ hg => hg) (fun _ _ _ hg => hg) hplay,hd,ht.1,ht.2⟩

/-- After a failed purge and a retry, the tombstone has lost the reason. -/
theorem rejection_reason_lost : ∃ w w₁ w₂ e d code, Reachable booksSettings plainEncoding w ∧
    Rejects booksSettings plainEncoding w e d.id code ∧
    w.step booksSettings plainEncoding e = some w₁ ∧
    Steps booksSettings plainEncoding (fun _ _ => True) w₁ w₂ ∧
    d ∈ w₂.shared.catalog.documents ∧ d.state = .rejected ∧ ¬ ReasonKept d code := by
  have h : afterRejection booksSettings plainEncoding always
      (.turn .first smoothly never :: turnOf failsDeletes ++
        .act (.retry (uuid4 0 0) sampleOperator) :: turnOf smoothly)
      (failureCode "extraction_image-only")
      (fun d : Document => d.state = .rejected && d.failureCode = none) = true := by decide +kernel
  obtain ⟨w,w₁,w₂,d,hw,hreject,hstep,hrun,hd,hid,ht⟩ := afterRejection_run h
  rw [Bool.and_eq_true, decide_eq_true_eq, decide_eq_true_eq] at ht
  refine ⟨w,w₁,w₂,_,d,_,hw,hid ▸ hreject,hstep,
    hrun.mono (fun _ _ _ => trivial),hd,ht.1,?_⟩
  rintro ⟨hcode,-⟩
  rw [ht.2] at hcode
  cases hcode

/-- A purge at the first attempt keeps the reason. -/
theorem rejection_reason_kept_first : ∃ d : Document, d.state = .rejected ∧
    ReasonKept d (failureCode "extraction_image-only") := by
  have h : afterRejection booksSettings plainEncoding
      (fun w => decide (PurgeIntact w.shared.catalog (uuid4 0 0)))
      (.turn .first smoothly never :: turnOf smoothly)
      (failureCode "extraction_image-only") (fun d => d.state = .rejected) = true := by
    decide +kernel
  obtain ⟨w,w₁,w₂,d,hw,hreject,hstep,hrun,hd,hid,ht⟩ := afterRejection_run h
  have hstate := of_decide_eq_true ht
  exact ⟨d,hstate,rejection_reason_kept hw hreject hstep
    (hrun.mono fun _ _ hg => of_decide_eq_true hg) hd hid
    hstate⟩

end Lifecycle
end PdfBridge
