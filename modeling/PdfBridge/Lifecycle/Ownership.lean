import PdfBridge.Lifecycle.Scenario

/-! Work ownership: a busy document has exactly one open operation that works on it, and the
attempts of a work class are numbered without gaps. -/
namespace PdfBridge
namespace Lifecycle
open Worker Api Intake

variable {s : Settings} {enc : Encoding} {rejects : FailureCode → Prop} {w : World} {c : Catalog}
  {now : Time} {d d' t : Document} {o o' : WorkOperation}

/-! ### Attempts -/

/-- The attempts of a work class, newest first. -/
def attemptsOf (rows : List WorkOperation) (type : OperationType) : List ℕ :=
  (rows.filter fun o => o.operationType = type).map (·.attempt)

/-- The attempts of every work class are 1, 2, 3, … in the order in which they were made. -/
def Numbered (d : Document) : Prop :=
  ∀ type, (attemptsOf d.operations.rows type).reverse =
    List.range' 1 (attemptsOf d.operations.rows type).length

theorem foldr_max_range' (n : ℕ) : (List.range' 1 n).reverse.foldr max 0 = n := by
  induction n with
  | zero => rfl
  | succ n ih =>
    rw [List.range'_1_concat, List.reverse_append, List.reverse_singleton,
      List.singleton_append, List.foldr_cons, ih]
    omega

theorem Numbered.nextAttempt_eq (h : Numbered d) (type : OperationType) :
    nextAttempt d type = (attemptsOf d.operations.rows type).length + 1 := by
  have hrev : attemptsOf d.operations.rows type =
      (List.range' 1 (attemptsOf d.operations.rows type).length).reverse := by
    rw [← h type, List.reverse_reverse]
  show (attemptsOf d.operations.rows type).foldr max 0 + 1 = _
  rw [hrev, foldr_max_range', List.length_reverse, List.length_range']

theorem attemptsOf_same {rows rows' : List WorkOperation}
    (h : List.Forall₂ SameBinding rows rows') (type : OperationType) :
    attemptsOf rows' type = attemptsOf rows type := by
  induction h with
  | nil => rfl
  | @cons a b _ _ ho _ ih =>
    unfold attemptsOf at ih ⊢
    by_cases ha : a.operationType = type
    · simp [ho.type, ho.attempt, ha, ih]
    · simp [ho.type, ha, ih]

/-- A transition adds at most the next attempt. -/
theorem Numbered.change (h : Numbered d) (hc : Change s rejects now d d')
    (hd : DocumentInv s now d) : Numbered d' := by
  intro type
  obtain ⟨front,⟨mid,hrows,hmid⟩,hlength,hfront⟩ := hc.continues hd
  have hsame := attemptsOf_same hmid type
  cases front with
  | nil =>
    rw [hrows, List.nil_append, hsame]
    exact h type
  | cons o front =>
    obtain rfl : front = [] := List.length_eq_zero_iff.1 (by simpa using hlength)
    have hattempt := (hfront o List.mem_cons_self).2.1
    rw [hrows, List.singleton_append]
    unfold attemptsOf at hsame ⊢
    by_cases htype : o.operationType = type
    · have hnext := h.nextAttempt_eq type
      rw [htype, hnext] at hattempt
      have hold := h type
      simp only [List.filter_cons, htype, decide_true, if_true, List.map_cons, hsame,
        List.reverse_cons, List.length_cons, hattempt]
      rw [List.range'_1_concat]
      exact congrArg₂ _ hold (by rw [attemptsOf, Nat.add_comm])
    · simp only [List.filter_cons, htype, decide_false, Bool.false_eq_true, if_false, hsame]
      exact h type

theorem admitted_numbered (now : Time) (x : PreparedAdmission) : Numbered (admitted now x) := by
  intro type
  rw [admitted_rows]
  cases type <;> rfl

/-! ### Owners -/

/-- The state of a document while its own operation of a work class is open. -/
def busyState : OperationType → DocumentState
  | .preflight => .preflighting
  | .publish => .publishing
  | .delete => .deleting

def busy (x : DocumentState) : Bool := x = .preflighting || x = .publishing || x = .deleting

/-- An open operation works on its own document, and a publication also on the document that it
replaces as long as that one is not deleted. -/
def Owner (c : Catalog) (d : Document) (o : WorkOperation) : Prop :=
  ∃ i, i ∈ c.documents ∧ o ∈ i.operations.rows ∧ o.isOpen = true ∧
    (i.id = d.id ∨ (o.operationType = .publish ∧ o.replacementTargetDocumentId = some d.id ∧
      d.state ≠ .deleted))

/-- Exactly the busy documents have an owner, and only one. -/
structure WorkOwnership (c : Catalog) (d : Document) : Prop where
  busy : busy d.state = true ↔ ∃! o, Owner c d o
  idle : Lifecycle.busy d.state = false → ∀ o, ¬ Owner c d o
  own : ∀ o ∈ d.operations.rows, o.isOpen = true → d.state = busyState o.operationType
  numbered : Numbered d

/-- An owner is the open operation of the document itself, or of the one that replaces it. -/
theorem CatalogInv.owner_cases (h : CatalogInv s True now c) (hd : d ∈ c.documents)
    (ho : Owner c d o) :
    (newest d = some o ∧ d.state = busyState o.operationType ∧
      (d.state = .deleting → d.replacedByDocumentId = none)) ∨
    (d.state = .deleting ∧ ∃ i, i ∈ c.documents ∧ d.replacedByDocumentId = some i.id ∧
      newest i = some o) := by
  obtain ⟨i,hi,hoi,hopen,hid | ⟨htype,htarget,hstate⟩⟩ := ho
  · cases Table.eq_of_key_eq hi hd hid
    obtain ⟨hnewest,hstanding⟩ := (h.documents d hd).state_of_isOpen hoi hopen
    refine Or.inl ⟨hnewest,?_⟩
    rcases hstanding.pending hopen with ⟨hs,ht⟩ | ⟨hs,ht⟩ | ⟨hs,hr,ht⟩
    · exact ⟨by rw [hs, ht]; rfl,fun hc => by rw [hs] at hc; cases hc⟩
    · exact ⟨by rw [hs, ht]; rfl,fun hc => by rw [hs] at hc; cases hc⟩
    · exact ⟨by rw [hs, ht]; rfl,fun _ => hr⟩
  · obtain ⟨hnewest,hstanding⟩ := (h.documents i hi).state_of_isOpen hoi hopen
    have hpublishing : i.state = .publishing := by
      rcases hstanding.pending hopen with ⟨-,ht⟩ | ⟨hs,-⟩ | ⟨-,-,ht⟩
      · rw [htype] at ht
        cases ht
      · exact hs
      · rw [htype] at ht
        cases ht
    obtain ⟨t,ht,htid,hr⟩ := h.link.replaced i hi d.id ⟨o,hoi,htarget⟩
    cases Table.eq_of_key_eq ht hd htid
    have hfits := (h.owns hi ht hr).fits
    have hdeletion := (h.documents d hd).deletion_of_replaced (by rw [hr]; rfl)
    obtain ⟨p,-,hp⟩ := (h.documents d hd).deletion.progress hdeletion
    refine Or.inr ⟨?_,i,hi,hr,hnewest⟩
    rcases hp.state with hs | hs | hs
    · exact hs
    · rcases hfits.2 hs with ⟨hf,-⟩ | ⟨-,hf⟩ <;> rw [hpublishing] at hf <;> cases hf
    · rw [hp.replaced (by rw [hr]; rfl)] at hs
      exact absurd hs hstate

theorem busy_busyState (type : OperationType) : busy (busyState type) = true := by
  cases type <;> rfl

theorem CatalogInv.busy_of_owner (h : CatalogInv s True now c) (hd : d ∈ c.documents)
    (ho : Owner c d o) : busy d.state = true := by
  rcases h.owner_cases hd ho with ⟨-,hs,-⟩ | ⟨hs,-⟩
  · rw [hs]
    exact busy_busyState o.operationType
  · rw [hs]
    rfl

theorem CatalogInv.owner_unique (h : CatalogInv s True now c) (hd : d ∈ c.documents)
    (ho : Owner c d o) (ho' : Owner c d o') : o = o' := by
  rcases h.owner_cases hd ho with ⟨hn,-,hfree⟩ | ⟨hs,i,hi,hr,hn⟩ <;>
    rcases h.owner_cases hd ho' with ⟨hn',-,hfree'⟩ | ⟨hs',i',hi',hr',hn'⟩
  · exact Option.some.inj (hn.symm.trans hn')
  · rw [hfree hs'] at hr'
    cases hr'
  · rw [hfree' hs] at hr
    cases hr
  · cases Table.eq_of_key_eq hi hi' (Option.some.inj (hr.symm.trans hr'))
    exact Option.some.inj (hn.symm.trans hn')

/-- The newest operation of a document that waits for its own work is open. -/
theorem DocumentInv.open_of_pending (h : DocumentInv s now d) {type : OperationType}
    (he : expected d.state d.replacedByDocumentId.isSome = (type,.pending)) :
    ∃ o, o ∈ d.operations.rows ∧ o.isOpen = true ∧ o.operationType = type := by
  obtain ⟨o,ho,hstanding⟩ := h.standing
  exact ⟨o,mem_of_newest ho,isOpen_iff.2 (hstanding.ending_eq he),hstanding.type_eq he⟩

theorem CatalogInv.exists_owner (h : CatalogInv s True now c) (hd : d ∈ c.documents)
    (hbusy : busy d.state = true) : ∃ o, Owner c d o := by
  have dinv := h.documents d hd
  have own : ∀ {type}, expected d.state d.replacedByDocumentId.isSome = (type,.pending) →
      ∃ o, Owner c d o := by
    intro type he
    obtain ⟨o,ho,hopen,-⟩ := dinv.open_of_pending he
    exact ⟨o,d,hd,ho,hopen,Or.inl rfl⟩
  cases hs : d.state <;> rw [hs] at hbusy <;> try cases hbusy
  · exact own (by rw [hs]; rfl)
  · exact own (by rw [hs]; rfl)
  · cases hr : d.replacedByDocumentId with
    | none => exact own (by rw [hs, hr]; rfl)
    | some id =>
      -- the incoming document is publishing, and its publication names this one
      obtain ⟨i,hi,hid,howns⟩ := h.link.owned d hd id hr
      have iinv := h.documents i hi
      have he : expected i.state i.replacedByDocumentId.isSome = (.publish,.pending) := by
        rw [howns.fits.1 hs]
        rfl
      obtain ⟨o,ho,hopen,htype⟩ := iinv.open_of_pending he
      exact ⟨o,i,hi,ho,hopen,Or.inr ⟨htype,iinv.target_eq howns.targets ho htype,
        fun hc => by rw [hs] at hc; cases hc⟩⟩

theorem ReachableBy.numbered (h : Reachable s enc w) :
    ∀ d, d ∈ w.shared.catalog.documents → Numbered d :=
  h.documents (fun _ => True) (fun _ _ _ _ _ => trivial) admitted_numbered
    fun _ _ _ hd hn hc => hn.change hc hd

/-- Work ownership in every reachable catalog. -/
theorem work_ownership (h : Reachable s enc w) (hd : d ∈ w.shared.catalog.documents) :
    WorkOwnership w.shared.catalog d := by
  have hinv := h.catalog
  constructor
  · constructor
    · intro hbusy
      obtain ⟨o,ho⟩ := hinv.exists_owner hd hbusy
      exact ⟨o,ho,fun o' ho' => hinv.owner_unique hd ho' ho⟩
    · rintro ⟨o,ho,-⟩
      exact hinv.busy_of_owner hd ho
  · intro hidle o ho
    rw [hinv.busy_of_owner hd ho] at hidle
    cases hidle
  · intro o ho hopen
    rcases hinv.owner_cases hd ⟨d,hd,ho,hopen,Or.inl rfl⟩ with ⟨-,hs,-⟩ | ⟨hs,i,hi,hr,-⟩
    · exact hs
    · have hstanding := ((hinv.documents d hd).state_of_isOpen ho hopen).2
      rw [isOpen_of_ending (hstanding.ending_eq (x := (.publish,.succeeded))
        (by rw [hs, hr]; rfl)) (by decide)] at hopen
      cases hopen
  · exact h.numbered d hd

/-- While its replacement runs, the replaced document has one owner. -/
theorem work_ownership_replaced : ∃ (w : World) (d : Document),
    d ∈ w.shared.catalog.documents ∧ d.state = .deleting ∧ WorkOwnership w.shared.catalog d := by
  obtain ⟨w,d,hw,hd,ht⟩ := play_document booksSettings plainEncoding (fun _ _ => True) replacing
    (fun d => d.state = .deleting) (fun _ _ _ => trivial) (fun _ _ _ => trivial)
    (by decide +kernel)
  exact ⟨w,d,hd,of_decide_eq_true ht,work_ownership hw hd⟩

end Lifecycle
end PdfBridge
