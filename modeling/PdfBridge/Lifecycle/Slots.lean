import PdfBridge.Lifecycle.Reachable
import PdfBridge.Lifecycle.Scenario

/-! The claims of the two slots of a worker: what its process notes about the claims that are being
executed, in every order of their steps. -/
namespace PdfBridge
namespace Lifecycle
open Worker Api Intake

variable {s : Settings} {enc : Encoding} {strands : Prop} {rejects : FailureCode → Prop}
  {now : Time} {c c' : Catalog} {d d' : Document} {o o' : WorkOperation}

/-! ### Row ids -/

/-- An id of these rows belongs to one document. -/
def IdsApart (ids : Document → List Uuid) (c : Catalog) : Prop :=
  ∀ d, d ∈ c.documents → ∀ d', d' ∈ c.documents → ∀ id, id ∈ ids d → id ∈ ids d' → d.id = d'.id

/-- The ids of these rows were drawn before. -/
def Drawn (ids : Document → List Uuid) (now : Time) (c : Catalog) : Prop :=
  ∀ d, d ∈ c.documents → ∀ id, id ∈ ids d → id.drawnAt < now

/-- What transitions do to the ids of these rows: a new one is drawn now, and a document that is
being replaced gets none. -/
structure Draws (s : Settings) (rejects : FailureCode → Prop) (now : Time)
    (ids : Document → List Uuid) : Prop where
  arrive : ∀ x, ids (admitted now x) ⊆ [uuid4 now 0]
  touch : ∀ {d operations}, List.Forall₂ Touch d.operations.rows operations.rows →
    ids {d with operations := operations} ⊆ ids d
  change : ∀ {d d'}, Change s rejects now d d' → DocumentInv s now d →
    ids d' ⊆ uuid4 now 0 :: ids d
  replaced : ∀ {d d'}, Change s rejects now d d' → DocumentInv s now d →
    d.replacedByDocumentId.isSome = true → ids d' ⊆ ids d
  yielded : ∀ {d p} owner, ids {d.clearFailure with
    deletionProgress := some p, state := .deleting, terminalDisposition := some .deleted,
    replacedByDocumentId := some owner} ⊆ ids d

/-- Only one document gets a new id, which is drawn now. -/
theorem CatalogChange.draws {ids : Document → List Uuid} (hdraws : Draws s rejects now ids)
    (h : CatalogInv s strands now c) (hc : CatalogChange s strands rejects now c c') :
    ∃ owner, ∀ d', d' ∈ c'.documents → ∀ id, id ∈ ids d' →
      (d'.id = owner ∧ id = uuid4 now 0) ∨
        ∃ d, d ∈ c.documents ∧ d.id = d'.id ∧ id ∈ ids d := by
  have changed : ∀ {d d' : Document}, d ∈ c.documents → Change s rejects now d d' →
      ∀ id, id ∈ ids d' → (d'.id = d.id ∧ id = uuid4 now 0) ∨
        ∃ d, d ∈ c.documents ∧ d.id = d'.id ∧ id ∈ ids d := by
    intro d d' hd hchange id hid
    rcases List.mem_cons.1 (hdraws.change hchange (h.documents d hd) hid) with hnew | hold
    · exact Or.inl ⟨hchange.id,hnew⟩
    · exact Or.inr ⟨d,hd,hchange.id.symm,hold⟩
  cases hc with
  | same => exact ⟨uuid4 now 0,fun d' hd' id hid => Or.inr ⟨d',hd',rfl,hid⟩⟩
  | arrive x hx =>
    refine ⟨(admitted now x).id,fun d' hd' id hid => ?_⟩
    rcases mem_put.1 hd' with rfl | ⟨hd',-⟩
    · exact Or.inl ⟨rfl,List.mem_singleton.1 (hdraws.arrive x hid)⟩
    · exact Or.inr ⟨d',hd',rfl,hid⟩
  | leases f hf ht =>
    refine ⟨uuid4 now 0,fun d' hd' id hid => Or.inr ?_⟩
    obtain ⟨d,hd,rfl⟩ := mem_mapOperations.1 hd'
    have htouch : List.Forall₂ Touch d.operations.rows (d.operations.update f hf).rows :=
      List.forall₂_map_right_iff.2 (List.forall₂_same.2 fun o _ => ht o)
    exact ⟨d,hd,rfl,hdraws.touch htouch hid⟩
  | @one d d₁ hd hchange =>
    refine ⟨d.id,fun d' hd' id hid => ?_⟩
    rcases mem_put.1 hd' with rfl | ⟨hd',-⟩
    · exact changed hd hchange id hid
    · exact Or.inr ⟨d',hd',rfl,hid⟩
  | @pair i i₁ t t₁ hi ht hown hci hct =>
    refine ⟨i.id,fun d' hd' id hid => ?_⟩
    rcases mem_put.1 hd' with rfl | ⟨hd',-⟩
    · exact changed hi hci id hid
    · rcases mem_put.1 hd' with rfl | ⟨hd',-⟩
      · have hold := hdraws.replaced hct (h.documents t ht) (by rw [hown]; rfl) hid
        exact Or.inr ⟨t,ht,hct.id.symm,hold⟩
      · exact Or.inr ⟨d',hd',rfl,hid⟩
  | @replace i t hi ht hne hcollection histate htstate r points x p hr hsealed hpoints hx
      hmanifest haction htarget hp hdisposition hdrawn =>
    have hdecide : Change s rejects now i (beginPublication now
        {i with decisions := i.decisions ++ [x]} r points .replacement (some t.id)) :=
      Change.decide histate hr hsealed hpoints hx hmanifest (Or.inr ⟨haction,htarget,rfl⟩) rfl
        (fun he => hne (Option.some.inj he).symm) hdrawn
    refine ⟨i.id,fun d' hd' id hid => ?_⟩
    rcases mem_put.1 hd' with rfl | ⟨hd',-⟩
    · exact changed hi hdecide id hid
    · rcases mem_put.1 hd' with rfl | ⟨hd',-⟩
      · exact Or.inr ⟨t,ht,rfl,hdraws.yielded i.id hid⟩
      · exact Or.inr ⟨d',hd',rfl,hid⟩

/-- A step keeps the ids apart, and draws what it adds. -/
theorem CatalogChange.apart {ids : Document → List Uuid} (hdraws : Draws s rejects now ids)
    (h : CatalogInv s strands now c) (hc : CatalogChange s strands rejects now c c')
    (hdrawn : Drawn ids now c) (hapart : IdsApart ids c) :
    Drawn ids (now + 1) c' ∧ IdsApart ids c' := by
  obtain ⟨owner,hnews⟩ := hc.draws hdraws h
  have fresh : ∀ d, d ∈ c.documents → uuid4 now 0 ∉ ids d := fun d hd hid =>
    lt_irrefl now (hdrawn d hd _ hid)
  constructor
  · intro d' hd' id hid
    rcases hnews d' hd' id hid with ⟨-,rfl⟩ | ⟨d,hd,-,hold⟩
    · exact Nat.lt_succ_self now
    · exact (hdrawn d hd id hold).trans (Nat.lt_succ_self now)
  · intro d' hd' e' he' id hid hid'
    rcases hnews d' hd' id hid with ⟨hd,hnew⟩ | ⟨d,hd,hdid,hold⟩ <;>
      rcases hnews e' he' id hid' with ⟨he,hnew'⟩ | ⟨e,he,heid,hold'⟩
    · exact hd.trans he.symm
    · exact absurd (hnew ▸ hold') (fresh e he)
    · exact absurd (hnew' ▸ hold) (fresh d hd)
    · exact hdid.symm.trans ((hapart d hd e he id hold hold').trans heid)

/-- In every reachable catalog the ids of such rows are apart. -/
theorem ReachableBy.idsApart {ids : Document → List Uuid} {P : World → Event → Prop} {w : World}
    (h : ReachableBy s enc P w) (hdraws : ∀ now, Draws s (fun _ => True) now ids) :
    Drawn ids w.shared.now w.shared.catalog ∧ IdsApart ids w.shared.catalog := by
  induction h with
  | initial =>
    exact ⟨fun d hd => absurd hd (Table.not_mem_empty d),
      fun d hd => absurd hd (Table.not_mem_empty d)⟩
  | @step w w' e h he hstep ih =>
    obtain ⟨know,hinv⟩ : ∃ know, WorldInv s True w know := h.inv fun _ _ _ _ => trivial
    have hc : CatalogChange s True (fun _ => True) w.shared.now w.shared.catalog
        w'.shared.catalog :=
      step_change hinv (fun _ => trivial) (fun (_ : FailureCode) _ => trivial) hstep
    obtain ⟨hdrawn,hapart⟩ := hc.apart (hdraws _) hinv.catalog ih.1 ih.2
    exact ⟨fun d hd id hid => (hdrawn d hd id hid).trans_le (step_now hinv hstep),hapart⟩

/-! ### Operation ids -/

/-- An operation id belongs to one document. -/
def OperationsApart (c : Catalog) : Prop :=
  ∀ d, d ∈ c.documents → ∀ d', d' ∈ c.documents → ∀ o ∈ d.operations.rows,
    ∀ o' ∈ d'.operations.rows, o.id = o'.id → d.id = d'.id

def operationIds (d : Document) : List Uuid := d.operations.rows.map (·.id)

theorem operationsApart_iff : OperationsApart c ↔ IdsApart operationIds c := by
  constructor
  · intro h d hd d' hd' id hid hid'
    obtain ⟨o,ho,rfl⟩ := List.mem_map.1 hid
    obtain ⟨o',ho',hsame⟩ := List.mem_map.1 hid'
    exact h d hd d' hd' o ho o' ho' hsame.symm
  · intro h d hd d' hd' o ho o' ho' hid
    exact h d hd d' hd' o.id (List.mem_map_of_mem ho) (hid ▸ List.mem_map_of_mem ho')

/-- The operations of `d'` are those of `d`, perhaps changed. -/
def NoneNew (d d' : Document) : Prop :=
  ∀ o' ∈ d'.operations.rows, ∃ o ∈ d.operations.rows, o.id = o'.id

theorem NoneNew.refl (d : Document) : NoneNew d d := fun o ho => ⟨o,ho,rfl⟩

/-- A document that is being replaced gets no new operation. -/
theorem Change.noneNew (hc : Change s rejects now d d') (h : DocumentInv s now d)
    (hr : d.replacedByDocumentId.isSome = true) : NoneNew d d' := by
  have hs := h.deletion_of_replaced hr
  have old : ∀ {front rows : List WorkOperation}, front = [] →
      Continues front d.operations.rows rows → ∀ o' ∈ rows, ∃ o ∈ d.operations.rows, o.id = o'.id := by
    rintro front rows rfl hcont o' ho'
    rcases mem_continues hcont ho' with hf | ⟨o,ho,hsame⟩
    · exact absurd hf List.not_mem_nil
    · exact ⟨o,ho,hsame.id.symm⟩
  have absent : ∀ {x : DocumentState}, d.state = x → deletionState x = false → NoneNew d d' := by
    intro x hx hdeletion
    rw [hx, hdeletion] at hs
    cases hs
  cases hc with
  | touch operations ht => exact old rfl (Continues.touch ht)
  | progress hp hpp operations ht => exact old rfl (Continues.touch ht)
  | purge hp hzero ids operations ht => exact old rfl (Continues.touch ht)
  | buryOwn hp hpurged ho hopen hsettle => exact old rfl (Continues.settle ho hsettle)
  | fail ho hopen hsettle hfailed code message outbox =>
    refine old rfl ?_
    show Continues [] _ (Worker.failDocument _ code message _ _).operations.rows
    rw [(failDocument_sameRows _ code message _ _).operations]
    exact Continues.settle ho hsettle
  | review hstate | approve hstate | reject hstate | publish hstate | decide hstate
  | cancel hstate | retryPreflight hstate | retryPublish hstate => exact absent hstate rfl
  | delete hstate => rcases hstate with hx | hx | hx | hx <;> exact absent hx rfl
  | retryDelete hstate howner =>
    rw [howner] at hr
    cases hr
  | index | revise | upsert | yield_ | failYielded | resumeYielded | bury => exact NoneNew.refl _

theorem operationIds_continues {front rows : List WorkOperation}
    (h : Continues front d.operations.rows rows) (hfront : ∀ o ∈ front, o.id = uuid4 now 0) :
    rows.map (·.id) ⊆ uuid4 now 0 :: operationIds d := by
  intro id hid
  obtain ⟨o',ho',rfl⟩ := List.mem_map.1 hid
  rcases mem_continues h ho' with hf | ⟨o,ho,hsame⟩
  · exact List.mem_cons.2 (Or.inl (hfront o' hf))
  · exact List.mem_cons_of_mem _ (List.mem_map.2 ⟨o,ho,hsame.id.symm⟩)

theorem NoneNew.operationIds (h : NoneNew d d') :
    Lifecycle.operationIds d' ⊆ Lifecycle.operationIds d := by
  intro id hid
  obtain ⟨o',ho',rfl⟩ := List.mem_map.1 hid
  obtain ⟨o,ho,hsame⟩ := h o' ho'
  exact List.mem_map.2 ⟨o,ho,hsame⟩

theorem draws_operations : Draws s rejects now operationIds where
  arrive := by
    intro x id hid
    rw [operationIds, admitted_rows] at hid
    exact hid
  touch := by
    intro d operations ht
    refine NoneNew.operationIds fun o' ho' => ?_
    rcases mem_continues (Continues.touch ht) ho' with hf | ⟨o,ho,hsame⟩
    · exact absurd hf List.not_mem_nil
    · exact ⟨o,ho,hsame.id.symm⟩
  change := by
    intro d d' hc h
    obtain ⟨front,hcont,-,hfront⟩ := hc.continues h
    exact operationIds_continues hcont fun o ho => (hfront o ho).1
  replaced := fun hc h hr => (hc.noneNew h hr).operationIds
  yielded := fun owner => List.Subset.refl _

theorem OperationsApart.change (h : OperationsApart c) (hinv : CatalogInv s strands now c)
    (hc : CatalogChange s strands rejects now c c') : OperationsApart c' := by
  have hdrawn : Drawn operationIds now c := by
    intro d hd id hid
    obtain ⟨o,ho,rfl⟩ := List.mem_map.1 hid
    have hops := (hinv.documents d hd).operations
    rw [(hops.valid o ho).drawn]
    exact hops.fresh o ho
  exact operationsApart_iff.2 (hc.apart draws_operations hinv hdrawn (operationsApart_iff.1 h)).2

/-! ### The program of a claim -/

/-- What a slot does with a claim around the work on the operation: the claim is released at the end
of the execution, and again by the slot loop when that raises. -/
def guarded (claimed : ClaimedOperation) (body : Prog Unit) : Prog Unit :=
  (body.finally_ (release claimed)).tryCatch fun _ => release claimed

/-- The claim is still executed: what is left of its program is more than the release by the slot
loop. -/
def Executing (t : Thread) : Prop := t.program ≠ release t.claimed

/-- The work on an operation and the record of its failure. -/
def body (s : Settings) (enc : Encoding) (claimed : ClaimedOperation) : Prog Unit :=
  (dispatch s enc claimed).tryCatch fun e =>
    if e = .leaseLost then .pure () else catalog (.failOperation e)

theorem slotTurn_eq (claimed : ClaimedOperation) :
    slotTurn s enc claimed = guarded claimed (body s enc claimed) := rfl

/-- A program in which every exit still holds the claim. -/
def Holding (s : Settings) (x : ClaimedOperation) (q : Prog Unit) (K : Knowledge) : Prop :=
  Program.Follows (protocol s x) (fun _ K => .held ∈ K) q K

theorem body_holding {x : ClaimedOperation} (hlocked : x.documentId ∈ x.lockedDocumentIds) :
    Holding s x (body s enc x) base := by
  refine Program.Follows.tryCatch (follows_dispatch hlocked subset_rfl) (fun _ _ h => h.1)
    fun e K h => ?_
  split
  · exact h.1
  · refine Program.Follows.request h.1 fun z _ => Or.inr ⟨h.1,?_⟩
    rintro (⟨-,ho⟩ | ⟨_,_,hc,-⟩)
    · exact ho trivial
    · cases hc

/-- No answer brings a released claim back. -/
theorem held_of_next {x : ClaimedOperation} {r : Request} {K : Knowledge}
    {a : Except ServiceError r.Response} (h : .held ∈ next s x r K a) : .held ∈ K := by
  rcases h with hgained | ⟨hold,-⟩
  · cases r with
    | catalog r =>
      cases r with
      | reconstructChunkPoints id sealed_ =>
        cases sealed_ <;> cases a <;> simp [gained] at hgained
      | _ => cases a <;> simp [gained] at hgained
    | points r => cases r <;> cases a <;> simp [gained] at hgained
    | files r => cases r <;> cases a <;> simp [gained] at hgained
    | _ => cases a <;> exact hgained.elim
  · exact hold

theorem holding_held {x : ClaimedOperation} {q : Prog Unit} {K : Knowledge}
    (h : Holding s x q K) : .held ∈ K := by
  induction q generalizing K with
  | pure a => exact h
  | fail e => exact h
  | call r k ih =>
    by_cases hr : ∃ y, r = .release y
    · obtain ⟨y,rfl⟩ := hr
      exact held_of_next (ih (.ok ()) (h.2 (.ok ()) trivial))
    · exact held_of_next (ih _ (h.2 (.error .leaseLost) (answers_error fun y hy => hr ⟨y,hy⟩)))

/-- The work on an operation does not release its claim. -/
theorem Holding.not_release {x y : ClaimedOperation} {K : Knowledge}
    {k : Except ServiceError Unit → Prog Unit} (h : Holding s x (.call (.release y) k) K) :
    False := by
  rcases holding_held (h.2 (.ok ()) trivial) with hgained | ⟨-,hl⟩
  · exact hgained
  · exact hl (by rintro ⟨⟩)

theorem guarded_call (y : ClaimedOperation) (r : Request)
    (k : Except ServiceError r.Response → Prog Unit) :
    guarded y (.call r k) = .call r fun a => guarded y (k a) := rfl

/-- A guarded program always asks for something before it returns. -/
theorem guarded_isCall (y : ClaimedOperation) (q : Prog Unit) :
    ∃ r k, guarded y q = .call r k := by
  cases q with
  | pure a => exact ⟨_,_,rfl⟩
  | fail e => exact ⟨_,_,rfl⟩
  | call r k => exact ⟨_,_,rfl⟩

/-- The first request of the program raises what it is answered with. -/
def Surfaces : Prog Unit → Prop
  | .call _ k => k (.error .leaseLost) = .fail .leaseLost
  | _ => False

theorem guarded_executing (y : ClaimedOperation) (q : Prog Unit) : Executing ⟨y,guarded y q⟩ := by
  intro he
  have hs : Surfaces (guarded y q) := by
    rw [show guarded y q = release y from he]
    rfl
  cases q with
  | pure a => cases hs
  | fail e => cases hs
  | call r k =>
    obtain ⟨r',k',hcall⟩ := guarded_isCall y (k (.error .leaseLost))
    have hfail : guarded y (k (.error .leaseLost)) = .fail .leaseLost := hs
    rw [hcall] at hfail
    cases hfail

theorem resume_guarded (y : ClaimedOperation) (q : Prog Unit) :
    World.resume y (guarded y q) = some ⟨y,guarded y q⟩ := by
  obtain ⟨r,k,hcall⟩ := guarded_isCall y q
  rw [hcall]
  rfl

/-! ### What the process notes -/

variable {w w' : World} {e : Event} {know : Slot → Knowledge} {slot slot' : Slot} {t t' : Thread}

/-- A slot executes the claim of a thread. -/
def Executes (w : World) (slot : Slot) (t : Thread) : Prop :=
  w.slots slot = some t ∧ Executing t

/-- The process notes exactly the claims that are being executed, and no two of them lock a common
document. -/
structure SlotsExclusive (w : World) : Prop where
  busy : ∀ id, id ∈ w.shared.process.busyDocuments ↔
    ∃ slot t, Executes w slot t ∧ id ∈ t.claimed.lockedDocumentIds
  times : ∀ id, id ∈ w.shared.process.claimTimes.map (·.1) ↔
    ∃ slot t, Executes w slot t ∧ t.claimed.operationId = id
  apart : ∀ slot slot' t t', Executes w slot t → Executes w slot' t' → slot ≠ slot' →
    ∀ id ∈ t.claimed.lockedDocumentIds, id ∉ t'.claimed.lockedDocumentIds

structure SlotsInv (s : Settings) (w : World) (know : Slot → Knowledge) : Prop where
  exclusive : SlotsExclusive w
  programs : ∀ slot t, Executes w slot t →
    ∃ q, t.program = guarded t.claimed q ∧ Holding s t.claimed q (know slot)
  operations : OperationsApart w.shared.catalog

theorem slots_initial (know : Slot → Knowledge) : SlotsInv s World.initial know where
  exclusive := {
    busy := fun _ => ⟨fun h => absurd h List.not_mem_nil,fun ⟨_,_,⟨h,_⟩,_⟩ => nomatch h⟩
    times := fun _ => ⟨fun h => absurd h List.not_mem_nil,fun ⟨_,_,⟨h,_⟩,_⟩ => nomatch h⟩
    apart := fun _ _ _ _ h => nomatch h.1 }
  programs := fun _ _ h => nomatch h.1
  operations := fun d hd => absurd hd (Table.not_mem_empty d)

/-- Claims on different documents are of different operations. -/
theorem claimed_apart {x y : ClaimedOperation} (hc : OperationsApart c) (hx : Claimed x c)
    (hy : Claimed y c) (hne : x.documentId ≠ y.documentId) : x.operationId ≠ y.operationId := by
  obtain ⟨d,o,hf⟩ := hx
  obtain ⟨e,p,hg⟩ := hy
  intro hid
  refine hne ?_
  rw [← hf.documentId, ← hg.documentId]
  exact hc d hf.document e hg.document o hf.operation p hg.operation
    ((hf.operationId.trans hid).trans hg.operationId.symm)

theorem exec_process_eq {ref : OperationRef} {i : Input} {σ σ' : Shared} {r : Request}
    {a : Except ServiceError r.Response} (hr : ∀ y, r ≠ .release y)
    (h : exec s enc ref i σ r = some (a,σ')) : σ'.process = σ.process := by
  cases r with
  | catalog q =>
    rcases exec_catalog h with ⟨b,c,-,-,rfl⟩ | ⟨e,-,rfl,-⟩ <;> rfl
  | points q =>
    rcases exec_points h with ⟨b,-,-,rfl⟩ | ⟨e,-,rfl | rfl⟩ <;> rfl
  | files q =>
    rcases exec_files h with ⟨b,-,-,rfl⟩ | ⟨e,-,rfl | rfl⟩ <;> rfl
  | provider q =>
    simp only [exec, Option.map_eq_some_iff] at h
    obtain ⟨b,-,hb⟩ := h
    cases hb
    rfl
  | release claimed => exact absurd rfl (hr claimed)
  | raise e =>
    cases h
    rfl

/-! ### Steps -/

theorem claimable_iff {p : Process} : claimable p o = true ↔
    o.state = .queued ∧ ∀ id ∈ lockedDocuments o, id ∉ p.busyDocuments := by
  simp only [claimable, Bool.and_eq_true, decide_eq_true_eq, and_assoc, mem_lockedDocuments]
  refine and_congr_right fun _ => ⟨?_,fun h => ⟨h _ (Or.inl rfl),?_⟩⟩
  · rintro ⟨hdocument,htarget⟩ id (rfl | hid)
    · exact hdocument
    · rw [hid] at htarget
      simpa using htarget
  · rw [Option.all_eq_true]
    exact fun id hid => decide_eq_true (h id (Or.inr hid))

theorem executes_setSlot {x : Option Thread} :
    Executes (w.setSlot slot x) slot' t ↔
      (slot' = slot ∧ x = some t ∧ Executing t) ∨ (slot' ≠ slot ∧ Executes w slot' t) := by
  by_cases he : slot' = slot
  · subst he
    simp [Executes, World.setSlot]
  · simp [Executes, World.setSlot, he]

theorem SlotsExclusive.same (h : SlotsExclusive w) (hslots : w'.slots = w.slots)
    (hbusy : w'.shared.process.busyDocuments = w.shared.process.busyDocuments)
    (htimes : w'.shared.process.claimTimes = w.shared.process.claimTimes) :
    SlotsExclusive w' := by
  have hexecutes : ∀ slot t, Executes w' slot t ↔ Executes w slot t := by
    intro slot t
    unfold Executes
    rw [hslots]
  constructor
  · intro id
    simp only [hbusy, hexecutes]
    exact h.busy id
  · intro id
    simp only [htimes, hexecutes]
    exact h.times id
  · intro slot slot' t t' ht ht'
    exact h.apart slot slot' t t' ((hexecutes slot t).1 ht) ((hexecutes slot' t').1 ht')

/-- A claim of documents that nobody works on. -/
theorem SlotsExclusive.claim (h : SlotsExclusive w) {y : ClaimedOperation} {q : Prog Unit}
    (hslot : w.slots slot = none) (hfree : ∀ id ∈ y.lockedDocumentIds,
      id ∉ w.shared.process.busyDocuments) {σ : Shared}
    (hbusy : σ.process.busyDocuments = y.lockedDocumentIds ++ w.shared.process.busyDocuments)
    (htimes : σ.process.claimTimes.map (·.1) =
      y.operationId :: w.shared.process.claimTimes.map (·.1)) :
    SlotsExclusive (({w with shared := σ}).setSlot slot (some ⟨y,guarded y q⟩)) := by
  have hidle : ∀ t, ¬ Executes w slot t := fun t ht => nomatch hslot.symm.trans ht.1
  have hexecutes : ∀ slot' t, Executes (({w with shared := σ}).setSlot slot
      (some ⟨y,guarded y q⟩)) slot' t ↔
      (slot' = slot ∧ t = ⟨y,guarded y q⟩) ∨ Executes w slot' t := by
    intro slot' t
    rw [executes_setSlot]
    constructor
    · rintro (⟨he,hx,-⟩ | ⟨-,ht⟩)
      · exact Or.inl ⟨he,(Option.some.inj hx).symm⟩
      · exact Or.inr ht
    · rintro (⟨he,rfl⟩ | ht)
      · exact Or.inl ⟨he,rfl,guarded_executing y q⟩
      · refine Or.inr ⟨?_,ht⟩
        rintro rfl
        exact hidle t ht
  constructor
  · intro id
    change id ∈ σ.process.busyDocuments ↔ _
    rw [hbusy, List.mem_append, h.busy id]
    constructor
    · rintro (hid | ⟨slot',t,ht,hid⟩)
      · exact ⟨slot,_,(hexecutes _ _).2 (Or.inl ⟨rfl,rfl⟩),hid⟩
      · exact ⟨slot',t,(hexecutes _ _).2 (Or.inr ht),hid⟩
    · rintro ⟨slot',t,ht,hid⟩
      rcases (hexecutes _ _).1 ht with ⟨-,rfl⟩ | ht
      · exact Or.inl hid
      · exact Or.inr ⟨slot',t,ht,hid⟩
  · intro id
    change id ∈ σ.process.claimTimes.map (·.1) ↔ _
    rw [htimes, List.mem_cons, h.times id]
    constructor
    · rintro (rfl | ⟨slot',t,ht,hid⟩)
      · exact ⟨slot,_,(hexecutes _ _).2 (Or.inl ⟨rfl,rfl⟩),rfl⟩
      · exact ⟨slot',t,(hexecutes _ _).2 (Or.inr ht),hid⟩
    · rintro ⟨slot',t,ht,hid⟩
      rcases (hexecutes _ _).1 ht with ⟨-,rfl⟩ | ht
      · exact Or.inl hid.symm
      · exact Or.inr ⟨slot',t,ht,hid⟩
  · intro slot₁ slot₂ t₁ t₂ ht₁ ht₂ hne id hid hid'
    rcases (hexecutes _ _).1 ht₁ with ⟨rfl,rfl⟩ | ht₁ <;>
      rcases (hexecutes _ _).1 ht₂ with ⟨he,rfl⟩ | ht₂
    · exact hne he.symm
    · exact hfree id hid ((h.busy id).2 ⟨slot₂,t₂,ht₂,hid'⟩)
    · exact hfree id hid' ((h.busy id).2 ⟨slot₁,t₁,ht₁,hid⟩)
    · exact h.apart slot₁ slot₂ t₁ t₂ ht₁ ht₂ hne id hid hid'

/-- An execution that goes on. -/
theorem SlotsExclusive.carry (h : SlotsExclusive w) (ht : Executes w slot t)
    (hclaimed : t'.claimed = t.claimed) (hexecuting : Executing t') {σ : Shared}
    (hprocess : σ.process = w.shared.process) :
    SlotsExclusive (({w with shared := σ}).setSlot slot (some t')) := by
  have hforward : ∀ slot₁ t₁, Executes (({w with shared := σ}).setSlot slot (some t')) slot₁ t₁ →
      ∃ t₂, Executes w slot₁ t₂ ∧ t₂.claimed = t₁.claimed := by
    intro slot₁ t₁ ht₁
    rcases executes_setSlot.1 ht₁ with ⟨rfl,hsome,-⟩ | ⟨-,ht₁⟩
    · obtain rfl := Option.some.inj hsome
      exact ⟨t,ht,hclaimed.symm⟩
    · exact ⟨t₁,ht₁,rfl⟩
  have hbackward : ∀ slot₁ t₁, Executes w slot₁ t₁ →
      ∃ t₂, Executes (({w with shared := σ}).setSlot slot (some t')) slot₁ t₂ ∧
        t₂.claimed = t₁.claimed := by
    intro slot₁ t₁ ht₁
    by_cases he : slot₁ = slot
    · subst he
      obtain rfl := Option.some.inj (ht.1.symm.trans ht₁.1)
      exact ⟨t',executes_setSlot.2 (Or.inl ⟨rfl,rfl,hexecuting⟩),hclaimed⟩
    · exact ⟨t₁,executes_setSlot.2 (Or.inr ⟨he,ht₁⟩),rfl⟩
  constructor
  · intro id
    change id ∈ σ.process.busyDocuments ↔ _
    rw [hprocess, h.busy id]
    constructor
    · rintro ⟨slot₁,t₁,ht₁,hid⟩
      obtain ⟨t₂,ht₂,he⟩ := hbackward slot₁ t₁ ht₁
      exact ⟨slot₁,t₂,ht₂,he ▸ hid⟩
    · rintro ⟨slot₁,t₁,ht₁,hid⟩
      obtain ⟨t₂,ht₂,he⟩ := hforward slot₁ t₁ ht₁
      exact ⟨slot₁,t₂,ht₂,he ▸ hid⟩
  · intro id
    change id ∈ σ.process.claimTimes.map (·.1) ↔ _
    rw [hprocess, h.times id]
    constructor
    · rintro ⟨slot₁,t₁,ht₁,hid⟩
      obtain ⟨t₂,ht₂,he⟩ := hbackward slot₁ t₁ ht₁
      exact ⟨slot₁,t₂,ht₂,he ▸ hid⟩
    · rintro ⟨slot₁,t₁,ht₁,hid⟩
      obtain ⟨t₂,ht₂,he⟩ := hforward slot₁ t₁ ht₁
      exact ⟨slot₁,t₂,ht₂,he ▸ hid⟩
  · intro slot₁ slot₂ t₁ t₂ ht₁ ht₂ hne id hid
    obtain ⟨u₁,hu₁,he₁⟩ := hforward slot₁ t₁ ht₁
    obtain ⟨u₂,hu₂,he₂⟩ := hforward slot₂ t₂ ht₂
    rw [← he₁] at hid
    rw [← he₂]
    exact h.apart slot₁ slot₂ u₁ u₂ hu₁ hu₂ hne id hid

/-- The end of an execution, or a later release that no other claim notices. -/
theorem SlotsExclusive.release (h : SlotsExclusive w) {y : ClaimedOperation}
    (hslot : ∀ t, Executes w slot t → t.claimed = y)
    (hothers : ∀ slot' t, slot' ≠ slot → Executes w slot' t →
      t.claimed.operationId ≠ y.operationId ∧
        ∀ id ∈ t.claimed.lockedDocumentIds, id ∉ y.lockedDocumentIds)
    {σ : Shared} (hprocess : σ.process = releaseClaim y w.shared.process) {x : Option Thread}
    (hx : ∀ t, x = some t → ¬ Executing t) :
    SlotsExclusive (({w with shared := σ}).setSlot slot x) := by
  have hexecutes : ∀ slot' t, Executes (({w with shared := σ}).setSlot slot x) slot' t ↔
      slot' ≠ slot ∧ Executes w slot' t := by
    intro slot' t
    rw [executes_setSlot]
    constructor
    · rintro (⟨-,hsome,ht⟩ | ht)
      · exact absurd ht (hx t hsome)
      · exact ht
    · exact Or.inr
  constructor
  · intro id
    change id ∈ σ.process.busyDocuments ↔ _
    simp only [hprocess, releaseClaim, List.mem_filter, h.busy id, decide_eq_true_eq]
    constructor
    · rintro ⟨⟨slot',t,ht,hid⟩,hfree⟩
      refine ⟨slot',t,(hexecutes _ _).2 ⟨?_,ht⟩,hid⟩
      rintro rfl
      exact hfree (hslot t ht ▸ hid)
    · rintro ⟨slot',t,ht,hid⟩
      obtain ⟨hne,ht⟩ := (hexecutes _ _).1 ht
      exact ⟨⟨slot',t,ht,hid⟩,(hothers slot' t hne ht).2 id hid⟩
  · intro id
    change id ∈ σ.process.claimTimes.map (·.1) ↔ _
    have hmem : id ∈ (releaseClaim y w.shared.process).claimTimes.map (·.1) ↔
        id ∈ w.shared.process.claimTimes.map (·.1) ∧ id ≠ y.operationId := by
      simp only [releaseClaim, List.mem_map, List.mem_filter, decide_eq_true_eq]
      constructor
      · rintro ⟨z,⟨hz,hne⟩,rfl⟩
        exact ⟨⟨z,hz,rfl⟩,hne⟩
      · rintro ⟨⟨z,hz,rfl⟩,hne⟩
        exact ⟨z,⟨hz,hne⟩,rfl⟩
    rw [hprocess, hmem, h.times id]
    constructor
    · rintro ⟨⟨slot',t,ht,hid⟩,hne⟩
      refine ⟨slot',t,(hexecutes _ _).2 ⟨?_,ht⟩,hid⟩
      rintro rfl
      exact hne (hid.symm.trans (congrArg _ (hslot t ht)))
    · rintro ⟨slot',t,ht,hid⟩
      obtain ⟨hne,ht⟩ := (hexecutes _ _).1 ht
      exact ⟨⟨slot',t,ht,hid⟩,hid ▸ (hothers slot' t hne ht).1⟩
  · intro slot₁ slot₂ t₁ t₂ ht₁ ht₂
    exact h.apart slot₁ slot₂ t₁ t₂ ((hexecutes _ _).1 ht₁).2 ((hexecutes _ _).1 ht₂).2

/-- A slot loop that releases a claim for the second time meets no other execution of the operation
or on its documents. -/
def Undisturbed (w : World) : Event → Prop
  | .work slot _ => ∀ t, w.slots slot = some t → ¬ Executing t →
      ∀ slot' t', slot' ≠ slot → Executes w slot' t' →
        t'.claimed.operationId ≠ t.claimed.operationId ∧
        ∀ id ∈ t'.claimed.lockedDocumentIds, id ∉ t.claimed.lockedDocumentIds
  | _ => True

/-- The programs of the claims in execution, and what the threads know. -/
def Guarded (s : Settings) (w : World) (know : Slot → Knowledge) : Prop :=
  ∀ slot t, Executes w slot t →
    ∃ q, t.program = guarded t.claimed q ∧ Holding s t.claimed q (know slot)

theorem Guarded.same (h : Guarded s w know) (hslots : w'.slots = w.slots) :
    Guarded s w' know := by
  intro slot t ht
  refine h slot t ⟨?_,ht.2⟩
  rw [← hslots]
  exact ht.1

/-- Executions of different slots are of different operations. -/
theorem SlotsInv.others (h : SlotsInv s w know) (hinv : WorldInv s True w know)
    (ht : Executes w slot t) : ∀ slot' t', slot' ≠ slot → Executes w slot' t' →
      t'.claimed.operationId ≠ t.claimed.operationId ∧
        ∀ id ∈ t'.claimed.lockedDocumentIds, id ∉ t.claimed.lockedDocumentIds := by
  intro slot' t' hne ht'
  have hapart := h.exclusive.apart slot' slot t' t ht' ht hne
  have hinv' := hinv.threads slot' t' ht'.1
  refine ⟨claimed_apart h.operations hinv'.claimed (hinv.threads slot t ht.1).claimed ?_,hapart⟩
  intro he
  refine hapart _ hinv'.locked ?_
  rw [he]
  exact (hinv.threads slot t ht.1).locked

/-- One request of a slot. -/
theorem SlotsInv.work (h : SlotsInv s w know) (hinv : WorldInv s True w know) {i : Input}
    (he : Undisturbed w (.work slot i)) (hwork : w.work s enc slot i = some w') :
    SlotsExclusive w' ∧ Guarded s w' (knows s enc w know (.work slot i)) := by
  obtain ⟨claimed,r,k,a,σ,hslot,hexec,hstep,rfl⟩ := work_ok hwork
  have hans : answers s claimed r a := by
    obtain ⟨hclaimed,-,hp,-⟩ := hinv.threads slot _ hslot
    have hchange : CatalogChange s True (fun _ => True) w.shared.now w.shared.catalog σ.catalog ∧
        σ.now = w.shared.now ∧ answers s claimed r a :=
      exec_change hinv.catalog hclaimed hp (fun _ _ => trivial) hexec
    exact hchange.2.2
  have hknows : knows s enc w know (.work slot i) =
      Function.update know slot (next s claimed r (know slot) a) := by
    simp only [knows, hslot, hstep]
  rw [hknows]
  -- the other slots go on as before
  have kept : ∀ {x : Option Thread}, (∀ t, x = some t → Executing t → ∃ q,
        t.program = guarded t.claimed q ∧
        Holding s t.claimed q (next s claimed r (know slot) a)) →
      Guarded s (({w with shared := σ}).setSlot slot x)
        (Function.update know slot (next s claimed r (know slot) a)) := by
    intro x hx slot' t ht
    rcases executes_setSlot.1 ht with ⟨rfl,hsome,hexecuting⟩ | ⟨hne,ht⟩
    · rw [Function.update_self]
      exact hx t hsome hexecuting
    · rw [Function.update_of_ne hne]
      exact h.programs slot' t ht
  by_cases hexecuting : Executing ⟨claimed,.call r k⟩
  · have ht : Executes w slot ⟨claimed,.call r k⟩ := ⟨hslot,hexecuting⟩
    have hclaimed : ∀ t, Executes w slot t → t.claimed = claimed := fun t hs => by
      cases Option.some.inj (hs.1.symm.trans hslot)
      rfl
    obtain ⟨q,hq,hholding⟩ := h.programs slot _ ht
    replace hq : Program.call r k = guarded claimed q := hq
    cases q with
    | call r' k' =>
      rw [guarded_call] at hq
      obtain ⟨rfl,hk⟩ := Program.call.inj hq
      obtain rfl := eq_of_heq hk
      have hr : ∀ y, r ≠ .release y := by
        rintro y rfl
        exact hholding.not_release
      rw [resume_guarded]
      have hcarry := h.exclusive.carry ht (show (⟨claimed,guarded claimed (k' a)⟩ : Thread).claimed =
        claimed from rfl) (guarded_executing claimed (k' a)) (exec_process_eq hr hexec)
      refine ⟨hcarry,kept fun t hsome _ => ?_⟩
      obtain rfl := Option.some.inj hsome
      exact ⟨k' a,rfl,hholding.2 a hans⟩
    | pure u =>
      cases hq
      cases hexec
      exact ⟨h.exclusive.release hclaimed (h.others hinv ht) rfl (fun _ hsome => by cases hsome),
        kept fun _ hsome => by cases hsome⟩
    | fail err =>
      cases hq
      cases hexec
      have hreleased : ∀ t, some (⟨claimed,release claimed⟩ : Thread) = some t → ¬ Executing t := by
        rintro t hsome hexecuting
        obtain rfl := Option.some.inj hsome
        exact hexecuting rfl
      exact ⟨h.exclusive.release hclaimed (h.others hinv ht) rfl hreleased,
        kept fun t hsome hexecuting => absurd hexecuting (hreleased t hsome)⟩
  · have hprogram : Program.call r k = release claimed := not_not.1 hexecuting
    cases hprogram
    cases hexec
    refine ⟨h.exclusive.release (fun t ht => ?_) (he _ hslot hexecuting) rfl
      (fun _ hsome => by cases hsome),kept fun _ hsome => by cases hsome⟩
    cases Option.some.inj (ht.1.symm.trans hslot)
    exact absurd ht.2 hexecuting

theorem SlotsInv.apply (h : SlotsInv s w know) (hinv : WorldInv s True w know)
    (he : Undisturbed w e) (happly : w.apply s enc e = some w') :
    SlotsExclusive w' ∧ Guarded s w' (knows s enc w know e) := by
  cases e with
  | work slot i => exact h.work hinv he happly
  | claim slot =>
    obtain ⟨hslot,claimed,p,c,hclaim,rfl⟩ := claim_ok happly
    obtain ⟨d,o,o',hd,ho,hclaimable,hx,-,hp,-⟩ := claimNext_ok hinv.catalog hclaim
    rw [slotTurn_eq, resume_guarded]
    have hlocked : claimed.documentId ∈ claimed.lockedDocumentIds := by
      rw [hx]
      exact mem_lockedDocuments.2 (Or.inl
        ((hinv.catalog.documents d hd).operations.valid o ho).document.symm)
    refine ⟨h.exclusive.claim hslot (fun id hid => ?_) (congrArg Process.busyDocuments hp)
      ?_,?_⟩
    · rw [hx] at hid
      exact (claimable_iff.1 hclaimable).2 id hid
    · rw [hp, hx]
      rfl
    · intro slot' t ht
      rcases executes_setSlot.1 ht with ⟨rfl,hsome,-⟩ | ⟨hne,ht⟩
      · obtain rfl := Option.some.inj hsome
        simp only [knows, Function.update_self]
        exact ⟨_,rfl,body_holding hlocked⟩
      · simp only [knows, Function.update_of_ne hne]
        exact h.programs slot' t ht
  | upload x committed =>
    obtain ⟨m,-,rfl⟩ := upload_ok happly
    exact ⟨h.exclusive.same rfl rfl rfl,h.programs⟩
  | decide x | retry id actor | delete id actor =>
    obtain ⟨c,-,rfl⟩ := commit_ok happly
    exact ⟨h.exclusive.same rfl rfl rfl,h.programs⟩
  | recoverLeases | renewLeases | wait n =>
    cases happly
    exact ⟨h.exclusive.same rfl rfl rfl,h.programs⟩
  | restart =>
    cases happly
    exact ⟨(slots_initial (s := s) know).exclusive.same rfl rfl rfl,fun _ _ ht => by cases ht.1⟩

/-- Every step that meets the condition keeps the claims apart. -/
theorem SlotsInv.step (h : SlotsInv s w know) (hinv : WorldInv s True w know)
    (he : Undisturbed w e) (hstep : w.step s enc e = some w') :
    SlotsInv s w' (knows s enc w know e) := by
  have hchange : CatalogChange s True (fun _ => True) w.shared.now w.shared.catalog
      w'.shared.catalog := step_change hinv (fun _ => trivial) (fun _ _ => trivial) hstep
  unfold World.step at hstep
  obtain ⟨w₁,happly,rfl⟩ := Option.map_eq_some_iff.1 hstep
  obtain ⟨hexclusive,hguarded⟩ := h.apply hinv he happly
  exact ⟨hexclusive.same rfl rfl rfl,hguarded.same rfl,h.operations.change hinv.catalog hchange⟩

theorem ReachableBy.slots (h : ReachableBy s enc Undisturbed w) :
    ∃ know, WorldInv s True w know ∧ SlotsInv s w know := by
  induction h with
  | initial => exact ⟨fun _ => ∅,initial_inv _,slots_initial _⟩
  | step _ he hstep ih =>
    obtain ⟨know,hinv,h⟩ := ih
    exact ⟨_,step_inv hinv (fun _ => trivial) hstep,h.step hinv he hstep⟩

/-- The condition is exact: a second release that meets another execution breaks what the process
notes. -/
theorem SlotsExclusive.undisturbed (h : SlotsExclusive w') (happly : w.apply s enc e = some w') :
    Undisturbed w e := by
  cases e with
  | work slot i =>
    intro t ht hreleasing slot' t' hne ht'
    obtain ⟨claimed,r,k,a,σ,hslot,hexec,-,rfl⟩ := work_ok happly
    obtain rfl := Option.some.inj (ht.symm.trans hslot)
    have hprogram : Program.call r k = Worker.release claimed := not_not.1 hreleasing
    cases hprogram
    cases hexec
    have hother : Executes (({w with shared := {w.shared with
        process := releaseClaim claimed w.shared.process}}).setSlot slot none) slot' t' :=
      executes_setSlot.2 (Or.inr ⟨hne,ht'⟩)
    refine ⟨?_,fun id hid => ?_⟩
    · obtain ⟨z,hz,hid⟩ := List.mem_map.1 ((h.times _).2 ⟨slot',t',hother,rfl⟩)
      have hne : z.1 ≠ claimed.operationId := of_decide_eq_true (List.mem_filter.1 hz).2
      rw [hid] at hne
      exact hne
    · have hbusy := (h.busy id).2 ⟨slot',t',hother,hid⟩
      exact of_decide_eq_true (List.mem_filter.1 hbusy).2
  | _ => trivial

/-! ### The claims -/

/-- An operation that a claim may take, and none before it. -/
structure TakesFirst (p : Process) (c : Catalog) (o : WorkOperation) : Prop where
  listed : o ∈ c.operations
  queued : o.state = .queued
  free : ∀ id ∈ lockedDocuments o, id ∉ p.busyDocuments
  first : ∀ o' ∈ c.operations, o'.state = .queued →
    (∀ id ∈ lockedDocuments o', id ∉ p.busyDocuments) →
    toLex (o.priority,toLex (o.createdAt,o.id)) ≤ toLex (o'.priority,toLex (o'.createdAt,o'.id))

theorem claimNext_first {p p' : Process} {x : ClaimedOperation}
    (h : claimNext s now p c = .ok (some x,p',c')) : ∃ o, TakesFirst p c o ∧
      x.operationId = o.id ∧ x.lockedDocumentIds = lockedDocuments o := by
  unfold claimNext at h
  split at h
  · cases h
  · rename_i o hnext
    simp only [bind_eq_ok, orRaise_eq_ok, pure_eq_ok, Prod.mk.injEq, Option.some.injEq] at h
    obtain ⟨d,-,rfl,-,-⟩ := h
    obtain ⟨hlisted,hclaimable⟩ := List.mem_filter.1 (List.argmin_mem hnext)
    obtain ⟨hqueued,hfree⟩ := claimable_iff.1 hclaimable
    refine ⟨o,⟨hlisted,hqueued,hfree,fun o' ho' hqueued' hfree' => ?_⟩,rfl,rfl⟩
    have ho' := List.mem_filter.2 ⟨ho',claimable_iff.2 ⟨hqueued',hfree'⟩⟩
    exact List.le_of_mem_argmin
      (f := fun o : WorkOperation => toLex (o.priority,toLex (o.createdAt,o.id))) ho' hnext

/-- As long as no second release of a claim meets another execution, the process notes exactly the
claims in execution and no two of them lock a common document. The first step that misses the
condition breaks this. Every claim takes the first operation outside the busy documents. -/
theorem slots_share_no_document (h : ReachableBy s enc Undisturbed w) :
    SlotsExclusive w ∧
    (∀ e w', w.step s enc e = some w' → (SlotsExclusive w' ↔ Undisturbed w e)) ∧
    ∀ slot w', w.claim s enc slot = some w' → ∃ t o, Executes w' slot t ∧
      TakesFirst w.shared.process w.shared.catalog o ∧ t.claimed.operationId = o.id ∧
      t.claimed.lockedDocumentIds = lockedDocuments o := by
  obtain ⟨know,hinv,hslots⟩ := h.slots
  refine ⟨hslots.exclusive,fun e w' hstep => ⟨fun hw' => ?_,fun he => ?_⟩,?_⟩
  · unfold World.step at hstep
    obtain ⟨w₁,happly,rfl⟩ := Option.map_eq_some_iff.1 hstep
    have hw₁ : SlotsExclusive w₁ := hw'.same rfl rfl rfl
    exact hw₁.undisturbed happly
  · exact (hslots.step hinv he hstep).exclusive
  · intro slot w' hclaim
    obtain ⟨-,claimed,p,c,hnext,rfl⟩ := claim_ok hclaim
    obtain ⟨o,hfirst,hid,hlocked⟩ := claimNext_first hnext
    refine ⟨⟨claimed,slotTurn s enc claimed⟩,o,?_,hfirst,hid,hlocked⟩
    rw [slotTurn_eq, resume_guarded]
    exact executes_setSlot.2 (Or.inl ⟨rfl,rfl,guarded_executing _ _⟩)

/-! ### Runs -/

/-- A slot waits for the source of a document. -/
def prepares (id : Uuid) (w : World) (slot : Slot) : Bool :=
  (w.slots slot).any fun t => id ∈ t.claimed.lockedDocumentIds &&
    match t.program with
    | .call (.catalog .preflightSource) _ => true
    | _ => false

theorem executes_of_prepares {id : Uuid} (h : prepares id w slot = true) :
    ∃ t, Executes w slot t ∧ id ∈ t.claimed.lockedDocumentIds := by
  obtain ⟨⟨claimed,q⟩,ht,h⟩ := (Option.any_eq_true _ _).1 h
  simp only [Bool.and_eq_true, decide_eq_true_eq] at h
  refine ⟨_,⟨ht,?_⟩,h.1⟩
  intro (hq : q = release claimed)
  rw [hq] at h
  cases h.2

/-- With one slot idle nothing disturbs the other one. -/
theorem undisturbed_of_idle (hidle : (w.slots .second).isNone = true) (e : Event) :
    Undisturbed w e := by
  rw [Option.isNone_iff_eq_none] at hidle
  cases e with
  | work slot i =>
    intro t ht _ slot' t' hne ht'
    cases slot with
    | second => cases hidle.symm.trans ht
    | first =>
      cases slot' with
      | first => exact absurd rfl hne
      | second => cases hidle.symm.trans ht'.1
  | _ => trivial

/-- A script that leaves one slot idle is undisturbed. -/
theorem play_undisturbed {cues : List Cue} (h : play s enc (fun w => (w.slots .second).isNone) cues
    World.initial = some w) : ReachableBy s enc Undisturbed w :=
  ReachableBy.initial.steps (play_steps (fun _ _ _ hidle => undisturbed_of_idle hidle _)
    (fun e _ _ hidle => undisturbed_of_idle hidle e) h)

/-- Each slot prepares one of two uploads. -/
theorem slots_share_no_document_first : ∃ w t t', SlotsExclusive w ∧
    Executes w .first t ∧ Executes w .second t' ∧
    uuid4 0 0 ∈ w.shared.process.busyDocuments ∧ uuid4 1 0 ∈ w.shared.process.busyDocuments ∧
    ∀ id ∈ t.claimed.lockedDocumentIds, id ∉ t'.claimed.lockedDocumentIds := by
  have h : (play booksSettings plainEncoding (fun w => (w.slots .second).isNone)
      [.act (uploadOf "a"),.act (uploadOf "b"),.act (.claim .first),.act (.claim .second)]
      World.initial).any (fun w => prepares (uuid4 0 0) w .first &&
        prepares (uuid4 1 0) w .second) = true := by
    decide +kernel
  obtain ⟨w,hw,hboth⟩ := (Option.any_eq_true _ _).1 h
  obtain ⟨hfirst,hsecond⟩ := Bool.and_eq_true_iff.1 hboth
  obtain ⟨t,ht,hid⟩ := executes_of_prepares hfirst
  obtain ⟨t',ht',hid'⟩ := executes_of_prepares hsecond
  have hexclusive := (slots_share_no_document (play_undisturbed hw)).1
  exact ⟨w,t,t',hexclusive,ht,ht',(hexclusive.busy _).2 ⟨_,t,ht,hid⟩,
    (hexclusive.busy _).2 ⟨_,t',ht',hid'⟩,hexclusive.apart _ _ t t' ht ht' (by decide)⟩

/-- The preflight fails, the record of its failure fails, and the slot loop releases the claim a
second time after the other slot has claimed the operation. -/
def releasedTwice : List Cue :=
  [.act (uploadOf "a"),.act (.claim .first),.act (.work .first .databaseFault),
    .act (.work .first .databaseFault),.act (.work .first .proceed),.act (.wait 100),
    .act .recoverLeases,.act (.claim .second),.act (.work .first .proceed),.act (.wait 100),
    .act .recoverLeases,.act (.claim .first)]

/-- Both slots then prepare the same document. -/
theorem slots_share_released_document :
    ¬ ∀ w, Reachable booksSettings plainEncoding w → SlotsExclusive w := by
  obtain ⟨w,hw,h⟩ := play_any booksSettings plainEncoding (fun _ _ => True) releasedTwice
    (fun w => prepares (uuid4 0 0) w .first && prepares (uuid4 0 0) w .second)
    (fun _ _ _ => trivial) (fun _ _ _ => trivial) (by decide +kernel)
  obtain ⟨hfirst,hsecond⟩ := Bool.and_eq_true_iff.1 h
  obtain ⟨t,ht,hid⟩ := executes_of_prepares hfirst
  obtain ⟨t',ht',hid'⟩ := executes_of_prepares hsecond
  intro hclaim
  exact (hclaim w hw).apart _ _ t t' ht ht' (by decide) _ hid hid'

end Lifecycle
end PdfBridge
