import PdfBridge.Lifecycle.Publication

/-! A replacement never shows old and new content together: the incoming document stays hidden until
the document that it replaces is deleted, and that document is never opened again. -/
namespace PdfBridge
namespace Lifecycle
open Worker Api Intake Preparation

variable {s : Settings} {enc : Encoding} {strands : Prop} {rejects : FailureCode → Prop}
  {now : Time} {x : ClaimedOperation} {K : Knowledge} {c c' : Catalog} {q : Qdrant}
  {d d' i t : Document} {a : Text 255} {p : Point} {id : Uuid} {w w' : World} {ev : Event}
  {know : Slot → Knowledge}

/-! ### What changes the points -/

/-- Only a Qdrant call of an execution changes points, and then it changes no row. -/
theorem apply_qdrant (happly : w.apply s enc ev = some w') :
    w'.shared.qdrant = w.shared.qdrant ∨ ∃ slot x r k, Executes w slot ⟨x,.call (.points r) k⟩ ∧
      w'.shared.catalog = w.shared.catalog ∧ w'.shared.qdrant = r.effect w.shared.qdrant := by
  cases ev with
  | work slot i =>
    obtain ⟨claimed,r,k,y,σ,hslot,hexec,-,rfl⟩ := work_ok happly
    cases r with
    | catalog r =>
      rcases exec_catalog hexec with ⟨-,-,-,-,rfl⟩ | ⟨-,-,rfl,-⟩ <;> exact Or.inl rfl
    | points r =>
      have hexecutes : Executes w slot ⟨claimed,.call (.points r) k⟩ := ⟨hslot,by rintro ⟨⟩⟩
      rcases exec_points hexec with ⟨-,-,-,rfl⟩ | ⟨-,-,rfl | rfl⟩
      · exact Or.inr ⟨slot,claimed,r,k,hexecutes,rfl,rfl⟩
      · exact Or.inl rfl
      · exact Or.inr ⟨slot,claimed,r,k,hexecutes,rfl,rfl⟩
    | _ =>
      obtain ⟨-,hqdrant⟩ := exec_elsewhere hexec (fun _ => by rintro ⟨⟩) fun _ => by rintro ⟨⟩
      exact Or.inl hqdrant
  | claim slot =>
    obtain ⟨-,claimed,p,c,-,rfl⟩ := claim_ok happly
    exact Or.inl rfl
  | upload y committed =>
    obtain ⟨m,-,rfl⟩ := upload_ok happly
    cases committed <;> exact Or.inl rfl
  | decide y | retry id actor | delete id actor =>
    obtain ⟨c,-,rfl⟩ := commit_ok happly
    exact Or.inl rfl
  | recoverLeases | renewLeases | wait n | restart =>
    cases happly
    exact Or.inl rfl

/-- A permitted call opens only points of the own document of a publication, when every other
document that it locks is tombstoned. -/
structure Opens (s : Settings) (x : ClaimedOperation) (K : Knowledge) (id : Uuid) : Prop where
  live : .live ∈ K
  publish : x.operationType = .publish
  own : id = x.documentId
  tombstoned : ∀ id ∈ x.lockedDocumentIds, id ≠ x.documentId → .tombstoned id ∈ K

theorem visible_effect {r : PointRequest} (hp : permitsPoints s x K r)
    (h : Visible (r.effect q) a id p) : Visible q a id p ∨ Opens s x K id := by
  obtain ⟨hs,hid,hpublished,hvisibility⟩ := h
  cases r with
  | count | retrieve | query => exact Or.inl ⟨hs,hid,hpublished,hvisibility⟩
  | upsert b points =>
    rcases Qdrant.stores_of_upsert hs with ⟨-,hmem⟩ | ⟨hs,-⟩
    · obtain ⟨-,⟨-,-,ps,rfl,-⟩ | ⟨-,-,-,-,ps,-,-,rfl,-⟩⟩ := hp <;>
        (obtain ⟨k,-,rfl⟩ := List.mem_map.1 hmem; cases hpublished)
    · exact Or.inl ⟨hs,hid,hpublished,hvisibility⟩
  | delete b other => exact Or.inl ⟨(Qdrant.stores_delete.1 hs).1,hid,hpublished,hvisibility⟩
  | setPayload b other r =>
    obtain ⟨hlive,htype,-,rfl,htombstoned,-⟩ := hp
    by_cases hown : id = x.documentId
    · exact Or.inr ⟨hlive,htype,hown,htombstoned⟩
    · have hsame := Qdrant.samePoints_activate (q := q) (c := b) (r := r) (Ne.symm hown)
      exact Or.inl ⟨(hsame a p hid).1 hs,hid,hpublished,hvisibility⟩

/-- No call opens a point of the screening collection. -/
theorem screening_effect {r : PointRequest} (hp : permitsPoints s x K r)
    (h : ∀ p, q.Stores s.screening p → p.published = false)
    (hs : (r.effect q).Stores s.screening p) : p.published = false := by
  cases r with
  | count | retrieve | query => exact h p hs
  | upsert b points =>
    rcases Qdrant.stores_of_upsert hs with ⟨-,hmem⟩ | ⟨hs,-⟩
    · obtain ⟨-,⟨-,-,ps,rfl,-⟩ | ⟨-,-,-,-,ps,-,-,rfl,-⟩⟩ := hp <;>
        (obtain ⟨k,-,rfl⟩ := List.mem_map.1 hmem; rfl)
    · exact h p hs
  | delete b other => exact h p (Qdrant.stores_delete.1 hs).1
  | setPayload b other r =>
    obtain ⟨-,-,ha,-⟩ := hp
    obtain ⟨p₀,hs₀,he⟩ := Qdrant.stores_activate.1 hs
    rw [Qdrant.openGate, if_neg fun hc => activeName_ne_screening ha hc.1.symm] at he
    cases he
    exact h p hs₀

/-! ### The decision -/

/-- The rows of decisions change only before any approval. -/
theorem Change.decisions_eq (hc : Change s rejects now d d') (hs : unapproved d.state = false) :
    d'.decisions = d.decisions := by
  cases hc with
  | decide hstate | cancel hstate =>
    rw [hstate] at hs
    cases hs
  | @fail o o' ho hopen hsettle hfailed code message outbox =>
    exact (failDocument_sameRows o code message o'.retryable (d.putOperation o')).decisions
  | _ => rfl

/-- The document that the incoming one replaces. -/
theorem CatalogInv.chosen_target (h : CatalogInv s strands now c) (hi : i ∈ c.documents)
    (hchooses : Chooses i id) : ∃ t, t ∈ c.documents ∧ t.id = id ∧ Owns strands i t ∧
      t.replacedByDocumentId = some i.id := by
  obtain ⟨t,ht,hid,hr⟩ := h.link.replaced i hi id (h.link.chosen i hi id hchooses)
  exact ⟨t,ht,hid,h.owns hi ht hr,hr⟩

/-- A publication that replaces a document locks it. -/
theorem Claimed.locks_target (h : Claimed x c) (hinv : CatalogInv s strands now c)
    (hi : i ∈ c.documents) (hid : i.id = x.documentId) (htype : x.operationType = .publish)
    (hchooses : Chooses i id) : id ∈ x.lockedDocumentIds := by
  obtain ⟨d,o,hf⟩ := h
  cases Table.eq_of_key_eq hf.document hi (hf.documentId.trans hid.symm)
  refine (hf.mem_locked hinv).2 (Or.inr ?_)
  exact (hinv.documents i hi).target_eq (hinv.link.chosen i hi id hchooses) hf.operation
    (hf.type.trans htype)

/-! ### Old and new content -/

/-- As long as a document that is replaced is not terminal, its successor shows no point. -/
structure Apart (s : Settings) (c : Catalog) (q : Qdrant) : Prop where
  withheld : ∀ i, i ∈ c.documents → ∀ t, t ∈ c.documents → Chooses i t.id →
    terminalState t.state = false → ∀ a p, ¬ Visible q a i.id p
  screening : ∀ p, q.Stores s.screening p → p.published = false

theorem Apart.empty : Apart s Catalog.empty Qdrant.empty where
  withheld := fun _ h => absurd h (Table.not_mem_empty _)
  screening := fun _ h => absurd h (Table.not_mem_empty _)

/-- An unapproved document shows no point. -/
theorem PointsInv.unapproved_hidden (h : PointsInv s enc c q) (hinv : CatalogInv s strands now c)
    (hscreening : ∀ p, q.Stores s.screening p → p.published = false) (hd : d ∈ c.documents)
    (hs : unapproved d.state = true) (a : Text 255) (p : Point) : ¬ Visible q a d.id p := by
  rintro ⟨hstores,hid,hpublished,-⟩
  obtain ⟨e,he,heid,rfl | ha⟩ := (h.placed a p hstores).document
  · rw [hscreening p hstores] at hpublished
    cases hpublished
  · cases Table.eq_of_key_eq he hd (heid.trans hid)
    rcases h.active d hd a ha with hclear | ⟨ps,⟨r,hr,-⟩,-⟩
    · exact hclear p hstores hid
    · rw [Table.mem_def, (hinv.documents d hd).publications.unpublished hs] at hr
      cases hr

/-- A transaction keeps the new content hidden. -/
theorem Apart.transaction (h : Apart s c q) (hpoints : PointsInv s enc c q)
    (hinv : CatalogInv s strands now c) (hc : CatalogChange s strands rejects now c c') :
    Apart s c' q := by
  refine ⟨fun i' hi' t' ht' hchooses hterminal a p => ?_,h.screening⟩
  rcases hc.backward hi' with ⟨i,hi,hchange⟩ | ⟨y,rfl⟩
  · rw [hchange.id]
    by_cases hs : unapproved i.state = true
    · exact hpoints.unapproved_hidden hinv h.screening hi hs a p
    · have hold : Chooses i t'.id := by
        obtain ⟨y,hy,haction⟩ := hchooses
        rw [hchange.decisions_eq (by simpa using hs)] at hy
        exact ⟨y,hy,haction⟩
      obtain ⟨t,ht,hid,-,-⟩ := hinv.chosen_target hi hold
      obtain ⟨t'',ht'',hct⟩ := hc.forward hinv ht
      cases Table.eq_of_key_eq ht'' ht' (hct.id.trans hid)
      refine h.withheld i hi t ht (hid ▸ hold) ?_ a p
      by_contra hn
      have hkept := hct.terminal_kept (hinv.documents t ht) (by simpa using hn)
      rw [hkept] at hterminal
      exact hn hterminal
  · obtain ⟨y',hy',-⟩ := hchooses
    exact absurd hy' List.not_mem_nil

/-- A call keeps the new content hidden. -/
theorem Apart.call (h : Apart s c q) (hinv : CatalogInv s strands now c) (hclaimed : Claimed x c)
    (g : Grounded s enc c q x K) {r : PointRequest} (hp : permitsPoints s x K r) :
    Apart s c (r.effect q) := by
  refine ⟨fun i hi t ht hchooses hterminal a p hv => ?_,fun p => screening_effect hp h.screening⟩
  rcases visible_effect hp hv with hv | hopens
  · exact h.withheld i hi t ht hchooses hterminal a p hv
  · obtain ⟨t',ht',hid,howns,-⟩ := hinv.chosen_target hi hchooses
    have hne : t.id ≠ x.documentId := fun he => howns.ne (hopens.own.trans (he.symm.trans hid.symm))
    have hlocked := hclaimed.locks_target hinv hi hopens.own hopens.publish hchooses
    obtain ⟨t'',ht'',hid',hdone⟩ := g _ (hopens.tombstoned t.id hlocked hne)
    cases Table.eq_of_key_eq ht'' ht hid'
    rw [hterminal] at hdone
    cases hdone

/-- A replaced document is opened by no call. -/
theorem Grounded.not_opens (g : Grounded s enc c q x K) (hinv : CatalogInv s strands now c)
    (ht : t ∈ c.documents) (hr : t.replacedByDocumentId.isSome = true) : ¬ Opens s x K t.id := by
  intro hopens
  have hbusy := g.busy hopens.live ht hopens.own
  have hdeletion := (hinv.documents t ht).deletion_of_replaced hr
  rw [hbusy, hopens.publish] at hdeletion
  cases hdeletion

/-! ### Runs -/

theorem Apart.step (h : Apart s w.shared.catalog w.shared.qdrant) (hw : WorldInv s True w know)
    (hsound : Sound s enc w know) (hstep : w.step s enc ev = some w') :
    Apart s w'.shared.catalog w'.shared.qdrant := by
  have hchange : CatalogChange s True (fun _ => True) w.shared.now w.shared.catalog
      w'.shared.catalog := step_change hw (fun _ => trivial) (fun _ _ => trivial) hstep
  unfold World.step at hstep
  obtain ⟨w₁,happly,rfl⟩ := Option.map_eq_some_iff.1 hstep
  show Apart s w₁.shared.catalog w₁.shared.qdrant
  rcases apply_qdrant happly with hqdrant | ⟨slot,x,r,k,ht,hcatalog,hqdrant⟩
  · rw [hqdrant]
    exact h.transaction hsound.points hw.catalog hchange
  · obtain ⟨hclaimed,-,hp,-⟩ := hw.threads slot _ ht.1
    rw [hcatalog, hqdrant]
    exact h.call hw.catalog hclaimed (hsound.grounded slot _ ht) hp

theorem ReachableBy.apart (h : ReachableBy s enc Undisturbed w) :
    Apart s w.shared.catalog w.shared.qdrant := by
  induction h with
  | initial => exact Apart.empty
  | step hw _ hstep ih =>
    obtain ⟨know,hinv,-,hsound⟩ := hw.sound
    exact ih.step hinv hsound hstep

/-- A step opens no point of a replaced document. -/
theorem visible_step (hw : WorldInv s True w know) (hsound : Sound s enc w know)
    (hstep : w.step s enc ev = some w') (ht : t ∈ w.shared.catalog.documents)
    (hr : t.replacedByDocumentId.isSome = true) (hv : Visible w'.shared.qdrant a t.id p) :
    Visible w.shared.qdrant a t.id p := by
  unfold World.step at hstep
  obtain ⟨w₁,happly,rfl⟩ := Option.map_eq_some_iff.1 hstep
  change Visible w₁.shared.qdrant a t.id p at hv
  rcases apply_qdrant happly with hqdrant | ⟨slot,x,r,k,hexecutes,-,hqdrant⟩
  · rwa [hqdrant] at hv
  · obtain ⟨-,-,hp,-⟩ := hw.threads slot _ hexecutes.1
    rw [hqdrant] at hv
    rcases visible_effect hp hv with hv | hopens
    · exact hv
    · exact absurd hopens ((hsound.grounded slot _ hexecutes).not_opens hw.catalog ht hr)

/-- From the decision on no point of the replaced document is opened. -/
theorem visible_steps (h : ReachableBy s enc Undisturbed w)
    (hchosen : ∃ i, i ∈ w.shared.catalog.documents ∧ Chooses i id)
    (hsteps : Steps s enc Undisturbed w w') (hv : Visible w'.shared.qdrant a id p) :
    Visible w.shared.qdrant a id p := by
  induction hsteps using Relation.ReflTransGen.head_induction_on with
  | refl => exact hv
  | @head w w₁ hfirst _ ih =>
    obtain ⟨ev,he,hstep⟩ := hfirst
    obtain ⟨know,hinv,-,hsound⟩ := h.sound
    obtain ⟨i,hi,hchooses⟩ := hchosen
    obtain ⟨t,ht,rfl,-,hr⟩ := hinv.catalog.chosen_target hi hchooses
    refine visible_step hinv hsound hstep ht (by rw [hr]; rfl) (ih (h.step he hstep) ?_)
    have hchange : CatalogChange s True (fun _ => True) w.shared.now w.shared.catalog
        w₁.shared.catalog := step_change hinv (fun _ => trivial) (fun _ _ => trivial) hstep
    obtain ⟨i',hi',hc⟩ := hchange.forward hinv.catalog hi
    exact ⟨i',hi',hchooses.change hc⟩

/-- What holds of a replaced document once its successor is visible. -/
structure Buried (w : World) (t : Document) : Prop where
  state : t.state = .deleted
  tombstone : t.tombstone.isSome = true
  clear : ∀ a, w.shared.qdrant.Clear a t.id

theorem buried_of_terminal (hinv : CatalogInv s strands now w.shared.catalog)
    (hpoints : PointsInv s enc w.shared.catalog w.shared.qdrant)
    (ht : t ∈ w.shared.catalog.documents) (hr : t.replacedByDocumentId.isSome = true)
    (hterminal : terminalState t.state = true) : Buried w t := by
  have dinv := hinv.documents t ht
  obtain ⟨p,hp,hprogress⟩ := dinv.deletion.progress (dinv.deletion_of_replaced hr)
  have hdisposition := hprogress.replaced hr
  have hstate : t.state = p.terminalDisposition.toState := by
    rcases hprogress.state with hs | hs | hs
    · rw [hs] at hterminal
      cases hterminal
    · rw [hs] at hterminal
      cases hterminal
    · exact hs
  have htombstoned := hprogress.tombstoned.2 hstate
  obtain ⟨y,hy,-⟩ := hprogress.tombstone htombstoned
  have hscreening := hprogress.purged (hprogress.complete htombstoned)
  refine ⟨by rw [hstate, hdisposition]; rfl,by rw [hy]; rfl,fun a p' hs hid => ?_⟩
  obtain ⟨e,he,heid,rfl | ha⟩ := (hpoints.placed a p' hs).document
  · exact hpoints.zeros t ht .screening ⟨p,hp,hscreening⟩ _ rfl p' hs hid
  · cases Table.eq_of_key_eq he ht (heid.trans hid)
    exact hpoints.zeros t ht .active ⟨p,hp,hprogress.zeros hscreening⟩ a ha p' hs hid

/-- From the decision to replace a document on, and as long as no late release disturbs an
execution, the incoming document shows a point only when the replaced one is deleted and has no
point, and no point of the replaced document is opened. -/
theorem replacement_never_overlaps (h : ReachableBy s enc Undisturbed w)
    (hi : i ∈ w.shared.catalog.documents) (hreplace : Chooses i id) :
    ((∃ a p, Visible w.shared.qdrant a i.id p) →
      ∃ t, t ∈ w.shared.catalog.documents ∧ t.id = id ∧ Buried w t) ∧
    ∀ w', Steps s enc Undisturbed w w' → ∀ a p, Visible w'.shared.qdrant a id p →
      Visible w.shared.qdrant a id p := by
  refine ⟨?_,fun w' hsteps a p => visible_steps h ⟨i,hi,hreplace⟩ hsteps⟩
  rintro ⟨a,p,hv⟩
  obtain ⟨know,hinv,-,hsound⟩ := h.sound
  obtain ⟨t,ht,rfl,-,hr⟩ := hinv.catalog.chosen_target hi hreplace
  refine ⟨t,ht,rfl,buried_of_terminal hinv.catalog hsound.points ht (by rw [hr]; rfl) ?_⟩
  by_contra hn
  exact h.apart.withheld i hi t ht hreplace (by simpa using hn) a p hv

/-! ### A replaced document with points -/

/-- A document replaces the first upload and shows a point. -/
def replacesFirst (w : World) : Bool :=
  w.shared.catalog.documents.rows.any fun i =>
    (i.decisions.any fun x => x.action = .replace && x.targetDocumentId = some (uuid4 0 0)) &&
      w.shared.qdrant.points.rows.any fun x => x.point.chunk.documentId = i.id &&
        x.point.published && x.point.visibility = .active

theorem replacesFirst_ok (h : replacesFirst w = true) : ∃ i, i ∈ w.shared.catalog.documents ∧
    Chooses i (uuid4 0 0) ∧ ∃ a p, Visible w.shared.qdrant a i.id p := by
  simp only [replacesFirst, List.any_eq_true, Bool.and_eq_true, decide_eq_true_eq] at h
  obtain ⟨i,hi,⟨x,hx,haction,htarget⟩,⟨a,p⟩,hs,⟨hid,hpublished⟩,hvisibility⟩ := h
  exact ⟨i,hi,⟨x,hx,haction,htarget⟩,a,p,hs,hid,hpublished,hvisibility⟩

/-- A replacement that succeeds. -/
theorem first_replacement_buried : ∃ (w : World) (t : Document), t ∈ w.shared.catalog.documents ∧
    t.id = uuid4 0 0 ∧ Buried w t := by
  have h : (play booksSettings plainEncoding (fun w => (w.slots .second).isNone)
      (replacing ++ turnOf smoothly) World.initial).any replacesFirst = true := by
    decide +kernel
  obtain ⟨w,hw,h⟩ := (Option.any_eq_true _ _).1 h
  obtain ⟨i,hi,hreplace,hvisible⟩ := replacesFirst_ok h
  exact ⟨w,(replacement_never_overlaps (play_undisturbed hw) hi hreplace).1 hvisible⟩

/-- A second execution of the first publication stops before it stages the points. Then the document
is replaced, and the execution goes on. -/
def stagedLate : List Cue :=
  publishedTwice ++ .act (uploadOf "new") :: turnOf findsFirst ++
  [.act (.decide ⟨uuid4 287 0,uuid4 292 0,.replace,some (uuid4 0 0),sampleOperator⟩)] ++
  turnOf smoothly ++ [.act (.work .second .proceed)]

theorem replacement_overlaps : ¬ ∀ w i id, Reachable booksSettings plainEncoding w →
    i ∈ w.shared.catalog.documents → Chooses i id → (∃ a p, Visible w.shared.qdrant a i.id p) →
    ∃ t, t ∈ w.shared.catalog.documents ∧ t.id = id ∧ Buried w t := by
  obtain ⟨w,hw,h⟩ := play_any booksSettings plainEncoding (fun _ _ => True) stagedLate
    (fun w => replacesFirst w &&
      w.shared.qdrant.points.rows.any fun x => x.point.chunk.documentId = uuid4 0 0)
    (fun _ _ _ => trivial) (fun _ _ _ => trivial) (by decide +kernel)
  obtain ⟨hreplaces,hleft⟩ := Bool.and_eq_true_iff.1 h
  obtain ⟨⟨a,p⟩,hs,hid⟩ := List.any_eq_true.1 hleft
  obtain ⟨i,hi,hreplace,hvisible⟩ := replacesFirst_ok hreplaces
  intro hclaim
  obtain ⟨t,ht,hid',hburied⟩ := hclaim w i _ hw hi hreplace hvisible
  exact hburied.clear a p hs ((of_decide_eq_true hid).trans hid'.symm)

end Lifecycle
end PdfBridge
