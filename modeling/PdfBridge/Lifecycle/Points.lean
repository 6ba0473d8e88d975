import PdfBridge.Lifecycle.Promises
import PdfBridge.Lifecycle.Retention
import PdfBridge.Lifecycle.Slots
import PdfBridge.Services.PointSets

/-! The points of every document in Qdrant and what the catalog says about them, at every step of
every thread. -/
namespace PdfBridge
namespace Lifecycle
open Worker Api Intake Preparation

variable {s : Settings} {enc : Encoding} {strands : Prop} {rejects : FailureCode → Prop}
  {now : Time} {worker : Uuid} {ref : OperationRef} {x : ClaimedOperation} {K : Knowledge}
  {c c' : Catalog} {q q' : Qdrant} {d d' e t : Document} {a : Text 255} {ps : List ChunkPoint}

/-! ### Prepared points -/

/-- The points that the sealed revision of the publication prescribes. -/
def Prescribed (enc : Encoding) (d : Document) (ps : List ChunkPoint) : Prop :=
  ∃ p, p ∈ d.publications ∧ reconstructChunkPoints enc p.preparedRevisionId true d = .ok ps

theorem Prescribed.unique {ps' : List ChunkPoint} (h : Prescribed enc d ps)
    (h' : Prescribed enc d ps') (hd : PublicationsInv d) : ps = ps' := by
  obtain ⟨p,hp,hps⟩ := h
  obtain ⟨p',hp',hps'⟩ := h'
  have hrows := hd.rows_eq hp
  rw [Table.mem_def, hrows, List.mem_singleton] at hp'
  subst hp'
  exact Except.ok.inj (hps.symm.trans hps')

theorem chunkPoints_ids {r : PreparedRevision} {chunks : List PreparedChunk} {i : ℕ}
    (h : chunkPoints enc d r i chunks = .ok ps) :
    ps.map (·.chunkIndex) = List.range' i ps.length ∧
      ∀ p ∈ ps, ∃ digest, p.chunkId = chunkIdentity d.id r.id p.chunkIndex digest := by
  induction chunks generalizing i ps with
  | nil =>
    simp only [chunkPoints, pure_eq_ok] at h
    subst h
    exact ⟨rfl,fun p hp => absurd hp List.not_mem_nil⟩
  | cons k ks ih =>
    simp only [chunkPoints, chunkPoint, bind_eq_ok, require_eq_ok, exists_const, pure_eq_ok] at h
    obtain ⟨p,⟨hk,_,-,_,-,-,rfl⟩,ps,hps,rfl⟩ := h
    obtain ⟨hindex,hids⟩ := ih hps
    refine ⟨?_,List.forall_mem_cons.2 ⟨⟨k.textSha256,?_⟩,hids⟩⟩
    · rw [List.map_cons, hindex, List.length_cons, List.range'_succ]
      exact congrArg (· :: _) hk.1
    · exact hk.2.1.trans (by rw [hk.1])

/-- The points of one revision have different identities. -/
theorem reconstruct_nodup {id : Uuid} {sealed_ : Bool}
    (h : reconstructChunkPoints enc id sealed_ d = .ok ps) : (ps.map (·.chunkId)).Nodup := by
  simp only [reconstructChunkPoints, validateChunkRows, bind_eq_ok, require_eq_ok, exists_const,
    pure_eq_ok] at h
  obtain ⟨r,-,-,-,qs,hqs,-,-,rfl⟩ := h
  obtain ⟨hindex,hids⟩ := chunkPoints_ids hqs
  have hn : (qs.map (·.chunkIndex)).Nodup := by
    rw [hindex]
    exact List.nodup_range'
  refine (List.nodup_map_iff_inj_on (List.Nodup.of_map _ hn)).2 fun p hp p' hp' he => ?_
  obtain ⟨digest,hid⟩ := hids p hp
  obtain ⟨digest',hid'⟩ := hids p' hp'
  refine List.inj_on_of_nodup_map hn hp hp' ?_
  rw [hid, hid'] at he
  exact congrArg ChunkId.chunkIndex he

/-- The rows that a reconstruction reads. -/
theorem reconstruct_frame {id : Uuid} (h : reconstructChunkPoints enc id true d = .ok ps)
    (hid : d'.id = d.id) (hintake : d'.intake = d.intake)
    (hsealed : ∀ r, r ∈ d.preparedRevisions → r.status = .sealed → r ∈ d'.preparedRevisions) :
    reconstructChunkPoints enc id true d' = .ok ps := by
  have hpoint : ∀ r i k, chunkPoint enc d' r i k = chunkPoint enc d r i k := by
    intro r i k
    unfold chunkPoint
    rw [hid, hintake]
  have hpoints : ∀ r ks i, chunkPoints enc d' r i ks = chunkPoints enc d r i ks := by
    intro r ks
    induction ks with
    | nil => exact fun _ => rfl
    | cons k ks ih =>
      intro i
      simp only [chunkPoints, hpoint, ih]
  simp only [reconstructChunkPoints, bind_eq_ok, require_eq_ok, exists_const] at h ⊢
  obtain ⟨r,hr,hs,hrows⟩ := h
  obtain ⟨hm,rfl⟩ := loadRevision_ok hr
  refine ⟨r,?_,hs,?_⟩
  · simp only [loadRevision, orRaise_eq_ok]
    exact Table.lookup_of_mem (hsealed r hm (hs trivial))
  · simp only [validateChunkRows, hpoints] at hrows ⊢
    exact hrows

/-- A transition keeps the sealed revisions unless it purges them. -/
theorem Change.sealed_stays (hc : Change s rejects now d d') (hinv : DocumentInv s now d)
    (hzero : ¬ Proved d .active) :
    ∀ r, r ∈ d.preparedRevisions → r.status = .sealed → r ∈ d'.preparedRevisions := by
  intro r hr hs
  cases hc with
  | revise revisions hsealed => exact hsealed r hr hs
  | purge hp hz =>
    exact absurd ⟨_,hp,(hinv.deletion.of_some hp).zeros hz⟩ hzero
  | fail ho hopen hsettle hfailed code message outbox =>
    show r ∈ (failDocument _ code message _ _).preparedRevisions
    rw [sameContent_failDocument.revisions]
    exact hr
  | _ => exact hr

/-- A publication stays bound to its revision. -/
theorem Change.publication_kept (hc : Change s rejects now d d') (hinv : DocumentInv s now d)
    {p : PublicationRecord} (hp : p ∈ d.publications) :
    ∃ p', p' ∈ d'.publications ∧ p'.preparedRevisionId = p.preparedRevisionId := by
  have hrows := hinv.publications.rows_eq hp
  have put : ∀ {q q' : PublicationRecord}, q ∈ d.publications →
      q'.preparedRevisionId = q.preparedRevisionId →
      ∃ p', p' ∈ d.publications.put q' ∧ p'.preparedRevisionId = p.preparedRevisionId := by
    intro q q' hq hrevision
    rw [Table.mem_def, hrows, List.mem_singleton] at hq
    subst hq
    exact ⟨q',Table.mem_put_self _ _,hrevision⟩
  have added : ∀ {q : PublicationRecord}, unapproved d.state = true →
      ∃ p', p' ∈ d.publications.put q ∧ p'.preparedRevisionId = p.preparedRevisionId := by
    intro q hu
    have hnone := hinv.publications.unpublished hu
    rw [hnone] at hrows
    cases hrows
  cases hc with
  | approve hstate => exact added (by rw [hstate]; rfl)
  | decide hstate => exact added (by rw [hstate]; rfl)
  | upsert hstate hq => exact put hq rfl
  | publish hstate ho hs hsucceeded hq hid hrevision => exact put hq hrevision
  | retryPublish hstate ho hpriority hq => exact put hq rfl
  | @fail o o' ho hopen hsettle hfailed code message outbox =>
    show ∃ p', p' ∈ (failDocument o code message o'.retryable (d.putOperation o')).publications ∧
      p'.preparedRevisionId = p.preparedRevisionId
    unfold failDocument
    split
    · exact ⟨p,hp,rfl⟩
    · show ∃ p', p' ∈ (failPublication code o.preparedRevisionId
        (d.putOperation o')).publications ∧ p'.preparedRevisionId = p.preparedRevisionId
      unfold failPublication
      split
      · exact ⟨p,hp,rfl⟩
      · rename_i q hq
        split
        · exact ⟨p,hp,rfl⟩
        · obtain ⟨id,-,hfound⟩ := Option.bind_eq_some_iff.1 hq
          exact put (List.mem_of_find?_eq_some hfound) rfl
    · exact ⟨p,hp,rfl⟩
  | _ => exact ⟨p,hp,rfl⟩

theorem Prescribed.change (h : Prescribed enc d ps) (hc : Change s rejects now d d')
    (hinv : DocumentInv s now d) (hzero : ¬ Proved d .active) : Prescribed enc d' ps := by
  obtain ⟨p,hp,hps⟩ := h
  obtain ⟨p',hp',he⟩ := hc.publication_kept hinv hp
  refine ⟨p',hp',?_⟩
  rw [he]
  exact reconstruct_frame hps hc.id hc.intake (hc.sealed_stays hinv hzero)

/-! ### The point sets of the documents -/

/-- The active points of a document are all staged or all open, or there are none. -/
def ActiveSet (enc : Encoding) (q : Qdrant) (a : Text 255) (d : Document) : Prop :=
  q.Clear a d.id ∨ ∃ ps, Prescribed enc d ps ∧
    (q.Exactly a d.id (ps.map stagedPoint) ∨ q.Exactly a d.id (ps.map activePoint))

/-- Exactly the prescribed points are visible, and screening holds none. -/
def Published (s : Settings) (enc : Encoding) (q : Qdrant) (a : Text 255) (d : Document) : Prop :=
  (∃ ps, Prescribed enc d ps ∧ q.Exactly a d.id (ps.map activePoint)) ∧
    q.Clear s.screening d.id

/-- A stored point belongs to a document and to one of its two collections. -/
structure Placed (s : Settings) (c : Catalog) (a : Text 255) (p : Point) : Prop where
  chunk : p.chunk.chunkId.documentId = p.chunk.documentId
  document : ∃ d, d ∈ c.documents ∧ d.id = p.chunk.documentId ∧
    (a = s.screening ∨ activeName? s d.intake.collectionKey = some a)

structure PointsInv (s : Settings) (enc : Encoding) (c : Catalog) (q : Qdrant) : Prop where
  placed : ∀ a p, q.Stores a p → Placed s c a p
  active : ∀ d, d ∈ c.documents → ∀ a, activeName? s d.intake.collectionKey = some a →
    ActiveSet enc q a d
  ready : ∀ d, d ∈ c.documents → d.state = .ready →
    ∀ a, activeName? s d.intake.collectionKey = some a → Published s enc q a d
  zeros : ∀ d, d ∈ c.documents → ∀ target, Proved d target →
    ∀ a, targetName? s d.intake.collectionKey target = some a → q.Clear a d.id

theorem PointsInv.empty : PointsInv s enc Catalog.empty Qdrant.empty where
  placed := fun _ _ h => absurd h (Table.not_mem_empty _)
  active := fun _ h => absurd h (Table.not_mem_empty _)
  ready := fun _ h => absurd h (Table.not_mem_empty _)
  zeros := fun _ h => absurd h (Table.not_mem_empty _)

theorem ActiveSet.change (h : ActiveSet enc q a d) (hc : Change s rejects now d d')
    (hinv : DocumentInv s now d) (hzero : Proved d .active → q.Clear a d.id) :
    ActiveSet enc q a d' := by
  by_cases hp : Proved d .active
  · left
    rw [hc.id]
    exact hzero hp
  · unfold ActiveSet at h ⊢
    rw [hc.id]
    rcases h with h | ⟨ps,hps,h⟩
    · exact Or.inl h
    · exact Or.inr ⟨ps,hps.change hc hinv hp,h⟩

theorem Published.change (h : Published s enc q a d) (hc : Change s rejects now d d')
    (hinv : DocumentInv s now d) (hzero : ¬ Proved d .active) : Published s enc q a d' := by
  obtain ⟨⟨ps,hps,hexactly⟩,hclear⟩ := h
  unfold Published
  rw [hc.id]
  exact ⟨⟨ps,hps.change hc hinv hzero,hexactly⟩,hclear⟩

/-- A document that is not being deleted has proved nothing. -/
theorem DocumentInv.not_proved (h : DocumentInv s now d) (hs : deletionState d.state = false)
    (target : IndexTarget) : ¬ Proved d target := by
  rintro ⟨p,hp,-⟩
  rw [(h.deletion.live hs).1] at hp
  cases hp

/-- An admitted document is a new one. -/
theorem CatalogInv.admitted_ne (hinv : CatalogInv s strands now c) (hd : d ∈ c.documents)
    (y : PreparedAdmission) : (admitted now y).id ≠ d.id := by
  intro he
  have hfresh := (hinv.documents d hd).fresh
  have hdrawn := congrArg Uuid.drawnAt ((hinv.documents d hd).drawn.symm.trans he.symm)
  rw [show d.createdAt = now from hdrawn] at hfresh
  exact absurd hfresh (lt_irrefl _)

/-- A transaction of the catalog, with what it relies on when it publishes or proves a zero. -/
theorem PointsInv.transaction (h : PointsInv s enc c q) (hinv : CatalogInv s strands now c)
    (hc : CatalogChange s strands rejects now c c') {al : Allowance} (ho : Observes al c c')
    (hpublishes : ∀ d, d ∈ c.documents → al.publishes d.id → deletionState d.state = false ∧
      ∀ a, activeName? s d.intake.collectionKey = some a → Published s enc q a d)
    (hproves : ∀ d, d ∈ c.documents → ∀ target, al.proves d.id target →
      ∀ a, targetName? s d.intake.collectionKey target = some a → q.Clear a d.id) :
    PointsInv s enc c' q := by
  -- a document of the catalog moved on, or is new and without points
  have origin : ∀ d', d' ∈ c'.documents →
      (∃ d, d ∈ c.documents ∧ Change s rejects now d d' ∧
        (d'.state = .ready → d.state = .ready ∨ al.publishes d.id) ∧
        ∀ target, Proved d' target → Proved d target ∨ al.proves d.id target) ∨
      (d'.state ≠ .ready ∧ (∀ target, ¬ Proved d' target) ∧ ∀ a, q.Clear a d'.id) := by
    intro d' hd'
    rcases ho.documents d' hd' with ⟨-,hready,hzeros⟩ | ⟨d,hd,hw⟩ <;>
      rcases hc.backward hd' with ⟨e,he,hchange⟩ | ⟨y,rfl⟩
    · exact Or.inl ⟨e,he,hchange,fun hr => absurd hr hready,fun target hz =>
        absurd hz (hzeros target)⟩
    · refine Or.inr ⟨hready,hzeros,fun a p hs hid => ?_⟩
      obtain ⟨d,hd,hdid,-⟩ := (h.placed a p hs).document
      exact hinv.admitted_ne hd y (hid.symm.trans hdid.symm)
    · cases Table.eq_of_key_eq he hd (hchange.id.symm.trans hw.id)
      exact Or.inl ⟨d,hd,hchange,hw.ready,hw.zeros⟩
    · exact absurd hw.id (hinv.admitted_ne hd y)
  constructor
  · intro a p hs
    have hplaced := h.placed a p hs
    obtain ⟨d,hd,hid,ha⟩ := hplaced.document
    obtain ⟨d',hd',hchange⟩ := hc.forward hinv hd
    exact ⟨hplaced.chunk,d',hd',hchange.id.trans hid,by rw [hchange.intake]; exact ha⟩
  · intro d' hd' a ha
    rcases origin d' hd' with ⟨d,hd,hchange,-,-⟩ | ⟨-,-,hclear⟩
    · rw [hchange.intake] at ha
      exact (h.active d hd a ha).change hchange (hinv.documents d hd)
        fun hp => h.zeros d hd .active hp a ha
    · exact Or.inl (hclear a)
  · intro d' hd' hready a ha
    rcases origin d' hd' with ⟨d,hd,hchange,hr,-⟩ | ⟨hn,-⟩
    · rw [hchange.intake] at ha
      have dinv := hinv.documents d hd
      rcases hr hready with hr | hp
      · exact (h.ready d hd hr a ha).change hchange dinv
          (dinv.not_proved (by rw [hr]; rfl) .active)
      · obtain ⟨hs,hpub⟩ := hpublishes d hd hp
        exact (hpub a ha).change hchange dinv (dinv.not_proved hs .active)
    · exact absurd hready hn
  · intro d' hd' target hz a ha
    rcases origin d' hd' with ⟨d,hd,hchange,-,hzeros⟩ | ⟨-,hn,-⟩
    · rw [hchange.intake] at ha
      rw [hchange.id]
      rcases hzeros target hz with hz | hp
      · exact h.zeros d hd target hz a ha
      · exact hproves d hd target hp a ha
    · exact absurd hz (hn target)

/-! ### What a thread knows -/

/-- What a fact means as long as the operation is open: the state of its document, the points of
the documents that it has locked, and the prepared points that it publishes. -/
def Means (s : Settings) (enc : Encoding) (c : Catalog) (q : Qdrant) (x : ClaimedOperation)
    (live : Prop) : Fact → Prop
  | .live => live → ∀ d, d ∈ c.documents → d.id = x.documentId → d.state = busyState x.operationType
  | .zero a id => id ∈ x.lockedDocumentIds → q.Clear a id
  | .tombstoned id => ∃ d, d ∈ c.documents ∧ d.id = id ∧ terminalState d.state = true
  | .publishes r => live → x.operationType = .publish → ∀ d, d ∈ c.documents →
      d.id = x.documentId → ∃ p, p ∈ d.publications ∧ p.preparedRevisionId = r
  | .reconstructed r ps => live → x.operationType = .publish → ∀ d, d ∈ c.documents →
      d.id = x.documentId → reconstructChunkPoints enc r true d = .ok ps
  | .staged ps => ∀ a, activeName? s x.collectionKey = some a →
      q.Exactly a x.documentId (ps.map stagedPoint)
  | .opened ps => ∀ a, activeName? s x.collectionKey = some a →
      q.Exactly a x.documentId (ps.map activePoint)
  | _ => True

/-- Everything that a thread knows holds. -/
def Grounded (s : Settings) (enc : Encoding) (c : Catalog) (q : Qdrant) (x : ClaimedOperation)
    (K : Knowledge) : Prop := ∀ f ∈ K, Means s enc c q x (.live ∈ K) f

variable {f : Fact} {live live' : Prop}

theorem Means.mono (h : Means s enc c q x live f) (hl : live' → live) :
    Means s enc c q x live' f := by
  cases f with
  | live => exact fun hlive => h (hl hlive)
  | publishes r => exact fun hlive => h (hl hlive)
  | reconstructed r ps => exact fun hlive => h (hl hlive)
  | _ => exact h

theorem Grounded.busy (h : Grounded s enc c q x K) (hlive : .live ∈ K) (hd : d ∈ c.documents)
    (hid : d.id = x.documentId) : d.state = busyState x.operationType :=
  h .live hlive hlive d hd hid

theorem Grounded.prescribed (h : Grounded s enc c q x K) (hlive : .live ∈ K)
    (htype : x.operationType = .publish) {r : Uuid} (hr : .publishes r ∈ K)
    (hps : .reconstructed r ps ∈ K) (hd : d ∈ c.documents) (hid : d.id = x.documentId) :
    Prescribed enc d ps := by
  obtain ⟨p,hp,rfl⟩ := h _ hr hlive htype d hd hid
  exact ⟨p,hp,h _ hps hlive htype d hd hid⟩

/-- A claim starts with nothing established but its operation. -/
theorem grounded_base (hbusy : ∀ d, d ∈ c.documents → d.id = x.documentId →
    d.state = busyState x.operationType) : Grounded s enc c q x base := by
  rintro f (rfl | rfl)
  · exact fun _ => hbusy
  · trivial

/-- A document that a claim locks is its own, or is being replaced by it. -/
theorem Claimed.locks (h : Claimed x c) (hinv : CatalogInv s strands now c)
    (hd : d ∈ c.documents) (hid : d.id ∈ x.lockedDocumentIds) :
    d.intake.collectionKey = x.collectionKey ∧
      (d.id = x.documentId ∨ deletionState d.state = true) := by
  obtain ⟨i,o,hf⟩ := h
  rcases (hf.mem_locked hinv).1 hid with he | htarget
  · cases Table.eq_of_key_eq hf.document hd (hf.documentId.trans he.symm)
    exact ⟨hf.collection,Or.inl he⟩
  · obtain ⟨t,ht,htid,hr⟩ := hinv.link.replaced i hf.document d.id ⟨o,hf.operation,htarget⟩
    cases Table.eq_of_key_eq ht hd htid
    exact ⟨(hinv.owns hf.document hd hr).collection.symm.trans hf.collection,
      Or.inr ((hinv.documents d hd).deletion_of_replaced (by rw [hr]; rfl))⟩

/-- While the operation is open, no document that it locks is `READY`. -/
theorem Grounded.not_ready (h : Grounded s enc c q x K) (hlive : .live ∈ K) (hclaimed : Claimed x c)
    (hinv : CatalogInv s strands now c) (hd : d ∈ c.documents)
    (hid : d.id ∈ x.lockedDocumentIds) : d.state ≠ .ready := by
  intro hready
  rcases (hclaimed.locks hinv hd hid).2 with he | hs
  · have hbusy := h.busy hlive hd he
    rw [hready] at hbusy
    cases ht : x.operationType <;> rw [ht] at hbusy <;> cases hbusy
  · rw [hready] at hs
    cases hs

/-- The own document of a claim after a transaction. -/
theorem Claimed.own_change (h : Claimed x c) (hinv : CatalogInv s strands now c)
    (hc : CatalogChange s strands rejects now c c') :
    ∃ d, d ∈ c.documents ∧ d.id = x.documentId ∧
      ∀ d', d' ∈ c'.documents → d'.id = x.documentId → Change s rejects now d d' := by
  obtain ⟨d,o,hf⟩ := h
  obtain ⟨d₁,hd₁,hchange⟩ := hc.forward hinv hf.document
  refine ⟨d,hf.document,hf.documentId,fun d' hd' hid => ?_⟩
  cases Table.eq_of_key_eq hd₁ hd' (hchange.id.trans (hf.documentId.trans hid.symm))
  exact hchange

/-- A transaction that leaves the own document in its state keeps what a thread knows. -/
theorem Means.transaction (h : Means s enc c q x live f) (hinv : CatalogInv s strands now c)
    (hclaimed : Claimed x c) (hc : CatalogChange s strands rejects now c c')
    (hbusy : live → ∀ d, d ∈ c.documents → d.id = x.documentId →
      d.state = busyState x.operationType)
    (hstate : live → ∀ d d', d ∈ c.documents → d' ∈ c'.documents → d.id = x.documentId →
      d'.id = d.id → d'.state = d.state) : Means s enc c' q x live f := by
  obtain ⟨d,hd,hid,hchange⟩ := hclaimed.own_change hinv hc
  have unproved : live → x.operationType = .publish → ¬ Proved d .active := by
    intro hlive htype
    refine (hinv.documents d hd).not_proved ?_ .active
    rw [hbusy hlive d hd hid, htype]
    rfl
  cases f with
  | live =>
    intro hlive d' hd' hid'
    exact (hstate hlive d d' hd hd' hid (hid'.trans hid.symm)).trans (hbusy hlive d hd hid)
  | tombstoned id =>
    obtain ⟨t,ht,htid,hterminal⟩ := h
    obtain ⟨t',ht',hct⟩ := hc.forward hinv ht
    refine ⟨t',ht',hct.id.trans htid,?_⟩
    rw [hct.terminal_kept (hinv.documents t ht) hterminal]
    exact hterminal
  | publishes r =>
    intro hlive htype d' hd' hid'
    obtain ⟨p,hp,hr⟩ := h hlive htype d hd hid
    obtain ⟨p',hp',he⟩ := (hchange d' hd' hid').publication_kept (hinv.documents d hd) hp
    exact ⟨p',hp',he.trans hr⟩
  | reconstructed r ps =>
    intro hlive htype d' hd' hid'
    have hc' := hchange d' hd' hid'
    exact reconstruct_frame (h hlive htype d hd hid) hc'.id hc'.intake
      (hc'.sealed_stays (hinv.documents d hd) (unproved hlive htype))
  | _ => exact h

theorem Grounded.transaction (h : Grounded s enc c q x K) (hinv : CatalogInv s strands now c)
    (hclaimed : Claimed x c) (hc : CatalogChange s strands rejects now c c')
    (hstate : .live ∈ K → ∀ d d', d ∈ c.documents → d' ∈ c'.documents → d.id = x.documentId →
      d'.id = d.id → d'.state = d.state) : Grounded s enc c' q x K :=
  fun f hf => (h f hf).transaction hinv hclaimed hc (fun hl _ hd hid => h.busy hl hd hid) hstate

/-- Calls on other documents keep what a thread knows. -/
theorem Grounded.frame (h : Grounded s enc c q x K) (hself : x.documentId ∈ x.lockedDocumentIds)
    (hsame : ∀ id ∈ x.lockedDocumentIds, q.SamePoints q' id) : Grounded s enc c q' x K := by
  intro f hf
  have hm := h f hf
  cases f with
  | zero a id => exact fun hid => (hsame id hid).clear (hm hid)
  | staged ps => exact fun a ha => (hsame _ hself).exactly (hm a ha)
  | opened ps => exact fun a ha => (hsame _ hself).exactly (hm a ha)
  | _ => exact hm

end Lifecycle
end PdfBridge
