import PdfBridge.Lifecycle.Points
import PdfBridge.Lifecycle.Scenario

/-! The Qdrant calls of a thread and the points that they leave, and with them what is visible of a
document in every world that undisturbed slots reach. -/
namespace PdfBridge
namespace Lifecycle
open Worker Api Intake Preparation

variable {s : Settings} {enc : Encoding} {strands : Prop} {rejects : FailureCode → Prop}
  {now : Time} {x : ClaimedOperation} {K : Knowledge} {c c' : Catalog} {q q' : Qdrant}
  {d d' t : Document} {a : Text 255} {ps : List ChunkPoint} {id : Uuid}

/-! ### Calls on the points of one document -/

theorem activeName_ne_screening {key : CollectionKey} (h : activeName? s key = some a) :
    a ≠ s.screening := by
  obtain ⟨definition,hd,rfl⟩ := Option.map_eq_some_iff.1 h
  exact s.name_ne_screening (Settings.enabledCollection?_mem hd)

/-- The points of one document after a call. -/
structure Rewritten (s : Settings) (enc : Encoding) (c : Catalog) (q : Qdrant) (d : Document) :
    Prop where
  placed : ∀ a p, q.Stores a p → p.chunk.documentId = d.id → Placed s c a p
  active : ∀ a, activeName? s d.intake.collectionKey = some a → ActiveSet enc q a d
  ready : d.state ≠ .ready
  zeros : ∀ target, Proved d target →
    ∀ a, targetName? s d.intake.collectionKey target = some a → q.Clear a d.id

/-- A call that rewrites the points of one document and leaves those of the others alone. -/
theorem PointsInv.write (h : PointsInv s enc c q) (hd : d ∈ c.documents)
    (hothers : ∀ other, other ≠ d.id → q.SamePoints q' other) (hw : Rewritten s enc c q' d) :
    PointsInv s enc c q' := by
  have other : ∀ {e : Document}, e ∈ c.documents → e ≠ d → q.SamePoints q' e.id :=
    fun he hne => hothers _ fun hid => hne (Table.eq_of_key_eq he hd hid)
  constructor
  · intro a p hs
    by_cases hid : p.chunk.documentId = d.id
    · exact hw.placed a p hs hid
    · exact h.placed a p ((hothers _ hid a p rfl).1 hs)
  · intro e he a ha
    by_cases hne : e = d
    · subst hne
      exact hw.active a ha
    · rcases h.active e he a ha with hclear | ⟨ps,hps,hset⟩
      · exact Or.inl ((other he hne).clear hclear)
      · exact Or.inr ⟨ps,hps,hset.imp (other he hne).exactly (other he hne).exactly⟩
  · intro e he hready a ha
    by_cases hne : e = d
    · subst hne
      exact absurd hready hw.ready
    · obtain ⟨⟨ps,hps,hset⟩,hclear⟩ := h.ready e he hready a ha
      exact ⟨⟨ps,hps,(other he hne).exactly hset⟩,(other he hne).clear hclear⟩
  · intro e he target hz a ha
    by_cases hne : e = d
    · subst hne
      exact hw.zeros target hz a ha
    · exact (other he hne).clear (h.zeros e he target hz a ha)

/-- A point of the document is one of the batch, with the identity that a chunk of it has. -/
theorem samePoints_batch (h : PointsInv s enc c q) {points : List Point} {other : Uuid}
    (hown : ∀ p ∈ points, p.chunk.documentId = id ∧ p.chunk.chunkId.documentId = id)
    (hne : other ≠ id) : q.SamePoints (q.upsert a points) other := by
  refine Qdrant.samePoints_upsert (fun p hp hid => hne (hid.symm.trans (hown p hp).1)) ?_
  intro p hs hid p' hp' he
  refine hne ?_
  rw [← hid, ← (h.placed a p hs).chunk, he]
  exact (hown p' hp').2

theorem ActiveSet.of_ne {b : Text 255} {points : List Point} (h : ActiveSet enc q a d)
    (hne : a ≠ b) : ActiveSet enc (q.upsert b points) a d := by
  rcases h with hclear | ⟨ps,hps,hset⟩
  · exact Or.inl (hclear.upsert hne)
  · exact Or.inr ⟨ps,hps,hset.imp (·.upsert hne) (·.upsert hne)⟩

/-- What an upsert places. -/
theorem placed_upsert (h : PointsInv s enc c q) (hd : d ∈ c.documents) {points : List Point}
    (hown : ∀ p ∈ points, p.chunk.documentId = d.id ∧ p.chunk.chunkId.documentId = d.id)
    (ha : a = s.screening ∨ activeName? s d.intake.collectionKey = some a) :
    ∀ b p, (q.upsert a points).Stores b p → Placed s c b p := by
  intro b p hs
  rcases Qdrant.stores_of_upsert hs with ⟨rfl,hp⟩ | ⟨hs,-⟩
  · exact ⟨(hown p hp).2.trans (hown p hp).1.symm,d,hd,(hown p hp).1.symm,ha⟩
  · exact h.placed b p hs

/-- A preflight writes screening points of a document that is not published. -/
theorem PointsInv.screen (h : PointsInv s enc c q) (hinv : CatalogInv s strands now c)
    (hd : d ∈ c.documents) (hstate : d.state = .preflighting) {points : List Point}
    (hown : ∀ p ∈ points, p.chunk.documentId = d.id ∧ p.chunk.chunkId.documentId = d.id) :
    PointsInv s enc c (q.upsert s.screening points) := by
  refine h.write hd (fun other hne => samePoints_batch h hown hne) ⟨fun b p hs _ =>
    placed_upsert h hd hown (Or.inl rfl) b p hs,fun a ha =>
    (h.active d hd a ha).of_ne (activeName_ne_screening ha),by rw [hstate]; rintro ⟨⟩,?_⟩
  intro target hz
  exact absurd hz ((hinv.documents d hd).not_proved (by rw [hstate]; rfl) target)

/-- The chunks of a stored set are the chunks of every prescription. -/
theorem ActiveSet.chunks (h : ActiveSet enc q a d) (hps : Prescribed enc d ps)
    (hinv : PublicationsInv d) {p : Point} (hs : q.Stores a p) (hid : p.chunk.documentId = d.id) :
    p.chunk ∈ ps := by
  rcases h with hclear | ⟨ps',hps',hset⟩
  · exact absurd hid (hclear p hs)
  · obtain rfl := hps.unique hps' hinv
    rcases hset with hset | hset
    · obtain ⟨k,hk,rfl⟩ := List.mem_map.1 ((hset p).1 ⟨hs,hid⟩)
      exact hk
    · obtain ⟨k,hk,rfl⟩ := List.mem_map.1 ((hset p).1 ⟨hs,hid⟩)
      exact hk

/-- Staging writes the prescribed points over what an earlier attempt has left. -/
theorem ActiveSet.stage (h : ActiveSet enc q a d) (hps : Prescribed enc d ps)
    (hinv : PublicationsInv d) (hown : ∀ p ∈ ps, p.documentId = d.id)
    (hnodup : (ps.map (·.chunkId)).Nodup) :
    (q.upsert a (ps.map stagedPoint)).Exactly a d.id (ps.map stagedPoint) := by
  refine Qdrant.exactly_upsert ?_ ?_ fun p hs hid => ?_
  · rw [List.map_map]
    exact hnodup
  · intro p hp
    obtain ⟨k,hk,rfl⟩ := List.mem_map.1 hp
    exact hown k hk
  · exact ⟨stagedPoint p.chunk,List.mem_map_of_mem (h.chunks hps hinv hs hid),rfl⟩

/-- A publication stages the prescribed points of a document that is not published. -/
theorem PointsInv.stage (h : PointsInv s enc c q) (hinv : CatalogInv s strands now c)
    (hd : d ∈ c.documents) (hstate : d.state = .publishing)
    (ha : activeName? s d.intake.collectionKey = some a) (hps : Prescribed enc d ps)
    (hown : ∀ p ∈ ps, p.documentId = d.id ∧ p.chunkId.documentId = d.id)
    (hnodup : (ps.map (·.chunkId)).Nodup) :
    PointsInv s enc c (q.upsert a (ps.map stagedPoint)) := by
  have hown' : ∀ p ∈ ps.map stagedPoint,
      p.chunk.documentId = d.id ∧ p.chunk.chunkId.documentId = d.id := by
    intro p hp
    obtain ⟨k,hk,rfl⟩ := List.mem_map.1 hp
    exact hown k hk
  refine h.write hd (fun other hne => samePoints_batch h hown' hne) ⟨fun b p hs _ =>
    placed_upsert h hd hown' (Or.inr ha) b p hs,fun b hb => ?_,by rw [hstate]; rintro ⟨⟩,?_⟩
  · obtain rfl := Option.some.inj (ha.symm.trans hb)
    exact Or.inr ⟨ps,hps,Or.inl ((h.active d hd a ha).stage hps (hinv.documents d hd).publications
      (fun p hp => (hown p hp).1) hnodup)⟩
  · intro target hz
    exact absurd hz ((hinv.documents d hd).not_proved (by rw [hstate]; rfl) target)

/-- The staged points of a revision pass the gate. -/
theorem staged_of_reconstruct {r : Uuid} {sealed_ : Bool}
    (h : reconstructChunkPoints enc r sealed_ d = .ok ps) :
    ∀ p ∈ ps, Qdrant.staged d.id r (stagedPoint p) = true := by
  obtain ⟨r',-,-,-,-,hown⟩ := reconstruct_own h
  intro p hp
  obtain ⟨hdocument,-,hrevision,-⟩ := hown p hp
  simp [Qdrant.staged, stagedPoint, hdocument, hrevision]

theorem Placed.of_chunk {p p' : Point} (h : Placed s c a p) (he : p'.chunk = p.chunk) :
    Placed s c a p' := ⟨he ▸ h.chunk,he ▸ h.document⟩

/-- Opening the staged points of a revision makes exactly them visible. -/
theorem opened_of_staged {r : Uuid} {qs : List ChunkPoint}
    (hr : reconstructChunkPoints enc r true d = .ok ps)
    (hstaged : q.Exactly a d.id (ps.map stagedPoint))
    (hqs : q.Exactly a d.id (qs.map stagedPoint)) :
    (q.activate a d.id r).Exactly a d.id (qs.map activePoint) := by
  have hset := hqs.open (r := r) fun p hp => by
    obtain ⟨k,hk,rfl⟩ := List.mem_map.1 ((hstaged p).1 ((hqs p).2 hp))
    exact staged_of_reconstruct hr k hk
  rw [List.map_map] at hset
  exact hset

theorem PointsInv.open (h : PointsInv s enc c q) (hinv : CatalogInv s strands now c)
    (hd : d ∈ c.documents) (hstate : d.state = .publishing)
    (ha : activeName? s d.intake.collectionKey = some a) {r : Uuid} (hps : Prescribed enc d ps)
    (hr : reconstructChunkPoints enc r true d = .ok ps)
    (hstaged : q.Exactly a d.id (ps.map stagedPoint)) :
    PointsInv s enc c (q.activate a d.id r) := by
  refine h.write hd (fun other hne => Qdrant.samePoints_activate hne.symm)
    ⟨fun b p hs _ => ?_,fun b hb => ?_,by rw [hstate]; rintro ⟨⟩,?_⟩
  · obtain ⟨p₀,hs₀,he⟩ := Qdrant.stores_activate.1 hs
    exact (h.placed b p₀ hs₀).of_chunk (Qdrant.openGate_chunk he)
  · obtain rfl := Option.some.inj (ha.symm.trans hb)
    exact Or.inr ⟨ps,hps,Or.inr (opened_of_staged hr hstaged hstaged)⟩
  · intro target hz
    exact absurd hz ((hinv.documents d hd).not_proved (by rw [hstate]; rfl) target)

/-- A deletion of points proves nothing false. -/
theorem PointsInv.delete (h : PointsInv s enc c q) (hd : d ∈ c.documents)
    (hready : d.state ≠ .ready) : PointsInv s enc c (q.delete a d.id) := by
  refine h.write hd (fun other hne => Qdrant.samePoints_delete hne.symm)
    ⟨fun b p hs _ => h.placed b p (Qdrant.stores_delete.1 hs).1,fun b hb => ?_,hready,
      fun target hz b hb => (h.zeros d hd target hz b hb).delete⟩
  by_cases he : b = a
  · subst he
    exact Or.inl Qdrant.clear_delete
  · rcases h.active d hd b hb with hclear | ⟨ps,hps,hset⟩
    · exact Or.inl hclear.delete
    · exact Or.inr ⟨ps,hps,hset.imp (·.delete he) (·.delete he)⟩

/-! ### Calls of a thread -/

theorem Claimed.document (h : Claimed x c) : ∃ d, d ∈ c.documents ∧ d.id = x.documentId ∧
    d.intake.collectionKey = x.collectionKey := by
  obtain ⟨d,o,hf⟩ := h
  exact ⟨d,hf.document,hf.documentId,hf.collection⟩

/-- A document that a claim locks is in the catalog. -/
theorem Claimed.locked_document (h : Claimed x c) (hinv : CatalogInv s strands now c)
    (hid : id ∈ x.lockedDocumentIds) : ∃ d, d ∈ c.documents ∧ d.id = id := by
  obtain ⟨i,o,hf⟩ := h
  rcases (hf.mem_locked hinv).1 hid with rfl | htarget
  · exact ⟨i,hf.document,hf.documentId⟩
  · obtain ⟨t,ht,htid,-⟩ := hinv.link.replaced i hf.document id ⟨o,hf.operation,htarget⟩
    exact ⟨t,ht,htid⟩

theorem cleans_locked (hself : x.documentId ∈ x.lockedDocumentIds) (h : cleans x id) :
    id ∈ x.lockedDocumentIds := by
  rcases h with ⟨-,rfl⟩ | ⟨-,-,hid⟩
  · exact hself
  · exact hid

/-- A permitted call keeps the invariant and leaves the points of every document alone that the
thread has not locked. -/
theorem PointsInv.call (h : PointsInv s enc c q) (hinv : CatalogInv s strands now c)
    (hclaimed : Claimed x c) (g : Grounded s enc c q x K) {r : PointRequest}
    (hp : permitsPoints s x K r) : PointsInv s enc c (r.effect q) ∧
      ∀ id, id ∉ x.lockedDocumentIds → q.SamePoints (r.effect q) id := by
  have hself := hclaimed.self_mem hinv
  obtain ⟨d,hd,hid,hkey⟩ := hclaimed.document
  have other : ∀ {id}, id ∉ x.lockedDocumentIds → id ≠ d.id := by
    rintro id hn rfl
    exact hn (hid ▸ hself)
  cases r with
  | count | retrieve | query => exact ⟨h,fun id _ => Qdrant.SamePoints.refl q id⟩
  | upsert a points =>
    obtain ⟨hlive,⟨htype,rfl,ps,rfl,hown⟩ | ⟨htype,ha,-,r,ps,hpublishes,hps,rfl,hown⟩⟩ := hp
    · have hstate : d.state = .preflighting := by
        rw [g.busy hlive hd hid, htype]
        rfl
      have hown' : ∀ p ∈ ps.map screeningPoint,
          p.chunk.documentId = d.id ∧ p.chunk.chunkId.documentId = d.id := by
        intro p hp
        obtain ⟨k,hk,rfl⟩ := List.mem_map.1 hp
        exact ⟨(hown k hk).document.trans hid.symm,(hown k hk).chunk.trans hid.symm⟩
      exact ⟨h.screen hinv hd hstate hown',fun id hn => samePoints_batch h hown' (other hn)⟩
    · have hstate : d.state = .publishing := by
        rw [g.busy hlive hd hid, htype]
        rfl
      have hown' : ∀ p ∈ ps, p.documentId = d.id ∧ p.chunkId.documentId = d.id := fun k hk =>
        ⟨(hown k hk).document.trans hid.symm,(hown k hk).chunk.trans hid.symm⟩
      refine ⟨h.stage hinv hd hstate (hkey ▸ ha) (g.prescribed hlive htype hpublishes hps hd hid)
        hown' (reconstruct_nodup (g _ hps hlive htype d hd hid)),fun id hn =>
        samePoints_batch h (fun p hp => ?_) (other hn)⟩
      obtain ⟨k,hk,rfl⟩ := List.mem_map.1 hp
      exact hown' k hk
  | setPayload a id r =>
    obtain ⟨hlive,htype,ha,rfl,-,ps,hpublishes,hps,hstaged⟩ := hp
    have hstate : d.state = .publishing := by
      rw [g.busy hlive hd hid, htype]
      rfl
    have hstaged' := g _ hstaged a ha
    rw [← hid] at hstaged' ⊢
    refine ⟨h.open hinv hd hstate (hkey ▸ ha) (g.prescribed hlive htype hpublishes hps hd hid)
      (g _ hps hlive htype d hd hid) hstaged',fun id hn =>
      Qdrant.samePoints_activate (other hn).symm⟩
  | delete a id =>
    obtain ⟨hlive,hown⟩ := hp
    have hlocked : id ∈ x.lockedDocumentIds := by
      rcases hown with ⟨-,rfl⟩ | hclean
      · exact hself
      · exact cleans_locked hself hclean
    obtain ⟨t,ht,rfl⟩ := hclaimed.locked_document hinv hlocked
    refine ⟨h.delete ht (g.not_ready hlive hclaimed hinv ht hlocked),fun id hn =>
      Qdrant.samePoints_delete ?_⟩
    rintro rfl
    exact hn hlocked

/-- A call keeps what the thread does not lose. -/
theorem Means.call {f : Fact} {live : Prop} (hscreening : ∀ a, activeName? s x.collectionKey =
    some a → a ≠ s.screening) (h : Means s enc c q x live f) {r : PointRequest} {b : Bool}
    (hf : ¬ lost s x (.points r) b f) : Means s enc c (r.effect q) x live f := by
  cases r with
  | count | retrieve | query => exact h
  | upsert a points =>
    cases f with
    | zero | staged | opened => exact absurd trivial hf
    | _ => exact h
  | setPayload a id r =>
    cases f with
    | staged | opened => exact absurd trivial hf
    | zero b id => exact fun hid => (h hid).activate
    | _ => exact h
  | delete a id =>
    cases f with
    | zero b id => exact fun hid => (h hid).delete
    | staged ps | opened ps =>
      have ha : a = s.screening := by
        by_contra hne
        exact hf ⟨hne,trivial⟩
      intro b hb
      exact (h b hb).delete (ha ▸ hscreening b hb)
    | _ => exact h

theorem stagedPoint_injective : Function.Injective stagedPoint :=
  fun _ _ h => congrArg Point.chunk h

/-- What an answered call establishes. -/
theorem Grounded.gained_call (g : Grounded s enc c q x K) (h : PointsInv s enc c q)
    (hinv : CatalogInv s strands now c) (hclaimed : Claimed x c) {r : PointRequest}
    (hp : permitsPoints s x K r) {i : Input} {b : r.Response} (hb : r.answer q i = some b)
    {f : Fact} (hf : gained s x K (.points r) (.ok b) f) (live : Prop) :
    Means s enc c (r.effect q) x live f := by
  obtain ⟨d,hd,hid,hkey⟩ := hclaimed.document
  cases r with
  | retrieve | query | delete => exact hf.elim
  | count a id =>
    obtain ⟨hzero,rfl⟩ := hf
    cases hb
    exact fun _ => Qdrant.clear_of_count hzero
  | upsert a points =>
    obtain ⟨ha,qs,rfl,rfl⟩ := hf
    obtain ⟨hlive,⟨-,hc,-⟩ | ⟨htype,-,-,r,ps,hpublishes,hps,he,hown⟩⟩ := hp
    · exact absurd hc (activeName_ne_screening ha)
    · obtain rfl := List.map_injective_iff.2 stagedPoint_injective he
      intro b hb
      obtain rfl := Option.some.inj (ha.symm.trans hb)
      rw [← hid]
      exact (h.active d hd a (hkey ▸ ha)).stage (g.prescribed hlive htype hpublishes hps hd hid)
        (hinv.documents d hd).publications (fun p hp => (hown p hp).document.trans hid.symm)
        (reconstruct_nodup (g _ hps hlive htype d hd hid))
  | setPayload a id r =>
    obtain ⟨qs,hqs,rfl⟩ := hf
    obtain ⟨hlive,htype,ha,rfl,-,ps,-,hps,hstaged⟩ := hp
    intro b hb
    obtain rfl := Option.some.inj (ha.symm.trans hb)
    have hstaged' := g _ hstaged a ha
    have hqs' := g _ hqs a ha
    rw [← hid] at hstaged' hqs' ⊢
    exact opened_of_staged (g _ hps hlive htype d hd hid) hstaged' hqs'

theorem live_of_next {r : Request} {b : Except ServiceError r.Response}
    (h : .live ∈ next s x r K b) : .live ∈ K := by
  rcases h with hgained | ⟨hold,-⟩
  · cases r with
    | catalog r =>
      cases r with
      | reconstructChunkPoints id sealed_ =>
        cases sealed_ <;> cases b <;> simp [gained] at hgained
      | _ => cases b <;> simp [gained] at hgained
    | points r => cases r <;> cases b <;> simp [gained] at hgained
    | files r => cases r <;> cases b <;> simp [gained] at hgained
    | _ => cases b <;> exact hgained.elim
  · exact hold

/-- A thread after one of its Qdrant calls. -/
theorem Grounded.call (g : Grounded s enc c q x K) (h : PointsInv s enc c q)
    (hinv : CatalogInv s strands now c) (hclaimed : Claimed x c) {r : PointRequest}
    (hp : permitsPoints s x K r) {i : Input} {b : Except ServiceError r.Response}
    (hcall : (∃ y, r.answer q i = some y ∧ b = .ok y ∧ q' = r.effect q) ∨
      (∃ e, b = .error e ∧ (q' = q ∨ q' = r.effect q))) :
    Grounded s enc c q' x (next s x (.points r) K b) := by
  have hscreening : ∀ a, activeName? s x.collectionKey = some a → a ≠ s.screening :=
    fun a ha => activeName_ne_screening ha
  intro f hf
  rcases hf with hgained | ⟨hf,hlost⟩
  · rcases hcall with ⟨y,hy,rfl,rfl⟩ | ⟨e,rfl,-⟩
    · exact g.gained_call h hinv hclaimed hp hy hgained _
    · cases r <;> exact hgained.elim
  · have hkept := (g f hf).mono (live_of_next (s := s) (x := x) (r := .points r) (b := b))
    rcases hcall with ⟨y,-,-,rfl⟩ | ⟨e,-,rfl | rfl⟩
    · exact hkept.call hscreening hlost
    · exact hkept
    · exact hkept.call hscreening hlost

/-! ### Transactions of a thread -/

/-- A transaction moves only the documents that it may move. -/
theorem Observes.state {al : Allowance} (ho : Observes al c c') (hd : d ∈ c.documents)
    (hd' : d' ∈ c'.documents) (hid : d'.id = d.id) (hm : ¬ al.moves d.id) : d'.state = d.state := by
  rcases ho.documents d' hd' with ⟨hnew,-⟩ | ⟨e,he,hw⟩
  · exact absurd hid.symm (hnew d hd)
  · cases Table.eq_of_key_eq he hd (hw.id.symm.trans hid)
    exact hw.state.resolve_right hm

/-- A document that a transaction does not touch. -/
theorem Observes.untouched {al : Allowance} (ho : Observes al c c') (hd : d ∈ c.documents)
    (hd' : d' ∈ c'.documents) (hid : d'.id = d.id) (ht : ¬ al.touches d) : d'.state = d.state := by
  cases Table.eq_of_key_eq hd' (ho.frame d hd ht) hid
  rfl

theorem ProgressInv.terminal {p : DeletionProgress} (h : ProgressInv s d p)
    (ht : p.tombstonedAt.isSome = true) : terminalState d.state = true := by
  rw [h.tombstoned.1 ht]
  cases p.terminalDisposition <;> rfl

theorem publicationForRevision_ok {r : Uuid} {p : PublicationRecord}
    (h : d.publicationForRevision r = some p) : p ∈ d.publications ∧ p.preparedRevisionId = r := by
  have hrevision := List.find?_some h
  exact ⟨List.mem_of_find?_eq_some h,of_decide_eq_true hrevision⟩

/-- What a committed transaction establishes. -/
theorem gained_request (hinv : CatalogInv s strands now c) (hclaimed : Claimed x c)
    {r : CatalogRequest} {y : r.Response} (h : r.run s enc now worker x.ref c = .ok (y,c'))
    {f : Fact} (hf : gained s x K (.catalog r) (.ok y) f) (live : Prop) :
    Means s enc c' q x live f := by
  cases r with
  | publicationBinding id =>
    obtain rfl := hf
    obtain ⟨rfl,hread⟩ := reading_ok h
    simp only [publicationBinding, bind_eq_ok, orRaise_eq_ok, require_eq_ok, exists_const,
      Prod.exists] at hread
    obtain ⟨d,o,howned,r,-,p,hp,-⟩ := hread
    have ho := ownedOperation_ok howned
    intro _ _ d' hd' hid
    cases Table.eq_of_key_eq hd' ho.document (hid.trans ho.documentId.symm)
    exact ⟨p,publicationForRevision_ok hp⟩
  | reconstructChunkPoints id sealed_ =>
    cases sealed_ with
    | false => exact hf.elim
    | true =>
      obtain rfl := hf
      obtain ⟨rfl,hread⟩ := reading_ok h
      simp only [bind_eq_ok, orRaise_eq_ok] at hread
      obtain ⟨d,hd,hps⟩ := hread
      intro _ _ d' hd' hid
      cases Table.eq_of_key_eq hd' (Catalog.mem_of_document? hd)
        (hid.trans (Catalog.id_of_document? hd).symm)
      exact hps
  | deletionFlags id =>
    obtain ⟨hflag,rfl⟩ := hf
    obtain ⟨rfl,hread⟩ := reading_ok h
    simp only [deletionFlags, bind_eq_ok, orRaise_eq_ok, pure_eq_ok] at hread
    obtain ⟨d,hd,p,hp,rfl⟩ := hread
    have hmem := Catalog.mem_of_document? hd
    exact ⟨d,hmem,Catalog.id_of_document? hd,
      ((hinv.documents d hmem).deletion.of_some hp).terminal hflag⟩
  | purgeBinding id =>
    obtain rfl := hf
    trivial
  | commitDeletion id =>
    obtain ⟨-,rfl⟩ := hf
    simp only [CatalogRequest.run, commitDeletion, bind_eq_ok, orRaise_eq_ok, require_eq_ok,
      exists_const, Prod.exists, pure_eq_ok, Prod.mk.injEq] at h
    obtain ⟨d,o,-,t,ht,p,hp,-,t',hcommit,-,rfl⟩ := h
    have hmem := Catalog.mem_of_document? ht
    have hid := Catalog.id_of_document? ht
    have hterminal : t'.id = t.id ∧ terminalState t'.state = true := by
      have hprogress := (hinv.documents t hmem).deletion.of_some hp
      rcases commitTombstone_ok hcommit with ⟨rfl,hsome⟩ | ⟨-,p',y,-,-,-,-,rfl⟩
      · refine ⟨rfl,hprogress.terminal ?_⟩
        by_contra hnone
        rw [hprogress.pending (by simpa using hnone)] at hsome
        cases hsome
      · refine ⟨rfl,?_⟩
        show terminalState p'.terminalDisposition.toState = true
        cases p'.terminalDisposition <;> rfl
    refine ⟨_,mem_put.2 (Or.inl rfl),?_⟩
    split
    · exact ⟨hterminal.1.trans hid,hterminal.2⟩
    · exact ⟨hterminal.1.trans hid,hterminal.2⟩
  | _ => exact hf.elim

/-- A thread after one of its transactions. -/
theorem Grounded.request (g : Grounded s enc c q x K) (hinv : CatalogInv s strands now c)
    (hclaimed : Claimed x c) {r : CatalogRequest} (hp : permitsCatalog s x K r) {y : r.Response}
    (h : r.run s enc now worker x.ref c = .ok (y,c'))
    (hc : CatalogChange s strands rejects now c c') :
    Grounded s enc c' q x (next s x (.catalog r) K (.ok y)) := by
  have ho := request_observes hinv hclaimed hp h
  intro f hf
  rcases hf with hgained | ⟨hf,hlost⟩
  · exact gained_request hinv hclaimed h hgained _
  · have hkept := (g f hf).mono (live_of_next (s := s) (x := x) (r := .catalog r) (b := .ok y))
    by_cases hcloses : closes x r true
    · have houtlives : f.outlives := by
        by_contra hn
        exact hlost (Or.inl ⟨hcloses,hn⟩)
      cases f with
      | held | unrecorded => trivial
      | _ => exact houtlives.elim
    · refine hkept.transaction hinv hclaimed hc (fun hl _ hd hid => g.busy (live_of_next hl) hd hid)
        fun hl d d' hd hd' hid hid' => ho.state hd hd' hid' ?_
      rintro (hcl | rfl)
      · exact hcloses hcl
      · rcases hp.2 with ⟨htype,-⟩ | ⟨-,hne,-⟩
        · exact hcloses ⟨rfl,htype⟩
        · exact hne hid

/-- What a thread has established when it publishes. -/
theorem Grounded.publishes (g : Grounded s enc c q x K) (hinv : CatalogInv s strands now c)
    (hclaimed : Claimed x c) {r : Uuid} {n : ℕ}
    (hp : permitsCatalog s x K (.finishPublication r n)) {u : Unit}
    (h : finishPublication now worker x.ref r n c = .ok (u,c')) (hd : d ∈ c.documents)
    (hid : d.id = x.documentId) : deletionState d.state = false ∧
      ∀ a, activeName? s d.intake.collectionKey = some a → Published s enc q a d := by
  obtain ⟨hlive,htype,hzero,ps,hps,hopened⟩ := hp
  obtain ⟨d₁,o,r₁,p,ho,-,hp,-,hstate,-⟩ := finishPublication_ok h
  cases Table.eq_of_key_eq hd ho.document (hid.trans ho.documentId.symm)
  obtain ⟨e,he,heid,hkey⟩ := hclaimed.document
  cases Table.eq_of_key_eq he hd (heid.trans hid.symm)
  obtain ⟨hpublication,hrevision⟩ := publicationForRevision_ok hp
  refine ⟨by rw [hstate]; rfl,fun a ha => ⟨⟨ps,⟨p,hpublication,?_⟩,?_⟩,?_⟩⟩
  · rw [hrevision]
    exact g _ hps hlive htype d hd hid
  · rw [hid]
    exact g _ hopened a (hkey ▸ ha)
  · rw [hid]
    exact g _ hzero (hclaimed.self_mem hinv)

/-- What a thread has established when it proves a zero. -/
theorem Grounded.proves (g : Grounded s enc c q x K) (hinv : CatalogInv s strands now c)
    (hclaimed : Claimed x c) {target : IndexTarget}
    (hp : permitsCatalog s x K (.recordZeroVerification id target)) (hd : d ∈ c.documents)
    (hid : d.id = id) (ha : targetName? s d.intake.collectionKey target = some a) :
    q.Clear a d.id := by
  obtain ⟨⟨-,hclean⟩,b,hb,hzero⟩ := hp
  have hlocked := cleans_locked (hclaimed.self_mem hinv) hclean
  rw [hid]
  rw [(hclaimed.locks hinv hd (hid ▸ hlocked)).1, hb] at ha
  cases ha
  exact g _ hzero hlocked

/-- A transaction of a thread keeps the invariant. -/
theorem PointsInv.request (hpoints : PointsInv s enc c q) (g : Grounded s enc c q x K)
    (hinv : CatalogInv s strands now c) (hclaimed : Claimed x c) {r : CatalogRequest}
    (hp : permitsCatalog s x K r) {y : r.Response}
    (h : r.run s enc now worker x.ref c = .ok (y,c'))
    (hc : CatalogChange s strands rejects now c c') : PointsInv s enc c' q := by
  refine hpoints.transaction hinv hc (request_observes hinv hclaimed hp h) ?_ ?_
  · rintro d hd ⟨r,n,rfl,hid⟩
    exact g.publishes hinv hclaimed hp h hd hid
  · rintro d hd target rfl a ha
    exact g.proves hinv hclaimed hp hd rfl ha

/-! ### Worlds -/

variable {w w' : World} {ev : Event} {know : Slot → Knowledge} {slot slot' : Slot} {th th' : Thread}

/-- The points are as the catalog says, and the threads know what holds. -/
structure Sound (s : Settings) (enc : Encoding) (w : World) (know : Slot → Knowledge) : Prop where
  points : PointsInv s enc w.shared.catalog w.shared.qdrant
  grounded : ∀ slot t, Executes w slot t →
    Grounded s enc w.shared.catalog w.shared.qdrant t.claimed (know slot)

/-- A transaction that publishes nothing and leaves the documents alone that are worked on. -/
structure Harmless (al : Allowance) : Prop where
  publishes : ∀ id, ¬ al.publishes id
  proves : ∀ id target, ¬ al.proves id target
  busy : ∀ d, busy d.state = true → ¬ al.touches d ∨ ¬ al.moves d.id

theorem Sound.transaction (h : Sound s enc w know) (hw : WorldInv s True w know) {al : Allowance}
    (hal : Harmless al)
    (hc : CatalogChange s True (fun _ => True) w.shared.now w.shared.catalog c')
    (ho : Observes al w.shared.catalog c') : PointsInv s enc c' w.shared.qdrant ∧
      ∀ slot t, Executes w slot t → Grounded s enc c' w.shared.qdrant t.claimed (know slot) := by
  refine ⟨h.points.transaction hw.catalog hc ho (fun d _ hp => absurd hp (hal.publishes d.id))
    (fun d _ target hz => absurd hz (hal.proves d.id target)),fun slot t ht => ?_⟩
  have g := h.grounded slot t ht
  refine g.transaction hw.catalog (hw.threads slot t ht.1).claimed hc
    fun hlive d d' hd hd' hid hid' => ?_
  have hbusy : busy d.state = true := by
    rw [g.busy hlive hd hid]
    exact busy_busyState _
  rcases hal.busy d hbusy with ht | hm
  · exact ho.untouched hd hd' hid' ht
  · exact ho.state hd hd' hid' hm

theorem harmless_mutation : Harmless mutationAllowance where
  publishes := fun _ h => h
  proves := fun _ _ h => h
  busy := fun d hbusy => Or.inl fun ht => by
    change busy d.state = false at ht
    rw [hbusy] at ht
    cases ht

/-- A transaction that changes no state. -/
def leaseAllowance : Allowance where
  publishes := fun _ => False
  proves := fun _ _ => False
  moves := fun _ => False
  touches := fun _ => True

theorem harmless_lease : Harmless leaseAllowance where
  publishes := fun _ h => h
  proves := fun _ _ h => h
  busy := fun _ _ => Or.inr fun h => h

theorem Sound.same (h : Sound s enc w know) (hcatalog : w'.shared.catalog = w.shared.catalog)
    (hqdrant : w'.shared.qdrant = w.shared.qdrant) (hslots : w'.slots = w.slots) :
    Sound s enc w' know := by
  constructor
  · rw [hcatalog, hqdrant]
    exact h.points
  · intro slot t ht
    rw [hcatalog, hqdrant]
    refine h.grounded slot t ⟨?_,ht.2⟩
    rw [← hslots]
    exact ht.1

/-- Only Qdrant calls and transactions change points or rows. -/
theorem exec_elsewhere {ref : OperationRef} {i : Input} {σ σ' : Shared} {r : Request}
    {y : Except ServiceError r.Response} (h : exec s enc ref i σ r = some (y,σ'))
    (hcatalog : ∀ q, r ≠ .catalog q) (hpoints : ∀ q, r ≠ .points q) :
    σ'.catalog = σ.catalog ∧ σ'.qdrant = σ.qdrant := by
  cases r with
  | catalog q => exact absurd rfl (hcatalog q)
  | points q => exact absurd rfl (hpoints q)
  | files q =>
    rcases exec_files h with ⟨b,-,-,rfl⟩ | ⟨e,-,rfl | rfl⟩ <;> exact ⟨rfl,rfl⟩
  | provider q =>
    simp only [exec, Option.map_eq_some_iff] at h
    obtain ⟨b,-,hb⟩ := h
    cases hb
    exact ⟨rfl,rfl⟩
  | release claimed | raise e =>
    cases h
    exact ⟨rfl,rfl⟩

/-- A thread after a request that changed neither points nor rows. -/
theorem Grounded.next (g : Grounded s enc c q x K) {r : Request}
    {y : Except ServiceError r.Response}
    (hgained : ∀ f, gained s x K r y f → ∀ live, Means s enc c q x live f) :
    Grounded s enc c q x (next s x r K y) := by
  intro f hf
  rcases hf with hg | ⟨hf,-⟩
  · exact hgained f hg _
  · exact (g f hf).mono live_of_next

/-- What a request leaves for its own thread and for the others. -/
structure Left (s : Settings) (enc : Encoding) (w : World) (know : Slot → Knowledge) (slot : Slot)
    (x : ClaimedOperation) (c' : Catalog) (q' : Qdrant) (K' : Knowledge) : Prop where
  points : PointsInv s enc c' q'
  own : Grounded s enc c' q' x K'
  others : ∀ slot' t, slot' ≠ slot → Executes w slot' t →
    Grounded s enc c' q' t.claimed (know slot')

theorem Sound.request (h : Sound s enc w know) (hw : WorldInv s True w know)
    (hslots : SlotsInv s w know) {i : Input} {r : Request}
    {k : Except ServiceError r.Response → Prog Unit} {y : Except ServiceError r.Response}
    {σ : Shared} (ht : Executes w slot ⟨x,.call r k⟩)
    (hexec : exec s enc x.ref i w.shared r = some (y,σ)) :
    Left s enc w know slot x σ.catalog σ.qdrant (next s x r (know slot) y) := by
  obtain ⟨hclaimed,hself,hp,-⟩ := hw.threads slot _ ht.1
  have g : Grounded s enc w.shared.catalog w.shared.qdrant x (know slot) := h.grounded slot _ ht
  have hothers := hslots.others hw ht
  have unchanged : σ.catalog = w.shared.catalog → σ.qdrant = w.shared.qdrant →
      (∀ f, gained s x (know slot) r y f → ∀ live,
        Means s enc w.shared.catalog w.shared.qdrant x live f) →
      Left s enc w know slot x σ.catalog σ.qdrant (Lifecycle.next s x r (know slot) y) := by
    intro hcatalog hqdrant hgained
    rw [hcatalog, hqdrant]
    exact ⟨h.points,g.next hgained,fun slot' t _ ht' => h.grounded slot' t ht'⟩
  cases r with
  | catalog r =>
    rcases exec_catalog hexec with ⟨b,c',hrun,rfl,rfl⟩ | ⟨e,rfl,rfl,-⟩
    · have hc : CatalogChange s True (fun _ => True) w.shared.now w.shared.catalog c' :=
        request_change hw.catalog hclaimed hp (fun _ _ _ => trivial) hrun
      have ho := request_observes hw.catalog hclaimed hp hrun
      refine ⟨h.points.request g hw.catalog hclaimed hp hrun hc,
        g.request hw.catalog hclaimed hp hrun hc,fun slot' t hne ht' => ?_⟩
      have hthread := hw.threads slot' t ht'.1
      refine (h.grounded slot' t ht').transaction hw.catalog hthread.claimed hc
        fun _ d d' hd hd' hid hid' => ho.untouched hd hd' hid' fun hlocked => ?_
      exact (hothers slot' t hne ht').2 _ hthread.locked (hid ▸ hlocked)
    · refine unchanged rfl rfl fun f hf live => ?_
      cases r with
      | failOperation =>
        obtain rfl := hf
        trivial
      | reconstructChunkPoints id sealed_ => cases sealed_ <;> exact hf.elim
      | _ => exact hf.elim
  | points r =>
    obtain ⟨hpoints,hsame⟩ := h.points.call hw.catalog hclaimed g hp
    have frame : ∀ slot' t, slot' ≠ slot → Executes w slot' t → Grounded s enc w.shared.catalog
        (r.effect w.shared.qdrant) t.claimed (know slot') := by
      intro slot' t hne ht'
      exact (h.grounded slot' t ht').frame (hw.threads slot' t ht'.1).locked
        fun id hid => hsame id ((hothers slot' t hne ht').2 id hid)
    rcases exec_points hexec with ⟨b,hb,rfl,rfl⟩ | ⟨e,rfl,rfl | rfl⟩
    · exact ⟨hpoints,g.call h.points hw.catalog hclaimed hp (Or.inl ⟨b,hb,rfl,rfl⟩),frame⟩
    · exact ⟨h.points,g.call (i := i) h.points hw.catalog hclaimed hp (Or.inr ⟨e,rfl,Or.inl rfl⟩),
        fun slot' t _ ht' => h.grounded slot' t ht'⟩
    · exact ⟨hpoints,g.call (i := i) h.points hw.catalog hclaimed hp (Or.inr ⟨e,rfl,Or.inr rfl⟩),
        frame⟩
  | files r =>
    obtain ⟨hcatalog,hqdrant⟩ := exec_elsewhere hexec (fun _ => by rintro ⟨⟩) fun _ => by rintro ⟨⟩
    refine unchanged hcatalog hqdrant fun f hf live => ?_
    cases r <;> cases y <;> first | exact hf.elim | (obtain rfl := hf; trivial)
  | provider r | release z | raise e =>
    obtain ⟨hcatalog,hqdrant⟩ := exec_elsewhere hexec (fun _ => by rintro ⟨⟩) fun _ => by rintro ⟨⟩
    refine unchanged hcatalog hqdrant fun f hf live => ?_
    cases y <;> exact hf.elim

theorem Sound.work (h : Sound s enc w know) (hw : WorldInv s True w know)
    (hslots : SlotsInv s w know) {i : Input} (hwork : w.work s enc slot i = some w') :
    Sound s enc w' (knows s enc w know (.work slot i)) := by
  obtain ⟨claimed,r,k,y,σ,hslot,hexec,hstep,rfl⟩ := work_ok hwork
  have hknows : knows s enc w know (.work slot i) =
      Function.update know slot (Lifecycle.next s claimed r (know slot) y) := by
    simp only [knows, hslot, hstep]
  rw [hknows]
  by_cases hexecuting : Executing ⟨claimed,.call r k⟩
  · obtain ⟨hpoints,hown,hothers⟩ := h.request hw hslots ⟨hslot,hexecuting⟩ hexec
    refine ⟨hpoints,fun slot' t ht => ?_⟩
    rcases executes_setSlot.1 ht with ⟨rfl,hsome,-⟩ | ⟨hne,ht⟩
    · obtain rfl := resume_eq_some hsome
      rw [Function.update_self]
      exact hown
    · rw [Function.update_of_ne hne]
      exact hothers slot' t hne ht
  · have hprogram : Program.call r k = release claimed := not_not.1 hexecuting
    cases hprogram
    cases hexec
    refine ⟨h.points,fun slot' t ht => ?_⟩
    rcases executes_setSlot.1 ht with ⟨rfl,hsome,-⟩ | ⟨hne,ht⟩
    · cases hsome
    · rw [Function.update_of_ne hne]
      exact h.grounded slot' t ht

/-- A claimed document is in the state of its work class. -/
theorem busy_of_queued (hinv : CatalogInv s strands now c) (hd : d ∈ c.documents)
    {o : WorkOperation} (ho : o ∈ d.operations) (hopen : o.isOpen = true) :
    d.state = busyState o.operationType := by
  have hstanding := ((hinv.documents d hd).state_of_isOpen ho hopen).2
  rcases hstanding.pending hopen with ⟨hs,ht⟩ | ⟨hs,ht⟩ | ⟨hs,-,ht⟩ <;> rw [hs, ht] <;> rfl

theorem Sound.claim (h : Sound s enc w know) (hw : WorldInv s True w know)
    (hclaim : w.claim s enc slot = some w') :
    Sound s enc w' (knows s enc w know (.claim slot)) := by
  obtain ⟨hslot,claimed,p,c,hnext,rfl⟩ := claim_ok hclaim
  obtain ⟨d,o,o',hd,ho,hclaimable,hx,-,-,hc'⟩ := claimNext_ok hw.catalog hnext
  have hchange : CatalogChange s True (fun _ => True) w.shared.now w.shared.catalog c :=
    claimNext_change hw.catalog hnext
  have hobserves : Observes leaseAllowance w.shared.catalog c := by
    rw [hc']
    exact (Observes.refl _ _).put hd (Within.same rfl rfl rfl) trivial
  obtain ⟨hpoints,hgrounded⟩ := h.transaction hw harmless_lease hchange hobserves
  refine ⟨hpoints,fun slot' t ht => ?_⟩
  rcases executes_setSlot.1 ht with ⟨rfl,hsome,-⟩ | ⟨hne,ht⟩
  · obtain rfl := resume_eq_some hsome
    simp only [knows, Function.update_self]
    refine grounded_base fun e he hid => ?_
    have hqueued := (claimable_iff.1 hclaimable).1
    have hbusy := busy_of_queued hw.catalog hd ho (by rw [WorkOperation.isOpen, hqueued]; rfl)
    have hmem : d.putOperation o' ∈ c.documents := by
      rw [hc']
      exact mem_put.2 (Or.inl rfl)
    cases Table.eq_of_key_eq he hmem (hid.trans (by rw [hx]; rfl))
    rw [hx]
    exact hbusy
  · simp only [knows, Function.update_of_ne hne]
    exact hgrounded slot' t ht

theorem Sound.apply (h : Sound s enc w know) (hw : WorldInv s True w know)
    (hslots : SlotsInv s w know) (happly : w.apply s enc ev = some w') :
    Sound s enc w' (knows s enc w know ev) := by
  have mutation : ∀ {m : Intake.MutationOutcome},
      CatalogChange s True (fun _ => True) w.shared.now w.shared.catalog m.catalog →
      Observes mutationAllowance w.shared.catalog m.catalog →
      PointsInv s enc m.catalog w.shared.qdrant ∧ ∀ slot t, Executes w slot t →
        Grounded s enc m.catalog w.shared.qdrant t.claimed (know slot) :=
    fun hc ho => h.transaction hw harmless_mutation hc ho
  cases ev with
  | work slot i => exact h.work hw hslots happly
  | claim slot => exact h.claim hw happly
  | upload y committed =>
    obtain ⟨m,hm,rfl⟩ := upload_ok happly
    cases committed with
    | false => exact h.same rfl rfl rfl
    | true =>
      obtain ⟨hpoints,hgrounded⟩ := mutation (registerAdmission_change hm)
        (registerAdmission_observes hw.catalog hm)
      exact ⟨hpoints,hgrounded⟩
  | decide y =>
    obtain ⟨c,hc,rfl⟩ := commit_ok happly
    obtain ⟨m,hm,rfl⟩ := runMutation_ok hc
    obtain ⟨hpoints,hgrounded⟩ := mutation (recordDecision_change hw.catalog hm)
      (recordDecision_observes hw.catalog hm)
    exact ⟨hpoints,hgrounded⟩
  | retry id actor =>
    obtain ⟨c,hc,rfl⟩ := commit_ok happly
    obtain ⟨m,hm,rfl⟩ := runMutation_ok hc
    obtain ⟨hpoints,hgrounded⟩ := mutation (requestRetry_change hw.catalog hm)
      (requestRetry_observes hm)
    exact ⟨hpoints,hgrounded⟩
  | delete id actor =>
    obtain ⟨c,hc,rfl⟩ := commit_ok happly
    obtain ⟨m,hm,rfl⟩ := runMutation_ok hc
    obtain ⟨hpoints,hgrounded⟩ := mutation
      (deleteDocument_change hw.catalog hm fun _ => trivial)
      (deleteDocument_observes hw.catalog hm)
    exact ⟨hpoints,hgrounded⟩
  | recoverLeases =>
    cases happly
    obtain ⟨hpoints,hgrounded⟩ := h.transaction hw harmless_lease
      (recoverLeases_change w.shared.now w.shared.catalog)
      (Observes.mapOperations _ fun _ => trivial)
    exact ⟨hpoints,hgrounded⟩
  | renewLeases =>
    cases happly
    obtain ⟨hpoints,hgrounded⟩ := h.transaction hw harmless_lease
      (renewLeases_change w.shared.now w.shared.process w.shared.catalog)
      (Observes.mapOperations _ fun _ => trivial)
    exact ⟨hpoints,hgrounded⟩
  | wait n =>
    cases happly
    exact h
  | restart =>
    cases happly
    exact ⟨h.points,fun _ _ ht => nomatch ht.1⟩

theorem sound_initial (know : Slot → Knowledge) : Sound s enc World.initial know where
  points := PointsInv.empty
  grounded := fun _ _ ht => nomatch ht.1

/-- As long as no late release disturbs an execution, the points are as the catalog says. -/
theorem ReachableBy.sound (h : ReachableBy s enc Undisturbed w) :
    ∃ know, WorldInv s True w know ∧ SlotsInv s w know ∧ Sound s enc w know := by
  induction h with
  | initial => exact ⟨fun _ => ∅,initial_inv _,slots_initial _,sound_initial _⟩
  | @step w w' ev _ he hstep ih =>
    obtain ⟨know,hinv,hslots,h⟩ := ih
    refine ⟨_,step_inv hinv (fun _ => trivial) hstep,hslots.step hinv he hstep,?_⟩
    unfold World.step at hstep
    obtain ⟨w₁,happly,rfl⟩ := Option.map_eq_some_iff.1 hstep
    exact (h.apply hinv hslots happly).same rfl rfl rfl

end Lifecycle
end PdfBridge
