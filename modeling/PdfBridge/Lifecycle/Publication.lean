import PdfBridge.Lifecycle.Visibility

/-! What searches find of a document: nothing, or the whole point set that its publication names. -/
namespace PdfBridge
namespace Lifecycle
open Worker Api Intake Preparation

variable {s : Settings} {enc : Encoding} {now : Time} {w : World} {q : Qdrant} {d : Document}
  {a : Text 255} {ps : List ChunkPoint}

/-- A point of the document that is open to searches of published content. -/
def Visible (q : Qdrant) (a : Text 255) (id : Uuid) (p : Point) : Prop :=
  q.Stores a p ∧ p.chunk.documentId = id ∧ p.published = true ∧ p.visibility = .active

/-- The publication record of the document names a sealed revision, and the revision reconstructs
to these points of the collection. -/
def Names (enc : Encoding) (d : Document) (a : Text 255) (ps : List ChunkPoint) : Prop :=
  ∃ p r, d.publications.rows = [p] ∧ p.activeQdrantCollection = a ∧ r ∈ d.preparedRevisions ∧
    r.id = p.preparedRevisionId ∧ r.status = .sealed ∧
    reconstructChunkPoints enc r.id true d = .ok ps

/-- The document is shown whole or not at all, and it is shown whole when it is `READY`. -/
structure ShownWhole (s : Settings) (enc : Encoding) (q : Qdrant) (d : Document)
    (a : Text 255) : Prop where
  visible : (∀ p, ¬ Visible q a d.id p) ∨
    ∃ ps, Names enc d a ps ∧ ∀ p, Visible q a d.id p ↔ p ∈ ps.map activePoint
  ready : d.state = .ready →
    (∃ ps, Names enc d a ps ∧ q.Exactly a d.id (ps.map activePoint)) ∧ q.Clear s.screening d.id

/-- The prescribed points are those of the one revision that the publication names. -/
theorem Prescribed.names (h : Prescribed enc d ps) (hinv : DocumentInv s now d)
    (ha : activeName? s d.intake.collectionKey = some a) : Names enc d a ps := by
  obtain ⟨p,hp,hps⟩ := h
  have hrows := hinv.publications.rows_eq hp
  obtain ⟨r,hr,hid,hsealed,-⟩ := reconstruct_own hps
  obtain ⟨r',target,happroved,hid',hactive,-⟩ := hinv.publications.bound p hp
  cases Table.eq_of_key_eq happroved.1 hr (hid'.trans hid.symm)
  obtain ⟨definition,hdef,hname⟩ := hinv.revision_active hr
  refine ⟨p,r,hrows,?_,hr,hid,hsealed rfl,hid ▸ hps⟩
  rw [activeName?, hdef] at ha
  rw [← hactive, hname]
  exact Option.some.inj ha

/-- Staged points are hidden. -/
theorem not_visible_of_staged {id : Uuid} (h : q.Exactly a id (ps.map stagedPoint)) (p : Point) :
    ¬ Visible q a id p := by
  rintro ⟨hs,hid,hpublished,-⟩
  obtain ⟨k,-,rfl⟩ := List.mem_map.1 ((h p).1 ⟨hs,hid⟩)
  cases hpublished

/-- Opened points are visible, all of them. -/
theorem visible_iff_of_opened {id : Uuid} (h : q.Exactly a id (ps.map activePoint)) (p : Point) :
    Visible q a id p ↔ p ∈ ps.map activePoint := by
  constructor
  · exact fun hv => (h p).1 ⟨hv.1,hv.2.1⟩
  · intro hp
    obtain ⟨hs,hid⟩ := (h p).2 hp
    obtain ⟨k,-,rfl⟩ := List.mem_map.1 hp
    exact ⟨hs,hid,rfl,rfl⟩

theorem PointsInv.shownWhole {strands : Prop} {c : Catalog} (h : PointsInv s enc c q)
    (hinv : CatalogInv s strands now c) (hd : d ∈ c.documents)
    (ha : activeName? s d.intake.collectionKey = some a) : ShownWhole s enc q d a := by
  have dinv := hinv.documents d hd
  constructor
  · rcases h.active d hd a ha with hclear | ⟨ps,hps,hstaged | hopened⟩
    · exact Or.inl fun p hv => hclear p hv.1 hv.2.1
    · exact Or.inl (not_visible_of_staged hstaged)
    · exact Or.inr ⟨ps,hps.names dinv ha,visible_iff_of_opened hopened⟩
  · intro hready
    obtain ⟨⟨ps,hps,hset⟩,hclear⟩ := h.ready d hd hready a ha
    exact ⟨⟨ps,hps.names dinv ha,hset⟩,hclear⟩

/-- As long as no late release disturbs an execution, every document is shown whole or not at all,
and a document that is `READY` is shown whole. -/
theorem documents_shown_whole (h : ReachableBy s enc Undisturbed w)
    (hd : d ∈ w.shared.catalog.documents) :
    ∃ a, activeName? s d.intake.collectionKey = some a ∧ ShownWhole s enc w.shared.qdrant d a := by
  obtain ⟨know,hinv,-,hsound⟩ := h.sound
  obtain ⟨definition,hdef⟩ :=
    Option.isSome_iff_exists.1 (hinv.catalog.documents d hd).intake.collection
  have ha : activeName? s d.intake.collectionKey = some definition.qdrantCollectionName := by
    rw [activeName?, hdef]
    rfl
  exact ⟨_,ha,hsound.points.shownWhole hinv.catalog hd ha⟩

/-! ### Runs -/

/-- A document is `READY`, and a point of it in its collection is as open as a test wants. -/
def readyWith (test : Point → Bool) (w : World) : Bool :=
  w.shared.catalog.documents.rows.any fun d => d.state = .ready &&
    w.shared.qdrant.points.rows.any fun x => x.point.chunk.documentId = d.id && test x.point &&
      activeName? booksSettings d.intake.collectionKey = some x.collection

theorem readyWith_ok {test : Point → Bool} (h : readyWith test w = true) :
    ∃ d a p, d ∈ w.shared.catalog.documents ∧ d.state = .ready ∧
      activeName? booksSettings d.intake.collectionKey = some a ∧ w.shared.qdrant.Stores a p ∧
      p.chunk.documentId = d.id ∧ test p = true := by
  obtain ⟨d,hd,h⟩ := List.any_eq_true.1 h
  simp only [Bool.and_eq_true, List.any_eq_true, decide_eq_true_eq] at h
  obtain ⟨hready,⟨a,p⟩,hs,⟨hid,htest⟩,ha⟩ := h
  exact ⟨d,a,p,hd,hready,ha,hs,hid,htest⟩

/-- One published document is shown. -/
theorem published_document_shown : ∃ (w : World) (d : Document) (a : Text 255) (p : Point),
    d ∈ w.shared.catalog.documents ∧ d.state = .ready ∧ Visible w.shared.qdrant a d.id p ∧
    ShownWhole booksSettings plainEncoding w.shared.qdrant d a := by
  have h : (play booksSettings plainEncoding (fun w => (w.slots .second).isNone)
      (.act (uploadOf "a") :: turnOf smoothly ++ turnOf smoothly) World.initial).any
      (readyWith fun p => p.published && p.visibility = .active) = true := by
    decide +kernel
  obtain ⟨w,hw,h⟩ := (Option.any_eq_true _ _).1 h
  obtain ⟨d,a,p,hd,hready,ha,hs,hid,hopen⟩ := readyWith_ok h
  obtain ⟨hpublished,hvisibility⟩ := Bool.and_eq_true_iff.1 hopen
  obtain ⟨a',ha',hshown⟩ := documents_shown_whole (play_undisturbed hw) hd
  cases ha.symm.trans ha'
  exact ⟨w,d,a,p,hd,hready,⟨hs,hid,hpublished,of_decide_eq_true hvisibility⟩,hshown⟩

def isUpsert : Request → Bool
  | .points (.upsert _ _) => true
  | _ => false

/-- After a second release both slots publish one document. The second slot stops before it stages
the points, and the first one finishes. -/
def publishedTwice : List Cue :=
  .act (uploadOf "a") :: turnOf smoothly ++
  [.act (.claim .first),.act (.work .first .databaseFault),.act (.work .first .databaseFault),
    .act (.work .first .proceed),.act (.wait 100),.act .recoverLeases,.act (.claim .second),
    .act (.work .first .proceed),.act (.wait 100),.act .recoverLeases,.act (.claim .first),
    .turn .second smoothly isUpsert,.turn .first smoothly never]

/-- Then the second slot stages the points again. -/
def stagedAgain : List Cue := publishedTwice ++ [.act (.work .second .proceed)]

/-- A document that is `READY` then has no visible point. -/
theorem ready_document_hidden : ¬ ∀ w d, Reachable booksSettings plainEncoding w →
    d ∈ w.shared.catalog.documents → ∃ a,
      activeName? booksSettings d.intake.collectionKey = some a ∧ ShownWhole booksSettings plainEncoding w.shared.qdrant d a := by
  obtain ⟨w,hw,h⟩ := play_any booksSettings plainEncoding (fun _ _ => True) stagedAgain
    (readyWith fun p => !p.published) (fun _ _ _ => trivial) (fun _ _ _ => trivial)
    (by decide +kernel)
  obtain ⟨d,a,p,hd,hready,ha,hs,hid,hhidden⟩ := readyWith_ok h
  intro hclaim
  obtain ⟨a',ha',hshown⟩ := hclaim w d hw hd
  cases ha.symm.trans ha'
  obtain ⟨⟨ps,-,hset⟩,-⟩ := hshown.ready hready
  obtain ⟨k,-,rfl⟩ := List.mem_map.1 ((hset p).1 ⟨hs,hid⟩)
  cases hhidden

end Lifecycle
end PdfBridge
