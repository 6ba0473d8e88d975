import PdfBridge.Lifecycle.Files
import PdfBridge.Lifecycle.Overlap

/-! Verified deletion: content is removed only when both collections hold no point of the document,
and a terminal document has left nothing but its tombstone. -/
namespace PdfBridge
namespace Lifecycle
open Worker Api Intake Preparation

variable {s : Settings} {enc : Encoding} {w w' : World} {q : Qdrant} {d : Document} {ev : Event}
  {know : Slot → Knowledge} {key : StorageKey} {p : DeletionProgress}

/-- The proofs of a deletion are recorded in their order. -/
structure Ordered (p : DeletionProgress) : Prop where
  zeros : p.storagePurgedAt.isSome = true →
    p.activeZeroVerifiedAt.isSome = true ∧ p.screeningZeroVerifiedAt.isSome = true
  purged : p.tombstonedAt.isSome = true → p.storagePurgedAt.isSome = true

/-- The two collections that a checkpoint records hold no point of the document. -/
structure Unindexed (q : Qdrant) (d : Document) (p : DeletionProgress) : Prop where
  active : q.Clear p.activeQdrantCollection d.id
  screening : q.Clear p.screeningQdrantCollection d.id

/-- The source object of the document, or an artifact that one of its revisions records. -/
def ContentKey (d : Document) (key : StorageKey) : Prop :=
  key = .object d.id ∨
    ∃ r, r ∈ d.preparedRevisions ∧ ∃ a ∈ r.content.artifacts, a.storageKey = key

/-- There was a file under the key, and there is none any more. -/
def Removed (w w' : World) (key : StorageKey) : Prop :=
  (∃ f, f ∈ w.shared.storage.files ∧ f.key = key) ∧ ∀ f, f ∈ w'.shared.storage.files → f.key ≠ key

/-- Nothing is left of the document but its row and its tombstone. -/
structure Erased (w : World) (d : Document) : Prop where
  tombstone : ∃ t, d.tombstone = some t ∧ t.disposition.toState = d.state
  source : d.storageKey = none
  files : ∀ f, f ∈ w.shared.storage.files → f.key.owner ≠ d.id
  content : ∀ r, r ∈ d.preparedRevisions → r.content = .empty
  points : ∃ p, d.deletionProgress = some p ∧ Unindexed w.shared.qdrant d p

/-! ### Removal -/

/-- Only an execution removes files: one by its key, or the artifacts of a document. -/
theorem removed_by (happly : w.apply s enc ev = some w') (h : Removed w w' key) :
    ∃ slot claimed r k, Executes w slot ⟨claimed,.call (.files r) k⟩ ∧
      ((∃ missingOk, r = .remove key missingOk) ∨
        ∃ id, r = .removeArtifacts id ∧ key.isArtifactOf id = true) := by
  obtain ⟨⟨f,hf,rfl⟩,hgone⟩ := h
  have kept : f ∉ w'.shared.storage.files := fun hf' => hgone f hf' rfl
  cases ev with
  | work slot i =>
    obtain ⟨claimed,r,k,y,σ,hslot,hexec,-,rfl⟩ := work_ok happly
    change f ∉ σ.storage.files at kept
    change ∀ f', f' ∈ σ.storage.files → f'.key ≠ f.key at hgone
    cases r with
    | files r =>
      refine ⟨slot,claimed,r,k,⟨hslot,by rintro ⟨⟩⟩,?_⟩
      have hlost : ∀ f', f' ∈ (r.effect w.shared.now w.shared.storage).files → f'.key ≠ f.key := by
        rcases exec_files hexec with ⟨b,-,-,rfl⟩ | ⟨e,-,rfl | rfl⟩
        · exact hgone
        · exact absurd rfl (hgone f hf)
        · exact hgone
      cases r with
      | isFile => exact absurd rfl (hlost f hf)
      | writeArtifact documentId revisionId kind n material =>
        by_cases he : f.key = (artifactFile w.shared.now documentId revisionId kind n material).key
        · exact absurd he.symm (hlost _ (Table.mem_put.2 (Or.inl rfl)))
        · exact absurd rfl (hlost f (Table.mem_put.2 (Or.inr ⟨hf,he⟩)))
      | remove key missingOk =>
        by_cases he : f.key = key
        · exact Or.inl ⟨missingOk,by rw [he]⟩
        · exact absurd rfl (hlost f (Table.mem_keep.2 ⟨hf,decide_eq_true he⟩))
      | removeArtifacts id =>
        by_cases he : f.key.isArtifactOf id = true
        · exact Or.inr ⟨id,rfl,he⟩
        · exact absurd rfl (hlost f (Table.mem_keep.2 ⟨hf,by simpa using he⟩))
    | catalog r =>
      rcases exec_catalog hexec with ⟨b,c,-,-,rfl⟩ | ⟨e,-,rfl,-⟩ <;> exact absurd hf kept
    | points r =>
      rcases exec_points hexec with ⟨b,-,-,rfl⟩ | ⟨e,-,rfl | rfl⟩ <;> exact absurd hf kept
    | provider r =>
      simp only [exec, Option.map_eq_some_iff] at hexec
      obtain ⟨b,-,hb⟩ := hexec
      cases hb
      exact absurd hf kept
    | release claimed | raise e =>
      cases hexec
      exact absurd hf kept
  | claim slot =>
    obtain ⟨-,claimed,p,c,-,rfl⟩ := claim_ok happly
    exact absurd hf kept
  | upload y committed =>
    obtain ⟨m,-,rfl⟩ := upload_ok happly
    by_cases he : f.key = (sourceFile w.shared.now y).key
    · exact absurd he.symm (hgone _ (Table.mem_put.2 (Or.inl rfl)))
    · exact absurd (Table.mem_put.2 (Or.inr ⟨hf,he⟩)) kept
  | decide y | retry id actor | delete id actor =>
    obtain ⟨c,-,rfl⟩ := commit_ok happly
    exact absurd hf kept
  | recoverLeases | renewLeases | wait n | restart =>
    cases happly
    exact absurd hf kept

/-- Recorded zero proofs hold of the collections that the checkpoint records. -/
theorem PointsInv.unindexed {strands : Prop} {c : Catalog} {now : Time} (h : PointsInv s enc c q)
    (hinv : CatalogInv s strands now c) (hd : d ∈ c.documents)
    (hproved : ∀ target, Proved d target) :
    ∃ p, d.deletionProgress = some p ∧ Unindexed q d p := by
  obtain ⟨p,hp,-⟩ := hproved .active
  have hprogress := (hinv.documents d hd).deletion.of_some hp
  obtain ⟨definition,hdefinition,hactive⟩ := hprogress.active
  refine ⟨p,hp,?_,?_⟩
  · refine h.zeros d hd .active (hproved .active) _ ?_
    rw [hactive, targetName?, activeName?, hdefinition]
    rfl
  · rw [hprogress.screening]
    exact h.zeros d hd .screening (hproved .screening) _ rfl

/-- Content of a document is removed only when its zero proofs are recorded. -/
theorem removed_proved (hw : WorldInv s True w know) (hfiles : FilesInv w.shared.now w know)
    (happly : w.apply s enc ev = some w') (hd : d ∈ w.shared.catalog.documents)
    (hkey : ContentKey d key) (h : Removed w w' key) : ∀ target, Proved d target := by
  obtain ⟨slot,claimed,r,k,ht,hr⟩ := removed_by happly h
  have hp := (hw.threads slot _ ht.1).follows.1
  have hfiled := hfiles.threads slot _ ht
  have howner : key.owner = d.id := by
    rcases hkey with rfl | ⟨r',hr',a,ha,rfl⟩
    · rfl
    · exact (hfiles.rows d hd r' hr' a ha).owner
  have purging : ∀ {b : PurgeBinding} {id : Uuid}, cleans claimed id → .purging id b ∈ know slot →
      id = d.id → ∀ target, Proved d target := by
    rintro b id hclean hb rfl
    obtain ⟨e,he,hid,hproved,-⟩ := (hfiled.purging _ b hb hclean).document
    rwa [Table.eq_of_key_eq he hd hid] at hproved
  rcases hr with ⟨missingOk,rfl⟩ | ⟨id,rfl,hartifact⟩
  · obtain ⟨-,⟨a,ha,rfl⟩ | ⟨id,b,hclean,hb,hmem⟩⟩ := hp
    · -- A new artifact that could not be recorded is no content of the document.
      rcases hkey with hobject | ⟨r',hr',a',ha',hrecorded⟩
      · obtain ⟨r',t,-,hdrawn⟩ := hfiled.written a ha
        rw [hobject] at hdrawn
        cases hdrawn
      · exact absurd hrecorded (hfiled.unrecorded a ha d hd r' hr' a' ha')
    · have hlists := hfiled.purging id b hb hclean
      refine purging hclean hb ?_
      rcases List.mem_cons.1 hmem with rfl | hmem
      · rw [hlists.source] at howner
        exact howner
      · exact (hlists.artifacts key hmem).symm.trans howner
  · obtain ⟨⟨-,hclean⟩,b,hb⟩ := hp
    exact purging hclean hb ((owner_eq_iff.2 (Or.inr hartifact)).symm.trans howner)

/-! ### Terminal documents -/

theorem erased_of_terminal (hw : WorldInv s True w know) (hsound : Sound s enc w know)
    (hfiles : FilesInv w.shared.now w know) (hd : d ∈ w.shared.catalog.documents)
    (hterminal : terminalState d.state = true) : Erased w d := by
  have dinv := hw.catalog.documents d hd
  obtain ⟨p,hp,hprogress⟩ := dinv.deletion.progress (by simp [deletionState, hterminal])
  have hstate : d.state = p.terminalDisposition.toState := by
    rcases hprogress.state with hs | hs | hs
    · rw [hs] at hterminal
      cases hterminal
    · rw [hs] at hterminal
      cases hterminal
    · exact hs
  have htombstoned := hprogress.tombstoned.2 hstate
  have hpurged := hprogress.complete htombstoned
  have hzero := hprogress.purged hpurged
  obtain ⟨t,ht,hdisposition⟩ := hprogress.tombstone htombstoned
  have hsource := hprogress.source
  rw [if_pos hpurged] at hsource
  obtain ⟨hempty,hcontent⟩ := hfiles.purged d hd hsource
  refine ⟨⟨t,ht,by rw [hdisposition, hstate]⟩,hsource,hempty,hcontent,?_⟩
  refine hsound.points.unindexed hw.catalog hd fun target => ⟨p,hp,?_⟩
  cases target with
  | active => exact hprogress.zeros hzero
  | screening => exact hzero

/-- A document in a terminal state keeps it. -/
theorem terminal_steps (h : ReachableBy s enc Undisturbed w) (hd : d ∈ w.shared.catalog.documents)
    (hterminal : terminalState d.state = true) (hsteps : Steps s enc Undisturbed w w') :
    ReachableBy s enc Undisturbed w' ∧
      ∃ d', d' ∈ w'.shared.catalog.documents ∧ d'.id = d.id ∧ d'.state = d.state := by
  induction hsteps with
  | refl => exact ⟨h,d,hd,rfl,rfl⟩
  | @tail w₁ w₂ _ hlast ih =>
    obtain ⟨ev,he,hstep⟩ := hlast
    obtain ⟨hreach,d₁,hd₁,hid,hstate⟩ := ih
    obtain ⟨know,hinv,-,-⟩ := hreach.files
    have hchange : CatalogChange s True (fun _ => True) w₁.shared.now w₁.shared.catalog
        w₂.shared.catalog := step_change hinv (fun _ => trivial) (fun _ _ => trivial) hstep
    obtain ⟨d₂,hd₂,hc⟩ := hchange.forward hinv.catalog hd₁
    refine ⟨hreach.step he hstep,d₂,hd₂,hc.id.trans hid,?_⟩
    rw [hc.terminal_kept (hinv.catalog.documents d₁ hd₁) (hstate ▸ hterminal), hstate]

/-- As long as no late release disturbs an execution, the proofs of every deletion are ordered,
content is removed only when both collections hold no point of its document, and a terminal document
is erased and stays so. -/
theorem deletion_verified (h : ReachableBy s enc Undisturbed w)
    (hd : d ∈ w.shared.catalog.documents) :
    (∀ p, d.deletionProgress = some p → Ordered p) ∧
    (∀ ev w' key, w.step s enc ev = some w' → ContentKey d key → Removed w w' key →
      ∃ p, d.deletionProgress = some p ∧ Unindexed w.shared.qdrant d p) ∧
    (terminalState d.state = true → Erased w d ∧
      ∀ w', Steps s enc Undisturbed w w' → ∃ d', d' ∈ w'.shared.catalog.documents ∧ d'.id = d.id ∧
        d'.state = d.state ∧ Erased w' d') := by
  obtain ⟨know,hinv,hsound,hfiles⟩ := h.files
  refine ⟨fun p hp => ?_,fun ev w' key hstep hkey hremoved => ?_,fun hterminal => ?_⟩
  · have hprogress := (hinv.catalog.documents d hd).deletion.of_some hp
    exact ⟨fun hpurged => ⟨hprogress.zeros (hprogress.purged hpurged),hprogress.purged hpurged⟩,
      hprogress.complete⟩
  · unfold World.step at hstep
    obtain ⟨w₁,happly,rfl⟩ := Option.map_eq_some_iff.1 hstep
    exact hsound.points.unindexed hinv.catalog hd
      (removed_proved hinv hfiles happly hd hkey hremoved)
  · refine ⟨erased_of_terminal hinv hsound hfiles hd hterminal,fun w' hsteps => ?_⟩
    obtain ⟨hreach,d',hd',hid,hstate⟩ := terminal_steps h hd hterminal hsteps
    obtain ⟨know',hinv',hsound',hfiles'⟩ := hreach.files
    exact ⟨d',hd',hid,hstate,
      erased_of_terminal hinv' hsound' hfiles' hd' (hstate ▸ hterminal)⟩

/-! ### Runs -/

/-- A document is `DELETED`. -/
def deletes (w : World) : Bool :=
  w.shared.catalog.documents.rows.any fun d => d.state = .deleted

/-- One published document is deleted. -/
theorem deleted_document_erased : ∃ (w : World) (d : Document), d ∈ w.shared.catalog.documents ∧
    d.state = .deleted ∧ Erased w d := by
  have h : (play booksSettings plainEncoding (fun w => (w.slots .second).isNone)
      (.act (uploadOf "a") :: turnOf smoothly ++ turnOf smoothly ++
        .act (.delete (uuid4 0 0) sampleOperator) :: turnOf smoothly) World.initial).any
      deletes = true := by
    decide +kernel
  obtain ⟨w,hw,h⟩ := (Option.any_eq_true _ _).1 h
  obtain ⟨d,hd,hstate⟩ := List.any_eq_true.1 h
  have hdeleted : d.state = .deleted := of_decide_eq_true hstate
  exact ⟨w,d,hd,hdeleted,
    ((deletion_verified (play_undisturbed hw) hd).2.2 (by rw [hdeleted]; rfl)).1⟩

/-- A second execution of a publication stops before it stages the points. Then the document is
deleted, and the execution goes on. -/
def stagedAfterDeletion : List Cue :=
  publishedTwice ++ .act (.delete (uuid4 0 0) sampleOperator) :: turnOf smoothly ++
  [.act (.work .second .proceed)]

/-- A terminal document has a point in the active collection that its checkpoint records. -/
def leavesPoint (w : World) : Bool :=
  w.shared.catalog.documents.rows.any fun d => terminalState d.state &&
    d.deletionProgress.any fun p => w.shared.qdrant.points.rows.any fun x =>
      x.collection = p.activeQdrantCollection && x.point.chunk.documentId = d.id

theorem deletion_leaves_points : ¬ ∀ w d, Reachable booksSettings plainEncoding w →
    d ∈ w.shared.catalog.documents → terminalState d.state = true → Erased w d := by
  obtain ⟨w,hw,h⟩ := play_any booksSettings plainEncoding (fun _ _ => True) stagedAfterDeletion
    leavesPoint (fun _ _ _ => trivial) (fun _ _ _ => trivial) (by decide +kernel)
  obtain ⟨d,hd,h⟩ := List.any_eq_true.1 h
  obtain ⟨hterminal,h⟩ := Bool.and_eq_true_iff.1 h
  obtain ⟨p,hp,h⟩ := (Option.any_eq_true _ _).1 h
  obtain ⟨⟨a,x⟩,hs,h⟩ := List.any_eq_true.1 h
  obtain ⟨hcollection,hid⟩ := Bool.and_eq_true_iff.1 h
  obtain rfl : a = p.activeQdrantCollection := of_decide_eq_true hcollection
  intro hclaim
  obtain ⟨p',hp',hunindexed⟩ := (hclaim w d hw hd hterminal).points
  cases hp.symm.trans hp'
  exact hunindexed.active x hs (of_decide_eq_true hid)

end Lifecycle
end PdfBridge
