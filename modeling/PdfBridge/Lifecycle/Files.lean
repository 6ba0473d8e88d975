import PdfBridge.Lifecycle.Retention
import PdfBridge.Lifecycle.Visibility

/-! The files and the content rows of a document: what a thread knows about them, and what a purge
leaves in every world that undisturbed slots reach. -/
namespace PdfBridge
namespace Lifecycle
open Worker Api Intake Preparation

variable {s : Settings} {enc : Encoding} {strands : Prop} {rejects : FailureCode → Prop}
  {now now' : Time} {worker : Uuid} {x : ClaimedOperation} {K : Knowledge} {c c' : Catalog}
  {d d' : Document} {st st' : Storage} {id : Uuid} {key : StorageKey} {b : PurgeBinding}

/-! ### Keys -/

/-- The key of an artifact of the document that was drawn before now. -/
def ArtifactKey (now : Time) (id : Uuid) (key : StorageKey) : Prop :=
  ∃ r t, t < now ∧ key = .artifact id r (uuid4 t 0)

theorem ArtifactKey.mono (h : ArtifactKey now id key) (hle : now ≤ now') :
    ArtifactKey now' id key := by
  obtain ⟨r,t,ht,hkey⟩ := h
  exact ⟨r,t,ht.trans_le hle,hkey⟩

theorem ArtifactKey.owner (h : ArtifactKey now id key) : key.owner = id := by
  obtain ⟨r,t,-,rfl⟩ := h
  rfl

/-- A key that is drawn now differs from the older ones. -/
theorem ArtifactKey.ne_drawn (h : ArtifactKey now id key) (other r : Uuid) :
    key ≠ .artifact other r (uuid4 now 0) := by
  obtain ⟨r',t,ht,rfl⟩ := h
  intro he
  have hnow : t = now := congrArg Uuid.drawnAt (StorageKey.artifact.inj he).2.2
  exact absurd ht (by rw [hnow]; exact lt_irrefl _)

theorem owner_eq_iff : key.owner = id ↔ key = .object id ∨ key.isArtifactOf id = true := by
  cases key with
  | object other => simp [StorageKey.owner, StorageKey.isArtifactOf]
  | artifact other r a => simp [StorageKey.owner, StorageKey.isArtifactOf]

/-! ### What a thread knows -/

/-- A purge binding lists the content of a document whose zero proofs are recorded. -/
structure Lists (c : Catalog) (id : Uuid) (b : PurgeBinding) : Prop where
  document : ∃ d, d ∈ c.documents ∧ d.id = id ∧ (∀ target, Proved d target) ∧
    ∀ r, r ∈ d.preparedRevisions → r.id ∈ b.revisionIds
  source : b.storageKey = .object id
  artifacts : ∀ key ∈ b.artifactKeys, key.owner = id

/-- What the knowledge of a thread about files means: artifacts that it wrote and has not yet
recorded, content that it purges, and files that it removed. -/
structure Filed (now : Time) (c : Catalog) (st : Storage) (x : ClaimedOperation) (K : Knowledge) :
    Prop where
  written : ∀ a, .written a ∈ K → ArtifactKey now x.documentId a.storageKey
  unrecorded : ∀ a, .written a ∈ K → Holds (Rows fun _ key => key ≠ a.storageKey) c
  apart : ∀ a, .written a ∈ K → ∀ a', .written a' ∈ K → a.storageKey = a'.storageKey → a = a'
  purging : ∀ id b, .purging id b ∈ K → cleans x id → Lists c id b
  removed : ∀ key, .removed key ∈ K → key.owner ∈ x.lockedDocumentIds →
    ∀ f, f ∈ st.files → f.key ≠ key
  removedArtifacts : ∀ id, .removedArtifacts id ∈ K → id ∈ x.lockedDocumentIds →
    ∀ f, f ∈ st.files → f.key.isArtifactOf id = false

theorem Filed.mono {K' : Knowledge} (h : Filed now c st x K) (hle : now ≤ now') (hK : K' ⊆ K) :
    Filed now' c st x K' where
  written := fun a ha => (h.written a (hK ha)).mono hle
  unrecorded := fun a ha => h.unrecorded a (hK ha)
  apart := fun a ha a' ha' => h.apart a (hK ha) a' (hK ha')
  purging := fun id b hb => h.purging id b (hK hb)
  removed := fun key hkey => h.removed key (hK hkey)
  removedArtifacts := fun id hid => h.removedArtifacts id (hK hid)

theorem filed_base : Filed now c st x base where
  written := fun a ha => by simp [base] at ha
  unrecorded := fun a ha => by simp [base] at ha
  apart := fun a ha => by simp [base] at ha
  purging := fun id b hb => by simp [base] at hb
  removed := fun key hkey => by simp [base] at hkey
  removedArtifacts := fun id hid => by simp [base] at hid

/-- A purged document has neither files nor content rows. -/
def Emptied (st : Storage) (id : Uuid) (key : Option StorageKey)
    (revisions : Table PreparedRevision.id) : Prop :=
  key = none → (∀ f, f ∈ st.files → f.key.owner ≠ id) ∧
    ∀ r, r ∈ revisions → r.content = .empty

/-- The artifact rows name files that were drawn before `bound`, purged documents are empty, and the
threads know what holds. -/
structure FilesInv (bound : Time) (w : World) (know : Slot → Knowledge) : Prop where
  rows : Holds (Rows (ArtifactKey bound)) w.shared.catalog
  purged : Satisfies (Emptied w.shared.storage) w.shared.catalog
  threads : ∀ slot t, Executes w slot t →
    Filed bound w.shared.catalog w.shared.storage t.claimed (know slot)

theorem FilesInv.mono {w : World} {know : Slot → Knowledge} (h : FilesInv now w know)
    (hle : now ≤ now') : FilesInv now' w know where
  rows := fun d hd r hr a ha => (h.rows d hd r hr a ha).mono hle
  purged := h.purged
  threads := fun slot t ht => (h.threads slot t ht).mono hle subset_rfl

theorem files_initial (bound : Time) (know : Slot → Knowledge) :
    FilesInv bound World.initial know where
  rows := fun d hd => absurd hd (Table.not_mem_empty d)
  purged := fun d hd => absurd hd (Table.not_mem_empty d)
  threads := fun _ _ ht => by cases ht.1

/-! ### Stages of a preparation -/

theorem permits_stage {r : CatalogRequest} (hp : permitsCatalog s x K r)
    (hr : writesRevision r = true) : .live ∈ K ∧ x.operationType = .preflight := by
  cases r with
  | beginPreparation | sealPreparedRevision | insertArtifact => exact ⟨hp.1.1,hp.1.2.1⟩
  | recordExtraction | recordFormatting | recordChunkVectors | failPreparation
  | recordPreflightCandidates | appendAdvisoryEvidence => exact ⟨hp.1,hp.2.1⟩
  | _ => cases hr

/-- A preflight locks its own document alone. -/
theorem Claimed.locks_own (h : Claimed x c) (hinv : CatalogInv s strands now c)
    (htype : x.operationType = .preflight) (hid : id ∈ x.lockedDocumentIds) :
    id = x.documentId := by
  obtain ⟨d,o,hf⟩ := h
  refine ((hf.mem_locked hinv).1 hid).resolve_right fun htarget => ?_
  have hpriority := ((hinv.documents d hf.document).operations.valid o hf.operation).priority
  rw [hf.type, htype, htarget] at hpriority
  cases hpriority

/-- A stage writes the own document of the thread, and keeps its source key. -/
theorem stage_frame (hinv : CatalogInv s strands now c) (hclaimed : Claimed x c)
    {r : CatalogRequest} {a : r.Response} (hp : permitsCatalog s x K r)
    (hr : writesRevision r = true) (h : r.run s enc now worker x.ref c = .ok (a,c')) :
    ∀ e, e ∈ c'.documents → e ∈ c.documents ∨
      (e.id = x.documentId ∧ ∃ d, d ∈ c.documents ∧ d.id = e.id ∧ e.storageKey = d.storageKey) := by
  have ho := request_observes hinv hclaimed hp h
  obtain ⟨d,revisions,hd,hput⟩ := request_revises h hr
  intro e he
  by_cases hid : e.id = x.documentId
  · rw [hput] at he
    rcases mem_put.1 he with rfl | ⟨he,-⟩
    · exact Or.inr ⟨hid,d,hd,rfl,rfl⟩
    · exact Or.inl he
  · refine Or.inl ?_
    have hcatalog := he
    rw [hput] at he
    rcases mem_put.1 he with rfl | ⟨he,-⟩
    · have hkept := ho.frame d hd fun hlocked =>
        hid (hclaimed.locks_own hinv (permits_stage hp hr).2 hlocked)
      rw [Table.eq_of_key_eq hcatalog hkept rfl]
      exact hd
    · exact he

/-! ### Zero proofs -/

theorem Proved.failProgress {code : FailureCode} {target : IndexTarget} (h : Proved d target) :
    Proved (Worker.failProgress code d) target := by
  obtain ⟨p,hp,hz⟩ := h
  refine ⟨{p with failureCode := some code},?_,by cases target <;> exact hz⟩
  simp only [Worker.failProgress, hp, Option.map_some]

/-- A zero proof is never taken back. -/
theorem Change.proved_kept (hc : Change s rejects now d d') (h : DocumentInv s now d)
    {target : IndexTarget} (hp : Proved d target) : Proved d' target := by
  have absent : deletionState d.state = false → Proved d' target :=
    fun hs => absurd hp (h.not_proved hs target)
  have same : ∀ {e : Document}, e.deletionProgress = d.deletionProgress → Proved e target :=
    fun he => hp.imp fun p hp => ⟨he.trans hp.1,hp.2⟩
  have moved : ∀ {p p' : DeletionProgress} {e : Document}, d.deletionProgress = some p →
      e.deletionProgress = some p' →
      ((zeroVerifiedAt p target).isSome = true → (zeroVerifiedAt p' target).isSome = true) →
      Proved e target := by
    intro p p' e hd he hzero
    obtain ⟨q,hq,hz⟩ := hp
    cases hd.symm.trans hq
    exact ⟨p',he,hzero hz⟩
  cases hc with
  | review hstate | approve hstate | reject hstate | cancel hstate | decide hstate | publish hstate
  | upsert hstate | yield_ hstate | retryPreflight hstate | retryPublish hstate =>
    exact absent (by rw [hstate]; rfl)
  | delete hstate =>
    exact absent (by rcases hstate with hs | hs | hs | hs <;> rw [hs] <;> rfl)
  | touch | index | revise => exact same rfl
  | @fail o o' ho hopen hsettle hfailed code message outbox =>
    have hput : Proved (d.putOperation o') target := same rfl
    show Proved {failDocument o code message o'.retryable (d.putOperation o') with
      outbox := outbox} target
    unfold failDocument
    split
    · exact hput
    · exact hput.imp fun p hp => ⟨failPublication_fields.trans hp.1,hp.2⟩
    · exact hput.failProgress
  | failYielded => exact hp.failProgress
  | resumeYielded hstate howner hd | retryDelete hstate howner ho hpriority hd =>
    exact moved hd rfl (by cases target <;> exact fun hz => hz)
  | progress hd hprogress =>
    refine moved hd rfl ?_
    cases target with
    | active => exact hprogress.activeZero
    | screening => exact hprogress.kept
  | purge hd | bury hd | buryOwn hd => exact moved hd rfl (by cases target <;> exact fun hz => hz)

/-! ### Events -/

variable {w w' : World} {ev : Event} {know : Slot → Knowledge} {slot slot' : Slot}
  {t t' : Thread} {P : Uuid → StorageKey → Prop} {σ σ' : Shared}

/-- An event keeps a condition on artifact rows if it holds of the rows that are recorded. -/
theorem apply_rows (hw : WorldInv s True w know)
    (hinsert : ∀ slot t a, Executes w slot t → .written a ∈ know slot →
      .written a ∉ knows s enc w know ev slot → P t.claimed.documentId a.storageKey)
    (hc : Holds (Rows P) w.shared.catalog) (happly : w.apply s enc ev = some w') :
    Holds (Rows P) w'.shared.catalog := by
  refine apply_satisfies (I := fun id _ => Rows P id) hw
    (fun _ _ r hr => absurd hr (Table.not_mem_empty r)) ?_ ?_ hc happly
  · rintro slot claimed id b k - - d hd rfl
    exact rows_purgeable _ _ _ (hc d hd)
  · intro slot claimed r k a c hslot hp hr hknows hrun
    refine stage_rows hc hr ?_ hrun
    rintro id art rfl
    refine hinsert slot _ art ⟨hslot,by rintro ⟨⟩⟩ hp.2 ?_
    rw [hknows]
    rintro (hgained | ⟨-,hkept⟩)
    · exact not_gained_written hgained
    · exact hkept (Or.inr ⟨_,_,rfl,rfl,rfl⟩)

/-- An event keeps a list of the content that a thread purges complete. -/
theorem Lists.apply {b : PurgeBinding} (h : Lists w.shared.catalog id b)
    (hw : WorldInv s True w know) (hslots : SlotsInv s w know) (ht : Executes w slot t)
    (hclean : cleans t.claimed id) (happly : w.apply s enc ev = some w') :
    Lists w'.shared.catalog id b := by
  obtain ⟨d,hd,rfl,hproved,hids⟩ := h.document
  have hchange : CatalogChange s True (fun _ => True) w.shared.now w.shared.catalog
      w'.shared.catalog := (apply_change hw (fun _ => trivial) (fun _ _ => trivial) happly).1
  have hlocked := cleans_locked (hw.threads slot t ht.1).locked hclean
  obtain ⟨d',hd',hc⟩ := hchange.forward hw.catalog hd
  have hlisted : Satisfies (fun id _ revisions => id = d.id → ∀ r, r ∈ revisions →
      r.id ∈ b.revisionIds) w'.shared.catalog := by
    refine apply_satisfies hw (fun _ _ _ r hr => absurd hr (Table.not_mem_empty r)) ?_ ?_
      (fun e he hid => by rwa [Table.eq_of_key_eq he hd hid]) happly
    · rintro slot claimed id b' k - - e he rfl hid r' hr'
      obtain ⟨r,hr,rfl⟩ := Table.mem_update.1 hr'
      rw [emptyContent_id]
      cases Table.eq_of_key_eq he hd hid
      exact hids r hr
    · intro slot' claimed r k a c hslot hp hr _ hrun e he hid
      have ht' : Executes w slot' ⟨claimed,.call (.catalog r) k⟩ := ⟨hslot,by rintro ⟨⟩⟩
      rcases stage_frame hw.catalog (hw.threads slot' _ hslot).claimed hp hr hrun e he with
        he | ⟨hown,-⟩
      · cases Table.eq_of_key_eq he hd hid
        exact hids
      · by_cases hne : slot' = slot
        · subst hne
          cases ht.1.symm.trans hslot
          have htype := (permits_stage hp hr).2
          rcases hclean with ⟨hdelete,-⟩ | ⟨hpublish,-⟩
          · rw [htype] at hdelete
            cases hdelete
          · rw [htype] at hpublish
            cases hpublish
        · refine absurd ?_ ((hslots.others hw ht slot' _ hne ht').2 _
            (hw.threads slot' _ hslot).locked)
          rw [← hown, hid]
          exact hlocked
  exact ⟨⟨d',hd',hc.id,fun target => hc.proved_kept (hw.catalog.documents d hd) (hproved target),
    hlisted d' hd' hc.id⟩,h.source,h.artifacts⟩

/-- An event purges only what has no file left and lists all content rows. -/
theorem FilesInv.apply_purged (h : FilesInv now w know) (hw : WorldInv s True w know)
    (hsound : Sound s enc w know) (happly : w.apply s enc ev = some w') :
    Satisfies (Emptied w.shared.storage) w'.shared.catalog := by
  refine apply_satisfies hw (fun _ _ hnone => by cases hnone) ?_ ?_ h.purged happly
  · rintro slot claimed id b k hslot hp d hd rfl -
    have hfiled := h.threads slot _ ⟨hslot,by rintro ⟨⟩⟩
    obtain ⟨⟨-,hclean⟩,hpurging,hremoved,hartifacts⟩ := hp
    have hlists := hfiled.purging _ _ hpurging hclean
    have hlocked := cleans_locked (hw.threads slot _ hslot).locked hclean
    refine ⟨fun f hf howner => ?_,fun r' hr' => ?_⟩
    · rcases owner_eq_iff.1 howner with hkey | hkey
      · refine hfiled.removed _ hremoved ?_ f hf (hkey.trans hlists.source.symm)
        rw [hlists.source]
        exact hlocked
      · rw [hfiled.removedArtifacts _ hartifacts hlocked f hf] at hkey
        cases hkey
    · obtain ⟨r,hr,rfl⟩ := Table.mem_update.1 hr'
      obtain ⟨e,he,hid,-,hids⟩ := hlists.document
      cases Table.eq_of_key_eq he hd hid
      unfold emptyContent
      rw [if_pos (hids r hr)]
  · intro slot claimed r k a c hslot hp hr _ hrun e he hnone
    have hclaimed := (hw.threads slot _ hslot).claimed
    rcases stage_frame hw.catalog hclaimed hp hr hrun e he with he | ⟨hid,d,hd,hdid,hkey⟩
    · exact h.purged e he hnone
    · obtain ⟨hlive,htype⟩ := permits_stage hp hr
      have hbusy := (hsound.grounded slot _ ⟨hslot,by rintro ⟨⟩⟩).busy hlive hd (hdid.trans hid)
      rw [htype] at hbusy
      have hsource := ((hw.catalog.documents d hd).deletion.live (by rw [hbusy]; rfl)).2.source
      rw [← hkey, hnone] at hsource
      cases hsource

/-! ### Files -/

/-- Where a file can come from: it was there, it was promoted by an upload, or a preflight wrote it
and no longer relies on what it removed. -/
theorem new_files (hw : WorldInv s True w know) (happly : w.apply s enc ev = some w')
    {f : StoredFile} (hf : f ∈ w'.shared.storage.files) :
    f ∈ w.shared.storage.files ∨ f.key.owner = uuid4 w.shared.now 0 ∨
      ∃ slot t, Executes w slot t ∧ ofPreflight t.claimed (know slot) f.key.owner ∧
        w'.shared.catalog = w.shared.catalog ∧
        ∀ fact : Fact, fact.aboutRemoval → fact ∉ knows s enc w know ev slot := by
  cases ev with
  | work slot i =>
    obtain ⟨claimed,r,k,y,σ,hslot,hexec,hwork,rfl⟩ := work_ok happly
    have hknows : knows s enc w know (.work slot i) slot =
        next s claimed r (know slot) y := by
      simp only [knows, hslot, hwork, Function.update_self]
    change f ∈ σ.storage.files at hf
    cases r with
    | files r =>
      have hp := (hw.threads slot _ hslot).follows.1
      have heffect : f ∈ (r.effect w.shared.now w.shared.storage).files →
          f ∈ w.shared.storage.files ∨ ∃ documentId revisionId kind n material,
            r = .writeArtifact documentId revisionId kind n material ∧
              f.key.owner = documentId := by
        intro hf
        cases r with
        | isFile => exact Or.inl hf
        | writeArtifact documentId revisionId kind n material =>
          rcases Table.mem_put.1 hf with rfl | ⟨hf,-⟩
          · exact Or.inr ⟨documentId,revisionId,kind,n,material,rfl,rfl⟩
          · exact Or.inl hf
        | remove | removeArtifacts => exact Or.inl (Table.mem_keep.1 hf).1
      have hsource : f ∈ w.shared.storage.files ∨
          f ∈ (r.effect w.shared.now w.shared.storage).files := by
        rcases exec_files hexec with ⟨b,-,-,rfl⟩ | ⟨e,-,rfl | rfl⟩
        · exact Or.inr hf
        · exact Or.inl hf
        · exact Or.inr hf
      rcases hsource.elim Or.inl heffect with hold | ⟨_,_,_,_,_,rfl,howner⟩
      · exact Or.inl hold
      · refine Or.inr (Or.inr ⟨slot,_,⟨hslot,by rintro ⟨⟩⟩,howner ▸ hp,
          (exec_elsewhere hexec (fun _ => by rintro ⟨⟩) fun _ => by rintro ⟨⟩).1,
          fun fact hremoval hmem => ?_⟩)
        rw [hknows] at hmem
        rcases hmem with hgained | ⟨-,hkept⟩
        · cases y with
          | error e => exact hgained
          | ok a =>
            obtain rfl := hgained
            exact hremoval
        · exact hkept hremoval
    | catalog r =>
      rcases exec_catalog hexec with ⟨b,c,-,-,rfl⟩ | ⟨e,-,rfl,-⟩ <;> exact Or.inl hf
    | points r =>
      rcases exec_points hexec with ⟨b,-,-,rfl⟩ | ⟨e,-,rfl | rfl⟩ <;> exact Or.inl hf
    | provider r =>
      simp only [exec, Option.map_eq_some_iff] at hexec
      obtain ⟨b,-,hb⟩ := hexec
      cases hb
      exact Or.inl hf
    | release claimed | raise e =>
      cases hexec
      exact Or.inl hf
  | claim slot =>
    obtain ⟨-,claimed,p,c,-,rfl⟩ := claim_ok happly
    exact Or.inl hf
  | upload y committed =>
    obtain ⟨m,-,rfl⟩ := upload_ok happly
    rcases Table.mem_put.1 hf with rfl | ⟨hf,-⟩
    · exact Or.inr (Or.inl rfl)
    · exact Or.inl hf
  | decide y | retry id actor | delete id actor =>
    obtain ⟨c,-,rfl⟩ := commit_ok happly
    exact Or.inl hf
  | recoverLeases | renewLeases | wait n | restart =>
    cases happly
    exact Or.inl hf

theorem CatalogInv.ne_drawn (hinv : CatalogInv s strands now c) (hd : d ∈ c.documents) :
    d.id ≠ uuid4 now 0 := by
  intro he
  have hdrawn := congrArg Uuid.drawnAt ((hinv.documents d hd).drawn.symm.trans he)
  have hfresh := (hinv.documents d hd).fresh
  rw [show d.createdAt = now from hdrawn] at hfresh
  exact absurd hfresh (lt_irrefl _)

/-- No new file belongs to a document that an execution has locked, as long as the execution relies
on what it removed. -/
theorem old_files (hw : WorldInv s True w know) (hslots : SlotsInv s w know)
    (ht : Executes w slot t) (happly : w.apply s enc ev = some w') (fact : Fact)
    (hremoval : fact.aboutRemoval) (hknows : fact ∈ knows s enc w know ev slot) {f : StoredFile}
    (hf : f ∈ w'.shared.storage.files) (hlocked : f.key.owner ∈ t.claimed.lockedDocumentIds) :
    f ∈ w.shared.storage.files := by
  have hthread := hw.threads slot t ht.1
  rcases new_files hw happly hf with hold | hfresh | ⟨slot',t',ht',⟨-,-,howner⟩,-,hlost⟩
  · exact hold
  · obtain ⟨d,hd,hid⟩ := hthread.claimed.locked_document hw.catalog hlocked
    exact absurd (hid.trans hfresh) (hw.catalog.ne_drawn hd)
  · by_cases hne : slot' = slot
    · subst hne
      exact absurd hknows (hlost fact hremoval)
    · refine absurd hlocked ((hslots.others hw ht slot' t' hne ht').2 _ ?_)
      rw [howner]
      exact (hw.threads slot' t' ht'.1).locked

/-- A purged document gets no new file. -/
theorem purged_files (hw : WorldInv s True w know) (hsound : Sound s enc w know)
    (happly : w.apply s enc ev = some w') {d : Document} (hd : d ∈ w'.shared.catalog.documents)
    (hpurged : d.storageKey = none) {f : StoredFile} (hf : f ∈ w'.shared.storage.files)
    (howner : f.key.owner = d.id) : f ∈ w.shared.storage.files := by
  have hchange : CatalogChange s True (fun _ => True) w.shared.now w.shared.catalog
      w'.shared.catalog := (apply_change hw (fun _ => trivial) (fun _ _ => trivial) happly).1
  rcases new_files hw happly hf with hold | hfresh | ⟨slot,t,ht,⟨hlive,htype,hown⟩,hcatalog,-⟩
  · exact hold
  · rcases hchange.backward hd with ⟨e,he,hc⟩ | ⟨y,rfl⟩
    · exact absurd (hc.id.symm.trans (howner.symm.trans hfresh)) (hw.catalog.ne_drawn he)
    · cases hpurged
  · rw [hcatalog] at hd
    have hbusy := (hsound.grounded slot t ht).busy hlive hd (howner.symm.trans hown)
    rw [htype] at hbusy
    have hsource := ((hw.catalog.documents d hd).deletion.live (by rw [hbusy]; rfl)).2.source
    rw [hpurged] at hsource
    cases hsource

/-! ### Answers -/

/-- A thread knows of a new artifact when it wrote it now. -/
theorem exec_written {ref : OperationRef} {i : Input} {r : Request}
    {y : Except ServiceError r.Response} {a : RevisionArtifact} (hp : permits s x r K)
    (hexec : exec s enc ref i σ r = some (y,σ')) (h : gained s x K r y (.written a)) :
    σ'.catalog = σ.catalog ∧ (∃ r', a.storageKey = .artifact x.documentId r' (uuid4 σ.now 0)) ∧
      ∀ a', gained s x K r y (.written a') → a' = a := by
  cases r with
  | files r =>
    have hcatalog := (exec_elsewhere hexec (fun _ => by rintro ⟨⟩) fun _ => by rintro ⟨⟩).1
    rcases exec_files hexec with ⟨b,hb,rfl,-⟩ | ⟨e,rfl,-⟩
    · cases r with
      | writeArtifact documentId revisionId kind n material =>
        cases hb
        cases h
        obtain ⟨-,-,rfl⟩ := hp
        exact ⟨hcatalog,⟨revisionId,rfl⟩,fun a' ha' => Fact.written.inj ha'⟩
      | _ => cases h
    · cases r <;> exact h.elim
  | catalog r => exact absurd h not_gained_written
  | points r => cases r <;> cases y <;> simp [gained] at h
  | _ => cases y <;> exact h.elim

/-- A thread knows of a purge when it has bound it to the content of the document. -/
theorem exec_purging (hinv : CatalogInv s strands σ.now σ.catalog)
    (hrows : Holds (Rows (ArtifactKey now)) σ.catalog) {ref : OperationRef} {i : Input}
    {r : Request} {y : Except ServiceError r.Response} (hexec : exec s enc ref i σ r = some (y,σ'))
    (h : gained s x K r y (.purging id b)) : Lists σ'.catalog id b := by
  cases r with
  | catalog r =>
    rcases exec_catalog hexec with ⟨z,c,hrun,rfl,rfl⟩ | ⟨e,rfl,-,-⟩
    · cases r with
      | purgeBinding id₁ =>
        cases h
        obtain ⟨rfl,hz⟩ := reading_ok hrun
        simp only [purgeBinding, bind_eq_ok, orRaise_eq_ok, require_eq_ok, exists_const,
          Prod.exists, pure_eq_ok] at hz
        obtain ⟨-,-,-,d,hd,p,hp,⟨hactive,hscreening⟩,key,hkey,rfl⟩ := hz
        have hmem := Catalog.mem_of_document? hd
        have hid := Catalog.id_of_document? hd
        have hsource := ((hinv.documents d hmem).deletion.of_some hp).source
        refine ⟨⟨d,hmem,hid,fun target => ⟨p,hp,by cases target <;> assumption⟩,fun r hr =>
          List.mem_map_of_mem hr⟩,?_,fun k hk => ?_⟩
        · rw [hkey] at hsource
          split at hsource
          · cases hsource
          · rw [← hid]
            exact Option.some.inj hsource
        · obtain ⟨r,hr,hk⟩ := List.mem_flatMap.1 hk
          obtain ⟨a,ha,rfl⟩ := List.mem_map.1 hk
          exact (hrows d hmem r hr a ha).owner.trans hid
      | reconstructChunkPoints id₁ sealed_ => cases sealed_ <;> simp [gained] at h
      | _ => simp [gained] at h
    · cases r <;> simp [gained] at h
  | points r => cases r <;> cases y <;> simp [gained] at h
  | files r => cases r <;> cases y <;> simp [gained] at h
  | _ => cases y <;> exact h.elim

/-- What a thread knows to be removed is gone. -/
theorem exec_removed {ref : OperationRef} {i : Input} {r : Request}
    {y : Except ServiceError r.Response} (hexec : exec s enc ref i σ r = some (y,σ')) :
    (∀ key, gained s x K r y (.removed key) → ∀ f, f ∈ σ'.storage.files → f.key ≠ key) ∧
    ∀ id, gained s x K r y (.removedArtifacts id) →
      ∀ f, f ∈ σ'.storage.files → f.key.isArtifactOf id = false := by
  cases r with
  | files r =>
    rcases exec_files hexec with ⟨b,-,rfl,rfl⟩ | ⟨e,rfl,-⟩
    · cases r with
      | remove key missingOk =>
        refine ⟨?_,fun id h => (by cases h)⟩
        rintro key h f hf
        cases h
        exact of_decide_eq_true (Table.mem_keep.1 hf).2
      | removeArtifacts documentId =>
        refine ⟨fun key h => (by cases h),?_⟩
        rintro id h f hf
        cases h
        simpa using (Table.mem_keep.1 hf).2
      | _ => exact ⟨fun _ h => (by cases h),fun _ h => (by cases h)⟩
    · cases r <;> exact ⟨fun _ h => h.elim,fun _ h => h.elim⟩
  | catalog r =>
    cases r with
    | reconstructChunkPoints id₁ sealed_ =>
      cases sealed_ <;> cases y <;> simp [gained]
    | _ => cases y <;> simp [gained]
  | points r => cases r <;> cases y <;> simp [gained]
  | _ => cases y <;> exact ⟨fun _ h => h.elim,fun _ h => h.elim⟩

/-! ### Runs -/

/-- What an execution has established before an event and still relies on holds after it. -/
theorem FilesInv.kept (h : FilesInv w.shared.now w know) (hw : WorldInv s True w know)
    (hslots : SlotsInv s w know) (happly : w.apply s enc ev = some w') (ht : Executes w slot t) :
    Filed (w.shared.now + 1) w'.shared.catalog w'.shared.storage t.claimed
      {f | f ∈ know slot ∧ f ∈ knows s enc w know ev slot} := by
  have hfiled := h.threads slot t ht
  have hself := (hw.threads slot t ht.1).locked
  constructor
  · exact fun a ha => (hfiled.written a ha.1).mono (Nat.le_succ _)
  · rintro a ⟨hold, hkept⟩
    refine apply_rows hw (fun slot' t' a' ht' ha' hlost he => ?_) (hfiled.unrecorded a hold) happly
    by_cases hne : slot' = slot
    · subst hne
      cases ht.1.symm.trans ht'.1
      obtain rfl := hfiled.apart a' ha' a hold he
      exact hlost hkept
    · have howner := ((h.threads slot' t' ht').written a' ha').owner
      rw [he, (hfiled.written a hold).owner] at howner
      refine (hslots.others hw ht slot' t' hne ht').2 _ ?_ hself
      rw [howner]
      exact (hw.threads slot' t' ht'.1).locked
  · exact fun a ha a' ha' => hfiled.apart a ha.1 a' ha'.1
  · exact fun id b hb hclean => (hfiled.purging id b hb.1 hclean).apply hw hslots ht hclean happly
  · rintro key ⟨hold, hkept⟩ hlocked f hf hkey
    exact hfiled.removed key hold hlocked f
      (old_files hw hslots ht happly (.removed key) trivial hkept hf (hkey ▸ hlocked)) hkey
  · rintro id ⟨hold, hkept⟩ hlocked f hf
    by_contra hne
    have hartifact := Bool.eq_true_of_not_eq_false hne
    have howner : f.key.owner = id := owner_eq_iff.2 (Or.inr hartifact)
    refine hne (hfiled.removedArtifacts id hold hlocked f ?_)
    exact old_files hw hslots ht happly (.removedArtifacts id) trivial hkept hf (howner ▸ hlocked)

/-- What an execution knows after its own step. -/
theorem FilesInv.own (h : FilesInv w.shared.now w know) (hw : WorldInv s True w know)
    (hslots : SlotsInv s w know) {i : Input} {r : Request}
    {k : Except ServiceError r.Response → Prog Unit} {y : Except ServiceError r.Response}
    (ht : Executes w slot ⟨x,.call r k⟩)
    (hexec : exec s enc x.ref i w.shared r = some (y,w'.shared))
    (hknows : knows s enc w know (.work slot i) slot = next s x r (know slot) y)
    (happly : w.apply s enc (.work slot i) = some w') :
    Filed (w.shared.now + 1) w'.shared.catalog w'.shared.storage x
      (next s x r (know slot) y) := by
  have hfiled := h.threads slot _ ht
  have hkept := h.kept hw hslots happly ht
  rw [hknows] at hkept
  have hp := (hw.threads slot _ ht.1).follows.1
  constructor
  · rintro a (hgained | ⟨hold, hlost⟩)
    · obtain ⟨-,⟨r',hkey⟩,-⟩ := exec_written hp hexec hgained
      exact ⟨r',_,Nat.lt_succ_self _,hkey⟩
    · exact hkept.written a ⟨hold,Or.inr ⟨hold,hlost⟩⟩
  · rintro a (hgained | ⟨hold, hlost⟩)
    · obtain ⟨hcatalog,⟨r',hkey⟩,-⟩ := exec_written hp hexec hgained
      rw [hcatalog, hkey]
      exact fun d hd r hr a' ha' => (h.rows d hd r hr a' ha').ne_drawn _ _
    · exact hkept.unrecorded a ⟨hold,Or.inr ⟨hold,hlost⟩⟩
  · have fresh : ∀ a a', gained s x (know slot) r y (.written a) → .written a' ∈ know slot →
        a.storageKey ≠ a'.storageKey := by
      intro a a' hgained hold he
      obtain ⟨-,⟨r',hkey⟩,-⟩ := exec_written hp hexec hgained
      exact (hfiled.written a' hold).ne_drawn _ _ (he.symm.trans hkey)
    rintro a (hgained | ⟨hold, hlost⟩) a' (hgained' | ⟨hold', hlost'⟩) he
    · exact (exec_written hp hexec hgained').2.2 a hgained
    · exact absurd he (fresh a a' hgained hold')
    · exact absurd he.symm (fresh a' a hgained' hold)
    · exact hfiled.apart a hold a' hold' he
  · rintro id b (hgained | ⟨hold, hlost⟩) hclean
    · exact exec_purging hw.catalog h.rows hexec hgained
    · exact hkept.purging id b ⟨hold,Or.inr ⟨hold,hlost⟩⟩ hclean
  · rintro key (hgained | ⟨hold, hlost⟩) hlocked
    · exact (exec_removed hexec).1 key hgained
    · exact hkept.removed key ⟨hold,Or.inr ⟨hold,hlost⟩⟩ hlocked
  · rintro id (hgained | ⟨hold, hlost⟩) hlocked
    · exact (exec_removed hexec).2 id hgained
    · exact hkept.removedArtifacts id ⟨hold,Or.inr ⟨hold,hlost⟩⟩ hlocked

theorem FilesInv.apply_threads (h : FilesInv w.shared.now w know) (hw : WorldInv s True w know)
    (hslots : SlotsInv s w know) (happly : w.apply s enc ev = some w') :
    ∀ slot t, Executes w' slot t → Filed (w.shared.now + 1) w'.shared.catalog w'.shared.storage
      t.claimed (knows s enc w know ev slot) := by
  have others : ∀ {slot t}, Executes w slot t → knows s enc w know ev slot = know slot →
      Filed (w.shared.now + 1) w'.shared.catalog w'.shared.storage t.claimed
        (knows s enc w know ev slot) := fun ht hsame =>
    (h.kept hw hslots happly ht).mono le_rfl fun f hf => ⟨hsame ▸ hf,hf⟩
  cases ev with
  | claim slot =>
    obtain ⟨-,claimed,p,c,-,rfl⟩ := claim_ok happly
    intro slot' t ht
    rcases executes_setSlot.1 ht with ⟨rfl,hsome,-⟩ | ⟨hne,ht⟩
    · obtain rfl := resume_eq_some hsome
      simp only [knows, Function.update_self]
      exact filed_base
    · exact others ht (by simp only [knows, Function.update_of_ne hne])
  | work slot i =>
    obtain ⟨claimed,r,k,y,σ,hslot,hexec,hwork,hw'⟩ := work_ok happly
    have hknows : knows s enc w know (.work slot i) =
        Function.update know slot (next s claimed r (know slot) y) := by
      simp only [knows, hslot, hwork]
    subst hw'
    intro slot' t ht
    rcases executes_setSlot.1 ht with ⟨rfl,hsome,hexecuting⟩ | ⟨hne,ht⟩
    · obtain rfl := resume_eq_some hsome
      have hbefore : Executing ⟨claimed,.call r k⟩ := by
        intro hrelease
        have hprogram : Program.call r k = release claimed := hrelease
        cases hprogram
        cases hexec
        cases hsome
      rw [hknows, Function.update_self]
      exact h.own hw hslots ⟨hslot,hbefore⟩ hexec
        (by rw [hknows, Function.update_self]) happly
    · exact others ht (by rw [hknows, Function.update_of_ne hne])
  | upload y committed =>
    obtain ⟨m,-,rfl⟩ := upload_ok happly
    exact fun slot t ht => others ht rfl
  | decide y | retry id actor | delete id actor =>
    obtain ⟨c,-,rfl⟩ := commit_ok happly
    exact fun slot t ht => others ht rfl
  | recoverLeases | renewLeases | wait n =>
    cases happly
    exact fun slot t ht => others ht rfl
  | restart =>
    cases happly
    exact fun slot t ht => by cases ht.1

theorem FilesInv.apply (h : FilesInv w.shared.now w know) (hw : WorldInv s True w know)
    (hslots : SlotsInv s w know) (hsound : Sound s enc w know)
    (happly : w.apply s enc ev = some w') :
    FilesInv (w.shared.now + 1) w' (knows s enc w know ev) := by
  refine ⟨?_,fun d hd hnone => ?_,h.apply_threads hw hslots happly⟩
  · refine apply_rows hw (fun slot t a ht ha _ => ?_) (fun d hd r hr a ha => ?_) happly
    · exact ((h.threads slot t ht).written a ha).mono (Nat.le_succ _)
    · exact (h.rows d hd r hr a ha).mono (Nat.le_succ _)
  · obtain ⟨hfiles,hcontent⟩ := h.apply_purged hw hsound happly d hd hnone
    exact ⟨fun f hf howner => hfiles f (purged_files hw hsound happly hd hnone hf howner) howner,
      hcontent⟩

/-- As long as no late release disturbs an execution, purged documents stay empty. -/
theorem ReachableBy.files (h : ReachableBy s enc Undisturbed w) :
    ∃ know, WorldInv s True w know ∧ Sound s enc w know ∧ FilesInv w.shared.now w know := by
  suffices ∃ know, WorldInv s True w know ∧ SlotsInv s w know ∧ Sound s enc w know ∧
      FilesInv w.shared.now w know by
    obtain ⟨know,hw,-,hsound,hfiles⟩ := this
    exact ⟨know,hw,hsound,hfiles⟩
  induction h with
  | initial =>
    exact ⟨fun _ => ∅,initial_inv _,slots_initial _,sound_initial _,files_initial _ _⟩
  | @step w w' ev _ he hstep ih =>
    obtain ⟨know,hinv,hslots,hsound,h⟩ := ih
    refine ⟨_,step_inv hinv (fun _ => trivial) hstep,hslots.step hinv he hstep,?_,?_⟩
    all_goals
      unfold World.step at hstep
      obtain ⟨w₁,happly,rfl⟩ := Option.map_eq_some_iff.1 hstep
    · exact (hsound.apply hinv hslots happly).same rfl rfl rfl
    · have hchange : CatalogChange s True (fun _ => True) w.shared.now w.shared.catalog
          w₁.shared.catalog ∧ w₁.shared.now = w.shared.now ∧ _ :=
        apply_change hinv (fun _ => trivial) (fun _ _ => trivial) happly
      have hle : w.shared.now + 1 ≤ w₁.shared.now + ev.ticks + 1 := by
        rw [hchange.2.1]
        exact Nat.succ_le_succ (Nat.le_add_right _ _)
      have hafter := (h.apply hinv hslots hsound happly).mono hle
      exact ⟨hafter.rows,hafter.purged,hafter.threads⟩

end Lifecycle
end PdfBridge
