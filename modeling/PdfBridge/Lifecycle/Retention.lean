import PdfBridge.Lifecycle.Contents
import PdfBridge.Lifecycle.Idempotence
import PdfBridge.Managers.Server

/-! One retained copy for each content: the duplicate check of an admission holds for all documents
that are not in a terminal state, and each of them keeps its own canonical object until it is
deleted. -/
namespace PdfBridge
namespace Lifecycle
open Worker Api Intake Preparation

variable {s : Settings} {enc : Encoding} {now : Time} {worker : Uuid} {ref : OperationRef}
  {c c' : Catalog} {d d' : Document} {rejects : FailureCode → Prop} {strands : Prop}

/-! ### Artifact rows -/

/-- The keys of the artifact rows satisfy `P`. -/
def Rows (P : Uuid → StorageKey → Prop) (id : Uuid) (revisions : Table PreparedRevision.id) :
    Prop :=
  ∀ r, r ∈ revisions → ∀ a ∈ r.content.artifacts, P id a.storageKey

/-- No artifact row names a canonical object. -/
def NoObjects (_ : Uuid) (revisions : Table PreparedRevision.id) : Prop :=
  ∀ r, r ∈ revisions → ∀ a ∈ r.content.artifacts, ∀ id, a.storageKey ≠ .object id

variable {P : Uuid → StorageKey → Prop}

theorem rows_purgeable : Purgeable (Rows P) := by
  intro id revisions ids h r' hr' a ha
  obtain ⟨r,hr,rfl⟩ := Table.mem_update.1 hr'
  unfold emptyContent at ha
  split at ha
  · exact absurd ha (List.not_mem_nil)
  · exact h r hr a ha

theorem Rows.put {id : Uuid} {revisions : Table PreparedRevision.id} {r : PreparedRevision}
    (h : Rows P id revisions) (hr : ∀ a ∈ r.content.artifacts, P id a.storageKey) :
    Rows P id (revisions.put r) := by
  intro x hx
  rcases Table.mem_put.1 hx with rfl | ⟨hx,-⟩
  · exact hr
  · exact h x hx

/-- A stage of a preparation adds no artifact row but the one that it inserts. -/
theorem stage_rows (hc : Holds (Rows P) c) {r : CatalogRequest} {a : r.Response}
    (hr : writesRevision r = true)
    (hinsert : ∀ id x, r = .insertArtifact id x → P ref.documentId x.storageKey)
    (h : r.run s enc now worker ref c = .ok (a,c')) : Holds (Rows P) c' := by
  have put : ∀ {d : Document} {r : PreparedRevision}, d ∈ c.documents →
      (∀ a ∈ r.content.artifacts, P d.id a.storageKey) →
      Holds (Rows P) (c.put (d.putRevision r)) := by
    intro d r hd hr e he
    rcases mem_put.1 he with rfl | ⟨he,-⟩
    · exact (hc d hd).put hr
    · exact hc e he
  have mem : ∀ {d : Document} {id : Uuid}, c.document? id = some d → d ∈ c.documents :=
    fun hd => Catalog.mem_of_document? hd
  cases r with
  | beginPreparation =>
    obtain ⟨d,d',hd,hrun,rfl⟩ := onDocument_ok h
    simp only [beginPreparation, bind_eq_ok, require_eq_ok, exists_const, pure_eq_ok,
      Prod.mk.injEq] at hrun
    obtain ⟨-,-,rfl⟩ := hrun
    exact put (mem hd) fun a ha => absurd ha List.not_mem_nil
  | recordExtraction =>
    obtain ⟨d,d',hd,hrun,rfl⟩ := onDocument_ok h
    simp only [recordExtraction, bind_eq_ok, require_eq_ok, exists_const, pure_eq_ok,
      Prod.mk.injEq] at hrun
    obtain ⟨-,-,r,hload,-,-,rfl⟩ := hrun
    exact put (mem hd) (hc d (mem hd) r (loadStage_ok hload).1)
  | recordFormatting =>
    obtain ⟨d,d',hd,hrun,rfl⟩ := onDocument_ok h
    simp only [recordFormatting, bind_eq_ok, require_eq_ok, exists_const, pure_eq_ok,
      Prod.mk.injEq] at hrun
    obtain ⟨r,hload,-,-,-,-,-,rfl⟩ := hrun
    exact put (mem hd) (hc d (mem hd) r (loadStage_ok hload).1)
  | recordChunkVectors =>
    obtain ⟨d,d',hd,hrun,rfl⟩ := onDocument_ok h
    simp only [recordChunkVectors, bind_eq_ok, require_eq_ok, exists_const, pure_eq_ok,
      Prod.mk.injEq] at hrun
    obtain ⟨-,r,hload,-,-,-,-,rfl⟩ := hrun
    exact put (mem hd) (hc d (mem hd) r (loadStage_ok hload).1)
  | failPreparation =>
    obtain ⟨d,d',hd,hrun,rfl⟩ := onDocument_ok h
    simp only [Preparation.failPreparation, loadRevision, bind_eq_ok, orRaise_eq_ok,
      require_eq_ok, exists_const, ite_eq_ok, pure_eq_ok, Prod.mk.injEq] at hrun
    obtain ⟨r,hlookup,-,⟨-,-,rfl⟩ | ⟨-,-,rfl⟩⟩ := hrun
    · intro e he
      rcases mem_put.1 he with rfl | ⟨he,-⟩
      · exact hc _ (mem hd)
      · exact hc e he
    · exact put (mem hd) (hc d (mem hd) r (Table.mem_of_lookup hlookup))
  | insertArtifact id x =>
    obtain ⟨d,d',hd,hrun,rfl⟩ := onDocument_ok h
    simp only [Worker.insertArtifact, bind_eq_ok, orRaise_eq_ok, require_eq_ok, exists_const,
      pure_eq_ok, Prod.mk.injEq] at hrun
    obtain ⟨r,hlookup,-,-,rfl⟩ := hrun
    refine put (mem hd) fun a ha => ?_
    rcases List.mem_append.1 ha with ha | ha
    · exact hc d (mem hd) r (Table.mem_of_lookup hlookup) a ha
    · rw [List.mem_singleton.1 ha, Catalog.id_of_document? hd]
      exact hinsert id x rfl
  | recordPreflightCandidates =>
    obtain ⟨d,d',hd,hrun,rfl⟩ := onDocument_ok h
    simp only [recordPreflightCandidates, bind_eq_ok, require_eq_ok, exists_const, pure_eq_ok,
      Prod.mk.injEq] at hrun
    obtain ⟨-,-,r,hload,-,-,-,rows,-,-,rfl⟩ := hrun
    exact put (mem hd) (hc d (mem hd) r (loadStage_ok hload).1)
  | appendAdvisoryEvidence =>
    obtain ⟨d,d',hd,hrun,rfl⟩ := onDocument_ok h
    simp only [appendAdvisoryEvidence, bind_eq_ok, require_eq_ok, exists_const, pure_eq_ok,
      Prod.mk.injEq] at hrun
    obtain ⟨r,hload,-,rows,-,-,rfl⟩ := hrun
    exact put (mem hd) (hc d (mem hd) r (loadStage_ok hload).1)
  | sealPreparedRevision =>
    obtain ⟨d,d',hd,hrun,rfl⟩ := onDocument_ok h
    obtain ⟨r,r',hr,-,-,hseals,rfl,-⟩ := sealPreparedRevision_ok hrun
    refine put (mem hd) ?_
    rw [hseals.content]
    exact hc d (mem hd) r hr
  | _ => cases hr

/-! ### Documents -/

/-- The newest operation of a terminal document is closed. -/
theorem DocumentInv.closed_of_terminal (h : DocumentInv s now d)
    (hs : terminalState d.state = true) {o : WorkOperation} (ho : newest d = some o) :
    o.isOpen = false := by
  obtain ⟨o',ho',hstanding⟩ := h.standing
  rw [ho] at ho'
  cases ho'
  have hexpected : ∀ b, (expected d.state b).2 = .succeeded := by
    intro b
    cases hstate : d.state <;> rw [hstate] at hs <;> cases b <;> first | rfl | cases hs
  exact isOpen_of_ending ((congrArg Prod.snd hstanding.shape).trans (hexpected _)) (by decide)

/-- An open operation of a document that is being deleted is its own deletion. -/
theorem DocumentInv.delete_of_open (h : DocumentInv s now d) (hs : deletionState d.state = true)
    {o : WorkOperation} (ho : newest d = some o) (hopen : o.isOpen = true) :
    o.operationType = .delete := by
  obtain ⟨o',ho',hstanding⟩ := h.standing
  rw [ho] at ho'
  cases ho'
  have hexpected : ∀ b, (expected d.state b).2 = .pending → (expected d.state b).1 = .delete := by
    intro b hpending
    cases hstate : d.state <;> rw [hstate] at hs hpending <;> cases b <;>
      first | rfl | exact absurd hpending (by decide) | cases hs
  have hpending := (congrArg Prod.snd hstanding.shape).symm.trans (isOpen_iff.1 hopen)
  exact (congrArg Prod.fst hstanding.shape).trans (hexpected _ hpending)

/-- No transition leaves a terminal state. -/
theorem Change.terminal_kept (hc : Change s rejects now d d') (h : DocumentInv s now d)
    (hs : terminalState d.state = true) : d'.state = d.state := by
  have closed : ∀ {o : WorkOperation}, newest d = some o → o.isOpen = true →
      d'.state = d.state := by
    intro o ho hopen
    rw [h.closed_of_terminal hs ho] at hopen
    cases hopen
  have absent : ∀ {x : DocumentState}, d.state = x → terminalState x = false →
      d'.state = d.state := by
    intro x hx hterminal
    rw [hx, hterminal] at hs
    cases hs
  cases hc with
  | review hstate | approve hstate | reject hstate | publish hstate | decide hstate
  | cancel hstate | yield_ hstate | failYielded hstate | resumeYielded hstate
  | retryPreflight hstate | retryPublish hstate | retryDelete hstate => exact absent hstate rfl
  | bury hp hpurged hstate => exact absent hstate rfl
  | delete hstate => rcases hstate with hx | hx | hx | hx <;> exact absent hx rfl
  | fail ho hopen => exact closed ho hopen
  | buryOwn hp hpurged ho hopen => exact closed ho hopen
  | _ => rfl

/-- A deletion that has begun is never taken back. -/
theorem Change.deletion_kept (hc : Change s rejects now d d') (h : DocumentInv s now d)
    (hs : deletionState d.state = true) : deletionState d'.state = true := by
  obtain ⟨p,hp,-⟩ := h.deletion.progress hs
  have absent : ∀ {x : DocumentState}, d.state = x → deletionState x = false →
      deletionState d'.state = true := by
    intro x hx hdeletion
    rw [hx, hdeletion] at hs
    cases hs
  cases hc with
  | review hstate | approve hstate | publish hstate | decide hstate
  | retryPreflight hstate | retryPublish hstate => exact absent hstate rfl
  | reject | cancel | yield_ | failYielded | resumeYielded | retryDelete | delete => rfl
  | bury | buryOwn => simp [tombstoned, Document.putOperation]
  | @fail o o' ho hopen hsettle hfailed code message outbox =>
    show deletionState (failDocument o code message o'.retryable (d.putOperation o')).state = true
    unfold failDocument
    rw [h.delete_of_open hs ho hopen]
    rfl
  | _ => exact hs

/-! ### Canonical objects -/

variable {w w' : World} {e : Event} {know : Slot → Knowledge} {x : ClaimedOperation}
  {K : Knowledge} {σ σ' : Shared}

/-- The canonical object of a document. -/
def canonicalObject (d : Document) : StoredFile := ⟨.object d.id,.source d.intake.sha256⟩

/-- What the knowledge of a thread about files refers to: artifacts that it wrote, and the content of
documents that are being deleted. -/
structure Binds (c : Catalog) (K : Knowledge) : Prop where
  written : ∀ a, .written a ∈ K → ∀ id, a.storageKey ≠ .object id
  purging : ∀ id b, .purging id b ∈ K →
    (∃ d, d ∈ c.documents ∧ d.id = id ∧ deletionState d.state = true) ∧
    ∀ key ∈ b.storageKey :: b.artifactKeys, ∀ other, key = .object other → other = id

theorem binds_base : Binds c base where
  written := fun a ha => by simp [base] at ha
  purging := fun id b hb => by simp [base] at hb

theorem Binds.change (h : Binds c K) (hinv : CatalogInv s strands now c)
    (hc : CatalogChange s strands rejects now c c') : Binds c' K where
  written := h.written
  purging := by
    intro id b hb
    obtain ⟨⟨d,hd,hid,hs⟩,hkeys⟩ := h.purging id b hb
    obtain ⟨d',hd',hchange⟩ := hc.forward hinv hd
    exact ⟨⟨d',hd',hchange.id.trans hid,hchange.deletion_kept (hinv.documents d hd) hs⟩,hkeys⟩

/-- A purge binding names the content of a document that is being deleted. -/
theorem purgeBinding_binds (hinv : CatalogInv s strands now c) (hrows : Holds NoObjects c)
    {id : Uuid} {b : PurgeBinding} (h : purgeBinding worker ref id c = .ok b) :
    (∃ d, d ∈ c.documents ∧ d.id = id ∧ deletionState d.state = true) ∧
    ∀ key ∈ b.storageKey :: b.artifactKeys, ∀ other, key = .object other → other = id := by
  simp only [purgeBinding, bind_eq_ok, orRaise_eq_ok, require_eq_ok, exists_const, Prod.exists,
    pure_eq_ok] at h
  obtain ⟨-,-,-,d,hd,p,hp,-,key,hkey,rfl⟩ := h
  have hmem := Catalog.mem_of_document? hd
  have hid := Catalog.id_of_document? hd
  have hprogress := (hinv.documents d hmem).deletion.of_some hp
  refine ⟨⟨d,hmem,hid,?_⟩,?_⟩
  · rcases hprogress.state with hs | hs | hs <;> rw [hs]
    · rfl
    · rfl
    · exact deletionState_toState _
  · intro k hk other he
    rcases List.mem_cons.1 hk with rfl | hk
    · have hsource := hprogress.source
      rw [hkey] at hsource
      split at hsource
      · cases hsource
      · cases hsource
        cases he
        exact hid
    · obtain ⟨r,hr,hk⟩ := List.mem_flatMap.1 hk
      obtain ⟨a,ha,rfl⟩ := List.mem_map.1 hk
      exact absurd he (hrows d hmem r hr a ha other)

theorem not_gained_written {r : CatalogRequest} {a : Except ServiceError r.Response}
    {art : RevisionArtifact} : ¬ gained s x K (.catalog r) a (.written art) := by
  intro h
  cases r with
  | reconstructChunkPoints id sealed_ => cases sealed_ <;> cases a <;> simp [gained] at h
  | _ => cases a <;> simp [gained] at h

/-- The answer to a permitted request keeps what the knowledge of the thread refers to. -/
theorem Binds.next (h : Binds σ'.catalog K) (hinv : CatalogInv s strands σ.now σ.catalog)
    (hc : CatalogChange s strands rejects σ.now σ.catalog σ'.catalog)
    (hrows : Holds NoObjects σ.catalog) {i : Input} {r : Request}
    {a : Except ServiceError r.Response} (hexec : exec s enc ref i σ r = some (a,σ')) :
    Binds σ'.catalog (Lifecycle.next s x r K a) := by
  constructor
  · rintro art (hgained | ⟨hold,-⟩)
    · cases r with
      | files r =>
        rcases exec_files hexec with ⟨b,hb,rfl,-⟩ | ⟨err,rfl,-⟩
        · cases r with
          | writeArtifact =>
            cases hb
            cases hgained
            exact fun id he => nomatch he
          | _ => cases hgained
        · cases r <;> exact hgained.elim
      | catalog r => exact absurd hgained not_gained_written
      | points r => cases r <;> cases a <;> simp [gained] at hgained
      | _ => cases a <;> exact hgained.elim
    · exact h.written art hold
  · rintro id b (hgained | ⟨hold,-⟩)
    · cases r with
      | catalog r =>
        rcases exec_catalog hexec with ⟨y,c,hrun,rfl,rfl⟩ | ⟨err,rfl,-,-⟩
        · cases r with
          | purgeBinding id₁ =>
            cases hgained
            obtain ⟨rfl,hy⟩ := reading_ok hrun
            exact purgeBinding_binds hinv hrows hy
          | reconstructChunkPoints id₁ sealed_ => cases sealed_ <;> simp [gained] at hgained
          | _ => simp [gained] at hgained
        · cases r <;> simp [gained] at hgained
      | points r => cases r <;> cases a <;> simp [gained] at hgained
      | files r => cases r <;> cases a <;> simp [gained] at hgained
      | _ => cases a <;> exact hgained.elim
    · exact h.purging id b hold

/-- Every canonical object is still there, unless its document is being deleted. -/
structure KeepsObjects (c : Catalog) (st st' : Storage) : Prop where
  kept : ∀ f, f ∈ st.files → ∀ id, f.key = .object id →
    (∀ d, d ∈ c.documents → d.id = id → deletionState d.state = false) → f ∈ st'.files
  old : ∀ f, f ∈ st'.files → ∀ id, f.key = .object id → f ∈ st.files

theorem KeepsObjects.refl (c : Catalog) (st : Storage) : KeepsObjects c st st :=
  ⟨fun _ hf _ _ _ => hf,fun _ hf _ _ => hf⟩

theorem KeepsObjects.remove {st : Storage} {key : StorageKey}
    (h : ∀ id, key = .object id → ∃ d, d ∈ c.documents ∧ d.id = id ∧
      deletionState d.state = true) : KeepsObjects c st (st.remove key) := by
  refine ⟨fun f hf id hkey hlive => ?_,fun f hf _ _ => (Table.mem_keep.1 hf).1⟩
  refine Table.mem_keep.2 ⟨hf,decide_eq_true fun he => ?_⟩
  obtain ⟨d,hd,hid,hs⟩ := h id (he.symm.trans hkey)
  rw [hlive d hd hid] at hs
  cases hs

/-- A permitted file operation keeps the objects of documents that are not being deleted. -/
theorem effect_keepsObjects (hbinds : Binds c K) {r : FileRequest} (hp : permitsFiles x K r)
    (st : Storage) : KeepsObjects c st (r.effect now st) := by
  cases r with
  | isFile key => exact KeepsObjects.refl c st
  | writeArtifact documentId revisionId kind sequence material =>
    constructor
    · intro f hf id hkey _
      refine Table.mem_put.2 (Or.inr ⟨hf,fun he => ?_⟩)
      rw [hkey] at he
      cases he
    · intro f hf id hkey
      rcases Table.mem_put.1 hf with rfl | ⟨hf,-⟩
      · cases hkey
      · exact hf
  | remove key missingOk =>
    refine KeepsObjects.remove fun id hkey => ?_
    obtain ⟨-,⟨a,ha,rfl⟩ | ⟨owner,b,-,hb,hmem⟩⟩ := hp
    · exact absurd hkey (hbinds.written a ha id)
    · obtain ⟨hdeleted,hkeys⟩ := hbinds.purging owner b hb
      obtain rfl := hkeys key hmem id hkey
      exact hdeleted
  | removeArtifacts documentId =>
    refine ⟨fun f hf id hkey _ => ?_,fun f hf _ _ => (Table.mem_keep.1 hf).1⟩
    refine Table.mem_keep.2 ⟨hf,?_⟩
    rw [hkey]
    rfl

theorem exec_keepsObjects (hbinds : Binds σ.catalog K) {i : Input} {r : Request}
    {a : Except ServiceError r.Response} (hp : permits s x r K)
    (h : exec s enc ref i σ r = some (a,σ')) :
    KeepsObjects σ.catalog σ.storage σ'.storage := by
  cases r with
  | catalog r =>
    rcases exec_catalog h with ⟨b,c,-,-,rfl⟩ | ⟨err,-,rfl,-⟩ <;> exact KeepsObjects.refl _ _
  | points r =>
    rcases exec_points h with ⟨b,-,-,rfl⟩ | ⟨err,-,rfl | rfl⟩ <;> exact KeepsObjects.refl _ _
  | files r =>
    have heffect : KeepsObjects σ.catalog σ.storage (r.effect σ.now σ.storage) :=
      effect_keepsObjects hbinds hp σ.storage
    rcases exec_files h with ⟨b,-,-,rfl⟩ | ⟨err,-,rfl | rfl⟩
    · exact heffect
    · exact KeepsObjects.refl _ _
    · exact heffect
  | provider r =>
    simp only [exec, Option.map_eq_some_iff] at h
    obtain ⟨b,-,hb⟩ := h
    cases hb
    exact KeepsObjects.refl _ _
  | release claimed =>
    cases h
    exact KeepsObjects.refl _ _
  | raise err =>
    cases h
    exact KeepsObjects.refl _ _

/-! ### The invariant -/

/-- At most one retained document for each content of a collection. -/
def OneCopy (c : Catalog) : Prop :=
  ∀ d, d ∈ c.documents → ∀ d', d' ∈ c.documents → terminalState d.state = false →
    terminalState d'.state = false → d.intake.collectionKey = d'.intake.collectionKey →
    d.intake.sha256 = d'.intake.sha256 → d = d'

/-- A document that is not being deleted has its canonical object, under its own key. -/
def OwnObjects (c : Catalog) (st : Storage) : Prop :=
  ∀ d, d ∈ c.documents → deletionState d.state = false →
    d.storageKey = some (canonicalObject d).key ∧ canonicalObject d ∈ st.files

/-- Every canonical object was promoted by an admission before now. -/
def PromotedBefore (now : Time) (st : Storage) : Prop :=
  ∀ f, f ∈ st.files → ∀ id, f.key = .object id → ∃ t < now, id = uuid4 t 0

structure RetentionInv (w : World) (know : Slot → Knowledge) : Prop where
  copies : OneCopy w.shared.catalog
  objects : OwnObjects w.shared.catalog w.shared.storage
  promoted : PromotedBefore w.shared.now w.shared.storage
  rows : Holds NoObjects w.shared.catalog
  threads : ∀ slot t, w.slots slot = some t → Binds w.shared.catalog (know slot)

theorem PromotedBefore.mono {st : Storage} {now now' : Time} (h : PromotedBefore now st)
    (hle : now ≤ now') : PromotedBefore now' st := by
  intro f hf id hkey
  obtain ⟨t,ht,hid⟩ := h f hf id hkey
  exact ⟨t,ht.trans_le hle,hid⟩

theorem retention_initial (know : Slot → Knowledge) : RetentionInv World.initial know where
  copies := fun d hd => absurd hd (Table.not_mem_empty d)
  objects := fun d hd => absurd hd (Table.not_mem_empty d)
  promoted := fun f hf => absurd hf (Table.not_mem_empty f)
  rows := fun d hd => absurd hd (Table.not_mem_empty d)
  threads := fun _ _ h => nomatch h

/-- Transitions of documents that were there keep the copies apart. -/
theorem OneCopy.change (h : OneCopy c) (hinv : CatalogInv s strands now c)
    (hold : ∀ d', d' ∈ c'.documents → ∃ d, d ∈ c.documents ∧ Change s rejects now d d') :
    OneCopy c' := by
  intro d' hd' e' he' hs' hse' hkey hsha
  obtain ⟨d,hd,hdc⟩ := hold d' hd'
  obtain ⟨e,he,hec⟩ := hold e' he'
  have live : ∀ {x x' : Document}, x ∈ c.documents → Change s rejects now x x' →
      terminalState x'.state = false → terminalState x.state = false := by
    intro x x' hx hxc hs
    by_contra hne
    have hterminal := Bool.eq_true_of_not_eq_false hne
    rw [hxc.terminal_kept (hinv.documents x hx) hterminal, hterminal] at hs
    cases hs
  rw [hdc.intake, hec.intake] at hkey hsha
  have hsame := h d hd e he (live hd hdc hs') (live he hec hse') hkey hsha
  exact Table.eq_of_key_eq hd' he' (hdc.id.trans ((congrArg _ hsame).trans hec.id.symm))

/-- The objects of documents that were there stay. -/
theorem OwnObjects.change {st st' : Storage} (h : OwnObjects c st)
    (hinv : CatalogInv s strands now c) (hinv' : CatalogInv s strands (now + 1) c')
    (hold : ∀ d', d' ∈ c'.documents → ∃ d, d ∈ c.documents ∧ Change s rejects now d d')
    (hst : KeepsObjects c st st') : OwnObjects c' st' := by
  intro d' hd' hs'
  obtain ⟨d,hd,hc⟩ := hold d' hd'
  have hs : deletionState d.state = false := by
    by_contra hne
    rw [hc.deletion_kept (hinv.documents d hd) (Bool.eq_true_of_not_eq_false hne)] at hs'
    cases hs'
  obtain ⟨-,hfile⟩ := h d hd hs
  refine ⟨((hinv'.documents d' hd').deletion.live hs').2.source,?_⟩
  have hsame : canonicalObject d' = canonicalObject d := by
    unfold canonicalObject
    rw [hc.id, hc.intake]
  rw [hsame]
  refine hst.kept _ hfile d.id rfl fun e he hid => ?_
  rw [Table.eq_of_key_eq he hd hid]
  exact hs

/-! ### Steps -/

theorem registerAdmission_ok {y : PreparedAdmission} {m : MutationOutcome}
    (h : registerAdmission s now y c = .ok m) :
    findExactDuplicate c y.collectionKey y.sha256 = none ∧ m.catalog = c.put (admitted now y) := by
  simp only [registerAdmission, bind_eq_ok, require_eq_ok, exists_const, Prod.exists,
    pure_eq_ok] at h
  obtain ⟨-,-,hnone,o,d,henqueue,rfl⟩ := h
  obtain ⟨-,-,-,-,rfl⟩ := enqueueOperation_ok henqueue
  exact ⟨hnone,rfl⟩

/-- Promoting a new object overwrites no file. -/
theorem promote_keeps {st : Storage} (h : PromotedBefore now st) (y : PreparedAdmission)
    {f : StoredFile} (hf : f ∈ st.files) : f ∈ (st.write (sourceFile now y)).files := by
  refine Table.mem_put.2 (Or.inr ⟨hf,fun he => ?_⟩)
  obtain ⟨t,ht,hid⟩ := h f hf _ he
  have hnow : now = t := congrArg Uuid.drawnAt hid
  exact absurd ht (by rw [hnow]; exact lt_irrefl _)

theorem PromotedBefore.promote {st : Storage} (h : PromotedBefore now st)
    (y : PreparedAdmission) : PromotedBefore (now + 1) (st.write (sourceFile now y)) := by
  intro f hf id hkey
  rcases Table.mem_put.1 hf with rfl | ⟨hf,-⟩
  · cases hkey
    exact ⟨now,Nat.lt_succ_self now,rfl⟩
  · exact h.mono (Nat.le_succ now) f hf id hkey

/-- The admitted document is the only one with its content. -/
theorem OneCopy.arrive (h : OneCopy c) {y : PreparedAdmission}
    (hnone : findExactDuplicate c y.collectionKey y.sha256 = none) :
    OneCopy (c.put (admitted now y)) := by
  have hfree : ∀ d, d ∈ c.documents → terminalState d.state = false →
      d.intake.collectionKey = y.collectionKey → d.intake.sha256 = y.sha256 → False := by
    intro d hd hs hkey hsha
    have := List.find?_eq_none.1 hnone d hd
    simp [hkey, hsha, hs] at this
  intro d hd d' hd' hs hs' hkey hsha
  rcases mem_put.1 hd with rfl | ⟨hd,-⟩ <;> rcases mem_put.1 hd' with rfl | ⟨hd',-⟩
  · rfl
  · exact (hfree d' hd' hs' hkey.symm hsha.symm).elim
  · exact (hfree d hd hs hkey hsha).elim
  · exact h d hd d' hd' hs hs' hkey hsha

/-- The admitted document has the object that was promoted for it. -/
theorem OwnObjects.arrive {st : Storage} (h : OwnObjects c st) (hst : PromotedBefore now st)
    (y : PreparedAdmission) :
    OwnObjects (c.put (admitted now y)) (st.write (sourceFile now y)) := by
  intro d hd hs
  rcases mem_put.1 hd with rfl | ⟨hd,-⟩
  · exact ⟨rfl,Table.mem_put_self _ _⟩
  · obtain ⟨hkey,hfile⟩ := h d hd hs
    exact ⟨hkey,promote_keeps hst y hfile⟩

/-- An event that admits nothing and keeps the objects. -/
theorem RetentionInv.moved (h : RetentionInv w know) (hinv : WorldInv s True w know)
    (he : ¬ Admits e) (happly : w.apply s enc e = some w')
    (hst : KeepsObjects w.shared.catalog w.shared.storage w'.shared.storage) :
    OneCopy w'.shared.catalog ∧ OwnObjects w'.shared.catalog w'.shared.storage ∧
      PromotedBefore (w.shared.now + 1) w'.shared.storage := by
  have hchange : CatalogChange s True (fun _ => True) w.shared.now w.shared.catalog
      w'.shared.catalog := (apply_change hinv (fun _ => trivial) (fun _ _ => trivial) happly).1
  have hold : ∀ d', d' ∈ w'.shared.catalog.documents → ∃ d, d ∈ w.shared.catalog.documents ∧
      Change s (fun _ => True) w.shared.now d d' := fun _ => apply_documents hinv he happly
  refine ⟨h.copies.change hinv.catalog hold,
    h.objects.change hinv.catalog (hchange.inv hinv.catalog) hold hst,fun f hf id hkey => ?_⟩
  exact h.promoted.mono (Nat.le_succ _) f (hst.old f hf id hkey) id hkey

/-- The rows of an event name no new object. -/
theorem RetentionInv.apply_rows (h : RetentionInv w know) (hinv : WorldInv s True w know)
    (happly : w.apply s enc e = some w') : Holds NoObjects w'.shared.catalog := by
  refine apply_holds hinv (rows_purgeable (P := fun _ key => ∀ id, key ≠ .object id))
    (fun _ _ r hr => absurd hr (Table.not_mem_empty r)) ?_ h.rows happly
  intro slot t r a c hslot hp hr hrun
  refine stage_rows (P := fun _ key => ∀ id, key ≠ .object id) h.rows hr ?_ hrun
  rintro id art rfl other
  exact (h.threads slot t hslot).written art hp.2 other

theorem RetentionInv.apply_threads (h : RetentionInv w know) (hinv : WorldInv s True w know)
    (happly : w.apply s enc e = some w') :
    ∀ slot t, w'.slots slot = some t → Binds w'.shared.catalog (knows s enc w know e slot) := by
  have hchange : CatalogChange s True (fun _ => True) w.shared.now w.shared.catalog
      w'.shared.catalog := (apply_change hinv (fun _ => trivial) (fun _ _ => trivial) happly).1
  have kept : ∀ slot t, w.slots slot = some t → Binds w'.shared.catalog (know slot) :=
    fun slot t ht => (h.threads slot t ht).change hinv.catalog hchange
  cases e with
  | claim slot =>
    obtain ⟨hslot,claimed,p,c,hclaim,rfl⟩ := claim_ok happly
    intro slot' t ht
    simp only [World.setSlot, Function.update_apply] at ht
    simp only [knows, Function.update_apply]
    split
    · exact binds_base
    · rename_i hne
      rw [if_neg hne] at ht
      exact kept slot' t ht
  | work slot i =>
    obtain ⟨claimed,r,k,a,σ,hslot,hexec,hwork,rfl⟩ := work_ok happly
    intro slot' t ht
    simp only [World.setSlot, Function.update_apply] at ht
    simp only [knows, hslot, hwork, Function.update_apply]
    split
    · exact (kept slot _ hslot).next hinv.catalog hchange h.rows hexec
    · rename_i hne
      rw [if_neg hne] at ht
      exact kept slot' t ht
  | upload x committed =>
    obtain ⟨m,-,rfl⟩ := upload_ok happly
    exact kept
  | decide x | retry id actor | delete id actor =>
    obtain ⟨c,-,rfl⟩ := commit_ok happly
    exact kept
  | recoverLeases | renewLeases | wait n =>
    cases happly
    exact kept
  | restart =>
    cases happly
    intro _ _ ht
    cases ht

/-- Every step keeps one copy of each content. -/
theorem RetentionInv.step (h : RetentionInv w know) (hinv : WorldInv s True w know)
    (hstep : w.step s enc e = some w') : RetentionInv w' (knows s enc w know e) := by
  unfold World.step at hstep
  obtain ⟨w₁,happly,rfl⟩ := Option.map_eq_some_iff.1 hstep
  have hchange : CatalogChange s True (fun _ => True) w.shared.now w.shared.catalog
      w₁.shared.catalog ∧ w₁.shared.now = w.shared.now ∧ _ :=
    apply_change hinv (fun _ => trivial) (fun _ _ => trivial) happly
  have hnow := hchange.2.1
  have hparts : OneCopy w₁.shared.catalog ∧ OwnObjects w₁.shared.catalog w₁.shared.storage ∧
      PromotedBefore (w.shared.now + 1) w₁.shared.storage := by
    cases e with
    | upload y committed =>
      obtain ⟨m,hm,rfl⟩ := upload_ok happly
      obtain ⟨hnone,hcatalog⟩ := registerAdmission_ok hm
      cases committed with
      | true =>
        simp only [if_true, hcatalog]
        exact ⟨h.copies.arrive hnone,h.objects.arrive h.promoted y,h.promoted.promote y⟩
      | false =>
        refine ⟨h.copies,fun d hd hs => ?_,h.promoted.promote y⟩
        obtain ⟨hkey,hfile⟩ := h.objects d hd hs
        exact ⟨hkey,promote_keeps h.promoted y hfile⟩
    | work slot i =>
      refine h.moved hinv id happly ?_
      obtain ⟨claimed,r,k,a,σ,hslot,hexec,-,rfl⟩ := work_ok happly
      exact exec_keepsObjects (h.threads slot _ hslot) (hinv.threads slot _ hslot).follows.1 hexec
    | claim slot =>
      refine h.moved hinv id happly ?_
      obtain ⟨-,claimed,p,c,-,rfl⟩ := claim_ok happly
      exact KeepsObjects.refl _ _
    | decide x | retry id₁ actor | delete id₁ actor =>
      refine h.moved hinv id happly ?_
      obtain ⟨c,-,rfl⟩ := commit_ok happly
      exact KeepsObjects.refl _ _
    | recoverLeases | renewLeases | wait n | restart =>
      refine h.moved hinv id happly ?_
      cases happly
      exact KeepsObjects.refl _ _
  have hrows := h.apply_rows hinv happly
  have hthreads := h.apply_threads hinv happly
  refine ⟨hparts.1,hparts.2.1,hparts.2.2.mono ?_,hrows,hthreads⟩
  show w.shared.now + 1 ≤ w₁.shared.now + e.ticks + 1
  rw [hnow]
  exact Nat.succ_le_succ (Nat.le_add_right _ _)

theorem ReachableBy.retention {P : World → Event → Prop} (h : ReachableBy s enc P w) :
    ∃ know, WorldInv s True w know ∧ RetentionInv w know := by
  induction h with
  | initial => exact ⟨fun _ => ∅,initial_inv _,retention_initial _⟩
  | step _ _ hstep ih =>
    obtain ⟨know,hinv,h⟩ := ih
    exact ⟨_,step_inv hinv (fun _ => trivial) hstep,h.step hinv hstep⟩

end Lifecycle

namespace Server
open Idempotency Lifecycle

variable {s : Settings} {enc : Encoding} {canonical : Canonical} {σ σ' : Server s}
  {r : Idempotency.Request s}

/-! ### Requests and the system -/

theorem runMutation_of_response {x : Intake.MutationOutcome} {body : ResponseBody}
    {y : Outcome Intake.MutationOutcome} (hy : y = .ok x) (h : responseBody x = .ok body) :
    Api.runMutation y = .ok x.catalog := by
  subst hy
  unfold responseBody at h
  cases hresponse : Api.mutationResponse x with
  | error e =>
    rw [hresponse] at h
    cases h
  | ok z => simp only [Api.runMutation, bind, Except.bind, hresponse, pure, Except.pure]

/-- A served request is one step of the system, and the records stay complete. -/
theorem serve_step (h : RecordsInv canonical σ.service) (fault : ℕ → Option Fault) :
    (∃ e, σ.world.step s enc e = some (σ.serve canonical r fault).world) ∧
      RecordsInv canonical (σ.serve canonical r fault).service := by
  have hends := Serves.cases (@serve_ends s canonical ⟨σ.world.shared.now,fault⟩ σ.service r h)
  unfold Server.serve
  generalize σ.service.serve canonical ⟨σ.world.shared.now,fault⟩ r = z at hends ⊢
  obtain ⟨answer,v⟩ := z
  rcases hends with ⟨body,-,hcommits⟩ | ⟨hsame,-⟩
  · refine ⟨?_,h.commits hcommits⟩
    obtain ⟨m,hm,hbody,hcatalog⟩ := hcommits.outcome
    have hstorage := hcommits.storage
    obtain ⟨⟨catalog,records⟩,storage⟩ := v
    simp only at hcatalog hstorage
    subst hcatalog hstorage
    unfold Request.outcome at hm
    split at hm
    · rename_i x hx hr
      have hrun : Api.runMutation (Api.registerAdmission s σ.world.shared.now x
          σ.world.shared.catalog) = .ok m.catalog := runMutation_of_response hm hbody
      refine ⟨.upload x true,?_⟩
      simp only [World.step, World.apply, World.upload, hrun, Option.map_some, if_true]
      rw [Request.storage_upload hr]
      rfl
    · rename_i y hr
      cases y with
      | decide x =>
        have hrun : Api.runMutation (Api.decideDocument s σ.world.shared.now x
            σ.world.shared.catalog) = .ok m.catalog := runMutation_of_response hm hbody
        refine ⟨.decide x,?_⟩
        simp only [World.step, World.apply, World.commit, hrun, Option.map_some]
        rw [Request.storage_mutation hr]
        rfl
      | retry id actor =>
        have hrun : Api.runMutation (Api.retryDocument σ.world.shared.now id actor
            σ.world.shared.catalog) = .ok m.catalog := runMutation_of_response hm hbody
        refine ⟨.retry id actor,?_⟩
        simp only [World.step, World.apply, World.commit, hrun, Option.map_some]
        rw [Request.storage_mutation hr]
        rfl
      | delete id actor =>
        have hrun : Api.runMutation (Api.deleteDocument s σ.world.shared.now id actor
            σ.world.shared.catalog) = .ok m.catalog := runMutation_of_response hm hbody
        refine ⟨.delete id actor,?_⟩
        simp only [World.step, World.apply, World.commit, hrun, Option.map_some]
        rw [Request.storage_mutation hr]
        rfl
  · obtain rfl : v = σ.service := hsame
    exact ⟨⟨.wait 0,rfl⟩,h⟩

/-- The world of a reachable service is reachable, and its records are complete. -/
theorem Reachable.system (h : Reachable enc canonical σ) :
    Lifecycle.Reachable s enc σ.world ∧ RecordsInv canonical σ.service := by
  induction h with
  | initial => exact ⟨ReachableBy.initial,fun row hrow => absurd hrow (Table.not_mem_empty row)⟩
  | step _ hstep ih =>
    obtain ⟨hw,hrecords⟩ := ih
    cases hstep with
    | receive r => exact ⟨hw,hrecords⟩
    | serve hwaits fault =>
      obtain ⟨⟨e,hstep⟩,hrecords'⟩ := serve_step hrecords fault
      exact ⟨hw.step trivial hstep,hrecords'⟩
    | crash hupload hrestart =>
      exact ⟨(hw.step trivial hupload).step trivial hrestart,hrecords⟩
    | system he hstep => exact ⟨hw.step trivial hstep,hrecords⟩

/-- The terminal documents of a catalog are in the same states in a later one. -/
def KeepsTerminal (c c' : Catalog) : Prop :=
  ∀ d, d ∈ c.documents → Api.terminalState d.state = true →
    ∃ d', d' ∈ c'.documents ∧ d'.id = d.id ∧ d'.state = d.state

theorem step_keepsTerminal {w w' : World} {e : PdfBridge.Event} (hw : Lifecycle.Reachable s enc w)
    (hstep : w.step s enc e = some w') : KeepsTerminal w.shared.catalog w'.shared.catalog := by
  intro d hd hs
  obtain ⟨know,hinv⟩ : ∃ know, WorldInv s True w know := hw.inv fun _ _ _ _ => trivial
  have hchange : CatalogChange s True (fun _ => True) _ _ _ :=
    step_change hinv (fun _ => trivial) (fun _ _ => trivial) hstep
  obtain ⟨d',hd',hc⟩ := hchange.forward hinv.catalog hd
  exact ⟨d',hd',hc.id,hc.terminal_kept (hinv.catalog.documents d hd) hs⟩

theorem KeepsTerminal.trans {c₁ c₂ c₃ : Catalog} (h : KeepsTerminal c₁ c₂)
    (h' : KeepsTerminal c₂ c₃) : KeepsTerminal c₁ c₃ := by
  intro d hd hs
  obtain ⟨d₂,hd₂,hid₂,hs₂⟩ := h d hd hs
  obtain ⟨d₃,hd₃,hid₃,hs₃⟩ := h' d₂ hd₂ (by rw [hs₂]; exact hs)
  exact ⟨d₃,hd₃,hid₃.trans hid₂,hs₃.trans hs₂⟩

/-- A request, whether it is accepted or not, removes and overwrites no file. -/
theorem serve_keeps_files (h : RecordsInv canonical σ.service)
    (hpromoted : PromotedBefore σ.world.shared.now σ.world.shared.storage)
    (fault : ℕ → Option Fault) {f : StoredFile} (hf : f ∈ σ.world.shared.storage.files) :
    f ∈ (σ.serve canonical r fault).world.shared.storage.files := by
  have hends := Serves.cases (@serve_ends s canonical ⟨σ.world.shared.now,fault⟩ σ.service r h)
  change f ∈ (σ.service.serve canonical ⟨σ.world.shared.now,fault⟩ r).2.storage.files
  rcases hends with ⟨body,-,hcommits⟩ | ⟨hsame,-⟩
  · rw [hcommits.storage]
    unfold Request.storage
    split
    · exact promote_keeps hpromoted _ hf
    · exact hf
  · rw [hsame]
    exact hf

/-- Every reachable state has at most one document with a given content outside the terminal
states, and each document that is not being deleted has its own canonical object. No request
removes an object, and no step leaves a terminal state. -/
theorem one_retained_copy (h : Reachable enc canonical σ) :
    OneCopy σ.world.shared.catalog ∧
    OwnObjects σ.world.shared.catalog σ.world.shared.storage ∧
    (∀ d, d ∈ σ.world.shared.catalog.documents → ∀ d', d' ∈ σ.world.shared.catalog.documents →
      d.storageKey.isSome = true → d.storageKey = d'.storageKey → d = d') ∧
    (∀ r fault f, f ∈ σ.world.shared.storage.files →
      f ∈ (σ.serve canonical r fault).world.shared.storage.files) ∧
    ∀ e σ', Step enc canonical σ e σ' →
      KeepsTerminal σ.world.shared.catalog σ'.world.shared.catalog := by
  obtain ⟨hw,hrecords⟩ := h.system
  obtain ⟨know,hinv,hretention⟩ := hw.retention
  refine ⟨hretention.copies,hretention.objects,fun d hd d' hd' hsome hkey => ?_,
    fun r fault f hf => serve_keeps_files hrecords hretention.promoted fault hf,
    fun e σ' hstep => ?_⟩
  · have own : ∀ {x : Document} {key : StorageKey}, x ∈ σ.world.shared.catalog.documents →
        x.storageKey = some key → key = .object x.id := by
      intro x key hx hk
      have hdeletion := (hinv.catalog.documents x hx).deletion
      cases hp : x.deletionProgress with
      | none =>
        unfold DeletionInv at hdeletion
        rw [hp] at hdeletion
        exact Option.some.inj (hk.symm.trans hdeletion.source)
      | some p =>
        have hsource := (hdeletion.of_some hp).source
        rw [hk] at hsource
        split at hsource
        · cases hsource
        · exact Option.some.inj hsource
    obtain ⟨key,hk⟩ := Option.isSome_iff_exists.1 hsome
    have hid := (own hd hk).symm.trans (own hd' (hkey.symm.trans hk))
    exact Table.eq_of_key_eq hd hd' (StorageKey.object.inj hid)
  · cases hstep with
    | receive r => exact fun d hd _ => ⟨d,hd,rfl,rfl⟩
    | serve hwaits fault =>
      obtain ⟨⟨e,hserve⟩,-⟩ := serve_step hrecords fault
      exact step_keepsTerminal hw hserve
    | crash hupload hrestart =>
      exact (step_keepsTerminal hw hupload).trans
        (step_keepsTerminal (hw.step trivial hupload) hrestart)
    | system he hsystem => exact step_keepsTerminal hw hsystem

/-! ### The same bytes twice -/

def booksRetry : Idempotency.Request booksSettings := {booksUpload with key := "upload-0002"}

def visibleAscii : Canonical := ⟨fun c => c.isAlphanum || c = '-',fun _ _ => ⟨""⟩⟩

def booksServed : Server booksSettings :=
  {initial.serve visibleAscii booksUpload (fun _ => none) with waiting := [booksRetry]}

/-- Two uploads of the same bytes wait for the lock; the second one is refused. -/
theorem one_retained_copy_books : ∃ σ : Server booksSettings,
    Reachable plainEncoding visibleAscii σ ∧ σ.waiting = [] ∧
    σ.world.shared.catalog.documents.rows.length = 1 ∧
    OneCopy σ.world.shared.catalog ∧
    OwnObjects σ.world.shared.catalog σ.world.shared.storage := by
  have hserved : Reachable plainEncoding visibleAscii booksServed :=
    ((Reachable.initial.step (.receive booksRetry)).step (.receive booksUpload)).step
      (@Step.serve _ _ _ _ _ [] [booksRetry] rfl fun _ => none)
  have hrefused := hserved.step (@Step.serve _ _ _ _ _ [] [] rfl fun _ => none)
  have hretained := one_retained_copy hrefused
  exact ⟨_,hrefused,rfl,rfl,hretained.1,hretained.2.1⟩

end Server
end PdfBridge
