import PdfBridge.Lifecycle.Publication
import PdfBridge.Services.Search

/-! What an operator search shows: hits of documents that are published now, under the revision that
their one publication names. -/
namespace PdfBridge
namespace Lifecycle
open Worker Api Intake Preparation Search Reading Unicode

variable {s : Settings} {enc : Encoding} {strands : Prop} {now : Time} {worker : Uuid}
  {ref : OperationRef} {c c' : Catalog} {d d' : Document} {r r' : PreparedRevision} {w w' : World}
  {P : World → Event → Prop} {e : Event} {know : Slot → Knowledge}

/-! ### Distinct revisions -/

/-- The document of a revision is the only one that has a revision of its id. -/
def RevisionsApart (c : Catalog) : Prop :=
  ∀ d, d ∈ c.documents → ∀ e, e ∈ c.documents → ∀ r, r ∈ d.preparedRevisions →
    ∀ r', r' ∈ e.preparedRevisions → r.id = r'.id → d = e

/-- The revisions of a document are those it had, and perhaps the one drawn now. -/
def Adds (now : Time) (d d' : Document) : Prop :=
  d'.id = d.id ∧ ∀ r', r' ∈ d'.preparedRevisions →
    (∃ r, r ∈ d.preparedRevisions ∧ r.id = r'.id) ∨ r'.id = uuid4 now 0

theorem Adds.refl (d : Document) : Adds now d d := ⟨rfl,fun r hr => Or.inl ⟨r,hr,rfl⟩⟩

theorem Adds.putRevision (hr : r ∈ d.preparedRevisions) (hid : r'.id = r.id) :
    Adds now d (d.putRevision r') := by
  refine ⟨rfl,fun x hx => Or.inl ?_⟩
  rcases Table.mem_put.1 hx with rfl | ⟨hx,-⟩
  · exact ⟨r,hr,hid.symm⟩
  · exact ⟨x,hx,rfl⟩

theorem Adds.putNew (hid : r'.id = uuid4 now 0) : Adds now d (d.putRevision r') := by
  refine ⟨rfl,fun x hx => ?_⟩
  rcases Table.mem_put.1 hx with rfl | ⟨hx,-⟩
  · exact Or.inr hid
  · exact Or.inl ⟨x,hx,rfl⟩

theorem onDocument_adds {α : Type} {id : Uuid} {e : ServiceError}
    {f : Document → Outcome (α × Document)} {a : α} (h : onDocument c id e f = .ok (a,c'))
    (hf : ∀ d d', f d = .ok (a,d') → Adds now d d') :
    ∃ d d', d ∈ c.documents ∧ c' = c.put d' ∧ Adds now d d' := by
  obtain ⟨d,d',hd,hrun,rfl⟩ := onDocument_ok h
  exact ⟨d,d',Catalog.mem_of_document? hd,rfl,hf d d' hrun⟩

/-- A stage of a preparation writes one document, which gets at most the revision drawn now. -/
theorem request_adds {r : CatalogRequest} {a : r.Response}
    (h : r.run s enc now worker ref c = .ok (a,c')) (hr : writesRevision r = true) :
    ∃ d d', d ∈ c.documents ∧ c' = c.put d' ∧ Adds now d d' := by
  cases r with
  | beginPreparation =>
    refine onDocument_adds h fun d d' hrun => ?_
    simp only [beginPreparation, bind_eq_ok, require_eq_ok, exists_const, pure_eq_ok,
      Prod.mk.injEq] at hrun
    obtain ⟨-,-,rfl⟩ := hrun
    exact Adds.putNew rfl
  | recordExtraction =>
    refine onDocument_adds h fun d d' hrun => ?_
    simp only [recordExtraction, bind_eq_ok, require_eq_ok, exists_const, pure_eq_ok,
      Prod.mk.injEq] at hrun
    obtain ⟨-,-,r,hload,-,-,rfl⟩ := hrun
    exact Adds.putRevision (loadStage_ok hload).1 rfl
  | recordFormatting =>
    refine onDocument_adds h fun d d' hrun => ?_
    simp only [recordFormatting, bind_eq_ok, require_eq_ok, exists_const, pure_eq_ok,
      Prod.mk.injEq] at hrun
    obtain ⟨r,hload,-,-,-,-,-,rfl⟩ := hrun
    exact Adds.putRevision (loadStage_ok hload).1 rfl
  | recordChunkVectors =>
    refine onDocument_adds h fun d d' hrun => ?_
    simp only [recordChunkVectors, bind_eq_ok, require_eq_ok, exists_const, pure_eq_ok,
      Prod.mk.injEq] at hrun
    obtain ⟨-,r,hload,-,-,-,-,rfl⟩ := hrun
    exact Adds.putRevision (loadStage_ok hload).1 rfl
  | failPreparation =>
    refine onDocument_adds h fun d d' hrun => ?_
    simp only [Preparation.failPreparation, loadRevision, bind_eq_ok, orRaise_eq_ok, require_eq_ok,
      exists_const, ite_eq_ok, pure_eq_ok, Prod.mk.injEq] at hrun
    obtain ⟨r,hlookup,-,⟨-,-,rfl⟩ | ⟨-,-,rfl⟩⟩ := hrun
    · exact Adds.refl d
    · exact Adds.putRevision (Table.mem_of_lookup hlookup) rfl
  | insertArtifact =>
    refine onDocument_adds h fun d d' hrun => ?_
    simp only [Worker.insertArtifact, bind_eq_ok, orRaise_eq_ok, require_eq_ok, exists_const,
      pure_eq_ok, Prod.mk.injEq] at hrun
    obtain ⟨r,hlookup,-,-,rfl⟩ := hrun
    exact Adds.putRevision (Table.mem_of_lookup hlookup) rfl
  | recordPreflightCandidates =>
    refine onDocument_adds h fun d d' hrun => ?_
    simp only [recordPreflightCandidates, bind_eq_ok, require_eq_ok, exists_const, pure_eq_ok,
      Prod.mk.injEq] at hrun
    obtain ⟨-,-,r,hload,-,-,-,rows,-,-,rfl⟩ := hrun
    exact Adds.putRevision (loadStage_ok hload).1 rfl
  | appendAdvisoryEvidence =>
    refine onDocument_adds h fun d d' hrun => ?_
    simp only [appendAdvisoryEvidence, bind_eq_ok, require_eq_ok, exists_const, pure_eq_ok,
      Prod.mk.injEq] at hrun
    obtain ⟨r,hload,-,rows,-,-,rfl⟩ := hrun
    exact Adds.putRevision (loadStage_ok hload).1 rfl
  | sealPreparedRevision =>
    refine onDocument_adds h fun d d' hrun => ?_
    obtain ⟨r,r',hr,-,-,hseals,rfl,-⟩ := sealPreparedRevision_ok hrun
    exact Adds.putRevision hr hseals.id
  | _ => cases hr

/-- The document had a revision of this id before. -/
def Had (c : Catalog) (id : Uuid) (revisions : Table PreparedRevision.id) : Prop :=
  ∀ r', r' ∈ revisions → ∃ d, d ∈ c.documents ∧ d.id = id ∧
    ∃ r, r ∈ d.preparedRevisions ∧ r.id = r'.id

theorem holds_had (c : Catalog) : Satisfies (fun id _ => Had c id) c :=
  fun d hd r hr => ⟨d,hd,rfl,r,hr,rfl⟩

/-- An event adds at most the revision drawn now, and to one document. -/
theorem apply_adds (h : WorldInv s strands w know) (happly : w.apply s enc e = some w') :
    Satisfies (fun id _ => Had w.shared.catalog id) w'.shared.catalog ∨
      ∃ d d', d ∈ w.shared.catalog.documents ∧
        w'.shared.catalog = w.shared.catalog.put d' ∧ Adds w.shared.now d d' := by
  have hc := holds_had w.shared.catalog
  have mutation : ∀ {x : Outcome Catalog}, w.commit x = some w' →
      (∀ c, x = .ok c → Satisfies (fun id _ => Had w.shared.catalog id) c) →
      Satisfies (fun id _ => Had w.shared.catalog id) w'.shared.catalog := by
    intro x hx hholds
    obtain ⟨c,hc,rfl⟩ := commit_ok hx
    exact hholds c hc
  cases e with
  | upload x committed =>
    obtain ⟨m,hm,rfl⟩ := upload_ok happly
    cases committed with
    | true =>
      exact Or.inl (registerAdmission_satisfies
        (fun _ r hr => absurd hr (Table.not_mem_empty r)) hc hm)
    | false => exact Or.inl hc
  | decide x =>
    apply Or.inl
    apply mutation happly
    intro c hx
    obtain ⟨m,hm,rfl⟩ := runMutation_ok hx
    exact recordDecision_satisfies hc hm
  | retry id actor =>
    apply Or.inl
    apply mutation happly
    intro c hx
    obtain ⟨m,hm,rfl⟩ := runMutation_ok hx
    exact requestRetry_satisfies hc hm
  | delete id actor =>
    apply Or.inl
    apply mutation happly
    intro c hx
    obtain ⟨m,hm,rfl⟩ := runMutation_ok hx
    exact deleteDocument_satisfies hc hm
  | claim slot =>
    obtain ⟨-,claimed,p,c,hclaim,rfl⟩ := claim_ok happly
    obtain ⟨d,o,o',hd,-,-,-,-,-,rfl⟩ := claimNext_ok h.catalog hclaim
    exact Or.inl (hc.put (hc d hd))
  | work slot i =>
    obtain ⟨claimed,r,k,a,σ,hslot,hexec,hwork,rfl⟩ := work_ok happly
    cases r with
    | catalog r =>
      rcases exec_catalog hexec with ⟨b,c,hrun,rfl,rfl⟩ | ⟨e,-,rfl,-⟩
      · cases hr : writesRevision r with
        | true => exact Or.inr (request_adds hrun hr)
        | false =>
          apply Or.inl
          apply request_satisfies hc _ hr hrun
          intro id b _ d hd _ r' hr'
          obtain ⟨r,hr,rfl⟩ := Table.mem_update.1 hr'
          exact ⟨d,hd,by assumption,r,hr,(emptyContent_id _ r).symm⟩
      · exact Or.inl hc
    | _ =>
      apply Or.inl
      change Satisfies _ σ.catalog
      rw [(exec_other hexec (by rintro _ ⟨⟩)).1]
      exact hc
  | recoverLeases =>
    cases happly
    exact Or.inl (hc.mapOperations _)
  | renewLeases =>
    cases happly
    exact Or.inl (hc.mapOperations _)
  | wait n =>
    cases happly
    exact Or.inl hc
  | restart =>
    cases happly
    exact Or.inl hc

theorem RevisionsApart.apply (h : RevisionsApart w.shared.catalog)
    (hinv : WorldInv s strands w know) (happly : w.apply s enc e = some w') :
    ∀ d, d ∈ w'.shared.catalog.documents → ∀ e, e ∈ w'.shared.catalog.documents →
      ∀ r, r ∈ d.preparedRevisions → ∀ r', r' ∈ e.preparedRevisions → r.id = r'.id →
        d.id = e.id := by
  have hfresh : ∀ d, d ∈ w.shared.catalog.documents → ∀ r, r ∈ d.preparedRevisions →
      r.id ≠ uuid4 w.shared.now 0 := by
    intro d hd r hr he
    have hrevisions := (hinv.catalog.documents d hd).revisions
    have hcreated : r.createdAt = w.shared.now :=
      congrArg Uuid.drawnAt ((hrevisions.valid r hr).drawn.symm.trans he)
    exact absurd (hrevisions.fresh r hr) (by rw [hcreated]; exact lt_irrefl _)
  intro d hd e he r hr r' hr' hid
  rcases apply_adds hinv happly with hhad | ⟨d₀,d₁,hd₀,hput,hid₁,hadds⟩
  · obtain ⟨x,hx,hxid,y,hy,hyid⟩ := hhad d hd r hr
    obtain ⟨x',hx',hxid',y',hy',hyid'⟩ := hhad e he r' hr'
    have heq : x = x' := h x hx x' hx' y hy y' hy' (hyid.trans (hid.trans hyid'.symm))
    rw [← hxid, ← hxid', heq]
  · rw [hput] at hd he
    rcases mem_put.1 hd with rfl | ⟨hd',-⟩ <;> rcases mem_put.1 he with rfl | ⟨he',-⟩
    · rfl
    · rcases hadds r hr with ⟨y,hy,hyid⟩ | hnew
      · exact hid₁.trans (congrArg _ (h _ hd₀ _ he' y hy r' hr' (hyid.trans hid)))
      · exact absurd (hid.symm.trans hnew) (hfresh _ he' r' hr')
    · rcases hadds r' hr' with ⟨y,hy,hyid⟩ | hnew
      · exact ((congrArg _ (h _ hd₀ _ hd' y hy r hr (hyid.trans hid.symm))).symm).trans hid₁.symm
      · exact absurd (hid.trans hnew) (hfresh _ hd' r hr)
    · exact congrArg _ (h d hd' e he' r hr r' hr' hid)

theorem ReachableBy.revisionsApart (h : ReachableBy s enc P w) :
    RevisionsApart w.shared.catalog := by
  induction h with
  | initial => exact fun d hd => absurd hd (Table.not_mem_empty d)
  | @step w w' e h he hstep ih =>
    obtain ⟨know,hinv⟩ : ∃ know, WorldInv s True w know := h.inv fun _ _ _ _ => trivial
    unfold World.step at hstep
    obtain ⟨w₁,happly,rfl⟩ := Option.map_eq_some_iff.1 hstep
    intro d hd e he r hr r' hr' hid
    exact Table.eq_of_key_eq hd he (ih.apply hinv happly d hd e he r hr r' hr' hid)

/-! ### The answer -/

/-- The retrieval service answered this request in full, within the limit, with a valid response. -/
def Answered (loads : Bytes → Option SearchResponse) (x : SearchSettings) (upstream : Upstream)
    (request : OperatorSearchRequest) (result : SearchResponse) : Prop :=
  ∃ posted answer payload, posted? x request = some posted ∧ upstream posted = some answer ∧
    isSuccess answer.status = true ∧ answer.complete = true ∧
    answer.pieces.flatten.length ≤ maxSearchResponseBytes ∧
    loads answer.pieces.flatten = some payload ∧ modelValidate payload = some result

theorem readBody_ok {x : Answer} {body : Bytes} : readBody x = .ok body ↔
    x.complete = true ∧ x.pieces.flatten.length ≤ maxSearchResponseBytes ∧
      x.pieces.flatten = body := by
  unfold readBody
  rw [show readBounded maxSearchResponseBytes (fun body piece => body ++ piece) 0 [] x.pieces =
    if maxSearchResponseBytes < x.pieces.flatten.length then none else some x.pieces.flatten from
      readBounded_nil summarizes_append x.pieces]
  by_cases hover : maxSearchResponseBytes < x.pieces.flatten.length
  · rw [if_pos hover]
    constructor
    · exact fun h => by cases h
    · rintro ⟨-,hsize,-⟩
      omega
  · rw [if_neg hover]
    have hsize : x.pieces.flatten.length ≤ maxSearchResponseBytes := by omega
    by_cases hcomplete : x.complete = true
    · simp only [hcomplete, if_true, Except.ok.injEq, hsize, true_and]
    · simp [hcomplete]

theorem searchRetrieval_ok {loads : Bytes → Option SearchResponse} {x : SearchSettings}
    {upstream : Upstream} {request : OperatorSearchRequest} {result : SearchResponse} :
    searchRetrieval loads s x upstream request = .ok result ↔
      (s.enabledCollection? request.collectionKey).isSome = true ∧
        Answered loads x upstream request result ∧ correlates request result = true := by
  unfold searchRetrieval
  constructor
  · intro h
    split at h
    · cases h
    · rename_i definition hcollection
      split at h
      · cases h
      · rename_i posted hposted
        split at h
        · cases h
        · rename_i answer hanswer
          split at h
          · rename_i hsuccess
            split at h
            · cases h
            · rename_i body hbody
              split at h
              · cases h
              · rename_i valid hvalid
                obtain ⟨hcomplete,hsize,rfl⟩ := readBody_ok.1 hbody
                obtain ⟨payload,hpayload,hvalid⟩ := Option.bind_eq_some_iff.1 hvalid
                split at h
                · rename_i hcorrelates
                  cases h
                  exact ⟨by rw [hcollection]; rfl,⟨posted,answer,payload,hposted,hanswer,hsuccess,
                    hcomplete,hsize,hpayload,hvalid⟩,hcorrelates⟩
                · cases h
          · cases h
  · rintro ⟨hcollection,⟨posted,answer,payload,hposted,hanswer,hsuccess,hcomplete,hsize,hpayload,
      hvalid⟩,hcorrelates⟩
    obtain ⟨definition,hcollection⟩ := Option.isSome_iff_exists.1 hcollection
    have hbody : readBody answer = .ok answer.pieces.flatten := readBody_ok.2 ⟨hcomplete,hsize,rfl⟩
    have hresult : (loads answer.pieces.flatten).bind modelValidate = some result := by
      rw [hpayload]
      exact hvalid
    simp only [hcollection, hposted, hanswer, hsuccess, hbody, hresult, hcorrelates, if_true]

/-! ### The hits -/

/-- The hit names a document of the requested collection that is `READY` now, by its filename and
by the revision of its one publication, which is verified. -/
def Current (c : Catalog) (request : OperatorSearchRequest) (hit : OperatorSearchHit) : Prop :=
  ∃ d p, d ∈ c.documents ∧ d.id = hit.documentId ∧ d.state = .ready ∧
    d.intake.collectionKey = request.collectionKey ∧
    d.intake.originalFilename.val = hit.originalFilename ∧ d.publications.rows = [p] ∧
    p.preparedRevisionId = hit.preparedRevisionId ∧ p.status = .verified

theorem revisionRow?_ok {id : Uuid} (h : revisionRow? c id = some (d,r)) :
    d ∈ c.documents ∧ r ∈ d.preparedRevisions ∧ r.id = id := by
  obtain ⟨e,he,hfound⟩ := List.exists_of_findSome?_eq_some h
  obtain ⟨r',hr',heq⟩ := Option.map_eq_some_iff.1 hfound
  cases heq
  exact ⟨he,Table.mem_of_lookup hr',Table.key_of_lookup hr'⟩

theorem RevisionsApart.row? (h : RevisionsApart c) (hd : d ∈ c.documents)
    (hr : r ∈ d.preparedRevisions) : revisionRow? c r.id = some (d,r) := by
  cases hrow : revisionRow? c r.id with
  | none =>
    have hnone := List.findSome?_eq_none_iff.1 hrow d hd
    rw [Document.revision?, Table.lookup_of_mem hr] at hnone
    cases hnone
  | some x =>
    obtain ⟨owner,r'⟩ := x
    obtain ⟨howner,hr',hid⟩ := revisionRow?_ok hrow
    cases h owner howner d hd r' hr' r hr hid
    rw [Table.eq_of_key_eq hr' hr hid]

/-- What the correlation lets pass is published, and what is published passes. -/
theorem hitMatches_iff (h : ReachableBy s enc P w) {request : OperatorSearchRequest}
    {hit : OperatorSearchHit} :
    hitMatches w.shared.catalog request hit = true ↔
      Current w.shared.catalog request hit := by
  constructor
  · intro hmatch
    unfold hitMatches at hmatch
    split at hmatch
    · rename_i d owner r hd hrow
      simp only [Bool.and_eq_true, decide_eq_true_eq] at hmatch
      obtain ⟨⟨⟨⟨⟨hready,hcollection⟩,hfilename⟩,howner⟩,-⟩,hpublished⟩ := hmatch
      have hmem := Catalog.mem_of_document? hd
      obtain ⟨hmem',hr,hid⟩ := revisionRow?_ok hrow
      cases Table.eq_of_key_eq hmem' hmem howner
      have hinv := (h.catalog.documents d hmem).publications
      obtain ⟨p,hp⟩ := Option.isSome_iff_exists.1 hpublished
      have hrows : p ∈ d.publications.rows := List.mem_of_find?_eq_some hp
      have hrevision : p.preparedRevisionId = r.id := by
        simpa using List.find?_some hp
      have hstatus := hinv.status p hrows
      rw [hready] at hstatus
      exact ⟨d,p,hmem,Catalog.id_of_document? hd,hready,hcollection,hfilename,hinv.rows_eq hrows,
        hrevision.trans hid,hstatus⟩
    · cases hmatch
  · rintro ⟨d,p,hd,hid,hready,hcollection,hfilename,hrows,hrevision,-⟩
    have hp : p ∈ d.publications.rows := by rw [hrows]; exact List.mem_singleton_self p
    obtain ⟨r,target,⟨hr,hsealed,-⟩,hrid,-⟩ :=
      (h.catalog.documents d hd).publications.bound p hp
    have hrow : revisionRow? w.shared.catalog hit.preparedRevisionId = some (d,r) := by
      rw [← hrevision, ← hrid]
      exact h.revisionsApart.row? hd hr
    have hfound : d.publicationForRevision r.id = some p := by
      rw [Document.publicationForRevision, hrows, hrid]
      simp
    unfold hitMatches
    rw [← hid, Catalog.document?_of_mem hd, hrow]
    simp [hready, hcollection, hfilename, hsealed, hfound]

/-! ### Results -/

variable {loads : Bytes → Option SearchResponse} {x : SearchSettings} {upstream : Upstream}
  {request : OperatorSearchRequest} {result : SearchResponse}

theorem searchDocuments_ok (h : ReachableBy s enc P w) :
    searchDocuments loads s x upstream w.shared.catalog request = .ok result ↔
      (s.enabledCollection? request.collectionKey).isSome = true ∧
        Answered loads x upstream request result ∧ correlates request result = true ∧
        ∀ hit ∈ result.results, Current w.shared.catalog request hit := by
  have hall : ∀ y : SearchResponse,
      y.results.all (hitMatches w.shared.catalog request) = true ↔
        ∀ hit ∈ y.results, Current w.shared.catalog request hit := by
    intro y
    rw [List.all_eq_true]
    exact forall₂_congr fun hit _ => hitMatches_iff h
  unfold searchDocuments
  constructor
  · intro hok
    split at hok
    · cases hok
    · rename_i y hy
      obtain ⟨hcollection,hanswered,hcorrelates⟩ := searchRetrieval_ok.1 hy
      split at hok
      · rename_i hmatch
        cases hok
        exact ⟨hcollection,hanswered,hcorrelates,(hall _).1 hmatch⟩
      · cases hok
  · intro hspec
    obtain ⟨hcollection,hanswered,hcorrelates,hcurrent⟩ := hspec
    rw [searchRetrieval_ok.2 ⟨hcollection,hanswered,hcorrelates⟩]
    exact if_pos ((hall result).2 hcurrent)

theorem modelValidate_ranks {payload : SearchResponse} (h : modelValidate payload = some result) :
    result.results.map (·.rank) = (List.range' 1 result.results.length).map Int.ofNat ∧
      (result.results.map fun r => (r.documentId,r.chunkId)).Nodup := by
  unfold modelValidate at h
  obtain ⟨query,-,h⟩ := Option.bind_eq_some_iff.1 h
  split at h
  · rename_i hvalid
    obtain ⟨-,-,hmatch⟩ := hvalid
    cases h
    simp only [resultsMatch, Bool.and_eq_true, decide_eq_true_eq] at hmatch
    exact ⟨hmatch.1.2,hmatch.2⟩
  · cases h

/-! ### A search for the published document -/

/-- An answer with one hit, in short pieces. -/
def oceanPieces : List String :=
  ["\x7b\"collection_key\":\"books\",","\"query\":\"ocean\",\"mode\":\"hybrid\",",
    "\"results\":[\x7b\"rank\":1,\"document_id\":","\"6f2c1d3e-5b4a-4c2d-",
    "9e8f-0a1b2c3d4e5f\",","\"prepared_revision_id\":","\"7a3d2e4f-6c5b-4d3e-",
    "8f9a-1b2c3d4e5f60\",","\"collection_key\":\"books\",","\"original_filename\":",
    "\"a.pdf\",\"score\":0.5,","\"excerpt\":\"A page about ","the ocean.\"\x7d]\x7d"]

def oceanAnswer : Answer :=
  ⟨200,oceanPieces.map fun piece => piece.toList.map fun c => UInt8.ofNat c.toNat,true⟩

def oceanHit : OperatorSearchHit :=
  ⟨1,uuid4 0 0,uuid4 5 0,books,"a.pdf",none,none,none,[],some (1 / 2),"A page about the ocean."⟩

def oceanResponse : SearchResponse := ⟨books,str "ocean",.hybrid,[oceanHit]⟩

/-- The reader of this one answer. -/
def readOcean (body : Bytes) : Option SearchResponse :=
  if body = oceanAnswer.pieces.flatten then some oceanResponse else none

def oceanRequest : OperatorSearchRequest where
  collectionKey := books
  query := str "ocean"
  mode := .hybrid
  limit := 20
  valid := by decide
  bounded := by decide

def oceanSettings : SearchSettings := ⟨some (str "http://retrieval/"),some (str "token")⟩

theorem oceanAnswered :
    Answered readOcean oceanSettings (fun _ => some oceanAnswer) oceanRequest oceanResponse :=
  ⟨_,oceanAnswer,oceanResponse,rfl,rfl,by decide,rfl,by decide +kernel,if_pos rfl,
    by decide +kernel⟩

theorem oceanSearch_ok (h : ReachableBy booksSettings plainEncoding P w)
    (hmatch : hitMatches w.shared.catalog oceanRequest oceanHit = true) :
    searchDocuments readOcean booksSettings oceanSettings (fun _ => some oceanAnswer)
      w.shared.catalog oceanRequest = .ok oceanResponse := by
  apply (searchDocuments_ok h).2
  refine ⟨by decide +kernel,oceanAnswered,by decide +kernel,fun hit hhit => ?_⟩
  obtain rfl := List.mem_singleton.1 hhit
  exact (hitMatches_iff h).1 hmatch

/-! ### What a search shows -/

/-- A search succeeds exactly when the service answered it in full with a valid response to this
request, however the body was cut, and every hit names a document that is `READY` now by the
revision that is published now. What it returns is ranked from 1 on without duplicates. -/
theorem search_shows_published (h : Reachable s enc w) :
    (searchDocuments loads s x upstream w.shared.catalog request = .ok result ↔
      (s.enabledCollection? request.collectionKey).isSome = true ∧
        Answered loads x upstream request result ∧ correlates request result = true ∧
        ∀ hit ∈ result.results, Current w.shared.catalog request hit) ∧
    (searchDocuments loads s x upstream w.shared.catalog request = .ok result →
      result.results.map (·.rank) = (List.range' 1 result.results.length).map Int.ofNat ∧
      (result.results.map fun r => (r.documentId,r.chunkId)).Nodup) := by
  refine ⟨searchDocuments_ok h,fun hok => ?_⟩
  obtain ⟨-,⟨posted,answer,payload,-,-,-,-,-,-,hvalid⟩,-⟩ := (searchDocuments_ok h).1 hok
  exact modelValidate_ranks hvalid

theorem search_shows_published_ocean : ∃ w : World,
    searchDocuments readOcean booksSettings oceanSettings (fun _ => some oceanAnswer)
      w.shared.catalog oceanRequest = .ok oceanResponse ∧
    Current w.shared.catalog oceanRequest oceanHit := by
  obtain ⟨w,hw,hmatch⟩ := play_any booksSettings plainEncoding (fun _ _ => True)
    (.act (uploadOf "a") :: turnOf smoothly ++ turnOf smoothly)
    (fun w => hitMatches w.shared.catalog oceanRequest oceanHit)
    (fun _ _ _ => trivial) (fun _ _ _ => trivial) (by decide +kernel)
  have hok := oceanSearch_ok hw hmatch
  obtain ⟨-,-,-,hcurrent⟩ := (search_shows_published hw).1.1 hok
  exact ⟨w,hok,hcurrent _ (List.mem_singleton_self _)⟩

/-- As long as no late release disturbs an execution, what the collection holds of each document
that a search shows are exactly the points of the revision that the hit names. -/
theorem search_hits_shown (h : ReachableBy s enc Undisturbed w)
    (hok : searchDocuments loads s x upstream w.shared.catalog request = .ok result) :
    ∀ hit ∈ result.results, ∃ d a ps, d ∈ w.shared.catalog.documents ∧
      d.id = hit.documentId ∧ activeName? s request.collectionKey = some a ∧
      reconstructChunkPoints enc hit.preparedRevisionId true d = .ok ps ∧
      w.shared.qdrant.Exactly a d.id (ps.map activePoint) ∧
      w.shared.qdrant.Clear s.screening d.id := by
  intro hit hhit
  obtain ⟨-,-,-,hcurrent⟩ := (searchDocuments_ok h).1 hok
  obtain ⟨d,p,hd,hid,hready,hcollection,-,hrows,hrevision,-⟩ := hcurrent hit hhit
  obtain ⟨know,hinv,-,hsound⟩ := h.sound
  obtain ⟨definition,hdef⟩ :=
    Option.isSome_iff_exists.1 (hinv.catalog.documents d hd).intake.collection
  have ha : activeName? s d.intake.collectionKey = some definition.qdrantCollectionName := by
    rw [activeName?, hdef]
    rfl
  obtain ⟨⟨ps,⟨p',hp',hps⟩,hset⟩,hclear⟩ := hsound.points.ready d hd hready _ ha
  obtain rfl : p' = p := by
    rw [Table.mem_def, hrows] at hp'
    exact List.mem_singleton.1 hp'
  rw [hcollection] at ha
  rw [hrevision] at hps
  exact ⟨d,_,ps,hd,hid,ha,hps,hset,hclear⟩

theorem search_hits_shown_ocean : ∃ (w : World) (d : Document) (a : Text 255)
    (ps : List ChunkPoint), d ∈ w.shared.catalog.documents ∧ d.id = oceanHit.documentId ∧
      w.shared.qdrant.Exactly a d.id (ps.map activePoint) := by
  have h : (play booksSettings plainEncoding (fun w => (w.slots .second).isNone)
      (.act (uploadOf "a") :: turnOf smoothly ++ turnOf smoothly) World.initial).any
      (fun w => hitMatches w.shared.catalog oceanRequest oceanHit) = true := by
    decide +kernel
  obtain ⟨w,hw,hmatch⟩ := (Option.any_eq_true _ _).1 h
  have hreachable := play_undisturbed hw
  obtain ⟨d,a,ps,hd,hid,-,-,hset,-⟩ := search_hits_shown hreachable
    (oceanSearch_ok hreachable hmatch) oceanHit (List.mem_singleton_self _)
  exact ⟨w,d,a,ps,hd,hid,hset⟩

end Lifecycle
end PdfBridge
