import PdfBridge.Foundation.HexText
import PdfBridge.Lifecycle.Scenario
import PdfBridge.Services.Pagination

/-! Walks over the lists of the catalog, and a walk that the deletion of its document ends. -/
namespace PdfBridge
namespace Listing
open Keyset Intake Lifecycle

/-- Every list returns every matching row once, in one order, page by page. A walk over chunks or
candidates is refused only when the content of its revision is no longer served. -/
theorem cursor_pagination_complete (texts : Texts) (s : Settings) {limit : ℕ}
    (hlimit : 1 ≤ limit ∧ limit ≤ 100) :
    Complete (fun (j : Snapshot texts) cursor => listCollections s limit j.catalog cursor)
      (configPosition s) (fun j => collectionRecords s j.catalog) (fun _ => True) ∧
    (∀ collectionKey state, Complete (fun (j : Snapshot texts) cursor =>
        listDocuments texts collectionKey state limit j.catalog cursor)
      (newestKey Document.createdAt Document.id)
      (fun j => matchingDocuments collectionKey state j.catalog) fun _ => True) ∧
    (∀ documentId revisionId, Complete (fun (j : Snapshot texts) cursor =>
        listChunks texts documentId limit j.catalog cursor) PreparedChunk.chunkIndex
      (fun j => ((servedRevision documentId j.catalog).map fun r => r.content.chunks).getD [])
      fun j => (servedRevision documentId j.catalog).map PreparedRevision.id =
        some revisionId) ∧
    (∀ documentId revisionId candidates, Complete
      (fun (j : {j : Snapshot texts // ∀ r, preflightRevision documentId j.catalog = .ok r →
          r.id = revisionId → r.content.candidates = candidates}) cursor =>
        getPreflight texts documentId limit j.1.catalog cursor) (rankPosition texts candidates)
      (fun _ => sortedCandidates texts candidates)
      fun j => ∃ r, preflightRevision documentId j.1.catalog = .ok r ∧ r.id = revisionId ∧
        r.content.candidates = candidates) ∧
    (∀ documentId, Complete
      (fun (j : {j : Snapshot texts // (j.catalog.document? documentId).isSome = true}) cursor =>
        listEvents texts documentId limit j.1.toJournal cursor)
      (newestKey AuditEventRow.occurredAt fun e => e.id.1)
      (fun j => matchingEvents documentId j.1.toJournal) fun _ => True) ∧
    ∀ visible : List CollectionKey, visible ≠ [] → ∀ collectionKey disposition,
      Complete (fun (j : Snapshot texts) cursor =>
          listHistory texts visible collectionKey disposition limit j.toJournal cursor)
        (newestKey TombstoneRow.occurredAt TombstoneRow.id)
        (fun j => matchingTombstones visible collectionKey disposition j.toJournal)
        fun _ => True :=
  ⟨listCollections_complete hlimit,listDocuments_complete hlimit,
    fun documentId revisionId => listChunks_complete hlimit documentId revisionId,
    fun documentId revisionId candidates =>
      getPreflight_complete hlimit documentId revisionId candidates,
    fun documentId => listEvents_complete hlimit documentId,
    fun _ hvisible collectionKey disposition =>
      listHistory_complete hlimit hvisible collectionKey disposition⟩

/-! ### Texts of UUIDs and of the moments of a day -/

theorem digitChar_plain : ∀ d < 16, d.digitChar ≠ '"' ∧ d.digitChar ≠ '\\' ∧
    d.digitChar.toNat < 128 := by decide

def uuidForm : TextForm Uuid where
  valid u := (ofLex u).1 < 2 ^ 64 ∧ (ofLex u).2 < 2 ^ 64
  str u := HexText.groupText (ofLex u)
  parse text := (HexText.readGroups text).map toLex
  parse_str u _ := by rw [HexText.readGroups_groupText, Option.map_some, toLex_ofLex]
  plain u _ c hc := by
    rcases HexText.mem_groupText hc with rfl | ⟨d,hd,rfl⟩
    · decide
    · exact digitChar_plain d hd
  length_le u hu := by
    rw [HexText.length_groupText hu]
    decide

def twoDigits (n : ℕ) : List Char := [(n / 10).digitChar,(n % 10).digitChar]

def readTwo (a b : Char) : ℕ := 10 * HexText.hexValue a + HexText.hexValue b

def date : List Char := "2026-01-01T".toList

def zone : List Char := "+00:00".toList

/-- The second `n` of a day as `isoformat` writes it in UTC. -/
def momentText (n : ℕ) : String :=
  String.ofList (date ++ (twoDigits (n / 3600) ++ ':' :: twoDigits (n / 60 % 60) ++
    ':' :: twoDigits (n % 60) ++ zone))

def readMomentText (text : String) : Option ℕ :=
  match text.toList.drop date.length with
  | h₁ :: h₂ :: _ :: m₁ :: m₂ :: _ :: s₁ :: s₂ :: _ =>
      some (3600 * readTwo h₁ h₂ + 60 * readTwo m₁ m₂ + readTwo s₁ s₂)
  | _ => none

variable {n : ℕ}

theorem readTwo_twoDigits (h : n < 100) : readTwo (n / 10).digitChar (n % 10).digitChar = n := by
  rw [readTwo, HexText.hexValue_digitChar _ (by omega), HexText.hexValue_digitChar _ (by omega)]
  omega

theorem readMomentText_momentText (h : n < 86400) : readMomentText (momentText n) = some n := by
  rw [readMomentText, momentText, String.toList_ofList, List.drop_left]
  simp only [twoDigits, List.cons_append, List.nil_append]
  rw [readTwo_twoDigits (by omega), readTwo_twoDigits (by omega), readTwo_twoDigits (by omega)]
  congr 1
  omega

theorem momentText_plain (h : n < 86400) : Codec.Plain (momentText n) := by
  have hdigits : ∀ m c, m < 100 → c ∈ twoDigits m → c ≠ '"' ∧ c ≠ '\\' ∧ c.toNat < 128 := by
    intro m c hm hc
    simp only [twoDigits, List.mem_cons, List.not_mem_nil, or_false] at hc
    rcases hc with rfl | rfl <;> exact digitChar_plain _ (by omega)
  have hdate : Codec.Plain "2026-01-01T" := plain_of_ascii (by decide)
  have hzone : Codec.Plain "+00:00" := plain_of_ascii (by decide)
  intro c hc
  simp only [momentText, String.toList_ofList, List.mem_append, List.mem_cons, or_assoc] at hc
  rcases hc with hc | hc | rfl | hc | rfl | hc | hc
  · exact hdate c hc
  · exact hdigits _ c (by omega) hc
  · decide
  · exact hdigits _ c (by omega) hc
  · decide
  · exact hdigits _ c (by omega) hc
  · exact hzone c hc

theorem length_momentText (n : ℕ) : (momentText n).length = 25 := by
  have hdate : date.length = 11 := by decide
  have hzone : zone.length = 6 := by decide
  simp only [momentText, String.length_ofList, List.length_append, List.length_cons, twoDigits,
    List.length_nil, hdate, hzone]

def momentForm : TextForm Time where
  valid n := n < 86400
  str := momentText
  parse := readMomentText
  parse_str _ h := readMomentText_momentText h
  plain _ h := momentText_plain h
  length_le n _ := by
    rw [length_momentText n]
    decide

def dayTexts : Texts := ⟨uuidForm,momentForm⟩

theorem dayTexts_time (h : n < 86400) : dayTexts.time.valid n := h

theorem dayTexts_uuid {i : ℕ} (hn : n < 2 ^ 64) (hi : i < 2 ^ 64) :
    dayTexts.uuid.valid (uuid4 n i) := ⟨hn,hi⟩

/-! ### A document with two chunks and two events -/

def pagedChunk (index : ℕ) : PreparedChunk where
  id := Preparation.chunkIdentity (uuid4 1 0) (uuid4 2 0) index ⟨"chunk"⟩
  chunkIndex := index
  pageStart := 1
  pageEnd := 1
  headingPath := []
  tokenCount := 1
  textSha256 := ⟨"chunk"⟩
  markdown := "chunk"
  vector := ⟨[],⟨[],[]⟩,⟨""⟩,⟨""⟩⟩

def pagedRevision : PreparedRevision :=
  {Preparation.newRevision 2 1 booksIdentity with
    status := .sealed, sealedAt := some 2,
    content := {RevisionContent.empty with chunks := [pagedChunk 0,pagedChunk 1]}}

def pagedDocument : Document :=
  {Api.admittedDocument 1 ⟨books,sampleFilename,"a.pdf",1,⟨"a"⟩,sampleScanner,
      sampleOperator⟩ with
    state := .reviewRequired, preparedRevisions := Table.put ∅ pagedRevision}

def pagedCatalog : Catalog := Catalog.empty.put pagedDocument

def admittedEvent : AuditEventRow := ⟨4,some (uuid4 1 0),1,"document_admitted"⟩

def queuedEvent : AuditEventRow := ⟨5,some (uuid4 1 0),1,"preflight_queued"⟩

def pagedSnapshot : Snapshot dayTexts where
  catalog := pagedCatalog
  events := ⟨[admittedEvent,queuedEvent],by decide⟩
  tombstones := ∅
  documents_valid d hd := by
    obtain rfl : d = pagedDocument := List.mem_singleton.1 hd
    exact ⟨dayTexts_time (by decide),dayTexts_uuid (by decide) (by decide)⟩
  revisions_valid d hd r hr := by
    obtain rfl : d = pagedDocument := List.mem_singleton.1 hd
    obtain rfl : r = pagedRevision := List.mem_singleton.1 hr
    exact ⟨dayTexts_uuid (by decide) (by decide),by decide,List.nodup_nil,
      fun x hx => absurd hx List.not_mem_nil⟩
  events_valid e he := by
    have he : e ∈ [admittedEvent,queuedEvent] := he
    simp only [List.mem_cons, List.not_mem_nil, or_false] at he
    rcases he with rfl | rfl <;> exact dayTexts_time (by decide)
  tombstones_valid t ht := absurd ht (Table.not_mem_empty t)

/-- Page by page, both chunks of the document are listed, and of its two simultaneous events the
one with the larger key first. -/
theorem cursor_pagination_complete_paged :
    walk (fun (j : Snapshot dayTexts) cursor =>
        listChunks dayTexts (uuid4 1 0) 1 j.catalog cursor) (List.replicate 3 pagedSnapshot) none =
      ⟨[pagedChunk 0,pagedChunk 1],some (.ok ())⟩ ∧
    walk (fun (j : {j : Snapshot dayTexts // (j.catalog.document? (uuid4 1 0)).isSome = true})
        cursor => listEvents dayTexts (uuid4 1 0) 1 j.1.toJournal cursor)
        (List.replicate 3 ⟨pagedSnapshot,rfl⟩) none =
      ⟨[queuedEvent,admittedEvent],some (.ok ())⟩ := by
  have hlimit : 1 ≤ 1 ∧ 1 ≤ 100 := by decide
  obtain ⟨-,-,hchunks,-,hevents,-⟩ := cursor_pagination_complete dayTexts booksSettings hlimit
  constructor
  · exact (hchunks (uuid4 1 0) (uuid4 2 0)).static pagedSnapshot rfl 3 (by decide)
  · exact (hevents (uuid4 1 0)).static ⟨pagedSnapshot,rfl⟩ trivial 3 (by decide)

/-- The second page of a walk over chunks is refused once the deletion of the document has begun,
although its sealed revision is still the same. -/
theorem chunk_walk_ends_with_deletion : ∃ (m : MutationOutcome) (cursor : String),
    Api.deleteDocument booksSettings 9 (uuid4 1 0) sampleOperator pagedCatalog = .ok m ∧
    listChunks dayTexts (uuid4 1 0) 1 pagedCatalog none =
      .ok ⟨[pagedChunk 0],some cursor⟩ ∧
    listChunks dayTexts (uuid4 1 0) 1 m.catalog (some cursor) =
      .error (.lifecycle "content_purged" "Prepared content is unavailable." 410) ∧
    (m.catalog.document? (uuid4 1 0)).bind latestSealedRevision = some pagedRevision := by
  refine ⟨_,_,rfl,rfl,rfl,rfl⟩

end Listing
end PdfBridge
