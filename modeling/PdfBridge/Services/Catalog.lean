import Mathlib.Data.String.Basic
import PdfBridge.Core.Config
import PdfBridge.Foundation.Codec
import PdfBridge.Foundation.Keyset
import PdfBridge.Presentation.ApiSerializers

/-! Read-only catalog queries with opaque cursor pagination. -/
namespace PdfBridge
namespace Listing
open Keyset Intake
open Api (terminalState)

/-- The text of the values that have one, and how it is read back. -/
structure TextForm (α : Type) where
  valid : α → Prop
  str : α → String
  parse : String → Option α
  parse_str : ∀ a, valid a → parse (str a) = some a
  plain : ∀ a, valid a → Codec.Plain (str a)
  length_le : ∀ a, valid a → (str a).length ≤ 40

/-- `str(uuid)` with `uuid.UUID`, and `isoformat` with `fromisoformat`. -/
structure Texts where
  uuid : TextForm Uuid
  time : TextForm Time

/-! ### Cursors -/

def invalidCursor : ServiceError :=
  .lifecycle "invalid_cursor" "The pagination cursor is invalid." 400

def validateLimit (limit : ℕ) : Outcome Unit :=
  require (1 ≤ limit ∧ limit ≤ 100)
    (.lifecycle "invalid_limit" "Pagination limit must be between 1 and 100." 400)

/-- `set(payload) == names`. -/
def hasFields (payload : Codec.Payload) (names : List String) : Bool :=
  payload.all (fun m => m.1 ∈ names) && names.all fun name => name ∈ payload.map Prod.fst

def decimalText (n : ℕ) : String := String.ofList (Nat.toDigits 10 n)

/-- `str(payload[name])`. -/
def fieldText (payload : Codec.Payload) (name : String) : Option String :=
  (payload.lookup name).map fun
    | .str s => s
    | .int n => decimalText n

/-- `str.isdecimal` and `int`. -/
def decimal (s : String) : Option ℕ :=
  if s.toList ≠ [] ∧ s.toList.all Char.isDigit then some (Nat.ofDigitChars 10 s.toList 0)
  else none

/-- `int(payload[name])`. -/
def fieldInt (payload : Codec.Payload) (name : String) : Option ℕ :=
  (fieldText payload name).bind decimal

def version (payload : Codec.Payload) : Bool := payload.lookup "v" = some (.int 1)

def timestampPayload (texts : Texts) (timestamp : Time) (identifier : String) : Codec.Payload :=
  [("id",.str identifier),("t",.str (texts.time.str timestamp)),("v",.int 1)]

/-- `_encode_cursor` of `services/catalog.py`. -/
def encodeCursor (texts : Texts) (timestamp : Time) (identifier : String) : String :=
  Codec.encodeCursor (timestampPayload texts timestamp identifier)

/-- `_decode_cursor` of `services/catalog.py`, with the identifier parsed by its caller. -/
def decodeCursor {ι : Type} (texts : Texts) (identifier : String → Option ι) (cursor : String) :
    Outcome (Time × ι) := do
  require (cursor ≠ "" ∧ cursor.length ≤ 500) invalidCursor
  let payload ← orRaise (Codec.decodeCursor cursor) invalidCursor
  require (hasFields payload ["v","t","id"] ∧ version payload) invalidCursor
  let timestamp ← orRaise ((fieldText payload "t").bind texts.time.parse) invalidCursor
  let i ← orRaise ((fieldText payload "id").bind identifier) invalidCursor
  pure (timestamp,i)

/-- `_decode_cursor` of `managers/catalog.py`. -/
def decodePayload (fields : List String) (cursor : String) : Outcome Codec.Payload := do
  require (cursor ≠ "" ∧ cursor.length ≤ 2048) invalidCursor
  let payload ← orRaise (Codec.decodeCursor cursor) invalidCursor
  require (hasFields payload ("v" :: fields) ∧ version payload) invalidCursor
  pure payload

/-- `order_by(…).limit(limit + 1)`, the items of the page and the cursor of its last one. -/
def selectPage {ρ κ : Type} [LinearOrder κ] (order : ρ → κ) (limit : ℕ) (cursorOf : ρ → String)
    (rows : List ρ) : Page ρ String :=
  let items := (rows.insertionSort fun a b => order a ≤ order b).take (limit + 1)
  let hasMore := decide (limit < items.length)
  let items := items.take limit
  ⟨items,if hasMore then items.getLast?.map cursorOf else none⟩

/-- The order newest first, with the identifier as a stable tie-breaker. -/
abbrev Newest (ι : Type) := (Time ×ₗ ι)ᵒᵈ

def newestKey {ρ ι : Type} (time : ρ → Time) (id : ρ → ι) (r : ρ) : Newest ι :=
  OrderDual.toDual (toLex (time r,id r))

/-- `if cursor:`; an empty cursor is none. -/
def given (cursor : Option String) : Option String := cursor.filter fun s => s ≠ ""

/-- The page of a query by timestamp and identifier, strictly below an optional cursor. -/
def selectNewest {ρ ι : Type} [LinearOrder ι] (texts : Texts) (time : ρ → Time) (id : ρ → ι)
    (str : ι → String) (parse : String → Option ι) (limit : ℕ) (rows : List ρ)
    (cursor : Option String) : Outcome (Page ρ String) := do
  let after ← match given cursor with
    | none => pure none
    | some cursor => some <$> decodeCursor texts parse cursor
  let rows := rows.filter fun r => after.all fun (timestamp,identifier) =>
    time r < timestamp || (time r = timestamp && id r < identifier)
  pure (selectPage (newestKey time id) limit
    (fun r => encodeCursor texts (time r) (str (id r))) rows)

/-- A slice of an ordered list from a position on, and the cursor of its last item. -/
def slicePage {ρ : Type} (limit : ℕ) (cursorOf : ρ → String) (records : List ρ) (start : ℕ) :
    Page ρ String :=
  let selected := (records.drop start).take limit
  let hasMore := decide (start + selected.length < records.length)
  ⟨selected,if hasMore then selected.getLast?.map cursorOf else none⟩

/-! ### Collections -/

structure CollectionRecord where
  definition : CollectionDefinition
  counts : List (DocumentState × ℕ)
deriving DecidableEq

def documentStates : List DocumentState :=
  [.preflighting,.preflightFailed,.reviewRequired,.publishing,.publishFailed,.ready,.deleting,
    .deleteFailed,.rejected,.cancelled,.deleted]

/-- Enabled deployment collections with exact catalog state counts. -/
def collectionRecords (s : Settings) (c : Catalog) : List CollectionRecord :=
  (s.collections.filter CollectionDefinition.enabled).map fun definition =>
    ⟨definition,documentStates.map fun state => (state,c.documents.rows.countP fun d =>
      d.intake.collectionKey = definition.key && d.state = state)⟩

def collectionPayload (key : CollectionKey) : Codec.Payload :=
  [("after",.str key),("kind",.str "collections"),("v",.int 1)]

def collectionCursor (r : CollectionRecord) : String :=
  Codec.encodeCursor (collectionPayload r.definition.key)

/-- One stable configuration-ordered page of enabled collections. -/
def listCollections (s : Settings) (limit : ℕ) (c : Catalog) (cursor : Option String) :
    Outcome (Page CollectionRecord String) := do
  validateLimit limit
  let records := collectionRecords s c
  let start ← match cursor with
    | none => pure 0
    | some cursor => do
        let payload ← decodePayload ["kind","after"] cursor
        require (payload.lookup "kind" = some (.str "collections")) invalidCursor
        match payload.lookup "after" with
        | some (.str after) =>
            let position ← orRaise
              (records.findIdx? fun r => r.definition.key.1 = after) invalidCursor
            pure (position + 1)
        | _ => .error invalidCursor
  pure (slicePage limit collectionCursor records start)

/-! ### Documents -/

/-- The nonterminal documents of a collection in one state, or in any. -/
def matchingDocuments (collectionKey : CollectionKey) (state : Option DocumentState)
    (c : Catalog) : List Document :=
  c.documents.rows.filter fun d => d.intake.collectionKey = collectionKey &&
    !terminalState d.state && state.all (fun st => d.state = st)

/-- List nonterminal collection documents newest-first. -/
def listDocuments (texts : Texts) (collectionKey : CollectionKey) (state : Option DocumentState)
    (limit : ℕ) (c : Catalog) (cursor : Option String) : Outcome (Page Document String) := do
  validateLimit limit
  if state.any terminalState then pure ⟨[],none⟩
  else
    selectNewest texts Document.createdAt Document.id texts.uuid.str texts.uuid.parse limit
      (matchingDocuments collectionKey state c) cursor

/-! ### Prepared content -/

def documentNotFound : ServiceError :=
  .lifecycle "document_not_found" "The document was not found." 404

/-- Gate Markdown and chunks to states that require a sealed revision. -/
def canServePreparedContent (d : Document) : Bool :=
  d.intake.scanState = .clean && d.storageKey.isSome &&
    d.state ∈ [.reviewRequired,.publishing,.publishFailed,.ready]

def contentPurged (d : Document) : Bool :=
  terminalState d.state || d.state = .deleting || d.state = .deleteFailed

def chunkPayload (texts : Texts) (revisionId : Uuid) (index : ℕ) : Codec.Payload :=
  [("chunk_index",.int index),("revision_id",.str (texts.uuid.str revisionId)),("v",.int 1)]

def chunkCursor (texts : Texts) (revisionId : Uuid) (chunk : PreparedChunk) : String :=
  Codec.encodeCursor (chunkPayload texts revisionId chunk.chunkIndex)

/-- The chunk index after which a page starts, in the revision that the cursor names. -/
def chunkPageStart (texts : Texts) (revisionId : Uuid) (cursor : String) : Outcome ℕ := do
  let payload ← orRaise (Codec.decodeCursor cursor) invalidCursor
  require (hasFields payload ["v","revision_id","chunk_index"] ∧ version payload) invalidCursor
  let named ← orRaise ((fieldText payload "revision_id").bind texts.uuid.parse) invalidCursor
  require (named = revisionId) invalidCursor
  orRaise (fieldInt payload "chunk_index") invalidCursor

/-- Stable chunk-index pages of the current sealed revision. -/
def listChunks (texts : Texts) (documentId : Uuid) (limit : ℕ) (c : Catalog)
    (cursor : Option String) : Outcome (Page PreparedChunk String) := do
  validateLimit limit
  let d ← orRaise (c.document? documentId) documentNotFound
  if canServePreparedContent d = false then
    if contentPurged d then
      .error (.lifecycle "content_purged" "Prepared content is unavailable." 410)
    else .error (.lifecycle "artifact_not_ready" "Chunks are not ready." 409)
  else do
    let revision ← orRaise (latestSealedRevision d)
      (.lifecycle "artifact_not_ready" "Chunks are not ready." 409)
    let after ← match given cursor with
      | none => pure none
      | some cursor => some <$> chunkPageStart texts revision.id cursor
    let rows := revision.content.chunks.filter fun x => after.all fun index => index < x.chunkIndex
    pure (selectPage PreparedChunk.chunkIndex limit (chunkCursor texts revision.id) rows)

def preflightRevision (documentId : Uuid) (c : Catalog) : Outcome PreparedRevision := do
  let d ← orRaise (c.document? documentId) documentNotFound
  require (contentPurged d = false)
    (.lifecycle "content_purged" "Preflight evidence was purged." 410)
  orRaise (latestSealedRevision d)
    (.lifecycle "artifact_not_ready" "Preflight evidence is not ready." 409)

def candidatePayload (texts : Texts) (revisionId : Uuid) (x : PreparedCandidate) :
    Codec.Payload :=
  [("id",.str (texts.uuid.str x.id)),("kind",.str "preflight"),("rank",.int x.rank),
    ("revision_id",.str (texts.uuid.str revisionId)),("v",.int 1)]

def candidateCursor (texts : Texts) (revisionId : Uuid) (x : PreparedCandidate) : String :=
  Codec.encodeCursor (candidatePayload texts revisionId x)

/-- `sorted(revision.candidates, key=lambda item: (item.rank, str(item.id)))`. -/
def sortedCandidates (texts : Texts) (candidates : List PreparedCandidate) :
    List PreparedCandidate :=
  candidates.insertionSort fun a b =>
    toLex (a.rank,texts.uuid.str a.id) ≤ toLex (b.rank,texts.uuid.str b.id)

/-- `_candidate_page_start`. -/
def candidatePageStart (texts : Texts) (revisionId : Uuid) (candidates : List PreparedCandidate) :
    Option String → Outcome ℕ
  | none => pure 0
  | some cursor => do
      let payload ← decodePayload ["kind","revision_id","rank","id"] cursor
      let named ← orRaise ((fieldText payload "revision_id").bind texts.uuid.parse) invalidCursor
      let candidateId ← orRaise ((fieldText payload "id").bind texts.uuid.parse) invalidCursor
      let rank ← orRaise (fieldInt payload "rank") invalidCursor
      require (payload.lookup "kind" = some (.str "preflight") ∧ named = revisionId ∧ 1 ≤ rank)
        invalidCursor
      let position ← orRaise
        (candidates.findIdx? fun x => x.id = candidateId && x.rank = rank) invalidCursor
      pure (position + 1)

/-- One revision-bound page of retained preflight candidates. -/
def getPreflight (texts : Texts) (documentId : Uuid) (limit : ℕ) (c : Catalog)
    (cursor : Option String) : Outcome (Page PreparedCandidate String) := do
  validateLimit limit
  let revision ← preflightRevision documentId c
  let candidates := sortedCandidates texts revision.content.candidates
  let start ← candidatePageStart texts revision.id candidates cursor
  pure (slicePage limit (candidateCursor texts revision.id) candidates start)

/-! ### Events and history -/

/-- A row of `audit_events`, whose key is an integer column. -/
structure AuditEventRow where
  id : Fin (2 ^ 31)
  documentId : Option Uuid
  occurredAt : Time
  eventType : String
deriving DecidableEq

structure TombstoneRow where
  id : Uuid
  documentId : Uuid
  collectionKey : CollectionKey
  disposition : TerminalDisposition
  occurredAt : Time
deriving DecidableEq

/-- The append-only tables beside the documents. -/
structure Journal where
  catalog : Catalog
  events : Table AuditEventRow.id
  tombstones : Table TombstoneRow.id

def matchingEvents (documentId : Uuid) (j : Journal) : List AuditEventRow :=
  j.events.rows.filter fun e => e.documentId = some documentId

def listEvents (texts : Texts) (documentId : Uuid) (limit : ℕ) (j : Journal)
    (cursor : Option String) : Outcome (Page AuditEventRow String) := do
  validateLimit limit
  require ((j.catalog.document? documentId).isSome = true) documentNotFound
  selectNewest texts AuditEventRow.occurredAt (fun e => e.id.1) decimalText decimal limit
    (matchingEvents documentId j) cursor

def matchingTombstones (visible : List CollectionKey) (collectionKey : Option CollectionKey)
    (disposition : Option TerminalDisposition) (j : Journal) : List TombstoneRow :=
  j.tombstones.rows.filter fun t => t.collectionKey ∈ visible &&
    collectionKey.all (fun key => t.collectionKey = key) &&
    disposition.all (fun x => t.disposition = x)

/-- Content-free tombstones of the visible collections. -/
def listHistory (texts : Texts) (visible : List CollectionKey)
    (collectionKey : Option CollectionKey) (disposition : Option TerminalDisposition) (limit : ℕ)
    (j : Journal) (cursor : Option String) : Outcome (Page TombstoneRow String) := do
  validateLimit limit
  require (visible ≠ [])
    (.lifecycle "collection_not_found" "No configured collection is visible." 404)
  selectNewest texts TombstoneRow.occurredAt TombstoneRow.id texts.uuid.str texts.uuid.parse limit
    (matchingTombstones visible collectionKey disposition j) cursor

end Listing
end PdfBridge
