import PdfBridge.Foundation.JsonText
import PdfBridge.Services.Catalog

/-! Cursors of unknown origin. Each decoder converts through base64, UTF-8, JSON, dates, UUIDs and
integers, and turns the exceptions that it names into one refusal; all others leave the request. -/
namespace PdfBridge
namespace Cursors
open Json Unicode Intake Keyset Listing
open Api (terminalState)

/-! ### Exceptions -/

/-- The exceptions of the interpreter and of the database driver; `binascii.Error`,
`UnicodeDecodeError` and `JSONDecodeError` count as `ValueError`. -/
inductive Exception where
  | value
  | type
  | key
  | overflow
  | recursion
deriving DecidableEq

/-- How a request ends without a page. -/
inductive Raised where
  | service (e : ServiceError)
  | escaped (e : Exception)
deriving DecidableEq

abbrev Guarded (α : Type) := Except Exception α

abbrev Attempt (α : Type) := Except Raised α

def served {α : Type} (x : Outcome α) : Attempt α := x.mapError .service

/-- A statement outside every `try`. -/
def bare {α : Type} (x : Guarded α) : Attempt α := x.mapError .escaped

/-- `try: … except caught as exc: raise LifecycleError("invalid_cursor", …) from exc`. -/
def guarded {α : Type} (caught : List Exception) : Guarded α → Attempt α
  | .ok a => .ok a
  | .error e => if e ∈ caught then .error (.service invalidCursor) else .error (.escaped e)

def raiseOn {α : Type} (e : Exception) : Option α → Guarded α
  | some a => .ok a
  | none => .error e

/-! ### The standard library -/

/-- One past the last microsecond of year 9999, counted from the beginning of year 1. -/
def calendarEnd : ℤ := 3652059 * 86400000000

/-- A `datetime`: its local time in microseconds and its offset from UTC. -/
structure Moment where
  micros : ℤ
  offset : Option ℤ
  within : 0 ≤ micros ∧ micros < calendarEnd
deriving DecidableEq

/-- What the decoders call: each conversion returns a value or raises one kind of exception. What
an encoder wrote is read back. -/
structure Library (texts : Texts) where
  py : Interpreter
  /-- `base64.urlsafe_b64decode`. -/
  urlsafeB64decode : Str → Option (List UInt8)
  decodeUtf8 : List UInt8 → Option Str
  /-- `str(value)` of anything but a string; deep nesting exhausts the stack. -/
  repr : Value → Option Str
  /-- `datetime.fromisoformat`. -/
  fromisoformat : Str → Option Moment
  /-- `uuid.UUID`. -/
  uuid : Str → Option Uuid
  /-- `int` of a string. -/
  int : Str → Option ℤ
  isdecimal : Str → Bool
  decode_encode64 : ∀ text, Codec.Ascii text →
    urlsafeB64decode (str (Codec.encode64 text) ++
      List.replicate ((4 - (Codec.encode64 text).length % 4) % 4) 61) =
        some (text.map fun c => UInt8.ofNat c.toNat)
  decode_ascii : ∀ text, Codec.Ascii text →
    decodeUtf8 (text.map fun c => UInt8.ofNat c.toNat) = some (text.map codePoint)
  uuid_str : ∀ u, texts.uuid.valid u → uuid (str (texts.uuid.str u)) = some u
  printable : ∀ u, texts.uuid.valid u → ∀ c, c ∈ (texts.uuid.str u).toList → 32 ≤ c.toNat
  digits_limit : py.maxDigits.all (fun limit => 640 ≤ limit) = true
  stack_limit : py.stack.all (fun limit => 1 ≤ limit) = true

variable {texts : Texts} (lib : Library texts)

/-- `cursor + "=" * (-len(cursor) % 4)`. -/
def padded (cursor : Str) : Str := cursor ++ List.replicate ((4 - cursor.length % 4) % 4) 61

/-- `json.loads(base64.urlsafe_b64decode(padded).decode("utf-8"))`. -/
def opened (cursor : Str) : Guarded Value := do
  let bytes ← raiseOn .value (lib.urlsafeB64decode (padded cursor))
  let text ← raiseOn .value (lib.decodeUtf8 bytes)
  match loads lib.py text with
  | .ok payload => .ok payload
  | .error .invalid => .error .value
  | .error .recursion => .error .recursion

def hashable : Value → Bool
  | .list _ => false
  | .object _ => false
  | _ => true

def isText (s : Str) : Value → Bool
  | .str t => t = s
  | _ => false

def hasNames (names : List Str) (ms : Members) : Bool :=
  ms.all (fun m => m.1 ∈ names) && names.all fun name => name ∈ ms.map Prod.fst

/-- `set(payload) == names`; a set takes keys, items or characters. -/
def setEquals (names : List Str) : Value → Guarded Bool
  | .object ms => .ok (hasNames names ms)
  | .list items =>
      if items.all hashable then
        .ok (items.all (fun x => names.any fun name => isText name x) &&
          names.all fun name => items.any (isText name))
      else .error .type
  | .str s => .ok (s.all (fun c => [c] ∈ names) && names.all fun name => s.any fun c => name = [c])
  | _ => .error .type

/-- `payload[name]`. -/
def item (name : Str) : Value → Guarded Value
  | .object ms => raiseOn .key (ms.lookup name)
  | _ => .error .type

/-- `value == 1`. -/
def equalsOne : Value → Bool
  | .int n => n = 1
  | .bool b => b
  | .float (.finite x) => x.1 = 1
  | _ => false

/-- `if set(payload) != names or payload["v"] != 1: raise ValueError`. -/
def requireFields (names : List Str) (payload : Value) : Guarded Unit := do
  let same ← setEquals names payload
  if same then do
    let version ← item (str "v") payload
    if equalsOne version then .ok () else .error .value
  else .error .value

/-- `str(value)`. -/
def text : Value → Guarded Str
  | .str s => .ok s
  | v => raiseOn .recursion (lib.repr v)

/-- `int(value)`. -/
def toInt : Value → Guarded ℤ
  | .int n => .ok n
  | .bool b => .ok (if b then 1 else 0)
  | .float .negativeZero => .ok 0
  | .float (.finite x) => .ok (x.1.num.tdiv x.1.den)
  | .float (.infinite _) => .error .overflow
  | .float .nan => .error .value
  | .str s => raiseOn .value (lib.int s)
  | .null => .error .type
  | .list _ => .error .type
  | .object _ => .error .type

/-- `uuid.UUID(str(payload[name]))`. -/
def uuidItem (name : Str) (payload : Value) : Guarded Uuid := do
  let v ← item name payload
  let s ← text lib v
  raiseOn .value (lib.uuid s)

/-- An integer as a parameter of a statement; SQLite binds 64 bits. -/
def bound (n : ℤ) : Guarded ℤ :=
  if -2 ^ 63 ≤ n ∧ n < 2 ^ 63 then .ok n else .error .overflow

/-- `timestamp.astimezone(UTC)`. -/
def astimezone (timestamp : Moment) (offset : ℤ) : Guarded Time :=
  let utc := timestamp.micros - offset
  if 0 ≤ utc ∧ utc < calendarEnd then .ok utc.toNat else .error .overflow

/-- `s.replace("Z", "+00:00")`. -/
def replaceZulu (s : Str) : Str := s.flatMap fun c => if c = 90 then str "+00:00" else [c]

/-! ### Decoders -/

abbrev versionKey : Str := str "v"
abbrev timeKey : Str := str "t"
abbrev idKey : Str := str "id"
abbrev revisionKey : Str := str "revision_id"
abbrev indexKey : Str := str "chunk_index"
abbrev kindKey : Str := str "kind"
abbrev rankKey : Str := str "rank"
abbrev afterKey : Str := str "after"

/-- An aware timestamp of the payload with its offset. -/
def timestampItem (payload : Value) : Guarded (Moment × ℤ) := do
  let v ← item timeKey payload
  let s ← text lib v
  let timestamp ← raiseOn .value (lib.fromisoformat (replaceZulu s))
  let offset ← raiseOn .value timestamp.offset
  pure (timestamp,offset)

/-- The guarded conversions of `_decode_cursor` of `services/catalog.py`. -/
def timestampPayload {ι : Type} (identifier : Str → Guarded ι) (cursor : Str) :
    Guarded ((Moment × ℤ) × ι) := do
  let payload ← opened lib cursor
  requireFields [versionKey,timeKey,idKey] payload
  let timestamp ← timestampItem lib payload
  let v ← item idKey payload
  let s ← text lib v
  let i ← identifier s
  pure (timestamp,i)

/-- `_decode_cursor` of `services/catalog.py`. -/
def decodeTimestamp {ι : Type} (identifier : Str → Guarded ι) (cursor : Str) :
    Attempt (Time × ι) :=
  if cursor = [] ∨ 500 < cursor.length then .error (.service invalidCursor)
  else do
    let (timestamp,i) ← guarded [.value,.type,.key] (timestampPayload lib identifier cursor)
    let time ← bare (astimezone timestamp.1 timestamp.2)
    pure (time,i)

/-- `str(uuid.UUID(identifier))`, read again by the caller. -/
def uuidIdentifier (s : Str) : Guarded Uuid := raiseOn .value (lib.uuid s)

/-- `if not identifier.isdecimal(): raise ValueError`. -/
def decimalIdentifier (s : Str) : Guarded Str := if lib.isdecimal s then .ok s else .error .value

/-- The guarded conversions of the decoder in `list_chunks`. -/
def chunkPayload (revisionId : Uuid) (cursor : Str) : Guarded ℤ := do
  let payload ← opened lib cursor
  requireFields [versionKey,revisionKey,indexKey] payload
  let named ← uuidItem lib revisionKey payload
  if named ≠ revisionId then .error .value
  else do
    let v ← item indexKey payload
    let index ← toInt lib v
    if index < 0 then .error .value else pure index

/-- The guarded conversions of `_decode_cursor` of `managers/catalog.py`. -/
def memberPayload (fields : List Str) (cursor : Str) : Guarded Members := do
  let payload ← opened lib cursor
  match payload with
  | .object ms => do
      requireFields (versionKey :: fields) payload
      pure ms
  | _ => .error .value

/-- `_decode_cursor` of `managers/catalog.py`. -/
def decodePayload (fields : List Str) (cursor : Str) : Attempt Members :=
  if cursor = [] ∨ 2048 < cursor.length then .error (.service invalidCursor)
  else guarded [.value,.type] (memberPayload lib fields cursor)

/-! ### Requests -/

/-- `if cursor:`. -/
def given : Option Str → Option Str
  | some [] => none
  | cursor => cursor

/-- The page of a query by timestamp and identifier, strictly below a position. -/
def newestPage (texts : Texts) {ρ ι : Type} [LinearOrder ι] (time : ρ → Time) (id : ρ → ι)
    (idText : ι → String) (limit : ℕ) (rows : List ρ) (after : Option (Time × ι)) : Page ρ String :=
  selectPage (newestKey time id) limit (fun r => encodeCursor texts (time r) (idText (id r)))
    (rows.filter fun r => after.all fun (timestamp,identifier) =>
      time r < timestamp || (time r = timestamp && id r < identifier))

/-- The position that a cursor of documents or tombstones names. -/
def uuidPosition (cursor : Option Str) : Attempt (Option (Time × Uuid)) :=
  match given cursor with
  | none => pure none
  | some cursor => some <$> decodeTimestamp lib (uuidIdentifier lib) cursor

def listDocuments (collectionKey : CollectionKey) (state : Option DocumentState) (limit : ℕ)
    (c : Catalog) (cursor : Option Str) : Attempt (Page Document String) := do
  served (validateLimit limit)
  if state.any terminalState then pure ⟨[],none⟩
  else do
    let after ← uuidPosition lib cursor
    pure (newestPage texts Document.createdAt Document.id texts.uuid.str limit
      (matchingDocuments collectionKey state c) after)

/-- The revision whose chunks a request may see. -/
def chunkRequest (documentId : Uuid) (limit : ℕ) (c : Catalog) : Outcome PreparedRevision := do
  validateLimit limit
  let d ← orRaise (c.document? documentId) documentNotFound
  if canServePreparedContent d = false then
    if contentPurged d then
      .error (.lifecycle "content_purged" "Prepared content is unavailable." 410)
    else .error (.lifecycle "artifact_not_ready" "Chunks are not ready." 409)
  else
    orRaise (latestSealedRevision d)
      (.lifecycle "artifact_not_ready" "Chunks are not ready." 409)

/-- The chunk index after which a page starts. -/
def chunkPosition (revisionId : Uuid) (cursor : Option Str) : Attempt ℤ := do
  let after ← match given cursor with
    | none => pure (-1)
    | some cursor => guarded [.value,.type] (chunkPayload lib revisionId cursor)
  bare (bound after)

def listChunks (documentId : Uuid) (limit : ℕ) (c : Catalog) (cursor : Option Str) :
    Attempt (Page PreparedChunk String) := do
  let revision ← served (chunkRequest documentId limit c)
  let after ← chunkPosition lib revision.id cursor
  pure (selectPage PreparedChunk.chunkIndex limit (chunkCursor texts revision.id)
    (revision.content.chunks.filter fun x => after < (x.chunkIndex : ℤ)))

def eventRequest (documentId : Uuid) (limit : ℕ) (j : Journal) : Outcome Unit := do
  validateLimit limit
  require ((j.catalog.document? documentId).isSome = true) documentNotFound

/-- The position that a cursor of events names; `int(identifier)` stands outside the guard. -/
def eventPosition (cursor : Option Str) : Attempt (Option (Time × ℤ)) :=
  match given cursor with
  | none => pure none
  | some cursor => do
      let (time,identifier) ← decodeTimestamp lib (decimalIdentifier lib) cursor
      let eventId ← bare (raiseOn .value (lib.int identifier))
      let eventId ← bare (bound eventId)
      pure (some (time,eventId))

def listEvents (documentId : Uuid) (limit : ℕ) (j : Journal) (cursor : Option Str) :
    Attempt (Page AuditEventRow String) := do
  served (eventRequest documentId limit j)
  let after ← eventPosition lib cursor
  pure (newestPage texts AuditEventRow.occurredAt (fun e => (e.id.1 : ℤ))
    (fun n => decimalText n.toNat) limit (matchingEvents documentId j) after)

/-- The checks of `list_history` before it reads its cursor. -/
def visibleRequest (visible : List CollectionKey) (limit : ℕ) : Outcome Unit := do
  validateLimit limit
  require (visible ≠ [])
    (.lifecycle "collection_not_found" "No configured collection is visible." 404)

def listHistory (visible : List CollectionKey) (collectionKey : Option CollectionKey)
    (disposition : Option TerminalDisposition) (limit : ℕ) (j : Journal) (cursor : Option Str) :
    Attempt (Page TombstoneRow String) := do
  served (visibleRequest visible limit)
  let after ← uuidPosition lib cursor
  pure (newestPage texts TombstoneRow.occurredAt TombstoneRow.id texts.uuid.str limit
    (matchingTombstones visible collectionKey disposition j) after)

/-- The guarded conversions of `_candidate_page_start`. -/
def candidatePayload (ms : Members) : Guarded (Uuid × Uuid × ℤ) := do
  let revisionId ← uuidItem lib revisionKey (.object ms)
  let candidateId ← uuidItem lib idKey (.object ms)
  let v ← item rankKey (.object ms)
  let rank ← toInt lib v
  pure (revisionId,candidateId,rank)

def refuse {α : Type} : Attempt α := .error (.service invalidCursor)

/-- `_candidate_page_start`. -/
def candidatePageStart (revisionId : Uuid) (candidates : List PreparedCandidate) :
    Option Str → Attempt ℕ
  | none => pure 0
  | some cursor => do
      let ms ← decodePayload lib [kindKey,revisionKey,rankKey,idKey] cursor
      let (named,candidateId,rank) ← guarded [.type,.value] (candidatePayload lib ms)
      if (ms.lookup kindKey).any (isText (str "preflight")) = false ∨ named ≠ revisionId ∨
          rank < 1 then refuse
      else
        match candidates.findIdx? fun x => x.id = candidateId && (x.rank : ℤ) = rank with
        | some position => pure (position + 1)
        | none => refuse

def candidateRequest (documentId : Uuid) (limit : ℕ) (c : Catalog) : Outcome PreparedRevision := do
  validateLimit limit
  preflightRevision documentId c

def getPreflight (documentId : Uuid) (limit : ℕ) (c : Catalog) (cursor : Option Str) :
    Attempt (Page PreparedCandidate String) := do
  let revision ← served (candidateRequest documentId limit c)
  let candidates := sortedCandidates texts revision.content.candidates
  let start ← candidatePageStart lib revision.id candidates cursor
  pure (slicePage limit (candidateCursor texts revision.id) candidates start)

/-- The position behind the collection that a cursor names. -/
def collectionPosition (records : List CollectionRecord) : Option Str → Attempt ℕ
  | none => pure 0
  | some cursor => do
      let ms ← decodePayload lib [kindKey,afterKey] cursor
      if (ms.lookup kindKey).any (isText (str "collections")) = false then refuse
      else
        match ms.lookup afterKey with
        | some (.str after) =>
            match records.findIdx? fun r => str r.definition.key.1 = after with
            | some position => pure (position + 1)
            | none => refuse
        | _ => refuse

def listCollections (s : Settings) (limit : ℕ) (c : Catalog) (cursor : Option Str) :
    Attempt (Page CollectionRecord String) := do
  served (validateLimit limit)
  let records := collectionRecords s c
  let start ← collectionPosition lib records cursor
  pure (slicePage limit collectionCursor records start)

/-! ### The coordinators over the catalog service -/

namespace Coordinator

/-- `configured_collection`: the collection must be configured and enabled. -/
def configuredCollection (s : Settings) (collectionKey : CollectionKey) : Outcome Unit :=
  require ((s.enabledCollection? collectionKey).isSome = true)
    (.lifecycle "collection_not_found" "The configured collection was not found." 404)

/-- The checks of a request for documents before it reads its cursor. -/
def documentRequest (s : Settings) (collectionKey : CollectionKey) (limit : ℕ) : Outcome Unit := do
  configuredCollection s collectionKey
  validateLimit limit

def listDocuments (s : Settings) (collectionKey : CollectionKey) (state : Option DocumentState)
    (limit : ℕ) (c : Catalog) (cursor : Option Str) : Attempt (Page Document String) := do
  served (configuredCollection s collectionKey)
  Cursors.listDocuments lib collectionKey state limit c cursor

def visibleKeys (s : Settings) : List CollectionKey :=
  (s.collections.filter CollectionDefinition.enabled).map CollectionDefinition.key

/-- The checks of a request for history before it reads its cursor. -/
def historyRequest (s : Settings) (collectionKey : Option CollectionKey) (limit : ℕ) :
    Outcome Unit := do
  collectionKey.forM (configuredCollection s)
  visibleRequest (visibleKeys s) limit

def listHistory (s : Settings) (collectionKey : Option CollectionKey)
    (disposition : Option TerminalDisposition) (limit : ℕ) (j : Journal) (cursor : Option Str) :
    Attempt (Page TombstoneRow String) := do
  served (collectionKey.forM (configuredCollection s))
  Cursors.listHistory lib (visibleKeys s) collectionKey disposition limit j cursor

end Coordinator

end Cursors
end PdfBridge
