import PdfBridge.Core.Config
import PdfBridge.Foundation.Reading
import PdfBridge.Foundation.Unicode
import PdfBridge.Persistence.Catalog
import Mathlib.Algebra.Order.Ring.Rat

/-! The operator search: one bounded query to the retrieval service, the validation of what it
answers, and the correlation of every hit with the catalog. -/
namespace PdfBridge
namespace Search
open Unicode Reading

abbrev Bytes := List UInt8

/-- The detail, the status, the code and the title of a refusal. -/
structure Problem where
  detail : String
  status : ℕ
  code : String
  title : String
deriving DecidableEq

/-! ### The query -/

inductive SearchMode where
  | keyword
  | semantic
  | hybrid
deriving DecidableEq

/-- The `query_is_bounded_text` validator, after the bounds of the field. -/
def queryText (q : Str) : Option Str :=
  let stripped := strip q
  if 1 ≤ q.length ∧ q.length ≤ 1000 ∧ stripped ≠ [] ∧ stripped.all (fun c => 32 ≤ c.val) = true then
    some stripped
  else none

structure OperatorSearchRequest where
  collectionKey : CollectionKey
  query : Str
  mode : SearchMode
  limit : ℕ
  valid : queryText query = some query
  bounded : 1 ≤ limit ∧ limit ≤ 100

/-! ### The answer -/

/-- One result as it stands in the answer; a score that is no finite number is `none`. -/
structure OperatorSearchHit where
  rank : ℤ
  documentId : Uuid
  preparedRevisionId : Uuid
  collectionKey : CollectionKey
  originalFilename : String
  chunkId : Option Uuid
  pageStart : Option ℤ
  pageEnd : Option ℤ
  headingPath : List String
  score : Option ℚ
  excerpt : String
deriving DecidableEq

structure SearchResponse where
  collectionKey : CollectionKey
  query : Str
  mode : SearchMode
  results : List OperatorSearchHit
deriving DecidableEq

/-- The bounds of the fields of a hit and `page_range_is_complete_and_ordered`. -/
def hitValid (x : OperatorSearchHit) : Bool :=
  1 ≤ x.rank && x.rank ≤ 100 &&
  1 ≤ x.originalFilename.length && x.originalFilename.length ≤ 255 &&
  x.pageStart.all (1 ≤ ·) && x.pageEnd.all (1 ≤ ·) &&
  x.headingPath.length ≤ 32 && x.score.isSome &&
  1 ≤ x.excerpt.length && x.excerpt.length ≤ 4000 &&
  (x.pageStart.isSome = x.pageEnd.isSome) &&
  (match x.pageStart, x.pageEnd with
    | some first, some last => first ≤ last
    | _, _ => true)

/-- `results_match_scope_and_rank`. -/
def resultsMatch (x : SearchResponse) : Bool :=
  x.results.all (fun r => r.collectionKey = x.collectionKey) &&
  x.results.map (·.rank) = (List.range' 1 x.results.length).map Int.ofNat &&
  (x.results.map fun r => (r.documentId,r.chunkId)).Nodup

/-- `OperatorSearchResponse.model_validate`. -/
def modelValidate (x : SearchResponse) : Option SearchResponse := do
  let query ← queryText x.query
  if x.results.length ≤ 100 ∧ x.results.all hitValid = true ∧ resultsMatch x = true then
    some {x with query := query}
  else none

/-! ### The exchange -/

/-- The integration with the retrieval service, as far as it is configured. -/
structure SearchSettings where
  searchApiUrl : Option Str
  searchApiToken : Option Str

/-- What is posted to the retrieval service. -/
structure Posted where
  url : Str
  accept : Str
  authorization : Str
  body : OperatorSearchRequest

/-- What comes back: a status and the pieces of a body, which may break off. -/
structure Answer where
  status : ℕ
  pieces : List Bytes
  complete : Bool

/-- The retrieval service; `none` when it cannot be reached. -/
abbrev Upstream := Posted → Option Answer

def maxSearchResponseBytes : ℕ := 2 * 1024 * 1024

def collectionNotFound : Problem :=
  ⟨"The requested collection is not available.",404,"collection_not_found",
    "Collection not found"⟩

def searchNotConfigured : Problem :=
  ⟨"The operator retrieval integration is not configured.",503,"search_not_configured",
    "Search is unavailable"⟩

def searchUnavailable : Problem :=
  ⟨"The retrieval service could not be reached; no fallback was used.",503,"search_unavailable",
    "Search is unavailable"⟩

def searchUpstreamError : Problem :=
  ⟨"The retrieval service rejected the query; no fallback was used.",502,"search_upstream_error",
    "Search upstream failed"⟩

def searchInvalidResponse : Problem :=
  ⟨"The retrieval service returned an invalid response.",502,"search_invalid_response",
    "Search response was invalid"⟩

def searchCatalogMismatch : Problem :=
  ⟨"The retrieval result no longer matches the READY catalog.",502,"search_catalog_mismatch",
    "Search response was invalid"⟩

/-- `response.raise_for_status()` passes a success only. -/
def isSuccess (status : ℕ) : Bool := 200 ≤ status && status < 300

/-- The body of an answer, read piece by piece. -/
def readBody (x : Answer) : Except Problem Bytes :=
  match readBounded maxSearchResponseBytes (fun body piece => body ++ piece) 0 [] x.pieces with
  | none => .error searchInvalidResponse
  | some body => if x.complete then .ok body else .error searchUnavailable

/-- The answer is one to this request. -/
def correlates (request : OperatorSearchRequest) (x : SearchResponse) : Bool :=
  x.collectionKey = request.collectionKey && x.query = request.query && x.mode = request.mode &&
  x.results.length ≤ request.limit

/-- The request to the service, when the integration is configured. -/
def posted? (x : SearchSettings) (request : OperatorSearchRequest) : Option Posted :=
  match x.searchApiUrl, x.searchApiToken with
  | some url, some token =>
      some ⟨url.rdropWhile (· = codePoint '/') ++ str "/search",str "application/json",
        str "Bearer " ++ token,request⟩
  | _, _ => none

variable (loads : Bytes → Option SearchResponse)

/-- `search_retrieval`; `loads` reads JSON into the fields of a response. -/
def searchRetrieval (s : Settings) (x : SearchSettings) (upstream : Upstream)
    (request : OperatorSearchRequest) : Except Problem SearchResponse :=
  match s.enabledCollection? request.collectionKey with
  | none => .error collectionNotFound
  | some _ =>
    match posted? x request with
    | none => .error searchNotConfigured
    | some posted =>
      match upstream posted with
      | none => .error searchUnavailable
      | some answer =>
        if isSuccess answer.status then
          match readBody answer with
          | .error e => .error e
          | .ok body =>
            match (loads body).bind modelValidate with
            | none => .error searchInvalidResponse
            | some result =>
              if correlates request result then .ok result else .error searchInvalidResponse
        else .error searchUpstreamError

/-! ### The catalog -/

/-- A prepared revision with the document that it belongs to. -/
def revisionRow? (c : Catalog) (id : Uuid) : Option (Document × PreparedRevision) :=
  c.documents.rows.findSome? fun d => (d.revision? id).map fun r => (d,r)

/-- The catalog still shows what the hit names. -/
def hitMatches (c : Catalog) (request : OperatorSearchRequest) (hit : OperatorSearchHit) : Bool :=
  match c.document? hit.documentId, revisionRow? c hit.preparedRevisionId with
  | some d, some (owner,r) =>
      d.state = .ready && d.intake.collectionKey = request.collectionKey &&
      d.intake.originalFilename.val = hit.originalFilename && owner.id = d.id &&
      r.status = .sealed && (owner.publicationForRevision r.id).isSome
  | _, _ => false

/-- `search_documents`. -/
def searchDocuments (s : Settings) (x : SearchSettings) (upstream : Upstream) (c : Catalog)
    (request : OperatorSearchRequest) : Except Problem SearchResponse :=
  match searchRetrieval loads s x upstream request with
  | .error e => .error e
  | .ok response =>
    if response.results.all (hitMatches c request) then .ok response
    else .error searchCatalogMismatch

end Search
end PdfBridge
