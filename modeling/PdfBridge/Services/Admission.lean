import PdfBridge.Core.Config
import PdfBridge.Foundation.Framing
import PdfBridge.Foundation.Normalization
import PdfBridge.Foundation.Reading
import PdfBridge.Foundation.Table
import PdfBridge.Persistence.Models

/-! The admission of an upload before any database work: its name is checked, its bytes are streamed
into quarantine, and the malware scanner has to find the staged file clean. -/
namespace PdfBridge
namespace Admission
open Unicode Reading Framing

/-- The exceptions of an admission. -/
inductive Refusal where
  | lifecycle (code message : String) (status : ℕ) (retryable : Bool)
  | invalidFilename (message : String)
  | invalidPdf (message : String)
  | fileTooLarge (maxBytes : ℕ)
  | fileExists
  | scannerError (message : String)
  | scannerUnavailable (message : String)
  | scannerProtocol (message : String)
deriving DecidableEq

/-! ### Filenames -/

/-- `re.sub(r"\s+", " ", s)`; the flag says that a run of white space is going on. -/
def collapseSpaces : Bool → Str → Str
  | _, [] => []
  | inside, c :: s =>
      if isSpace c then
        if inside then collapseSpaces true s else codePoint ' ' :: collapseSpaces true s
      else c :: collapseSpaces false s

/-- What an admission takes from the platform. What `nfkc` has normalized stays normalized when its
white space is stripped and collapsed to single spaces. -/
structure Platform where
  normalization : Normalization
  casefold : Str → Str
  sha256 : Bytes → Digest
  decodeUtf8 : Bytes → Option Str
  collapsed : ∀ s, normalization.nfkc (collapseSpaces false (strip (normalization.nfkc s))) =
    collapseSpaces false (strip (normalization.nfkc s))

/-- The characters that a filename must not have. -/
def separators : Str := [codePoint '/',codePoint '\\',0]

variable (platform : Platform)

/-- The checks of `validate_pdf_filename` after the normal form. -/
def validateCandidate (candidate : Str) : Except Refusal Str :=
  if candidate.isEmpty = true ∨ candidate = str "." ∨ candidate = str ".." then
    .error (.invalidFilename "filename cannot be blank")
  else if candidate.any separators.contains then
    .error (.invalidFilename "filename must not contain path separators")
  else if candidate.any isControl then
    .error (.invalidFilename "filename must not contain control characters")
  else
    let name := collapseSpaces false candidate
    if 255 < name.length then
      .error (.invalidFilename "filename must be 255 characters or fewer")
    else if !(str ".pdf").isSuffixOf (platform.casefold name) then
      .error (.invalidFilename "only .pdf files are accepted")
    else .ok name

def validatePdfFilename (filename : Str) : Except Refusal Str :=
  validateCandidate platform (strip (platform.normalization.nfkc filename))

def normalizeFilename (filename : Str) : Except Refusal Str :=
  (validatePdfFilename platform filename).map platform.casefold

/-! ### Staging -/

def pdfHeaderBytes : ℕ := 1024

/-- The bytes that `lstrip(b"\x00\t\n\x0c\r ")` removes. -/
def signaturePadding : Bytes := [0x00,0x09,0x0a,0x0c,0x0d,0x20]

def hasPdfSignature (header : Bytes) : Bool :=
  [0x25,0x50,0x44,0x46,0x2d].isPrefixOf
    ((header.take pdfHeaderBytes).dropWhile (· ∈ signaturePadding))

/-- The limits of the settings; a scanner takes every upload that is not too large. -/
structure AdmissionLimits where
  maxUploadBytes : ℕ
  uploadChunkBytes : ℕ
  clamdStreamMaxBytes : ℕ
  positive : 0 < maxUploadBytes ∧ 0 < uploadChunkBytes
  scanned : maxUploadBytes ≤ clamdStreamMaxBytes

/-- A file in quarantine. -/
structure QuarantineFile where
  path : Uuid
  content : Bytes
deriving DecidableEq

abbrev Quarantine := Table QuarantineFile.path

/-- `path.unlink(missing_ok=True)`. -/
def unlink (path : Uuid) (q : Quarantine) : Quarantine := q.keep fun f => f.path ≠ path

structure StagedFile where
  path : Uuid
  sizeBytes : ℕ
  sha256 : Digest
deriving DecidableEq

/-- What the upload loop keeps: the header, the bytes that went into the digest, and the bytes that
were written. -/
structure Staging where
  header : Bytes
  digested : Bytes
  written : Bytes

def Staging.empty : Staging := ⟨[],[],[]⟩

def Staging.extend (x : Staging) (chunk : Bytes) : Staging where
  header :=
    if x.header.length < pdfHeaderBytes then
      x.header ++ chunk.take (pdfHeaderBytes - x.header.length)
    else x.header
  digested := x.digested ++ chunk
  written := x.written ++ chunk

/-- An upload: what `read(size)` returns, call after call. -/
abbrev Upload := ℕ → List Bytes

/-- The chunks before the first empty one. -/
def chunksRead (upload : Upload) (size : ℕ) : List Bytes :=
  (upload size).takeWhile fun chunk => !chunk.isEmpty

/-- `stream_upload`. -/
def streamUpload (limits : AdmissionLimits) (path : Uuid) (upload : Upload) (q : Quarantine) :
    Except Refusal StagedFile × Quarantine :=
  if q.rows.any (·.path = path) then (.error .fileExists,unlink path q)
  else
    let chunks := chunksRead upload limits.uploadChunkBytes
    match readBounded limits.maxUploadBytes Staging.extend 0 Staging.empty chunks with
    | none => (.error (.fileTooLarge limits.maxUploadBytes),unlink path (q.put ⟨path,[]⟩))
    | some x =>
      let written := q.put ⟨path,x.written⟩
      if x.written.length = 0 then
        (.error (.invalidPdf "empty files are not valid PDFs"),unlink path written)
      else if !hasPdfSignature x.header then
        (.error (.invalidPdf "file does not have a valid PDF signature"),unlink path written)
      else (.ok ⟨path,x.written.length,platform.sha256 x.digested⟩,written)

/-! ### Scanning -/

structure ScanResult where
  state : ScanState
  engine : String
  signature : Option Str
  scannedAt : Time
deriving DecidableEq

def clamdChunkBytes : ℕ := 1024 * 1024

def maxResponseBytes : ℕ := 16 * 1024

/-- What `file.read(size)` returns until the end of a file; the first argument bounds the calls. -/
def fileReads (size : ℕ) : ℕ → Bytes → List Bytes
  | _, [] => []
  | 0, _ => []
  | fuel + 1, b :: rest => (b :: rest).take size :: fileReads size fuel ((b :: rest).drop size)

/-- `zINSTREAM` and a zero byte. -/
def instreamCommand : Bytes := [0x7a,0x49,0x4e,0x53,0x54,0x52,0x45,0x41,0x4d,0x00]

/-- All that the scanner is sent for one file. -/
def instream (content : Bytes) : Bytes :=
  instreamCommand ++ frames (fileReads clamdChunkBytes content.length content)

/-- `connection.recv(size)`, and what of the reply is still to come. -/
def recv (size : ℕ) : List Bytes → Bytes × List Bytes
  | [] => ([],[])
  | piece :: rest => (piece.take size,if piece.length ≤ size then rest else piece.drop size :: rest)

/-- The loop of `_receive_response`; the first argument bounds the calls. -/
def receiveLoop : ℕ → Bytes → List Bytes → Bytes
  | 0, response, _ => response
  | fuel + 1, response, pieces =>
      if response.length < maxResponseBytes then
        match recv (min 4096 (maxResponseBytes - response.length)) pieces with
        | ([],_) => response
        | (chunk,rest) =>
            if 0 ∈ chunk ∨ 10 ∈ chunk then response ++ chunk
            else receiveLoop fuel (response ++ chunk) rest
      else response

def receiveResponse (pieces : List Bytes) : Except Refusal Str :=
  let response := receiveLoop maxResponseBytes [] pieces
  if response.isEmpty then
    .error (.scannerProtocol "clamd closed the connection without a response")
  else if maxResponseBytes ≤ response.length then
    .error (.scannerProtocol "clamd response exceeded the safety limit")
  else
    match platform.decodeUtf8 (response.rdropWhile (· ∈ ([0x00,0x0d,0x0a] : Bytes))) with
    | none => .error (.scannerProtocol "clamd returned a non-UTF-8 response")
    | some text => .ok text

/-- `response.partition(":")[2]`, where there is a colon. -/
def afterColon (response : Str) : Option Str :=
  match response.dropWhile (· ≠ codePoint ':') with
  | [] => none
  | _ :: rest => some rest

def parseScanResponse (now : Time) (response : Str) : Except Refusal ScanResult :=
  match afterColon response with
  | none => .error (.scannerProtocol "clamd returned a malformed scan response")
  | some rest =>
    let result := strip rest
    if result = str "OK" then .ok ⟨.clean,"clamd",none,now⟩
    else if (str " FOUND").isSuffixOf result then
      let signature := strip (result.take (result.length - 6))
      if signature.isEmpty then
        .error (.scannerProtocol "clamd reported malware without a signature")
      else .ok ⟨.infected,"clamd",some (signature.take 255),now⟩
    else if (str " ERROR").isSuffixOf result then
      .error (.scannerProtocol "clamd could not complete the scan")
    else .error (.scannerProtocol "clamd returned an unrecognized scan response")

/-- The scanner: what it replies, in pieces, to all that it is sent, or `none` when the exchange
fails. -/
abbrev Daemon := Bytes → Option (List Bytes)

def scanPieces (now : Time) (pieces : List Bytes) : Except Refusal ScanResult :=
  match receiveResponse platform pieces with
  | .error e => .error e
  | .ok response => parseScanResponse now response

/-- The exchange with the scanner about one content. -/
def scanContent (daemon : Daemon) (now : Time) (content : Bytes) : Except Refusal ScanResult :=
  match daemon (instream content) with
  | none => .error (.scannerUnavailable "malware scanner is unavailable")
  | some pieces => scanPieces platform now pieces

/-- `clamd_scan_path` on a file of the quarantine. -/
def clamdScanPath (daemon : Daemon) (now : Time) (q : Quarantine) (path : Uuid) :
    Except Refusal ScanResult :=
  match q.lookup path with
  | none => .error (.scannerError "scan target is not a regular file")
  | some file => scanContent platform daemon now file.content

/-! ### Admission -/

structure PreparedAdmission where
  staged : StagedFile
  filename : Str
  normalizedFilename : Str
  collection : CollectionDefinition
  scan : ScanResult
deriving DecidableEq

structure UploadRequest where
  upload : Upload
  filename : Str
  contentType : Option Str
  collectionKey : CollectionKey

def collectionNotFound : Refusal :=
  .lifecycle "collection_not_found" "The configured collection was not found." 404 false

def unsupportedMediaType : Refusal :=
  .lifecycle "unsupported_media_type" "The upload must use the application/pdf media type." 415
    false

def malwareDetected : Refusal :=
  .lifecycle "malware_detected" "The upload was rejected by malware screening." 422 false

def scannerIncomplete : Refusal :=
  .lifecycle "scanner_incomplete" "Malware screening did not produce a clean result." 503 true

/-- The scan of a staged file has to be clean. -/
def requireClean (scan : Except Refusal ScanResult) : Except Refusal ScanResult :=
  match scan with
  | .error e => .error e
  | .ok x =>
    if x.state = .infected then .error malwareDetected
    else if x.state ≠ .clean then .error scannerIncomplete
    else .ok x

/-- `prepare_admission`. -/
def prepareAdmission (s : Settings) (limits : AdmissionLimits) (daemon : Daemon) (now : Time)
    (path : Uuid) (x : UploadRequest) (q : Quarantine) :
    Except Refusal PreparedAdmission × Quarantine :=
  match s.enabledCollection? x.collectionKey with
  | none => (.error collectionNotFound,q)
  | some collection =>
    match validatePdfFilename platform x.filename with
    | .error e => (.error e,q)
    | .ok display =>
      if x.contentType.any (fun t => platform.casefold t ≠ str "application/pdf") then
        (.error unsupportedMediaType,q)
      else
        match streamUpload platform limits path x.upload q with
        | (.error e,q') => (.error e,q')
        | (.ok staged,q') =>
          match requireClean (clamdScanPath platform daemon now q' staged.path) with
          | .error e => (.error e,unlink staged.path q')
          | .ok scan =>
            match normalizeFilename platform display with
            | .error e => (.error e,q')
            | .ok normalized => (.ok ⟨staged,display,normalized,collection,scan⟩,q')

end Admission
end PdfBridge
