import PdfBridge.Lifecycle.Scenario
import PdfBridge.Services.Admission
import PdfBridge.Services.MarkdownFormatter

/-! What an admission decides. Its outcome is a function of the content of the upload and of the
answer of the scanner, not of the pieces in which either arrives, and a refusal leaves nothing in
quarantine. -/
namespace PdfBridge
namespace Admission
open Unicode Reading Framing Lifecycle

variable {platform : Platform} {s : Settings} {limits : AdmissionLimits} {daemon : Daemon}
  {now : Time} {path : Uuid} {x : UploadRequest} {q q' : Quarantine} {t u : Str} {b : Bool}
  {c : CodePoint}

/-! ### Filenames -/

theorem isSpace_space : isSpace (codePoint ' ') = true := by decide

theorem collapseSpaces_idem (b : Bool) (t : Str) :
    collapseSpaces b (collapseSpaces b t) = collapseSpaces b t := by
  induction t generalizing b with
  | nil => rfl
  | cons c t ih =>
    by_cases hc : isSpace c = true
    · cases b with
      | true => simp [collapseSpaces, hc, ih]
      | false => simp [collapseSpaces, hc, isSpace_space, ih]
    · simp [collapseSpaces, hc, ih]

theorem mem_collapseSpaces (h : c ∈ collapseSpaces b t) : c ∈ t ∨ c = codePoint ' ' := by
  induction t generalizing b with
  | nil => cases h
  | cons d t ih =>
    by_cases hd : isSpace d = true
    · cases b with
      | true =>
        simp only [collapseSpaces, hd, if_true] at h
        exact (ih h).imp (List.mem_cons_of_mem d) id
      | false =>
        simp only [collapseSpaces, hd, if_true, Bool.false_eq_true, if_false, List.mem_cons] at h
        rcases h with rfl | h
        · exact Or.inr rfl
        · exact (ih h).imp (List.mem_cons_of_mem d) id
    · simp only [collapseSpaces, hd, if_false, List.mem_cons, Bool.false_eq_true] at h
      rcases h with rfl | h
      · exact Or.inl (List.mem_cons_self ..)
      · exact (ih h).imp (List.mem_cons_of_mem d) id

theorem collapseSpaces_concat (hc : isSpace c = false) :
    collapseSpaces b (t ++ [c]) = collapseSpaces b t ++ [c] := by
  induction t generalizing b with
  | nil => simp [collapseSpaces, hc]
  | cons d t ih =>
    by_cases hd : isSpace d = true
    · cases b with
      | true => simp [collapseSpaces, hd, ih]
      | false => simp [collapseSpaces, hd, ih]
    · simp [collapseSpaces, hd, ih]

/-- A text that is collapsed to one without spaces was that text. -/
theorem collapseSpaces_eq_self (h : codePoint ' ' ∉ collapseSpaces false t) :
    collapseSpaces false t = t := by
  induction t with
  | nil => rfl
  | cons c t ih =>
    by_cases hc : isSpace c = true
    · simp [collapseSpaces, hc] at h
    · simp only [collapseSpaces, hc, Bool.false_eq_true, if_false] at h ⊢
      rw [ih fun hmem => h (List.mem_cons_of_mem c hmem)]

theorem strip_collapseSpaces (h : strip t = t) :
    strip (collapseSpaces false t) = collapseSpaces false t := by
  have hleft : lstrip t = t := by
    rw [← h]
    exact lstrip_strip t
  have hright : rstrip t = t := by
    have hstrip : rstrip (lstrip t) = t := h
    rw [hleft] at hstrip
    exact hstrip
  have hl : lstrip (collapseSpaces false t) = collapseSpaces false t := by
    cases t with
    | nil => rfl
    | cons c t =>
      have hc : isSpace c = false := by
        by_contra hc
        have hdrop := List.dropWhile_eq_self_iff.1 hleft (by simp)
        simp_all
      simp [collapseSpaces, hc, lstrip]
  have hr : rstrip (collapseSpaces false t) = collapseSpaces false t := by
    rcases List.eq_nil_or_concat t with rfl | ⟨t,c,rfl⟩
    · rfl
    · have hc : isSpace c = false := by
        by_contra hc
        have hdrop := List.rdropWhile_eq_self_iff.1 hright (by simp)
        simp_all
      rw [List.concat_eq_append, collapseSpaces_concat hc]
      apply List.rdropWhile_eq_self_iff.2
      intro hne
      simp [hc]
  rw [strip, hl, hr]

theorem collapseSpaces_eq_nil (h : collapseSpaces false t = []) : t = [] := by
  have hself := collapseSpaces_eq_self (t := t) (by rw [h]; exact List.not_mem_nil)
  rw [← hself, h]

/-- A checked filename passes the check unchanged. -/
theorem validateCandidate_again (h : validateCandidate platform t = .ok u) :
    u = collapseSpaces false t ∧ validateCandidate platform u = .ok u := by
  unfold validateCandidate at h
  split at h
  · cases h
  · rename_i hblank
    split at h
    · cases h
    · rename_i hseparators
      split at h
      · cases h
      · rename_i hcontrol
        simp only at h
        split at h
        · cases h
        · rename_i hlength
          split at h
          · cases h
          · rename_i hsuffix
            cases h
            have hname : ∀ name : Str, codePoint ' ' ∉ name → t ≠ name →
                collapseSpaces false t ≠ name := by
              intro name hspace hne heq
              subst heq
              exact hne (collapseSpaces_eq_self hspace).symm
            have hany : ∀ p : CodePoint → Bool, p (codePoint ' ') = false → ¬ t.any p = true →
                ¬ (collapseSpaces false t).any p = true := by
              intro p hspace hp hmem
              obtain ⟨c,hc,hpc⟩ := List.any_eq_true.1 hmem
              rcases mem_collapseSpaces hc with hc | rfl
              · exact hp (List.any_eq_true.2 ⟨c,hc,hpc⟩)
              · rw [hspace] at hpc
                cases hpc
            rw [not_or, not_or] at hblank
            have hblank' : ¬ ((collapseSpaces false t).isEmpty = true ∨
                collapseSpaces false t = str "." ∨ collapseSpaces false t = str "..") := by
              rw [not_or, not_or, List.isEmpty_iff]
              exact ⟨fun hnil => hblank.1 (List.isEmpty_iff.2 (collapseSpaces_eq_nil hnil)),
                hname _ (by decide) hblank.2.1,hname _ (by decide) hblank.2.2⟩
            refine ⟨rfl,?_⟩
            unfold validateCandidate
            rw [if_neg hblank', if_neg (hany _ (by decide) hseparators),
              if_neg (hany _ (by decide) hcontrol)]
            simp only [collapseSpaces_idem]
            rw [if_neg hlength, if_neg hsuffix]

theorem validatePdfFilename_again (h : validatePdfFilename platform t = .ok u) :
    validatePdfFilename platform u = .ok u := by
  obtain ⟨hu,hagain⟩ := validateCandidate_again h
  unfold validatePdfFilename
  rw [hu, platform.collapsed, strip_collapseSpaces (strip_idem _), ← hu]
  exact hagain

theorem normalizeFilename_of_valid (h : validatePdfFilename platform t = .ok u) :
    normalizeFilename platform u = .ok (platform.casefold u) := by
  rw [normalizeFilename, validatePdfFilename_again h]
  rfl

/-! ### Staging -/

theorem summarizes_extend : Summarizes Staging.extend
    fun body => ⟨body.take pdfHeaderBytes,body,body⟩ := by
  intro body piece
  have hheader : (if (body.take pdfHeaderBytes).length < pdfHeaderBytes then
      body.take pdfHeaderBytes ++ piece.take (pdfHeaderBytes - (body.take pdfHeaderBytes).length)
      else body.take pdfHeaderBytes) = (body ++ piece).take pdfHeaderBytes := by
    rw [List.take_append, List.length_take]
    by_cases hshort : body.length < pdfHeaderBytes
    · have hmin : min pdfHeaderBytes body.length = body.length := by omega
      rw [hmin, if_pos hshort]
    · have hmin : min pdfHeaderBytes body.length = pdfHeaderBytes := by omega
      have hzero : pdfHeaderBytes - body.length = 0 := by omega
      rw [hmin, if_neg (lt_irrefl _), hzero, List.take_zero, List.append_nil]
  unfold Staging.extend
  rw [hheader]

/-- No file of the quarantine has the path. -/
def Fresh (path : Uuid) (q : Quarantine) : Prop := ∀ f, f ∈ q → f.path ≠ path

theorem Fresh.unlink_put (h : Fresh path q) (content : Bytes) :
    Admission.unlink path (q.put ⟨path,content⟩) = q := by
  have hrows : (q.put ⟨path,content⟩).rows = ⟨path,content⟩ :: q.rows :=
    Table.rows_put_of_not_mem h
  apply Table.ext_rows
  show List.filter _ (q.put ⟨path,content⟩).rows = q.rows
  rw [hrows, List.filter_cons]
  simp only [ne_eq, not_true_eq_false, decide_false, Bool.false_eq_true, if_false]
  apply List.filter_eq_self.2
  intro f hf
  exact decide_eq_true (h f hf)

/-- The content of an upload. -/
def contentOf (limits : AdmissionLimits) (upload : Upload) : Bytes :=
  (chunksRead upload limits.uploadChunkBytes).flatten

theorem hasPdfSignature_take (content : Bytes) :
    hasPdfSignature (content.take pdfHeaderBytes) = hasPdfSignature content := by
  unfold hasPdfSignature
  rw [List.take_take, min_self]

/-- What `stream_upload` decides of the content. -/
def stageOutcome (platform : Platform) (limits : AdmissionLimits) (path : Uuid) (content : Bytes)
    (q : Quarantine) : Except Refusal StagedFile × Quarantine :=
  if limits.maxUploadBytes < content.length then
    (.error (.fileTooLarge limits.maxUploadBytes),q)
  else if content.length = 0 then (.error (.invalidPdf "empty files are not valid PDFs"),q)
  else if !hasPdfSignature content then
    (.error (.invalidPdf "file does not have a valid PDF signature"),q)
  else (.ok ⟨path,content.length,platform.sha256 content⟩,q.put ⟨path,content⟩)

theorem streamUpload_eq (h : Fresh path q) (upload : Upload) :
    streamUpload platform limits path upload q =
      stageOutcome platform limits path (contentOf limits upload) q := by
  have hnone : ¬ q.rows.any (fun f => f.path = path) = true := by
    intro hany
    obtain ⟨f,hf,hpath⟩ := List.any_eq_true.1 hany
    exact h f hf (of_decide_eq_true hpath)
  have hread : readBounded limits.maxUploadBytes Staging.extend 0 Staging.empty
      (chunksRead upload limits.uploadChunkBytes) =
      if limits.maxUploadBytes < (contentOf limits upload).length then none
      else some ⟨(contentOf limits upload).take pdfHeaderBytes,contentOf limits upload,
        contentOf limits upload⟩ := readBounded_nil summarizes_extend _
  unfold streamUpload stageOutcome
  rw [if_neg hnone]
  simp only [hread]
  by_cases hlarge : limits.maxUploadBytes < (contentOf limits upload).length
  · simp only [hlarge, if_true, h.unlink_put]
  · simp only [hlarge, if_false, h.unlink_put, hasPdfSignature_take]

/-! ### Scanning -/

theorem fileReads_flatten {size fuel : ℕ} (hsize : 0 < size) {content : Bytes}
    (h : content.length ≤ fuel) : (fileReads size fuel content).flatten = content := by
  induction fuel generalizing content with
  | zero =>
    obtain rfl : content = [] := List.length_eq_zero_iff.1 (by omega)
    rfl
  | succ fuel ih =>
    cases content with
    | nil => rfl
    | cons b rest =>
      have hdrop : ((b :: rest).drop size).length ≤ fuel := by
        rw [List.length_drop]
        omega
      rw [fileReads, List.flatten_cons, ih hdrop, List.take_append_drop]

theorem mem_fileReads {size fuel : ℕ} (hsize : 0 < size) {content piece : Bytes}
    (h : piece ∈ fileReads size fuel content) : piece ≠ [] ∧ piece.length ≤ size := by
  induction fuel generalizing content with
  | zero => cases content <;> cases h
  | succ fuel ih =>
    cases content with
    | nil => cases h
    | cons b rest =>
      rcases List.mem_cons.1 h with rfl | h
      · constructor
        · rw [ne_eq, List.take_eq_nil_iff]
          simp
          omega
        · rw [List.length_take]
          omega
      · exact ih h

/-- The scanner reads the file that it is sent, and cannot read anything else. -/
theorem instream_reads (content content' : Bytes) :
    (∃ wire, instream content = instreamCommand ++ wire ∧ Reads wire content') ↔
      content' = content := by
  have hsize : 0 < clamdChunkBytes := by decide
  have hpieces : ∀ piece ∈ fileReads clamdChunkBytes content.length content,
      piece ≠ [] ∧ piece.length < lengthBound := by
    intro piece hpiece
    obtain ⟨hne,hle⟩ := mem_fileReads hsize hpiece
    exact ⟨hne,hle.trans_lt (by decide)⟩
  have hreads := reads_frames hpieces
  rw [fileReads_flatten hsize le_rfl] at hreads
  constructor
  · intro h
    obtain ⟨wire,hwire,hread⟩ := h
    have heq := List.append_cancel_left hwire
    subst heq
    exact hread.unique hreads
  · intro h
    subst h
    exact ⟨_,rfl,hreads⟩

/-- A reply whose first zero byte or newline is its last byte. -/
def OneLine (reply : Bytes) : Prop :=
  ∀ before after b, reply = before ++ b :: after → b = 0 ∨ b = 10 → after = []

theorem OneLine.suffix {front rest : Bytes} (h : OneLine (front ++ rest)) : OneLine rest := by
  intro before after b hrest hb
  apply h (front ++ before) after b _ hb
  rw [hrest, List.append_assoc]

theorem oneLine_append {front : Bytes} {b : UInt8} (h : ∀ x ∈ front, x ≠ 0 ∧ x ≠ 10) :
    OneLine (front ++ [b]) := by
  intro before after x heq hx
  rcases List.eq_nil_or_concat after with rfl | ⟨init,last,rfl⟩
  · rfl
  · rw [List.concat_eq_append, ← List.cons_append, ← List.append_assoc] at heq
    obtain ⟨hfront,-⟩ := List.append_inj' heq rfl
    obtain ⟨h0,h10⟩ := h x (hfront ▸ List.mem_append_right _ List.mem_cons_self)
    rcases hx with hx | hx
    · exact absurd hx h0
    · exact absurd hx h10

/-- A call of `recv` takes a front part of what is to come. -/
theorem recv_front {size : ℕ} (hsize : 0 < size) {piece : Bytes} {rest : List Bytes}
    (hpieces : ∀ p ∈ piece :: rest, p ≠ []) : ∃ chunk pieces,
      recv size (piece :: rest) = (chunk,pieces) ∧ chunk ≠ [] ∧ chunk.length ≤ size ∧
      chunk ++ pieces.flatten = (piece :: rest).flatten ∧ ∀ p ∈ pieces, p ≠ [] := by
  have hne := hpieces piece (List.mem_cons_self ..)
  have hrest := fun p hp => hpieces p (List.mem_cons_of_mem piece hp)
  have hchunk : piece.take size ≠ [] := by
    rw [ne_eq, List.take_eq_nil_iff]
    rintro (hzero | hnil)
    · omega
    · exact hne hnil
  refine ⟨piece.take size,_,rfl,hchunk,by rw [List.length_take]; omega,?_⟩
  by_cases hshort : piece.length ≤ size
  · rw [if_pos hshort, List.take_of_length_le hshort, List.flatten_cons]
    exact ⟨rfl,hrest⟩
  · rw [if_neg hshort, List.flatten_cons, List.flatten_cons, ← List.append_assoc,
      List.take_append_drop]
    refine ⟨rfl,fun p hp => ?_⟩
    rcases List.mem_cons.1 hp with rfl | hp
    · rw [ne_eq, List.drop_eq_nil_iff]
      exact hshort
    · exact hrest p hp

/-- A one-line reply is received up to the limit, in whatever pieces it comes. -/
theorem receiveLoop_eq {fuel : ℕ} {response : Bytes} {pieces : List Bytes}
    (hfuel : maxResponseBytes ≤ fuel + response.length)
    (hlength : response.length ≤ maxResponseBytes)
    (hpieces : ∀ piece ∈ pieces, piece ≠ []) (hline : OneLine pieces.flatten) :
    receiveLoop fuel response pieces = (response ++ pieces.flatten).take maxResponseBytes := by
  have hfull : ∀ rest : Bytes, response.length = maxResponseBytes →
      (response ++ rest).take maxResponseBytes = response := by
    intro rest heq
    rw [← heq, List.take_left]
  induction fuel generalizing response pieces with
  | zero => exact (hfull _ (by omega)).symm
  | succ fuel ih =>
    rw [receiveLoop]
    by_cases hroom : response.length < maxResponseBytes
    · rw [if_pos hroom]
      cases pieces with
      | nil =>
        simp only [recv, List.flatten_nil, List.append_nil]
        exact (List.take_of_length_le hlength).symm
      | cons piece rest =>
        have hsize : 0 < min 4096 (maxResponseBytes - response.length) := by omega
        obtain ⟨chunk,later,hrecv,hne,hle,hflatten,hlater⟩ := recv_front hsize hpieces
        have hlonger : (response ++ chunk).length ≤ maxResponseBytes := by
          rw [List.length_append]
          omega
        have hpos : 0 < chunk.length := List.length_pos_iff.2 hne
        rw [hrecv]
        rw [← hflatten] at hline ⊢
        cases chunk with
        | nil => exact absurd rfl hne
        | cons b chunk =>
          simp only
          by_cases hstop : 0 ∈ b :: chunk ∨ 10 ∈ b :: chunk
          · have hend : later.flatten = [] := by
              have hsplit : ∃ z ∈ b :: chunk, z = 0 ∨ z = 10 := by
                rcases hstop with hz | hz
                · exact ⟨0,hz,Or.inl rfl⟩
                · exact ⟨10,hz,Or.inr rfl⟩
              obtain ⟨z,hz,hterminator⟩ := hsplit
              obtain ⟨before,after,hbefore⟩ := List.append_of_mem hz
              have happend : after ++ later.flatten = [] := by
                apply hline before (after ++ later.flatten) z _ hterminator
                rw [hbefore]
                simp
              exact (List.append_eq_nil_iff.1 happend).2
            rw [if_pos hstop, hend, List.append_nil, List.take_of_length_le hlonger]
          · rw [if_neg hstop, ih _ hlonger hlater hline.suffix _, List.append_assoc]
            · rw [List.length_append]
              omega
            · intro more heq
              rw [← heq, List.take_left]
    · rw [if_neg hroom]
      exact (hfull _ (by omega)).symm

/-- The text that is read off a reply of at most the limit. -/
theorem scanPieces_eq {pieces : List Bytes} (hpieces : ∀ piece ∈ pieces, piece ≠ [])
    (hline : OneLine pieces.flatten) :
    scanPieces platform now pieces = scanPieces platform now [pieces.flatten] := by
  have hloop : ∀ ps : List Bytes, (∀ piece ∈ ps, piece ≠ []) → OneLine ps.flatten →
      receiveLoop maxResponseBytes [] ps = ps.flatten.take maxResponseBytes := by
    intro ps hps hps'
    exact receiveLoop_eq (by simp) (Nat.zero_le _) hps hps'
  by_cases hempty : pieces.flatten = []
  · have hnil : pieces = [] := by
      cases pieces with
      | nil => rfl
      | cons piece rest =>
        rw [List.flatten_cons, List.append_eq_nil_iff] at hempty
        exact absurd hempty.1 (hpieces piece (List.mem_cons_self ..))
    rw [hnil]
    rfl
  · have hone : receiveLoop maxResponseBytes [] [pieces.flatten] =
        pieces.flatten.take maxResponseBytes := by
      have hsingle := hloop [pieces.flatten] (fun p hp => by
        rw [List.mem_singleton.1 hp]
        exact hempty) (by simpa using hline)
      simpa using hsingle
    unfold scanPieces receiveResponse
    rw [hloop pieces hpieces hline, hone]

/-- The scan calls a file clean on the word `OK` only. -/
theorem parseScanResponse_clean {response : Str} {scan : ScanResult}
    (h : parseScanResponse now response = .ok scan) (hclean : scan.state = .clean) :
    ∃ rest, afterColon response = some rest ∧ strip rest = str "OK" := by
  unfold parseScanResponse at h
  split at h
  · cases h
  · rename_i rest hrest
    simp only at h
    split at h
    · rename_i hok
      exact ⟨rest,hrest,hok⟩
    · split at h
      · split at h
        · cases h
        · cases h
          cases hclean
      · split at h <;> cases h

theorem requireClean_ok {scan : Except Refusal ScanResult} {y : ScanResult} :
    requireClean scan = .ok y ↔ scan = .ok y ∧ y.state = .clean := by
  unfold requireClean
  cases scan with
  | error e => simp
  | ok z =>
    by_cases hinfected : z.state = .infected
    · simp only [hinfected, if_true, reduceCtorEq, Except.ok.injEq, false_iff]
      rintro ⟨rfl,hclean⟩
      rw [hinfected] at hclean
      cases hclean
    · by_cases hclean : z.state = .clean
      · simp only [hclean, ne_eq, not_true_eq_false, if_false, Except.ok.injEq, reduceCtorEq]
        constructor
        · rintro rfl
          exact ⟨rfl,hclean⟩
        · exact fun h => h.1
      · simp only [hinfected, hclean, ne_eq, not_false_eq_true, if_false, if_true, reduceCtorEq,
          Except.ok.injEq, false_iff]
        rintro ⟨rfl,h⟩
        exact hclean h

/-! ### Admission -/

/-- The scanner was sent the content and found it clean. -/
def FoundClean (platform : Platform) (daemon : Daemon) (now : Time) (content : Bytes)
    (scan : ScanResult) : Prop :=
  ∃ pieces, daemon (instream content) = some pieces ∧
    scanPieces platform now pieces = .ok scan ∧ scan.state = .clean

/-- What an admission stands for: a configured collection, a checked name and media type, and a
content of admissible size with the signature of a PDF that the scanner found clean. -/
structure Admitted (platform : Platform) (s : Settings) (limits : AdmissionLimits)
    (daemon : Daemon) (now : Time) (path : Uuid) (x : UploadRequest) (y : PreparedAdmission) :
    Prop where
  collection : s.enabledCollection? x.collectionKey = some y.collection
  filename : validatePdfFilename platform x.filename = .ok y.filename
  normalized : y.normalizedFilename = platform.casefold y.filename
  contentType : x.contentType.all (fun t => platform.casefold t = str "application/pdf") = true
  staged : y.staged = ⟨path,(contentOf limits x.upload).length,
    platform.sha256 (contentOf limits x.upload)⟩
  size : 1 ≤ (contentOf limits x.upload).length ∧
    (contentOf limits x.upload).length ≤ limits.maxUploadBytes
  signature : hasPdfSignature (contentOf limits x.upload) = true
  scan : FoundClean platform daemon now (contentOf limits x.upload) y.scan

theorem stageOutcome_ok {content : Bytes} {f : StagedFile} :
    stageOutcome platform limits path content q = (.ok f,q') ↔
      f = ⟨path,content.length,platform.sha256 content⟩ ∧ q' = q.put ⟨path,content⟩ ∧
        (1 ≤ content.length ∧ content.length ≤ limits.maxUploadBytes) ∧
        hasPdfSignature content = true := by
  unfold stageOutcome
  by_cases hlarge : limits.maxUploadBytes < content.length
  · rw [if_pos hlarge]
    constructor
    · exact fun h => by cases h
    · rintro ⟨-,-,⟨-,hsize⟩,-⟩
      omega
  · rw [if_neg hlarge]
    by_cases hempty : content.length = 0
    · rw [if_pos hempty]
      constructor
      · exact fun h => by cases h
      · rintro ⟨-,-,⟨hsize,-⟩,-⟩
        omega
    · rw [if_neg hempty]
      have hsize : 1 ≤ content.length ∧ content.length ≤ limits.maxUploadBytes := by omega
      by_cases hsignature : hasPdfSignature content = true
      · simp only [hsignature, Bool.not_true, Bool.false_eq_true, if_false, Prod.mk.injEq,
          Except.ok.injEq, hsize, and_true]
        exact ⟨fun h => ⟨h.1.symm,h.2.symm⟩,fun h => ⟨h.1.symm,h.2.symm⟩⟩
      · simp [hsignature]

theorem stageOutcome_error {content : Bytes} {e : Refusal}
    (h : stageOutcome platform limits path content q = (.error e,q')) : q' = q := by
  unfold stageOutcome at h
  split at h
  · cases h
    rfl
  · split at h
    · cases h
      rfl
    · split at h <;> cases h
      rfl

theorem clamdScanPath_put {content : Bytes} :
    clamdScanPath platform daemon now (q.put ⟨path,content⟩) path =
      scanContent platform daemon now content := by
  have hlookup : (q.put ⟨path,content⟩).lookup path = some ⟨path,content⟩ :=
    Table.lookup_put_self q ⟨path,content⟩
  simp only [clamdScanPath, hlookup]

/-- The scan of a staged file lets it pass exactly when the scanner found the content clean. -/
theorem scan_ok {content : Bytes} {scan : ScanResult} :
    requireClean (clamdScanPath platform daemon now (q.put ⟨path,content⟩) path) = .ok scan ↔
      FoundClean platform daemon now content scan := by
  rw [requireClean_ok, clamdScanPath_put]
  unfold FoundClean scanContent
  cases daemon (instream content) with
  | none => simp
  | some pieces => simp

theorem prepareAdmission_error {e : Refusal} (h : Fresh path q)
    (hrefused : prepareAdmission platform s limits daemon now path x q = (.error e,q')) :
    q' = q := by
  unfold prepareAdmission at hrefused
  split at hrefused
  · cases hrefused
    rfl
  · split at hrefused
    · cases hrefused
      rfl
    · rename_i display hdisplay
      split at hrefused
      · cases hrefused
        rfl
      · rw [streamUpload_eq h] at hrefused
        split at hrefused
        · rename_i hstaged
          cases hrefused
          exact stageOutcome_error hstaged
        · rename_i f q₁ hstaged
          obtain ⟨rfl,rfl,-,-⟩ := stageOutcome_ok.1 hstaged
          split at hrefused
          · cases hrefused
            exact h.unlink_put _
          · rw [normalizeFilename_of_valid hdisplay] at hrefused
            cases hrefused

theorem prepareAdmission_ok {y : PreparedAdmission} (h : Fresh path q) :
    prepareAdmission platform s limits daemon now path x q = (.ok y,q') ↔
      Admitted platform s limits daemon now path x y ∧
        q' = q.put ⟨path,contentOf limits x.upload⟩ := by
  constructor
  · intro hok
    unfold prepareAdmission at hok
    split at hok
    · cases hok
    · rename_i definition hcollection
      split at hok
      · cases hok
      · rename_i display hdisplay
        split at hok
        · cases hok
        · rename_i htype
          rw [streamUpload_eq h] at hok
          split at hok
          · cases hok
          · rename_i f q₁ hstaged
            obtain ⟨rfl,rfl,hsize,hsignature⟩ := stageOutcome_ok.1 hstaged
            split at hok
            · cases hok
            · rename_i scan hscan
              rw [normalizeFilename_of_valid hdisplay] at hok
              cases hok
              refine ⟨⟨hcollection,hdisplay,rfl,?_,rfl,hsize,hsignature,scan_ok.1 hscan⟩,rfl⟩
              cases htext : x.contentType with
              | none => rfl
              | some t => simpa [htext] using htype
  · intro hspec
    obtain ⟨hadmitted,rfl⟩ := hspec
    obtain ⟨staged,filename,normalized,collection,scan⟩ := y
    obtain ⟨hcollection,hfilename,hnormalized,htype,hstaged,hsize,hsignature,hscan⟩ := hadmitted
    have htype' : ¬ x.contentType.any (fun t => platform.casefold t ≠ str "application/pdf") =
        true := by
      cases htext : x.contentType with
      | none => simp
      | some t => simpa [htext] using htype
    have hstream : stageOutcome platform limits path (contentOf limits x.upload) q =
        (.ok staged,q.put ⟨path,contentOf limits x.upload⟩) :=
      stageOutcome_ok.2 ⟨hstaged,rfl,hsize,hsignature⟩
    obtain rfl : normalized = platform.casefold filename := hnormalized
    have hpath : staged.path = path := by
      have hstaged : staged = _ := hstaged
      rw [hstaged]
    have hclean : requireClean (clamdScanPath platform daemon now
        (q.put ⟨path,contentOf limits x.upload⟩) path) = .ok scan := scan_ok.2 hscan
    unfold prepareAdmission
    rw [hcollection, hfilename]
    simp only [htype', Bool.false_eq_true, if_false]
    rw [streamUpload_eq h, hstream]
    simp only [hpath]
    rw [hclean, normalizeFilename_of_valid hfilename]

/-- An upload is admitted exactly when everything that an admission stands for holds of its content,
and its content is then the one new file of the quarantine. A refusal leaves the quarantine as it
was, and the pieces in which the content arrives make no difference. -/
theorem admission_exact (h : Fresh path q) :
    (∀ y q', prepareAdmission platform s limits daemon now path x q = (.ok y,q') ↔
      Admitted platform s limits daemon now path x y ∧
        q' = q.put ⟨path,contentOf limits x.upload⟩) ∧
    (∀ e q', prepareAdmission platform s limits daemon now path x q = (.error e,q') → q' = q) ∧
    ∀ upload, contentOf limits upload = contentOf limits x.upload →
      prepareAdmission platform s limits daemon now path {x with upload := upload} q =
        prepareAdmission platform s limits daemon now path x q := by
  refine ⟨fun y q' => prepareAdmission_ok h,fun e q' => prepareAdmission_error h,?_⟩
  intro upload hcontent
  unfold prepareAdmission
  simp only [streamUpload_eq h, hcontent]

/-- The scanner reads the content of the file and nothing else, a reply of one line has the same
meaning in whatever pieces it arrives, and only the word `OK` lets a file pass. -/
theorem scan_exchange (content : Bytes) :
    (∀ content', (∃ wire, instream content = instreamCommand ++ wire ∧ Reads wire content') ↔
      content' = content) ∧
    (∀ pieces pieces' : List Bytes, (∀ piece ∈ pieces, piece ≠ []) →
      (∀ piece ∈ pieces', piece ≠ []) → OneLine pieces.flatten →
      pieces.flatten = pieces'.flatten →
      scanPieces platform now pieces = scanPieces platform now pieces') ∧
    ∀ (pieces : List Bytes) scan, scanPieces platform now pieces = .ok scan →
      scan.state = .clean → ∃ response rest, receiveResponse platform pieces = .ok response ∧
        afterColon response = some rest ∧ strip rest = str "OK" := by
  refine ⟨instream_reads content,?_,?_⟩
  · intro pieces pieces' hpieces hpieces' hline heq
    have hline' : OneLine pieces'.flatten := by
      rw [← heq]
      exact hline
    rw [scanPieces_eq hpieces hline, scanPieces_eq hpieces' hline', heq]
  · intro pieces scan hscan hclean
    unfold scanPieces at hscan
    split at hscan
    · cases hscan
    · rename_i response hresponse
      obtain ⟨rest,hrest,hok⟩ := parseScanResponse_clean hscan hclean
      exact ⟨response,rest,hresponse,hrest,hok⟩

/-- A platform for ASCII texts. -/
def asciiPlatform : Platform where
  normalization := MarkdownFormatter.asciiNormalization
  casefold := id
  sha256 := fun content => ⟨toString content.length⟩
  decodeUtf8 := fun content => some (content.map fun b => Fin.ofNat 0x110000 b.toNat)
  collapsed := fun s => by
    show collapseSpaces false (strip s) = collapseSpaces false (strip s)
    rfl

/-- `stream: OK` and a zero byte, in two pieces. -/
def cleanReply : List Bytes :=
  [[0x73,0x74,0x72,0x65,0x61,0x6d,0x3a],[0x20,0x4f,0x4b,0x00]]

/-- A reply in two pieces means what it means in one. -/
theorem scan_exchange_clean : scanPieces asciiPlatform 1 [cleanReply.flatten] =
      scanPieces asciiPlatform 1 cleanReply ∧
    ∃ scan response rest, scanPieces asciiPlatform 1 cleanReply = .ok scan ∧
      receiveResponse asciiPlatform cleanReply = .ok response ∧
      afterColon response = some rest ∧ strip rest = str "OK" := by
  obtain ⟨-,hpieces,hclean⟩ := @scan_exchange asciiPlatform 1 []
  have hone : [cleanReply.flatten].flatten = cleanReply.flatten := List.append_nil _
  have hline : OneLine [cleanReply.flatten].flatten := by
    have heq : [cleanReply.flatten].flatten =
        [0x73,0x74,0x72,0x65,0x61,0x6d,0x3a,0x20,0x4f,0x4b] ++ [0x00] := rfl
    rw [heq]
    exact oneLine_append (by decide +kernel)
  obtain ⟨scan,hscan,hstate⟩ : ∃ scan, scanPieces asciiPlatform 1 cleanReply = .ok scan ∧
      scan.state = .clean := ⟨_,rfl,rfl⟩
  obtain ⟨response,rest,hresponse,hrest,hok⟩ := hclean cleanReply scan hscan hstate
  exact ⟨hpieces _ _ (by decide) (by decide) hline hone,scan,response,rest,hscan,hresponse,
    hrest,hok⟩

/-! ### One upload -/

/-- The header of a PDF in two chunks. -/
def smallPdf : Upload := fun _ => [[0x20,0x25,0x50],[0x44,0x46,0x2d,0x31],[]]

def smallLimits : AdmissionLimits := ⟨100,10,100,by decide,by decide⟩

/-- The scanner finds this one file clean. -/
def findsClean : Daemon := fun wire =>
  if wire = instream (contentOf smallLimits smallPdf) then some cleanReply else none

def smallRequest : UploadRequest :=
  ⟨smallPdf,str " a  b.pdf",some (str "application/pdf"),books⟩

def smallAdmission : PreparedAdmission where
  staged := ⟨uuid4 1 0,7,⟨"7"⟩⟩
  filename := str "a b.pdf"
  normalizedFilename := str "a b.pdf"
  collection := ⟨books,true,booksIdentity,text "tokenizer" tokenizer_text⟩
  scan := ⟨.clean,"clamd",none,1⟩

theorem admission_exact_small : ∃ q : Quarantine,
    prepareAdmission asciiPlatform booksSettings smallLimits findsClean 1 (uuid4 1 0) smallRequest
      ∅ = (.ok smallAdmission,q) ∧ (q.lookup (uuid4 1 0)).isSome = true := by
  have hfresh : Fresh (uuid4 1 0) (∅ : Quarantine) := fun f hf => absurd hf (Table.not_mem_empty f)
  refine ⟨_,((admission_exact hfresh).1 smallAdmission _).2 ⟨?_,rfl⟩,?_⟩
  · exact {
      collection := rfl
      filename := rfl
      normalized := rfl
      contentType := by decide
      staged := rfl
      size := by decide
      signature := by decide
      scan := ⟨cleanReply,if_pos rfl,rfl,rfl⟩ }
  · rfl

end Admission
end PdfBridge
