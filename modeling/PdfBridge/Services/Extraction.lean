import PdfBridge.Contracts.Values
import PdfBridge.Foundation.Normalization

/-! The text boundary of extraction: the pages that the parser child reports are normalized and
checked against the limits. -/
namespace PdfBridge
namespace Extraction
open Unicode

structure ExtractionLimits where
  maxPages : ℤ
  maxCharacters : ℤ

structure ExtractedPage where
  pageNumber : ℕ
  layoutText : Str
  characterCount : ℕ
  textSha256 : Digest
deriving DecidableEq

structure ExtractedDocument where
  pageCount : ℕ
  characterCount : ℕ
  pages : List ExtractedPage
deriving DecidableEq

/-- The parser's own reasons, text that has no UTF-8 encoding, or a reason that no set can be
asked for. -/
inductive ExtractionError where
  | encrypted | malformed | empty | pageBudget | characterBudget | unencodable | unhashable
deriving DecidableEq

/-- Keep `"\n"`, `"\t"` and everything outside category `Cc`. -/
def keepsLayout (c : CodePoint) : Bool := c = newline || c = 9 || !isControl c

/-- Normalize safely while preserving spaces that communicate table columns. -/
def normalizeLayoutText (n : Normalization) (text : Str) : Str :=
  let candidate := (universalNewlines (n.nfkc text)).filter keepsLayout
  let lines := (splitNewline candidate).map rstrip
  joinLines ((lines.dropWhile (·.isEmpty)).rdropWhile (·.isEmpty))

/-- `text.encode("utf-8")` succeeds. -/
def encodable (s : Str) : Bool := s.all fun c => !isSurrogate c

/-- The pages of the child's payload, with the characters counted so far. -/
def parsePages (n : Normalization) (sha256 : Str → Digest) (limits : ExtractionLimits) :
    ℕ → ℕ → List Json → Except ExtractionError (List ExtractedPage × ℕ)
  | _, total, [] => .ok ([],total)
  | expected, total, .obj fields :: rawPages =>
      match (Json.get? fields "layout_text").str? with
      | none => .error .malformed
      | some text =>
          if (Json.get? fields "page_number").equalsNat expected then
            let normalized := normalizeLayoutText n text
            let total := total + normalized.length
            if limits.maxCharacters < total then .error .characterBudget
            else if encodable normalized then
              match parsePages n sha256 limits (expected + 1) total rawPages with
              | .ok (pages,total) =>
                  .ok (⟨expected,normalized,normalized.length,sha256 normalized⟩ :: pages,total)
              | .error e => .error e
            else .error .unencodable
          else .error .malformed
  | _, _, _ :: _ => .error .malformed

/-- The reason that the child reports. -/
def childReason : Json → ExtractionError
  | .str s =>
      if s = str "encrypted" then .encrypted
      else if s = str "empty" then .empty
      else if s = str "page-budget" then .pageBudget
      else if s = str "character-budget" then .characterBudget
      else .malformed
  | .arr _ | .obj _ => .unhashable
  | _ => .malformed

def parseChildPayload (n : Normalization) (sha256 : Str → Digest) (payload : Json)
    (limits : ExtractionLimits) : Except ExtractionError ExtractedDocument :=
  match payload with
  | .obj fields =>
      if (Json.get? fields "ok").truthy then
        match (Json.get? fields "page_count").int?, (Json.get? fields "pages").arr? with
        | some pageCount, some rawPages =>
            if pageCount ≤ 0 ∨ pageCount ≠ rawPages.length ∨ limits.maxPages < pageCount then
              .error .malformed
            else
              match parsePages n sha256 limits 1 0 rawPages with
              | .ok (pages,total) => .ok ⟨pageCount.toNat,total,pages⟩
              | .error e => .error e
        | _, _ => .error .malformed
      else .error (childReason (Json.get? fields "reason"))
  | _ => .error .malformed

variable {n : Normalization} {sha256 : Str → Digest} {limits : ExtractionLimits} {c : CodePoint}
  {text : Str}

/-- Every character of extracted text was kept, or separates two lines. -/
theorem keepsLayout_of_mem (h : c ∈ normalizeLayoutText n text) : keepsLayout c = true := by
  rcases mem_joinLines h with rfl | ⟨l,hl,hc⟩
  · rfl
  · have hmem := (List.rdropWhile_prefix _ _).subset hl
    obtain ⟨x,hx,rfl⟩ := List.mem_map.1 ((List.dropWhile_suffix _).subset hmem)
    exact (List.mem_filter.1 (mem_of_mem_splitNewline hx (mem_of_mem_rstrip hc))).2

/-- Extracted text has no carriage return. -/
theorem not_mem_normalizeLayoutText : (13 : CodePoint) ∉ normalizeLayoutText n text := by
  intro h
  have hk := keepsLayout_of_mem h
  revert hk
  decide

/-- What the parser guarantees about each page: its number, and the hash of text without a carriage
return. -/
structure PageCorrelated (sha256 : Str → Digest) (expected : ℕ) (p : ExtractedPage) : Prop where
  number : p.pageNumber = expected
  hash : p.textSha256 = sha256 p.layoutText
  newlines : (13 : CodePoint) ∉ p.layoutText

/-- Pages in one-based order from a given number. -/
def Correlated (sha256 : Str → Digest) : ℕ → List ExtractedPage → Prop
  | _, [] => True
  | expected, p :: pages => PageCorrelated sha256 expected p ∧ Correlated sha256 (expected + 1) pages

theorem parsePages_correlated {expected total total' : ℕ} {rawPages : List Json}
    {pages : List ExtractedPage}
    (h : parsePages n sha256 limits expected total rawPages = .ok (pages,total')) :
    Correlated sha256 expected pages ∧ pages.length = rawPages.length := by
  induction rawPages generalizing expected total pages total' with
  | nil =>
    cases h
    exact ⟨trivial,rfl⟩
  | cons raw rawPages ih =>
    cases raw with
    | obj fields =>
      unfold parsePages at h
      split at h
      · cases h
      · split at h
        · simp only at h
          split at h
          · cases h
          · split at h
            · split at h
              · rename_i pages' total'' hrest
                cases h
                obtain ⟨hpages,hlength⟩ := ih hrest
                exact ⟨⟨⟨rfl,rfl,not_mem_normalizeLayoutText⟩,hpages⟩,
                  congrArg Nat.succ hlength⟩
              · cases h
            · cases h
        · cases h
    | _ => cases h

theorem parseChildPayload_correlated {payload : Json} {doc : ExtractedDocument}
    (h : parseChildPayload n sha256 payload limits = .ok doc) :
    Correlated sha256 1 doc.pages ∧ doc.pages ≠ [] := by
  unfold parseChildPayload at h
  split at h
  · split at h
    · split at h
      · rename_i pageCount rawPages hcount hraw
        split at h
        · cases h
        · rename_i hvalid
          split at h
          · rename_i pages total hpages
            cases h
            obtain ⟨hcorrelated,hlength⟩ := parsePages_correlated hpages
            refine ⟨hcorrelated,fun hnil => hvalid ?_⟩
            rw [show pages = [] from hnil] at hlength
            have hraw : (rawPages.length : ℤ) = 0 := by
              rw [← hlength]
              rfl
            omega
          · cases h
      · cases h
    · cases h
  · cases h

end Extraction
end PdfBridge
