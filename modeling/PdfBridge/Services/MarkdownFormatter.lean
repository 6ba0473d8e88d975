import PdfBridge.Services.Extraction

/-! The text boundary of the formatter: the source pages of a formatting run, and the check with
which recording compares them to the extracted ones. -/
namespace PdfBridge
namespace MarkdownFormatter
open Unicode Extraction

structure LayoutPage where
  pageNumber : ℕ
  text : Str

structure SourcePage where
  pageNumber : ℕ
  text : Str
  textSha256 : Digest
deriving DecidableEq

inductive MarkdownFormattingError where
  | noPages | pageNumbers
deriving DecidableEq

/-- Normalize page text without collapsing layout-significant spaces. -/
def normalizeLayoutText (n : Normalization) (text : Str) : Str :=
  (n.nfkc (universalNewlines text)).filter fun c => !isDisallowedControl c

def normalizeFrom (n : Normalization) (sha256 : Str → Digest) :
    ℕ → List LayoutPage → Except MarkdownFormattingError (List SourcePage)
  | _, [] => .ok []
  | expected, page :: pages =>
      if page.pageNumber = expected then
        let text := normalizeLayoutText n page.text
        match normalizeFrom n sha256 (expected + 1) pages with
        | .ok sources => .ok (⟨page.pageNumber,text,sha256 text⟩ :: sources)
        | .error e => .error e
      else .error .pageNumbers

def normalizePages (n : Normalization) (sha256 : Str → Digest) (pages : List LayoutPage) :
    Except MarkdownFormattingError (List SourcePage) :=
  if pages = [] then .error .noPages else normalizeFrom n sha256 1 pages

/-- The formatter input that preparation builds from an extracted page. -/
def layoutPage (p : Extraction.ExtractedPage) : LayoutPage := ⟨p.pageNumber,p.layoutText⟩

/-- The checks of `_formatted_slice_records` on the source of one formatted page. -/
structure SourceMatches (source : SourcePage) (extracted : Extraction.ExtractedPage) : Prop where
  number : source.pageNumber = extracted.pageNumber
  text : source.text = extracted.layoutText
  hash : source.textSha256 = extracted.textSha256

/-- Text that the formatter's normalization leaves alone. -/
structure Settled (n : Normalization) (text : Str) : Prop where
  controls : ∀ c ∈ text, isDisallowedControl c = false
  normal : n.nfkc text = text

variable {n : Normalization} {sha256 : Str → Digest} {text : Str}

/-- The formatter keeps a text without carriage returns exactly when it is settled. -/
theorem normalizeLayoutText_eq_iff (h : (13 : CodePoint) ∉ text) :
    normalizeLayoutText n text = text ↔ Settled n text := by
  unfold normalizeLayoutText
  rw [universalNewlines_of_not_mem h]
  constructor
  · intro heq
    have hcontrols : ∀ c ∈ text, isDisallowedControl c = false := by
      intro c hc
      rw [← heq] at hc
      simpa using (List.mem_filter.1 hc).2
    refine ⟨hcontrols,?_⟩
    have hall : ∀ c ∈ n.nfkc text, (!isDisallowedControl c) = true := by
      intro c hc
      cases hd : isDisallowedControl c with
      | false => rfl
      | true =>
        rw [hcontrols c (n.control text c hc hd)] at hd
        cases hd
    rw [List.filter_eq_self.2 hall] at heq
    exact heq
  · intro hs
    rw [hs.normal]
    apply List.filter_eq_self.2
    intro c hc
    simp [hs.controls c hc]

/-- The sources of correlated pages match exactly when every page text is settled. -/
theorem normalizeFrom_matches {expected : ℕ} {pages : List Extraction.ExtractedPage}
    (h : Correlated sha256 expected pages) :
    (∃ sources, normalizeFrom n sha256 expected (pages.map layoutPage) = .ok sources ∧
      List.Forall₂ SourceMatches sources pages) ↔ ∀ p ∈ pages, Settled n p.layoutText := by
  induction pages generalizing expected with
  | nil =>
    constructor
    · simp
    · intro _
      exact ⟨[],rfl,List.Forall₂.nil⟩
  | cons p pages ih =>
    obtain ⟨hp,hpages⟩ := h
    have ih := ih hpages
    rw [List.forall_mem_cons, ← ih, ← normalizeLayoutText_eq_iff hp.newlines]
    simp only [List.map_cons, normalizeFrom, layoutPage, hp.number, if_true]
    constructor
    · rintro ⟨sources,hs,hmatches⟩
      split at hs
      · rename_i rest hrest
        cases hs
        rw [List.forall₂_cons] at hmatches
        exact ⟨hmatches.1.text,rest,hrest,hmatches.2⟩
      · cases hs
    · rintro ⟨htext,rest,hrest,hmatches⟩
      rw [hrest]
      refine ⟨_,rfl,List.Forall₂.cons ⟨hp.number.symm,htext,?_⟩ hmatches⟩
      rw [hp.hash]
      exact congrArg sha256 htext

/-- Formatting keeps every extracted page, and the check of recording passes, exactly when no page
text has a tab or a format character and every one is in normal form. -/
theorem formatting_keeps_pages {payload : Json} {limits : ExtractionLimits}
    {doc : Extraction.ExtractedDocument}
    (h : parseChildPayload n sha256 payload limits = .ok doc) :
    (∃ sources, normalizePages n sha256 (doc.pages.map layoutPage) = .ok sources ∧
      List.Forall₂ SourceMatches sources doc.pages) ↔
    ∀ p ∈ doc.pages, Settled n p.layoutText := by
  obtain ⟨hcorrelated,hne⟩ := parseChildPayload_correlated h
  rw [← normalizeFrom_matches hcorrelated]
  unfold normalizePages
  simp only [List.map_eq_nil_iff, hne, if_false]

/-! ### A page with a tab -/

/-- ASCII text is in normal form. -/
def asciiNormalization : Normalization where
  nfkc := id
  ascii := fun _ _ => rfl
  control := fun _ _ h _ => h

def samplePayload (text : String) : Json :=
  .obj [(str "ok",.bool true),(str "page_count",.int 1),
    (str "pages",.arr [.obj [(str "page_number",.int 1),(str "layout_text",.str (str text))]])]

def samplePage (text : String) : Extraction.ExtractedPage :=
  ⟨1,str text,(str text).length,⟨""⟩⟩

/-- A tab between two table columns is extracted, and the formatter drops it. -/
theorem formatting_drops_tab : ∃ (n : Normalization) (sha256 : Str → Digest) (payload : Json)
    (limits : ExtractionLimits) (doc : Extraction.ExtractedDocument),
    parseChildPayload n sha256 payload limits = .ok doc ∧
    ¬ ∃ sources, normalizePages n sha256 (doc.pages.map layoutPage) = .ok sources ∧
      List.Forall₂ SourceMatches sources doc.pages := by
  refine ⟨asciiNormalization,fun _ => ⟨""⟩,samplePayload "a\tb",⟨10,100⟩,⟨1,3,[samplePage "a\tb"]⟩,
    by decide +kernel,?_⟩
  rintro ⟨sources,hs,hmatches⟩
  have hsources : sources = [⟨1,str "ab",⟨""⟩⟩] := by
    have hrun : normalizePages asciiNormalization (fun _ => ⟨""⟩) [⟨1,str "a\tb"⟩] =
        .ok [⟨1,str "ab",⟨""⟩⟩] := by decide +kernel
    exact (Except.ok.inj (hrun.symm.trans hs)).symm
  rw [hsources, List.forall₂_cons] at hmatches
  have htext := hmatches.1.text
  revert htext
  decide +kernel

/-- A page of plain words is kept. -/
theorem formatting_keeps_words : ∃ sources : List SourcePage,
    List.Forall₂ SourceMatches sources [samplePage "a b"] := by
  have h : parseChildPayload asciiNormalization (fun _ => ⟨""⟩) (samplePayload "a b") ⟨10,100⟩ =
      .ok ⟨1,3,[samplePage "a b"]⟩ := by decide +kernel
  have hplain : (str "a b").all (fun c => !isDisallowedControl c) = true := by decide +kernel
  obtain ⟨sources,-,hmatches⟩ := (formatting_keeps_pages h).2 (by
    intro p hp
    rw [List.mem_singleton.1 hp]
    exact ⟨fun c hc => by simpa using List.all_eq_true.1 hplain c hc,rfl⟩)
  exact ⟨sources,hmatches⟩

end MarkdownFormatter
end PdfBridge
