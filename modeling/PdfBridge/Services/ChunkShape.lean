import PdfBridge.Services.ChunkProvenance
import PdfBridge.Services.Fidelity

/-! The shape of chunks: their indices, their sizes, the overlap that they may open with, whole
tables and fences, and the letters and numbers in them. -/
namespace PdfBridge
namespace MarkdownChunking
open Unicode MarkdownFormatter Runs

variable {ctx : ChunkContext} {pages : List MarkdownPage} {chunks : List MarkdownChunk}
  {blocks : List Block} {countTokens : Str → ℕ}

/-! ### Texts within texts -/

section Infix
variable {s t : Str}

theorem infix_lstrip (h : t <:+: s) (ht : lstrip t = t) : t <:+: lstrip s := by
  obtain ⟨x,y,rfl⟩ := h
  unfold lstrip at ht ⊢
  rw [List.append_assoc, List.dropWhile_append]
  split
  · cases t with
    | nil => exact List.nil_infix
    | cons c t =>
      by_cases hc : isSpace c = true
      · rw [List.dropWhile_cons_of_pos hc] at ht
        have hlen := (List.dropWhile_suffix (p := isSpace) (l := t)).length_le
        rw [ht, List.length_cons] at hlen
        omega
      · rw [List.cons_append, List.dropWhile_cons_of_neg hc]
        exact ⟨[],y,rfl⟩
  · exact ⟨_,y,List.append_assoc _ _ _⟩

theorem rstrip_reverse (s : Str) : rstrip s.reverse = (lstrip s).reverse := by
  rw [rstrip, List.rdropWhile, List.reverse_reverse, lstrip]

theorem infix_rstrip (h : t <:+: s) (ht : rstrip t = t) : t <:+: rstrip s := by
  have hs := rstrip_reverse s.reverse
  have ht' := rstrip_reverse t.reverse
  rw [List.reverse_reverse] at hs ht'
  rw [hs, ← List.reverse_infix, List.reverse_reverse]
  refine infix_lstrip (List.reverse_infix.2 h) ?_
  rw [← List.reverse_inj, ← ht', ht, List.reverse_reverse]

/-- A stripped text within a text survives stripping. -/
theorem infix_strip (h : t <:+: s) (ht : strip t = t) : t <:+: strip s := by
  have hright : rstrip (lstrip t) <+: lstrip t := List.rdropWhile_prefix isSpace _
  have hleft : lstrip t <:+ t := List.dropWhile_suffix _
  have hlen := congrArg List.length ht
  rw [strip] at hlen ht
  have hl : lstrip t = t := hleft.eq_of_length (le_antisymm hleft.length_le
    (hlen ▸ hright.length_le))
  rw [hl] at ht
  exact infix_rstrip (infix_lstrip h hl) ht

theorem infix_intercalate {sep : Str} {ts : List Str} (h : t ∈ ts) :
    t <:+: List.intercalate sep ts := by
  induction ts with
  | nil => cases h
  | cons x ts ih =>
    cases ts with
    | nil =>
      rw [List.mem_singleton.1 h]
      simp [List.intercalate]
    | cons x' ts =>
      have hjoin : List.intercalate sep (x :: x' :: ts) =
          x ++ (sep ++ List.intercalate sep (x' :: ts)) := by simp [List.intercalate]
      rw [hjoin]
      rcases List.mem_cons.1 h with rfl | h
      · exact (List.prefix_append _ _).isInfix
      · obtain ⟨a,b,hab⟩ := ih h
        exact ⟨x ++ (sep ++ a),b,by rw [← hab]; simp⟩

end Infix

/-! ### The shape of a run -/

/-- Some character is a letter or a number. -/
def Lettered (categories : Categories) (s : Str) : Prop := ¬ Silent categories.of s

/-- What a run makes of its pages, whatever they hold. -/
structure Shape (ctx : ChunkContext) (pages : List MarkdownPage) (chunks : List MarkdownChunk) :
    Prop where
  indices : chunks.map (·.chunkIndex) = List.range chunks.length
  bounded : ∀ chunk ∈ chunks,
    chunk.tokenCount = ctx.countTokens chunk.markdown ∧ chunk.tokenCount ≤ hardMaxTokens
  carries : ∃ pieces groups, boundedBlocks ctx.countTokens pages = .ok pieces ∧
    groups.flatten = pieces ∧ Carries ctx.countTokens [] groups chunks ∧
    ∀ b ∈ documentBlocks ctx.countTokens [] pages, (b.kind = .table ∨ b.kind = .fence) →
      ctx.countTokens b.text ≤ hardMaxTokens →
      ∃ x ∈ groups.zip chunks, b ∈ x.1 ∧ b.text <:+: x.2.markdown

theorem Packs.indices {i : ℕ} {carried : List Part} (h : Packs ctx i carried blocks chunks) :
    chunks.map (·.chunkIndex) = List.range' i chunks.length := by
  induction h with
  | nil => rfl
  | cons hown _ hfinish _ ih =>
    obtain ⟨-,-,-,-,hindex,-⟩ := finishChunk_ok (by simp [hown]) hfinish
    rw [List.map_cons, List.length_cons, List.range'_succ, ih, hindex]

theorem Packs.bounded {i : ℕ} {carried : List Part} (h : Packs ctx i carried blocks chunks)
    {chunk : MarkdownChunk} (hc : chunk ∈ chunks) :
    chunk.tokenCount = ctx.countTokens chunk.markdown ∧ chunk.tokenCount ≤ hardMaxTokens := by
  induction h with
  | nil => cases hc
  | cons hown _ hfinish _ ih =>
    rcases List.mem_cons.1 hc with rfl | hc
    · obtain ⟨-,-,hle,hcount,-⟩ := finishChunk_ok (by simp [hown]) hfinish
      exact ⟨hcount,hcount ▸ hle⟩
    · exact ih hc

/-- Every block that a run carries lies in one of its chunks. -/
theorem Carries.holds {before : List Block} {groups : List (List Block)}
    (h : Carries countTokens before groups chunks) {b : Block} (hb : b ∈ groups.flatten)
    (hstrip : strip b.text = b.text) :
    ∃ x ∈ groups.zip chunks, b ∈ x.1 ∧ b.text <:+: x.2.markdown := by
  induction h with
  | nil => cases hb
  | @cons before front group groups c chunks hgroup _ hchunk _ ih =>
    rw [List.flatten_cons] at hb
    rcases List.mem_append.1 hb with hb | hb
    · refine ⟨(group,c),List.mem_cons_self,hb,?_⟩
      rw [hchunk.markdown]
      exact infix_strip (infix_intercalate (List.mem_map.2
        ⟨b,List.mem_append_right _ hb,rfl⟩)) hstrip
    · obtain ⟨x,hx,hrest⟩ := ih hb
      exact ⟨x,List.mem_cons_of_mem _ hx,hrest⟩

theorem mem_boundAll {pieces : List Block} (h : boundAll countTokens blocks = .ok pieces)
    {b : Block} (hb : b ∈ blocks) (hcount : b.tokenCount ≤ hardMaxTokens) : b ∈ pieces := by
  induction blocks generalizing pieces with
  | nil => cases hb
  | cons b' blocks ih =>
    rw [boundAll] at h
    split at h
    · cases h
    rename_i own hown
    split at h
    · cases h
    rename_i rest hrest
    cases h
    rcases List.mem_cons.1 hb with rfl | hb
    · rw [boundedPieces, if_pos hcount] at hown
      cases hown
      exact List.mem_append_left _ (List.mem_singleton.2 rfl)
    · exact List.mem_append_right _ (ih hrest hb)

/-- The text of a block is stripped and counted. -/
theorem mem_documentBlocks {b : Block} (hb : b ∈ documentBlocks countTokens [] pages) :
    strip b.text = b.text ∧ b.tokenCount = countTokens b.text := by
  rw [documentBlocks_eq] at hb
  obtain ⟨x,-,htext,-,-,hcount⟩ := mem_blocksOf hb
  exact ⟨by rw [htext, strip_idem],hcount⟩

theorem chunkMarkdown_shape (h : chunkMarkdown ctx pages = .ok chunks) :
    Shape ctx pages chunks := by
  obtain ⟨pieces,hpieces,hpacks⟩ := chunkMarkdown_packs h
  have hcounts : ∀ p ∈ pieces, p.tokenCount = ctx.countTokens p.text := by
    intro p hp
    obtain ⟨b,-,hpiece⟩ := boundAll_isPiece (fun b hb => (mem_documentBlocks hb).2) hpieces hp
    exact hpiece.count
  obtain ⟨groups,hflatten,hcarries⟩ := hpacks.carries (Or.inl rfl) hcounts
  refine ⟨?_,fun chunk hc => hpacks.bounded hc,pieces,groups,hpieces,hflatten,hcarries,?_⟩
  · rw [hpacks.indices, List.range_eq_range']
  · intro b hb _ hcount
    obtain ⟨hstrip,hbcount⟩ := mem_documentBlocks hb
    refine hcarries.holds ?_ hstrip
    rw [hflatten]
    exact mem_boundAll hpieces hb (hbcount ▸ hcount)

/-! ### Letters and numbers -/

variable {categories : Categories}

/-- The chunks that the packing forms of the bounded blocks, by their token counts alone: a block
joins the open chunk up to the target, the next chunk opens with the overlap if there is room. -/
def packParts (ctx : ChunkContext) (parts : List Part) : List Block → List (List Part)
  | [] => if parts = [] then [] else [parts]
  | b :: blocks =>
      if parts ≠ [] ∧ targetTokens < total ctx (parts ++ [.own b]) then
        parts :: packParts ctx (keepFront ctx (overlap ctx parts) b ++ [.own b]) blocks
      else packParts ctx (parts ++ [.own b]) blocks

theorem flush_markdown {parts : List Part} {p : List MarkdownChunk × List Part} (hne : parts ≠ [])
    (h : flush ctx chunks parts = .ok p) : ∃ chunk, p = (chunks ++ [chunk],overlap ctx parts) ∧
      chunk.markdown = strip (joinParts parts) := by
  obtain ⟨chunks',parts'⟩ := p
  obtain ⟨chunk,hfinish,hchunks,hparts⟩ := flush_ok hne h
  exact ⟨chunk,Prod.ext hchunks hparts,(finishChunk_ok hne hfinish).1⟩

/-- The chunk texts of a run are those of the packed parts. -/
theorem packFrom_packParts {parts : List Part} {result : List MarkdownChunk}
    (h : packFrom ctx chunks parts blocks = .ok result) :
    ∃ new, result = chunks ++ new ∧
      new.map (·.markdown) = (packParts ctx parts blocks).map fun ps => strip (joinParts ps) := by
  induction blocks generalizing chunks parts with
  | nil =>
    rw [packFrom] at h
    split at h
    · cases h
    rename_i p hflush
    cases h
    by_cases hparts : parts = []
    · subst hparts
      cases hflush
      exact ⟨[],(List.append_nil _).symm,rfl⟩
    · obtain ⟨chunk,hp,hmarkdown⟩ := flush_markdown hparts hflush
      cases hp
      exact ⟨[chunk],rfl,by rw [packParts, if_neg hparts, List.map_singleton, hmarkdown]; rfl⟩
  | cons b blocks ih =>
    rw [packFrom] at h
    by_cases hroom : parts ≠ [] ∧ targetTokens < total ctx (parts ++ [.own b])
    · rw [makeRoom, if_pos hroom] at h
      split at h
      · cases h
      rename_i p hflush
      obtain ⟨chunk,hp,hmarkdown⟩ := flush_markdown hroom.1 hflush
      cases hp
      simp only at h
      split at h
      · cases h
      obtain ⟨new,rfl,hnew⟩ := ih h
      refine ⟨chunk :: new,List.append_assoc _ _ _,?_⟩
      rw [packParts, if_pos hroom, List.map_cons, List.map_cons, hmarkdown, hnew]
    · have hkeep : keepFront ctx parts b = parts := by
        refine if_neg fun hc => hroom ⟨hc.1,lt_trans ?_ hc.2⟩
        decide
      rw [makeRoom, if_neg hroom] at h
      simp only [hkeep] at h
      split at h
      · cases h
      obtain ⟨new,rfl,hnew⟩ := ih h
      exact ⟨new,rfl,by rw [packParts, if_neg hroom, hnew]⟩

/-- The chunks that the packing forms of the pages. -/
def packing (ctx : ChunkContext) (pages : List MarkdownPage) : List (List Part) :=
  match boundedBlocks ctx.countTokens pages with
  | .ok pieces => packParts ctx [] pieces
  | .error _ => []

theorem chunkMarkdown_packing (h : chunkMarkdown ctx pages = .ok chunks) :
    chunks.map (·.markdown) = (packing ctx pages).map fun parts => strip (joinParts parts) := by
  unfold chunkMarkdown at h
  split at h
  · cases h
  split at h
  · cases h
  split at h
  · cases h
  rename_i blocks hblocks
  split at h
  · cases h
  obtain ⟨new,rfl,hnew⟩ := packFrom_packParts h
  rw [packing, hblocks]
  exact hnew

/-! ### Letters in joined texts -/

theorem silent_visible (s : Str) : Silent categories.of (visible s) ↔ Silent categories.of s := by
  constructor
  · intro h c hc k hk
    refine h c (List.mem_filter.2 ⟨hc,?_⟩) k hk
    rw [Bool.not_eq_true', Bool.eq_false_iff]
    intro hspace
    rw [categories.space c hspace] at hk
    cases hk
  · exact fun h c hc => h c (List.mem_filter.1 hc).1

theorem visible_joinParts (parts : List Part) :
    visible (joinParts parts) = (parts.map fun part => visible part.block.text).flatten := by
  induction parts with
  | nil => rfl
  | cons part parts ih =>
    cases parts with
    | nil => simp [joinParts]
    | cons part' parts =>
      have hjoin : joinParts (part :: part' :: parts) =
          part.block.text ++ newline :: newline :: joinParts (part' :: parts) := by
        simp [joinParts, List.intercalate]
      rw [hjoin, visible_append, visible_cons_newline, visible_cons_newline, ih]
      rfl

/-- A chunk has a letter or a number where one of its parts has one. -/
theorem lettered_joinParts (parts : List Part) : Lettered categories (strip (joinParts parts)) ↔
    ∃ part ∈ parts, Lettered categories part.block.text := by
  have hsilent : Silent categories.of (strip (joinParts parts)) ↔
      ∀ part ∈ parts, Silent categories.of part.block.text := by
    rw [← silent_visible, visible_strip, visible_joinParts]
    simp only [Silent, List.mem_flatten, List.mem_map]
    constructor
    · intro h part hpart
      refine (silent_visible _).1 fun c hc => h c ⟨_,⟨part,hpart,rfl⟩,hc⟩
    · rintro h c ⟨_,⟨part,hpart,rfl⟩,hc⟩
      exact (silent_visible _).2 (h part hpart) c hc
  simp only [Lettered, hsilent, not_forall, exists_prop]

/-- The shape of a run, with a letter or a number in every chunk. -/
structure WellShaped (categories : Categories) (ctx : ChunkContext) (pages : List MarkdownPage)
    (chunks : List MarkdownChunk) : Prop extends Shape ctx pages chunks where
  lettered : ∀ chunk ∈ chunks, Lettered categories chunk.markdown

end MarkdownChunking
end PdfBridge
