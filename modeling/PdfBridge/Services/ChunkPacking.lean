import PdfBridge.Services.Chunker

/-! What the packer makes of the bounded blocks: every chunk takes the next blocks, at least one,
and opens with nothing or with the overlap from the chunk before. -/
namespace PdfBridge
namespace MarkdownChunking
open Unicode

/-- Chunks from an index on that take the blocks in order. A chunk opens with nothing or with all
of what the chunk before left for it. -/
inductive Packs (ctx : ChunkContext) :
    ℕ → List Part → List Block → List MarkdownChunk → Prop
  | nil (i : ℕ) (carried : List Part) : Packs ctx i carried [] []
  | cons {i : ℕ} {carried front : List Part} {own rest : List Block} {chunk : MarkdownChunk}
      {chunks : List MarkdownChunk} (hown : own ≠ []) (hfront : front = [] ∨ front = carried)
      (hfinish : finishChunk ctx i (front ++ own.map .own) = .ok chunk)
      (hrest : Packs ctx (i + 1) (overlap ctx (front ++ own.map .own)) rest chunks) :
      Packs ctx i carried (own ++ rest) (chunk :: chunks)

variable {ctx : ChunkContext} {chunks result : List MarkdownChunk} {blocks : List Block}

theorem flush_ok {parts parts' : List Part} {chunks' : List MarkdownChunk} (hne : parts ≠ [])
    (h : flush ctx chunks parts = .ok (chunks',parts')) :
    ∃ chunk, finishChunk ctx chunks.length parts = .ok chunk ∧ chunks' = chunks ++ [chunk] ∧
      parts' = overlap ctx parts := by
  rw [flush, if_neg hne] at h
  split at h
  · cases h
  · rename_i chunk hchunk
    split at h
    · cases h
    · cases h
      exact ⟨chunk,hchunk,rfl,rfl⟩

/-- The loop with an open chunk that has a block of its own. -/
theorem packFrom_packs {carried front : List Part} {own : List Block} (hown : own ≠ [])
    (hfront : front = [] ∨ front = carried)
    (h : packFrom ctx chunks (front ++ own.map .own) blocks = .ok result) :
    ∃ new, result = chunks ++ new ∧ Packs ctx chunks.length carried (own ++ blocks) new := by
  induction blocks generalizing chunks carried front own with
  | nil =>
    have hne : front ++ own.map .own ≠ [] := by simp [hown]
    rw [packFrom] at h
    cases hflush : flush ctx chunks (front ++ own.map .own) with
    | error e =>
      rw [hflush] at h
      cases h
    | ok p =>
      obtain ⟨chunks',parts'⟩ := p
      rw [hflush] at h
      cases h
      obtain ⟨chunk,hfinish,rfl,-⟩ := flush_ok hne hflush
      exact ⟨[chunk],rfl,.cons hown hfront hfinish (.nil _ _)⟩
  | cons b blocks ih =>
    have hne : front ++ own.map .own ≠ [] := by simp [hown]
    rw [packFrom] at h
    by_cases hroom : targetTokens < total ctx (front ++ own.map .own ++ [.own b])
    · rw [makeRoom, if_pos ⟨hne,hroom⟩] at h
      cases hflush : flush ctx chunks (front ++ own.map .own) with
      | error e =>
        rw [hflush] at h
        cases h
      | ok p =>
        obtain ⟨chunks',parts'⟩ := p
        obtain ⟨chunk,hfinish,rfl,rfl⟩ := flush_ok hne hflush
        simp only [hflush] at h
        split at h
        · cases h
        · have hfront' : keepFront ctx (overlap ctx (front ++ own.map .own)) b = [] ∨
              keepFront ctx (overlap ctx (front ++ own.map .own)) b =
                overlap ctx (front ++ own.map .own) := by
            unfold keepFront
            split
            · exact Or.inl rfl
            · exact Or.inr rfl
          obtain ⟨new,rfl,hnew⟩ := ih (show [b] ≠ [] from List.cons_ne_nil b []) hfront' h
          refine ⟨chunk :: new,List.append_assoc _ _ _,.cons hown hfront hfinish ?_⟩
          simpa using hnew
    · have hkeep : keepFront ctx (front ++ own.map .own) b = front ++ own.map .own := by
        refine if_neg fun hc => hroom (lt_trans ?_ hc.2)
        decide
      rw [makeRoom, if_neg fun hc => hroom hc.2] at h
      simp only [hkeep] at h
      split at h
      · cases h
      · have hparts : front ++ own.map .own ++ [.own b] = front ++ (own ++ [b]).map .own := by simp
        rw [hparts] at h
        obtain ⟨new,rfl,hnew⟩ := ih (by simp) hfront h
        exact ⟨new,rfl,by simpa using hnew⟩

/-- What a run returns packs the bounded blocks of its pages. -/
theorem chunkMarkdown_packs {pages : List MarkdownPage}
    (h : chunkMarkdown ctx pages = .ok result) :
    ∃ blocks, boundedBlocks ctx.countTokens pages = .ok blocks ∧ Packs ctx 0 [] blocks result := by
  unfold chunkMarkdown at h
  split at h
  · cases h
  split at h
  · cases h
  split at h
  · cases h
  rename_i blocks hblocks
  split at h
  · cases h
  rename_i hne
  refine ⟨blocks,hblocks,?_⟩
  cases blocks with
  | nil => exact absurd rfl hne
  | cons b blocks =>
    rw [packFrom, makeRoom, if_neg fun hc => hc.1 rfl] at h
    have hkeep : keepFront ctx [] b = [] := if_neg fun hc => hc.1 rfl
    simp only [hkeep] at h
    split at h
    · cases h
    · have hopen : packFrom ctx [] ([] ++ [b].map Part.own) blocks = .ok result := h
      obtain ⟨new,rfl,hnew⟩ := packFrom_packs (List.cons_ne_nil b []) (Or.inl rfl) hopen
      exact hnew

/-! ### Overlaps -/

section Overlap
variable {countTokens : Str → ℕ} {text best : Str} {maxTokens : ℕ}

theorem scanSuffixes_spec {starts : List ℕ}
    (hbest : best = [] ∨ (best <:+ text ∧ fits countTokens maxTokens best = true)) :
    scanSuffixes countTokens text maxTokens best starts = [] ∨
      (scanSuffixes countTokens text maxTokens best starts <:+ text ∧
        fits countTokens maxTokens (scanSuffixes countTokens text maxTokens best starts) = true) := by
  induction starts generalizing best with
  | nil => exact hbest
  | cons start starts ih =>
    simp only [scanSuffixes]
    split
    · rename_i hfits
      exact ih (Or.inr ⟨(List.dropWhile_suffix _).trans (List.drop_suffix start text),hfits⟩)
    · split
      · exact hbest
      · exact ih hbest

theorem largestSuffix_spec : largestSuffix countTokens text maxTokens = [] ∨
    (largestSuffix countTokens text maxTokens <:+ text ∧
      countTokens (largestSuffix countTokens text maxTokens) ≤ maxTokens) := by
  have hspec : ∀ starts, scanSuffixes countTokens text maxTokens [] starts = [] ∨
      (scanSuffixes countTokens text maxTokens [] starts <:+ text ∧
        countTokens (scanSuffixes countTokens text maxTokens [] starts) ≤ maxTokens) := by
    intro starts
    refine (scanSuffixes_spec (Or.inl rfl)).imp_right fun ⟨h,hfits⟩ => ⟨h,?_⟩
    simp only [fits, Bool.and_eq_true, decide_eq_true_eq] at hfits
    exact hfits.2
  unfold largestSuffix
  simp only
  split
  · exact hspec _
  · exact hspec _

/-- The overlap that some blocks leave: a suffix of at most 48 tokens of their last prose block. -/
structure IsOverlap (countTokens : Str → ℕ) (blocks : List Block) (o : Block) : Prop where
  nonempty : o.text ≠ []
  tokens : countTokens o.text ≤ overlapTokens
  source : ∃ before prose after, blocks = before ++ prose :: after ∧ prose.kind = .prose ∧
    (∀ b ∈ after, b.kind ≠ .prose) ∧ o.text <:+ prose.text ∧ o.page = prose.page

theorem lastProse_own {own : List Block} {prose : Block}
    (h : lastProse (own.map .own) = some prose) :
    ∃ before after, own = before ++ prose :: after ∧ prose.kind = .prose ∧
      ∀ b ∈ after, b.kind ≠ .prose := by
  induction own with
  | nil => cases h
  | cons b own ih =>
    rw [List.map_cons, lastProse] at h
    split at h
    · rename_i b' hb'
      cases h
      obtain ⟨before,after,rfl,hkind,hafter⟩ := ih hb'
      exact ⟨b :: before,after,rfl,hkind,hafter⟩
    · rename_i hnone
      split at h
      · rename_i hkind
        cases h
        refine ⟨[],own,rfl,hkind,fun c hc hprose => ?_⟩
        obtain ⟨p,hp⟩ : ∃ p, lastProse (own.map .own) = some p := by
          clear ih hkind hnone
          induction own with
          | nil => cases hc
          | cons d own ih =>
            rw [List.map_cons, lastProse]
            cases hd : lastProse (own.map .own) with
            | some p => exact ⟨p,rfl⟩
            | none =>
              rcases List.mem_cons.1 hc with rfl | hc
              · exact ⟨c,by simp [hprose]⟩
              · obtain ⟨p,hp⟩ := ih hc
                rw [hp] at hd
                cases hd
        rw [hp] at hnone
        cases hnone
      · cases h

/-- Parts that open a chunk: nothing, or one overlap. -/
def IsFront (front : List Part) : Prop := front = [] ∨ ∃ o, front = [.overlap o]

theorem lastProse_front {front parts : List Part} (h : IsFront front) :
    lastProse (front ++ parts) = lastProse parts := by
  rcases h with rfl | ⟨o,rfl⟩
  · rfl
  · rw [List.singleton_append, lastProse]
    cases lastProse parts <;> rfl

/-- What a chunk leaves for the next one. -/
theorem overlap_spec {front : List Part} {own : List Block} (hfront : IsFront front)
    (hcounts : ∀ b ∈ own, b.tokenCount = ctx.countTokens b.text) :
    overlap ctx (front ++ own.map .own) = [] ∨
      ∃ o, overlap ctx (front ++ own.map .own) = [.overlap o] ∧
        IsOverlap ctx.countTokens own o := by
  unfold overlap
  rw [lastProse_front hfront]
  cases hprose : lastProse (own.map .own) with
  | none => exact Or.inl rfl
  | some prose =>
    obtain ⟨before,after,hown,hkind,hafter⟩ := lastProse_own hprose
    have hcount := hcounts prose (by simp [hown])
    have htext : ∀ t, t = (if prose.tokenCount ≤ overlapTokens then prose.text
        else largestSuffix ctx.countTokens prose.text overlapTokens) → t ≠ [] →
        t <:+ prose.text ∧ ctx.countTokens t ≤ overlapTokens := by
      intro t ht hne
      split at ht
      · rename_i hle
        rw [hcount] at hle
        exact ⟨ht ▸ List.suffix_rfl,ht ▸ hle⟩
      · rw [ht] at hne ⊢
        exact largestSuffix_spec.resolve_left hne
    simp only
    generalize (if prose.tokenCount ≤ overlapTokens then prose.text
        else largestSuffix ctx.countTokens prose.text overlapTokens) = t at htext ⊢
    split
    · exact Or.inl rfl
    · rename_i hne
      obtain ⟨hsuffix,htokens⟩ := htext t rfl hne
      exact Or.inr ⟨_,rfl,hne,htokens,before,prose,after,hown,hkind,hafter,hsuffix,rfl⟩

end Overlap

/-- The fields of a finished chunk. -/
theorem finishChunk_ok {i : ℕ} {parts : List Part} {chunk : MarkdownChunk} (hne : parts ≠ [])
    (h : finishChunk ctx i parts = .ok chunk) :
    chunk.markdown = strip (joinParts parts) ∧ chunk.markdown ≠ [] ∧
      ctx.countTokens chunk.markdown ≤ hardMaxTokens ∧
      chunk.tokenCount = ctx.countTokens chunk.markdown ∧ chunk.chunkIndex = i ∧
      (∀ part ∈ parts.getLast?, chunk.headingPath = part.block.headingPath) ∧
      (chunk.pageStart ∈ parts.map (·.block.page) ∧
        ∀ n ∈ parts.map (·.block.page), chunk.pageStart ≤ n) ∧
      chunk.pageEnd ∈ parts.map (·.block.page) ∧
        ∀ n ∈ parts.map (·.block.page), n ≤ chunk.pageEnd := by
  unfold finishChunk at h
  simp only at h
  split at h
  · cases h
  rename_i hmarkdown
  split at h
  · cases h
  rename_i hcount
  split at h
  · cases h
  cases h
  have hpages : parts.map (·.block.page) ≠ [] := by simpa using hne
  refine ⟨rfl,hmarkdown,Nat.not_lt.1 hcount,rfl,rfl,?_,?_,?_⟩
  · intro part hpart
    rw [Option.mem_def] at hpart
    simp [hpart]
  · cases hmin : (parts.map (·.block.page)).min? with
    | none => exact absurd (List.min?_eq_none_iff.1 hmin) hpages
    | some n => exact List.min?_eq_some_iff.1 hmin
  · cases hmax : (parts.map (·.block.page)).max? with
    | none => exact absurd (List.max?_eq_none_iff.1 hmax) hpages
    | some n => exact List.max?_eq_some_iff.1 hmax

/-! ### The pieces of one block -/

section Pieces
variable {countTokens : Str → ℕ} {b p : Block} {pieces : List Block}

/-- What every bounded piece keeps from its block, with its own count within the bound. -/
structure IsPiece (countTokens : Str → ℕ) (b p : Block) : Prop where
  page : p.page = b.page
  headings : p.headingPath = b.headingPath
  count : p.tokenCount = countTokens p.text

theorem isPiece_pieceOf (kind : Kind) (t : Str) : IsPiece countTokens b (pieceOf countTokens b kind t) :=
  ⟨rfl,rfl,rfl⟩

theorem boundedPieces_isPiece (hb : b.tokenCount = countTokens b.text)
    (h : boundedPieces countTokens b = .ok pieces) (hp : p ∈ pieces) : IsPiece countTokens b p := by
  have hself : IsPiece countTokens b b := ⟨rfl,rfl,hb⟩
  have hmap {texts : List Str} {f : Str → Str} {kind : Kind}
      (hm : p ∈ texts.map fun t => pieceOf countTokens b kind (f t)) :
      IsPiece countTokens b p := by
    obtain ⟨t,-,rfl⟩ := List.mem_map.1 hm
    exact isPiece_pieceOf _ _
  unfold boundedPieces at h
  split at h
  · cases h
    rw [List.mem_singleton.1 hp]
    exact hself
  · split at h
    · unfold splitTable at h
      split at h
      · split at h
        · cases h
        · simp only at h
          split at h
          · cases h
          · split at h
            · cases h
              rw [List.mem_singleton.1 hp]
              exact hself
            · split at h
              · cases h
              · cases h
                obtain ⟨t,-,rfl⟩ := List.mem_map.1 hp
                exact isPiece_pieceOf _ _
      · cases h
    · unfold splitFence at h
      split at h
      · cases h
      · simp only at h
        split at h
        · cases h
        · split at h
          · cases h
          · cases h
            exact hmap hp
    · unfold splitProse at h
      split at h
      · cases h
      · cases h
        exact hmap (f := id) hp

theorem boundAll_isPiece {blocks : List Block} (hcounts : ∀ b ∈ blocks,
      b.tokenCount = countTokens b.text) (h : boundAll countTokens blocks = .ok pieces)
    (hp : p ∈ pieces) : ∃ b ∈ blocks, IsPiece countTokens b p := by
  induction blocks generalizing pieces with
  | nil =>
    cases h
    cases hp
  | cons b blocks ih =>
    obtain ⟨hb,hcounts⟩ := List.forall_mem_cons.1 hcounts
    rw [boundAll] at h
    split at h
    · cases h
    · rename_i first hfirst
      split at h
      · cases h
      · rename_i rest hrest
        cases h
        rcases List.mem_append.1 hp with hp | hp
        · exact ⟨b,List.mem_cons_self,boundedPieces_isPiece hb hfirst hp⟩
        · obtain ⟨b',hb',hpiece⟩ := ih hcounts hrest hp
          exact ⟨b',List.mem_cons_of_mem _ hb',hpiece⟩

end Pieces

end MarkdownChunking
end PdfBridge
