import PdfBridge.Services.ChunkBlocks
import Mathlib.Data.List.Sort
import Mathlib.Order.Bounds.Basic

/-! Headings and pages of chunks: the chain of headings that enclose a block, and when the chunker
carries it. -/
namespace PdfBridge
namespace MarkdownChunking
open Unicode MarkdownFormatter

/-! ### Enclosing headings -/

/-- Of some headings in order, those that have no heading of their level or a lower one after
them. -/
def enclosing : List (ℕ × Str) → List (ℕ × Str)
  | [] => []
  | h :: hs => if hs.all fun x => h.1 < x.1 then h :: enclosing hs else enclosing hs

def titles (hs : List (ℕ × Str)) : List Str := hs.map (·.2)

/-- The blocks of a sequence of groups, each with its enclosing headings; `earlier` are the
headings before. -/
def enclosedBlocks (countTokens : Str → ℕ) :
    List (ℕ × Str) → List (ℕ × Kind × List Str) → List Block
  | _, [] => []
  | earlier, (page,g) :: rest =>
      let earlier := earlier ++ (headingOf g).toList
      if g.1 = .blank then enclosedBlocks countTokens earlier rest
      else block countTokens page (titles (enclosing earlier)) g.1 g.2 ::
        enclosedBlocks countTokens earlier rest

/-- A heading closes what it should: no heading of its level or a deeper one encloses it, or
headings of all lower levels do. -/
def Closes (earlier : List (ℕ × Str)) (h : ℕ × Str) : Prop :=
  (∀ e ∈ enclosing earlier, e.1 < h.1) ∨ ∀ l, 1 ≤ l → l < h.1 → ∃ e ∈ enclosing earlier, e.1 = l

def AllClose : List (ℕ × Str) → List (ℕ × Str) → Prop
  | _, [] => True
  | earlier, h :: hs => Closes earlier h ∧ AllClose (earlier ++ [h]) hs

def headingsIn (gs : List (ℕ × Kind × List Str)) : List (ℕ × Str) :=
  gs.filterMap fun x => headingOf x.2

variable {hs earlier : List (ℕ × Str)} {h : ℕ × Str}

theorem mem_enclosing (hm : h ∈ enclosing hs) : h ∈ hs := by
  induction hs with
  | nil => cases hm
  | cons x hs ih =>
    rw [enclosing] at hm
    split at hm
    · rcases List.mem_cons.1 hm with rfl | hm
      · exact List.mem_cons_self
      · exact List.mem_cons_of_mem _ (ih hm)
    · exact List.mem_cons_of_mem _ (ih hm)

/-- A further heading closes those of its level and of deeper ones. -/
theorem enclosing_append :
    enclosing (hs ++ [h]) = (enclosing hs).filter (fun x => x.1 < h.1) ++ [h] := by
  induction hs with
  | nil => rfl
  | cons x hs ih =>
    rw [List.cons_append, enclosing, enclosing, ih, List.all_append]
    by_cases hx : hs.all (fun y => x.1 < y.1) = true
    · by_cases hh : x.1 < h.1
      · simp [hx, hh]
      · simp [hx, hh]
    · simp [hx]

/-- The levels of enclosing headings increase. -/
theorem enclosing_sorted : (enclosing hs).Pairwise fun a b => a.1 < b.1 := by
  induction hs with
  | nil => exact List.Pairwise.nil
  | cons x hs ih =>
    rw [enclosing]
    split
    · rename_i hx
      refine List.pairwise_cons.2 ⟨fun y hy => ?_,ih⟩
      simpa using List.all_eq_true.1 hx y (mem_enclosing hy)
    · exact ih

/-- Among sorted headings those of lower levels stand in front. -/
theorem filter_lower {l : ℕ} (hs : List (ℕ × Str)) (hsorted : hs.Pairwise fun a b => a.1 < b.1) :
    hs.filter (fun x => x.1 < l) = hs.take (hs.filter fun x => x.1 < l).length := by
  induction hs with
  | nil => rfl
  | cons x hs ih =>
    obtain ⟨hx,hsorted⟩ := List.pairwise_cons.1 hsorted
    by_cases hl : x.1 < l
    · rw [List.filter_cons_of_pos (by simpa using hl), List.length_cons, List.take_succ_cons,
        ← ih hsorted]
    · have hnone : hs.filter (fun x => x.1 < l) = [] := by
        refine List.filter_eq_nil_iff.2 fun y hy => ?_
        have := hx y hy
        simp only [decide_eq_true_eq]
        omega
      rw [List.filter_cons_of_neg (by simpa using hl), hnone]
      rfl

/-- The levels below `l` that some headings have. -/
theorem lower_levels {l : ℕ} (hsorted : hs.Pairwise fun a b => a.1 < b.1)
    (hpos : ∀ x ∈ hs, 1 ≤ x.1) : ((hs.filter fun x => x.1 < l).map (·.1)).Subperm
      (List.range' 1 (l - 1)) := by
  refine List.subperm_of_subset ?_ fun k hk => ?_
  · exact ((List.pairwise_map.2 hsorted).sublist ((List.filter_sublist).map _)).imp
      fun h => Nat.ne_of_lt h
  · obtain ⟨x,hx,rfl⟩ := List.mem_map.1 hk
    obtain ⟨hx,hl⟩ := List.mem_filter.1 hx
    have := hpos x hx
    have : x.1 < l := by simpa using hl
    exact List.mem_range'_1.2 (by omega)

/-- `headings[level - 1:] = [title]` gives the enclosing headings exactly when the heading closes
what it should. -/
theorem pushHeading_eq_iff (hpos : ∀ x ∈ earlier, 1 ≤ x.1) (hlevel : 1 ≤ h.1) :
    pushHeading (titles (enclosing earlier)) h.1 h.2 = titles (enclosing (earlier ++ [h])) ↔
      Closes earlier h := by
  have hsorted := @enclosing_sorted earlier
  have hpos' : ∀ x ∈ enclosing earlier, 1 ≤ x.1 := fun x hx => hpos x (mem_enclosing hx)
  have hsub := lower_levels (l := h.1) hsorted hpos'
  have hlen := hsub.length_le
  rw [List.length_map, List.length_range'] at hlen
  have hfront := filter_lower (l := h.1) _ hsorted
  have hle := List.length_filter_le (fun x : ℕ × Str => decide (x.1 < h.1)) (enclosing earlier)
  have hall : ((enclosing earlier).filter fun x => x.1 < h.1).length =
      (enclosing earlier).length ↔ ∀ e ∈ enclosing earlier, e.1 < h.1 := by
    rw [List.length_filter_eq_length_iff]
    simp
  have hfull : ((enclosing earlier).filter fun x => x.1 < h.1).length = h.1 - 1 ↔
      ∀ l, 1 ≤ l → l < h.1 → ∃ e ∈ enclosing earlier, e.1 = l := by
    constructor
    · intro heq l hl hlt
      have hperm := hsub.perm_of_length_le (by
        rw [List.length_map, List.length_range', heq])
      have hmem : l ∈ ((enclosing earlier).filter fun x => x.1 < h.1).map (·.1) :=
        hperm.mem_iff.2 (List.mem_range'_1.2 (by omega))
      obtain ⟨e,he,rfl⟩ := List.mem_map.1 hmem
      exact ⟨e,(List.mem_filter.1 he).1,rfl⟩
    · intro hex
      refine le_antisymm hlen ?_
      have hback : (List.range' 1 (h.1 - 1)).Subperm
          (((enclosing earlier).filter fun x => x.1 < h.1).map (·.1)) := by
        refine List.subperm_of_subset List.nodup_range' fun l hl => ?_
        have hl := List.mem_range'_1.1 hl
        obtain ⟨e,he,rfl⟩ := hex l hl.1 (by omega)
        exact List.mem_map.2 ⟨e,List.mem_filter.2 ⟨he,by simp; omega⟩,rfl⟩
      simpa using hback.length_le
  have hlengths : pushHeading (titles (enclosing earlier)) h.1 h.2 =
      titles (enclosing (earlier ++ [h])) ↔
        min (h.1 - 1) (enclosing earlier).length =
          ((enclosing earlier).filter fun x => x.1 < h.1).length := by
    rw [enclosing_append, pushHeading, titles, titles, List.map_append, List.map_singleton,
      List.append_left_inj]
    constructor
    · intro heq
      simpa using congrArg List.length heq
    · intro hmin
      rw [hfront, List.map_take, ← hmin]
      rw [List.take_eq_take_iff]
      simp
  rw [hlengths, Closes, ← hall, ← hfull]
  omega

/-! ### The headings of the blocks -/

/-- A group of kind heading is one line that matches. -/
theorem groups_heading {lines all : List Str} (hg : (Kind.heading,lines) ∈ groups id all) :
    (headingOf (.heading,lines)).isSome = true := by
  induction all using groups_induction id with
  | hnil => cases hg
  | hcons x all ih =>
    rw [groups_cons] at hg
    rcases List.mem_cons.1 hg with heq | hg
    · unfold nextGroup at heq
      split at heq
      · cases heq
      · split at heq
        · rename_i hmatch
          cases heq
          exact hmatch
        · split at heq
          · cases heq
          · split at heq
            · split at heq <;> cases heq
            · cases heq
    · exact ih hg

variable {countTokens : Str → ℕ} {gs : List (ℕ × Kind × List Str)}

theorem headingOf_level {g : Kind × List Str} (hg : headingOf g = some h) : 1 ≤ h.1 := by
  obtain ⟨kind,lines⟩ := g
  cases kind with
  | heading =>
    obtain ⟨line,-,hline⟩ := Option.bind_eq_some_iff.1 hg
    unfold headingMatch at hline
    simp only at hline
    split at hline
    · split at hline
      · rename_i hlevel
        cases hline
        exact hlevel.1
      · cases hline
    · cases hline
  | _ => cases hg

theorem headingOf_blank {g : Kind × List Str} (hg : g.1 = .blank) : headingOf g = none := by
  obtain ⟨kind,lines⟩ := g
  cases hg
  rfl

/-- The chunker carries the enclosing headings of every block exactly when each heading closes
what it should. -/
theorem headingPaths_eq_iff (hpos : ∀ x ∈ earlier, 1 ≤ x.1)
    (hhead : ∀ x ∈ gs, x.2.1 = .heading → (headingOf x.2).isSome = true) :
    (blocksOf countTokens (titles (enclosing earlier)) gs).map (·.headingPath) =
        (enclosedBlocks countTokens earlier gs).map (·.headingPath) ↔
      AllClose earlier (headingsIn gs) := by
  induction gs generalizing earlier with
  | nil => simp [blocksOf, enclosedBlocks, headingsIn, AllClose]
  | cons x gs ih =>
    obtain ⟨page,g⟩ := x
    obtain ⟨hx,hhead⟩ := List.forall_mem_cons.1 hhead
    rw [blocksOf, enclosedBlocks]
    cases hg : headingOf g with
    | none =>
      have hafter : headingsAfter (titles (enclosing earlier)) g = titles (enclosing earlier) := by
        rw [headingsAfter, hg]
      simp only [hafter, Option.toList_none, List.append_nil, headingsIn, List.filterMap_cons, hg]
      split
      · exact ih hpos hhead
      · rw [List.map_cons, List.map_cons, List.cons.injEq]
        simp only [block, true_and]
        exact ih hpos hhead
    | some y =>
      have hblank : g.1 ≠ .blank := fun hb => by
        rw [headingOf_blank hb] at hg
        cases hg
      have hafter : headingsAfter (titles (enclosing earlier)) g =
          pushHeading (titles (enclosing earlier)) y.1 y.2 := by
        rw [headingsAfter, hg]
      have hlevel := headingOf_level hg
      have hpos' : ∀ x ∈ earlier ++ [y], 1 ≤ x.1 := by
        intro x hx
        rcases List.mem_append.1 hx with hx | hx
        · exact hpos x hx
        · rw [List.mem_singleton.1 hx]
          exact hlevel
      simp only [if_neg hblank, hafter, Option.toList_some, headingsIn, List.filterMap_cons, hg,
        AllClose, List.map_cons, List.cons.injEq]
      simp only [block]
      rw [pushHeading_eq_iff hpos hlevel]
      constructor
      · rintro ⟨hclose,hrest⟩
        rw [(pushHeading_eq_iff hpos hlevel).2 hclose] at hrest
        exact ⟨hclose,(ih hpos' hhead).1 hrest⟩
      · rintro ⟨hclose,hrest⟩
        rw [(pushHeading_eq_iff hpos hlevel).2 hclose]
        exact ⟨hclose,(ih hpos' hhead).2 hrest⟩

/-- Apart from their headings the blocks are the same. -/
theorem blocksOf_same {headings : List Str} : List.Forall₂
    (fun b e => b = {e with headingPath := b.headingPath})
    (blocksOf countTokens headings gs) (enclosedBlocks countTokens earlier gs) := by
  induction gs generalizing headings earlier with
  | nil => exact List.Forall₂.nil
  | cons x gs ih =>
    obtain ⟨page,g⟩ := x
    rw [blocksOf, enclosedBlocks]
    split
    · exact ih
    · exact List.Forall₂.cons rfl ih

theorem blocks_eq_of_paths {bs es : List Block}
    (hsame : List.Forall₂ (fun b e => b = {e with headingPath := b.headingPath}) bs es)
    (hpaths : bs.map (·.headingPath) = es.map (·.headingPath)) : bs = es := by
  induction hsame with
  | nil => rfl
  | cons h _ ih =>
    rw [List.map_cons, List.map_cons, List.cons.injEq] at hpaths
    rw [ih hpaths.2, h, hpaths.1]

theorem documentGroups_heading {pages : List MarkdownPage} :
    ∀ x ∈ documentGroups pages, x.2.1 = .heading → (headingOf x.2).isSome = true := by
  rintro ⟨page,g⟩ hx hheading
  obtain ⟨p,-,-,hg⟩ := mem_documentGroups hx
  obtain ⟨kind,lines⟩ := g
  cases hheading
  exact groups_heading hg

/-! ### Chunks and the pieces they carry -/

/-- A chunk of some blocks behind an overlap: its text, the headings of its last block, and the
least and the greatest page of its parts. -/
structure CarriesOne (front group : List Block) (chunk : MarkdownChunk) : Prop where
  markdown : chunk.markdown =
    strip (List.intercalate [newline,newline] ((front ++ group).map (·.text)))
  headings : ∀ b ∈ group.getLast?, chunk.headingPath = b.headingPath
  start : IsLeast {n | ∃ b ∈ front ++ group, b.page = n} chunk.pageStart
  finish : IsGreatest {n | ∃ b ∈ front ++ group, b.page = n} chunk.pageEnd

/-- Chunks that carry one group of blocks each, opening with nothing or with an overlap of the
group before. -/
inductive Carries (countTokens : Str → ℕ) :
    List Block → List (List Block) → List MarkdownChunk → Prop
  | nil (before : List Block) : Carries countTokens before [] []
  | cons {before front group : List Block} {groups : List (List Block)} {chunk : MarkdownChunk}
      {chunks : List MarkdownChunk} (hgroup : group ≠ [])
      (hfront : front = [] ∨ ∃ o, front = [o] ∧ IsOverlap countTokens before o)
      (hchunk : CarriesOne front group chunk) (hrest : Carries countTokens group groups chunks) :
      Carries countTokens before (group :: groups) (chunk :: chunks)

/-- The chunks carry the pieces of the document in order, each block with its enclosing headings
and its page. -/
structure Provenance (ctx : ChunkContext) (pages : List MarkdownPage)
    (chunks : List MarkdownChunk) : Prop where
  carries : ∃ pieces groups,
    boundAll ctx.countTokens (enclosedBlocks ctx.countTokens [] (documentGroups pages)) =
      .ok pieces ∧ groups.flatten = pieces ∧ Carries ctx.countTokens [] groups chunks
  ordered : chunks.Pairwise fun a b => a.pageStart ≤ b.pageStart ∧ a.pageEnd ≤ b.pageEnd

variable {ctx : ChunkContext} {chunks : List MarkdownChunk} {blocks : List Block}
  {pages : List MarkdownPage}

theorem carriesOne_of_finish {i : ℕ} {front : List Part} {own : List Block}
    {chunk : MarkdownChunk} (hown : own ≠ [])
    (h : finishChunk ctx i (front ++ own.map .own) = .ok chunk) :
    CarriesOne (front.map (·.block)) own chunk := by
  have hparts {β : Type} (f : Block → β) :
      (front ++ own.map Part.own).map (fun p : Part => f p.block) =
        (front.map (·.block) ++ own).map f := by
    rw [List.map_append, List.map_append, List.map_map, List.map_map]
    rfl
  have hpages : (front ++ own.map Part.own).map (fun p : Part => p.block.page) =
      (front.map (·.block) ++ own).map (·.page) := hparts fun b => b.page
  obtain ⟨hmarkdown,-,-,-,-,hlast,⟨hstart,hleast⟩,hend,hgreatest⟩ :=
    finishChunk_ok (by simp [hown]) h
  rw [hpages] at hstart hleast hend hgreatest
  simp only [List.mem_map] at hstart hleast hend hgreatest
  refine ⟨?_,?_,⟨hstart,?_⟩,⟨hend,?_⟩⟩
  · rw [hmarkdown, joinParts, hparts (fun b => b.text)]
  · intro b hb
    refine hlast (.own b) ?_
    rw [Option.mem_def] at hb ⊢
    rw [List.getLast?_append, List.getLast?_map, hb]
    rfl
  · rintro n ⟨b,hb,rfl⟩
    exact hleast _ ⟨b,hb,rfl⟩
  · rintro n ⟨b,hb,rfl⟩
    exact hgreatest _ ⟨b,hb,rfl⟩

/-- What a chunk leaves to the next one is nothing or an overlap of its own blocks. -/
def Leaves (countTokens : Str → ℕ) (before : List Block) (carried : List Part) : Prop :=
  carried = [] ∨ ∃ o, carried = [.overlap o] ∧ IsOverlap countTokens before o

theorem Leaves.isFront {before : List Block} {carried front : List Part}
    (h : Leaves countTokens before carried) (hf : front = [] ∨ front = carried) :
    IsFront front := by
  rcases hf with rfl | rfl
  · exact Or.inl rfl
  · rcases h with h | ⟨o,h,-⟩
    · exact Or.inl h
    · exact Or.inr ⟨o,h⟩

theorem Leaves.front {before : List Block} {carried front : List Part}
    (h : Leaves countTokens before carried) (hf : front = [] ∨ front = carried) :
    front.map (·.block) = [] ∨
      ∃ o, front.map (·.block) = [o] ∧ IsOverlap countTokens before o := by
  rcases hf with rfl | rfl
  · exact Or.inl rfl
  · rcases h with rfl | ⟨o,rfl,ho⟩
    · exact Or.inl rfl
    · exact Or.inr ⟨o,rfl,ho⟩

theorem Packs.carries {i : ℕ} {carried : List Part} {before : List Block}
    (h : Packs ctx i carried blocks chunks) (hcarried : Leaves ctx.countTokens before carried)
    (hcounts : ∀ b ∈ blocks, b.tokenCount = ctx.countTokens b.text) :
    ∃ groups, groups.flatten = blocks ∧ Carries ctx.countTokens before groups chunks := by
  induction h generalizing before with
  | nil i carried => exact ⟨[],rfl,.nil before⟩
  | @cons i carried front own rest chunk chunks hown hfront hfinish hrest ih =>
    have hcounts' : ∀ b ∈ own, b.tokenCount = ctx.countTokens b.text :=
      fun b hb => hcounts b (List.mem_append_left _ hb)
    have hleaves : Leaves ctx.countTokens own (overlap ctx (front ++ own.map .own)) :=
      overlap_spec (hcarried.isFront hfront) hcounts'
    obtain ⟨groups,rfl,hgroups⟩ := ih hleaves
      (fun b hb => hcounts b (List.mem_append_right _ hb))
    exact ⟨own :: groups,rfl,.cons hown (hcarried.front hfront) (carriesOne_of_finish hown hfinish)
      hgroups⟩

/-! ### The order of the pages -/

def PageOrdered (blocks : List Block) : Prop := blocks.Pairwise fun a b => a.page ≤ b.page

/-- A bound below all pages is below the first page of each chunk, a bound below the pages of the
groups is below the last page of each chunk. -/
theorem Carries.bounds {before : List Block} {groups : List (List Block)}
    (h : Carries countTokens before groups chunks) {n : ℕ} {chunk : MarkdownChunk}
    (hc : chunk ∈ chunks) :
    ((∀ b ∈ before ++ groups.flatten, n ≤ b.page) → n ≤ chunk.pageStart) ∧
      ((∀ b ∈ groups.flatten, n ≤ b.page) → n ≤ chunk.pageEnd) := by
  induction h with
  | nil => cases hc
  | @cons before front group groups c chunks hgroup hfront hchunk hrest ih =>
    rcases List.mem_cons.1 hc with rfl | hc
    · constructor
      · intro hall
        obtain ⟨b,hb,hpage⟩ := hchunk.start.1
        rw [← hpage]
        rcases List.mem_append.1 hb with hb | hb
        · rcases hfront with rfl | ⟨o,rfl,ho⟩
          · cases hb
          · rw [List.mem_singleton.1 hb]
            obtain ⟨x,prose,y,rfl,-,-,-,hp⟩ := ho.source
            rw [hp]
            exact hall prose (by simp)
        · exact hall b (by simp [hb])
      · intro hall
        obtain ⟨b,rest,rfl⟩ := List.exists_cons_of_ne_nil hgroup
        exact (hall b (by simp)).trans (hchunk.finish.2 ⟨b,by simp,rfl⟩)
    · obtain ⟨hstart,hend⟩ := ih hc
      refine ⟨fun hall => hstart fun b hb => hall b ?_,fun hall => hend fun b hb => hall b ?_⟩
      · rw [List.flatten_cons]
        rcases List.mem_append.1 hb with hb | hb <;> simp [hb]
      · rw [List.flatten_cons]
        exact List.mem_append_right _ hb

theorem Carries.ordered {before : List Block} {groups : List (List Block)}
    (h : Carries countTokens before groups chunks)
    (hpages : PageOrdered (before ++ groups.flatten)) :
    chunks.Pairwise fun a b => a.pageStart ≤ b.pageStart ∧ a.pageEnd ≤ b.pageEnd := by
  induction h with
  | nil => exact List.Pairwise.nil
  | @cons before front group groups c chunks hgroup hfront hchunk hrest ih =>
    rw [List.flatten_cons] at hpages
    have hlater := (List.pairwise_append.1 hpages).2.1
    have hgroups := (List.pairwise_append.1 hlater).2.2
    refine List.pairwise_cons.2 ⟨fun d hd => ?_,ih hlater⟩
    obtain ⟨hstart,hend⟩ := hrest.bounds (n := c.pageStart) hd
    obtain ⟨-,hend⟩ := hrest.bounds (n := c.pageEnd) hd
    refine ⟨hstart fun b hb => ?_,hend fun b hb => ?_⟩
    · rcases List.mem_append.1 hb with hown | hnext
      · exact hchunk.start.2 ⟨b,List.mem_append_right _ hown,rfl⟩
      · obtain ⟨a,ha⟩ := List.exists_mem_of_ne_nil group hgroup
        exact (hchunk.start.2 ⟨a,List.mem_append_right _ ha,rfl⟩).trans (hgroups a ha b hnext)
    · obtain ⟨a,ha,hpage⟩ := hchunk.finish.1
      rw [← hpage]
      rcases List.mem_append.1 ha with ha | ha
      · rcases hfront with rfl | ⟨o,rfl,ho⟩
        · cases ha
        · rw [List.mem_singleton.1 ha]
          obtain ⟨x,prose,y,rfl,-,-,-,hp⟩ := ho.source
          rw [hp]
          exact (List.pairwise_append.1 hpages).2.2 prose (by simp) b
            (List.mem_append_right _ hb)
      · exact hgroups a ha b hb

theorem boundAll_ordered {pieces : List Block}
    (hcounts : ∀ b ∈ blocks, b.tokenCount = countTokens b.text) (hpages : PageOrdered blocks)
    (h : boundAll countTokens blocks = .ok pieces) : PageOrdered pieces := by
  induction blocks generalizing pieces with
  | nil =>
    cases h
    exact List.Pairwise.nil
  | cons b blocks ih =>
    obtain ⟨hb,hcounts⟩ := List.forall_mem_cons.1 hcounts
    obtain ⟨hfirst,hpages⟩ := List.pairwise_cons.1 hpages
    rw [boundAll] at h
    split at h
    · cases h
    · rename_i own hown
      split at h
      · cases h
      · rename_i rest hrest
        cases h
        have hpage : ∀ p ∈ own, p.page = b.page :=
          fun p hp => (boundedPieces_isPiece hb hown hp).page
        refine List.pairwise_append.2 ⟨?_,ih hcounts hpages hrest,fun p hp q hq => ?_⟩
        · exact List.pairwise_of_forall_mem_list fun p hp q hq => by rw [hpage p hp, hpage q hq]
        · obtain ⟨b',hb',hpiece⟩ := boundAll_isPiece hcounts hrest hq
          rw [hpage p hp, hpiece.page]
          exact hfirst b' hb'

/-- Pages as the formatter returns them: complete, in order, not blank, and with an encoding. -/
structure Validated (pages : List MarkdownPage) : Prop where
  numbered : validatePages pages = .ok ()
  encodable : ∀ page ∈ pages, page.markdown.any isSurrogate = false

theorem validateFrom_ok {n : ℕ} (h : validateFrom n pages = .ok ()) :
    (∀ p ∈ pages, n ≤ p.pageNumber) ∧ pages.Pairwise (fun a b => a.pageNumber ≤ b.pageNumber) ∧
      ∀ p ∈ pages, isBlank p.markdown = false := by
  induction pages generalizing n with
  | nil => exact ⟨by simp,List.Pairwise.nil,by simp⟩
  | cons p pages ih =>
    rw [validateFrom] at h
    split at h
    · cases h
    rename_i hnumber
    split at h
    · cases h
    rename_i hblank
    have hnumber := not_not.1 hnumber
    obtain ⟨hle,hpairwise,hvisible⟩ := ih h
    refine ⟨List.forall_mem_cons.2 ⟨hnumber.ge,fun q hq => Nat.le_of_succ_le (hle q hq)⟩,
      List.pairwise_cons.2 ⟨fun q hq => ?_,hpairwise⟩,
      List.forall_mem_cons.2 ⟨by simpa using hblank,hvisible⟩⟩
    rw [hnumber]
    exact Nat.le_of_succ_le (hle q hq)

theorem Validated.from_one (h : Validated pages) : validateFrom 1 pages = .ok () := by
  have hn := h.numbered
  unfold validatePages at hn
  split at hn
  · cases hn
  · exact hn

theorem documentGroups_ordered (h : Validated pages) :
    (documentGroups pages).Pairwise fun a b => a.1 ≤ b.1 := by
  have hpairwise := (validateFrom_ok h.from_one).2.1
  clear h
  unfold documentGroups
  refine List.pairwise_flatMap.2 ⟨fun p _ => ?_,hpairwise.imp fun {p q} hpq x hx y hy => ?_⟩
  · exact List.pairwise_map.2 (List.pairwise_of_forall_mem_list fun _ _ _ _ => le_rfl)
  · obtain ⟨g,-,rfl⟩ := List.mem_map.1 hx
    obtain ⟨g',-,rfl⟩ := List.mem_map.1 hy
    exact hpq

theorem mem_enclosedBlocks {b : Block} (hb : b ∈ enclosedBlocks countTokens earlier gs) :
    ∃ x ∈ gs, b.page = x.1 ∧ b.text = strip (joinLines x.2.2) ∧ x.2.1 ≠ .blank ∧
      b.tokenCount = countTokens b.text := by
  induction gs generalizing earlier with
  | nil => cases hb
  | cons x gs ih =>
    obtain ⟨page,g⟩ := x
    rw [enclosedBlocks] at hb
    split at hb
    · obtain ⟨x,hx,hrest⟩ := ih hb
      exact ⟨x,List.mem_cons_of_mem _ hx,hrest⟩
    · rename_i hkind
      rcases List.mem_cons.1 hb with rfl | hb
      · exact ⟨_,List.mem_cons_self,rfl,rfl,hkind,rfl⟩
      · obtain ⟨x,hx,hrest⟩ := ih hb
        exact ⟨x,List.mem_cons_of_mem _ hx,hrest⟩

theorem enclosedBlocks_ordered (h : gs.Pairwise fun a b => a.1 ≤ b.1) :
    PageOrdered (enclosedBlocks countTokens earlier gs) := by
  induction gs generalizing earlier with
  | nil => exact List.Pairwise.nil
  | cons x gs ih =>
    obtain ⟨page,g⟩ := x
    obtain ⟨hx,hgs⟩ := List.pairwise_cons.1 h
    rw [enclosedBlocks]
    split
    · exact ih hgs
    · refine List.pairwise_cons.2 ⟨fun b hb => ?_,ih hgs⟩
      obtain ⟨y,hy,hpage,-⟩ := mem_enclosedBlocks hb
      rw [hpage]
      exact hx y hy

/-- Where every heading closes what it should, the chunker finds the enclosing headings. -/
theorem documentBlocks_enclosed (h : AllClose [] (headingsIn (documentGroups pages))) :
    documentBlocks countTokens [] pages =
      enclosedBlocks countTokens [] (documentGroups pages) := by
  rw [documentBlocks_eq]
  refine blocks_eq_of_paths blocksOf_same ?_
  exact (headingPaths_eq_iff (by simp) documentGroups_heading).2 h

theorem provenance_of_closes (hvalid : Validated pages)
    (hclose : AllClose [] (headingsIn (documentGroups pages)))
    (h : chunkMarkdown ctx pages = .ok chunks) : Provenance ctx pages chunks := by
  obtain ⟨pieces,hpieces,hpacks⟩ := chunkMarkdown_packs h
  rw [boundedBlocks, documentBlocks_enclosed hclose] at hpieces
  have hcounts : ∀ b ∈ enclosedBlocks ctx.countTokens [] (documentGroups pages),
      b.tokenCount = ctx.countTokens b.text := by
    intro b hb
    obtain ⟨-,-,-,-,-,hcount⟩ := mem_enclosedBlocks hb
    exact hcount
  have hpieceCounts : ∀ p ∈ pieces, p.tokenCount = ctx.countTokens p.text := by
    intro p hp
    obtain ⟨b,-,hpiece⟩ := boundAll_isPiece hcounts hpieces hp
    exact hpiece.count
  obtain ⟨groups,hflatten,hcarries⟩ := hpacks.carries (Or.inl rfl) hpieceCounts
  have hordered := boundAll_ordered hcounts
    (enclosedBlocks_ordered (documentGroups_ordered hvalid)) hpieces
  exact ⟨⟨pieces,groups,hpieces,hflatten,hcarries⟩,
    hcarries.ordered (by simpa [hflatten] using hordered)⟩

/-! ### A tokenizer that gives every block its own chunk -/

/-- Every text counts the hard maximum. -/
def fullContext (n : ℤ) : ChunkContext where
  documentId := uuid4 0 0
  preparedRevisionId := uuid4 0 1
  countTokens := fun _ => hardMaxTokens
  maxChunks := n
  sha256 := fun _ => ⟨""⟩

/-- Blocks within the bound stay whole. -/
theorem boundAll_whole (hcounts : ∀ b ∈ blocks, b.tokenCount ≤ hardMaxTokens) :
    boundAll countTokens blocks = .ok blocks := by
  induction blocks with
  | nil => rfl
  | cons b blocks ih =>
    obtain ⟨hb,hcounts⟩ := List.forall_mem_cons.1 hcounts
    rw [boundAll, boundedPieces, if_pos hb, ih hcounts]
    rfl

/-- A block that makes a chunk: some text, without surrogates. -/
structure Presentable (b : Block) : Prop where
  visible : strip b.text ≠ []
  encodable : (strip b.text).any isSurrogate = false

theorem finishChunk_full {n : ℤ} {i : ℕ} {b : Block} (hb : Presentable b) :
    ∃ chunk, finishChunk (fullContext n) i [.own b] = .ok chunk ∧
      chunk.headingPath = b.headingPath ∧ chunk.markdown = strip b.text := by
  have hjoin : strip (joinParts [.own b]) = strip b.text := by simp [joinParts, Part.block]
  unfold finishChunk
  simp only [hjoin, if_neg hb.visible, hb.encodable]
  exact ⟨_,rfl,rfl,rfl⟩

theorem overlap_full {n : ℤ} {b : Block} (hb : b.tokenCount = hardMaxTokens) :
    overlap (fullContext n) [.own b] = [] := by
  have hscan : ∀ (text : Str) (starts : List ℕ),
      scanSuffixes (fun _ => hardMaxTokens) text overlapTokens [] starts = [] := by
    intro text starts
    induction starts with
    | nil => rfl
    | cons start starts ih =>
      have hfits : fits (fun _ => hardMaxTokens) overlapTokens (lstrip (text.drop start)) =
          false := by simp [fits, hardMaxTokens, overlapTokens]
      simp only [scanSuffixes, hfits]
      exact ih
  have hlt : ¬ b.tokenCount ≤ overlapTokens := by
    rw [hb]
    decide
  unfold overlap
  simp only [lastProse]
  by_cases hk : b.kind = .prose
  · simp only [hk, if_true, hlt, if_false]
    simp [largestSuffix, fullContext, hscan]
  · simp [hk]

/-- The headings and the text of a chunk. -/
def MarkdownChunk.shown (c : MarkdownChunk) : List Str × Str := (c.headingPath,c.markdown)

/-- The headings and the text of the chunk that a block makes alone. -/
def Block.shown (b : Block) : List Str × Str := (b.headingPath,strip b.text)

theorem packFrom_full {n : ℤ} {b : Block} (hb : Presentable b) (hcount : b.tokenCount = hardMaxTokens)
    (hblocks : ∀ b ∈ blocks, Presentable b ∧ b.tokenCount = hardMaxTokens)
    (hn : (chunks.length : ℤ) + (blocks.length + 1) ≤ n) :
    ∃ result, packFrom (fullContext n) chunks [.own b] blocks = .ok result ∧
      result.map (·.shown) = chunks.map (·.shown) ++ (b :: blocks).map (·.shown) := by
  induction blocks generalizing chunks b with
  | nil =>
    obtain ⟨chunk,hfinish,hpath,htext⟩ := finishChunk_full (n := n) (i := chunks.length) hb
    have hmax : ¬ (fullContext n).maxChunks < chunks.length + 1 := by
      simp only [fullContext]
      simp only [List.length_nil] at hn
      omega
    rw [packFrom, flush, if_neg (by simp), hfinish]
    simp only [if_neg hmax]
    exact ⟨_,rfl,by simp [MarkdownChunk.shown, Block.shown, hpath, htext]⟩
  | cons b' blocks ih =>
    obtain ⟨hb',hblocks⟩ := List.forall_mem_cons.1 hblocks
    obtain ⟨chunk,hfinish,hpath,htext⟩ := finishChunk_full (n := n) (i := chunks.length) hb
    simp only [List.length_cons] at hn
    have hmax : ¬ (fullContext n).maxChunks < chunks.length + 1 := by
      simp only [fullContext]
      omega
    have hroom : [Part.own b] ≠ [] ∧ targetTokens < total (fullContext n) ([.own b] ++ [.own b']) :=
      ⟨by simp,by simp [total, fullContext, targetTokens, hardMaxTokens]⟩
    have hkeep : keepFront (fullContext n) [] b' = [] := if_neg fun hc => hc.1 rfl
    have htotal : ¬ hardMaxTokens < total (fullContext n) ([] ++ [.own b']) := by
      simp [total, fullContext]
    rw [packFrom, makeRoom, if_pos hroom, flush, if_neg (by simp), hfinish]
    simp only [if_neg hmax, overlap_full hcount, hkeep, if_neg htotal]
    have hlen : ((chunks ++ [chunk]).length : ℤ) + (blocks.length + 1) ≤ n := by
      simp only [List.length_append, List.length_singleton]
      push_cast
      omega
    obtain ⟨result,hresult,hshown⟩ := ih hb'.1 hb'.2 hblocks hlen
    have hsame : chunk.shown = b.shown := by rw [MarkdownChunk.shown, Block.shown, hpath, htext]
    exact ⟨result,hresult,by simp [hshown, hsame]⟩

theorem Carries.length_le {before : List Block} {groups : List (List Block)}
    (h : Carries countTokens before groups chunks) : chunks.length ≤ groups.flatten.length := by
  induction h with
  | nil => exact le_rfl
  | cons hgroup _ _ _ ih =>
    have := List.length_pos_iff.2 hgroup
    rw [List.flatten_cons, List.length_append, List.length_cons]
    omega

/-- With one chunk for each piece every chunk has the headings of its piece. -/
theorem Carries.paths {before : List Block} {groups : List (List Block)}
    (h : Carries countTokens before groups chunks)
    (hlen : chunks.length = groups.flatten.length) :
    chunks.map (·.headingPath) = groups.flatten.map (·.headingPath) := by
  induction h with
  | nil => rfl
  | @cons before front group groups c chunks hgroup _ hchunk hrest ih =>
    have hle := hrest.length_le
    rw [List.flatten_cons, List.length_append, List.length_cons] at hlen
    have hpos := List.length_pos_iff.2 hgroup
    obtain ⟨b,rfl⟩ := List.length_eq_one_iff.1 (by omega : group.length = 1)
    have hlen' : chunks.length = groups.flatten.length := by
      rw [List.length_singleton] at hlen
      omega
    rw [List.flatten_cons, List.singleton_append, List.map_cons, List.map_cons, ih hlen',
      hchunk.headings b rfl]

theorem mem_flatten_visible {b : Block} {bs : List Block} {c : CodePoint} (hb : b ∈ bs)
    (hc : c ∈ visible b.text) : c ∈ (bs.map fun b => visible b.text).flatten :=
  List.mem_flatten.2 ⟨_,List.mem_map.2 ⟨b,hb,rfl⟩,hc⟩

theorem isSurrogate_visible {c : CodePoint} (h : isSurrogate c = true) : isSpace c = false := by
  have h : 0xd800 ≤ c.val ∧ c.val ≤ 0xdfff := by simpa [isSurrogate] using h
  by_contra hspace
  have hspace : isSpace c = true := by simpa using hspace
  simp only [isSpace, Bool.or_eq_true, Bool.and_eq_true, decide_eq_true_eq] at hspace
  omega

/-- Every block of validated pages makes a chunk. -/
theorem presentable_of_mem (hvalid : Validated pages) {b : Block}
    (hb : b ∈ documentBlocks countTokens [] pages) : Presentable b := by
  have hshown := @visible_documentBlocks countTokens [] pages
  constructor
  · intro hempty
    refine visible_block hb ?_
    rw [← visible_strip, hempty]
    rfl
  · rw [List.any_eq_false]
    intro c hc hsurrogate
    have hcv : c ∈ visible (strip b.text) :=
      List.mem_filter.2 ⟨hc,by simpa using isSurrogate_visible hsurrogate⟩
    rw [visible_strip] at hcv
    have hflat := mem_flatten_visible hb hcv
    rw [hshown] at hflat
    obtain ⟨v,hv,hcv⟩ := List.mem_flatten.1 hflat
    obtain ⟨page,hpage,rfl⟩ := List.mem_map.1 hv
    have hnone := List.any_eq_false.1 (hvalid.encodable page hpage) c (List.mem_filter.1 hcv).1
    exact hnone hsurrogate

theorem documentBlocks_ne_nil (hvalid : Validated pages) :
    documentBlocks countTokens [] pages ≠ [] := by
  intro hnil
  have hshown := @visible_documentBlocks countTokens [] pages
  have hnumbered := hvalid.from_one
  have hall := (validateFrom_ok hnumbered).2.2
  rw [hnil] at hshown
  cases pages with
  | nil =>
    have hn := hvalid.numbered
    rw [validatePages, if_pos rfl] at hn
    cases hn
  | cons page pages =>
    rw [List.map_nil, List.flatten_nil, List.map_cons, List.flatten_cons, eq_comm,
      List.append_eq_nil_iff] at hshown
    have hblank := visible_eq_nil.1 hshown.1
    rw [hall page List.mem_cons_self] at hblank
    cases hblank

/-- Every block of validated pages makes a chunk of its own. -/
theorem chunkMarkdown_full (hvalid : Validated pages) :
    ∃ n result, chunkMarkdown (fullContext n) pages = .ok result ∧
      result.map (·.shown) =
        (documentBlocks (fun _ => hardMaxTokens) [] pages).map (·.shown) := by
  have hcounts : ∀ b ∈ documentBlocks (fun _ => hardMaxTokens) [] pages,
      b.tokenCount = hardMaxTokens := by
    intro b hb
    rw [documentBlocks_eq] at hb
    obtain ⟨-,-,-,-,-,hcount⟩ := mem_blocksOf hb
    exact hcount
  have hpresent : ∀ b ∈ documentBlocks (fun _ => hardMaxTokens) [] pages, Presentable b :=
    fun b hb => presentable_of_mem hvalid hb
  have hbounded : boundedBlocks (fun _ => hardMaxTokens) pages =
      .ok (documentBlocks (fun _ => hardMaxTokens) [] pages) :=
    boundAll_whole fun b hb => (hcounts b hb).le
  cases hblocks : documentBlocks (fun _ => hardMaxTokens) [] pages with
  | nil => exact absurd hblocks (documentBlocks_ne_nil hvalid)
  | cons b blocks =>
    rw [hblocks] at hcounts hpresent hbounded
    obtain ⟨hb,hbs⟩ := List.forall_mem_cons.1 hcounts
    obtain ⟨hpb,hpbs⟩ := List.forall_mem_cons.1 hpresent
    obtain ⟨result,hresult,hshown⟩ := @packFrom_full [] blocks (blocks.length + 1) b hpb hb
      (fun c hc => ⟨hpbs c hc,hbs c hc⟩) (by simp)
    refine ⟨blocks.length + 1,result,?_,by simpa using hshown⟩
    have hpos : ¬ (fullContext (blocks.length + 1)).maxChunks ≤ 0 := by
      simp only [fullContext]
      omega
    have hkeep : keepFront (fullContext (blocks.length + 1)) [] b = [] :=
      if_neg fun hc => hc.1 rfl
    have htotal : ¬ hardMaxTokens <
        total (fullContext (blocks.length + 1)) ([] ++ [.own b]) := by
      simp [total, fullContext]
    rw [chunkMarkdown, hvalid.numbered]
    simp only [if_neg hpos]
    rw [show (fullContext (blocks.length + 1)).countTokens = fun _ => hardMaxTokens from rfl,
      hbounded]
    simp only [if_neg (List.cons_ne_nil b blocks)]
    rw [packFrom, makeRoom, if_neg fun hc => hc.1 rfl]
    simp only [hkeep, if_neg htotal]
    exact hresult

/-- Where provenance holds for every tokenizer, every heading closes what it should. -/
theorem closes_of_provenance (hvalid : Validated pages)
    (h : ∀ ctx chunks, chunkMarkdown ctx pages = .ok chunks → Provenance ctx pages chunks) :
    AllClose [] (headingsIn (documentGroups pages)) := by
  have hpaths := @headingPaths_eq_iff [] (fun _ => hardMaxTokens) (documentGroups pages) (by simp)
    documentGroups_heading
  refine hpaths.1 ?_
  have hsame := @blocksOf_same [] (fun _ => hardMaxTokens) (documentGroups pages) []
  have hecounts : ∀ b ∈ enclosedBlocks (fun _ => hardMaxTokens) [] (documentGroups pages),
      b.tokenCount = hardMaxTokens := by
    intro b hb
    obtain ⟨-,-,-,-,-,hcount⟩ := mem_enclosedBlocks hb
    exact hcount
  obtain ⟨n,result,hresult,hshown⟩ := chunkMarkdown_full hvalid
  rw [documentBlocks_eq] at hshown
  have hheadings : result.map (·.headingPath) =
      (blocksOf (fun _ => hardMaxTokens) [] (documentGroups pages)).map (·.headingPath) := by
    have hfirst := congrArg (List.map Prod.fst) hshown
    rw [List.map_map, List.map_map] at hfirst
    exact hfirst
  obtain ⟨⟨pieces,groups,hpieces,hflatten,hcarries⟩,-⟩ := h _ _ hresult
  have hpieces' : pieces = enclosedBlocks (fun _ => hardMaxTokens) [] (documentGroups pages) :=
    Except.ok.inj (hpieces.symm.trans (boundAll_whole fun b hb => (hecounts b hb).le))
  have hlen : result.length = groups.flatten.length := by
    have h₁ := congrArg List.length hheadings
    rw [List.length_map, List.length_map] at h₁
    rw [h₁, hflatten, hpieces', ← hsame.length_eq]
  change (blocksOf (fun _ => hardMaxTokens) [] (documentGroups pages)).map (·.headingPath) = _
  rw [← hheadings, hcarries.paths hlen, hflatten, hpieces']

/-- For validated pages, the chunks of every run carry the enclosing headings and the page range of
what they hold exactly when every heading of the document either closes no heading of its level or
a deeper one, or stands where headings of all lower levels are in force. -/
theorem heading_provenance (pages : List MarkdownPage) (hvalid : Validated pages) :
    (∀ ctx chunks, chunkMarkdown ctx pages = .ok chunks → Provenance ctx pages chunks) ↔
      AllClose [] (headingsIn (documentGroups pages)) :=
  ⟨closes_of_provenance hvalid,fun hclose _ _ h => provenance_of_closes hvalid hclose h⟩

def onePage (markdown : String) : List MarkdownPage := [⟨1,str markdown⟩]

/-- A heading inside another one. -/
theorem heading_provenance_nested :
    AllClose [] (headingsIn (documentGroups (onePage "# A\n\n## B"))) ∧
      ∀ ctx chunks, chunkMarkdown ctx (onePage "# A\n\n## B") = .ok chunks →
        Provenance ctx (onePage "# A\n\n## B") chunks := by
  have hheadings : headingsIn (documentGroups (onePage "# A\n\n## B")) =
      [(1,str "A"),(2,str "B")] := by decide +kernel
  have hclose : AllClose [] (headingsIn (documentGroups (onePage "# A\n\n## B"))) := by
    rw [hheadings]
    exact ⟨Or.inl (by simp [enclosing]),Or.inl (by simp [enclosing]),trivial⟩
  exact ⟨hclose,(heading_provenance _ ⟨by decide +kernel,by decide +kernel⟩).2 hclose⟩

/-- One token for each character. -/
def characterContext : ChunkContext where
  documentId := uuid4 0 0
  preparedRevisionId := uuid4 0 1
  countTokens := List.length
  maxChunks := 10
  sha256 := fun _ => ⟨""⟩

/-- Two sections of the second level: the path of the second one names the first. -/
theorem sibling_headings_nest : ∃ pages ctx chunks, Validated pages ∧
    chunkMarkdown ctx pages = .ok chunks ∧ ¬ Provenance ctx pages chunks := by
  let pages := onePage "## A\n\n## B"
  let chunk : MarkdownChunk :=
    ⟨⟨uuid4 0 0,uuid4 0 1,0,⟨""⟩⟩,0,1,1,[str "A",str "B"],10,⟨""⟩,str "## A\n\n## B"⟩
  refine ⟨pages,characterContext,[chunk],⟨by decide +kernel,by decide +kernel⟩,
    by decide +kernel,?_⟩
  rintro ⟨⟨pieces,groups,hpieces,hflatten,hcarries⟩,-⟩
  have hpaths : (enclosedBlocks List.length [] (documentGroups pages)).map (·.headingPath) =
      [[str "A"],[str "B"]] := by decide +kernel
  have hwhole : (enclosedBlocks List.length [] (documentGroups pages)).all
      (fun b => b.tokenCount ≤ hardMaxTokens) = true := by decide +kernel
  have hsame : pieces = enclosedBlocks List.length [] (documentGroups pages) :=
    Except.ok.inj (hpieces.symm.trans (boundAll_whole fun b hb => by
      simpa using List.all_eq_true.1 hwhole b hb))
  rw [← hsame, ← hflatten] at hpaths
  cases hcarries with
  | @cons _ _ group groups _ _ hgroup _ hchunk hrest =>
    cases hrest
    rw [List.flatten_cons, List.flatten_nil, List.append_nil] at hpaths
    have hlast := hchunk.headings (group.getLast hgroup) (List.getLast?_eq_some_getLast hgroup)
    have hpath : (group.map (·.headingPath)).getLast? = some [str "B"] := by
      rw [hpaths]
      rfl
    rw [List.getLast?_map, List.getLast?_eq_some_getLast hgroup, Option.map_some,
      Option.some.injEq, ← hlast] at hpath
    revert hpath
    decide +kernel

end MarkdownChunking
end PdfBridge
