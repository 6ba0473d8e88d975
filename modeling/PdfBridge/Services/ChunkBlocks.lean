import PdfBridge.Services.ChunkPacking
import PdfBridge.Services.FenceAgreement

/-! The blocks of a document, read as one sequence of line groups over all pages. -/
namespace PdfBridge
namespace MarkdownChunking
open Unicode MarkdownFormatter

/-! ### Groups of lines -/

section
variable {α : Type} (text : α → Str) {P : List α → Prop}

/-- Induction over the groups of a list of lines. -/
theorem groups_induction (hnil : P []) (hcons : ∀ x lines, P (nextGroup text x lines).2 →
    P (x :: lines)) (lines : List α) : P lines := by
  induction hn : lines.length using Nat.strongRecOn generalizing lines with
  | ind n ih =>
    cases lines with
    | nil => exact hnil
    | cons x lines =>
      have hlen := @nextGroup_length α text x lines
      rw [List.length_cons] at hn
      exact hcons x lines (ih _ (by omega) _ rfl)

theorem groups_flatMap (lines : List α) : (groups text lines).flatMap (·.2) = lines := by
  induction lines using groups_induction text with
  | hnil => rfl
  | hcons x lines ih => rw [groups_cons, List.flatMap_cons, ih, nextGroup_append]

variable {text} in
/-- A group of a kind begins with a line that is not blank; a blank group is one blank line. -/
theorem nextGroup_first {x : α} {lines : List α} :
    (isBlank (text x) = true ∧ (nextGroup text x lines).1 = (.blank,[x])) ∨
      (isBlank (text x) = false ∧ (nextGroup text x lines).1.1 ≠ .blank ∧
        ∃ more, (nextGroup text x lines).1.2 = x :: more) := by
  unfold nextGroup
  split
  · rename_i h
    exact Or.inl ⟨h,rfl⟩
  · rename_i h
    right
    refine ⟨by simpa using h,?_⟩
    split
    · exact ⟨by simp,[],rfl⟩
    · split
      · exact ⟨by simp,_,rfl⟩
      · split
        · split
          · exact ⟨by simp,_,rfl⟩
          · exact ⟨by simp,_,rfl⟩
        · exact ⟨by simp,[],rfl⟩

variable {text} in
theorem mem_groups {lines : List α} {g : Kind × List α} (h : g ∈ groups text lines) :
    ∃ x more, g.2 = x :: more ∧ (g.1 = .blank → isBlank (text x) = true ∧ more = []) ∧
      (g.1 ≠ .blank → isBlank (text x) = false) := by
  induction lines using groups_induction text with
  | hnil => cases h
  | hcons x lines ih =>
    rw [groups_cons] at h
    rcases List.mem_cons.1 h with rfl | h
    · rcases @nextGroup_first α text x lines with ⟨hx,hg⟩ | ⟨hx,hg,more,hmore⟩
      · refine ⟨x,[],by rw [hg],fun _ => ⟨hx,rfl⟩,fun hne => ?_⟩
        rw [hg] at hne
        exact absurd rfl hne
      · exact ⟨x,more,hmore,fun hb => absurd hb hg,fun _ => hx⟩
    · exact ih h

end

/-! ### One sequence over all pages -/

def pageGroups (page : MarkdownPage) : List (Kind × List Str) :=
  groups id (splitlines (strip page.markdown))

/-- The groups of all pages, each with the number of its page. -/
def documentGroups (pages : List MarkdownPage) : List (ℕ × Kind × List Str) :=
  pages.flatMap fun page => (pageGroups page).map fun g => (page.pageNumber,g)

/-- Level and title, if the group is a heading. -/
def headingOf : Kind × List Str → Option (ℕ × Str)
  | (.heading,lines) => lines.head?.bind headingMatch
  | _ => none

def headingsAfter (headings : List Str) (g : Kind × List Str) : List Str :=
  match headingOf g with
  | some (level,title) => pushHeading headings level title
  | none => headings

/-- The blocks of a sequence of groups. -/
def blocksOf (countTokens : Str → ℕ) : List Str → List (ℕ × Kind × List Str) → List Block
  | _, [] => []
  | headings, (page,g) :: rest =>
      if g.1 = .blank then blocksOf countTokens headings rest
      else block countTokens page (headingsAfter headings g) g.1 g.2 ::
        blocksOf countTokens (headingsAfter headings g) rest

variable {countTokens : Str → ℕ}

theorem blocksFrom_append (page : ℕ) (headings : List Str) (gs : List (Kind × List Str))
    (rest : List (ℕ × Kind × List Str)) :
    (blocksFrom countTokens page headings gs).1 ++
        blocksOf countTokens (blocksFrom countTokens page headings gs).2 rest =
      blocksOf countTokens headings (gs.map (fun g => (page,g)) ++ rest) := by
  induction gs generalizing headings with
  | nil => rfl
  | cons g gs ih =>
    obtain ⟨kind,lines⟩ := g
    cases kind with
    | blank => exact ih headings
    | heading =>
      simp only [blocksFrom, List.cons_append, ih]
      simp only [List.map_cons, List.cons_append, blocksOf, headingsAfter, headingOf]
      rfl
    | fence | table | prose =>
      simp only [blocksFrom, List.cons_append, ih]
      rfl

/-- Parsing page by page reads the groups of the document in order. -/
theorem documentBlocks_eq (headings : List Str) (pages : List MarkdownPage) :
    documentBlocks countTokens headings pages =
      blocksOf countTokens headings (documentGroups pages) := by
  induction pages generalizing headings with
  | nil => rfl
  | cons page pages ih =>
    rw [documentBlocks, ih]
    exact blocksFrom_append ..

theorem mem_documentGroups {pages : List MarkdownPage} {page : ℕ} {g : Kind × List Str}
    (h : (page,g) ∈ documentGroups pages) :
    ∃ p ∈ pages, p.pageNumber = page ∧ g ∈ pageGroups p := by
  obtain ⟨p,hp,hg⟩ := List.mem_flatMap.1 h
  obtain ⟨g',hg',he⟩ := List.mem_map.1 hg
  cases he
  exact ⟨p,hp,rfl,hg'⟩

theorem mem_blocksOf {headings : List Str} {gs : List (ℕ × Kind × List Str)} {b : Block}
    (hb : b ∈ blocksOf countTokens headings gs) :
    ∃ x ∈ gs, b.text = strip (joinLines x.2.2) ∧ b.kind = x.2.1 ∧ x.2.1 ≠ .blank ∧
      b.tokenCount = countTokens b.text := by
  induction gs generalizing headings with
  | nil => cases hb
  | cons x gs ih =>
    obtain ⟨page,g⟩ := x
    rw [blocksOf] at hb
    split at hb
    · obtain ⟨x,hx,hrest⟩ := ih hb
      exact ⟨x,List.mem_cons_of_mem _ hx,hrest⟩
    · rename_i hkind
      rcases List.mem_cons.1 hb with rfl | hb
      · exact ⟨_,List.mem_cons_self,rfl,rfl,hkind,rfl⟩
      · obtain ⟨x,hx,hrest⟩ := ih hb
        exact ⟨x,List.mem_cons_of_mem _ hx,hrest⟩

/-! ### The lines of a block -/

theorem splitlines_noBreak {s l : Str} (hl : l ∈ splitlines s) {c : CodePoint} (hc : c ∈ l) :
    isLineBreak c = false := by
  induction s using splitlines.induct generalizing l with
  | case1 => cases hl
  | case2 c' hbreak =>
    rw [splitlines, if_pos hbreak, List.mem_singleton] at hl
    rw [hl] at hc
    cases hc
  | case3 c' hbreak =>
    rw [splitlines, if_neg hbreak, List.mem_singleton] at hl
    rw [hl, List.mem_singleton] at hc
    rw [hc]
    simpa using hbreak
  | case4 c' c'' s hbreak hcr ih =>
    rw [splitlines, if_pos hbreak, if_pos hcr] at hl
    rcases List.mem_cons.1 hl with rfl | hl
    · cases hc
    · exact ih hl hc
  | case5 c' c'' s hbreak hcr ih =>
    rw [splitlines, if_pos hbreak, if_neg hcr] at hl
    rcases List.mem_cons.1 hl with rfl | hl
    · cases hc
    · exact ih hl hc
  | case6 c' c'' s hbreak ih =>
    rw [splitlines, if_neg hbreak] at hl
    cases hlines : splitlines (c'' :: s) with
    | nil =>
      rw [hlines, consLine, List.mem_singleton] at hl
      rw [hl, List.mem_singleton] at hc
      rw [hc]
      simpa using hbreak
    | cons l' lines =>
      rw [hlines, consLine] at hl
      rcases List.mem_cons.1 hl with rfl | hl
      · rcases List.mem_cons.1 hc with rfl | hc
        · simpa using hbreak
        · exact ih (hlines ▸ List.mem_cons_self) hc
      · exact ih (hlines ▸ List.mem_cons_of_mem _ hl) hc

theorem splitlines_ne_nil {s : Str} (hs : s ≠ []) : splitlines s ≠ [] := by
  induction s using splitlines.induct with
  | case1 => exact absurd rfl hs
  | case2 c hc => simp [splitlines, hc]
  | case3 c hc => simp [splitlines, hc]
  | case4 c c' s hc hcr =>
    rw [splitlines, if_pos hc, if_pos hcr]
    exact List.cons_ne_nil _ _
  | case5 c c' s hc hcr =>
    rw [splitlines, if_pos hc, if_neg hcr]
    exact List.cons_ne_nil _ _
  | case6 c c' s hc =>
    rw [splitlines, if_neg hc]
    cases splitlines (c' :: s) <;> simp [consLine]

theorem joinLines_cons {l : Str} {lines : List Str} (h : lines ≠ []) :
    joinLines (l :: lines) = l ++ newline :: joinLines lines := by
  cases lines with
  | nil => exact absurd rfl h
  | cons l' lines => simp [joinLines, List.intercalate]

theorem joinLines_consLine {c : CodePoint} {lines : List Str} (h : lines ≠ []) :
    joinLines (consLine c lines) = c :: joinLines lines := by
  cases lines with
  | nil => exact absurd rfl h
  | cons l lines =>
    cases lines with
    | nil => simp [consLine, joinLines]
    | cons l' lines => simp [consLine, joinLines, List.intercalate]

/-- Text with newlines between its lines only. -/
theorem joinLines_splitlines {s : Str} (hbreaks : ∀ c ∈ s, isLineBreak c = true → c = newline)
    (hlast : ∀ c ∈ s.getLast?, isLineBreak c = false) : joinLines (splitlines s) = s := by
  induction s using splitlines.induct with
  | case1 => rfl
  | case2 c hc =>
    have hfalse := hlast c rfl
    rw [hc] at hfalse
    cases hfalse
  | case3 c hc =>
    rw [splitlines, if_neg hc]
    simp [joinLines]
  | case4 c c' s hc hcr =>
    have hn := hbreaks c List.mem_cons_self hc
    rw [hcr.1] at hn
    cases hn
  | case5 c c' s hc hcr ih =>
    have hn := hbreaks c List.mem_cons_self hc
    rw [splitlines, if_pos hc, if_neg hcr,
      joinLines_cons (splitlines_ne_nil (List.cons_ne_nil c' s)), List.nil_append, hn]
    congr 1
    exact ih (fun x hx => hbreaks x (List.mem_cons_of_mem _ hx))
      fun x hx => hlast x (by rwa [List.getLast?_cons_cons])
  | case6 c c' s hc ih =>
    rw [splitlines, if_neg hc, joinLines_consLine (splitlines_ne_nil (List.cons_ne_nil c' s))]
    congr 1
    exact ih (fun x hx => hbreaks x (List.mem_cons_of_mem _ hx))
      fun x hx => hlast x (by rwa [List.getLast?_cons_cons])

/-- The lines of a group have no boundary within them. -/
theorem documentGroups_noBreak {pages : List MarkdownPage} {x : ℕ × Kind × List Str}
    (hx : x ∈ documentGroups pages) {l : Str} (hl : l ∈ x.2.2) {c : CodePoint} (hc : c ∈ l) :
    isLineBreak c = false := by
  obtain ⟨page,g⟩ := x
  obtain ⟨p,-,-,hg⟩ := mem_documentGroups hx
  refine splitlines_noBreak (s := strip p.markdown) ?_ hc
  rw [← groups_flatMap id (splitlines (strip p.markdown))]
  exact List.mem_flatMap.2 ⟨g,hg,hl⟩

theorem strip_last {s : Str} : ∀ c ∈ (strip s).getLast?, isSpace c = false := by
  intro c hc
  have hne : (lstrip s).rdropWhile isSpace ≠ [] := by
    intro hnil
    rw [strip, rstrip, hnil] at hc
    cases hc
  have hlast := List.rdropWhile_last_not isSpace (lstrip s) hne
  rw [strip, rstrip, List.getLast?_eq_some_getLast hne] at hc
  cases hc
  simpa using hlast

/-- A block is its lines. -/
theorem block_lines {headings : List Str} {pages : List MarkdownPage} {b : Block}
    (hb : b ∈ documentBlocks countTokens headings pages) :
    joinLines (splitlines b.text) = b.text := by
  rw [documentBlocks_eq] at hb
  obtain ⟨x,hx,htext,-⟩ := mem_blocksOf hb
  rw [htext]
  refine joinLines_splitlines (fun c hc hbreak => ?_) fun c hc => isLineBreak_false (strip_last c hc)
  have hmem : c ∈ joinLines x.2.2 :=
    (List.dropWhile_suffix _).subset (mem_of_mem_rstrip hc)
  rcases mem_joinLines hmem with hn | ⟨l,hl,hcl⟩
  · exact hn
  · rw [documentGroups_noBreak hx hl hcl] at hbreak
    cases hbreak

/-! ### The visible characters -/

theorem visible_strip (s : Str) : visible (strip s) = visible s := by
  rw [strip, visible_rstrip, visible_lstrip]

theorem visible_consLine (c : CodePoint) (lines : List Str) :
    ((consLine c lines).map visible).flatten = visible [c] ++ (lines.map visible).flatten := by
  cases lines with
  | nil => simp [consLine]
  | cons l lines =>
    have hl : visible (c :: l) = visible [c] ++ visible l := visible_append [c] l
    simp [consLine, hl]

theorem visible_lineBreak {c : CodePoint} (h : isLineBreak c = true) (s : Str) :
    visible (c :: s) = visible s := by
  have hc : isSpace c = true := by
    by_contra hns
    rw [isLineBreak_false (by simpa using hns)] at h
    cases h
  simp [visible, hc]

theorem visible_splitlines (s : Str) : ((splitlines s).map visible).flatten = visible s := by
  induction s using splitlines.induct with
  | case1 => rfl
  | case2 c hc =>
    rw [splitlines, if_pos hc, visible_lineBreak hc]
    rfl
  | case3 c hc =>
    rw [splitlines, if_neg hc]
    simp
  | case4 c c' s hc hcr ih =>
    have hc' : isLineBreak c' = true := by rw [hcr.2]; decide
    rw [splitlines, if_pos hc, if_pos hcr, visible_lineBreak hc, visible_lineBreak hc', ← ih]
    rfl
  | case5 c c' s hc hcr ih =>
    rw [splitlines, if_pos hc, if_neg hcr, visible_lineBreak hc, ← ih]
    rfl
  | case6 c c' s hc ih =>
    rw [splitlines, if_neg hc, visible_consLine, ih]
    exact (visible_append [c] (c' :: s)).symm

/-- The blocks show every visible character of their groups. -/
theorem visible_blocksOf {headings : List Str} {gs : List (ℕ × Kind × List Str)}
    (h : ∀ x ∈ gs, x.2.1 = .blank → ∃ l, x.2.2 = [l] ∧ isBlank l = true) :
    ((blocksOf countTokens headings gs).map fun b => visible b.text).flatten =
      (gs.map fun x => visible (joinLines x.2.2)).flatten := by
  induction gs generalizing headings with
  | nil => rfl
  | cons x gs ih =>
    obtain ⟨page,kind,lines⟩ := x
    obtain ⟨hx,hgs⟩ := List.forall_mem_cons.1 h
    rw [blocksOf]
    split
    · rename_i hkind
      obtain ⟨l,hl,hblank⟩ := hx hkind
      simp only at hl
      rw [ih hgs, hl, List.map_cons, List.flatten_cons]
      have hempty : visible (joinLines [l]) = [] := by
        rw [visible_joinLines]
        simpa using visible_eq_nil.2 hblank
      rw [hempty]
      rfl
    · rw [List.map_cons, List.map_cons, List.flatten_cons, List.flatten_cons, ih hgs]
      simp only [block, visible_strip]

/-- Every block shows something. -/
theorem visible_block {headings : List Str} {pages : List MarkdownPage} {b : Block}
    (hb : b ∈ documentBlocks countTokens headings pages) : visible b.text ≠ [] := by
  rw [documentBlocks_eq] at hb
  obtain ⟨⟨page,g⟩,hg,htext,-,hkind,-⟩ := mem_blocksOf hb
  obtain ⟨p,-,-,hg⟩ := mem_documentGroups hg
  obtain ⟨l,more,hlines,-,hfirst⟩ := mem_groups hg
  intro hvisible
  rw [htext, visible_strip, visible_joinLines, hlines, List.map_cons, List.flatten_cons,
    List.append_eq_nil_iff] at hvisible
  have hblank := visible_eq_nil.1 hvisible.1
  rw [show isBlank l = false from hfirst hkind] at hblank
  cases hblank

theorem documentGroups_blank {pages : List MarkdownPage} :
    ∀ x ∈ documentGroups pages, x.2.1 = .blank → ∃ l, x.2.2 = [l] ∧ isBlank l = true := by
  rintro ⟨page,g⟩ hx hblank
  obtain ⟨p,-,-,hg⟩ := mem_documentGroups hx
  obtain ⟨l,more,hlines,hfirst,-⟩ := mem_groups hg
  obtain ⟨hl,rfl⟩ := hfirst hblank
  exact ⟨l,hlines,hl⟩

/-- The blocks of a document show the visible characters of all pages, each once and in order. -/
theorem visible_documentBlocks (headings : List Str) (pages : List MarkdownPage) :
    ((documentBlocks countTokens headings pages).map fun b => visible b.text).flatten =
      (pages.map fun page => visible page.markdown).flatten := by
  rw [documentBlocks_eq, visible_blocksOf documentGroups_blank]
  induction pages with
  | nil => rfl
  | cons page pages ih =>
    rw [documentGroups, List.flatMap_cons, List.map_append, List.flatten_append, List.map_cons,
      List.flatten_cons]
    congr 1
    rw [List.map_map, ← visible_strip, ← visible_splitlines,
      ← groups_flatMap id (splitlines (strip page.markdown))]
    rw [← pageGroups]
    induction pageGroups page with
    | nil => rfl
    | cons g gs ihg =>
      rw [List.map_cons, List.flatten_cons, ihg, List.flatMap_cons, List.map_append,
        List.flatten_append, Function.comp_apply, visible_joinLines]

end MarkdownChunking
end PdfBridge
