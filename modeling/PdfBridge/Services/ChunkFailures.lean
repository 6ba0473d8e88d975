import PdfBridge.Services.ChunkPieces
import Mathlib.Algebra.BigOperators.Group.List.Basic
import Mathlib.Algebra.GroupWithZero.Nat

/-! When chunking fails, for tokenizers that count wordpieces: the parts of a text that whitespace
separates are counted alone, and no part counts more than the text. -/
namespace PdfBridge
namespace MarkdownChunking
open Unicode MarkdownFormatter Bisection

/-- What is assumed of a tokenizer. -/
structure Wordpieces (countTokens : Str → ℕ) : Prop where
  substring : ∀ s t, t <:+: s → countTokens t ≤ countTokens s
  separated : ∀ a w b, w ≠ [] → isBlank w = true →
    countTokens (a ++ w ++ b) = countTokens a + countTokens b
  blank : ∀ w, isBlank w = true → countTokens w = 0
  single : ∀ c, isSpace c = false → countTokens [c] ≤ 1

variable {countTokens : Str → ℕ}

/-! ### Counts of stripped and of joined texts -/

section Counts
variable (ht : Wordpieces countTokens)
include ht

theorem Wordpieces.append_blank {a w : Str} (hw : isBlank w = true) :
    countTokens (a ++ w) = countTokens a := by
  by_cases hnil : w = []
  · rw [hnil, List.append_nil]
  · have h := ht.separated a w [] hnil hw
    rwa [List.append_nil, ht.blank [] rfl, Nat.add_zero] at h

theorem Wordpieces.blank_append {a w : Str} (hw : isBlank w = true) :
    countTokens (w ++ a) = countTokens a := by
  by_cases hnil : w = []
  · rw [hnil, List.nil_append]
  · have h := ht.separated [] w a hnil hw
    rwa [List.nil_append, ht.blank [] rfl, Nat.zero_add] at h

theorem Wordpieces.lstrip (s : Str) : countTokens (lstrip s) = countTokens s := by
  have hblank : isBlank (s.takeWhile isSpace) = true :=
    List.all_eq_true.2 fun c hc => List.mem_takeWhile_imp hc
  have h := ht.blank_append (a := Unicode.lstrip s) hblank
  rw [Unicode.lstrip, List.takeWhile_append_dropWhile] at h
  rw [Unicode.lstrip, h]

omit ht in
theorem rstrip_split (s : Str) : ∃ w, isBlank w = true ∧ s = rstrip s ++ w := by
  refine ⟨(s.reverse.takeWhile isSpace).reverse,?_,?_⟩
  · refine List.all_eq_true.2 fun c hc => ?_
    rw [List.mem_reverse] at hc
    exact List.mem_takeWhile_imp hc
  · rw [rstrip, List.rdropWhile, ← List.reverse_append, List.takeWhile_append_dropWhile,
      List.reverse_reverse]

theorem Wordpieces.rstrip (s : Str) : countTokens (rstrip s) = countTokens s := by
  obtain ⟨w,hw,hs⟩ := rstrip_split s
  conv_rhs => rw [hs]
  exact (ht.append_blank hw).symm

theorem Wordpieces.strip (s : Str) : countTokens (strip s) = countTokens s := by
  rw [Unicode.strip, ht.rstrip, ht.lstrip]

theorem Wordpieces.joinLines (lines : List Str) :
    countTokens (joinLines lines) = (lines.map countTokens).sum := by
  induction lines with
  | nil => exact ht.blank [] rfl
  | cons l lines ih =>
    by_cases hnil : lines = []
    · subst hnil
      simp [Unicode.joinLines]
    · have h := ht.separated l [newline] (Unicode.joinLines lines) (List.cons_ne_nil _ _)
        (by decide)
      rw [joinLines_cons hnil, List.map_cons, List.sum_cons, ← ih, ← h]
      simp

end Counts

/-! ### The longest fitting piece -/

/-- The whitespace that a text begins with. -/
def leading (text : Str) : ℕ := (text.takeWhile isSpace).length

/-- The text up to a position is within the budget. -/
def reaches (countTokens : Str → ℕ) (budget : ℕ) (text : Str) (e : ℕ) : Bool :=
  countTokens (text.take e) ≤ budget

/-- The last position up to which the text fits and is not blank. -/
def IsLongest (countTokens : Str → ℕ) (budget : ℕ) (text : Str) (e : ℕ) : Prop :=
  IsGreatest {e | e ≤ text.length ∧ isBlank (text.take e) = false ∧
    countTokens (text.take e) ≤ budget} e

/-- A text cut into pieces, each the longest one that fits. -/
inductive Longest (countTokens : Str → ℕ) (budget : ℕ) : Str → List Str → Prop
  | nil : Longest countTokens budget [] []
  | cons {text : Str} {e : ℕ} {texts : List Str} (he : IsLongest countTokens budget text e)
      (hrest : Longest countTokens budget (lstrip (text.drop e)) texts) :
      Longest countTokens budget text (rstrip (text.take e) :: texts)

/-- The positions that the search tries reach behind the leading whitespace before they fit. -/
def Cuttable (countTokens : Str → ℕ) (budget : ℕ) (text : Str) : Prop :=
  ∃ m, firstWithin (reaches countTokens budget text) 1 (text.length + 1) = some m ∧
    leading text < m

theorem isBlank_take {text : Str} {e : ℕ} (he : e ≤ text.length) :
    isBlank (text.take e) = true ↔ e ≤ leading text := by
  induction text generalizing e with
  | nil =>
    have : e = 0 := Nat.le_zero.1 he
    simp [this, isBlank]
  | cons c text ih =>
    cases e with
    | zero => simp [isBlank]
    | succ e =>
      have he : e ≤ text.length := Nat.le_of_succ_le_succ he
      by_cases hc : isSpace c = true
      · rw [leading, List.takeWhile_cons_of_pos hc, List.length_cons, ← leading,
          Nat.succ_le_succ_iff, ← ih he, List.take_succ_cons]
        simp [isBlank, hc]
      · rw [leading, List.takeWhile_cons_of_neg hc, List.take_succ_cons]
        simp [isBlank, hc]

theorem leading_lstrip (s : Str) : leading (lstrip s) = 0 := by
  induction s with
  | nil => rfl
  | cons c s ih =>
    unfold lstrip at ih ⊢
    by_cases hc : isSpace c = true
    · rw [List.dropWhile_cons_of_pos hc, ih]
    · rw [List.dropWhile_cons_of_neg hc, leading, List.takeWhile_cons_of_neg hc]
      rfl

theorem leading_strip (s : Str) : leading (strip s) = 0 := by
  rw [← lstrip_strip]
  exact leading_lstrip _

section Longest
variable (ht : Wordpieces countTokens) {text : Str} {budget : ℕ}
include ht

theorem window_fits : Window (fun e => fits countTokens budget (rstrip (text.take e)))
    (reaches countTokens budget text) (leading text) 1 (text.length + 1) where
  mono := by
    intro i j hij hj
    simp only [reaches, decide_eq_true_eq] at hj ⊢
    exact (ht.substring _ _ (List.take_prefix_take_left hij).isInfix).trans hj
  test := by
    intro i _ hi
    have hblank : rstrip (text.take i) ≠ [] ↔ leading text < i := by
      rw [ne_eq, rstrip_eq_nil_iff, isBlank_take (Nat.le_of_lt_succ hi), Nat.not_le]
    simp only [fits, reaches, Bool.and_eq_true, decide_eq_true_eq, ht.rstrip, hblank]
    exact and_comm

theorem largestPrefix_found (h : Cuttable countTokens budget text) :
    ∃ e, IsLongest countTokens budget text e ∧ largestPrefix countTokens text budget =
      .ok (rstrip (text.take e),lstrip (text.drop e)) := by
  obtain ⟨m,hfirst,hm⟩ := h
  have hspec : (fits countTokens budget
        (rstrip (text.take (prefixEnd countTokens text budget))) = true ∧
        1 ≤ prefixEnd countTokens text budget ∧
        prefixEnd countTokens text budget < text.length + 1) ∧
      ∀ j, j < text.length + 1 → reaches countTokens budget text j = true →
        j ≤ prefixEnd countTokens text budget := bisect_found (window_fits ht) hfirst hm
  obtain ⟨⟨htest,hlow,hhigh⟩,hlast⟩ := hspec
  have hpass := ((window_fits ht).test _ hlow hhigh).1 htest
  have hne : prefixEnd countTokens text budget ≠ 0 := Nat.ne_of_gt hlow
  refine ⟨prefixEnd countTokens text budget,⟨⟨Nat.le_of_lt_succ hhigh,?_,?_⟩,?_⟩,?_⟩
  · rw [← Bool.not_eq_true, isBlank_take (Nat.le_of_lt_succ hhigh)]
    exact Nat.not_le.2 hpass.2
  · simpa [reaches] using hpass.1
  · rintro j ⟨hj,-,hcount⟩
    exact hlast j (Nat.lt_succ_of_le hj) (by simpa [reaches] using hcount)
  · rw [largestPrefix]
    simp only [if_neg hne]

theorem largestPrefix_missed (h : ¬ Cuttable countTokens budget text) :
    largestPrefix countTokens text budget = .error .noCharacter := by
  have hzero : prefixEnd countTokens text budget = 0 :=
    bisect_missed (window_fits ht) fun m hm => Nat.le_of_not_lt fun hlt => h ⟨m,hm,hlt⟩
  rw [largestPrefix]
  simp only [hzero, if_true]

/-- Text that begins with a visible character can be cut. -/
theorem cuttable_of_leading (hne : text ≠ []) (hleading : leading text = 0) (hbudget : 1 ≤ budget) :
    Cuttable countTokens budget text := by
  obtain ⟨c,s,rfl⟩ := List.exists_cons_of_ne_nil hne
  have hc : isSpace c = false := by
    by_contra hspace
    rw [leading, List.takeWhile_cons_of_pos (by simpa using hspace)] at hleading
    cases hleading
  have hone : reaches countTokens budget (c :: s) 1 = true :=
    decide_eq_true ((ht.single c hc).trans hbudget)
  have hlt : 1 < (c :: s).length + 1 := Nat.lt_succ_of_le (Nat.succ_le_succ (Nat.zero_le _))
  obtain ⟨m,hm⟩ := firstWithin_exists hlt hone
  refine ⟨m,hm,?_⟩
  rw [hleading]
  exact (firstWithin_some hm).2.1

/-- Prose that begins with a visible character is cut into longest pieces. -/
theorem proseTexts_longest (hleading : leading text = 0) : ∃ texts,
    proseTexts countTokens text = .ok texts ∧ Longest countTokens hardMaxTokens text texts := by
  induction hn : (visible text).length using Nat.strongRecOn generalizing text with
  | ind n ih =>
    by_cases hnil : text = []
    · subst hnil
      exact ⟨[],by rw [proseTexts, if_pos rfl],.nil⟩
    · obtain ⟨e,he,hpiece⟩ :=
        largestPrefix_found ht (cuttable_of_leading ht hnil hleading
          (show 1 ≤ hardMaxTokens by decide))
      have hshorter := largestPrefix_shorter countTokens hpiece
      obtain ⟨texts,htexts,hlongest⟩ := ih _ (hn ▸ hshorter) (leading_lstrip _) rfl
      refine ⟨_ :: texts,?_,.cons he hlongest⟩
      rw [proseTexts, if_neg hnil]
      split
      · rename_i herror
        rw [hpiece] at herror
        cases herror
      · rename_i hok
        rw [hpiece] at hok
        cases hok
        rw [htexts]

/-! ### Fences -/

variable {opening closing : Str}

/-- Between the fence lines a piece within the budget needs no second cut. -/
theorem fencePiece_eq (hwrapper : countTokens (Unicode.joinLines [opening,[],closing]) ≤
      hardMaxTokens) :
    fencePiece countTokens opening closing
        (hardMaxTokens - countTokens (Unicode.joinLines [opening,[],closing])) text =
      largestPrefix countTokens text
        (hardMaxTokens - countTokens (Unicode.joinLines [opening,[],closing])) := by
  unfold fencePiece
  split
  · rename_i herror
    exact herror.symm
  · rename_i piece rest hok
    obtain ⟨-,-,hcount,-⟩ := largestPrefix_ok countTokens hok
    have htotal : countTokens (Unicode.joinLines [opening,piece,closing]) =
        countTokens (Unicode.joinLines [opening,[],closing]) + countTokens piece := by
      rw [ht.joinLines, ht.joinLines]
      simp only [List.map_cons, List.map_nil, List.sum_cons, List.sum_nil, ht.blank [] rfl]
      omega
    rw [if_pos (by omega), hok]

/-- The rest of a fence body is cut into longest pieces. -/
theorem fenceTexts_longest
    (hwrapper : countTokens (Unicode.joinLines [opening,[],closing]) < hardMaxTokens)
    (hcut : text = [] ∨ Cuttable countTokens
      (hardMaxTokens - countTokens (Unicode.joinLines [opening,[],closing])) text) :
    ∃ texts, fenceTexts countTokens opening closing
        (hardMaxTokens - countTokens (Unicode.joinLines [opening,[],closing])) text = .ok texts ∧
      Longest countTokens
        (hardMaxTokens - countTokens (Unicode.joinLines [opening,[],closing])) text texts := by
  induction hn : (visible text).length using Nat.strongRecOn generalizing text with
  | ind n ih =>
    by_cases hnil : text = []
    · subst hnil
      exact ⟨[],by rw [fenceTexts, if_pos rfl],.nil⟩
    · obtain ⟨e,he,hprefixed⟩ := largestPrefix_found ht (hcut.resolve_left hnil)
      have hpiece := hprefixed
      rw [← fencePiece_eq ht hwrapper.le] at hpiece
      have hshorter := fencePiece_shorter countTokens hpiece
      have hcut' : lstrip (text.drop e) = [] ∨ Cuttable countTokens
          (hardMaxTokens - countTokens (Unicode.joinLines [opening,[],closing]))
          (lstrip (text.drop e)) := by
        by_cases hrest : lstrip (text.drop e) = []
        · exact Or.inl hrest
        · exact Or.inr (cuttable_of_leading ht hrest (leading_lstrip _) (by omega))
      obtain ⟨texts,htexts,hlongest⟩ := ih _ (hn ▸ hshorter) hcut' rfl
      refine ⟨_ :: texts,?_,.cons he hlongest⟩
      rw [fenceTexts, if_neg hnil]
      split
      · rename_i herror
        rw [hpiece] at herror
        cases herror
      · rename_i hok
        rw [hpiece] at hok
        cases hok
        rw [htexts]

/-- A fence body that cannot be cut fails. -/
theorem fenceTexts_missed
    (hwrapper : countTokens (Unicode.joinLines [opening,[],closing]) < hardMaxTokens)
    (hne : text ≠ []) (hcut : ¬ Cuttable countTokens
      (hardMaxTokens - countTokens (Unicode.joinLines [opening,[],closing])) text) :
    fenceTexts countTokens opening closing
      (hardMaxTokens - countTokens (Unicode.joinLines [opening,[],closing])) text =
        .error .noCharacter := by
  have hpiece := largestPrefix_missed ht hcut
  rw [← fencePiece_eq ht hwrapper.le] at hpiece
  rw [fenceTexts, if_neg hne]
  split
  · rename_i herror
    rw [hpiece] at herror
    cases herror
    rfl
  · rename_i hok
    rw [hpiece] at hok
    cases hok

end Longest

/-! ### Tables -/

/-- Rows under a header, cut into runs that fit, each the longest one. -/
inductive LongestRows (countTokens : Str → ℕ) (header : Str) : List Str → List (List Str) → Prop
  | last {rows : List Str} (hfits : countTokens (joinLines (header :: rows)) ≤ hardMaxTokens) :
      LongestRows countTokens header rows [rows]
  | cons {rows rest : List Str} {row : Str} {pieces : List (List Str)}
      (hfits : countTokens (joinLines (header :: rows)) ≤ hardMaxTokens)
      (hover : hardMaxTokens < countTokens (joinLines (header :: (rows ++ [row]))))
      (hrest : LongestRows countTokens header (row :: rest) pieces) :
      LongestRows countTokens header (rows ++ row :: rest) (rows :: pieces)

/-- Rows are cut into longest runs, or a row does not fit under the header. -/
theorem tableRows_longest {header : Str} {rows rest : List Str}
    (hfits : countTokens (joinLines (header :: rows)) ≤ hardMaxTokens) :
    (∃ pieces, tableRows countTokens header rows rest = .ok pieces ∧
      LongestRows countTokens header (rows ++ rest) pieces) ∨
    (tableRows countTokens header rows rest = .error .tableRow ∧
      ∃ row ∈ rest, hardMaxTokens < countTokens (joinLines [header,row])) := by
  induction rest generalizing rows with
  | nil =>
    left
    rw [List.append_nil]
    exact ⟨[rows],rfl,.last hfits⟩
  | cons row rest ih =>
    rw [tableRows]
    by_cases hrow : countTokens (joinLines (header :: (rows ++ [row]))) ≤ hardMaxTokens
    · rw [if_pos hrow]
      rcases ih hrow with ⟨pieces,hpieces,hlongest⟩ | ⟨herror,r,hr,hover⟩
      · exact Or.inl ⟨pieces,hpieces,by simpa using hlongest⟩
      · exact Or.inr ⟨herror,r,List.mem_cons_of_mem _ hr,hover⟩
    · rw [if_neg hrow]
      have hrow := Nat.not_le.1 hrow
      by_cases hnil : rows = []
      · rw [if_pos hnil]
        rw [hnil, List.nil_append] at hrow
        exact Or.inr ⟨rfl,row,List.mem_cons_self,hrow⟩
      · rw [if_neg hnil]
        by_cases halone : hardMaxTokens < countTokens (joinLines [header,row])
        · rw [if_pos halone]
          exact Or.inr ⟨rfl,row,List.mem_cons_self,halone⟩
        · rw [if_neg halone]
          rcases ih (Nat.not_lt.1 halone) with
            ⟨pieces,hpieces,hlongest⟩ | ⟨herror,r,hr,hover⟩
          · rw [hpieces]
            exact Or.inl ⟨rows :: pieces,rfl,.cons hfits hrow hlongest⟩
          · rw [herror]
            exact Or.inr ⟨rfl,r,List.mem_cons_of_mem _ hr,hover⟩

/-! ### The lines of a table block -/

theorem splitlines_line {l : Str} (hl : ∀ c ∈ l, isLineBreak c = false) :
    splitlines (l ++ [newline]) = [l] ∧ (l ≠ [] → splitlines l = [l]) := by
  induction l with
  | nil => exact ⟨rfl,fun h => absurd rfl h⟩
  | cons c l ih =>
    obtain ⟨hc,hl⟩ := List.forall_mem_cons.1 hl
    have hc : ¬ isLineBreak c = true := by simp [hc]
    obtain ⟨hnewline,hplain⟩ := ih hl
    cases l with
    | nil =>
      have hbreak : isLineBreak newline = true := by decide
      exact ⟨by simp [splitlines, hc, hbreak, consLine],fun _ => by simp [splitlines, hc]⟩
    | cons c' l =>
      constructor
      · rw [List.cons_append, List.cons_append, splitlines, if_neg hc]
        rw [List.cons_append] at hnewline
        rw [hnewline]
        rfl
      · intro _
        rw [splitlines, if_neg hc, hplain (List.cons_ne_nil _ _)]
        rfl

theorem rstrip_cons_newline {s : Str} (hs : rstrip s ≠ []) :
    rstrip (newline :: s) = newline :: rstrip s := by
  have happ := rstrip_append [newline] s
  rwa [if_neg hs] at happ

/-- The first line of stripped lines, up to whitespace behind it. -/
theorem splitlines_rstrip {l : Str} {lines : List Str} (hl : ∀ c ∈ l, isLineBreak c = false)
    (hblank : isBlank l = false) :
    ∃ first rest, splitlines (rstrip (joinLines (l :: lines))) = first :: rest ∧
      strip first = strip l := by
  have hne : rstrip l ≠ [] := by
    rw [ne_eq, rstrip_eq_nil_iff, hblank]
    decide
  have hone : splitlines (rstrip l) = [rstrip l] :=
    (splitlines_line fun c hc => hl c (mem_of_mem_rstrip hc)).2 hne
  by_cases hnil : lines = []
  · subst hnil
    refine ⟨rstrip l,[],?_,strip_rstrip l⟩
    rw [← hone]
    simp [joinLines]
  · rw [joinLines_cons hnil, rstrip_append]
    split
    · exact ⟨rstrip l,[],hone,strip_rstrip l⟩
    · rename_i hrest
      have hjoin : rstrip (joinLines lines) ≠ [] := by
        intro hjoin
        refine hrest ?_
        rw [rstrip_eq_nil_iff] at hjoin ⊢
        rw [isBlank, List.all_cons, show isSpace newline = true by decide, Bool.true_and]
        exact hjoin
      rw [rstrip_cons_newline hjoin, splitlines_append, (splitlines_line hl).1]
      exact ⟨l,_,rfl,rfl⟩

theorem isTableSeparator_strip {l l' : Str} (h : strip l = strip l') :
    isTableSeparator l = isTableSeparator l' := by
  unfold isTableSeparator
  rw [h]

theorem isBlank_of_separator {l : Str} (h : isTableSeparator l = true) : isBlank l = false := by
  by_contra hblank
  have hblank : isBlank l = true := by simpa using hblank
  have hnil : strip l = strip [] := by
    rw [strip, lstrip, List.dropWhile_eq_nil_iff.2 (List.all_eq_true.1 hblank)]
    rfl
  rw [isTableSeparator_strip hnil] at h
  revert h
  decide

/-- A group of kind table begins with a line and a separator. -/
theorem groups_table {lines all : List Str} (hg : (Kind.table,lines) ∈ groups id all) :
    ∃ first second rows, lines = first :: second :: rows ∧ isTableSeparator second = true ∧
      isBlank first = false := by
  induction all using groups_induction id with
  | hnil => cases hg
  | hcons x all ih =>
    rw [groups_cons] at hg
    rcases List.mem_cons.1 hg with heq | hg
    · unfold nextGroup at heq
      split at heq
      · cases heq
      rename_i hblank
      split at heq
      · cases heq
      split at heq
      · cases heq
      split at heq
      · rename_i next rest
        split at heq
        · rename_i hstart
          cases heq
          rw [isTableStart, Bool.and_eq_true] at hstart
          exact ⟨x,next,_,rfl,hstart.2,by simpa using hblank⟩
        · cases heq
      · cases heq
    · exact ih hg

variable {pages : List MarkdownPage} {b : Block}

/-- A table block has a header line and a separator. -/
theorem table_lines (hb : b ∈ documentBlocks countTokens [] pages) (hkind : b.kind = .table) :
    ∃ first second rows, splitlines b.text = first :: second :: rows ∧
      isTableSeparator second = true := by
  rw [documentBlocks_eq] at hb
  obtain ⟨⟨page,kind,lines⟩,hx,htext,hk,-⟩ := mem_blocksOf hb
  simp only at htext hk
  rw [hkind] at hk
  subst hk
  obtain ⟨p,-,-,hg⟩ := mem_documentGroups hx
  obtain ⟨first,second,rows,rfl,hseparator,hfirst⟩ := groups_table hg
  have hbreaks : ∀ l ∈ first :: second :: rows, ∀ c ∈ l, isLineBreak c = false :=
    fun l hl c hc => documentGroups_noBreak hx hl hc
  have hsecond := isBlank_of_separator hseparator
  have hjoin : rstrip (joinLines (second :: rows)) ≠ [] := by
    rw [ne_eq, rstrip_eq_nil_iff, ← visible_eq_nil, visible_joinLines, List.map_cons,
      List.flatten_cons, List.append_eq_nil_iff, visible_eq_nil, hsecond]
    simp
  have hlstrip : lstrip (joinLines (first :: second :: rows)) =
      lstrip first ++ newline :: joinLines (second :: rows) := by
    have hne : ¬ (first.dropWhile isSpace).isEmpty = true := by
      rw [List.isEmpty_iff, List.dropWhile_eq_nil_iff, ← List.all_eq_true, ← isBlank, hfirst]
      decide
    rw [joinLines_cons (List.cons_ne_nil second rows), lstrip, List.dropWhile_append, if_neg hne]
    rfl
  obtain ⟨second',rest,hlines,hstrip⟩ :=
    @splitlines_rstrip second rows (hbreaks second (by simp)) hsecond
  refine ⟨lstrip first,second',rest,?_,?_⟩
  · have hleft : ∀ c ∈ lstrip first, isLineBreak c = false := fun c hc =>
      hbreaks first (by simp) c ((List.dropWhile_suffix _).subset hc)
    rw [htext, strip, hlstrip, rstrip_append, rstrip_cons_newline hjoin,
      if_neg (List.cons_ne_nil _ _), splitlines_append, (splitlines_line hleft).1, hlines]
    rfl
  · rw [isTableSeparator_strip hstrip, hseparator]

/-! ### One block -/

/-- A table whose header, alone or with one of its rows, is over the bound. -/
def TableTooWide (countTokens : Str → ℕ) (b : Block) : Prop :=
  b.kind = .table ∧ ∃ first second rows, splitlines b.text = first :: second :: rows ∧
    (hardMaxTokens < countTokens (joinLines [first,second]) ∨
      ∃ row ∈ rows, hardMaxTokens < countTokens (joinLines [joinLines [first,second],row]))

/-- A fence whose two lines leave no room between them. -/
def FenceTooNarrow (countTokens : Str → ℕ) (b : Block) : Prop :=
  b.kind = .fence ∧ ∃ opening body closing,
    fenceParts (splitlines b.text) = some (opening,body,closing) ∧
    hardMaxTokens ≤ countTokens (joinLines [opening,[],closing])

/-- A block over the bound that cannot be split below it. -/
def Unsplittable (countTokens : Str → ℕ) (b : Block) : Prop :=
  hardMaxTokens < b.tokenCount ∧ (TableTooWide countTokens b ∨ FenceTooNarrow countTokens b)

/-- A fence over the bound has two lines, and where there is room between them, the search in its
body reaches behind the leading whitespace. -/
def FenceCut (countTokens : Str → ℕ) (b : Block) : Prop :=
  b.kind = .fence → hardMaxTokens < b.tokenCount →
    ∃ opening body closing, fenceParts (splitlines b.text) = some (opening,body,closing) ∧
      (countTokens (joinLines [opening,[],closing]) < hardMaxTokens →
        Cuttable countTokens (hardMaxTokens - countTokens (joinLines [opening,[],closing]))
          (joinLines body))

/-- The pieces of a block: the block, or longest pieces of it. -/
def CutLongest (countTokens : Str → ℕ) (b : Block) (pieces : List Block) : Prop :=
  if b.tokenCount ≤ hardMaxTokens then pieces = [b]
  else match b.kind with
    | .table => ∃ first second rows cut, splitlines b.text = first :: second :: rows ∧
        LongestRows countTokens (joinLines [first,second]) rows cut ∧
        pieces.map (·.text) = cut.map fun rows => joinLines (joinLines [first,second] :: rows)
    | .fence => ∃ opening body closing texts,
        fenceParts (splitlines b.text) = some (opening,body,closing) ∧
        Longest countTokens (hardMaxTokens - countTokens (joinLines [opening,[],closing]))
          (joinLines body) texts ∧
        pieces.map (·.text) = texts.map fun t => joinLines [opening,t,closing]
    | _ => ∃ texts, Longest countTokens hardMaxTokens b.text texts ∧ pieces.map (·.text) = texts

/-- A piece that fits in a chunk, shows something, and nothing but what its block shows. -/
structure Packable (countTokens : Str → ℕ) (b p : Block) : Prop where
  fits : countTokens p.text ≤ hardMaxTokens
  shows_some : visible p.text ≠ []
  within : ∀ c ∈ visible p.text, c ∈ visible b.text

/-- What `_bounded_blocks` makes of a block. -/
def Outcome (countTokens : Str → ℕ) (b : Block) : Prop :=
  (FenceCut countTokens b ∧ ∃ pieces, boundedPieces countTokens b = .ok pieces ∧ pieces ≠ [] ∧
    CutLongest countTokens b pieces ∧ ∀ p ∈ pieces, Packable countTokens b p) ∨
  ((Unsplittable countTokens b ∨ ¬ FenceCut countTokens b) ∧
    ∃ e, boundedPieces countTokens b = .error e ∧ e ≠ .value)

section Outcome
variable (ht : Wordpieces countTokens)
include ht

theorem Longest.mem {budget : ℕ} {text : Str} {texts : List Str}
    (h : Longest countTokens budget text texts) {t : Str} (hmem : t ∈ texts) :
    countTokens t ≤ budget ∧ visible t ≠ [] := by
  induction h with
  | nil => cases hmem
  | cons he _ ih =>
    rcases List.mem_cons.1 hmem with rfl | hmem
    · obtain ⟨-,hblank,hcount⟩ := he.1
      rw [ht.rstrip, visible_rstrip, ne_eq, visible_eq_nil, hblank]
      exact ⟨hcount,by decide⟩
    · exact ih hmem

omit ht in
theorem Longest.ne_nil {budget : ℕ} {text : Str} {texts : List Str}
    (h : Longest countTokens budget text texts) (hne : text ≠ []) : texts ≠ [] := by
  cases h with
  | nil => exact absurd rfl hne
  | cons => exact List.cons_ne_nil _ _

omit ht in
theorem LongestRows.mem {header : Str} {rows : List Str} {cut : List (List Str)}
    (h : LongestRows countTokens header rows cut) : cut ≠ [] ∧ cut.flatten = rows ∧
      ∀ part ∈ cut, countTokens (joinLines (header :: part)) ≤ hardMaxTokens := by
  induction h with
  | last hfits => exact ⟨List.cons_ne_nil _ _,by simp,by simpa using hfits⟩
  | cons hfits _ _ ih =>
    exact ⟨List.cons_ne_nil _ _,by rw [List.flatten_cons, ih.2.1],
      List.forall_mem_cons.2 ⟨hfits,ih.2.2⟩⟩

omit ht in
theorem outcome_table (hb : b ∈ documentBlocks countTokens [] pages)
    (hover : hardMaxTokens < b.tokenCount) (hkind : b.kind = .table) : Outcome countTokens b := by
  have hnofence : FenceCut countTokens b := fun hfence => by
    rw [hkind] at hfence
    cases hfence
  obtain ⟨first,second,rows,hlines,hseparator⟩ := table_lines hb hkind
  have hbounded : boundedPieces countTokens b = splitTable countTokens b := by
    rw [boundedPieces, if_neg (Nat.not_le.2 hover)]
    simp only [hkind]
  have htext := block_lines hb
  rw [hlines] at htext
  rw [Outcome, hbounded, splitTable]
  simp only [hlines, hseparator, Bool.true_eq_false, if_false]
  by_cases hheader : hardMaxTokens < countTokens (joinLines [first,second])
  · rw [if_pos hheader]
    exact Or.inr ⟨Or.inl ⟨hover,Or.inl ⟨hkind,first,second,rows,hlines,Or.inl hheader⟩⟩,
      _,rfl,by simp⟩
  rw [if_neg hheader]
  have hrows : rows ≠ [] := by
    rintro rfl
    rw [htext, ← (mem_documentBlocks hb).2] at hheader
    exact hheader hover
  rw [if_neg hrows]
  have hone : countTokens (joinLines [joinLines [first,second]]) ≤ hardMaxTokens := by
    simpa [joinLines] using hheader
  rcases @tableRows_longest countTokens _ _ rows hone with
    ⟨cut,hcut,hlongest⟩ | ⟨herror,row,hrow,hwide⟩
  · rw [hcut]
    obtain ⟨hne,hflatten,hfits⟩ := hlongest.mem
    refine Or.inl ⟨hnofence,_,rfl,by simpa using hne,?_,?_⟩
    · rw [CutLongest, if_neg (Nat.not_le.2 hover)]
      simp only [hkind]
      refine ⟨first,second,rows,cut,hlines,hlongest,?_⟩
      rw [List.map_map]
      rfl
    · intro p hp
      obtain ⟨part,hpart,rfl⟩ := List.mem_map.1 hp
      have hsecond := isBlank_of_separator hseparator
      have hshown : visible (joinLines (joinLines [first,second] :: part)) =
          visible first ++ visible second ++ (part.map visible).flatten := by
        rw [visible_joinLines, List.map_cons, List.flatten_cons, visible_joinLines]
        simp
      refine ⟨hfits part hpart,?_,fun c hc => ?_⟩
      · simp only [pieceOf, hshown]
        rw [ne_eq, List.append_eq_nil_iff, List.append_eq_nil_iff, visible_eq_nil (s := second),
          hsecond]
        simp
      · simp only [pieceOf, hshown] at hc
        rw [← htext, visible_joinLines, List.map_cons, List.map_cons, List.flatten_cons,
          List.flatten_cons, ← List.append_assoc]
        refine List.mem_append.2 ((List.mem_append.1 hc).imp_right fun hc => ?_)
        obtain ⟨v,hv,hcv⟩ := List.mem_flatten.1 hc
        obtain ⟨row,hrow,rfl⟩ := List.mem_map.1 hv
        refine List.mem_flatten.2 ⟨_,List.mem_map.2 ⟨row,?_,rfl⟩,hcv⟩
        rw [List.nil_append] at hflatten
        rw [← hflatten]
        exact List.mem_flatten.2 ⟨part,hpart,hrow⟩
  · rw [herror]
    exact Or.inr ⟨Or.inl ⟨hover,Or.inl ⟨hkind,first,second,rows,hlines,
      Or.inr ⟨row,hrow,hwide⟩⟩⟩,_,rfl,by simp⟩

theorem outcome_fence (hb : b ∈ documentBlocks countTokens [] pages)
    (hover : hardMaxTokens < b.tokenCount) (hkind : b.kind = .fence) : Outcome countTokens b := by
  have hbounded : boundedPieces countTokens b = splitFence countTokens b := by
    rw [boundedPieces, if_neg (Nat.not_le.2 hover)]
    simp only [hkind]
  rw [Outcome, hbounded, splitFence]
  cases hparts : fenceParts (splitlines b.text) with
  | none =>
    refine Or.inr ⟨Or.inr fun hcut => ?_,_,rfl,by simp⟩
    obtain ⟨_,_,_,hsome,-⟩ := hcut hkind hover
    rw [hparts] at hsome
    cases hsome
  | some parts =>
    obtain ⟨opening,body,closing⟩ := parts
    simp only
    have hlines := fenceParts_lines hparts
    have htext := block_lines hb
    rw [hlines] at htext
    by_cases hwrapper : hardMaxTokens ≤ countTokens (joinLines [opening,[],closing])
    · rw [if_pos hwrapper]
      exact Or.inr ⟨Or.inl ⟨hover,Or.inr ⟨hkind,opening,body,closing,hparts,hwrapper⟩⟩,
        _,rfl,by simp⟩
    rw [if_neg hwrapper]
    have hwrapper := Nat.not_le.1 hwrapper
    have hcounts : b.tokenCount = countTokens opening + countTokens (joinLines body) +
        countTokens closing := by
      rw [(mem_documentBlocks hb).2, ← htext, ht.joinLines, ht.joinLines]
      simp [List.sum_append, Nat.add_assoc]
    have hwrapped : countTokens (joinLines [opening,[],closing]) =
        countTokens opening + countTokens closing := by
      rw [ht.joinLines]
      simp [ht.blank [] rfl]
    have hne : joinLines body ≠ [] := by
      intro hnil
      rw [hnil, ht.blank [] rfl] at hcounts
      omega
    by_cases hcut : Cuttable countTokens
        (hardMaxTokens - countTokens (joinLines [opening,[],closing])) (joinLines body)
    · obtain ⟨texts,htexts,hlongest⟩ := fenceTexts_longest ht hwrapper (Or.inr hcut)
      rw [htexts]
      refine Or.inl ⟨fun _ _ => ⟨opening,body,closing,hparts,fun _ => hcut⟩,_,rfl,
        by simpa using hlongest.ne_nil hne,?_,?_⟩
      · rw [CutLongest, if_neg (Nat.not_le.2 hover)]
        simp only [hkind]
        refine ⟨opening,body,closing,texts,hparts,hlongest,?_⟩
        rw [List.map_map]
        rfl
      · intro p hp
        obtain ⟨t,htmem,rfl⟩ := List.mem_map.1 hp
        obtain ⟨hcount,hshown⟩ := hlongest.mem ht htmem
        have hvisible : visible (joinLines [opening,t,closing]) =
            visible opening ++ visible t ++ visible closing := by
          rw [visible_joinLines]
          simp
        refine ⟨?_,?_,fun c hc => ?_⟩
        · simp only [pieceOf, ht.joinLines, List.map_cons, List.map_nil, List.sum_cons,
            List.sum_nil]
          omega
        · simp only [pieceOf, hvisible]
          simp [hshown]
        · simp only [pieceOf, hvisible] at hc
          have hall := (fenceTexts_visible htexts).1
          rw [← htext, visible_joinLines, List.map_cons, List.flatten_cons, List.map_append,
            List.flatten_append, ← visible_joinLines, ← hall]
          rcases List.mem_append.1 hc with hc | hc
          · rcases List.mem_append.1 hc with hc | hc
            · exact List.mem_append_left _ hc
            · refine List.mem_append_right _ (List.mem_append_left _ ?_)
              exact List.mem_flatten.2 ⟨_,List.mem_map.2 ⟨t,htmem,rfl⟩,hc⟩
          · refine List.mem_append_right _ (List.mem_append_right _ ?_)
            simpa using hc
    · rw [fenceTexts_missed ht hwrapper hne hcut]
      refine Or.inr ⟨Or.inr fun hfence => ?_,_,rfl,by simp⟩
      obtain ⟨_,_,_,hsome,hcuttable⟩ := hfence hkind hover
      rw [hparts] at hsome
      cases hsome
      exact hcut (hcuttable hwrapper)

theorem outcome_prose (hb : b ∈ documentBlocks countTokens [] pages)
    (hover : hardMaxTokens < b.tokenCount) (htable : b.kind ≠ .table) (hfence : b.kind ≠ .fence) :
    Outcome countTokens b := by
  have hbounded : boundedPieces countTokens b = splitProse countTokens b := by
    rw [boundedPieces, if_neg (Nat.not_le.2 hover)]
    split
    · rename_i hkind
      exact absurd hkind htable
    · rename_i hkind
      exact absurd hkind hfence
    · rfl
  have hleading : leading b.text = 0 := by
    rw [← (mem_documentBlocks hb).1]
    exact leading_strip b.text
  have hne : b.text ≠ [] := by
    intro hnil
    refine visible_block hb ?_
    rw [hnil]
    rfl
  obtain ⟨texts,htexts,hlongest⟩ := proseTexts_longest ht hleading
  rw [Outcome, hbounded, splitProse, htexts]
  refine Or.inl ⟨fun hkind => absurd hkind hfence,_,rfl,by simpa using hlongest.ne_nil hne,?_,?_⟩
  · rw [CutLongest, if_neg (Nat.not_le.2 hover)]
    split
    · rename_i hkind
      exact absurd hkind htable
    · rename_i hkind
      exact absurd hkind hfence
    · refine ⟨texts,hlongest,?_⟩
      rw [List.map_map]
      exact List.map_id' texts
  · intro p hp
    obtain ⟨t,htmem,rfl⟩ := List.mem_map.1 hp
    obtain ⟨hcount,hshown⟩ := hlongest.mem ht htmem
    refine ⟨hcount,hshown,fun c hc => ?_⟩
    rw [← proseTexts_visible htexts]
    exact List.mem_flatten.2 ⟨_,List.mem_map.2 ⟨t,htmem,rfl⟩,hc⟩

/-- A block is split into longest pieces, or it fails for a reason. -/
theorem outcome (hb : b ∈ documentBlocks countTokens [] pages) : Outcome countTokens b := by
  by_cases hle : b.tokenCount ≤ hardMaxTokens
  · refine Or.inl ⟨fun _ hover => absurd hle (Nat.not_le.2 hover),[b],?_,List.cons_ne_nil _ _,?_,?_⟩
    · rw [boundedPieces, if_pos hle]
    · rw [CutLongest, if_pos hle]
    · intro p hp
      rw [List.mem_singleton.1 hp]
      exact ⟨(mem_documentBlocks hb).2 ▸ hle,visible_block hb,fun _ hc => hc⟩
  · have hover := Nat.not_le.1 hle
    by_cases htable : b.kind = .table
    · exact outcome_table hb hover htable
    by_cases hfence : b.kind = .fence
    · exact outcome_fence ht hb hover hfence
    · exact outcome_prose ht hb hover htable hfence

end Outcome

/-! ### All blocks -/

theorem boundAll_outcome {blocks : List Block}
    (hall : ∀ b ∈ blocks, Outcome countTokens b) :
    ((∀ b ∈ blocks, FenceCut countTokens b) ∧ ∃ pieces, boundAll countTokens blocks = .ok pieces ∧
      (blocks ≠ [] → pieces ≠ []) ∧
      ∀ p ∈ pieces, ∃ b ∈ blocks, Packable countTokens b p) ∨
    ((∃ b ∈ blocks, Unsplittable countTokens b ∨ ¬ FenceCut countTokens b) ∧
      ∃ e, boundAll countTokens blocks = .error e ∧ e ≠ .value) := by
  induction blocks with
  | nil => exact Or.inl ⟨by simp,[],rfl,fun h => absurd rfl h,by simp⟩
  | cons b blocks ih =>
    obtain ⟨hb,hall⟩ := List.forall_mem_cons.1 hall
    rw [boundAll]
    rcases hb with ⟨hcut,own,hown,hne,-,hpack⟩ | ⟨hreason,e,he,hvalue⟩
    · rw [hown]
      rcases ih hall with ⟨hcuts,pieces,hpieces,-,hpacks⟩ | ⟨⟨c,hc,hreason⟩,e,he,hvalue⟩
      · rw [hpieces]
        refine Or.inl ⟨List.forall_mem_cons.2 ⟨hcut,hcuts⟩,_,rfl,fun _ => by simp [hne],?_⟩
        intro p hp
        rcases List.mem_append.1 hp with hp | hp
        · exact ⟨b,List.mem_cons_self,hpack p hp⟩
        · obtain ⟨c,hc,hpc⟩ := hpacks p hp
          exact ⟨c,List.mem_cons_of_mem _ hc,hpc⟩
      · rw [he]
        exact Or.inr ⟨⟨c,List.mem_cons_of_mem _ hc,hreason⟩,e,rfl,hvalue⟩
    · rw [he]
      exact Or.inr ⟨⟨b,List.mem_cons_self,hreason⟩,e,rfl,hvalue⟩

/-! ### Packing -/

/-- Another limit for the number of chunks. -/
def ChunkContext.withLimit (ctx : ChunkContext) (n : ℤ) : ChunkContext := {ctx with maxChunks := n}

/-- Parts without surrogates. -/
def Encodable (parts : List Part) : Prop :=
  ∀ part ∈ parts, ∀ c ∈ part.block.text, isSurrogate c = false

/-- Parts that make a chunk. -/
structure Ready (ctx : ChunkContext) (parts : List Part) : Prop where
  fits : total ctx parts ≤ hardMaxTokens
  shows_some : ∃ part ∈ parts, visible part.block.text ≠ []
  encodable : Encodable parts

/-- A bounded block that can be packed. -/
structure Fitting (ctx : ChunkContext) (b : Block) : Prop where
  fits : ctx.countTokens b.text ≤ hardMaxTokens
  shows_some : visible b.text ≠ []
  encodable : ∀ c ∈ b.text, isSurrogate c = false

section Packing
variable {ctx : ChunkContext} {parts : List Part} {chunks : List MarkdownChunk} {n : ℤ}

theorem finishChunk_ready (ht : Wordpieces ctx.countTokens) (hr : Ready ctx parts) (i : ℕ) :
    ∃ chunk, finishChunk ctx i parts = .ok chunk := by
  obtain ⟨part,hpart,hshown⟩ := hr.shows_some
  have hne : strip (joinParts parts) ≠ [] := by
    intro hnil
    have hwithin : part.block.text <:+: joinParts parts :=
      infix_intercalate (List.mem_map.2 ⟨part,hpart,rfl⟩)
    obtain ⟨c,hc⟩ := List.exists_mem_of_ne_nil _ hshown
    have hmem : c ∈ visible (strip (joinParts parts)) := by
      rw [visible_strip]
      exact List.mem_filter.2 ⟨hwithin.subset (List.mem_filter.1 hc).1,(List.mem_filter.1 hc).2⟩
    rw [hnil] at hmem
    cases hmem
  have hcount : ¬ hardMaxTokens < ctx.countTokens (strip (joinParts parts)) := by
    rw [ht.strip]
    exact Nat.not_lt.2 hr.fits
  have hsurrogate : (strip (joinParts parts)).any isSurrogate = false := by
    rw [List.any_eq_false]
    intro c hc
    have hmem : c ∈ joinParts parts := (List.dropWhile_suffix _).subset (mem_of_mem_rstrip hc)
    rcases mem_intercalate hmem with hnewline | ⟨t,ht,hct⟩
    · have hc : c = newline := by simpa using hnewline
      rw [hc]
      decide
    · obtain ⟨part,hpart,rfl⟩ := List.mem_map.1 ht
      rw [hr.encodable part hpart c hct]
      decide
  unfold finishChunk
  simp only [if_neg hne, if_neg hcount, hsurrogate]
  exact ⟨_,rfl⟩

theorem lastProse_mem {b : Block} (h : lastProse parts = some b) : Part.own b ∈ parts := by
  induction parts with
  | nil => cases h
  | cons part parts ih =>
    unfold lastProse at h
    split at h
    · rename_i b' hb'
      cases h
      exact List.mem_cons_of_mem _ (ih hb')
    · split at h
      · split at h
        · cases h
          exact List.mem_cons_self
        · cases h
      · cases h

/-- An overlap has characters of a part only. -/
theorem encodable_overlap (h : Encodable parts) : Encodable (overlap ctx parts) := by
  unfold overlap
  cases hprose : lastProse parts with
  | none => simp [Encodable]
  | some prose =>
    have hsource := h _ (lastProse_mem hprose)
    have htext : ∀ t, t = (if prose.tokenCount ≤ overlapTokens then prose.text
        else largestSuffix ctx.countTokens prose.text overlapTokens) → t ≠ [] →
        ∀ c ∈ t, isSurrogate c = false := by
      intro t heq hne c hc
      split at heq
      · exact hsource c (heq ▸ hc)
      · rw [heq] at hne hc
        exact hsource c ((largestSuffix_spec.resolve_left hne).1.subset hc)
    simp only
    generalize (if prose.tokenCount ≤ overlapTokens then prose.text
        else largestSuffix ctx.countTokens prose.text overlapTokens) = t at htext ⊢
    split
    · simp [Encodable]
    · rename_i hne
      intro part hpart
      rw [List.mem_singleton.1 hpart]
      exact htext t rfl hne

/-- A block that joins the parts that remain open. -/
theorem ready_keepFront {b : Block} (hb : Fitting ctx b) (hp : Encodable parts) :
    Ready ctx (keepFront ctx parts b ++ [.own b]) := by
  have halone : total ctx ([] ++ [Part.own b]) ≤ hardMaxTokens := by
    simpa [total, joinParts, Part.block] using hb.fits
  have hkeep : keepFront ctx parts b = [] ∨
      (keepFront ctx parts b = parts ∧ total ctx (parts ++ [.own b]) ≤ hardMaxTokens) := by
    unfold keepFront
    split
    · exact Or.inl rfl
    · rename_i hroom
      by_cases hnil : parts = []
      · exact Or.inl hnil
      · exact Or.inr ⟨rfl,Nat.not_lt.1 fun hlt => hroom ⟨hnil,hlt⟩⟩
  have hown : ∀ part ∈ [Part.own b], ∀ c ∈ part.block.text, isSurrogate c = false := by
    intro part hpart
    rw [List.mem_singleton.1 hpart]
    exact hb.encodable
  rcases hkeep with hkeep | ⟨hkeep,hfits⟩
  · rw [hkeep]
    exact ⟨halone,⟨_,List.mem_singleton.2 rfl,hb.shows_some⟩,hown⟩
  · rw [hkeep]
    refine ⟨hfits,⟨_,List.mem_append_right _ (List.mem_singleton.2 rfl),hb.shows_some⟩,?_⟩
    intro part hpart
    rcases List.mem_append.1 hpart with hpart | hpart
    · exact hp part hpart
    · exact hown part hpart

/-- Closing parts that make a chunk only fails at the limit. -/
theorem flush_ready (ht : Wordpieces ctx.countTokens) (hr : Ready ctx parts) (hne : parts ≠ [])
    (hn : (chunks.length : ℤ) + 1 ≤ n) :
    ∃ chunk, flush (ctx.withLimit n) chunks parts = .ok (chunks ++ [chunk],overlap ctx parts) ∧
      (flush ctx chunks parts = .ok (chunks ++ [chunk],overlap ctx parts) ∨
        ctx.maxChunks < chunks.length + 1) := by
  obtain ⟨chunk,hchunk⟩ := finishChunk_ready ht hr chunks.length
  have hlimited : finishChunk (ctx.withLimit n) chunks.length parts = .ok chunk := hchunk
  refine ⟨chunk,?_,?_⟩
  · have hlimit : ¬ (ctx.withLimit n).maxChunks < chunks.length + 1 := by
      simp only [ChunkContext.withLimit]
      omega
    rw [flush, if_neg hne, hlimited]
    simp only [if_neg hlimit]
    rfl
  · by_cases hlimit : ctx.maxChunks < chunks.length + 1
    · exact Or.inr hlimit
    · rw [flush, if_neg hne, hchunk]
      simp only [if_neg hlimit]
      exact Or.inl trivial

/-- With room for every block the packer succeeds, and with less room it does the same or would
need more. -/
theorem packFrom_unlimited (ht : Wordpieces ctx.countTokens) {blocks : List Block}
    (hblocks : ∀ b ∈ blocks, Fitting ctx b) (hparts : parts = [] ∨ Ready ctx parts)
    (hn : (chunks.length : ℤ) + blocks.length + 1 ≤ n) :
    ∃ result, packFrom (ctx.withLimit n) chunks parts blocks = .ok result ∧
      chunks.length ≤ result.length ∧
      (packFrom ctx chunks parts blocks = .ok result ∨ ctx.maxChunks < result.length) := by
  induction blocks generalizing chunks parts with
  | nil =>
    by_cases hne : parts = []
    · subst hne
      exact ⟨chunks,rfl,le_rfl,Or.inl rfl⟩
    · obtain ⟨chunk,hwide,hflush⟩ := flush_ready (n := n) ht (hparts.resolve_left hne) hne
        (show (chunks.length : ℤ) + 1 ≤ n by simpa using hn)
      refine ⟨chunks ++ [chunk],by rw [packFrom, hwide],by simp,?_⟩
      rcases hflush with hflush | hlimit
      · exact Or.inl (by rw [packFrom, hflush])
      · exact Or.inr (by simpa using hlimit)
  | cons b blocks ih =>
    obtain ⟨hb,hblocks⟩ := List.forall_mem_cons.1 hblocks
    rw [List.length_cons] at hn
    push_cast at hn
    -- what follows once there is room for the block
    have hnext : ∀ (chunks' : List MarkdownChunk) (parts' : List Part), Encodable parts' →
        (chunks'.length : ℤ) + blocks.length + 1 ≤ n →
        ∃ result, packFrom (ctx.withLimit n) chunks' (keepFront ctx parts' b ++ [.own b]) blocks =
            .ok result ∧ chunks'.length ≤ result.length ∧
          (packFrom ctx chunks' (keepFront ctx parts' b ++ [.own b]) blocks = .ok result ∨
            ctx.maxChunks < result.length) ∧
          ¬ hardMaxTokens < total ctx (keepFront ctx parts' b ++ [.own b]) := by
      intro chunks' parts' hencodable hroom
      have hready := ready_keepFront hb hencodable
      obtain ⟨result,hwide,hle,hresult⟩ := ih hblocks (Or.inr hready) hroom
      exact ⟨result,hwide,hle,hresult,Nat.not_lt.2 hready.fits⟩
    by_cases hroom : parts ≠ [] ∧ targetTokens < total ctx (parts ++ [.own b])
    · have hr := hparts.resolve_left hroom.1
      obtain ⟨chunk,hwide,hflush⟩ := flush_ready (n := n) ht hr hroom.1
        (show (chunks.length : ℤ) + 1 ≤ n by omega)
      obtain ⟨result,hresult,hle,hsame,htotal⟩ := hnext (chunks ++ [chunk]) (overlap ctx parts)
        (encodable_overlap hr.encodable) (by
          rw [List.length_append, List.length_singleton]
          push_cast
          omega)
      rw [List.length_append, List.length_singleton] at hle
      refine ⟨result,?_,by omega,?_⟩
      · have hmake : makeRoom (ctx.withLimit n) chunks parts b =
            .ok (chunks ++ [chunk],overlap ctx parts) := (if_pos hroom).trans hwide
        have hbound : ¬ hardMaxTokens < total (ctx.withLimit n)
            (keepFront (ctx.withLimit n) (overlap ctx parts) b ++ [.own b]) := htotal
        rw [packFrom, hmake]
        simp only [if_neg hbound]
        exact hresult
      · rcases hflush with hflush | hlimit
        · have hmake : makeRoom ctx chunks parts b = .ok (chunks ++ [chunk],overlap ctx parts) :=
            (if_pos hroom).trans hflush
          refine hsame.imp_left fun h => ?_
          rw [packFrom, hmake]
          simp only [if_neg htotal]
          exact h
        · right
          omega
    · have hencodable : Encodable parts := by
        rcases hparts with rfl | hr
        · simp [Encodable]
        · exact hr.encodable
      obtain ⟨result,hresult,hle,hsame,htotal⟩ := hnext chunks parts hencodable (by omega)
      refine ⟨result,?_,hle,hsame.imp_left fun h => ?_⟩
      · have hmake : makeRoom (ctx.withLimit n) chunks parts b = .ok (chunks,parts) := if_neg hroom
        have hbound : ¬ hardMaxTokens < total (ctx.withLimit n)
            (keepFront (ctx.withLimit n) parts b ++ [.own b]) := htotal
        rw [packFrom, hmake]
        simp only [if_neg hbound]
        exact hresult
      · have hmake : makeRoom ctx chunks parts b = .ok (chunks,parts) := if_neg hroom
        rw [packFrom, hmake]
        simp only [if_neg htotal]
        exact h

end Packing

/-! ### Whole documents -/

/-- A run with another limit makes more chunks than are allowed. -/
def NeedsMore (ctx : ChunkContext) (pages : List MarkdownPage) : Prop :=
  ∃ n chunks, chunkMarkdown (ctx.withLimit n) pages = .ok chunks ∧ ctx.maxChunks < chunks.length

/-- The reasons for which chunking must fail. -/
def Excused (ctx : ChunkContext) (pages : List MarkdownPage) : Prop :=
  (∃ b ∈ documentBlocks ctx.countTokens [] pages, Unsplittable ctx.countTokens b) ∨
    NeedsMore ctx pages

section Failures
variable {ctx : ChunkContext}

theorem fitting_of_packable (hvalid : Validated pages) {p : Block}
    (hb : b ∈ documentBlocks ctx.countTokens [] pages) (hp : Packable ctx.countTokens b p) :
    Fitting ctx p := by
  refine ⟨hp.fits,hp.shows_some,fun c hc => ?_⟩
  by_contra hsurrogate
  have hsurrogate : isSurrogate c = true := by simpa using hsurrogate
  have hvisible : c ∈ visible p.text :=
    List.mem_filter.2 ⟨hc,by simpa using isSurrogate_visible hsurrogate⟩
  have hblock := hp.within c hvisible
  have hnone := List.any_eq_false.1 (presentable_of_mem hvalid hb).encodable c
    (by rw [(mem_documentBlocks hb).1]; exact (List.mem_filter.1 hblock).1)
  exact hnone hsurrogate

/-- With bounded blocks that fit, chunking succeeds or needs more chunks than are allowed. -/
theorem chunkMarkdown_packs_or (ht : Wordpieces ctx.countTokens) (hvalid : Validated pages)
    (hmax : ¬ ctx.maxChunks ≤ 0) {pieces : List Block}
    (hpieces : boundedBlocks ctx.countTokens pages = .ok pieces) (hne : pieces ≠ [])
    (hfit : ∀ p ∈ pieces, Fitting ctx p) :
    (∃ chunks, chunkMarkdown ctx pages = .ok chunks) ∨ NeedsMore ctx pages := by
  have hroom : (([] : List MarkdownChunk).length : ℤ) + pieces.length + 1 ≤ pieces.length + 1 := by
    simp
  obtain ⟨result,hwide,-,hresult⟩ := packFrom_unlimited ht hfit (Or.inl rfl) hroom
  have hrun : ∀ ctx' : ChunkContext, ctx'.countTokens = ctx.countTokens → ¬ ctx'.maxChunks ≤ 0 →
      chunkMarkdown ctx' pages = packFrom ctx' [] [] pieces := by
    intro ctx' hcount hpos
    rw [chunkMarkdown, hvalid.numbered]
    simp only [if_neg hpos, hcount, hpieces, if_neg hne]
  rcases hresult with hok | hlimit
  · exact Or.inl ⟨result,(hrun ctx rfl hmax).trans hok⟩
  · refine Or.inr ⟨_,result,
      (hrun (ctx.withLimit (pieces.length + 1)) rfl ?_).trans hwide,hlimit⟩
    simp only [ChunkContext.withLimit]
    omega

/-- For wordpiece counts, chunking of validated pages fails only for the reasons for which it must,
exactly when every fence over the bound can be cut behind the whitespace that its body begins with,
or one of the reasons is there anyway; and pieces of a block are always longest pieces. -/
theorem chunking_failures (ctx : ChunkContext) (pages : List MarkdownPage)
    (ht : Wordpieces ctx.countTokens) (hvalid : Validated pages) :
    ((∀ e, chunkMarkdown ctx pages = .error e → e ≠ .value → Excused ctx pages) ↔
      ctx.maxChunks ≤ 0 ∨
        (∀ b ∈ documentBlocks ctx.countTokens [] pages, FenceCut ctx.countTokens b) ∨
        Excused ctx pages) ∧
    ∀ b ∈ documentBlocks ctx.countTokens [] pages, ∀ pieces,
      boundedPieces ctx.countTokens b = .ok pieces → CutLongest ctx.countTokens b pieces := by
  have houtcomes : ∀ b ∈ documentBlocks ctx.countTokens [] pages, Outcome ctx.countTokens b :=
    fun b hb => outcome ht hb
  refine ⟨?_,fun b hb pieces hpieces => ?_⟩
  · by_cases hmax : ctx.maxChunks ≤ 0
    · have hrun : chunkMarkdown ctx pages = .error .value := by
        rw [chunkMarkdown, hvalid.numbered]
        simp only [if_pos hmax]
      refine iff_of_true (fun e he hvalue => ?_) (Or.inl hmax)
      rw [hrun] at he
      cases he
      exact absurd rfl hvalue
    rcases boundAll_outcome houtcomes with
      ⟨hcuts,pieces,hpieces,hne,hpack⟩ | ⟨⟨b,hb,hreason⟩,e,he,hvalue⟩
    · refine iff_of_true (fun e he _ => ?_) (Or.inr (Or.inl hcuts))
      have hfit : ∀ p ∈ pieces, Fitting ctx p := by
        intro p hp
        obtain ⟨b,hb,hpacked⟩ := hpack p hp
        exact fitting_of_packable hvalid hb hpacked
      rcases chunkMarkdown_packs_or ht hvalid hmax hpieces
        (hne (documentBlocks_ne_nil hvalid)) hfit with ⟨chunks,hok⟩ | hmore
      · rw [hok] at he
        cases he
      · exact Or.inr hmore
    · have hrun : chunkMarkdown ctx pages = .error e := by
        rw [chunkMarkdown, hvalid.numbered]
        simp only [if_neg hmax, boundedBlocks, he]
      constructor
      · exact fun h => Or.inr (Or.inr (h e hrun hvalue))
      · rintro (h | hcuts | hexcused)
        · exact absurd h hmax
        · intro _ _ _
          rcases hreason with hreason | hreason
          · exact Or.inl ⟨b,hb,hreason⟩
          · exact absurd (hcuts b hb) hreason
        · exact fun _ _ _ => hexcused
  · rcases houtcomes b hb with ⟨-,pieces',hpieces',-,hlongest,-⟩ | ⟨-,e,he,-⟩
    · rw [hpieces] at hpieces'
      cases hpieces'
      exact hlongest
    · rw [hpieces] at he
      cases he

end Failures

/-! ### A tokenizer that counts the visible characters -/

def visibleContext (n : ℤ) : ChunkContext :=
  {characterContext with countTokens := fun s => (visible s).length, maxChunks := n}

theorem wordpieces_visible (n : ℤ) : Wordpieces (visibleContext n).countTokens where
  substring := fun _ _ h => (h.sublist.filter _).length_le
  separated := by
    intro a w b _ hw
    have hblank := visible_eq_nil.2 hw
    simp only [visibleContext, visible_append, hblank, List.append_nil, List.length_append]
  blank := by
    intro w hw
    simp only [visibleContext, visible_eq_nil.2 hw, List.length_nil]
  single := fun c _ => List.length_filter_le _ [c]

/-- A paragraph of words of ten letters, and a fence with one long line. -/
def longPage (words letters : ℕ) : List MarkdownPage :=
  [⟨1,(List.replicate words (List.replicate 10 0x78 ++ [0x20])).flatten ++ str "end.\n\n```\n" ++
    List.replicate letters 0x78 ++ str "\n```"⟩]

theorem fenceCut_of_leading {countTokens : Str → ℕ} (ht : Wordpieces countTokens) {b : Block}
    (h : ((fenceParts (splitlines b.text)).any fun x =>
      joinLines x.2.1 ≠ [] ∧ leading (joinLines x.2.1) = 0) = true) : FenceCut countTokens b := by
  intro _ _
  obtain ⟨⟨opening,body,closing⟩,hparts,hbody⟩ := (Option.any_eq_true _ _).1 h
  obtain ⟨hne,hleading⟩ := of_decide_eq_true hbody
  exact ⟨opening,body,closing,hparts,
    fun hroom => cuttable_of_leading ht hne hleading (Nat.sub_pos_of_lt hroom)⟩

/-- A paragraph of 804 visible characters is cut into three pieces and the fence into two, and
chunking fails only at the limit. -/
theorem chunking_failures_long :
    (documentBlocks (visibleContext 10).countTokens [] (longPage 80 500)).map
        (fun b => (b.kind,b.tokenCount,
          (boundedPieces (visibleContext 10).countTokens b).toOption.map List.length)) =
      [(.prose,804,some 3),(.fence,506,some 2)] ∧
    (∀ b ∈ documentBlocks (visibleContext 10).countTokens [] (longPage 80 500), ∀ pieces,
      boundedPieces (visibleContext 10).countTokens b = .ok pieces →
        CutLongest (visibleContext 10).countTokens b pieces) ∧
    ∀ e, chunkMarkdown (visibleContext 10) (longPage 80 500) = .error e → e ≠ .value →
      Excused (visibleContext 10) (longPage 80 500) := by
  obtain ⟨hfails,hlongest⟩ := chunking_failures (visibleContext 10) (longPage 80 500)
    (wordpieces_visible 10) ⟨by decide +kernel,by decide +kernel⟩
  have hletters : (documentBlocks (visibleContext 10).countTokens [] (longPage 80 500)).all
      (fun b => b.kind ≠ .fence || (fenceParts (splitlines b.text)).any fun x =>
        joinLines x.2.1 ≠ [] ∧ leading (joinLines x.2.1) = 0) = true := by decide +kernel
  refine ⟨by decide +kernel,hlongest,hfails.2 (Or.inr (Or.inl fun b hb => ?_))⟩
  have hb := List.all_eq_true.1 hletters b hb
  rw [Bool.or_eq_true, decide_eq_true_eq] at hb
  rcases hb with hkind | hbody
  · exact fun hfence => absurd hfence hkind
  · exact fenceCut_of_leading (wordpieces_visible 10) hbody

/-- A fence whose body is a run of spaces and a longer run of letters. -/
def paddedPage (spaces letters : ℕ) : List MarkdownPage :=
  [⟨1,str "```\n" ++ List.replicate spaces 0x20 ++ List.replicate letters 0x78 ++ str "\n```"⟩]

/-- The search for the first piece of the fence body ends in its leading spaces. -/
theorem padded_fence_fails : ∃ pages ctx, Wordpieces ctx.countTokens ∧ Validated pages ∧
    (∀ page ∈ pages, validateMarkdownStructure id page.markdown page.markdown = .ok ()) ∧
    chunkMarkdown ctx pages = .error .noCharacter ∧ ¬ Excused ctx pages := by
  have hbounded : (boundedBlocks (visibleContext 10).countTokens (paddedPage 400 400)).toOption =
      none := by decide +kernel
  have hblocks : (documentBlocks (visibleContext 10).countTokens [] (paddedPage 400 400)).all
      (fun b => b.kind = .fence && (fenceParts (splitlines b.text)).all fun x =>
        (visibleContext 10).countTokens (joinLines [x.1,[],x.2.2]) < hardMaxTokens) = true := by
    decide +kernel
  refine ⟨paddedPage 400 400,visibleContext 10,wordpieces_visible 10,
    ⟨by decide +kernel,by decide +kernel⟩,by decide +kernel,by decide +kernel,?_⟩
  rintro (⟨b,hb,-,hreason⟩ | ⟨n,chunks,hrun,-⟩)
  · have hb := List.all_eq_true.1 hblocks b hb
    rw [Bool.and_eq_true, decide_eq_true_eq] at hb
    rcases hreason with ⟨hkind,-⟩ | ⟨-,opening,body,closing,hparts,hwide⟩
    · rw [hb.1] at hkind
      cases hkind
    · have hroom := hb.2
      rw [hparts] at hroom
      simp only [Option.all_some, decide_eq_true_eq] at hroom
      exact absurd hroom (Nat.not_lt.2 hwide)
  · unfold chunkMarkdown at hrun
    split at hrun
    · cases hrun
    split at hrun
    · cases hrun
    split at hrun
    · cases hrun
    · rename_i hok
      have hok : boundedBlocks (visibleContext 10).countTokens (paddedPage 400 400) = .ok _ := hok
      rw [hok] at hbounded
      cases hbounded

end MarkdownChunking
end PdfBridge
