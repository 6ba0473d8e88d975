import PdfBridge.Services.ChunkBlocks

/-! The cells that the formatter reads from a row of a table, when the row is written from cells
without unescaped pipes, and the delimiters that the chunker reads as separator lines. -/
namespace PdfBridge
namespace MarkdownFormatter
open Unicode MarkdownChunking

/-- A pipe that no backslash escapes. -/
def unescapedPipe : Str → Bool
  | [] => false
  | [c] => c = pipe
  | c :: c' :: s => if c.val = 0x5c then unescapedPipe s else c = pipe || unescapedPipe (c' :: s)

/-- A last backslash that escapes whatever follows. -/
def dangling : Str → Bool
  | [] => false
  | [c] => c.val = 0x5c
  | c :: c' :: s => if c.val = 0x5c then dangling s else dangling (c' :: s)

/-- A row without outer pipes. -/
def pipeRow (cells : List Str) : Str := List.intercalate [pipe] cells

/-- A row with outer pipes. -/
def outerRow (cells : List Str) : Str := pipe :: (pipeRow cells ++ [pipe])

/-- A row is read back with or without its outer pipes. -/
structure ReadsBack (cells : List Str) : Prop where
  outer : pipeCells (outerRow cells) = some (cells.map strip)
  bare : pipeCells (pipeRow cells) = some (cells.map strip)

/-- No cell escapes the pipe after it, the first and the last cell are not blank, and the last one
does not end in a pipe. -/
structure Clear (cells : List Str) : Prop where
  whole : ∀ cell ∈ cells, dangling cell = false
  first : ∀ cell ∈ cells.head?, isBlank cell = false
  last : ∀ cell ∈ cells.getLast?, isBlank cell = false ∧ (rstrip cell).getLast? ≠ some pipe

/-- A row as it is written. -/
structure Row where
  outer : Bool
  cells : List Str

def Row.text (row : Row) : Str := if row.outer then outerRow row.cells else pipeRow row.cells

/-- Cells without unescaped pipes in a form that reads them back. -/
structure Row.Legible (row : Row) : Prop where
  plain : ∀ c ∈ row.cells, unescapedPipe c = false
  whole : ∀ c ∈ row.cells, dangling c = false
  some : row.cells ≠ []
  clear : row.outer = false → 2 ≤ row.cells.length ∧ Clear row.cells

/-- The lines of a table outside every fence. -/
def tableLines (header delimiter : Row) (rows : List Row) : List (Option Str) :=
  (header :: delimiter :: rows).map fun row => some row.text

variable {cell current rest s t : Str} {cells : List Str} {row header delimiter : Row}
  {rows : List Row}

/-! ### Scanning one cell -/

theorem pipe_ne_backslash : ¬ pipe.val = 0x5c := by decide

theorem isSpace_pipe : isSpace pipe = false := by decide

theorem pipeCellsFrom_nil : pipeCellsFrom current [] = ([strip current],0) := by
  simp [pipeCellsFrom]

theorem pipeCellsFrom_pipe :
    pipeCellsFrom current (pipe :: s) =
      (strip current :: (pipeCellsFrom [] s).1,(pipeCellsFrom [] s).2 + 1) := by
  cases s with
  | nil => simp [pipeCellsFrom, strip, lstrip, rstrip]
  | cons c s => simp [pipeCellsFrom, pipe_ne_backslash]

theorem pipeCellsFrom_escape {c c' : CodePoint} (h : c.val = 0x5c) :
    pipeCellsFrom current (c :: c' :: s) = pipeCellsFrom (current ++ [c,c']) s := by
  simp [pipeCellsFrom, h]

theorem pipeCellsFrom_char {c : CodePoint} (hs : c.val = 0x5c → s = []) (hp : c ≠ pipe) :
    pipeCellsFrom current (c :: s) = pipeCellsFrom (current ++ [c]) s := by
  cases s with
  | nil => simp [pipeCellsFrom, hp]
  | cons c' s =>
    have hc : ¬ c.val = 0x5c := fun h => by cases hs h
    simp [pipeCellsFrom, hp, hc]

/-- A cell that is followed by nothing. -/
theorem scan_last (h : unescapedPipe cell = false) :
    pipeCellsFrom current cell = ([strip (current ++ cell)],0) := by
  induction cell using unescapedPipe.induct generalizing current with
  | case1 => simp [pipeCellsFrom]
  | case2 c =>
    have hc : c ≠ pipe := by simpa [unescapedPipe] using h
    rw [pipeCellsFrom_char (fun _ => rfl) hc, pipeCellsFrom_nil]
  | case3 c c' s hc ih =>
    rw [unescapedPipe, if_pos hc] at h
    rw [pipeCellsFrom_escape hc, ih h]
    simp
  | case4 c c' s hc ih =>
    rw [unescapedPipe, if_neg hc, Bool.or_eq_false_iff, decide_eq_false_iff_not] at h
    rw [pipeCellsFrom_char (fun h => absurd h hc) h.1, ih h.2]
    simp

/-- A cell that is followed by a pipe of the row. -/
theorem scan_cell (h : unescapedPipe cell = false) (hd : dangling cell = false) :
    pipeCellsFrom current (cell ++ pipe :: rest) =
      (strip (current ++ cell) :: (pipeCellsFrom [] rest).1,(pipeCellsFrom [] rest).2 + 1) := by
  induction cell using unescapedPipe.induct generalizing current with
  | case1 => rw [List.nil_append, pipeCellsFrom_pipe, List.append_nil]
  | case2 c =>
    have hc : c ≠ pipe := by simpa [unescapedPipe] using h
    have hb : ¬ c.val = 0x5c := by simpa [dangling] using hd
    rw [List.singleton_append, pipeCellsFrom_char (fun h => absurd h hb) hc, pipeCellsFrom_pipe]
  | case3 c c' s hc ih =>
    rw [unescapedPipe, if_pos hc] at h
    rw [dangling, if_pos hc] at hd
    rw [List.cons_append, List.cons_append, pipeCellsFrom_escape hc, ih h hd]
    simp
  | case4 c c' s hc ih =>
    rw [unescapedPipe, if_neg hc, Bool.or_eq_false_iff, decide_eq_false_iff_not] at h
    rw [dangling, if_neg hc] at hd
    rw [List.cons_append, pipeCellsFrom_char (fun h => absurd h hc) h.1, ih h.2 hd]
    simp

/-- A cell that escapes the pipe after it goes on behind it. -/
theorem scan_dangling (h : unescapedPipe cell = false) (hd : dangling cell = true) :
    pipeCellsFrom current (cell ++ pipe :: rest) =
      pipeCellsFrom (current ++ (cell ++ [pipe])) rest := by
  induction cell using unescapedPipe.induct generalizing current with
  | case1 => cases hd
  | case2 c =>
    have hb : c.val = 0x5c := by simpa [dangling] using hd
    rw [List.singleton_append, pipeCellsFrom_escape hb, List.singleton_append]
  | case3 c c' s hc ih =>
    rw [unescapedPipe, if_pos hc] at h
    rw [dangling, if_pos hc] at hd
    rw [List.cons_append, List.cons_append, pipeCellsFrom_escape hc, ih h hd]
    simp
  | case4 c c' s hc ih =>
    rw [unescapedPipe, if_neg hc, Bool.or_eq_false_iff, decide_eq_false_iff_not] at h
    rw [dangling, if_neg hc] at hd
    rw [List.cons_append, pipeCellsFrom_char (fun h => absurd h hc) h.1, ih h.2 hd]
    simp

/-! ### Scanning a row -/

theorem pipeRow_cons (h : cells ≠ []) : pipeRow (cell :: cells) = cell ++ pipe :: pipeRow cells := by
  cases cells with
  | nil => exact absurd rfl h
  | cons c cells => simp [pipeRow, List.intercalate]

theorem pipeRow_single : pipeRow [cell] = cell := by simp [pipeRow, List.intercalate]

/-- A row reads as its cells when none of them escapes the pipe after it. -/
theorem scan_row (h : ∀ c ∈ cell :: cells, unescapedPipe c = false)
    (hd : ∀ c ∈ (cell :: cells).dropLast, dangling c = false) :
    pipeCellsFrom current (pipeRow (cell :: cells)) =
      (strip (current ++ cell) :: cells.map strip,cells.length) := by
  induction cells generalizing cell current with
  | nil =>
    rw [pipeRow_single, scan_last (h cell List.mem_cons_self)]
    rfl
  | cons next cells ih =>
    rw [List.dropLast_cons_cons, List.forall_mem_cons] at hd
    rw [List.forall_mem_cons] at h
    rw [pipeRow_cons (List.cons_ne_nil _ _), scan_cell h.1 hd.1, ih h.2 hd.2]
    rfl

/-- Otherwise it reads as fewer cells. -/
theorem scan_short (h : ∀ c ∈ cell :: cells, unescapedPipe c = false) :
    (pipeCellsFrom current (pipeRow (cell :: cells))).1.length ≤ cells.length + 1 ∧
      ((pipeCellsFrom current (pipeRow (cell :: cells))).1.length = cells.length + 1 →
        ∀ c ∈ (cell :: cells).dropLast, dangling c = false) := by
  induction cells generalizing cell current with
  | nil =>
    rw [pipeRow_single, scan_last (h cell List.mem_cons_self)]
    simp
  | cons next cells ih =>
    rw [List.forall_mem_cons] at h
    rw [pipeRow_cons (List.cons_ne_nil _ _)]
    by_cases hd : dangling cell = false
    · obtain ⟨hle,heq⟩ := @ih next [] h.2
      rw [scan_cell h.1 hd]
      simp only [List.length_cons, List.dropLast_cons_cons, List.forall_mem_cons] at hle heq ⊢
      exact ⟨by omega,fun hlen => ⟨hd,heq (by omega)⟩⟩
    · obtain ⟨hle,-⟩ := @ih next (current ++ (cell ++ [pipe])) h.2
      rw [scan_dangling h.1 (by simpa using hd)]
      simp only [List.length_cons]
      exact ⟨by omega,fun hlen => by omega⟩

/-! ### Trimming a row -/

theorem unescapedPipe_append (h : unescapedPipe (s ++ t) = false) : unescapedPipe s = false := by
  induction s using unescapedPipe.induct with
  | case1 => rfl
  | case2 c =>
    cases t with
    | nil => exact h
    | cons c' t =>
      rw [List.singleton_append, unescapedPipe] at h
      split at h
      · rename_i hc
        have hne : c ≠ pipe := by
          rintro rfl
          exact pipe_ne_backslash hc
        simpa [unescapedPipe] using hne
      · rw [Bool.or_eq_false_iff] at h
        exact h.1
  | case3 c c' s hc ih =>
    rw [List.cons_append, List.cons_append, unescapedPipe, if_pos hc] at h
    rw [unescapedPipe, if_pos hc]
    exact ih h
  | case4 c c' s hc ih =>
    rw [List.cons_append, List.cons_append, unescapedPipe, if_neg hc, Bool.or_eq_false_iff] at h
    rw [unescapedPipe, if_neg hc, h.1, Bool.false_or]
    exact ih h.2

/-- A first character that is no backslash leaves the rest of a text as it is. -/
theorem scans_cons {c : CodePoint} (hc : ¬ c.val = 0x5c) :
    unescapedPipe (c :: s) = (decide (c = pipe) || unescapedPipe s) ∧
      dangling (c :: s) = dangling s := by
  cases s with
  | nil => simp [unescapedPipe, dangling, hc]
  | cons c' s => simp [unescapedPipe, dangling, hc]

theorem scans_lstrip (h : unescapedPipe s = false) :
    unescapedPipe (lstrip s) = false ∧ dangling (lstrip s) = dangling s := by
  induction s with
  | nil => exact ⟨rfl,rfl⟩
  | cons c s ih =>
    by_cases hc : isSpace c = true
    · have hb : ¬ c.val = 0x5c := by
        intro hv
        simp only [isSpace, hv] at hc
        revert hc
        decide
      obtain ⟨hp,hd⟩ := @scans_cons s c hb
      rw [hp, Bool.or_eq_false_iff] at h
      rw [lstrip, List.dropWhile_cons_of_pos hc, hd]
      exact ih h.2
    · rw [lstrip, List.dropWhile_cons_of_neg hc]
      exact ⟨h,rfl⟩

theorem unescapedPipe_rstrip (h : unescapedPipe s = false) : unescapedPipe (rstrip s) = false := by
  obtain ⟨t,ht⟩ := List.rdropWhile_prefix isSpace s
  rw [← ht] at h
  exact unescapedPipe_append h

theorem lstrip_append_pipe : lstrip (cell ++ pipe :: rest) = lstrip cell ++ pipe :: rest := by
  unfold lstrip
  rw [List.dropWhile_append, List.dropWhile_cons_of_neg (by rw [isSpace_pipe]; decide)]
  split
  · rename_i hnil
    rw [List.isEmpty_iff.1 hnil]
    rfl
  · rfl

theorem rstrip_append_pipe : rstrip (rest ++ pipe :: cell) = rest ++ pipe :: rstrip cell := by
  have hpipe : rstrip (pipe :: cell) = pipe :: rstrip cell := by
    have happ := rstrip_append [pipe] cell
    rw [List.singleton_append] at happ
    rw [happ]
    split
    · rename_i hnil
      rw [hnil]
      simp [rstrip, List.rdropWhile, isSpace_pipe]
    · rfl
  rw [rstrip_append, hpipe, if_neg (List.cons_ne_nil _ _)]

theorem pipeRow_append_last {last : Str} (h : cells ≠ []) :
    pipeRow (cells ++ [last]) = pipeRow cells ++ pipe :: last := by
  induction cells with
  | nil => exact absurd rfl h
  | cons c cells ih =>
    cases cells with
    | nil => rw [List.singleton_append, pipeRow_cons (by simp), pipeRow_single, pipeRow_single]
    | cons c' cells =>
      have hrow := @pipeRow_cons c (c' :: cells) (by simp)
      rw [List.cons_append, pipeRow_cons (by simp), ih (by simp), hrow]
      simp

theorem outerRow_eq (h : cells ≠ []) : outerRow cells = pipeRow ([] :: (cells ++ [[]])) := by
  rw [pipeRow_cons (by simp), pipeRow_append_last h]
  rfl

theorem strip_outerRow : strip (outerRow cells) = outerRow cells := by
  have hleft : lstrip (outerRow cells) = outerRow cells :=
    List.dropWhile_cons_of_neg (by rw [isSpace_pipe]; decide)
  have hright := @rstrip_append_pipe [] (pipe :: pipeRow cells)
  rw [strip, hleft]
  exact hright

/-- A row without outer pipes is trimmed at its first and its last cell. -/
theorem strip_pipeRow {first last : Str} {middle : List Str} :
    strip (pipeRow (first :: (middle ++ [last]))) =
      pipeRow (lstrip first :: (middle ++ [rstrip last])) := by
  rw [pipeRow_cons (by simp), strip, lstrip_append_pipe, pipeRow_cons (by simp)]
  cases middle with
  | nil =>
    rw [List.nil_append, pipeRow_single, rstrip_append_pipe, List.nil_append, pipeRow_single]
  | cons c middle =>
    have hsplit := @rstrip_append_pipe last (lstrip first ++ pipe :: pipeRow (c :: middle))
    rw [pipeRow_append_last (by simp), pipeRow_append_last (by simp)]
    simpa using hsplit

/-! ### Reading a row back -/

theorem pipe_suffix : (str "|").isSuffixOf s = true ↔ s.getLast? = some pipe := by
  have hstr : str "|" = [pipe] := by decide
  rw [hstr, List.isSuffixOf_iff_suffix]
  constructor
  · rintro ⟨t,rfl⟩
    simp
  · intro h
    obtain ⟨t,rfl⟩ := List.getLast?_eq_some_iff.1 h
    exact ⟨t,rfl⟩

/-- What is left of the cells of a scan. -/
theorem pipeCells_scan {scanned : List Str} {separators : ℕ}
    (hscan : pipeCellsFrom [] (strip s) = (scanned,separators)) (hpos : separators ≠ 0) :
    pipeCells s = some
      (let kept := if (str "|").isPrefixOf (strip s) then scanned.drop 1 else scanned
      if (str "|").isSuffixOf (strip s) then kept.dropLast else kept) := by
  simp [pipeCells, hscan, hpos]

theorem reads_outer (hcells : cells ≠ []) (h : ∀ c ∈ cells, unescapedPipe c = false) :
    pipeCells (outerRow cells) = some (cells.map strip) ↔ ∀ c ∈ cells, dangling c = false := by
  have hrow := outerRow_eq hcells
  have hall : ∀ c ∈ [] :: (cells ++ [[]]), unescapedPipe c = false := by
    intro c hc
    simp only [List.mem_cons, List.mem_append, List.not_mem_nil, or_false] at hc
    rcases hc with rfl | hc | rfl
    · rfl
    · exact h c hc
    · rfl
  have hfront : (str "|").isPrefixOf (outerRow cells) = true := rfl
  have hback : (str "|").isSuffixOf (outerRow cells) = true := by
    rw [pipe_suffix]
    simp [outerRow, List.getLast?_cons]
  have hpos : (pipeCellsFrom [] (strip (outerRow cells))).2 ≠ 0 := by
    rw [strip_outerRow, outerRow, pipeCellsFrom_pipe]
    exact Nat.succ_ne_zero _
  rw [pipeCells_scan rfl hpos]
  simp only [strip_outerRow, hfront, hback, if_true, Option.some.injEq]
  rw [hrow]
  constructor
  · intro heq c hc
    have hlen := congrArg List.length heq
    have hpositive := List.length_pos_of_ne_nil hcells
    simp only [List.length_dropLast, List.length_drop, List.length_map] at hlen
    refine (@scan_short [] [] (cells ++ [[]]) hall).2 ?_ c ?_
    · simp only [List.length_append, List.length_singleton]
      omega
    · rw [← List.cons_append, List.dropLast_concat]
      exact List.mem_cons_of_mem _ hc
  · intro hd
    have hscan : ∀ c ∈ ([] :: (cells ++ [[]])).dropLast, dangling c = false := by
      rw [← List.cons_append, List.dropLast_concat, List.forall_mem_cons]
      exact ⟨rfl,hd⟩
    rw [scan_row hall hscan]
    simp

theorem starts_piped {first : Str} (h : unescapedPipe first = false) :
    (str "|").isPrefixOf (lstrip first ++ pipe :: rest) = isBlank first := by
  cases hl : lstrip first with
  | nil =>
    have hblank : isBlank first = true := List.all_eq_true.2 (List.dropWhile_eq_nil_iff.1 hl)
    rw [hblank]
    rfl
  | cons c s =>
    have hblank : isBlank first = false := by
      rw [Bool.eq_false_iff]
      intro hb
      rw [lstrip, List.dropWhile_eq_nil_iff.2 (List.all_eq_true.1 hb)] at hl
      cases hl
    have hc : c ≠ pipe := by
      rintro rfl
      have hp := (scans_lstrip h).1
      rw [hl, (scans_cons pipe_ne_backslash).1] at hp
      simp at hp
    have hstr : str "|" = [pipe] := by decide
    rw [hblank, hstr]
    simp [List.isPrefixOf, hc.symm]

theorem ends_piped {last : Str} : (str "|").isSuffixOf (rest ++ pipe :: rstrip last) = true ↔
    isBlank last = true ∨ (rstrip last).getLast? = some pipe := by
  rw [pipe_suffix, List.getLast?_append, List.getLast?_cons, ← rstrip_eq_nil_iff]
  cases hr : rstrip last with
  | nil => simp
  | cons c s =>
    rw [List.getLast?_cons]
    simp

theorem reads_bare {first last : Str} {middle : List Str}
    (h : ∀ c ∈ first :: (middle ++ [last]), unescapedPipe c = false) :
    pipeCells (pipeRow (first :: (middle ++ [last]))) =
        some ((first :: (middle ++ [last])).map strip) ↔
      (∀ c ∈ first :: middle, dangling c = false) ∧ isBlank first = false ∧
        isBlank last = false ∧ (rstrip last).getLast? ≠ some pipe := by
  have hfirst := h first List.mem_cons_self
  have hlast := h last (by simp)
  have hall : ∀ c ∈ lstrip first :: (middle ++ [rstrip last]), unescapedPipe c = false := by
    rw [List.forall_mem_cons, List.forall_mem_append, List.forall_mem_singleton]
    exact ⟨(scans_lstrip hfirst).1,fun c hc => h c (by simp [hc]),unescapedPipe_rstrip hlast⟩
  have hdrop : (lstrip first :: (middle ++ [rstrip last])).dropLast = lstrip first :: middle := by
    rw [← List.cons_append, List.dropLast_concat]
  have hwhole : (∀ c ∈ lstrip first :: middle, dangling c = false) ↔
      ∀ c ∈ first :: middle, dangling c = false := by
    rw [List.forall_mem_cons, List.forall_mem_cons, (scans_lstrip hfirst).2]
  have hfront : (str "|").isPrefixOf (pipeRow (lstrip first :: (middle ++ [rstrip last]))) =
      isBlank first := by
    rw [pipeRow_cons (by simp), starts_piped hfirst]
  have hback : (str "|").isSuffixOf (pipeRow (lstrip first :: (middle ++ [rstrip last]))) = true ↔
      isBlank last = true ∨ (rstrip last).getLast? = some pipe := by
    rw [← List.cons_append, pipeRow_append_last (by simp), ends_piped]
  obtain ⟨hle,hshort⟩ := @scan_short (lstrip first) [] (middle ++ [rstrip last]) hall
  rw [hdrop, hwhole] at hshort
  simp only [List.length_append, List.length_singleton] at hle hshort
  constructor
  · intro hread
    have hpos : (pipeCellsFrom [] (strip (pipeRow (first :: (middle ++ [last]))))).2 ≠ 0 := by
      intro hzero
      simp [pipeCells, hzero] at hread
    rw [pipeCells_scan rfl hpos, Option.some.injEq] at hread
    have hlen := congrArg List.length hread
    simp only [List.length_map, List.length_cons, List.length_append, List.length_nil,
      strip_pipeRow, hfront] at hlen
    have hquiet : isBlank first = false := by
      rw [Bool.eq_false_iff]
      intro hb
      rw [if_pos hb] at hlen
      split at hlen <;> simp only [List.length_dropLast, List.length_drop] at hlen <;> omega
    rw [hquiet, if_neg Bool.false_ne_true] at hlen
    have hplain : ¬ (isBlank last = true ∨ (rstrip last).getLast? = some pipe) := by
      intro hp
      rw [if_pos (hback.2 hp), List.length_dropLast] at hlen
      omega
    rw [if_neg (fun hp => hplain (hback.1 hp))] at hlen
    rw [not_or, Bool.not_eq_true] at hplain
    exact ⟨hshort (by omega),hquiet,hplain⟩
  · rintro ⟨hd,hb,hb',hp⟩
    have hscan := @scan_row (lstrip first) [] (middle ++ [rstrip last]) hall
      (by rwa [hdrop, hwhole])
    rw [← strip_pipeRow] at hscan
    rw [pipeCells_scan hscan (by simp), strip_pipeRow, hfront, hb]
    rw [if_neg (by rw [hback]; simp [hb', hp])]
    simp [strip_lstrip, strip_rstrip]

/-- A row of at least two cells is read back in both forms exactly when its cells are clear. -/
theorem readsBack_iff (hcells : 2 ≤ cells.length) (h : ∀ c ∈ cells, unescapedPipe c = false) :
    ReadsBack cells ↔ Clear cells := by
  obtain ⟨first,more,rfl⟩ := List.exists_cons_of_ne_nil
    (List.ne_nil_of_length_pos (show 0 < cells.length by omega))
  have hmore : more ≠ [] := by
    rintro rfl
    simp at hcells
  obtain ⟨middle,last,rfl⟩ : ∃ middle last, more = middle ++ [last] :=
    ⟨_,_,(List.dropLast_append_getLast hmore).symm⟩
  have houter := reads_outer (List.cons_ne_nil _ _) h
  have hbare := reads_bare h
  have hlast : (first :: (middle ++ [last])).getLast? = some last := by
    rw [← List.cons_append, List.getLast?_concat]
  constructor
  · rintro ⟨hout,hin⟩
    obtain ⟨-,hfirst,hends⟩ := hbare.1 hin
    refine ⟨houter.1 hout,?_,?_⟩
    · rintro c ⟨⟩
      exact hfirst
    · rw [hlast]
      rintro c ⟨⟩
      exact hends
  · rintro ⟨hwhole,hfirst,hends⟩
    refine ⟨houter.2 hwhole,hbare.2 ⟨fun c hc => hwhole c ?_,hfirst first rfl,hends last hlast⟩⟩
    rw [← List.cons_append]
    exact List.mem_append_left _ hc

/-! ### Tables of legible rows -/

theorem Row.Legible.reads (h : row.Legible) :
    pipeCells row.text = Option.some (row.cells.map strip) := by
  unfold Row.text
  by_cases ho : row.outer = true
  · rw [if_pos ho]
    exact (reads_outer h.some h.plain).2 h.whole
  · rw [if_neg ho]
    obtain ⟨htwo,hclear⟩ := h.clear (by simpa using ho)
    exact ((readsBack_iff htwo h.plain).2 hclear).bare

theorem not_blank (h : (pipeCells s).isSome = true) : isBlank s = false := by
  rw [Bool.eq_false_iff]
  intro hb
  have hstrip : strip s = [] := by
    rw [strip, lstrip, List.dropWhile_eq_nil_iff.2 (List.all_eq_true.1 hb)]
    rfl
  simp [pipeCells, hstrip, pipeCellsFrom] at h

/-- Dashes with at most a colon behind them. -/
theorem delimiterLike_dashes (h : 3 ≤ leadingRun 0x2d s)
    (hend : s.drop (leadingRun 0x2d s) = [] ∨ s.drop (leadingRun 0x2d s) = [0x3a]) :
    delimiterLike s = true := by
  obtain ⟨hsplit,-⟩ := leadingRun_split 0x2d s
  obtain ⟨k,hk⟩ : ∃ k, leadingRun 0x2d s = k + 1 := ⟨leadingRun 0x2d s - 1,by omega⟩
  rw [hk] at hsplit hend
  rw [hsplit, delimiterLike, List.any_append, List.all_append]
  have hdashes : (List.replicate (k + 1) (0x2d : CodePoint)).all
      (fun c => c.val = 0x2d || c.val = 0x3a) = true := by
    rw [List.all_replicate]
    exact if_neg (Nat.succ_ne_zero k)
  rw [hdashes, List.replicate_succ, List.any_cons]
  rcases hend with hend | hend <;> rw [hend] <;> rfl

theorem delimiterLike_colon (h : delimiterLike s = true) : delimiterLike (0x3a :: s) = true := by
  rw [delimiterLike, Bool.and_eq_true] at h
  rw [delimiterLike, List.any_cons, List.all_cons, h.1, h.2]
  decide

theorem delimiterLike_of_separator (h : isSeparatorCell cell = true) :
    delimiterLike cell = true := by
  cases cell with
  | nil => exact absurd h (by decide)
  | cons c s =>
    simp only [isSeparatorCell, Bool.and_eq_true, Bool.or_eq_true, decide_eq_true_eq] at h
    by_cases hc : c = 0x3a
    · subst hc
      rw [if_pos rfl] at h
      exact delimiterLike_colon (delimiterLike_dashes h.1 h.2)
    · rw [if_neg hc] at h
      exact delimiterLike_dashes h.1 h.2

theorem rowsFit_iff {width : ℕ} (h : ∀ row ∈ rows, row.Legible) :
    rowsFit width (rows.map fun row => Option.some row.text) = true ↔
      ∀ row ∈ rows, row.cells.length = width := by
  induction rows with
  | nil => simp [rowsFit]
  | cons row rows ih =>
    rw [List.forall_mem_cons] at h
    have hblank : isBlank row.text = false := not_blank (by rw [h.1.reads]; rfl)
    rw [List.map_cons, rowsFit, hblank, h.1.reads, List.forall_mem_cons]
    simp [ih h.2]

theorem ordinary_valid {previous : Option (Option Str)} {lines : List (Option Str)}
    (h : row.Legible) (ho : ∃ c ∈ row.cells, delimiterLike (strip c) = false) :
    delimiterValid previous row.text lines = true := by
  have hsome := h.some
  obtain ⟨c,hc,hd⟩ := ho
  have hall : (row.cells.map strip).all delimiterLike = false := by
    rw [List.all_eq_false]
    exact ⟨strip c,List.mem_map_of_mem hc,by simp [hd]⟩
  unfold delimiterValid
  rw [h.reads]
  cases hcells : row.cells.map strip with
  | nil => rfl
  | cons x xs =>
    rw [hcells] at hall
    simp [hall]

theorem ordinary_rows {previous : Option (Option Str)} (h : ∀ row ∈ rows, row.Legible ∧
    ∃ c ∈ row.cells, delimiterLike (strip c) = false) :
    tablesValid previous (rows.map fun row => Option.some row.text) = true := by
  induction rows generalizing previous with
  | nil => rfl
  | cons row rows ih =>
    rw [List.forall_mem_cons] at h
    rw [List.map_cons, tablesValid, ih h.2, Bool.and_true]
    exact ordinary_valid h.1.1 h.1.2

/-- A table of legible rows is accepted exactly when every row is as wide as the delimiter. -/
theorem table_accepted (hheader : header.Legible) (hdelimiter : delimiter.Legible)
    (hrows : ∀ row ∈ rows, row.Legible) (hwidth : 2 ≤ delimiter.cells.length)
    (hseparator : ∀ c ∈ delimiter.cells, isSeparatorCell (strip c) = true)
    (ho : ∀ row ∈ header :: rows, ∃ c ∈ row.cells, delimiterLike (strip c) = false) :
    tablesValid none (tableLines header delimiter rows) = true ↔
      ∀ row ∈ header :: rows, row.cells.length = delimiter.cells.length := by
  rw [List.forall_mem_cons] at ho
  have hfirst := @ordinary_valid header none
    (Option.some delimiter.text :: rows.map fun row => Option.some row.text) hheader ho.1
  have hlater := @ordinary_rows rows (Option.some (Option.some delimiter.text))
    fun row hr => ⟨hrows row hr,ho.2 row hr⟩
  have hsep : (delimiter.cells.map strip).all isSeparatorCell = true := by
    rw [List.all_map, List.all_eq_true]
    exact hseparator
  have hlike : (delimiter.cells.map strip).all delimiterLike = true := by
    rw [List.all_map, List.all_eq_true]
    exact fun c hc => delimiterLike_of_separator (hseparator c hc)
  have hhead : (header.cells.map strip).all isSeparatorCell = false := by
    obtain ⟨c,hc,hd⟩ := ho.1
    rw [List.all_map, List.all_eq_false]
    refine ⟨c,hc,fun hs => ?_⟩
    rw [delimiterLike_of_separator hs] at hd
    cases hd
  have hcheck : delimiterValid (Option.some (Option.some header.text)) delimiter.text
      (rows.map fun row => Option.some row.text) =
      (decide (header.cells.length = delimiter.cells.length) &&
        rowsFit delimiter.cells.length (rows.map fun row => Option.some row.text)) := by
    unfold delimiterValid
    rw [hdelimiter.reads]
    cases hcells : delimiter.cells.map strip with
    | nil =>
      rw [List.map_eq_nil_iff.1 hcells] at hwidth
      cases hwidth
    | cons x xs =>
      have hlen : delimiter.cells.length = (x :: xs).length := by
        rw [← hcells, List.length_map]
      rw [hcells] at hsep hlike
      simp only [hlike, if_true, hsep, hheader.reads, hhead, Bool.true_and, Bool.not_false,
        Bool.and_true, List.length_map, ← hlen, hwidth, decide_true]
  rw [tableLines, List.map_cons, List.map_cons, tablesValid, tablesValid, hlater, Bool.and_true]
  simp only [hfirst]
  rw [Bool.true_and, hcheck, Bool.and_eq_true, decide_eq_true_eq,
    rowsFit_iff hrows, List.forall_mem_cons]

/-! ### Delimiters of both readers -/

section Delimiters
variable {line : Str}

/-- The line ends in a pipe behind a backslash. -/
def endsEscaped (line : Str) : Bool := (str "\\|").isSuffixOf (strip line)

/-- The line has the cells of an accepted delimiter. -/
def Ruled (line : Str) : Prop :=
  ∃ cells, pipeCells line = some cells ∧ 2 ≤ cells.length ∧ ∀ c ∈ cells, isSeparatorCell c = true

theorem mem_dropWhile {p : CodePoint → Bool} {c : CodePoint} {s : Str} (hc : c ∈ s)
    (hp : p c = false) : c ∈ s.dropWhile p := by
  rw [← List.takeWhile_append_dropWhile (p := p) (l := s), List.mem_append] at hc
  rcases hc with hc | hc
  · rw [List.mem_takeWhile_imp hc] at hp
    cases hp
  · exact hc

theorem mem_rdropWhile {p : CodePoint → Bool} {c : CodePoint} {s : Str} (hc : c ∈ s)
    (hp : p c = false) : c ∈ s.rdropWhile p := by
  rw [List.rdropWhile, List.mem_reverse]
  exact mem_dropWhile (List.mem_reverse.2 hc) hp

theorem mem_strip {c : CodePoint} (hc : c ∈ s) (hspace : isSpace c = false) : c ∈ strip s :=
  mem_rdropWhile (mem_dropWhile hc hspace) hspace

/-- Every character but spaces and pipes stands in a cell. -/
theorem scan_mem {c : CodePoint} (hspace : isSpace c = false) (hpipe : c ≠ pipe)
    (hc : c ∈ current ++ s) : ∃ cell ∈ (pipeCellsFrom current s).1, c ∈ cell := by
  induction current, s using pipeCellsFrom.induct with
  | case1 current =>
    rw [List.append_nil] at hc
    rw [pipeCellsFrom_nil]
    exact ⟨_,List.mem_singleton_self _,mem_strip hc hspace⟩
  | case2 current =>
    have hcurrent : c ∈ current := by simpa [hpipe] using hc
    rw [pipeCellsFrom_pipe]
    exact ⟨_,List.mem_cons_self,mem_strip hcurrent hspace⟩
  | case3 current d hd =>
    rw [pipeCellsFrom_char (fun _ => rfl) hd, pipeCellsFrom_nil]
    exact ⟨_,List.mem_singleton_self _,mem_strip hc hspace⟩
  | case4 current d d' s hd ih =>
    rw [pipeCellsFrom_escape hd]
    exact ih (by simpa using hc)
  | case5 current d' s _ _ _ _ ih =>
    rw [pipeCellsFrom_pipe]
    rcases List.mem_append.1 hc with hc | hc
    · exact ⟨_,List.mem_cons_self,mem_strip hc hspace⟩
    · obtain ⟨cell,hcell,hmem⟩ := ih (by simpa [hpipe] using hc)
      exact ⟨cell,List.mem_cons_of_mem _ hcell,hmem⟩
  | case6 current d d' s hd hp ih =>
    rw [pipeCellsFrom_char (fun h => absurd h hd) hp]
    exact ih (by simpa using hc)

/-- Behind a last pipe stands an empty cell, unless a backslash escapes the pipe. -/
theorem scan_ends (hlast : s.getLast? = some pipe) :
    (pipeCellsFrom current s).1.getLast? = some [] ∨ str "\\|" <:+ s := by
  induction current, s using pipeCellsFrom.induct with
  | case1 => cases hlast
  | case2 current =>
    rw [pipeCellsFrom_pipe, pipeCellsFrom_nil]
    exact Or.inl rfl
  | case3 current d hd => exact absurd (Option.some.inj hlast) hd
  | case4 current d d' s hd ih =>
    rw [pipeCellsFrom_escape hd]
    cases s with
    | nil =>
      have hd' : d' = pipe := Option.some.inj hlast
      have hval : d = 0x5c := Fin.ext hd
      right
      rw [hd', hval]
      exact List.suffix_refl _
    | cons e s => exact (ih hlast).imp_right fun h => h.trans ⟨[d,d'],rfl⟩
  | case5 current d' s _ _ _ _ ih =>
    rw [pipeCellsFrom_pipe]
    refine (ih hlast).imp (fun h => ?_) fun h => h.trans ⟨[pipe],rfl⟩
    rw [List.getLast?_cons, h, Option.getD_some]
  | case6 current d d' s hd hp ih =>
    rw [pipeCellsFrom_char (fun h => absurd h hd) hp]
    exact (ih hlast).imp_right fun h => h.trans ⟨[d],rfl⟩

/-- The cells behind a first pipe; the one in front of it is empty. -/
theorem scan_prefix {scanned : List Str} {separators : ℕ}
    (hscan : pipeCellsFrom [] s = (scanned,separators)) : ∃ kept,
      (if (str "|").isPrefixOf s then scanned.drop 1 else scanned) = kept ∧ kept <:+ scanned ∧
        ∀ cell ∈ scanned, cell ∈ kept ∨ cell = [] := by
  refine ⟨_,rfl,?_,fun cell hcell => ?_⟩
  · split
    · exact List.drop_suffix 1 scanned
    · exact List.suffix_refl _
  · split
    · rename_i hp
      obtain ⟨t,rfl⟩ := List.isPrefixOf_iff_prefix.1 hp
      have hstr : str "|" = [pipe] := by decide
      rw [hstr, List.singleton_append, pipeCellsFrom_pipe] at hscan
      have hhead : scanned = [] :: (pipeCellsFrom [] t).1 := (congrArg Prod.fst hscan).symm
      rw [hhead, List.mem_cons] at hcell
      rw [hhead]
      exact hcell.symm
    · exact Or.inl hcell

/-- A dropped cell is empty in front of a first pipe, and behind a last one that is not escaped. -/
theorem kept_or_empty (h : pipeCells line = some cells) (he : endsEscaped line = false)
    (hlen : 2 ≤ cells.length) (hcell : cell ∈ (pipeCellsFrom [] (strip line)).1) :
    cell ∈ cells ∨ cell = [] := by
  cases hscan : pipeCellsFrom [] (strip line) with
  | mk scanned separators =>
  rw [hscan] at hcell
  have hsep : separators ≠ 0 := by
    rintro rfl
    simp [pipeCells, hscan] at h
  rw [pipeCells_scan hscan hsep, Option.some.injEq] at h
  obtain ⟨kept,hkept,⟨before,hbefore⟩,hmem⟩ := scan_prefix hscan
  simp only [hkept] at h
  refine (hmem cell hcell).elim (fun hmem => ?_) Or.inr
  split at h
  · rename_i hs
    have hne : kept ≠ [] := by
      rintro rfl
      subst h
      simp at hlen
    have hlast : kept.getLast? = some [] := by
      rcases @scan_ends [] (strip line) (pipe_suffix.1 hs) with hend | hend
      · rw [hscan, ← hbefore, List.getLast?_append_of_ne_nil _ hne] at hend
        exact hend
      · rw [endsEscaped, List.isSuffixOf_iff_suffix.2 hend] at he
        cases he
    rw [← List.dropLast_append_getLast? _ hlast, h, List.mem_append, List.mem_singleton] at hmem
    exact hmem
  · exact Or.inl (h ▸ hmem)

theorem Ruled.no_backslash (h : Ruled line) (he : endsEscaped line = false) {c : CodePoint}
    (hc : c ∈ strip line) : c.val ≠ 0x5c := by
  intro hval
  have hc' : c = 0x5c := Fin.ext hval
  subst hc'
  obtain ⟨cells,hcells,hlen,hall⟩ := h
  obtain ⟨cell,hcell,hmem⟩ := @scan_mem [] (strip line) 0x5c (by decide) (by decide) hc
  rcases kept_or_empty hcells he hlen hcell with hkept | rfl
  · have hlike := delimiterLike_of_separator (hall cell hkept)
    rw [delimiterLike, Bool.and_eq_true, List.all_eq_true] at hlike
    have hchar := hlike.2 _ hmem
    revert hchar
    decide
  · cases hmem

theorem not_mem_split {x : CodePoint} {piece : Str} (h : piece ∈ s.splitOn x) : x ∉ piece := by
  induction s generalizing piece with
  | nil =>
    have hpiece : piece = [] := by simpa using h
    rw [hpiece]
    exact List.not_mem_nil
  | cons c s ih =>
    rw [List.splitOn, List.splitOnP_cons_eq_if_modifyHead] at h
    obtain ⟨first,more,hs⟩ : ∃ first more, s.splitOn x = first :: more :=
      List.exists_cons_of_ne_nil (List.splitOnP_ne_nil _ _)
    rw [List.splitOn] at hs
    rw [List.splitOn, hs] at ih
    rw [hs] at h
    split at h
    · rcases List.mem_cons.1 h with rfl | h
      · exact List.not_mem_nil
      · exact ih h
    · rename_i hc
      rw [List.modifyHead_cons] at h
      rcases List.mem_cons.1 h with rfl | h
      · rw [List.mem_cons, not_or]
        exact ⟨fun heq => hc (by simp [heq]),ih List.mem_cons_self⟩
      · exact ih (List.mem_cons_of_mem _ h)

theorem plain_cell (hpipe : pipe ∉ cell) (hback : ∀ c ∈ cell, c.val ≠ 0x5c) :
    unescapedPipe cell = false ∧ dangling cell = false := by
  induction cell with
  | nil => exact ⟨rfl,rfl⟩
  | cons c cell ih =>
    rw [List.mem_cons, not_or] at hpipe
    rw [List.forall_mem_cons] at hback
    obtain ⟨hpipes,hends⟩ := ih hpipe.2 hback.2
    obtain ⟨hfirst,hsecond⟩ := @scans_cons cell c hback.1
    rw [hfirst, hsecond, hpipes, hends]
    simpa using Ne.symm hpipe.1

theorem dropWhile_pipes (n : ℕ) (hs : s.head? ≠ some pipe) :
    (List.replicate n pipe ++ s).dropWhile (· = pipe) = s := by
  induction n with
  | zero =>
    cases s with
    | nil => rfl
    | cons c s =>
      have hc : c ≠ pipe := fun h => hs (congrArg some h)
      simp [hc]
  | succ n ih => simpa [List.replicate_succ] using ih

/-- All outer pipes are taken away. -/
theorem stripPipes_core (n m : ℕ) (hne : s ≠ []) (hfirst : s.head? ≠ some pipe)
    (hlast : s.getLast? ≠ some pipe) :
    stripPipes (List.replicate n pipe ++ s ++ List.replicate m pipe) = s := by
  have hhead : (s ++ List.replicate m pipe).head? ≠ some pipe := by
    rw [List.head?_append_of_ne_nil _ hne]
    exact hfirst
  rw [stripPipes, List.append_assoc, dropWhile_pipes n hhead, List.rdropWhile, List.reverse_append,
    List.reverse_replicate, dropWhile_pipes m (by rwa [List.head?_reverse]), List.reverse_reverse]

theorem mem_pipeRow {c : CodePoint} (hcell : cell ∈ cells) (hc : c ∈ cell) : c ∈ pipeRow cells := by
  induction cells with
  | nil => cases hcell
  | cons d cells ih =>
    by_cases hcells : cells = []
    · rw [hcells, List.mem_singleton] at hcell
      rw [hcells, pipeRow_single, ← hcell]
      exact hc
    · rw [pipeRow_cons hcells, List.mem_append, List.mem_cons]
      rcases List.mem_cons.1 hcell with rfl | hcell
      · exact Or.inl hc
      · exact Or.inr (Or.inr (ih hcell))

/-- A row of pieces that are not empty begins and ends with one of them. -/
theorem pipeRow_ends (hcells : cells ≠ []) (h : ∀ c ∈ cells, c ≠ [] ∧ pipe ∉ c) :
    pipeRow cells ≠ [] ∧ (pipeRow cells).head? ≠ some pipe ∧
      (pipeRow cells).getLast? ≠ some pipe := by
  have hhead : (pipeRow cells).head? = (cells.head hcells).head? := by
    obtain ⟨c,cs,rfl⟩ := List.exists_cons_of_ne_nil hcells
    have hc := (h c List.mem_cons_self).1
    rw [List.head_cons]
    by_cases hcs : cs = []
    · rw [hcs, pipeRow_single]
    · rw [pipeRow_cons hcs, List.head?_append_of_ne_nil _ hc]
  have hlast : (pipeRow cells).getLast? = (cells.getLast hcells).getLast? := by
    have hmem := h _ (List.getLast_mem hcells)
    by_cases hinit : cells.dropLast = []
    · have hsingle : cells = [cells.getLast hcells] := by
        conv_lhs => rw [← List.dropLast_append_getLast hcells, hinit, List.nil_append]
      conv_lhs => rw [hsingle, pipeRow_single]
    · conv_lhs => rw [← List.dropLast_append_getLast hcells, pipeRow_append_last hinit]
      rw [List.getLast?_append_of_ne_nil _ (List.cons_ne_nil _ _), List.getLast?_cons]
      cases hl : (cells.getLast hcells).getLast? with
      | none => exact absurd (List.getLast?_eq_none_iff.1 hl) hmem.1
      | some c => rfl
  refine ⟨?_,?_,?_⟩
  · intro hnil
    rw [hnil] at hhead
    exact (h _ (List.head_mem hcells)).1 (List.head?_eq_none_iff.1 hhead.symm)
  · rw [hhead]
    exact fun hp => (h _ (List.head_mem hcells)).2 (List.mem_of_mem_head? hp)
  · rw [hlast]
    exact fun hp => (h _ (List.getLast_mem hcells)).2 (List.mem_of_getLast? hp)

/-- A text without backslashes is scanned as the pieces between its pipes. -/
theorem scan_plain (hback : ∀ c ∈ s, c.val ≠ 0x5c) : ∃ first more, s = pipeRow (first :: more) ∧
    (∀ c ∈ first :: more, pipe ∉ c) ∧
    pipeCellsFrom [] s = ((first :: more).map strip,more.length) := by
  obtain ⟨first,more,hraw⟩ : ∃ first more, s.splitOn pipe = first :: more :=
    List.exists_cons_of_ne_nil (List.splitOnP_ne_nil _ _)
  have hrow : pipeRow (first :: more) = s := by
    rw [← hraw]
    exact List.intercalate_splitOn pipe
  have hfree : ∀ c ∈ first :: more, pipe ∉ c := fun c hc => not_mem_split (hraw ▸ hc)
  have hplain : ∀ c ∈ first :: more, unescapedPipe c = false ∧ dangling c = false := by
    intro c hc
    refine plain_cell (hfree c hc) fun d hd => hback d ?_
    rw [← hrow]
    exact mem_pipeRow hc hd
  have hscan := @scan_row first [] more (fun c hc => (hplain c hc).1)
    fun c hc => (hplain c (List.dropLast_subset _ hc)).2
  rw [hrow] at hscan
  exact ⟨first,more,hrow.symm,hfree,hscan⟩

/-- The cell in front of a first pipe is dropped. -/
theorem drop_first {first : Str} {more : List Str} (hmore : more ≠ [])
    (hfree : ∀ c ∈ first :: more, pipe ∉ c) : ∃ n kept,
      (if (str "|").isPrefixOf (pipeRow (first :: more)) then ((first :: more).map strip).drop 1
        else (first :: more).map strip) = kept.map strip ∧
      pipeRow (first :: more) = List.replicate n pipe ++ pipeRow kept ∧ ∀ c ∈ kept, pipe ∉ c := by
  rw [pipeRow_cons hmore]
  cases first with
  | nil => exact ⟨1,more,rfl,rfl,fun c hc => hfree c (List.mem_cons_of_mem _ hc)⟩
  | cons c first =>
    have hc : pipe ≠ c := fun hc => hfree _ List.mem_cons_self (hc ▸ List.mem_cons_self)
    have hstr : str "|" = [pipe] := by decide
    refine ⟨0,(c :: first) :: more,?_,?_,hfree⟩
    · simp [hstr, List.isPrefixOf, hc]
    · rw [List.replicate_zero, List.nil_append, pipeRow_cons hmore]

/-- The cell behind a last pipe is dropped. -/
theorem drop_last {kept : List Str} (hkept : kept.dropLast ≠ []) (hfree : ∀ c ∈ kept, pipe ∉ c)
    (hlast : (s ++ pipeRow kept).getLast? = some pipe) :
    pipeRow kept = pipeRow kept.dropLast ++ [pipe] := by
  have hne : kept ≠ [] := fun hnil => hkept (by rw [hnil]; rfl)
  have hrow := @pipeRow_append_last kept.dropLast (kept.getLast hne) hkept
  rw [List.dropLast_append_getLast hne] at hrow
  have hempty : kept.getLast hne = [] := by
    by_contra hfull
    rw [hrow, ← List.append_assoc, List.getLast?_append_of_ne_nil _ (List.cons_ne_nil _ _),
      List.getLast?_cons_of_ne_nil hfull] at hlast
    exact hfree _ (List.getLast_mem hne) (List.mem_of_getLast? hlast)
  rw [hrow, hempty]

/-- A text without backslashes is split at its pipes, and the outer ones are left out. -/
theorem pipeCells_plain (hback : ∀ c ∈ strip line, c.val ≠ 0x5c) (h : pipeCells line = some cells)
    (hlen : 2 ≤ cells.length) : ∃ n m pieces,
      strip line = List.replicate n pipe ++ pipeRow pieces ++ List.replicate m pipe ∧
        (∀ c ∈ pieces, pipe ∉ c) ∧ cells = pieces.map strip := by
  obtain ⟨first,more,hrow,hfree,hscan⟩ := scan_plain hback
  have hmore : more ≠ [] := by
    rintro rfl
    simp [pipeCells, hscan] at h
  rw [pipeCells_scan hscan (by simpa using hmore), Option.some.injEq] at h
  obtain ⟨n,kept,hkept,hstrip,hsub⟩ := drop_first hmore hfree
  rw [← hrow] at hkept hstrip
  simp only [hkept] at h
  by_cases hs : (str "|").isSuffixOf (strip line) = true
  · rw [if_pos hs, ← List.map_dropLast] at h
    have hinit : kept.dropLast ≠ [] := by
      intro hnil
      rw [← h, hnil] at hlen
      simp at hlen
    have hlast := pipe_suffix.1 hs
    rw [hstrip] at hlast
    refine ⟨n,1,kept.dropLast,?_,fun c hc => hsub c (List.dropLast_subset _ hc),h.symm⟩
    rw [hstrip, drop_last hinit hsub hlast, List.append_assoc]
    rfl
  · rw [if_neg hs] at h
    exact ⟨n,0,kept,by rw [hstrip, List.replicate_zero, List.append_nil],hsub,h.symm⟩

/-- A separator line has pipes, dashes, colons and spaces only. -/
theorem separator_chars {c : CodePoint} (h : isTableSeparator line = true) (hc : c ∈ line)
    (hspace : isSpace c = false) : c = pipe ∨ c.val = 0x2d ∨ c.val = 0x3a := by
  by_cases hpipe : c = pipe
  · exact Or.inl hpipe
  have hstrip : c ∈ stripPipes (strip line) := by
    have hne : decide (c = pipe) = false := decide_eq_false hpipe
    exact mem_rdropWhile (mem_dropWhile (mem_rdropWhile (mem_dropWhile hc hspace) hspace) hne) hne
  have hjoin : List.intercalate [pipe] ((stripPipes (strip line)).splitOn pipe) =
      stripPipes (strip line) := List.intercalate_splitOn pipe
  rw [← hjoin] at hstrip
  rcases mem_intercalate hstrip with hs | ⟨cell,hcell,hmem⟩
  · exact Or.inl (List.mem_singleton.1 hs)
  · rw [isTableSeparator, Bool.and_eq_true, List.all_map, List.all_eq_true] at h
    have hlike := delimiterLike_of_separator (h.2 cell hcell)
    rw [delimiterLike, Bool.and_eq_true, List.all_eq_true] at hlike
    have hchar := hlike.2 c (mem_rdropWhile (mem_dropWhile hmem hspace) hspace)
    right
    simpa using hchar

/-- What separates the two notions of a delimiter: an accepted one is a separator line of the
chunker unless it ends in an escaped pipe. -/
theorem Ruled.separator_iff (h : Ruled line) :
    isTableSeparator line = true ↔ endsEscaped line = false := by
  constructor
  · intro hseparator
    rw [Bool.eq_false_iff]
    intro he
    have hmem : (0x5c : CodePoint) ∈ strip line := by
      have hsuffix := List.isSuffixOf_iff_suffix.1 he
      exact hsuffix.subset (by decide)
    have hline : (0x5c : CodePoint) ∈ line :=
      (List.dropWhile_suffix isSpace).subset (mem_of_mem_rstrip hmem)
    have hchars := separator_chars hseparator hline (by decide)
    revert hchars
    decide
  · intro he
    have hback := fun c hc => @Ruled.no_backslash line h he c hc
    obtain ⟨cells,hcells,hlen,hall⟩ := h
    obtain ⟨n,m,pieces,hstrip,hfree,rfl⟩ := pipeCells_plain hback hcells hlen
    have hne : pieces ≠ [] := by
      rintro rfl
      simp at hlen
    have hfull : ∀ c ∈ pieces, c ≠ [] ∧ pipe ∉ c := by
      refine fun c hc => ⟨?_,hfree c hc⟩
      rintro rfl
      have hcell := hall _ (List.mem_map_of_mem hc)
      revert hcell
      decide
    obtain ⟨hrow,hfirst,hlast⟩ := pipeRow_ends hne hfull
    rw [isTableSeparator, hstrip, stripPipes_core n m hrow hfirst hlast, pipeRow,
      List.splitOn_intercalate pipe hfree hne, Bool.and_eq_true]
    exact ⟨decide_eq_true hlen,List.all_eq_true.2 hall⟩

end Delimiters

end MarkdownFormatter
end PdfBridge
