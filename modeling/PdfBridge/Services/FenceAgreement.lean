import PdfBridge.Services.MarkdownStructure

/-! Formatter and chunker on fenced blocks. The lines of the chunker carry the role that the
formatter gives the line they come from; the two agree when every line marked as fenced is
captured by a fence, no other is, and every fence ends at its closing line. -/
namespace PdfBridge
namespace MarkdownFormatter
open Unicode MarkdownChunking

/-- What a line is to the formatter's scan of fences. -/
inductive Role where
  | outside
  | opening (m : Marker)
  | inside (m : Marker)
  | closing (m : Marker)
deriving DecidableEq

/-- The line belongs to a fenced block. -/
def Role.fenced : Role → Bool
  | .outside => false
  | _ => true

/-- The roles of lines, from an open fence or outside. -/
def rolesFrom : Option Marker → List Str → List (Role × Str)
  | _, [] => []
  | none, line :: lines =>
      match formatterFence line with
      | some (marker,_) => (.opening marker,line) :: rolesFrom (some marker) lines
      | none => (.outside,line) :: rolesFrom none lines
  | some m, line :: lines =>
      if closes m line then (.closing m,line) :: rolesFrom none lines
      else (.inside m,line) :: rolesFrom (some m) lines

theorem rolesFrom_opening {l rest : Str} {m : Marker} {ls : List Str}
    (h : formatterFence l = some (m,rest)) :
    rolesFrom none (l :: ls) = (.opening m,l) :: rolesFrom (some m) ls := by
  simp only [rolesFrom, h]

theorem rolesFrom_outside {l : Str} {ls : List Str} (h : formatterFence l = none) :
    rolesFrom none (l :: ls) = (.outside,l) :: rolesFrom none ls := by
  simp only [rolesFrom, h]

/-- The role of what follows a line break inside a line. -/
def Role.afterBreak : Role → Role
  | .opening m => .inside m
  | .closing _ => .outside
  | role => role

/-- `strip` of the page, line by line. -/
def trimLeading : List (Role × Str) → List (Role × Str)
  | [] => []
  | (role,line) :: lines =>
      if isBlank line then trimLeading lines else (role,lstrip line) :: lines

def trimTrailing : List (Role × Str) → List (Role × Str)
  | [] => []
  | (role,line) :: lines =>
      match trimTrailing lines with
      | [] => if isBlank line then [] else [(role,rstrip line)]
      | line' :: lines' => (role,line) :: line' :: lines'

/-- The chunker's lines within one line of the formatter. -/
def spread (x : Role × Str) : List (Role × Str) :=
  match splitlines (x.2 ++ [newline]) with
  | [] => []
  | piece :: pieces => (x.1,piece) :: pieces.map fun piece => (x.1.afterBreak,piece)

/-- The chunker's lines with the roles that the formatter gives them. -/
def chunkerLines (markdown : Str) : List (Role × Str) :=
  (trimTrailing (trimLeading (rolesFrom none (splitNewline markdown)))).flatMap spread

/-- Whether each line is captured by a fence. -/
def fenceFlags (blocks : List (Kind × List (Role × Str))) : List Bool :=
  blocks.flatMap fun g => g.2.map fun _ => decide (g.1 = .fence)

/-- The last line of a block is a closing marker line of the formatter. -/
def EndsClosed (g : Kind × List (Role × Str)) : Prop :=
  g.1 = .fence → ∃ x m, g.2.getLast? = some x ∧ x.1 = .closing m

structure Agree (lines : List (Role × Str)) : Prop where
  flags : fenceFlags (groups Prod.snd lines) = lines.map (·.1.fenced)
  closed : ∀ g ∈ groups Prod.snd lines, EndsClosed g

/-! ### The condition on the lines -/

/-- Where a line stands with respect to a table of the chunker. -/
inductive TableState where
  | text | delimiter | rows
deriving DecidableEq

/-- The line continues a table. -/
def inTable : TableState → Str → Bool
  | .text, _ => false
  | .delimiter, _ => true
  | .rows, line => isTableRow line

/-- The table state after a line outside every fence. -/
def tableAfter (t : TableState) (x : Role × Str) (lines : List (Role × Str)) : TableState :=
  match t with
  | .delimiter => .rows
  | _ =>
      if inTable t x.2 then .rows
      else if !isBlank x.2 && (headingMatch x.2).isNone && startsTable Prod.snd (x :: lines) then
        .delimiter
      else .text

/-- A line outside the formatter's fences is no opening line of the chunker unless it continues a
table; an opening line is one and does not continue a table; and no line inside a fence begins
with its marker. -/
def Conforms : TableState → List (Role × Str) → Prop
  | _, [] => True
  | t, (.outside,line) :: lines => (inTable t line = true ∨ fenceMatch line = none) ∧
      Conforms (tableAfter t (.outside,line) lines) lines
  | t, (.opening _,line) :: lines =>
      inTable t line = false ∧ (fenceMatch line).isSome = true ∧ Conforms .text lines
  | _, (.inside m,line) :: lines => closesFence m line = false ∧ Conforms .text lines
  | _, (.closing _,_) :: lines => Conforms .text lines

/-- The order of roles in balanced text, with what the markers of fence lines look like to the
chunker. -/
def Ordered : Option Marker → List (Role × Str) → Prop
  | none, [] => True
  | some _, [] => False
  | none, (.outside,_) :: lines => Ordered none lines
  | none, (.opening m,line) :: lines =>
      (∀ m', fenceMatch line = some m' → m' = m) ∧ Ordered (some m) lines
  | some m, (.inside m',_) :: lines => m' = m ∧ Ordered (some m) lines
  | some m, (.closing m',line) :: lines =>
      m' = m ∧ closesFence m line = true ∧ Ordered none lines
  | _, _ :: _ => False

variable {x : Role × Str} {lines rest : List (Role × Str)} {g : Kind × List (Role × Str)}
  {m : Marker} {line : Str} {t : TableState}

/-! ### Groups -/

section Groups
variable {α : Type} {text : α → Str} {a : α} {as : List α}

theorem captureFence_append : (captureFence text m as).1 ++ (captureFence text m as).2 = as := by
  induction as with
  | nil => rfl
  | cons a as ih =>
    unfold captureFence
    split
    · rfl
    · simp [ih]

theorem captureRows_append : (captureRows text as).1 ++ (captureRows text as).2 = as := by
  induction as with
  | nil => rfl
  | cons a as ih =>
    unfold captureRows
    split
    · simp [ih]
    · rfl

theorem captureProse_append : (captureProse text as).1 ++ (captureProse text as).2 = as := by
  induction as with
  | nil => rfl
  | cons a as ih =>
    unfold captureProse
    split
    · rfl
    · simp [ih]

theorem nextGroup_append :
    (nextGroup text a as).1.2 ++ (nextGroup text a as).2 = a :: as := by
  unfold nextGroup
  split
  · rfl
  · split
    · rfl
    · split
      · simp [captureFence_append]
      · split
        · split
          · simp [captureRows_append]
          · simp [captureProse_append]
        · rfl

theorem nextGroup_length : (nextGroup text a as).2.length ≤ as.length := by
  have h := congrArg List.length (@nextGroup_append α text a as)
  have hne : 1 ≤ (nextGroup text a as).1.2.length := by
    unfold nextGroup
    split
    · simp
    · split
      · simp
      · split
        · simp
        · split
          · split <;> simp
          · simp
  rw [List.length_append, List.length_cons] at h
  omega

theorem groupsFrom_eq {rounds : ℕ} (h : as.length ≤ rounds) :
    groupsFrom text rounds as = groups text as := by
  unfold groups
  induction rounds using Nat.strongRecOn generalizing as with
  | ind rounds ih =>
    cases as with
    | nil => cases rounds <;> rfl
    | cons a as =>
      cases rounds with
      | zero => simp at h
      | succ rounds =>
        have hlen := @nextGroup_length α text a as
        simp only [List.length_cons] at h ⊢
        simp only [groupsFrom, List.cons.injEq, true_and]
        rw [ih rounds (Nat.lt_succ_self _) (by omega)]
        rw [← ih as.length (by omega) hlen]

theorem groups_cons : groups text (a :: as) =
    (nextGroup text a as).1 :: groups text (nextGroup text a as).2 := by
  unfold groups
  simp only [List.length_cons, groupsFrom, List.cons.injEq, true_and]
  exact groupsFrom_eq nextGroup_length

end Groups

/-! ### One group at a time -/

/-- A group agrees with the roles of its lines. -/
structure GroupAgrees (g : Kind × List (Role × Str)) : Prop where
  flags : ∀ x ∈ g.2, decide (g.1 = .fence) = x.1.fenced
  closed : EndsClosed g

theorem agree_nil : Agree [] := ⟨rfl,fun _ h => by cases h⟩

theorem agree_cons : Agree (x :: lines) ↔ GroupAgrees (nextGroup Prod.snd x lines).1 ∧
    Agree (nextGroup Prod.snd x lines).2 := by
  have happend := @nextGroup_append _ Prod.snd x lines
  have hsplit : fenceFlags (groups Prod.snd (x :: lines)) = (x :: lines).map (·.1.fenced) ↔
      (∀ y ∈ (nextGroup Prod.snd x lines).1.2,
        decide ((nextGroup Prod.snd x lines).1.1 = .fence) = y.1.fenced) ∧
      fenceFlags (groups Prod.snd (nextGroup Prod.snd x lines).2) =
        (nextGroup Prod.snd x lines).2.map (·.1.fenced) := by
    rw [groups_cons, ← happend, fenceFlags, List.flatMap_cons, List.map_append]
    constructor
    · intro h
      obtain ⟨hflags,hrest⟩ := List.append_inj h (by simp)
      exact ⟨List.map_inj_left.1 hflags,hrest⟩
    · rintro ⟨hflags,hrest⟩
      rw [List.map_inj_left.2 hflags]
      exact congrArg _ hrest
  constructor
  · rintro ⟨hflags,hclosed⟩
    rw [groups_cons, List.forall_mem_cons] at hclosed
    obtain ⟨hgroup,hrest⟩ := hsplit.1 hflags
    exact ⟨⟨hgroup,hclosed.1⟩,hrest,hclosed.2⟩
  · rintro ⟨⟨hgroup,hg⟩,hrest,hclosed⟩
    refine ⟨hsplit.2 ⟨hgroup,hrest⟩,?_⟩
    rw [groups_cons]
    exact List.forall_mem_cons.2 ⟨hg,hclosed⟩

/-- A group outside fences agrees when all its lines are outside. -/
theorem groupAgrees_iff (h : g.1 ≠ .fence) :
    GroupAgrees g ↔ ∀ y ∈ g.2, y.1.fenced = false := by
  constructor
  · intro hg y hy
    rw [← hg.flags y hy]
    exact decide_eq_false h
  · intro hall
    refine ⟨fun y hy => ?_,fun hf => absurd hf h⟩
    rw [hall y hy]
    exact decide_eq_false h

theorem fenceMatch_of_isBlank (h : isBlank line = true) : fenceMatch line = none := by
  have hrun : markerRun (line.dropWhile isBlankOrTab) = none := by
    cases hd : line.dropWhile isBlankOrTab with
    | nil => rfl
    | cons c s =>
      have hc : c ∈ line := (List.dropWhile_suffix isBlankOrTab).subset (hd ▸ List.mem_cons_self)
      have hspace := List.all_eq_true.1 h c hc
      have hne : ¬ (c = backtick ∨ c = tilde) := by
        rintro (rfl | rfl) <;> revert hspace <;> decide
      simp [markerRun, hne]
  rw [fenceMatch, hrun]

theorem fenceMatch_of_heading (h : (headingMatch line).isSome = true) :
    fenceMatch line = none := by
  cases line with
  | nil => rfl
  | cons c s =>
    by_cases hc : c = hash
    · subst hc
      have hdrop : (hash :: s).dropWhile isBlankOrTab = hash :: s := by
        rw [List.dropWhile_cons_of_neg (by decide)]
      have hne : ¬ (hash = backtick ∨ hash = tilde) := by decide
      simp [fenceMatch, hdrop, markerRun, hne]
    · exfalso
      have hrun : leadingRun hash (c :: s) = 0 := by simp [leadingRun, hc]
      unfold headingMatch at h
      rw [hrun] at h
      simp only [List.drop_zero] at h
      split at h
      · simp at h
      · cases h

theorem Ordered.of_append (h : Ordered none (lines ++ rest))
    (hall : ∀ y ∈ lines, y.1.fenced = false) : Ordered none rest := by
  induction lines with
  | nil => exact h
  | cons y lines ih =>
    rw [List.forall_mem_cons] at hall
    obtain ⟨role,l⟩ := y
    cases role with
    | outside => exact ih h hall.2
    | _ => cases hall.1

/-- The table state does not matter for a line that is no table row. -/
theorem conforms_rows_iff (h : ∀ y ∈ lines.head?, isTableRow y.2 = false) :
    Conforms .rows lines ↔ Conforms .text lines := by
  cases lines with
  | nil => exact Iff.rfl
  | cons y lines =>
    have hy : isTableRow y.2 = false := h y rfl
    obtain ⟨role,l⟩ := y
    cases role with
    | outside => simp [Conforms, inTable, hy, tableAfter]
    | opening m => simp [Conforms, inTable, hy]
    | inside m => exact Iff.rfl
    | closing m => exact Iff.rfl

/-- Table rows conform when they are all outside fences. -/
theorem conforms_rows (h : Ordered none lines) : Conforms .rows lines ↔
    (∀ y ∈ (captureRows Prod.snd lines).1, y.1.fenced = false) ∧
      Conforms .text (captureRows Prod.snd lines).2 := by
  induction lines with
  | nil => simp [captureRows, Conforms]
  | cons y lines ih =>
    by_cases hrow : isTableRow y.2 = true
    · obtain ⟨role,l⟩ := y
      simp only [captureRows, hrow, if_true, List.forall_mem_cons]
      cases role with
      | outside =>
        have hstate : tableAfter .rows (.outside,l) lines = .rows := by
          simp [tableAfter, inTable, hrow]
        simp only [Conforms, inTable, hrow, true_or, true_and, hstate, Role.fenced]
        exact ih h
      | opening m => simp [Conforms, inTable, hrow, Role.fenced]
      | inside m => cases h
      | closing m => cases h
    · rw [conforms_rows_iff (fun z hz => by
        cases hz
        exact Bool.eq_false_iff.2 hrow)]
      simp [captureRows, hrow]

/-- Prose lines conform when they are all outside fences. -/
theorem conforms_prose (h : Ordered none lines) : Conforms .text lines ↔
    (∀ y ∈ (captureProse Prod.snd lines).1, y.1.fenced = false) ∧
      Conforms .text (captureProse Prod.snd lines).2 := by
  induction lines with
  | nil => simp [captureProse, Conforms]
  | cons y lines ih =>
    unfold captureProse
    split
    · simp
    · rename_i hstop
      simp only [Bool.or_eq_true, not_or, Bool.not_eq_true, Option.isSome_eq_false_iff,
        Option.isNone_iff_eq_none] at hstop
      obtain ⟨⟨⟨-,-⟩,hfence⟩,htable⟩ := hstop
      obtain ⟨role,l⟩ := y
      simp only [List.forall_mem_cons]
      cases role with
      | outside =>
        have hstate : tableAfter .text (.outside,l) lines = .text := by
          simp [tableAfter, inTable, htable]
        simp only [Conforms, hfence, or_true, true_and, hstate, Role.fenced]
        exact ih h
      | opening m => simp [Conforms, show fenceMatch l = none from hfence, Role.fenced]
      | inside m => cases h
      | closing m => cases h

/-- An open fence in balanced text is closed by its first closing line. -/
theorem Ordered.closing (h : Ordered (some m) lines) : ∃ inner last rest,
    lines = inner ++ last :: rest ∧ (∀ y ∈ inner, y.1 = .inside m) ∧ last.1 = .closing m ∧
    closesFence m last.2 = true ∧ Ordered none rest := by
  induction lines with
  | nil => cases h
  | cons y lines ih =>
    obtain ⟨role,l⟩ := y
    cases role with
    | inside m' =>
      obtain ⟨rfl,h⟩ := h
      obtain ⟨inner,last,rest,rfl,hinner,hlast,hcloses,hrest⟩ := ih h
      exact ⟨_ :: inner,last,rest,rfl,List.forall_mem_cons.2 ⟨rfl,hinner⟩,hlast,hcloses,hrest⟩
    | closing m' =>
      obtain ⟨rfl,hcloses,h⟩ := h
      exact ⟨[],_,lines,rfl,by simp,rfl,hcloses,h⟩
    | outside => cases h
    | opening => cases h

theorem conforms_inner {inner : List (Role × Str)} {last : Role × Str}
    (hinner : ∀ y ∈ inner, y.1 = .inside m) (hlast : last.1 = .closing m) :
    Conforms .text (inner ++ last :: rest) ↔
      (∀ y ∈ inner, closesFence m y.2 = false) ∧ Conforms .text rest := by
  induction inner with
  | nil =>
    obtain ⟨role,l⟩ := last
    cases hlast
    simp [Conforms]
  | cons y inner ih =>
    rw [List.forall_mem_cons] at hinner
    obtain ⟨role,l⟩ := y
    obtain ⟨rfl,hinner⟩ := hinner
    simp only [List.cons_append, Conforms, List.forall_mem_cons, ih hinner, and_assoc]

/-- A fence ends at its closing line when no inner line begins with its marker. -/
theorem captureFence_closing {inner : List (Role × Str)} {last : Role × Str}
    (hinner : ∀ y ∈ inner, closesFence m y.2 = false) (hlast : closesFence m last.2 = true) :
    captureFence Prod.snd m (inner ++ last :: rest) = (inner ++ [last],rest) := by
  induction inner with
  | nil => simp [captureFence, hlast]
  | cons y inner ih =>
    rw [List.forall_mem_cons] at hinner
    simp [captureFence, hinner.1, ih hinner.2]

/-- Otherwise it ends at an inner line. -/
theorem captureFence_inner {inner : List (Role × Str)} {tail : List (Role × Str)}
    (h : ∃ y ∈ inner, closesFence m y.2 = true) :
    ∃ x ∈ inner, (captureFence Prod.snd m (inner ++ tail)).1.getLast? = some x := by
  induction inner with
  | nil =>
    obtain ⟨y,hy,-⟩ := h
    cases hy
  | cons y inner ih =>
    by_cases hy : closesFence m y.2 = true
    · exact ⟨y,List.mem_cons_self,by simp [captureFence, hy]⟩
    · obtain ⟨z,hz,hc⟩ := h
      rcases List.mem_cons.1 hz with rfl | hz
      · exact absurd hc hy
      · obtain ⟨x,hx,hlast⟩ := ih ⟨z,hz,hc⟩
        refine ⟨x,List.mem_cons_of_mem _ hx,?_⟩
        simp only [List.cons_append, captureFence, hy, Bool.false_eq_true, if_false]
        rw [List.getLast?_cons, hlast]
        rfl

/-- A fence that opens with the formatter's agrees when no line inside begins with its marker. -/
theorem agree_fence {inner : List (Role × Str)} {last : Role × Str} (hx : x.1 = .opening m)
    (hinner : ∀ y ∈ inner, y.1 = .inside m) (hlast : last.1 = .closing m)
    (hcloses : closesFence m last.2 = true) :
    (GroupAgrees (.fence,x :: (captureFence Prod.snd m (inner ++ last :: rest)).1) ∧
        Agree (captureFence Prod.snd m (inner ++ last :: rest)).2) ↔
      (∀ y ∈ inner, closesFence m y.2 = false) ∧ Agree rest := by
  by_cases hquiet : ∀ y ∈ inner, closesFence m y.2 = false
  · rw [captureFence_closing hquiet hcloses]
    have hgroup : GroupAgrees (.fence,x :: (inner ++ [last])) := by
      constructor
      · intro y hy
        simp only [List.mem_cons, List.mem_append, List.not_mem_nil, or_false] at hy
        rcases hy with rfl | hy | rfl
        · rw [hx]
          rfl
        · rw [hinner y hy]
          rfl
        · rw [hlast]
          rfl
      · intro _
        exact ⟨last,m,by simp [List.getLast?_cons],hlast⟩
    exact ⟨fun h => ⟨hquiet,h.2⟩,fun h => ⟨hgroup,h.2⟩⟩
  · constructor
    · rintro ⟨⟨-,hclosed⟩,-⟩
      have hinner' : ∃ y ∈ inner, closesFence m y.2 = true := by
        by_contra hno
        exact hquiet fun y hy => Bool.eq_false_iff.2 fun hc => hno ⟨y,hy,hc⟩
      obtain ⟨z,hz,hz'⟩ := @captureFence_inner m inner (last :: rest) hinner'
      obtain ⟨y,m',hy,hrole⟩ := hclosed rfl
      rw [List.getLast?_cons, hz'] at hy
      cases hy
      rw [Option.getD_some, hinner z hz] at hrole
      cases hrole
    · rintro ⟨h,-⟩
      exact absurd h hquiet

theorem nextGroup_head : x ∈ (nextGroup Prod.snd x lines).1.2 := by
  unfold nextGroup
  split
  · simp
  · split
    · simp
    · split
      · simp
      · split
        · split <;> simp
        · simp

/-- Exactly the opening lines of the chunker open a fence. -/
theorem nextGroup_fence : (nextGroup Prod.snd x lines).1.1 = .fence ↔
    (fenceMatch x.2).isSome = true := by
  unfold nextGroup
  split
  · rename_i hb
    simp [fenceMatch_of_isBlank hb]
  · split
    · rename_i hh
      simp [fenceMatch_of_heading hh]
    · split
      · rename_i m hm
        simp [hm]
      · rename_i hm
        split
        · split <;> simp [hm]
        · simp [hm]

/-- The first line of an agreeing group is an opening line for both or for none. -/
theorem GroupAgrees.head (h : GroupAgrees (nextGroup Prod.snd x lines).1) :
    (fenceMatch x.2).isSome = x.1.fenced := by
  rw [← h.flags x nextGroup_head, Bool.eq_iff_iff, decide_eq_true_eq, nextGroup_fence]

/-- A group that opens outside fences, against the table state after its first line. -/
theorem conforms_outside (h : Ordered none lines) (hfence : fenceMatch line = none) :
    GroupAgrees (nextGroup Prod.snd (.outside,line) lines).1 ∧
        Conforms .text (nextGroup Prod.snd (.outside,line) lines).2 ↔
      Conforms (tableAfter .text (.outside,line) lines) lines := by
  by_cases hblank : isBlank line = true
  · have hgroup : nextGroup Prod.snd (.outside,line) lines = ((.blank,[(.outside,line)]),lines) := by
      simp [nextGroup, hblank]
    have hstate : tableAfter .text (.outside,line) lines = .text := by
      simp [tableAfter, inTable, hblank]
    rw [hgroup, hstate, groupAgrees_iff (fun hk => by cases hk)]
    simp [Role.fenced]
  · by_cases hheading : (headingMatch line).isSome = true
    · have hgroup : nextGroup Prod.snd (.outside,line) lines =
          ((.heading,[(.outside,line)]),lines) := by
        simp [nextGroup, hblank, hheading]
      have hstate : tableAfter .text (.outside,line) lines = .text := by
        simp [tableAfter, inTable, Option.isNone_iff_eq_none, Option.isSome_iff_ne_none.1 hheading]
      rw [hgroup, hstate, groupAgrees_iff (fun hk => by cases hk)]
      simp [Role.fenced]
    · have hnone : headingMatch line = none := by
        simpa using hheading
      cases lines with
      | nil => simp [nextGroup, hblank, hnone, hfence, groupAgrees_iff, Role.fenced, Conforms]
      | cons next rest =>
        by_cases htable : isTableStart line next.2 = true
        · have hstate : tableAfter .text (.outside,line) (next :: rest) = .delimiter := by
            simp [tableAfter, inTable, hblank, hnone, startsTable, htable]
          have hgroup : nextGroup Prod.snd (.outside,line) (next :: rest) =
              ((.table,(.outside,line) :: next :: (captureRows Prod.snd rest).1),
                (captureRows Prod.snd rest).2) := by
            simp [nextGroup, hblank, hnone, hfence, htable]
          rw [hstate, hgroup, groupAgrees_iff (fun hk => by cases hk)]
          obtain ⟨role,l⟩ := next
          cases role with
          | outside =>
            have hafter : tableAfter .delimiter (.outside,l) rest = .rows := rfl
            have hrest : Ordered none rest := h
            rw [Conforms, hafter, conforms_rows hrest]
            simp [Role.fenced, inTable]
          | opening m => simp [Role.fenced, Conforms, inTable]
          | inside => cases h
          | closing => cases h
        · have hstate : tableAfter .text (.outside,line) (next :: rest) = .text := by
            simp [tableAfter, inTable, startsTable, htable]
          have hgroup : nextGroup Prod.snd (.outside,line) (next :: rest) =
              ((.prose,(.outside,line) :: (captureProse Prod.snd (next :: rest)).1),
                (captureProse Prod.snd (next :: rest)).2) := by
            simp [nextGroup, hblank, hnone, hfence, htable]
          rw [hstate, hgroup, groupAgrees_iff (fun hk => by cases hk), conforms_prose h]
          simp [Role.fenced]

/-- Formatter and chunker agree on ordered lines exactly when the lines conform. -/
theorem agree_iff (h : Ordered none lines) : Agree lines ↔ Conforms .text lines := by
  induction hn : lines.length using Nat.strongRecOn generalizing lines with
  | ind n ih =>
    cases lines with
    | nil => exact ⟨fun _ => trivial,fun _ => agree_nil⟩
    | cons x lines =>
      subst hn
      have next : ∀ {rest : List (Role × Str)}, Ordered none rest →
          rest.length ≤ lines.length → (Agree rest ↔ Conforms .text rest) :=
        fun hr hlen => ih _ (Nat.lt_succ_of_le hlen) hr rfl
      rw [agree_cons]
      obtain ⟨role,l⟩ := x
      cases role with
      | outside =>
        have hordered : Ordered none lines := h
        by_cases hfence : (fenceMatch l).isSome = true
        · -- the chunker opens a fence where the formatter sees none
          constructor
          · rintro ⟨hg,-⟩
            rw [hg.head] at hfence
            cases hfence
          · rintro ⟨hc | hc,-⟩
            · cases hc
            · rw [hc] at hfence
              cases hfence
        · rw [Option.not_isSome_iff_eq_none] at hfence
          simp only [Conforms, hfence, or_true, true_and]
          rw [← conforms_outside hordered hfence]
          apply and_congr_right
          intro hg
          have hkind : (nextGroup Prod.snd (.outside,l) lines).1.1 ≠ .fence := by
            rw [Ne, nextGroup_fence, hfence]
            decide
          have hrest : Ordered none (nextGroup Prod.snd (.outside,l) lines).2 :=
            Ordered.of_append (by rw [nextGroup_append]; exact h) ((groupAgrees_iff hkind).1 hg)
          exact next hrest nextGroup_length
      | opening m =>
        obtain ⟨hmarker,hordered⟩ := h
        by_cases hfence : (fenceMatch l).isSome = true
        · obtain ⟨m',hm⟩ := Option.isSome_iff_exists.1 hfence
          cases hmarker m' hm
          have hblank : isBlank l = false := by
            rw [Bool.eq_false_iff]
            intro hb
            rw [fenceMatch_of_isBlank hb] at hm
            cases hm
          have hheading : (headingMatch l).isSome = false := by
            rw [Bool.eq_false_iff]
            intro hh
            rw [fenceMatch_of_heading hh] at hm
            cases hm
          have hgroup : nextGroup Prod.snd (.opening m,l) lines =
              ((.fence,(.opening m,l) :: (captureFence Prod.snd m lines).1),
                (captureFence Prod.snd m lines).2) := by
            simp [nextGroup, hblank, hheading, hm]
          obtain ⟨inner,last,rest,rfl,hinner,hlast,hcloses,hrest⟩ := hordered.closing
          rw [hgroup, agree_fence rfl hinner hlast hcloses,
            next hrest (by simp only [List.length_append, List.length_cons]; omega)]
          simp only [Conforms, inTable, hfence, true_and, conforms_inner hinner hlast]
        · constructor
          · rintro ⟨hg,-⟩
            exact absurd hg.head hfence
          · rintro ⟨-,hc,-⟩
            exact absurd hc hfence
      | inside => cases h
      | closing => cases h

/-! ### The lines of balanced text are ordered -/

/-- A line that begins with a marker after at most some spaces. -/
structure Marked (m : Marker) (line : Str) : Prop where
  split : ∃ indent rest, line = indent ++ (List.replicate m.length m.char ++ rest) ∧
    (∀ c ∈ indent, c = 0x20) ∧ ∀ c ∈ rest.head?, c ≠ m.char
  long : 3 ≤ m.length
  char : m.char = backtick ∨ m.char = tilde

theorem leadingRun_split (c : CodePoint) (s : Str) :
    s = List.replicate (leadingRun c s) c ++ s.drop (leadingRun c s) ∧
      ∀ x ∈ (s.drop (leadingRun c s)).head?, x ≠ c := by
  induction s with
  | nil => simp [leadingRun]
  | cons a s ih =>
    by_cases h : a = c
    · have hrun : leadingRun c (a :: s) = leadingRun c s + 1 := by simp [leadingRun, h]
      rw [hrun, h, List.replicate_succ, List.drop_succ_cons, List.cons_append, ← ih.1]
      exact ⟨rfl,ih.2⟩
    · have hrun : leadingRun c (a :: s) = 0 := by simp [leadingRun, h]
      rw [hrun]
      refine ⟨rfl,fun x hx => ?_⟩
      cases hx
      exact h

theorem leadingRun_replicate {c : CodePoint} {k : ℕ} {s : Str} (h : ∀ x ∈ s.head?, x ≠ c) :
    leadingRun c (List.replicate k c ++ s) = k := by
  induction k with
  | zero =>
    cases s with
    | nil => rfl
    | cons a s => simp [leadingRun, h a rfl]
  | succ k ih =>
    rw [List.replicate_succ, List.cons_append]
    simp only [leadingRun, decide_true, List.takeWhile_cons_of_pos, List.length_cons]
    exact congrArg Nat.succ ih

theorem marked_of_formatterFence {rest : Str} (h : formatterFence line = some (m,rest)) :
    Marked m line := by
  unfold formatterFence at h
  simp only at h
  split at h
  · obtain ⟨hsplit,-⟩ := leadingRun_split 0x20 line
    generalize line.drop (leadingRun 0x20 line) = body at h hsplit
    cases body with
    | nil => cases h
    | cons c s =>
      simp only [markerRun] at h
      split at h
      · rename_i hmarker
        cases h
        obtain ⟨hrun,hrest⟩ := leadingRun_split c (c :: s)
        refine ⟨⟨List.replicate (leadingRun 0x20 line) 0x20,_,?_,
          fun x hx => List.eq_of_mem_replicate hx,hrest⟩,hmarker.2,hmarker.1⟩
        rw [← hrun]
        exact hsplit
      · cases h
  · cases h

theorem Marked.ne_nil (h : Marked m line) : isBlank line = false := by
  obtain ⟨⟨indent,rest,rfl,-,-⟩,hlong,hchar⟩ := h
  have hmem : m.char ∈ List.replicate m.length m.char := by
    simp only [List.mem_replicate, and_true]
    omega
  rw [isBlank, List.all_eq_false]
  refine ⟨m.char,by simp [hmem],?_⟩
  rcases hchar with hc | hc <;> rw [hc] <;> decide

theorem Marked.lstrip (h : Marked m line) : Marked m (lstrip line) := by
  obtain ⟨⟨indent,rest,rfl,hindent,hrest⟩,hlong,hchar⟩ := h
  refine ⟨⟨[],rest,?_,by simp,hrest⟩,hlong,hchar⟩
  have hspace : ∀ c ∈ indent, isSpace c = true := by
    intro c hc
    rw [hindent c hc]
    decide
  obtain ⟨k,hk⟩ : ∃ k, m.length = k + 1 := ⟨m.length - 1,by omega⟩
  rw [Unicode.lstrip, List.dropWhile_append_of_pos hspace, hk, List.replicate_succ,
    List.cons_append, List.dropWhile_cons_of_neg]
  · rfl
  · rcases hchar with hc | hc <;> rw [hc] <;> decide

theorem Marked.takeWhile (h : Marked m line) :
    Marked m (line.takeWhile fun c => !isLineBreak c) := by
  obtain ⟨⟨indent,rest,rfl,hindent,hrest⟩,hlong,hchar⟩ := h
  refine ⟨⟨indent,rest.takeWhile fun c => !isLineBreak c,?_,hindent,?_⟩,hlong,hchar⟩
  · rw [List.takeWhile_append_of_pos, List.takeWhile_append_of_pos]
    · intro c hc
      rw [List.eq_of_mem_replicate hc]
      rcases hchar with hc | hc <;> rw [hc] <;> decide
    · intro c hc
      rw [hindent c hc]
      decide
  · intro c hc
    cases rest with
    | nil => cases hc
    | cons a rest =>
      rw [List.takeWhile_cons] at hc
      split at hc
      · exact hrest c hc
      · cases hc

theorem Marked.rstrip (h : Marked m line) : Marked m (rstrip line) := by
  obtain ⟨⟨indent,rest,rfl,hindent,hrest⟩,hlong,hchar⟩ := h
  refine ⟨⟨indent,Unicode.rstrip rest,?_,hindent,?_⟩,hlong,hchar⟩
  · obtain ⟨k,hk⟩ : ∃ k, m.length = k + 1 := ⟨m.length - 1,by omega⟩
    have hmarker : ¬ isSpace m.char = true := by
      rcases hchar with hc | hc <;> rw [hc] <;> decide
    rw [← List.append_assoc, rstrip_append]
    by_cases hr : Unicode.rstrip rest = []
    · rw [if_pos hr, hr, hk, List.replicate_succ', ← List.append_assoc, Unicode.rstrip,
        List.rdropWhile_concat_neg _ _ _ hmarker]
      simp
    · rw [if_neg hr, List.append_assoc]
  · intro c hc
    obtain ⟨t,ht⟩ := List.rdropWhile_prefix isSpace rest
    refine hrest c ?_
    rw [← ht]
    cases hr : rest.rdropWhile isSpace with
    | nil =>
      rw [Unicode.rstrip, hr] at hc
      cases hc
    | cons a s =>
      rw [Unicode.rstrip, hr] at hc
      exact hc

/-- The chunker reads the same marker from the line, if it reads any. -/
theorem Marked.fenceMatch_eq {m' : Marker} (h : Marked m line) (hm : fenceMatch line = some m') :
    m' = m := by
  obtain ⟨⟨indent,rest,rfl,hindent,hrest⟩,hlong,hchar⟩ := h
  have hspace : ∀ c ∈ indent, isBlankOrTab c = true := by
    intro c hc
    rw [hindent c hc]
    decide
  obtain ⟨k,hk⟩ : ∃ k, m.length = k + 1 := ⟨m.length - 1,by omega⟩
  have hbody : (indent ++ (List.replicate m.length m.char ++ rest)).dropWhile isBlankOrTab =
      m.char :: (List.replicate k m.char ++ rest) := by
    rw [List.dropWhile_append_of_pos hspace, hk, List.replicate_succ, List.cons_append,
      List.dropWhile_cons_of_neg]
    rcases hchar with hc | hc <;> rw [hc] <;> decide
  have hrun : leadingRun m.char (m.char :: (List.replicate k m.char ++ rest)) = m.length := by
    rw [← List.cons_append, ← List.replicate_succ, ← hk]
    exact leadingRun_replicate hrest
  simp only [fenceMatch, hbody, markerRun, hrun, hchar, hlong, true_and, if_true] at hm
  split at hm
  · cases hm
  · cases hm
    rfl

/-- The chunker closes a fence at a line with a marker of its character that is no shorter. -/
theorem Marked.closesFence {m' : Marker} (h : Marked m' line) (hchar : m'.char = m.char)
    (hlong : m.length ≤ m'.length) : closesFence m line = true := by
  obtain ⟨⟨indent',rest',rfl,hindent',-⟩,hlong',hchar'⟩ := h
  have hspace : ∀ c ∈ indent', isSpace c = true := by
    intro c hc
    rw [hindent' c hc]
    decide
  obtain ⟨k,hk⟩ : ∃ k, m'.length = k + 1 := ⟨m'.length - 1,by omega⟩
  have hstrip : Unicode.lstrip (indent' ++ (List.replicate m'.length m'.char ++ rest')) =
      List.replicate m'.length m'.char ++ rest' := by
    rw [Unicode.lstrip, List.dropWhile_append_of_pos hspace, hk, List.replicate_succ,
      List.cons_append, List.dropWhile_cons_of_neg]
    rcases hchar' with hc | hc <;> rw [hc] <;> decide
  rw [MarkdownChunking.closesFence, hstrip, List.isPrefixOf_iff_prefix, ← hchar]
  have hfront : List.replicate m.length m'.char <+: List.replicate m'.length m'.char := by
    refine ⟨List.replicate (m'.length - m.length) m'.char,?_⟩
    rw [List.replicate_append_replicate, Nat.add_sub_cancel' hlong]
  exact hfront.trans (List.prefix_append _ _)

/-- The order of roles in balanced text, with what the formatter knows of fence lines. -/
def Scanned : Option Marker → List (Role × Str) → Prop
  | none, [] => True
  | some _, [] => False
  | none, (.outside,_) :: lines => Scanned none lines
  | none, (.opening m,line) :: lines => Marked m line ∧ Scanned (some m) lines
  | some m, (.inside m',_) :: lines => m' = m ∧ Scanned (some m) lines
  | some m, (.closing m',line) :: lines => m' = m ∧
      (∃ k, Marked k line ∧ k.char = m.char ∧ m.length ≤ k.length) ∧ Scanned none lines
  | _, _ :: _ => False

variable {fence : Option Marker}

theorem rolesFrom_scanned {ls : List Str} {out : List (Option Str)}
    (h : outsideFenceFrom fence ls = .ok out) : Scanned fence (rolesFrom fence ls) := by
  induction ls generalizing fence out with
  | nil =>
    cases fence with
    | none => trivial
    | some m => cases h
  | cons l ls ih =>
    cases fence with
    | none =>
      unfold outsideFenceFrom at h
      split at h
      · rename_i m rest hm
        rw [rolesFrom_opening hm]
        cases hrest : outsideFenceFrom (some m) ls with
        | error e =>
          rw [hrest] at h
          cases h
        | ok out' => exact ⟨marked_of_formatterFence hm,ih hrest⟩
      · rename_i hm
        rw [rolesFrom_outside hm]
        cases hrest : outsideFenceFrom none ls with
        | error e =>
          rw [hrest] at h
          cases h
        | ok out' => exact ih hrest
    | some m =>
      unfold outsideFenceFrom at h
      unfold rolesFrom
      by_cases hc : closes m l = true
      · rw [if_pos hc] at h ⊢
        cases hrest : outsideFenceFrom none ls with
        | error e =>
          rw [hrest] at h
          cases h
        | ok out' =>
          refine ⟨rfl,?_,ih hrest⟩
          unfold closes at hc
          split at hc
          · rename_i k rest hk
            simp only [Bool.and_eq_true, decide_eq_true_eq] at hc
            exact ⟨k,marked_of_formatterFence hk,hc.1.1,hc.1.2⟩
          · cases hc
      · rw [if_neg hc] at h ⊢
        cases hrest : outsideFenceFrom (some m) ls with
        | error e =>
          rw [hrest] at h
          cases h
        | ok out' => exact ⟨rfl,ih hrest⟩

theorem Scanned.trimLeading (h : Scanned none lines) : Scanned none (trimLeading lines) := by
  induction lines with
  | nil => exact h
  | cons x lines ih =>
    obtain ⟨role,l⟩ := x
    unfold MarkdownFormatter.trimLeading
    cases role with
    | outside =>
      split
      · exact ih h
      · exact h
    | opening m =>
      obtain ⟨hm,hrest⟩ := h
      rw [if_neg (by rw [hm.ne_nil]; decide)]
      exact ⟨hm.lstrip,hrest⟩
    | inside => cases h
    | closing => cases h

theorem Scanned.trimTrailing (h : Scanned fence lines) :
    Scanned fence (trimTrailing lines) := by
  induction lines generalizing fence with
  | nil => exact h
  | cons x lines ih =>
    obtain ⟨role,l⟩ := x
    unfold MarkdownFormatter.trimTrailing
    cases fence with
    | none =>
      cases role with
      | outside =>
        have hrest := ih (show Scanned none lines from h)
        split
        · split
          · trivial
          · trivial
        · rename_i heq
          rw [heq] at hrest
          exact hrest
      | opening m =>
        have hrest := ih h.2
        split
        · rename_i heq
          rw [heq] at hrest
          cases hrest
        · rename_i heq
          rw [heq] at hrest
          exact ⟨h.1,hrest⟩
      | inside => cases h
      | closing => cases h
    | some m =>
      cases role with
      | outside => cases h
      | opening => cases h
      | inside m' =>
        have hrest := ih h.2
        split
        · rename_i heq
          rw [heq] at hrest
          cases hrest
        · rename_i heq
          rw [heq] at hrest
          exact ⟨h.1,hrest⟩
      | closing m' =>
        obtain ⟨rfl,⟨k,hk,hchar,hlong⟩,hlines⟩ := h
        have hrest := ih hlines
        split
        · rw [if_neg (by rw [hk.ne_nil]; decide)]
          exact ⟨rfl,⟨k,hk.rstrip,hchar,hlong⟩,trivial⟩
        · rename_i heq
          rw [heq] at hrest
          exact ⟨rfl,⟨k,hk,hchar,hlong⟩,hrest⟩

/-- The first of the chunker's lines within a line. -/
theorem splitlines_first (l : Str) : ∃ pieces,
    splitlines (l ++ [newline]) = (l.takeWhile fun c => !isLineBreak c) :: pieces := by
  induction l with
  | nil => exact ⟨[],by decide⟩
  | cons c l ih =>
    obtain ⟨pieces,hpieces⟩ := ih
    cases hl : l ++ [newline] with
    | nil => simp at hl
    | cons c' s =>
      rw [hl] at hpieces
      rw [List.cons_append, hl, splitlines]
      by_cases hc : isLineBreak c = true
      · rw [if_pos hc]
        split
        · exact ⟨splitlines s,by simp [hc]⟩
        · exact ⟨splitlines (c' :: s),by simp [hc]⟩
      · rw [if_neg hc, hpieces]
        exact ⟨pieces,by simp [consLine, hc]⟩

theorem ordered_outside {pieces : List Str} (h : Ordered none rest) :
    Ordered none ((pieces.map fun p => (Role.outside,p)) ++ rest) := by
  induction pieces with
  | nil => exact h
  | cons p pieces ih => exact ih

theorem ordered_inside {pieces : List Str} (h : Ordered (some m) rest) :
    Ordered (some m) ((pieces.map fun p => (Role.inside m,p)) ++ rest) := by
  induction pieces with
  | nil => exact h
  | cons p pieces ih => exact ⟨rfl,ih⟩

theorem Scanned.spread (h : Scanned fence lines) : Ordered fence (lines.flatMap spread) := by
  induction lines generalizing fence with
  | nil => cases fence <;> exact h
  | cons x lines ih =>
    obtain ⟨role,l⟩ := x
    obtain ⟨pieces,hpieces⟩ := splitlines_first l
    rw [List.flatMap_cons, MarkdownFormatter.spread]
    simp only [hpieces, List.cons_append]
    cases fence with
    | none =>
      cases role with
      | outside => exact ordered_outside (ih h)
      | opening m =>
        exact ⟨fun m' hm' => h.1.takeWhile.fenceMatch_eq hm',ordered_inside (ih h.2)⟩
      | inside => cases h
      | closing => cases h
    | some m =>
      cases role with
      | outside => cases h
      | opening => cases h
      | inside m' =>
        obtain ⟨rfl,h⟩ := h
        exact ⟨rfl,ordered_inside (ih h)⟩
      | closing m' =>
        obtain ⟨rfl,⟨k,hk,hchar,hlong⟩,h⟩ := h
        exact ⟨rfl,hk.takeWhile.closesFence hchar hlong,ordered_outside (ih h)⟩

theorem chunkerLines_ordered {markdown : Str} {out : List (Option Str)}
    (h : outsideFenceLines markdown = .ok out) : Ordered none (chunkerLines markdown) :=
  (rolesFrom_scanned h).trimLeading.trimTrailing.spread

/-! ### The lines with roles are the chunker's lines -/

/-- The text of lines with roles. -/
def joined (lines : List (Role × Str)) : Str := joinLines (lines.map Prod.snd)

theorem joined_single (role : Role) (l : Str) : joined [(role,l)] = l := by
  simp [joined, joinLines]

theorem joined_cons (role : Role) (l : Str) (h : lines ≠ []) :
    joined ((role,l) :: lines) = l ++ newline :: joined lines := by
  cases lines with
  | nil => exact absurd rfl h
  | cons y lines => simp [joined, joinLines, List.intercalate]

theorem rolesFrom_lines (fence : Option Marker) (ls : List Str) :
    (rolesFrom fence ls).map Prod.snd = ls := by
  induction ls generalizing fence with
  | nil => cases fence <;> rfl
  | cons l ls ih =>
    cases fence with
    | none =>
      unfold rolesFrom
      split <;> simp [ih]
    | some m =>
      unfold rolesFrom
      split <;> simp [ih]

theorem joined_trimLeading : joined (trimLeading lines) = lstrip (joined lines) := by
  induction lines with
  | nil => rfl
  | cons x lines ih =>
    obtain ⟨role,l⟩ := x
    by_cases hb : isBlank l = true
    · have hall : ∀ c ∈ l, isSpace c = true := List.all_eq_true.1 hb
      have htrim : trimLeading ((role,l) :: lines) = trimLeading lines := by
        rw [trimLeading, if_pos hb]
      rw [htrim, ih]
      by_cases hlines : lines = []
      · subst hlines
        rw [joined_single, lstrip, lstrip, List.dropWhile_eq_nil_iff.2 hall]
        rfl
      · rw [joined_cons role l hlines, lstrip, lstrip, List.dropWhile_append_of_pos hall,
          List.dropWhile_cons_of_pos (by decide)]
    · have hne : (l.dropWhile isSpace).isEmpty = false := by
        rw [Bool.eq_false_iff, Ne, List.isEmpty_iff, List.dropWhile_eq_nil_iff]
        intro hall
        exact hb (List.all_eq_true.2 hall)
      rw [trimLeading, if_neg hb]
      by_cases hlines : lines = []
      · subst hlines
        rw [joined_single, joined_single]
      · rw [joined_cons _ _ hlines, joined_cons _ _ hlines, lstrip, lstrip, List.dropWhile_append,
          if_neg (by simp [hne])]

theorem isBlank_joined (role : Role) (l : Str) :
    isBlank (joined ((role,l) :: lines)) = (isBlank l && isBlank (joined lines)) := by
  by_cases hlines : lines = []
  · subst hlines
    rw [joined_single]
    simp [joined, joinLines, isBlank]
  · have hnewline : isSpace newline = true := by decide
    rw [joined_cons role l hlines]
    simp [isBlank, List.all_append, hnewline]

theorem trimTrailing_cons (role : Role) (l : Str) : trimTrailing ((role,l) :: lines) =
    if trimTrailing lines = [] then if isBlank l then [] else [(role,rstrip l)]
    else (role,l) :: trimTrailing lines := by
  rw [trimTrailing]
  split
  · rename_i heq
    rw [if_pos heq]
  · rename_i heq
    rw [if_neg (by rw [heq]; simp), heq]

theorem trimTrailing_eq_nil : trimTrailing lines = [] ↔ isBlank (joined lines) = true := by
  induction lines with
  | nil => simp [trimTrailing, joined, joinLines, isBlank]
  | cons x lines ih =>
    obtain ⟨role,l⟩ := x
    rw [trimTrailing_cons, isBlank_joined, Bool.and_eq_true, ← ih]
    by_cases hlines : trimTrailing lines = []
    · by_cases hb : isBlank l = true
      · simp [hlines, hb]
      · simp [hlines, hb]
    · simp [hlines]

theorem joined_trimTrailing : joined (trimTrailing lines) = rstrip (joined lines) := by
  induction lines with
  | nil => rfl
  | cons x lines ih =>
    obtain ⟨role,l⟩ := x
    have hsingle : joined (if isBlank l then [] else [(role,rstrip l)]) = rstrip l := by
      by_cases hb : isBlank l = true
      · rw [if_pos hb, rstrip_eq_nil_iff.2 hb]
        rfl
      · rw [if_neg hb, joined_single]
    rw [trimTrailing_cons]
    by_cases hlines : trimTrailing lines = []
    · rw [if_pos hlines, hsingle]
      by_cases hnil : lines = []
      · rw [hnil, joined_single]
      · have hspace : isSpace newline = true := by decide
        have htail : rstrip (newline :: joined lines) = [] := by
          rw [rstrip_eq_nil_iff, isBlank, List.all_cons, hspace, Bool.true_and]
          exact trimTrailing_eq_nil.1 hlines
        rw [joined_cons role l hnil, rstrip_append, if_pos htail]
    · have hnil : lines ≠ [] := fun hn => hlines (by rw [hn]; rfl)
      have hrest : rstrip (joined lines) ≠ [] := by
        rw [Ne, rstrip_eq_nil_iff, ← trimTrailing_eq_nil]
        exact hlines
      have htail : rstrip (newline :: joined lines) = newline :: rstrip (joined lines) := by
        have happ := rstrip_append [newline] (joined lines)
        rwa [if_neg hrest] at happ
      rw [if_neg hlines, joined_cons role l hlines, joined_cons role l hnil, rstrip_append, htail,
        if_neg (by simp), ih]

theorem consLine_append {c : CodePoint} {ls ls' : List Str} (h : ls ≠ []) :
    consLine c (ls ++ ls') = consLine c ls ++ ls' := by
  cases ls with
  | nil => exact absurd rfl h
  | cons l ls => rfl

theorem splitlines_newline (b : Str) : splitlines (newline :: b) = [] :: splitlines b := by
  have hbreak : isLineBreak newline = true := by decide
  cases b with
  | nil => rfl
  | cons c b =>
    rw [splitlines, if_pos hbreak, if_neg (by simp [newline])]

/-- Lines before and after a newline. -/
theorem splitlines_append (a b : Str) :
    splitlines (a ++ newline :: b) = splitlines (a ++ [newline]) ++ splitlines b := by
  have hbreak : isLineBreak newline = true := by decide
  have hreturn : isLineBreak 13 = true := by decide
  induction hn : a.length using Nat.strongRecOn generalizing a with
  | ind n ih =>
    subst hn
    cases a with
    | nil =>
      rw [List.nil_append, List.nil_append, splitlines_newline, splitlines_newline]
      rfl
    | cons c a =>
      have hne : splitlines (a ++ [newline]) ≠ [] := by
        obtain ⟨pieces,hpieces⟩ := splitlines_first a
        rw [hpieces]
        simp
      have hstep := ih a.length (Nat.lt_succ_self _) a rfl
      cases a with
      | nil =>
        simp only [List.cons_append, List.nil_append, splitlines] at hstep hne ⊢
        by_cases hc : isLineBreak c = true
        · by_cases h13 : c = 13
          · simp [h13, hreturn]
          · simp [hc, h13, splitlines_newline, hbreak]
        · simp [hc, splitlines_newline, hbreak, consLine]
      | cons c' a =>
        simp only [List.cons_append, splitlines] at hstep hne ⊢
        by_cases hc : isLineBreak c = true
        · rw [if_pos hc, if_pos hc]
          by_cases h13 : c = 13 ∧ c' = newline
          · rw [if_pos h13, if_pos h13, ih a.length (by simp only [List.length_cons]; omega) a rfl]
            rfl
          · rw [if_neg h13, if_neg h13, hstep]
            rfl
        · rw [if_neg hc, if_neg hc, hstep, consLine_append hne]

/-- A line that ends in a character of its own needs no newline after it. -/
theorem splitlines_last {l : Str} (h : ∃ s c, l = s ++ [c] ∧ isLineBreak c = false) :
    splitlines (l ++ [newline]) = splitlines l := by
  obtain ⟨s,c,rfl,hc⟩ := h
  have hbreak : isLineBreak newline = true := by decide
  induction hn : s.length using Nat.strongRecOn generalizing s with
  | ind n ih =>
    subst hn
    cases s with
    | nil =>
      simp [splitlines, hc, hbreak, consLine]
    | cons a s =>
      have hstep := ih s.length (Nat.lt_succ_self _) s rfl
      cases s with
      | nil =>
        simp only [List.nil_append, List.cons_append, splitlines]
        by_cases ha : isLineBreak a = true
        · have hcn : c ≠ newline := by
            intro he
            rw [he] at hc
            revert hc
            decide
          simp [ha, hcn, hc, hbreak, consLine]
        · simp [ha, hc, hbreak, consLine]
      | cons a' s =>
        simp only [List.cons_append, splitlines] at hstep ⊢
        by_cases ha : isLineBreak a = true
        · rw [if_pos ha, if_pos ha]
          by_cases h13 : a = 13 ∧ a' = newline
          · rw [if_pos h13, if_pos h13, ih s.length (by simp only [List.length_cons]; omega) s rfl]
          · rw [if_neg h13, if_neg h13, hstep]
        · rw [if_neg ha, if_neg ha, hstep]

/-- The last of the trimmed lines ends in a character that is no white space. -/
theorem trimTrailing_last : ∀ x ∈ (trimTrailing lines).getLast?,
    ∃ s c, x.2 = s ++ [c] ∧ isSpace c = false := by
  induction lines with
  | nil =>
    intro x hx
    cases hx
  | cons y lines ih =>
    obtain ⟨role,l⟩ := y
    rw [trimTrailing_cons]
    by_cases hlines : trimTrailing lines = []
    · rw [if_pos hlines]
      by_cases hb : isBlank l = true
      · rw [if_pos hb]
        intro x hx
        cases hx
      · rw [if_neg hb]
        rintro x ⟨⟩
        have hne : rstrip l ≠ [] := fun hn => hb (rstrip_eq_nil_iff.1 hn)
        refine ⟨_,_,(List.dropLast_append_getLast hne).symm,?_⟩
        exact Bool.eq_false_iff.2 (List.rdropWhile_last_not isSpace l hne)
    · rw [if_neg hlines, List.getLast?_cons]
      intro x hx
      cases hlast : (trimTrailing lines).getLast? with
      | none => exact absurd (List.getLast?_eq_none_iff.1 hlast) hlines
      | some z =>
        rw [hlast] at hx
        cases hx
        exact ih z hlast

theorem isLineBreak_false {c : CodePoint} (h : isSpace c = false) : isLineBreak c = false := by
  rw [Bool.eq_false_iff] at h ⊢
  intro hb
  apply h
  simp only [isLineBreak, isSpace, Bool.or_eq_true, Bool.and_eq_true, decide_eq_true_eq] at hb ⊢
  omega

theorem spread_lines (x : Role × Str) :
    (spread x).map Prod.snd = splitlines (x.2 ++ [newline]) := by
  unfold spread
  cases splitlines (x.2 ++ [newline]) with
  | nil => rfl
  | cons piece pieces => simp [Function.comp_def]

theorem spread_joined (h : ∀ x ∈ lines.getLast?, ∃ s c, x.2 = s ++ [c] ∧ isSpace c = false) :
    (lines.flatMap spread).map Prod.snd = splitlines (joined lines) := by
  induction lines with
  | nil => rfl
  | cons x lines ih =>
    obtain ⟨role,l⟩ := x
    rw [List.flatMap_cons, List.map_append, spread_lines]
    by_cases hlines : lines = []
    · subst hlines
      have hl : ∃ s c, l = s ++ [c] ∧ isSpace c = false := h (role,l) rfl
      obtain ⟨s,c,hs,hc⟩ := hl
      rw [joined_single, splitlines_last ⟨s,c,hs,isLineBreak_false hc⟩]
      simp
    · have hlast : ∀ x ∈ lines.getLast?, ∃ s c, x.2 = s ++ [c] ∧ isSpace c = false := by
        intro y hy
        refine h y ?_
        rw [List.getLast?_cons, Option.mem_def.1 hy]
        rfl
      rw [ih hlast, joined_cons role l hlines, splitlines_append l (joined lines)]

/-- Lines with roles are the lines of the chunker. -/
theorem chunkerLines_lines (markdown : Str) :
    (chunkerLines markdown).map Prod.snd = splitlines (strip markdown) := by
  have hpage : joined (rolesFrom none (splitNewline markdown)) = markdown := by
    rw [joined, rolesFrom_lines]
    exact List.intercalate_splitOn newline
  rw [chunkerLines, spread_joined trimTrailing_last, joined_trimTrailing, joined_trimLeading, hpage]
  rfl

/-! ### Agreement -/

variable {casefold : Str → Str} {markdown source : Str}

/-- On validated Markdown, formatter and chunker agree on the fenced blocks exactly when the lines
conform. -/
theorem fences_agree (h : validateMarkdownStructure casefold markdown source = .ok ()) :
    Agree (chunkerLines markdown) ↔ Conforms .text (chunkerLines markdown) := by
  unfold validateMarkdownStructure at h
  cases hlines : outsideFenceLines markdown with
  | error e =>
    rw [hlines] at h
    cases h
  | ok out => exact agree_iff (chunkerLines_ordered hlines)

/-- A line inside a fence that begins with the marker. -/
def infoMarkdown : Str := str "```\n```python\nx = 1\n```"

/-- The chunker ends the fence at a line that the formatter keeps inside. -/
theorem fences_disagree : ∃ (casefold : Str → Str) (markdown source : Str),
    validateMarkdownStructure casefold markdown source = .ok () ∧
    ¬ Agree (chunkerLines markdown) := by
  refine ⟨id,infoMarkdown,[],by decide +kernel,fun h => ?_⟩
  have hflags := h.flags
  revert hflags
  decide +kernel

instance decidableConforms : ∀ t lines, Decidable (Conforms t lines)
  | _, [] => inferInstanceAs (Decidable True)
  | t, (.outside,line) :: lines =>
      haveI := decidableConforms (tableAfter t (.outside,line) lines) lines
      inferInstanceAs (Decidable ((inTable t line = true ∨ fenceMatch line = none) ∧
        Conforms (tableAfter t (.outside,line) lines) lines))
  | t, (.opening _,line) :: lines =>
      haveI := decidableConforms .text lines
      inferInstanceAs (Decidable (inTable t line = false ∧ (fenceMatch line).isSome = true ∧
        Conforms .text lines))
  | _, (.inside m,line) :: lines =>
      haveI := decidableConforms .text lines
      inferInstanceAs (Decidable (closesFence m line = false ∧ Conforms .text lines))
  | _, (.closing _,_) :: lines => decidableConforms .text lines

/-- A plain fence with a table behind it. -/
theorem fences_agree_plain : ∃ markdown : Str, Agree (chunkerLines markdown) := by
  have hvalid : validateMarkdownStructure id
      (str "```python\nx = 1\n```\n\n| a | b |\n|---|---|\n| c | d |") [] = .ok () := by
    decide +kernel
  exact ⟨_,(fences_agree hvalid).2 (by decide +kernel)⟩

end MarkdownFormatter
end PdfBridge
