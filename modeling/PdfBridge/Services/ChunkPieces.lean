import PdfBridge.Services.ChunkShape

/-! What the pieces of a split block hold: the block, with the lines that a table or a fence repeats
in its later pieces. -/
namespace PdfBridge
namespace MarkdownChunking
open Unicode MarkdownFormatter

/-! ### Repeated lines -/

/-- What a split block repeats: in front of its later pieces, and behind its earlier ones. -/
def repeated (b : Block) : Str × Str :=
  match b.kind with
  | .table => (joinLines ((splitlines b.text).take 2),[])
  | .fence =>
      match fenceParts (splitlines b.text) with
      | some (opening,_,closing) => (opening,closing)
      | none => ([],[])
  | _ => ([],[])

/-- Texts without `front` in all but the first and without `back` in all but the last. -/
def keepOnce (front back : Str) : Bool → List Str → List Str
  | _, [] => []
  | first, [t] => [if first then t else t.drop front.length]
  | first, t :: t' :: ts =>
      (if first then t else t.drop front.length).rdrop back.length ::
        keepOnce front back false (t' :: ts)

/-- The bounded pieces of a block, each with its text less what is repeated. -/
def keptPieces (b : Block) (pieces : List Block) : List (Block × Str) :=
  pieces.zip (keepOnce (repeated b).1 (repeated b).2 true (pieces.map (·.text)))

section
variable (countTokens : Str → ℕ)

/-- The bounded blocks of a document, each with its text less what is repeated. -/
def keptBlocks : List Block → Chunking (List (Block × Str))
  | [] => .ok []
  | b :: blocks =>
      match boundedPieces countTokens b with
      | .error e => .error e
      | .ok pieces =>
          match keptBlocks blocks with
          | .error e => .error e
          | .ok rest => .ok (keptPieces b pieces ++ rest)

end

/-- The chunks carry the bounded blocks in order, behind their overlaps, and the texts of these
blocks less what is repeated show the visible characters of all pages, each once and in order. -/
def Preserves (ctx : ChunkContext) (pages : List MarkdownPage) (chunks : List MarkdownChunk) :
    Prop :=
  ∃ groups : List (List (Block × Str)),
    keptBlocks ctx.countTokens (documentBlocks ctx.countTokens [] pages) = .ok groups.flatten ∧
    Carries ctx.countTokens [] (groups.map fun g => g.map (·.1)) chunks ∧
    (groups.flatten.map fun x => visible x.2).flatten =
      (pages.map fun page => visible page.markdown).flatten

/-- A fence over the bound that has nothing between its two lines. -/
def EmptyFence (b : Block) : Prop :=
  b.kind = .fence ∧ hardMaxTokens < b.tokenCount ∧ (splitlines b.text).length = 2

variable {countTokens : Str → ℕ} {b : Block} {blocks pieces : List Block} {front back : Str}

theorem length_keepOnce (first : Bool) (ts : List Str) :
    (keepOnce front back first ts).length = ts.length := by
  induction ts generalizing first with
  | nil => rfl
  | cons t ts ih =>
    cases ts with
    | nil => rfl
    | cons t' ts => simp [keepOnce, ih false]

@[simp] theorem map_fst_keptPieces : (keptPieces b pieces).map (·.1) = pieces := by
  have hlen : pieces.length ≤
      (keepOnce (repeated b).1 (repeated b).2 true (pieces.map (·.text))).length := by
    rw [length_keepOnce, List.length_map]
  exact List.map_fst_zip hlen

@[simp] theorem map_snd_keptPieces : (keptPieces b pieces).map (·.2) =
    keepOnce (repeated b).1 (repeated b).2 true (pieces.map (·.text)) := by
  have hlen : (keepOnce (repeated b).1 (repeated b).2 true (pieces.map (·.text))).length ≤
      pieces.length := by
    rw [length_keepOnce, List.length_map]
  exact List.map_snd_zip hlen

/-- The pieces with their kept texts are the bounded pieces. -/
theorem keptBlocks_of_boundAll (h : boundAll countTokens blocks = .ok pieces) :
    ∃ kept, keptBlocks countTokens blocks = .ok kept ∧ kept.map (·.1) = pieces := by
  induction blocks generalizing pieces with
  | nil =>
    cases h
    exact ⟨[],rfl,rfl⟩
  | cons b blocks ih =>
    rw [boundAll] at h
    split at h
    · cases h
    rename_i own hown
    split at h
    · cases h
    rename_i rest hrest
    cases h
    obtain ⟨kept,hkept,hfst⟩ := ih hrest
    refine ⟨keptPieces b own ++ kept,?_,?_⟩
    · rw [keptBlocks, hown, hkept]
    · rw [List.map_append, map_fst_keptPieces, hfst]

/-! ### The texts of the pieces -/

/-- Prose is cut into texts that show all of it. -/
theorem proseTexts_visible {text : Str} {texts : List Str}
    (h : proseTexts countTokens text = .ok texts) : (texts.map visible).flatten = visible text := by
  induction hn : (visible text).length using Nat.strongRecOn generalizing text texts with
  | ind n ih =>
    rw [proseTexts] at h
    split at h
    · rename_i hnil
      cases h
      rw [hnil]
      rfl
    split at h
    · cases h
    rename_i piece rest hpiece
    split at h
    · cases h
    rename_i texts' hrest
    cases h
    have hshorter := largestPrefix_shorter countTokens hpiece
    rw [List.map_cons, List.flatten_cons, ih _ (hn ▸ hshorter) hrest rfl,
      (largestPrefix_ok countTokens hpiece).1]

/-- The body of a fence is cut into texts that show all of it. -/
theorem fenceTexts_visible {opening closing body : Str} {budget : ℕ} {texts : List Str}
    (h : fenceTexts countTokens opening closing budget body = .ok texts) :
    (texts.map visible).flatten = visible body ∧ (body ≠ [] → texts ≠ []) := by
  induction hn : (visible body).length using Nat.strongRecOn generalizing body texts with
  | ind n ih =>
    rw [fenceTexts] at h
    split at h
    · rename_i hnil
      cases h
      rw [hnil]
      exact ⟨rfl,fun hne => absurd rfl hne⟩
    split at h
    · cases h
    rename_i piece rest hpiece
    split at h
    · cases h
    rename_i texts' hrest
    cases h
    have hshorter := fencePiece_shorter countTokens hpiece
    obtain ⟨hvisible,-⟩ := ih _ (hn ▸ hshorter) hrest rfl
    refine ⟨?_,fun _ => List.cons_ne_nil _ _⟩
    rw [List.map_cons, List.flatten_cons, hvisible, (fencePiece_ok countTokens hpiece).1]

/-- The pieces of a table have its rows in order. -/
theorem tableRows_flatten {header : Str} {rows rest : List Str} {pieces : List (List Str)}
    (h : tableRows countTokens header rows rest = .ok pieces) :
    pieces.flatten = rows ++ rest ∧ pieces ≠ [] := by
  induction rest generalizing rows pieces with
  | nil =>
    cases h
    simp
  | cons row rest ih =>
    rw [tableRows] at h
    split at h
    · obtain ⟨hflatten,hne⟩ := ih h
      exact ⟨by rw [hflatten]; simp,hne⟩
    split at h
    · cases h
    split at h
    · cases h
    split at h
    · cases h
    rename_i pieces' hpieces
    cases h
    obtain ⟨hflatten,-⟩ := ih hpieces
    exact ⟨by rw [List.flatten_cons, hflatten]; rfl,List.cons_ne_nil _ _⟩

/-! ### What is kept -/

theorem keepOnce_nothing (first : Bool) (ts : List Str) : keepOnce [] [] first ts = ts := by
  induction ts generalizing first with
  | nil => rfl
  | cons t ts ih =>
    cases ts with
    | nil => simp [keepOnce]
    | cons t' ts =>
      rw [keepOnce, ih false]
      simp

/-- Tables keep their header once. -/
theorem keepOnce_table (header : Str) (pieces : List (List Str)) (first : Bool) :
    ((keepOnce header [] first (pieces.map fun rows => joinLines (header :: rows))).map
        visible).flatten =
      (if first = true ∧ pieces ≠ [] then visible header else []) ++
        (pieces.flatten.map visible).flatten := by
  have hdrop : ∀ rows : List Str, visible ((joinLines (header :: rows)).drop header.length) =
      (rows.map visible).flatten := by
    intro rows
    cases rows with
    | nil => simp [joinLines, visible]
    | cons row rows =>
      rw [joinLines_cons (List.cons_ne_nil row rows), List.drop_left, visible_cons_newline,
        visible_joinLines]
  induction pieces generalizing first with
  | nil => simp [keepOnce]
  | cons rows pieces ih =>
    have hfirst : visible (if first = true then joinLines (header :: rows)
        else (joinLines (header :: rows)).drop header.length) =
        (if first = true then visible header else []) ++ (rows.map visible).flatten := by
      split
      · rw [visible_joinLines]
        rfl
      · rw [hdrop]
        rfl
    have hcons : (first = true ∧ rows :: pieces ≠ []) ↔ first = true := by simp
    rw [if_congr hcons rfl rfl, List.flatten_cons, List.map_append, List.flatten_append,
      ← List.append_assoc, ← hfirst]
    cases pieces with
    | nil => simp [keepOnce]
    | cons rows' pieces =>
      have hrest := ih false
      simp only [List.map_cons, Bool.false_eq_true, false_and, if_false, List.nil_append] at hrest
      simp only [List.map_cons, keepOnce, List.length_nil, List.rdrop_zero, List.flatten_cons]
      rw [hrest, List.flatten_cons]

/-- The text of a piece of a fence. -/
theorem joinLines_three (opening t closing : Str) :
    joinLines [opening,t,closing] = (opening ++ newline :: t ++ [newline]) ++ closing := by
  simp [joinLines, List.intercalate]

theorem rdrop_append_self (s t : Str) : (s ++ t).rdrop t.length = s := by
  rw [List.rdrop, List.length_append, Nat.add_sub_cancel, List.take_left]

/-- Fences keep their first line and their last line once. -/
theorem keepOnce_fence (opening closing : Str) (texts : List Str) (first : Bool) :
    ((keepOnce opening closing first (texts.map fun t => joinLines [opening,t,closing])).map
        visible).flatten =
      (if first = true ∧ texts ≠ [] then visible opening else []) ++ (texts.map visible).flatten ++
        if texts ≠ [] then visible closing else [] := by
  induction texts generalizing first with
  | nil => simp [keepOnce]
  | cons t texts ih =>
    have hcons : (first = true ∧ t :: texts ≠ []) ↔ first = true := by simp
    rw [if_congr hcons rfl rfl, if_pos (List.cons_ne_nil t texts)]
    have hdrop : (joinLines [opening,t,closing]).drop opening.length =
        (newline :: t ++ [newline]) ++ closing := by
      rw [joinLines_three, List.append_assoc, List.append_assoc, List.drop_left]
      simp
    cases texts with
    | nil =>
      cases first with
      | true => simp [keepOnce, visible_joinLines]
      | false =>
        simp only [List.map_cons, List.map_nil, keepOnce, Bool.false_eq_true, if_false, hdrop]
        simp [visible, show isSpace newline = true by decide]
    | cons t' texts =>
      have hrest := ih false
      simp only [List.map_cons, Bool.false_eq_true, false_and, if_false, List.nil_append,
        if_pos (List.cons_ne_nil t' texts)] at hrest
      simp only [List.map_cons, keepOnce, List.flatten_cons]
      rw [hrest]
      have hnewline : visible [newline] = [] := by decide
      cases first with
      | true =>
        simp only [if_true]
        rw [joinLines_three, rdrop_append_self]
        simp [hnewline]
      | false =>
        simp only [Bool.false_eq_true, if_false]
        rw [hdrop, rdrop_append_self]
        simp [hnewline]

theorem map_visible_keptPieces : ((keptPieces b pieces).map fun x => visible x.2).flatten =
    ((keepOnce (repeated b).1 (repeated b).2 true (pieces.map (·.text))).map visible).flatten := by
  rw [← map_snd_keptPieces, List.map_map]
  rfl

/-- A block that stays whole keeps its text. -/
theorem kept_whole : ((keptPieces b [b]).map fun x => visible x.2).flatten = visible b.text := by
  simp [map_visible_keptPieces, keepOnce]

theorem kept_table (hkind : b.kind = .table) (h : splitTable countTokens b = .ok pieces) :
    ((keptPieces b pieces).map fun x => visible x.2).flatten = visible b.text := by
  unfold splitTable at h
  split at h
  · rename_i first second rows hlines
    split at h
    · cases h
    simp only at h
    split at h
    · cases h
    split at h
    · cases h
      exact kept_whole
    split at h
    · cases h
    rename_i texts htexts
    cases h
    obtain ⟨hflatten,hne⟩ := tableRows_flatten htexts
    have hrepeated : repeated b = (joinLines [first,second],[]) := by
      rw [repeated, hkind, hlines]
      rfl
    have hmap : (texts.map fun rows => pieceOf countTokens b .table
        (joinLines (joinLines [first,second] :: rows))).map (·.text) =
        texts.map fun rows => joinLines (joinLines [first,second] :: rows) := by
      rw [List.map_map]
      rfl
    rw [map_visible_keptPieces, hrepeated, hmap, keepOnce_table, if_pos ⟨rfl,hne⟩, hflatten,
      ← visible_splitlines b.text, hlines, visible_joinLines]
    simp
  · cases h

/-- A split fence shows all of its text, or nothing when it has no line between its fence lines. -/
theorem kept_fence (hkind : b.kind = .fence) (h : splitFence countTokens b = .ok pieces) :
    ∃ opening body closing, fenceParts (splitlines b.text) = some (opening,body,closing) ∧
      ¬ hardMaxTokens ≤ countTokens (joinLines [opening,[],closing]) ∧
      ((keptPieces b pieces).map fun x => visible x.2).flatten =
        if joinLines body = [] then [] else visible b.text := by
  unfold splitFence at h
  split at h
  · cases h
  rename_i opening body closing hparts
  simp only at h
  split at h
  · cases h
  rename_i hwrapper
  split at h
  · cases h
  rename_i texts htexts
  cases h
  refine ⟨opening,body,closing,hparts,hwrapper,?_⟩
  have hrepeated : repeated b = (opening,closing) := by
    rw [repeated, hkind]
    simp only [hparts]
  have hmap : (texts.map fun t => pieceOf countTokens b .fence
      (joinLines [opening,t,closing])).map (·.text) =
      texts.map fun t => joinLines [opening,t,closing] := by
    rw [List.map_map]
    rfl
  rw [map_visible_keptPieces, hrepeated, hmap, keepOnce_fence]
  by_cases hbody : joinLines body = []
  · rw [hbody, fenceTexts, if_pos rfl] at htexts
    cases htexts
    rw [if_pos hbody]
    rfl
  · obtain ⟨hvisible,hne⟩ := fenceTexts_visible htexts
    rw [if_neg hbody, if_pos ⟨rfl,hne hbody⟩, if_pos (hne hbody), hvisible, visible_joinLines,
      ← visible_splitlines b.text]
    cases hlines : splitlines b.text with
    | nil =>
      rw [hlines] at hparts
      cases hparts
    | cons first lines =>
      cases lines with
      | nil =>
        rw [hlines] at hparts
        cases hparts
      | cons second lines =>
        rw [hlines, fenceParts] at hparts
        cases hparts
        have hsplit := List.dropLast_append_getLast (List.cons_ne_nil second lines)
        rw [List.map_cons, List.flatten_cons, List.append_assoc]
        congr 1
        conv_rhs => rw [← hsplit]
        simp

theorem fenceParts_lines {lines body : List Str} {opening closing : Str}
    (h : fenceParts lines = some (opening,body,closing)) :
    lines = opening :: (body ++ [closing]) := by
  unfold fenceParts at h
  split at h
  · rename_i last lines
    cases h
    rw [List.dropLast_append_getLast]
  · cases h

/-- The pieces of a block show all of it, unless it is a fence over the bound with nothing between
its two lines: of such a block nothing is left. -/
theorem kept_visible (hlines : joinLines (splitlines b.text) = b.text)
    (hcount : b.tokenCount = countTokens b.text) (h : boundedPieces countTokens b = .ok pieces) :
    (¬ EmptyFence b → ((keptPieces b pieces).map fun x => visible x.2).flatten = visible b.text) ∧
      (EmptyFence b → ((keptPieces b pieces).map fun x => visible x.2).flatten = []) := by
  unfold boundedPieces at h
  split at h
  · rename_i hle
    cases h
    exact ⟨fun _ => kept_whole,fun he => absurd he.2.1 (Nat.not_lt.2 hle)⟩
  rename_i hover
  have hover := Nat.not_le.1 hover
  split at h
  · rename_i hkind
    refine ⟨fun _ => kept_table hkind h,fun he => ?_⟩
    have hfence := he.1
    rw [hkind] at hfence
    cases hfence
  · rename_i hkind
    obtain ⟨opening,body,closing,hparts,hwrapper,hkept⟩ := kept_fence hkind h
    have hall := fenceParts_lines hparts
    constructor
    · intro hne
      rw [hkept, if_neg]
      intro hbody
      -- an empty body is no line, or one line without a character
      match body, hbody with
      | [], _ => exact hne ⟨hkind,hover,by rw [hall]; rfl⟩
      | [[]], _ =>
        rw [List.singleton_append] at hall
        rw [hcount, ← hlines, hall] at hover
        exact hwrapper hover.le
      | [_ :: _], hbody => simp [joinLines] at hbody
      | _ :: _ :: _, hbody => simp [joinLines, List.intercalate] at hbody
    · intro he
      have hlen := he.2.2
      rw [hall] at hlen
      simp only [List.length_cons, List.length_append, List.length_nil] at hlen
      have hbody : body = [] := List.length_eq_zero_iff.1 (by omega)
      rw [hkept, if_pos (by rw [hbody]; rfl)]
  · rename_i htable hfence
    unfold splitProse at h
    split at h
    · cases h
    rename_i texts htexts
    cases h
    have hrepeated : repeated b = ([],[]) := by
      unfold repeated
      split
      · rename_i hkind
        exact absurd hkind htable
      · rename_i hkind
        exact absurd hkind hfence
      · rfl
    have hmap : (texts.map (pieceOf countTokens b .prose)).map (·.text) = texts := by
      rw [List.map_map]
      exact List.map_id' texts
    refine ⟨fun _ => ?_,fun he => absurd he.1 hfence⟩
    rw [map_visible_keptPieces, hrepeated, hmap, keepOnce_nothing, proseTexts_visible htexts]

/-! ### Whole documents -/

/-- The kept texts show at most what the blocks show, and all of it exactly when no block is an
empty fence over the bound. -/
theorem keptBlocks_visible {kept : List (Block × Str)}
    (hblocks : ∀ b ∈ blocks, joinLines (splitlines b.text) = b.text ∧
      b.tokenCount = countTokens b.text ∧ visible b.text ≠ [])
    (h : keptBlocks countTokens blocks = .ok kept) :
    (kept.map fun x => visible x.2).flatten.length ≤
        (blocks.map fun b => visible b.text).flatten.length ∧
      ((∀ b ∈ blocks, ¬ EmptyFence b) → (kept.map fun x => visible x.2).flatten =
        (blocks.map fun b => visible b.text).flatten) ∧
      ((∃ b ∈ blocks, EmptyFence b) → (kept.map fun x => visible x.2).flatten.length <
        (blocks.map fun b => visible b.text).flatten.length) := by
  induction blocks generalizing kept with
  | nil =>
    cases h
    exact ⟨le_rfl,fun _ => rfl,by simp⟩
  | cons b blocks ih =>
    obtain ⟨⟨hlines,hcount,hne⟩,hblocks⟩ := List.forall_mem_cons.1 hblocks
    rw [keptBlocks] at h
    split at h
    · cases h
    rename_i own hown
    split at h
    · cases h
    rename_i rest hrest
    cases h
    obtain ⟨hle,heq,hlt⟩ := ih hblocks hrest
    obtain ⟨hkept,hlost⟩ := kept_visible hlines hcount hown
    simp only [List.map_append, List.flatten_append, List.map_cons, List.flatten_cons,
      List.length_append]
    have hpos := List.length_pos_iff.2 hne
    by_cases hb : EmptyFence b
    · rw [hlost hb]
      refine ⟨?_,fun hall => absurd hb (hall b List.mem_cons_self),fun _ => ?_⟩
      · simp only [List.length_nil]
        omega
      · simp only [List.length_nil]
        omega
    · rw [hkept hb]
      refine ⟨by omega,fun hall => ?_,?_⟩
      · rw [heq fun c hc => hall c (List.mem_cons_of_mem _ hc)]
      · rintro ⟨c,hc,hempty⟩
        rcases List.mem_cons.1 hc with rfl | hc
        · exact absurd hempty hb
        · have := hlt ⟨c,hc,hempty⟩
          omega

/-- Labelled elements can be grouped as their elements are. -/
theorem exists_groups {α β : Type} {f : α → β} {xs : List α} {groups : List (List β)}
    (h : xs.map f = groups.flatten) :
    ∃ labelled : List (List α), labelled.flatten = xs ∧ labelled.map (fun g => g.map f) = groups := by
  induction groups generalizing xs with
  | nil => exact ⟨[],(List.map_eq_nil_iff.1 h).symm,rfl⟩
  | cons g groups ih =>
    rw [List.flatten_cons, List.map_eq_append_iff] at h
    obtain ⟨front,rest,rfl,rfl,hrest⟩ := h
    obtain ⟨labelled,rfl,rfl⟩ := ih hrest
    exact ⟨front :: labelled,rfl,rfl⟩

variable {ctx : ChunkContext} {pages : List MarkdownPage} {chunks : List MarkdownChunk}

/-- A run loses, invents and reorders no visible character exactly when no fence over the bound is
without a line between its two lines. -/
theorem chunking_preserves (h : chunkMarkdown ctx pages = .ok chunks) :
    Preserves ctx pages chunks ↔
      ∀ b ∈ documentBlocks ctx.countTokens [] pages, ¬ EmptyFence b := by
  have hblocks : ∀ b ∈ documentBlocks ctx.countTokens [] pages,
      joinLines (splitlines b.text) = b.text ∧ b.tokenCount = ctx.countTokens b.text ∧
        visible b.text ≠ [] :=
    fun b hb => ⟨block_lines hb,(mem_documentBlocks hb).2,visible_block hb⟩
  have hshown := @visible_documentBlocks ctx.countTokens [] pages
  constructor
  · rintro ⟨groups,hkept,-,hvisible⟩ b hb hempty
    obtain ⟨-,-,hlt⟩ := keptBlocks_visible hblocks hkept
    have hlt := hlt ⟨b,hb,hempty⟩
    rw [hvisible, hshown] at hlt
    exact lt_irrefl _ hlt
  · intro hall
    obtain ⟨-,-,pieces,groups,hpieces,hflatten,hcarries,-⟩ := chunkMarkdown_shape h
    obtain ⟨kept,hkept,hfst⟩ := keptBlocks_of_boundAll hpieces
    rw [← hflatten] at hfst
    obtain ⟨labelled,rfl,hgroups⟩ := exists_groups hfst
    refine ⟨labelled,hkept,hgroups ▸ hcarries,?_⟩
    rw [(keptBlocks_visible hblocks hkept).2.1 hall, hshown]

/-- A sentence and a fence. -/
theorem chunking_preserves_fence : ∃ chunks,
    chunkMarkdown characterContext (onePage "A.\n\n```\nb\n```") = .ok chunks ∧
      Preserves characterContext (onePage "A.\n\n```\nb\n```") chunks := by
  let chunk : MarkdownChunk := ⟨⟨uuid4 0 0,uuid4 0 1,0,⟨""⟩⟩,0,1,1,[],13,⟨""⟩,
    str "A.\n\n```\nb\n```"⟩
  have hrun : chunkMarkdown characterContext (onePage "A.\n\n```\nb\n```") = .ok [chunk] := by
    decide +kernel
  refine ⟨[chunk],hrun,(chunking_preserves hrun).2 ?_⟩
  have hbound : (documentBlocks List.length [] (onePage "A.\n\n```\nb\n```")).all
      (fun b => b.tokenCount ≤ hardMaxTokens) = true := by decide +kernel
  intro b hb hempty
  have hle := List.all_eq_true.1 hbound b hb
  exact absurd hempty.2.1 (Nat.not_lt.2 (by simpa using hle))

/-- A tokenizer that counts one text more than its parts. -/
def emptyFenceContext : ChunkContext :=
  {characterContext with countTokens := fun t => if t = str "```\n```" then 385 else t.length}

/-- A fence without a body: both of its lines are lost. -/
theorem empty_fence_lost : ∃ pages ctx chunks, Validated pages ∧
    (∀ page ∈ pages, validateMarkdownStructure id page.markdown page.markdown = .ok ()) ∧
    chunkMarkdown ctx pages = .ok chunks ∧ ¬ Preserves ctx pages chunks := by
  let pages := onePage "A\n\n```\n```"
  let chunk : MarkdownChunk := ⟨⟨uuid4 0 0,uuid4 0 1,0,⟨""⟩⟩,0,1,1,[],1,⟨""⟩,str "A"⟩
  have hrun : chunkMarkdown emptyFenceContext pages = .ok [chunk] := by decide +kernel
  refine ⟨pages,emptyFenceContext,[chunk],⟨by decide +kernel,by decide +kernel⟩,
    by decide +kernel,hrun,?_⟩
  rintro ⟨groups,hkept,-,hvisible⟩
  have hone : (keptBlocks emptyFenceContext.countTokens
      (documentBlocks emptyFenceContext.countTokens [] pages)).toOption.map
        (fun kept => (kept.map fun x => visible x.2).flatten) = some (str "A") := by
    decide +kernel
  rw [hkept, Except.toOption, Option.map_some, hvisible] at hone
  revert hone
  decide +kernel

end MarkdownChunking
end PdfBridge
