import Mathlib.Data.List.Sort

/-! Pagination by a key: each request serves the next rows in the order of the key, strictly
after the key of the last row that was served. The table may change between two requests. -/
namespace PdfBridge
namespace Keyset

structure Page (ρ γ : Type) where
  items : List ρ
  next : Option γ
deriving DecidableEq

section Pages
variable {ρ κ γ : Type} [LinearOrder κ] (key : ρ → κ) (limit : ℕ)

/-- The rows after a position, in the order of their keys. -/
def remaining (after : Option κ) (rows : List ρ) : List ρ :=
  (rows.filter fun r => after.all fun k => decide (k < key r)).insertionSort
    fun a b => key a ≤ key b

/-- At most `limit` rows, and the key of the last one when more remain. -/
def pageOf (encode : κ → γ) (rest : List ρ) : Page ρ γ where
  items := rest.take limit
  next := if limit < rest.length then (rest.take limit).getLast?.map (encode ∘ key) else none

variable {key limit} {after : Option κ} {rows rest : List ρ} {r : ρ} {encode : κ → γ}

theorem mem_remaining : r ∈ remaining key after rows ↔ r ∈ rows ∧ ∀ k, after = some k → k < key r := by
  simp only [remaining, List.mem_insertionSort, List.mem_filter, Option.all_eq_true,
    decide_eq_true_eq]

/-- Rows of different keys are strictly ordered. -/
theorem remaining_sorted (hrows : (rows.map key).Nodup) :
    (remaining key after rows).Pairwise fun a b => key a < key b := by
  have hsorted : (remaining key after rows).Pairwise fun a b => key a ≤ key b :=
    List.pairwise_insertionSort (fun a b => key a ≤ key b) _
  have hnodup : ((remaining key after rows).map key).Nodup := by
    refine List.Perm.nodup_iff ((List.perm_insertionSort _ _).map key) |>.2 ?_
    exact hrows.sublist (List.filter_sublist.map key)
  exact (hsorted.and (List.pairwise_map.1 hnodup)).imp fun h => lt_of_le_of_ne h.1 h.2

omit [LinearOrder κ] in
/-- The last row of a page separates it from the rows that remain. -/
theorem next_eq_some (hlimit : 1 ≤ limit) (h : limit < rest.length) :
    ∃ last, last ∈ rest.take limit ∧ (pageOf key limit encode rest).next = some (encode (key last)) ∧
      ∃ front, rest = front ++ last :: rest.drop limit := by
  have hne : rest.take limit ≠ [] := by
    intro he
    have := congrArg List.length he
    simp only [List.length_take, List.length_nil] at this
    omega
  refine ⟨(rest.take limit).getLast hne,List.getLast_mem hne,?_,(rest.take limit).dropLast,?_⟩
  · simp only [pageOf, if_pos h, List.getLast?_eq_some_getLast hne, Option.map_some,
      Function.comp_apply]
  · have hsplit : (rest.take limit).dropLast ++ [(rest.take limit).getLast hne] =
        rest.take limit := List.dropLast_append_getLast hne
    calc rest = rest.take limit ++ rest.drop limit := (List.take_append_drop _ _).symm
      _ = ((rest.take limit).dropLast ++ [(rest.take limit).getLast hne]) ++ rest.drop limit := by
        rw [hsplit]
      _ = _ := by rw [List.append_assoc, List.singleton_append]

omit [LinearOrder κ] in
theorem pageOf_of_le (h : rest.length ≤ limit) :
    pageOf key limit encode rest = ⟨rest,none⟩ := by
  simp only [pageOf, List.take_of_length_le h, if_neg (Nat.not_lt.2 h)]

omit [LinearOrder κ] in
theorem pageOf_items : (pageOf key limit encode rest).items = rest.take limit := rfl

/-- The rows up to the last one of a page are on the page. -/
theorem mem_take_of_le {last : ρ} {front : List ρ}
    (hsorted : rest.Pairwise fun a b => key a < key b)
    (hsplit : rest = front ++ last :: rest.drop limit) (hr : r ∈ rest)
    (hle : key r ≤ key last) : r ∈ rest.take limit := by
  rw [hsplit, List.pairwise_append, List.pairwise_cons] at hsorted
  rcases List.mem_append.1 (List.take_append_drop limit rest ▸ hr) with hr | hr
  · exact hr
  · exact absurd (hsorted.2.1.1 r hr) hle.not_gt

theorem le_last {last : ρ} {front : List ρ} (hsorted : rest.Pairwise fun a b => key a < key b)
    (hsplit : rest = front ++ last :: rest.drop limit) (hr : r ∈ rest.take limit) :
    key r ≤ key last := by
  have htake : rest.take limit = front ++ [last] := by
    have := (List.take_append_drop limit rest).trans hsplit
    rw [← List.singleton_append, ← List.append_assoc] at this
    exact List.append_cancel_right this
  rw [htake] at hr
  rw [hsplit, List.pairwise_append, List.pairwise_cons] at hsorted
  rcases List.mem_append.1 hr with hr | hr
  · exact (hsorted.2.2 r hr last List.mem_cons_self).le
  · rw [List.mem_singleton.1 hr]

end Pages

/-! ### Walks -/

/-- The rows of the pages that were served, and how the walk ended, if it has. -/
structure Walk (ρ ε : Type) where
  items : List ρ
  ended : Option (Except ε Unit)
deriving DecidableEq

/-- Follow the cursors, each request against the state that it finds. -/
def walk {σ γ ρ ε : Type} (request : σ → Option γ → Except ε (Page ρ γ)) :
    List σ → Option γ → Walk ρ ε
  | [], _ => ⟨[],none⟩
  | s :: ss, cursor =>
    match request s cursor with
    | .error e => ⟨[],some (.error e)⟩
    | .ok page =>
      match page.next with
      | none => ⟨page.items,some (.ok ())⟩
      | some next =>
        let rest := walk request ss (some next)
        ⟨page.items ++ rest.items,rest.ended⟩

/-- In a state that `serves` the list, a request is answered with the next page; in any other
state a cursor is refused. `known` are the keys that a cursor can name. -/
structure Paginates {σ γ ρ ε κ : Type} [LinearOrder κ]
    (request : σ → Option γ → Except ε (Page ρ γ)) (limit : ℕ) (key : ρ → κ) (encode : κ → γ)
    (rows : σ → List ρ) (serves : σ → Prop) (known : κ → Prop) : Prop where
  positive : 1 ≤ limit
  keys : ∀ s, serves s → ((rows s).map key).Nodup
  rows_known : ∀ s, serves s → ∀ r, r ∈ rows s → known (key r)
  page : ∀ s, serves s → ∀ after : Option κ, (∀ k, after = some k → known k) →
    request s (after.map encode) =
      .ok (pageOf key limit encode (remaining key after (rows s)))
  refused : ∀ s, ¬ serves s → ∀ k, known k → ∃ e, request s (some (encode k)) = .error e

section Walks
variable {σ γ ρ ε κ : Type} [LinearOrder κ] {request : σ → Option γ → Except ε (Page ρ γ)}
  {limit : ℕ} {key : ρ → κ} {encode : κ → γ} {rows : σ → List ρ} {serves : σ → Prop}
  {known : κ → Prop} {after : Option κ} {ss : List σ} {s : σ}

/-- Only the requests of a walk matter. -/
theorem Paginates.of_eq (h : Paginates request limit key encode rows (fun _ => True) known)
    {request' : σ → Option γ → Except ε (Page ρ γ)}
    (hpage : ∀ s after, (∀ k, after = some k → known k) →
      request' s (after.map encode) = request s (after.map encode)) :
    Paginates request' limit key encode rows (fun _ => True) known where
  positive := h.positive
  keys := h.keys
  rows_known := h.rows_known
  page s hs after hknown := (hpage s after hknown).trans (h.page s hs after hknown)
  refused _ hs := absurd trivial hs

/-- One request of a walk. -/
theorem Paginates.walk_cons (h : Paginates request limit key encode rows serves known)
    (ss : List σ) (hs : serves s) (after : Option κ) (hknown : ∀ k, after = some k → known k) :
    walk request (s :: ss) (after.map encode) =
      ⟨remaining key after (rows s),some (.ok ())⟩ ∨
    ∃ last front, remaining key after (rows s) =
        front ++ last :: (remaining key after (rows s)).drop limit ∧
      last ∈ (remaining key after (rows s)).take limit ∧
      limit < (remaining key after (rows s)).length ∧
      (∀ k, some (key last) = some k → known k) ∧
      walk request (s :: ss) (after.map encode) =
        ⟨(remaining key after (rows s)).take limit ++
          (walk request ss (some (encode (key last)))).items,
          (walk request ss (some (encode (key last)))).ended⟩ := by
  simp only [walk, h.page s hs after hknown]
  by_cases hmore : limit < (remaining key after (rows s)).length
  · obtain ⟨last,hlast,hnext,front,hsplit⟩ :=
      @next_eq_some _ _ _ key limit _ encode h.positive hmore
    refine Or.inr ⟨last,front,hsplit,hlast,hmore,?_,?_⟩
    · intro k hk
      cases hk
      exact h.rows_known s hs last (mem_remaining.1 (List.mem_of_mem_take hlast)).1
    simp only [hnext, pageOf_items]
  · rw [pageOf_of_le (Nat.not_lt.1 hmore)]
    exact Or.inl rfl

theorem Paginates.walk_refused (h : Paginates request limit key encode rows serves known)
    (hs : ¬ serves s) {k : κ} (hk : known k) :
    ∃ e, walk request (s :: ss) (some (encode k)) = ⟨[],some (.error e)⟩ := by
  obtain ⟨e,he⟩ := h.refused s hs k hk
  exact ⟨e,by simp only [walk, he]⟩

/-- The first request of a walk finds a state that serves the list. -/
def Begins (serves : σ → Prop) (after : Option κ) (ss : List σ) : Prop :=
  after = none → ∀ s, ss.head? = some s → serves s

omit [LinearOrder κ] in
theorem begins_some (k : κ) : Begins serves (some k) ss := fun h => nomatch h

omit [LinearOrder κ] in
theorem Begins.head (h : Begins serves after (s :: ss)) (hs : ¬ serves s) :
    ∃ k, after = some k := by
  cases after with
  | none => exact absurd (h rfl s rfl) hs
  | some k => exact ⟨k,rfl⟩

/-- No row is returned twice: the rows of a walk come in the order of their keys. -/
theorem Paginates.walk_sorted (h : Paginates request limit key encode rows serves known)
    (hknown : ∀ k, after = some k → known k) (hbegins : Begins serves after ss) :
    ((walk request ss (after.map encode)).items.Pairwise fun a b => key a < key b) ∧
    (∀ r, r ∈ (walk request ss (after.map encode)).items → ∀ k, after = some k → k < key r) ∧
    ∀ r, r ∈ (walk request ss (after.map encode)).items →
      ∃ s, s ∈ ss ∧ serves s ∧ r ∈ rows s := by
  induction ss generalizing after with
  | nil => simp [walk]
  | cons s ss ih =>
    by_cases hs : serves s
    · have hsorted : (remaining key after (rows s)).Pairwise fun a b => key a < key b :=
        remaining_sorted (h.keys s hs)
      rcases h.walk_cons ss hs after hknown with hdone |
        ⟨last,front,hsplit,hlast,-,hlastKnown,hnext⟩
      · rw [hdone]
        exact ⟨hsorted,fun r hr => (mem_remaining.1 hr).2,
          fun r hr => ⟨s,List.mem_cons_self,hs,(mem_remaining.1 hr).1⟩⟩
      · obtain ⟨ihsorted,ihafter,ihrows⟩ := ih (hlastKnown) (begins_some (key last))
        rw [hnext]
        refine ⟨List.pairwise_append.2 ⟨hsorted.sublist (List.take_sublist _ _),ihsorted,
          fun a ha b hb => ?_⟩,fun r hr k hk => ?_,fun r hr => ?_⟩
        · exact (le_last hsorted hsplit ha).trans_lt (ihafter b hb _ rfl)
        · rcases List.mem_append.1 hr with hr | hr
          · exact (mem_remaining.1 (List.mem_of_mem_take hr)).2 k hk
          · have hk := (mem_remaining.1 (List.mem_of_mem_take hlast)).2 k hk
            exact hk.trans (ihafter r hr _ rfl)
        · rcases List.mem_append.1 hr with hr | hr
          · exact ⟨s,List.mem_cons_self,hs,(mem_remaining.1 (List.mem_of_mem_take hr)).1⟩
          · obtain ⟨t,ht,hserves,hmem⟩ := ihrows r hr
            exact ⟨t,List.mem_cons_of_mem _ ht,hserves,hmem⟩
    · obtain ⟨k,rfl⟩ := hbegins.head hs
      obtain ⟨e,he⟩ := h.walk_refused (s := s) hs (hknown k rfl)
      rw [Option.map_some, he]
      simp

/-- A row that is there for the whole walk is returned by it. -/
theorem Paginates.walk_complete (h : Paginates request limit key encode rows serves known)
    (hknown : ∀ k, after = some k → known k) (hbegins : Begins serves after ss)
    (hended : (walk request ss (after.map encode)).ended = some (.ok ())) {k : κ}
    (hafter : ∀ k', after = some k' → k' < k)
    (hrows : ∀ s, s ∈ ss → ∃ r, r ∈ rows s ∧ key r = k) :
    ∃ r, r ∈ (walk request ss (after.map encode)).items ∧ key r = k := by
  induction ss generalizing after with
  | nil => cases hended
  | cons s ss ih =>
    by_cases hs : serves s
    · obtain ⟨r,hr,rfl⟩ := hrows s List.mem_cons_self
      have hremaining : r ∈ remaining key after (rows s) := mem_remaining.2 ⟨hr,hafter⟩
      rcases h.walk_cons ss hs after hknown with hdone |
        ⟨last,front,hsplit,hlast,-,hlastKnown,hnext⟩
      · rw [hdone]
        exact ⟨r,hremaining,rfl⟩
      · rw [hnext] at hended ⊢
        by_cases hle : key r ≤ key last
        · have hsorted : (remaining key after (rows s)).Pairwise fun a b => key a < key b :=
        remaining_sorted (h.keys s hs)
          exact ⟨r,List.mem_append_left _ (mem_take_of_le hsorted hsplit hremaining hle),rfl⟩
        · obtain ⟨r',hr',hk⟩ := ih hlastKnown (begins_some _) hended
            (fun k' hk' => Option.some.inj hk' ▸ not_le.1 hle)
            fun t ht => hrows t (List.mem_cons_of_mem _ ht)
          exact ⟨r',List.mem_append_right _ hr',hk⟩
    · obtain ⟨k,rfl⟩ := hbegins.head hs
      obtain ⟨e,he⟩ := h.walk_refused (s := s) hs (hknown k rfl)
      rw [Option.map_some, he] at hended
      cases hended

/-- Only a state that does not serve the list ends a walk with an error. -/
theorem Paginates.walk_error (h : Paginates request limit key encode rows serves known)
    (hknown : ∀ k, after = some k → known k) (hbegins : Begins serves after ss) {e : ε}
    (hended : (walk request ss (after.map encode)).ended = some (.error e)) :
    ∃ s, s ∈ ss ∧ ¬ serves s := by
  induction ss generalizing after with
  | nil => cases hended
  | cons s ss ih =>
    by_cases hs : serves s
    · rcases h.walk_cons ss hs after hknown with hdone |
        ⟨last,front,-,-,-,hlastKnown,hnext⟩
      · rw [hdone] at hended
        cases hended
      · rw [hnext] at hended
        obtain ⟨t,ht,hserves⟩ := ih hlastKnown (begins_some _) hended
        exact ⟨t,List.mem_cons_of_mem _ ht,hserves⟩
    · exact ⟨s,List.mem_cons_self,hs⟩

/-- The rows after the last one of a page are those that remained. -/
theorem remaining_after {last : ρ} {front : List ρ} (hkeys : ((rows s).map key).Nodup)
    (hsplit : remaining key after (rows s) =
      front ++ last :: (remaining key after (rows s)).drop limit) :
    remaining key (some (key last)) (rows s) = (remaining key after (rows s)).drop limit := by
  have hsorted : (remaining key after (rows s)).Pairwise fun a b => key a < key b :=
    remaining_sorted hkeys
  have hlast := hsorted
  rw [hsplit, List.pairwise_append, List.pairwise_cons] at hlast
  have hmem : last ∈ remaining key after (rows s) := by
    rw [hsplit]
    simp
  refine @List.Perm.eq_of_pairwise _ (fun a b => key a ≤ key b) _ _
    (fun a b ha hb hab hba => ?_) ((remaining_sorted hkeys).imp le_of_lt)
    ((hsorted.sublist (List.drop_sublist _ _)).imp le_of_lt) ?_
  · have hrow := fun r (hr : r ∈ remaining key (some (key last)) (rows s)) =>
      (mem_remaining.1 hr).1
    have hb' : b ∈ rows s := (mem_remaining.1 (List.mem_of_mem_drop hb)).1
    exact List.inj_on_of_nodup_map hkeys (hrow a ha) hb' (le_antisymm hab hba)
  · refine (List.perm_ext_iff_of_nodup ?_ ?_).2 fun r => ?_
    · exact (remaining_sorted hkeys).imp fun h he => h.ne (congrArg key he)
    · exact (hsorted.sublist (List.drop_sublist _ _)).imp fun h he => h.ne (congrArg key he)
    · rw [mem_remaining]
      refine ⟨fun ⟨hr,hk⟩ => ?_,fun hr => ?_⟩
      · have hlt := hk _ rfl
        have hafter : r ∈ remaining key after (rows s) := by
          refine mem_remaining.2 ⟨hr,fun k hk' => ?_⟩
          exact ((mem_remaining.1 hmem).2 k hk').trans hlt
        rw [hsplit] at hafter
        rcases List.mem_append.1 hafter with hfront | hrest
        · exact absurd (hlast.2.2 r hfront last List.mem_cons_self) hlt.not_gt
        · rcases List.mem_cons.1 hrest with rfl | hrest
          · exact absurd hlt (lt_irrefl _)
          · exact hrest
      · refine ⟨(mem_remaining.1 (List.mem_of_mem_drop hr)).1,fun k hk => ?_⟩
        cases hk
        exact hlast.2.1.1 r hr

/-- Over an unchanged state a walk returns every row once, in order, and ends. -/
theorem Paginates.walk_static (h : Paginates request limit key encode rows serves known)
    (hknown : ∀ k, after = some k → known k) (hs : serves s) {n : ℕ} (hn : (remaining key after (rows s)).length < n) :
    walk request (List.replicate n s) (after.map encode) =
      ⟨remaining key after (rows s),some (.ok ())⟩ := by
  induction n generalizing after with
  | zero => exact absurd hn (Nat.not_lt_zero _)
  | succ n ih =>
    rw [List.replicate_succ]
    rcases h.walk_cons (List.replicate n s) hs after hknown with hdone |
      ⟨last,front,hsplit,-,hmore,hlastKnown,hnext⟩
    · exact hdone
    · have hrest := remaining_after (h.keys s hs) hsplit
      have hlimit := h.positive
      have hwalk := ih hlastKnown (by
        rw [hrest, List.length_drop]
        omega)
      rw [Option.map_some] at hwalk
      rw [hnext, hwalk, hrest, List.take_append_drop]

/-- Every matching row exactly once, in the order of the keys: over an unchanged state a walk ends
after finitely many pages with all rows; over changing states it returns no row twice, and each
row that is there for the whole walk once it has ended; it is refused only by a state that does
not serve the list. -/
structure Complete (request : σ → Option γ → Except ε (Page ρ γ)) (key : ρ → κ)
    (rows : σ → List ρ) (serves : σ → Prop) : Prop where
  static : ∀ s, serves s → ∀ n, (rows s).length < n →
    walk request (List.replicate n s) none =
      ⟨(rows s).insertionSort fun a b => key a ≤ key b,some (.ok ())⟩
  once : ∀ s ss, serves s →
    ((walk request (s :: ss) none).items.Pairwise fun a b => key a < key b) ∧
    ∀ r, r ∈ (walk request (s :: ss) none).items → ∃ t, t ∈ s :: ss ∧ serves t ∧ r ∈ rows t
  whole : ∀ s ss, serves s → (walk request (s :: ss) none).ended = some (.ok ()) → ∀ k,
    (∀ t, t ∈ s :: ss → ∃ r, r ∈ rows t ∧ key r = k) →
    ∃ r, r ∈ (walk request (s :: ss) none).items ∧ key r = k
  refused : ∀ s ss, serves s → ∀ e, (walk request (s :: ss) none).ended = some (.error e) →
    ∃ t, t ∈ ss ∧ ¬ serves t

omit [LinearOrder κ] in
theorem begins_cons (hs : serves s) : Begins serves (none : Option κ) (s :: ss) := by
  intro _ t ht
  cases ht
  exact hs

theorem Paginates.complete (h : Paginates request limit key encode rows serves known) :
    Complete request key rows serves := by
  have hknown : ∀ k, (none : Option κ) = some k → known k := fun _ hk => nomatch hk
  refine ⟨fun s hs n hn => ?_,fun s ss hs => ?_,fun s ss hs hended k hrows => ?_,
    fun s ss hs e hended => ?_⟩
  · have hall : remaining key none (rows s) =
        (rows s).insertionSort fun a b => key a ≤ key b := by
      simp [remaining]
    have hwalk := h.walk_static hknown hs (n := n) (by
      rw [hall, List.length_insertionSort]
      exact hn)
    rwa [hall, Option.map_none] at hwalk
  · have hbegins : Begins serves (none : Option κ) (s :: ss) := begins_cons hs
    obtain ⟨hsorted,-,hrows⟩ := h.walk_sorted hknown hbegins
    exact ⟨hsorted,hrows⟩
  · exact h.walk_complete hknown (begins_cons hs) hended (fun _ hk => nomatch hk) hrows
  · obtain ⟨t,ht,hserves⟩ := h.walk_error hknown (begins_cons hs) hended
    rcases List.mem_cons.1 ht with rfl | ht
    · exact absurd hs hserves
    · exact ⟨t,ht,hserves⟩

end Walks

/-! ### Positions -/

section Positions
variable {ρ : Type} {key : ρ → ℕ} {rows : List ρ}

/-- The rows from a position on are those whose key is not below it. -/
theorem filter_position (hrows : rows.map key = List.range rows.length) (n : ℕ) :
    rows.filter (fun r => decide (n ≤ key r)) = rows.drop n := by
  have hkey : ∀ i r, rows[i]? = some r → key r = i := by
    intro i r hr
    have hmap : (rows.map key)[i]? = some (key r) := by
      rw [List.getElem?_map, hr]
      rfl
    rw [hrows] at hmap
    obtain ⟨hi,he⟩ := List.getElem?_eq_some_iff.1 hmap
    simpa using he.symm
  have hsplit : (rows.take n ++ rows.drop n).filter (fun r => decide (n ≤ key r)) =
      rows.drop n := by
    rw [List.filter_append, List.filter_eq_nil_iff.2, List.filter_eq_self.2, List.nil_append]
    · intro r hr
      obtain ⟨i,hi⟩ := List.mem_iff_getElem?.1 hr
      rw [List.getElem?_drop] at hi
      have := hkey _ r hi
      simp only [decide_eq_true_eq]
      omega
    · intro r hr
      obtain ⟨i,hi⟩ := List.mem_iff_getElem?.1 hr
      rw [List.getElem?_take] at hi
      split at hi
      · rename_i hlt
        have := hkey _ r hi
        simp only [decide_eq_true_eq]
        omega
      · cases hi
  rwa [List.take_append_drop] at hsplit

/-- A list in the order of its positions, from the position after a cursor on. -/
theorem remaining_position (hrows : rows.map key = List.range rows.length) (after : Option ℕ) :
    remaining key after rows = rows.drop ((after.map (· + 1)).getD 0) := by
  have hsorted : rows.Pairwise fun a b => key a ≤ key b := by
    have hrange : (rows.map key).Pairwise (· ≤ ·) := by
      rw [hrows]
      exact List.pairwise_le_range
    exact List.pairwise_map.1 hrange
  have hfilter : rows.filter (fun r => after.all fun k => decide (k < key r)) =
      rows.drop ((after.map (· + 1)).getD 0) := by
    rw [← filter_position hrows]
    refine List.filter_congr fun r _ => ?_
    cases after with
    | none => simp
    | some k => exact decide_eq_decide.2 Nat.lt_iff_add_one_le
  unfold remaining
  rw [hfilter]
  exact (hsorted.sublist (List.drop_sublist _ _)).insertionSort_eq

end Positions

end Keyset
end PdfBridge
