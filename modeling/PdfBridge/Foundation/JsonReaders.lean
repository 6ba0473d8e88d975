import PdfBridge.Foundation.JsonText

/-! Readers of JSON text that differ in what they make of repeated members and of non-finite
constants. What a strict reader accepts, every other reader reads alike. -/
namespace PdfBridge
namespace Json
open Unicode

/-- What a reader makes of the members of an object, and of `NaN` and the infinities. -/
structure Hooks where
  object : Members → Option Members
  constant : Double → Option Value

/-- Members without repetitions are read as they stand. -/
def Hooks.Faithful (h : Hooks) : Prop :=
  ∀ ms : Members, (ms.map Prod.fst).Nodup → h.object ms = some ms

/-- Repetitions and constants are refused. -/
structure Hooks.Strict (h : Hooks) : Prop where
  faithful : h.Faithful
  object : ∀ ms ms', h.object ms = some ms' → (ms.map Prod.fst).Nodup
  constant : ∀ x, h.constant x = none

/-- Of repeated members the last stays, and constants are floats. -/
def plain : Hooks := ⟨fun ms => some (lastMembers ms),fun x => some (.float x)⟩

theorem plain_faithful : plain.Faithful := fun _ h => congrArg some (lastMembers_nodup h)

/-! ### The reader -/

section Reader
variable (h : Hooks) (py : Interpreter)

def readScalar (s : Str) : Option (Value × Str) :=
  match parseLiteral s with
  | some (.float x,rest) => (h.constant x).map fun v => (v,rest)
  | some r => some r
  | none => (readNumber py (s.takeWhile numberChar)).map fun v => (v,s.dropWhile numberChar)

/-- A list or an object behind its opening bracket `c`, with values read by `value`. -/
def readContainer (value : Str → Except Failure (Value × Str)) (c : CodePoint) (s : Str) :
    Except Failure (Value × Str) :=
  if c = openList then
    if s.head? = some closeList then pure (.list [],s.tail)
    else do
      let (items,rest) ← parseItems value s.length s
      pure (.list items,rest)
  else if s.head? = some closeObject then do
    let members ← orInvalid (h.object [])
    pure (.object members,s.tail)
  else do
    let (pairs,rest) ← parseMembers value s.length s
    let members ← orInvalid (h.object pairs)
    pure (.object members,rest)

/-- A value whose containers are read by `nested`, if the stack still allows one. -/
def readWith (nested : Option (Str → Except Failure (Value × Str))) :
    Str → Except Failure (Value × Str)
  | [] => .error .invalid
  | c :: s =>
      if c = quote then do
        let (text,rest) ← orInvalid (parseString s)
        pure (.str text,rest)
      else if c = openList ∨ c = openObject then
        match nested with
        | none => .error .recursion
        | some value => readContainer h value c (skipWhitespace s)
      else orInvalid (readScalar h py (c :: s))

def readValue : ℕ → Str → Except Failure (Value × Str)
  | 0 => readWith h py none
  | stack + 1 => readWith h py (some (readValue stack))

/-- `json.loads` of text, with hooks. -/
def readText (s : Str) : Except Failure Value := do
  let (v,rest) ← readValue h py (py.stack.getD s.length) (skipWhitespace s)
  if skipWhitespace rest = [] then pure v else .error .invalid

theorem readText_nil : readText h py [] = .error .invalid := by
  have hvalue : ∀ stack, readValue h py stack [] = .error .invalid := by
    intro stack
    cases stack <;> rfl
  simp only [readText, skipWhitespace, List.dropWhile_nil, hvalue]
  rfl

end Reader

/-! ### The plain reader -/

section Plain
variable {py : Interpreter}

theorem readScalar_plain : readScalar plain py = parseScalar py := by
  funext s
  unfold readScalar parseScalar
  cases h : parseLiteral s with
  | none => rfl
  | some r =>
    obtain ⟨v,rest⟩ := r
    cases v <;> rfl

theorem readWith_plain (nested : Option (Str → Except Failure (Value × Str))) :
    readWith plain py nested = parseWith py nested := by
  funext s
  cases s with
  | nil => rfl
  | cons c s =>
    unfold readWith parseWith
    rw [readScalar_plain]
    rfl

theorem readValue_plain (stack : ℕ) : readValue plain py stack = parseValue py stack := by
  induction stack with
  | zero => rw [readValue, parseValue, readWith_plain]
  | succ stack ih => rw [readValue, parseValue, readWith_plain, ih]

/-- Without hooks, `json.loads` is the plain reader. -/
theorem readText_plain : readText plain py = loads py := by
  funext s
  rw [readText, loads, readValue_plain]

end Plain

/-! ### What the strict reader accepts -/

/-- No object of the value repeats a member. -/
inductive Distinct : Value → Prop
  | null : Distinct .null
  | bool (b : Bool) : Distinct (.bool b)
  | int (n : ℤ) : Distinct (.int n)
  | float (x : Double) : Distinct (.float x)
  | str (s : Str) : Distinct (.str s)
  | list {items : List Value} (h : ∀ v ∈ items, Distinct v) : Distinct (.list items)
  | object {members : Members} (hkeys : (members.map Prod.fst).Nodup)
      (h : ∀ m ∈ members, Distinct m.2) : Distinct (.object members)

theorem bind_eq_ok {α β : Type} {x : Except Failure α} {f : α → Except Failure β} {b : β} :
    (x >>= f) = .ok b ↔ ∃ a, x = .ok a ∧ f a = .ok b := by
  cases x with
  | error e => simp [bind, Except.bind]
  | ok a => simp [bind, Except.bind]

theorem pure_eq_ok {α : Type} {a b : α} : (pure a : Except Failure α) = .ok b ↔ a = b := by
  simp [pure, Except.pure]

theorem orInvalid_eq_ok {α : Type} {x : Option α} {a : α} :
    orInvalid x = .ok a ↔ x = some a := by
  cases x <;> simp [orInvalid]

/-- What the reader `f` of values accepts satisfies `P`, and `g` reads it alike. -/
def Below (P : Value → Prop) (f g : Str → Except Failure (Value × Str)) : Prop :=
  ∀ s v rest, f s = .ok (v,rest) → P v ∧ g s = .ok (v,rest)

section Lists
variable {P : Value → Prop} {f g : Str → Except Failure (Value × Str)}

theorem Below.items (h : Below P f g) (fuel : ℕ) {s rest : Str} {items : List Value}
    (hr : parseItems f fuel s = .ok (items,rest)) :
    (∀ v ∈ items, P v) ∧ parseItems g fuel s = .ok (items,rest) := by
  induction fuel generalizing s rest items with
  | zero => cases hr
  | succ fuel ih =>
    unfold parseItems at hr ⊢
    rw [bind_eq_ok] at hr
    obtain ⟨⟨v,t⟩,hv,hr⟩ := hr
    obtain ⟨hP,hg⟩ := h _ _ _ hv
    simp only [hg, bind_eq_ok, Except.ok.injEq, exists_eq_left']
    cases hs : skipWhitespace t with
    | nil => simp [hs] at hr
    | cons c t =>
      simp only [hs] at hr ⊢
      split_ifs at hr ⊢ with hclose hcomma
      · rw [pure_eq_ok] at hr
        cases hr
        exact ⟨by simpa using hP,rfl⟩
      · rw [bind_eq_ok] at hr
        obtain ⟨⟨vs,u⟩,hvs,hr⟩ := hr
        rw [pure_eq_ok] at hr
        cases hr
        obtain ⟨hall,hrest⟩ := ih hvs
        simp only [hrest, bind_eq_ok, Except.ok.injEq, exists_eq_left', pure_eq_ok, and_true]
        exact List.forall_mem_cons.2 ⟨hP,hall⟩

theorem Below.members (h : Below P f g) (fuel : ℕ) {s rest : Str} {members : Members}
    (hr : parseMembers f fuel s = .ok (members,rest)) :
    (∀ m ∈ members, P m.2) ∧ parseMembers g fuel s = .ok (members,rest) := by
  induction fuel generalizing s rest members with
  | zero => cases hr
  | succ fuel ih =>
    cases s with
    | nil => cases hr
    | cons c s =>
      unfold parseMembers at hr ⊢
      split_ifs at hr ⊢ with hquote
      rw [bind_eq_ok] at hr
      obtain ⟨⟨key,t⟩,hkey,hr⟩ := hr
      simp only [hkey, bind_eq_ok, Except.ok.injEq, exists_eq_left']
      cases ht : skipWhitespace t with
      | nil => simp [ht] at hr
      | cons c t =>
        simp only [ht] at hr ⊢
        split_ifs at hr ⊢ with hcolon
        rw [bind_eq_ok] at hr
        obtain ⟨⟨v,u⟩,hv,hr⟩ := hr
        obtain ⟨hP,hg⟩ := h _ _ _ hv
        simp only [hg, bind_eq_ok, Except.ok.injEq, exists_eq_left']
        cases hu : skipWhitespace u with
        | nil => simp [hu] at hr
        | cons c u =>
          simp only [hu] at hr ⊢
          split_ifs at hr ⊢ with hclose hcomma
          · rw [pure_eq_ok] at hr
            cases hr
            exact ⟨by simpa using hP,rfl⟩
          · rw [bind_eq_ok] at hr
            obtain ⟨⟨ms,w⟩,hms,hr⟩ := hr
            rw [pure_eq_ok] at hr
            cases hr
            obtain ⟨hall,hrest⟩ := ih hms
            simp only [hrest, bind_eq_ok, Except.ok.injEq, exists_eq_left', pure_eq_ok, and_true]
            exact List.forall_mem_cons.2 ⟨hP,hall⟩

end Lists

section Strict
variable {S R : Hooks} {py : Interpreter}

theorem distinct_readNumber {token : Str} {v : Value} (h : readNumber py token = some v) :
    Distinct v := by
  unfold readNumber at h
  split_ifs at h
  · cases h
    exact .int _
  · cases h
    exact .float _

theorem distinct_parseLiteral {s rest : Str} {v : Value}
    (h : parseLiteral s = some (v,rest)) : Distinct v := by
  obtain ⟨⟨text,w⟩,hmem,hw⟩ := List.exists_of_findSome?_eq_some h
  have hv : w = v := by
    dsimp only at hw
    split_ifs at hw
    cases hw
    rfl
  subst hv
  simp only [literals, List.mem_cons, Prod.mk.injEq, List.not_mem_nil, or_false] at hmem
  rcases hmem with ⟨-,rfl⟩ | ⟨-,rfl⟩ | ⟨-,rfl⟩ | ⟨-,rfl⟩ | ⟨-,rfl⟩ | ⟨-,rfl⟩
  · exact .null
  · exact .bool _
  · exact .bool _
  · exact .float _
  · exact .float _
  · exact .float _

theorem Hooks.Strict.scalar (hs : S.Strict) {s rest : Str} {v : Value}
    (h : readScalar S py s = some (v,rest)) :
    Distinct v ∧ readScalar R py s = some (v,rest) := by
  unfold readScalar at h ⊢
  cases hl : parseLiteral s with
  | none =>
    simp only [hl] at h ⊢
    obtain ⟨w,hw,he⟩ := Option.map_eq_some_iff.1 h
    cases he
    exact ⟨distinct_readNumber hw,h⟩
  | some r =>
    obtain ⟨w,t⟩ := r
    have hdistinct := distinct_parseLiteral hl
    rw [hl] at h
    cases w with
    | float x => simp [hs.constant x] at h
    | null | bool b | int n | str s | list items | object members =>
      cases h
      exact ⟨hdistinct,rfl⟩

/-- The members that a strict reader accepts are kept by every reader. -/
theorem Hooks.Strict.members (hs : S.Strict) (hr : R.Faithful) {pairs members : Members}
    (h : S.object pairs = some members) (hall : ∀ m ∈ pairs, Distinct m.2) :
    Distinct (.object members) ∧ R.object pairs = some members := by
  have hkeys := hs.object _ _ h
  rw [hs.faithful _ hkeys] at h
  cases h
  exact ⟨.object hkeys hall,hr _ hkeys⟩

theorem Hooks.Strict.container (hs : S.Strict) (hr : R.Faithful)
    {f g : Str → Except Failure (Value × Str)} (hfg : Below Distinct f g) {c : CodePoint}
    {s rest : Str} {v : Value} (h : readContainer S f c s = .ok (v,rest)) :
    Distinct v ∧ readContainer R g c s = .ok (v,rest) := by
  unfold readContainer at h ⊢
  split_ifs at h ⊢ with hlist hclose hclose
  · rw [pure_eq_ok] at h
    cases h
    exact ⟨.list (by simp),rfl⟩
  · rw [bind_eq_ok] at h
    obtain ⟨⟨items,t⟩,hitems,h⟩ := h
    rw [pure_eq_ok] at h
    cases h
    obtain ⟨hall,hg⟩ := hfg.items _ hitems
    refine ⟨.list hall,?_⟩
    simp only [hg, bind_eq_ok, pure_eq_ok, Except.ok.injEq, exists_eq_left']
  · rw [bind_eq_ok] at h
    obtain ⟨members,hmembers,h⟩ := h
    rw [pure_eq_ok] at h
    cases h
    obtain ⟨hdistinct,hkept⟩ := hs.members hr (orInvalid_eq_ok.1 hmembers) (by simp)
    refine ⟨hdistinct,?_⟩
    simp only [orInvalid_eq_ok.2 hkept, bind_eq_ok, pure_eq_ok, Except.ok.injEq, exists_eq_left']
  · rw [bind_eq_ok] at h
    obtain ⟨⟨pairs,t⟩,hpairs,h⟩ := h
    rw [bind_eq_ok] at h
    obtain ⟨members,hmembers,h⟩ := h
    rw [pure_eq_ok] at h
    cases h
    obtain ⟨hall,hg⟩ := hfg.members _ hpairs
    obtain ⟨hdistinct,hkept⟩ := hs.members hr (orInvalid_eq_ok.1 hmembers) hall
    refine ⟨hdistinct,?_⟩
    simp only [hg, orInvalid_eq_ok.2 hkept, bind_eq_ok, pure_eq_ok, Except.ok.injEq,
      exists_eq_left']

theorem Hooks.Strict.readWith (hs : S.Strict) (hr : R.Faithful)
    {nested nested' : Option (Str → Except Failure (Value × Str))}
    (hn : ∀ f, nested = some f → ∃ g, nested' = some g ∧ Below Distinct f g) :
    Below Distinct (readWith S py nested) (readWith R py nested') := by
  intro s v rest h
  cases s with
  | nil => cases h
  | cons c s =>
    simp only [Json.readWith] at h ⊢
    split_ifs at h ⊢ with hquote hopen
    · rw [bind_eq_ok] at h
      obtain ⟨⟨text,t⟩,ht,h⟩ := h
      rw [pure_eq_ok] at h
      cases h
      refine ⟨.str text,?_⟩
      simp only [ht, bind_eq_ok, pure_eq_ok, Except.ok.injEq, exists_eq_left']
    · cases nested with
      | none => cases h
      | some f =>
        obtain ⟨g,rfl,hfg⟩ := hn f rfl
        exact hs.container hr hfg h
    · obtain ⟨hdistinct,hread⟩ := hs.scalar (R := R) (orInvalid_eq_ok.1 h)
      exact ⟨hdistinct,orInvalid_eq_ok.2 hread⟩

theorem Hooks.Strict.readValue (hs : S.Strict) (hr : R.Faithful) (stack : ℕ) :
    Below Distinct (readValue S py stack) (readValue R py stack) := by
  induction stack with
  | zero =>
    apply hs.readWith hr
    intro f hf
    cases hf
  | succ stack ih =>
    apply hs.readWith hr
    intro f hf
    cases hf
    exact ⟨_,rfl,ih⟩

/-- What a strict reader accepts repeats no member, and every faithful reader reads it alike. -/
theorem Hooks.Strict.readText (hs : S.Strict) (hr : R.Faithful) {s : Str} {v : Value}
    (h : readText S py s = .ok v) : Distinct v ∧ readText R py s = .ok v := by
  unfold Json.readText at h ⊢
  rw [bind_eq_ok] at h
  obtain ⟨⟨w,rest⟩,hw,h⟩ := h
  obtain ⟨hdistinct,hread⟩ := hs.readValue hr _ _ _ _ hw
  dsimp only at h
  split_ifs at h with hrest
  rw [pure_eq_ok] at h
  cases h
  refine ⟨hdistinct,?_⟩
  simp only [hread, bind_eq_ok, Except.ok.injEq, exists_eq_left', if_pos hrest]
  rfl

end Strict

end Json
end PdfBridge
