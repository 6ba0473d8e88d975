import Mathlib.Data.Rat.Lemmas
import PdfBridge.Foundation.Json

/-! JSON text is read back. A value whose objects have distinct keys and whose floats are finite
is recovered from its text, and objects with the same members have one text. -/
namespace PdfBridge
namespace Json
open Unicode

/-! ### Numbers are read back -/

section Numbers
variable {py : Interpreter}

theorem codePoint_val {c : Char} : (codePoint c).val = c.toNat := by
  have hc : c.toNat < 0x110000 := by
    rcases c.valid with h | h
    · exact lt_trans h (by decide)
    · exact h.2
  simp only [codePoint, Fin.ofNat]
  exact Nat.mod_eq_of_lt hc

theorem digits_isDigit {n : ℕ} : ∀ c, c ∈ digits n → isDigit c = true := by
  intro c hc
  obtain ⟨x,hx,rfl⟩ := List.mem_map.1 hc
  have hdigit := Nat.isDigit_of_mem_toDigits (by decide) (by decide) hx
  simp only [Char.isDigit, Bool.and_eq_true, decide_eq_true_eq, UInt32.le_iff_toNat_le] at hdigit
  simp only [isDigit, codePoint_val, Bool.and_eq_true, decide_eq_true_eq]
  exact hdigit

theorem digits_ne_nil {n : ℕ} : digits n ≠ [] := by
  simp [digits, Nat.toDigits_ne_nil]

theorem naturalOf_digits (n : ℕ) : naturalOf (digits n) = n := by
  have h : naturalOf (digits n) = Nat.ofDigitChars 10 (Nat.toDigits 10 n) 0 := by
    simp only [naturalOf, digits, List.foldl_map, codePoint_val, Nat.ofDigitChars]
    rfl
  rw [h, Nat.ofDigitChars_ten_toDigits]

/-- Only zero is written with a leading zero. -/
theorem digits_head {n : ℕ} (h : (digits n).head? = some 48) : n = 0 := by
  induction n using Nat.strong_induction_on with
  | h n ih =>
    by_cases hn : n < 10
    · have hall : ∀ m, m < 10 → (digits m).head? = some 48 → m = 0 := by decide
      exact hall n hn h
    · have hsplit : digits n = digits (n / 10) ++ [codePoint (n % 10).digitChar] := by
        simp only [digits]
        rw [Nat.toDigits_of_base_le (by decide) (not_lt.1 hn), List.map_append]
        rfl
      have hhead : (digits (n / 10)).head? = some 48 := by
        rw [hsplit, List.head?_append_of_ne_nil _ digits_ne_nil] at h
        exact h
      have hzero := ih (n / 10) (by omega) hhead
      omega

theorem isNatural_digits (n : ℕ) : isNatural (digits n) = true := by
  have hshape : (digits n).length = 1 ∨ (digits n).head? ≠ some 48 := by
    by_cases h : (digits n).head? = some 48
    · rw [digits_head h]
      exact Or.inl rfl
    · exact Or.inr h
  simpa [isNatural, digits_ne_nil, List.all_eq_true.2 digits_isDigit] using hshape

theorem isDigit_ne_minus {c : CodePoint} (h : isDigit c = true) : c ≠ minus := by
  rintro rfl
  exact absurd h (by decide)

theorem digits_head_ne_minus (n : ℕ) : ¬ (digits n).head? = some minus := by
  intro h
  exact isDigit_ne_minus (digits_isDigit _ (List.mem_of_mem_head? h)) rfl

theorem isInteger_intText (n : ℤ) : isInteger (intText n) = true := by
  cases n with
  | ofNat n =>
    have htext : intText (.ofNat n) = digits n := rfl
    rw [isInteger, htext, unsigned, if_neg (digits_head_ne_minus n), isNatural_digits]
  | negSucc n =>
    simp only [isInteger, intText, unsigned, List.head?_cons, if_true, List.tail_cons,
      isNatural_digits]

theorem intOf_intText (n : ℤ) : intOf (intText n) = n := by
  cases n with
  | ofNat n =>
    simp only [intOf, intText, if_neg (digits_head_ne_minus n), naturalOf_digits]
    rfl
  | negSucc n =>
    simp only [intOf, intText, List.head?_cons, if_true, List.tail_cons, naturalOf_digits]
    rfl

theorem numberChar_of_isDigit {c : CodePoint} (h : isDigit c = true) : numberChar c = true := by
  simp [numberChar, h]

theorem intText_numberChar {n : ℤ} : ∀ c, c ∈ intText n → numberChar c = true := by
  intro c hc
  cases n with
  | ofNat n => exact numberChar_of_isDigit (digits_isDigit c hc)
  | negSucc n =>
    rcases List.mem_cons.1 hc with rfl | hc
    · decide
    · exact numberChar_of_isDigit (digits_isDigit c hc)

/-- A literal of at most as many digits as the interpreter converts. -/
def convertible (py : Interpreter) (n : ℤ) : Bool :=
  py.maxDigits.all fun limit => (unsigned (intText n)).length ≤ limit

theorem readNumber_intText {n : ℤ} (h : convertible py n = true) :
    readNumber py (intText n) = some (.int n) := by
  simp only [convertible] at h
  simp only [readNumber, isInteger_intText, if_true, h, intOf_intText]

theorem readNumber_repr (x : Binary64) :
    readNumber py (py.repr (.finite x)) = some (.float (.finite x)) := by
  obtain ⟨-,hinteger,hnumber⟩ := py.repr_number x
  simp only [readNumber, hinteger, Bool.false_eq_true, if_false, hnumber, if_true, py.float_repr]

/-- What follows a number does not continue it. -/
def Delimited (rest : Str) : Prop := ∀ c, rest.head? = some c → numberChar c = false

/-- The text of a number is not the beginning of a word. -/
theorem parseLiteral_number {token : Str} (hall : ∀ c, c ∈ token → numberChar c = true)
    (hne : token ≠ []) (hminus : token ≠ [minus]) (rest : Str) :
    parseLiteral (token ++ rest) = none := by
  cases token with
  | nil => exact absurd rfl hne
  | cons c token =>
    have hc := hall c List.mem_cons_self
    have hletters : c ≠ 110 ∧ c ≠ 116 ∧ c ≠ 102 ∧ c ≠ 78 ∧ c ≠ 73 := by
      refine ⟨?_,?_,?_,?_,?_⟩ <;>
      · rintro rfl
        exact absurd hc (by decide)
    obtain ⟨h₁,h₂,h₃,h₄,h₅⟩ := hletters
    have hinfinity : (str "-Infinity").isPrefixOf (c :: token ++ rest) = false := by
      have htext : str "-Infinity" = minus :: 73 :: str "nfinity" := rfl
      cases token with
      | nil =>
        have hc' : ¬ minus = c := fun he => hminus (by rw [he])
        simp [htext, List.isPrefixOf_cons_cons, hc']
      | cons d token =>
        have hd : ¬ (73 : CodePoint) = d := by
          rintro rfl
          exact absurd (hall 73 (by simp)) (by decide)
        simp [htext, List.isPrefixOf_cons_cons, hd]
    have hword : ∀ (w : CodePoint) (word : Str), c ≠ w →
        (w :: word).isPrefixOf (c :: token ++ rest) = false := by
      intro w word hw
      simp [List.isPrefixOf, Ne.symm hw]
    simp only [parseLiteral, literals, List.findSome?_cons, List.findSome?_nil, hinfinity,
      Bool.false_eq_true, if_false]
    have hnull : (str "null").isPrefixOf (c :: token ++ rest) = false := hword _ _ h₁
    have htrue : (str "true").isPrefixOf (c :: token ++ rest) = false := hword _ _ h₂
    have hfalse : (str "false").isPrefixOf (c :: token ++ rest) = false := hword _ _ h₃
    have hnan : (str "NaN").isPrefixOf (c :: token ++ rest) = false := hword _ _ h₄
    have hinf : (str "Infinity").isPrefixOf (c :: token ++ rest) = false := hword _ _ h₅
    simp only [hnull, htrue, hfalse, hnan, hinf, Bool.false_eq_true, if_false]

/-- A number is read up to what delimits it. -/
theorem parseScalar_number {token rest : Str} {v : Value}
    (hall : ∀ c, c ∈ token → numberChar c = true) (hread : readNumber py token = some v)
    (hrest : Delimited rest) : parseScalar py (token ++ rest) = some (v,rest) := by
  have hne : token ≠ [] := by
    rintro rfl
    exact absurd hread (by simp [readNumber, isInteger, isNumber, unsigned, isNatural])
  have hminus : token ≠ [minus] := by
    rintro rfl
    exact absurd hread (by simp [readNumber, isInteger, isNumber, unsigned, isNatural])
  have hhead : rest.takeWhile numberChar = [] ∧ rest.dropWhile numberChar = rest := by
    cases rest with
    | nil => exact ⟨rfl,rfl⟩
    | cons c rest =>
      have hc := hrest c rfl
      simp [hc]
  simp only [parseScalar, parseLiteral_number hall hne hminus rest,
    List.takeWhile_append_of_pos hall, List.dropWhile_append_of_pos hall, hhead.1, hhead.2,
    List.append_nil, hread, Option.map_some]

end Numbers

/-! ### Strings are read back -/

theorem hexValue_hexDigit : ∀ n, n < 16 → hexValue (hexDigit n) = some n := by decide

theorem joinSurrogates_low {v : CodePoint} (h : v.val < 0xd800) (tail r : Str) :
    joinSurrogates v tail r = v :: r := by
  cases r with
  | nil => rfl
  | cons w r =>
    have hv : ¬ (0xd800 ≤ v.val) := not_le.2 h
    simp [joinSurrogates, hv]

/-- One written character is read back. -/
theorem parseString_escape (c : CodePoint) (s : Str) :
    parseString (escape c ++ s) = (parseString s).map fun r => (c :: r.1,r.2) := by
  unfold escape
  split_ifs with h₁ h₂ h₃ h₄ h₅ h₆ h₇ h₈
  · subst h₁
    rfl
  · subst h₂
    rfl
  · obtain rfl : c = 10 := Fin.ext h₃
    rfl
  · obtain rfl : c = 13 := Fin.ext h₄
    rfl
  · obtain rfl : c = 9 := Fin.ext h₅
    rfl
  · obtain rfl : c = 12 := Fin.ext h₆
    rfl
  · obtain rfl : c = 8 := Fin.ext h₇
    rfl
  · have hhex : hex4 48 48 (hexDigit (c.val / 16)) (hexDigit (c.val % 16)) = some c := by
      have hzero : hexValue 48 = some 0 := rfl
      have hvalue : 4096 * 0 + 256 * 0 + 16 * (c.val / 16) + c.val % 16 = c.val := by omega
      simp only [hex4, hzero, hexValue_hexDigit _ (show c.val / 16 < 16 by omega),
        hexValue_hexDigit _ (show c.val % 16 < 16 by omega), Option.bind_eq_bind, Option.bind_some,
        Option.pure_def, hvalue]
      exact congrArg some (Fin.ofNat_val_eq_self c)
    have hjoin : (fun r : Str × Str => (joinSurrogates c s r.1,r.2)) = fun r => (c :: r.1,r.2) :=
      funext fun r => by rw [joinSurrogates_low (by omega)]
    simp only [List.cons_append, List.nil_append]
    rw [parseString.eq_def]
    simp only [hhex, Option.bind_some, hjoin, if_true]
    exact if_neg (by decide)
  · simp only [List.cons_append, List.nil_append]
    rw [parseString.eq_def]
    simp only [if_neg h₁, if_neg h₂, if_neg h₈]

theorem parseString_quoted (s rest : Str) :
    parseString (s.flatMap escape ++ quote :: rest) = some (s,rest) := by
  induction s with
  | nil =>
    rw [List.flatMap_nil, List.nil_append, parseString.eq_def]
    exact if_pos rfl
  | cons c s ih =>
    rw [List.flatMap_cons, List.append_assoc, parseString_escape, ih, Option.map_some]

/-! ### Values are read back -/

section Values
variable {py : Interpreter}

/-- A value that the writer accepts: every object has distinct keys, floats are finite and their
zero has no sign, and containers nest at most `n` deep. -/
inductive Regular (py : Interpreter) : ℕ → Value → Prop
  | null {n} : Regular py n .null
  | bool {n} (b : Bool) : Regular py n (.bool b)
  | int {n} (i : ℤ) (h : convertible py i = true) : Regular py n (.int i)
  | float {n} (x : Binary64) : Regular py n (.float (.finite x))
  | str {n} (s : Str) : Regular py n (.str s)
  | list {n} {items : List Value} (h : ∀ v, v ∈ items → Regular py n v) :
      Regular py (n + 1) (.list items)
  | object {n} {members : Members} (hkeys : (members.map Prod.fst).Nodup)
      (h : ∀ m, m ∈ members → Regular py n m.2) : Regular py (n + 1) (.object members)

theorem Regular.mono {n k : ℕ} {v : Value} (h : Regular py n v) (hk : n ≤ k) :
    Regular py k v := by
  induction h generalizing k with
  | null => exact .null
  | bool b => exact .bool b
  | int i h => exact .int i h
  | float x => exact .float x
  | str s => exact .str s
  | list _ ih =>
    obtain ⟨k,rfl⟩ : ∃ i, k = i + 1 := ⟨k - 1,by omega⟩
    exact .list fun v hv => ih v hv (by omega)
  | object hkeys _ ih =>
    obtain ⟨k,rfl⟩ : ∃ i, k = i + 1 := ⟨k - 1,by omega⟩
    exact .object hkeys fun m hm => ih m hm (by omega)

/-- The first character of a written value. -/
def opens (c : CodePoint) : Prop :=
  isWhitespace c = false ∧ c ≠ closeList ∧ c ≠ closeObject

theorem opens_of_numberChar {c : CodePoint} (h : numberChar c = true) : opens c := by
  refine ⟨?_,?_,?_⟩
  · cases hc : isWhitespace c with
    | false => rfl
    | true =>
      simp only [isWhitespace, Bool.or_eq_true, decide_eq_true_eq] at hc
      simp only [numberChar, isDigit, Bool.or_eq_true, Bool.and_eq_true, decide_eq_true_eq] at h
      omega
  · rintro rfl
    exact absurd h (by decide)
  · rintro rfl
    exact absurd h (by decide)

theorem repr_ne_nil (x : Binary64) : py.repr (.finite x) ≠ [] := by
  intro he
  have hread : readNumber py (py.repr (.finite x)) = some (.float (.finite x)) := readNumber_repr x
  rw [he] at hread
  simp [readNumber, isInteger, isNumber, unsigned, isNatural] at hread

theorem intText_ne_nil (n : ℤ) : intText n ≠ [] := by
  cases n with
  | ofNat n => exact digits_ne_nil
  | negSucc n => exact List.cons_ne_nil _ _

theorem render_opens {n : ℕ} {v : Value} (h : Regular py n v) :
    ∃ c s, render py v = c :: s ∧ opens c := by
  have hnumber : ∀ token : Str, token ≠ [] → (∀ c, c ∈ token → numberChar c = true) →
      ∃ c s, token = c :: s ∧ opens c := by
    intro token hne hall
    cases token with
    | nil => exact absurd rfl hne
    | cons c s => exact ⟨c,s,rfl,opens_of_numberChar (hall c List.mem_cons_self)⟩
  have hopen : ∀ c, c = 110 ∨ c = 116 ∨ c = 102 ∨ c = quote ∨ c = openList ∨ c = openObject →
      opens c := by
    rintro c (rfl | rfl | rfl | rfl | rfl | rfl) <;> exact ⟨rfl,by decide,by decide⟩
  cases h with
  | null => exact ⟨110,_,rfl,hopen _ (by simp)⟩
  | bool b =>
    cases b
    · exact ⟨102,_,rfl,hopen _ (by simp)⟩
    · exact ⟨116,_,rfl,hopen _ (by simp)⟩
  | int i h =>
    rw [render]
    exact hnumber _ (intText_ne_nil i) fun c => intText_numberChar c
  | float x =>
    rw [render]
    exact hnumber _ (repr_ne_nil x) (List.all_eq_true.1 (py.repr_number x).1)
  | str s => exact ⟨quote,_,by rw [render, quoted]; rfl,hopen _ (by simp)⟩
  | @list _ items h =>
    cases items with
    | nil => exact ⟨openList,_,by rw [render],hopen _ (by simp)⟩
    | cons v vs => exact ⟨openList,_,by rw [render]; rfl,hopen _ (by simp)⟩
  | @object _ members hkeys h =>
    cases members with
    | nil => exact ⟨openObject,_,by rw [render],hopen _ (by simp)⟩
    | cons m ms =>
      obtain ⟨key,v⟩ := m
      exact ⟨openObject,_,by rw [render]; rfl,hopen _ (by simp)⟩

theorem skipWhitespace_cons {c : CodePoint} (h : isWhitespace c = false) (s : Str) :
    skipWhitespace (c :: s) = c :: s := by
  simp [skipWhitespace, h]

theorem skipWhitespace_render {n : ℕ} {v : Value} (h : Regular py n v) (s : Str) :
    skipWhitespace (render py v ++ s) = render py v ++ s := by
  obtain ⟨c,t,ht,hc,-⟩ := render_opens h
  rw [ht, List.cons_append, skipWhitespace_cons hc]

theorem delimited_cons {c : CodePoint} (h : numberChar c = false) (s : Str) :
    Delimited (c :: s) := by
  intro d hd
  cases hd
  exact h

theorem renderItems_delimited (py : Interpreter) (vs : List Value) (s : Str) :
    Delimited (renderItems py vs ++ s) := by
  cases vs with
  | nil =>
    rw [renderItems]
    exact delimited_cons (by decide) _
  | cons v vs =>
    rw [renderItems]
    exact delimited_cons (by decide) _

theorem renderMembers_delimited (py : Interpreter) (ms : Members) (s : Str) :
    Delimited (renderMembers py ms ++ s) := by
  cases ms with
  | nil =>
    rw [renderMembers]
    exact delimited_cons (by decide) _
  | cons m ms =>
    obtain ⟨key,v⟩ := m
    rw [renderMembers]
    exact delimited_cons (by decide) _

/-- A reader of single values reads back the text of `v`. -/
def ReadsBack (py : Interpreter) (value : Str → Except Failure (Value × Str)) (v : Value) : Prop :=
  ∀ rest, Delimited rest → value (render py v ++ rest) = .ok (v,rest)

theorem parseItems_render {value : Str → Except Failure (Value × Str)} {n : ℕ} {vs : List Value}
    {v : Value} (hregular : ∀ w, w ∈ v :: vs → Regular py n w)
    (hvalue : ∀ w, w ∈ v :: vs → ReadsBack py value w) {fuel : ℕ} (hfuel : vs.length < fuel)
    (rest : Str) : parseItems value fuel (render py v ++ (renderItems py vs ++ rest)) =
      .ok (v :: vs,rest) := by
  induction vs generalizing v fuel with
  | nil =>
    obtain ⟨fuel,rfl⟩ : ∃ k, fuel = k + 1 := ⟨fuel - 1,by simp at hfuel; omega⟩
    have hv := hvalue v List.mem_cons_self _ (renderItems_delimited py [] rest)
    have hclose : skipWhitespace (renderItems py [] ++ rest) = closeList :: rest := by
      rw [renderItems]
      exact skipWhitespace_cons (by decide) rest
    simp only [parseItems, hv, bind, Except.bind, hclose, if_true]
    rfl
  | cons w vs ih =>
    obtain ⟨fuel,rfl⟩ : ∃ k, fuel = k + 1 := ⟨fuel - 1,by simp at hfuel; omega⟩
    have hv := hvalue v List.mem_cons_self _ (renderItems_delimited py (w :: vs) rest)
    have hcomma : skipWhitespace (renderItems py (w :: vs) ++ rest) =
        comma :: (render py w ++ (renderItems py vs ++ rest)) := by
      rw [renderItems, List.cons_append, List.cons_append, List.append_assoc]
      exact skipWhitespace_cons (by decide) _
    have hne : ¬ comma = closeList := by decide
    have hrest := ih (fun x hx => hregular x (List.mem_cons_of_mem _ hx))
      (fun x hx => hvalue x (List.mem_cons_of_mem _ hx))
      (Nat.lt_of_succ_lt_succ hfuel)
    have hskip := skipWhitespace_render (hregular w (by simp)) (renderItems py vs ++ rest)
    simp only [parseItems, hv, bind, Except.bind, hcomma, if_neg hne, if_true, hskip, hrest]
    rfl

theorem parseMembers_render {value : Str → Except Failure (Value × Str)} {n : ℕ} {ms : Members}
    {m : Str × Value} (hregular : ∀ w, w ∈ m :: ms → Regular py n w.2)
    (hvalue : ∀ w, w ∈ m :: ms → ReadsBack py value w.2) {fuel : ℕ} (hfuel : ms.length < fuel)
    (rest : Str) : parseMembers value fuel
      (quoted m.1 ++ (colon :: (render py m.2 ++ (renderMembers py ms ++ rest)))) =
        .ok (m :: ms,rest) := by
  induction ms generalizing m fuel with
  | nil =>
    obtain ⟨fuel,rfl⟩ : ∃ k, fuel = k + 1 := ⟨fuel - 1,by simp at hfuel; omega⟩
    have hv := hvalue m List.mem_cons_self _ (renderMembers_delimited py [] rest)
    have hclose : skipWhitespace (renderMembers py [] ++ rest) = closeObject :: rest := by
      rw [renderMembers]
      exact skipWhitespace_cons (by decide) rest
    have hskip := skipWhitespace_render (hregular m List.mem_cons_self)
      (renderMembers py [] ++ rest)
    have hcolon : ∀ s, skipWhitespace (colon :: s) = colon :: s := skipWhitespace_cons (by decide)
    simp only [quoted, List.cons_append, List.append_assoc, List.nil_append, parseMembers, if_true,
      parseString_quoted, orInvalid, bind, Except.bind, hcolon, hskip, hv, hclose]
    rfl
  | cons w ms ih =>
    obtain ⟨fuel,rfl⟩ : ∃ k, fuel = k + 1 := ⟨fuel - 1,by simp at hfuel; omega⟩
    obtain ⟨key,x⟩ := w
    have hv := hvalue m List.mem_cons_self _ (renderMembers_delimited py ((key,x) :: ms) rest)
    have hcomma : skipWhitespace (renderMembers py ((key,x) :: ms) ++ rest) =
        comma :: (quoted key ++ (colon :: (render py x ++ (renderMembers py ms ++ rest)))) := by
      rw [renderMembers]
      simp only [List.cons_append, List.append_assoc]
      exact skipWhitespace_cons (by decide) _
    have hne : ¬ comma = closeObject := by decide
    have hrest := ih (m := (key,x)) (fun y hy => hregular y (List.mem_cons_of_mem _ hy))
      (fun y hy => hvalue y (List.mem_cons_of_mem _ hy)) (Nat.lt_of_succ_lt_succ hfuel)
    have hskip := skipWhitespace_render (hregular m List.mem_cons_self)
      (renderMembers py ((key,x) :: ms) ++ rest)
    have hquote : ∀ s, skipWhitespace (quoted key ++ s) = quoted key ++ s :=
      fun s => skipWhitespace_cons (by decide) _
    have hcolon : ∀ s, skipWhitespace (colon :: s) = colon :: s := skipWhitespace_cons (by decide)
    rw [quoted]
    simp only [List.cons_append, List.append_assoc, List.nil_append, parseMembers, if_true,
      parseString_quoted, orInvalid, bind, Except.bind, hcolon, hskip, hv, hcomma, if_neg hne,
      hquote, hrest]
    rfl

theorem lastMembers_nodup {ms : Members} (h : (ms.map Prod.fst).Nodup) : lastMembers ms = ms := by
  induction ms with
  | nil => rfl
  | cons m ms ih =>
    rw [List.map_cons, List.nodup_cons] at h
    rw [lastMembers, if_neg h.1, ih h.2]

theorem length_renderItems (py : Interpreter) (vs : List Value) : vs.length < (renderItems py vs).length := by
  induction vs with
  | nil =>
    rw [renderItems]
    decide
  | cons v vs ih =>
    rw [renderItems]
    simp only [List.cons_append, List.length_cons, List.length_append]
    omega

theorem length_renderMembers (py : Interpreter) (ms : Members) : ms.length < (renderMembers py ms).length := by
  induction ms with
  | nil =>
    rw [renderMembers]
    decide
  | cons m ms ih =>
    obtain ⟨key,v⟩ := m
    rw [renderMembers]
    simp only [List.cons_append, List.length_cons, List.length_append]
    omega

/-- A word or a number is read by every reader of values. -/
theorem parseWith_scalar {nested : Option (Str → Except Failure (Value × Str))} {c : CodePoint}
    {s rest : Str} {v : Value} (hc : c ≠ quote ∧ c ≠ openList ∧ c ≠ openObject)
    (h : parseScalar py (c :: s) = some (v,rest)) :
    parseWith py nested (c :: s) = .ok (v,rest) := by
  obtain ⟨h₁,h₂,h₃⟩ := hc
  simp only [parseWith, if_neg h₁, h₂, h₃, or_self, if_false, h, orInvalid]

theorem parseWith_number {nested : Option (Str → Except Failure (Value × Str))}
    {token rest : Str} {v : Value} (hall : ∀ c, c ∈ token → numberChar c = true)
    (hread : readNumber py token = some v) (hne : token ≠ []) (hrest : Delimited rest) :
    parseWith py nested (token ++ rest) = .ok (v,rest) := by
  have hscalar := parseScalar_number hall hread hrest
  cases token with
  | nil => exact absurd rfl hne
  | cons c token =>
    have hc := hall c List.mem_cons_self
    refine parseWith_scalar ⟨?_,?_,?_⟩ hscalar <;>
    · rintro rfl
      exact absurd hc (by decide)

/-- A written value is read back as long as the stack allows its nesting. -/
theorem parseValue_render {n : ℕ} {v : Value} (h : Regular py n v) {stack : ℕ} (hn : n ≤ stack) :
    ReadsBack py (parseValue py stack) v := by
  induction h generalizing stack with
  | null =>
    intro rest _
    cases stack <;> exact parseWith_scalar (by decide) rfl
  | bool b =>
    intro rest _
    cases b <;> cases stack <;> exact parseWith_scalar (by decide) rfl
  | int i h =>
    intro rest hrest
    have hread := readNumber_intText h
    rw [render]
    cases stack <;>
      exact parseWith_number (fun c => intText_numberChar c) hread (intText_ne_nil i) hrest
  | float x =>
    intro rest hrest
    have hall := List.all_eq_true.1 (py.repr_number x).1
    rw [render]
    cases stack <;> exact parseWith_number hall (readNumber_repr x) (repr_ne_nil x) hrest
  | str s =>
    intro rest _
    rw [render]
    cases stack <;>
      simp only [quoted, List.cons_append, List.append_assoc, List.nil_append, parseValue,
        parseWith, if_true, parseString_quoted, orInvalid, bind, Except.bind] <;> rfl
  | @list n items h ih =>
    intro rest hrest
    obtain ⟨stack,rfl⟩ : ∃ i, stack = i + 1 := ⟨stack - 1,by omega⟩
    have hnested : n ≤ stack := by omega
    have hq : ¬ openList = quote := by decide
    cases items with
    | nil =>
      rw [render]
      simp only [List.cons_append, List.nil_append, parseValue, parseWith, if_neg hq,
        true_or, if_true, skipWhitespace_cons (show isWhitespace closeList = false by decide),
        List.head?_cons, List.tail_cons]
      rfl
    | cons v vs =>
      obtain ⟨c,t,ht,hc,hclose,-⟩ := render_opens (h v List.mem_cons_self)
      have hfuel : vs.length < (render py v ++ (renderItems py vs ++ rest)).length := by
        have := length_renderItems py vs
        simp only [List.length_append]
        omega
      have hitems := parseItems_render h (fun w hw => ih w hw hnested) hfuel rest
      have hhead : ¬ (render py v ++ (renderItems py vs ++ rest)).head? = some closeList := by
        rw [ht]
        simpa using hclose
      rw [render]
      simp only [List.cons_append, List.append_assoc, parseValue, parseWith,
        if_neg hq, true_or, if_true,
        skipWhitespace_render (h v List.mem_cons_self) (renderItems py vs ++ rest), if_neg hhead,
        hitems, bind, Except.bind]
      rfl
  | @object n members hkeys h ih =>
    intro rest hrest
    obtain ⟨stack,rfl⟩ : ∃ i, stack = i + 1 := ⟨stack - 1,by omega⟩
    have hnested : n ≤ stack := by omega
    have hq : ¬ openObject = quote := by decide
    have hl : ¬ openObject = openList := by decide
    cases members with
    | nil =>
      rw [render]
      simp only [List.cons_append, List.nil_append, parseValue, parseWith, if_neg hq,
        if_neg hl, or_true, if_true,
        skipWhitespace_cons (show isWhitespace closeObject = false by decide), List.head?_cons,
        List.tail_cons]
      rfl
    | cons m ms =>
      obtain ⟨key,v⟩ := m
      have hfuel : ms.length < (quoted key ++
          (colon :: (render py v ++ (renderMembers py ms ++ rest)))).length := by
        have := length_renderMembers py ms
        simp only [List.length_append, List.length_cons]
        omega
      have hmembers := parseMembers_render h (fun w hw => ih w hw hnested) hfuel rest
      have hskip : skipWhitespace
          (quoted key ++ (colon :: (render py v ++ (renderMembers py ms ++ rest)))) =
            quoted key ++ (colon :: (render py v ++ (renderMembers py ms ++ rest))) :=
        skipWhitespace_cons (by decide) _
      have hhead : ¬ (quoted key ++
          (colon :: (render py v ++ (renderMembers py ms ++ rest)))).head? =
            some closeObject := by
        rw [quoted]
        intro he
        exact absurd (Option.some.inj he) (by decide)
      rw [render]
      simp only [List.cons_append, List.append_assoc, parseValue, parseWith,
        if_neg hq, if_neg hl, or_true, if_true, hskip, if_neg hhead, hmembers, bind, Except.bind,
        lastMembers_nodup hkeys]
      rfl

theorem length_render_le_items (py : Interpreter) {v : Value} {vs : List Value} (h : v ∈ vs) :
    (render py v).length ≤ (renderItems py vs).length := by
  induction vs with
  | nil => cases h
  | cons w vs ih =>
    rw [renderItems]
    simp only [List.cons_append, List.length_cons, List.length_append]
    rcases List.mem_cons.1 h with rfl | h
    · omega
    · have := ih h
      omega

theorem length_render_le_members (py : Interpreter) {m : Str × Value} {ms : Members} (h : m ∈ ms) :
    (render py m.2).length ≤ (renderMembers py ms).length := by
  induction ms with
  | nil => cases h
  | cons w ms ih =>
    obtain ⟨key,v⟩ := w
    rw [renderMembers]
    simp only [List.cons_append, List.length_cons, List.length_append]
    rcases List.mem_cons.1 h with rfl | h
    · simp only
      omega
    · have := ih h
      omega

/-- A value does not nest deeper than its text is long. -/
theorem Regular.length {n : ℕ} {v : Value} (h : Regular py n v) :
    Regular py (render py v).length v := by
  induction h with
  | null => exact .null
  | bool b => exact .bool b
  | int i h => exact .int i h
  | float x => exact .float x
  | str s => exact .str s
  | @list _ items _ ih =>
    cases items with
    | nil =>
      rw [render]
      exact .list fun v hv => by cases hv
    | cons v vs =>
      rw [render, List.cons_append, List.length_cons, List.length_append]
      refine .list fun w hw => (ih w hw).mono ?_
      rcases List.mem_cons.1 hw with rfl | hw
      · omega
      · have := length_render_le_items py hw
        omega
  | @object _ members hkeys _ ih =>
    cases members with
    | nil =>
      rw [render]
      exact .object hkeys fun v hv => by cases hv
    | cons m ms =>
      obtain ⟨key,v⟩ := m
      rw [render]
      simp only [List.cons_append, List.length_cons, List.length_append]
      refine .object hkeys fun w hw => (ih w hw).mono ?_
      rcases List.mem_cons.1 hw with rfl | hw
      · simp only
        omega
      · have := length_render_le_members py hw
        omega

/-- A written value is read back. -/
theorem loads_render {n : ℕ} {v : Value} (h : Regular py n v)
    (hstack : py.stack.all (fun stack => n ≤ stack) = true) : loads py (render py v) = .ok v := by
  have hskip := skipWhitespace_render h []
  rw [List.append_nil] at hskip
  have hread : parseValue py (py.stack.getD (render py v).length) (render py v) = .ok (v,[]) := by
    rw [← List.append_nil (render py v)]
    cases hs : py.stack with
    | none =>
      refine parseValue_render h.length ?_ [] (fun c hc => by cases hc)
      simp
    | some stack =>
      rw [hs] at hstack
      exact parseValue_render h (by simpa using hstack) [] (fun c hc => by cases hc)
  have hnil : skipWhitespace [] = [] := rfl
  simp only [loads, hskip, hread, bind, Except.bind, hnil, if_true]
  rfl

theorem render_injective {n k : ℕ} {v w : Value} (hv : Regular py n v) (hw : Regular py k w)
    (hstack : py.stack = none) (h : render py v = render py w) : v = w := by
  have hall : ∀ n, py.stack.all (fun stack => n ≤ stack) = true := fun n => by rw [hstack]; rfl
  have hread := loads_render hv (hall n)
  rw [h, loads_render hw (hall k)] at hread
  exact (Except.ok.inj hread).symm

end Values

/-! ### Sorted keys -/

section Sorted
variable {py : Interpreter}

theorem sortedItems_eq (items : List Value) : sortedItems items = items.map sorted := by
  induction items with
  | nil => rw [sortedItems, List.map_nil]
  | cons v vs ih => rw [sortedItems, ih, List.map_cons]

theorem sortedMembers_eq (ms : Members) :
    sortedMembers ms = ms.map fun m => (m.1,sorted m.2) := by
  induction ms with
  | nil => rw [sortedMembers, List.map_nil]
  | cons m ms ih => rw [sortedMembers, ih, List.map_cons]

/-- The members in the order of their keys. -/
def byKey (ms : Members) : Members := ms.insertionSort fun a b => a.1 ≤ b.1

theorem sorted_list (items : List Value) : sorted (.list items) = .list (items.map sorted) := by
  rw [sorted, sortedItems_eq]

theorem sorted_object (ms : Members) :
    sorted (.object ms) = .object (byKey (ms.map fun m => (m.1,sorted m.2))) := by
  rw [sorted, sortedMembers_eq, byKey]

theorem perm_byKey (ms : Members) : (byKey ms).Perm ms := List.perm_insertionSort _ ms

theorem map_fst_sorted (ms : Members) :
    (ms.map fun m => (m.1,sorted m.2)).map Prod.fst = ms.map Prod.fst := by
  rw [List.map_map]
  rfl

/-- Sorting keeps what the writer accepts. -/
theorem Regular.sorted {n : ℕ} {v : Value} (h : Regular py n v) : Regular py n (sorted v) := by
  induction h with
  | null => rw [Json.sorted]; exact .null
  | bool b => rw [Json.sorted]; exact .bool b
  | int i h => rw [Json.sorted]; exact .int i h
  | float x => rw [Json.sorted]; exact .float x
  | str s => rw [Json.sorted]; exact .str s
  | list _ ih =>
    rw [sorted_list]
    refine .list fun v hv => ?_
    obtain ⟨w,hw,rfl⟩ := List.mem_map.1 hv
    exact ih w hw
  | object hkeys _ ih =>
    rw [sorted_object]
    refine .object ?_ fun m hm => ?_
    · rw [((perm_byKey _).map Prod.fst).nodup_iff, map_fst_sorted]
      exact hkeys
    · obtain ⟨w,hw,rfl⟩ := List.mem_map.1 ((perm_byKey _).mem_iff.1 hm)
      exact ih w hw

/-- Objects with the same members are sorted alike. -/
theorem byKey_eq_iff {a b : Members} (ha : (a.map Prod.fst).Nodup) (hb : (b.map Prod.fst).Nodup) :
    byKey a = byKey b ↔ ∀ m, m ∈ a ↔ m ∈ b := by
  constructor
  · intro h m
    rw [← (perm_byKey a).mem_iff, h, (perm_byKey b).mem_iff]
  · intro h
    have hperm : a.Perm b :=
      (List.perm_ext_iff_of_nodup (List.Nodup.of_map _ ha) (List.Nodup.of_map _ hb)).2 h
    let order : Str × Value → Str × Value → Prop := fun x y => x.1 ≤ y.1
    have htotal : Std.Total order := ⟨fun x y => le_total x.1 y.1⟩
    have htrans : IsTrans _ order := ⟨fun _ _ _ hxy hyz => le_trans hxy hyz⟩
    refine List.Perm.eq_of_pairwise (fun x y hx hy hxy hyx => ?_)
      (List.pairwise_insertionSort order a) (List.pairwise_insertionSort order b)
      ((perm_byKey a).trans (hperm.trans (perm_byKey b).symm))
    have hx' := (perm_byKey a).mem_iff.1 hx
    have hy' := (h y).2 ((perm_byKey b).mem_iff.1 hy)
    exact List.inj_on_of_nodup_map ha hx' hy' (le_antisymm hxy hyx)

/-- What `dumps` writes, `loads` reads back with its keys in order. -/
theorem loads_dumps {n : ℕ} {v : Value} (h : Regular py n v)
    (hstack : py.stack.all (fun stack => n ≤ stack) = true) :
    loads py (dumps py v) = .ok (sorted v) := loads_render h.sorted hstack

theorem dumps_injective {n k : ℕ} {v w : Value} (hv : Regular py n v) (hw : Regular py k w)
    (hstack : py.stack = none) (h : dumps py v = dumps py w) : sorted v = sorted w :=
  render_injective hv.sorted hw.sorted hstack h

end Sorted

/-! ### Floats written as fractions -/

def fractionText : Double → Str
  | .finite x => intText x.1.num ++ 46 :: digits (x.1.den - 1)
  | .negativeZero => str "-0.0"
  | .infinite negative => str (if negative then "-Infinity" else "Infinity")
  | .nan => str "NaN"

def fractionOf (s : Str) : Double :=
  let x : ℚ := intOf (s.takeWhile fun c => c ≠ 46) /
    (naturalOf ((s.dropWhile fun c => c ≠ 46).tail) + 1 : ℕ)
  match Binary64.ofRat? x with
  | some x => .finite x
  | none => .infinite (decide (x < 0))

theorem takeWhile_digits (n : ℕ) (s : Str) :
    (digits n ++ 46 :: s).takeWhile isDigit = digits n ∧
      (digits n ++ 46 :: s).dropWhile isDigit = 46 :: s := by
  have h46 : isDigit 46 = false := by decide
  rw [List.takeWhile_append_of_pos digits_isDigit, List.dropWhile_append_of_pos digits_isDigit]
  simp [h46]

theorem isFraction_digits (n : ℕ) : isFraction (46 :: digits n) = true := by
  have hall : (digits n ++ []).takeWhile isDigit = _ :=
    List.takeWhile_append_of_pos digits_isDigit
  have hrest : (digits n ++ []).dropWhile isDigit = _ :=
    List.dropWhile_append_of_pos digits_isDigit
  simp only [List.append_nil, List.takeWhile_nil, List.dropWhile_nil] at hall hrest
  simp [isFraction, hall, hrest, digits_ne_nil, isExponent]

theorem fractionText_number (x : Binary64) : (fractionText (.finite x)).all numberChar = true ∧
    isInteger (fractionText (.finite x)) = false ∧ isNumber (fractionText (.finite x)) = true := by
  have hall : ∀ n s, isNatural (digits n ++ 46 :: s) = false := by
    intro n s
    have h46 : isDigit 46 = false := by decide
    simp [isNatural, h46]
  have hhead : ∀ n s, ¬ (digits n ++ 46 :: s).head? = some minus := by
    intro n s
    rw [List.head?_append_of_ne_nil _ digits_ne_nil]
    exact digits_head_ne_minus n
  refine ⟨?_,?_,?_⟩
  · rw [List.all_eq_true]
    intro c hc
    simp only [fractionText, List.mem_append, List.mem_cons] at hc
    rcases hc with hc | rfl | hc
    · exact intText_numberChar c hc
    · decide
    · exact numberChar_of_isDigit (digits_isDigit c hc)
  · cases hn : x.1.num with
    | ofNat n =>
      have htext : intText (.ofNat n) = digits n := rfl
      rw [fractionText, hn, htext, isInteger, unsigned, if_neg (hhead n _), hall]
    | negSucc n =>
      have htext : intText (.negSucc n) = minus :: digits (n + 1) := rfl
      rw [fractionText, hn, htext, isInteger, unsigned, List.cons_append, List.head?_cons,
        if_pos rfl, List.tail_cons, hall]
  · have hnumber : ∀ n, (isNatural ((digits n ++ 46 :: digits (x.1.den - 1)).takeWhile isDigit) &&
        isFraction ((digits n ++ 46 :: digits (x.1.den - 1)).dropWhile isDigit)) = true := by
      intro n
      rw [(takeWhile_digits n _).1, (takeWhile_digits n _).2, isNatural_digits, isFraction_digits]
      rfl
    cases hn : x.1.num with
    | ofNat n =>
      have htext : intText (.ofNat n) = digits n := rfl
      rw [fractionText, hn, htext, isNumber, unsigned, if_neg (hhead n _), hnumber]
    | negSucc n =>
      have htext : intText (.negSucc n) = minus :: digits (n + 1) := rfl
      rw [fractionText, hn, htext, isNumber, unsigned, List.cons_append, List.head?_cons,
        if_pos rfl, List.tail_cons, hnumber]

theorem fractionOf_fractionText (x : Binary64) : fractionOf (fractionText (.finite x)) = .finite x := by
  have hplain : ∀ c, c ∈ intText x.1.num → decide (c ≠ 46) = true := by
    intro c hc
    have hdigit : ∀ n, (46 : CodePoint) ∉ digits n := fun n h => by
      exact absurd (digits_isDigit _ h) (by decide)
    cases hn : x.1.num with
    | ofNat n =>
      rw [hn] at hc
      simpa using fun he : c = 46 => hdigit n (he ▸ hc)
    | negSucc n =>
      rw [hn] at hc
      rcases List.mem_cons.1 hc with rfl | hc
      · rfl
      · simpa using fun he : c = 46 => hdigit _ (he ▸ hc)
  have hnum : (fractionText (.finite x)).takeWhile (fun c => c ≠ 46) = intText x.1.num := by
    rw [fractionText, List.takeWhile_append_of_pos hplain]
    simp
  have hden : (fractionText (.finite x)).dropWhile (fun c => c ≠ 46) =
      46 :: digits (x.1.den - 1) := by
    rw [fractionText, List.dropWhile_append_of_pos hplain]
    simp
  have hpos := x.1.den_pos
  rw [fractionOf, hnum, hden, List.tail_cons, naturalOf_digits, intOf_intText,
    Nat.sub_add_cancel hpos, Rat.num_div_den x.1]
  simp only [Binary64.ofRat?_val]

/-- An interpreter that writes floats as fractions, with a limit on digits and on nesting. -/
def fractions (maxDigits stack : Option ℕ) : Interpreter :=
  ⟨fractionText,fractionOf,maxDigits,stack,fractionText_number,fractionOf_fractionText⟩

end Json
end PdfBridge
