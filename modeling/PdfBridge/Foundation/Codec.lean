import Mathlib.Data.List.Basic
import Mathlib.Tactic.NormNum

/-! Text codecs for small payloads: URL-safe base64 without padding, and flat JSON objects whose
values are strings and natural numbers. Both are read back exactly. -/
namespace PdfBridge
namespace Codec

/-! ### Base64 -/

/-- Three octets are four digits of six bits. -/
def sextets : List ℕ → List ℕ
  | a :: b :: c :: rest =>
      a / 4 :: (a % 4 * 16 + b / 16) :: (b % 16 * 4 + c / 64) :: c % 64 :: sextets rest
  | [a,b] => [a / 4,a % 4 * 16 + b / 16,b % 16 * 4]
  | [a] => [a / 4,a % 4 * 16]
  | [] => []

def octets : List ℕ → Option (List ℕ)
  | p :: q :: r :: s :: rest => do
      let rest ← octets rest
      pure ((p * 4 + q / 16) :: (q % 16 * 16 + r / 4) :: (r % 4 * 64 + s) :: rest)
  | [p,q,r] => some [p * 4 + q / 16,q % 16 * 16 + r / 4]
  | [p,q] => some [p * 4 + q / 16]
  | [_] => none
  | [] => some []

theorem octets_sextets (l : List ℕ) (h : ∀ a, a ∈ l → a < 256) : octets (sextets l) = some l := by
  induction l using sextets.induct with
  | case1 a b c rest ih =>
    have ha := h a (by simp)
    have hb := h b (by simp)
    have hc := h c (by simp)
    have hrest := ih fun x hx => h x (by simp [hx])
    have h₁ : a / 4 * 4 + (a % 4 * 16 + b / 16) / 16 = a := by omega
    have h₂ : (a % 4 * 16 + b / 16) % 16 * 16 + (b % 16 * 4 + c / 64) / 4 = b := by omega
    have h₃ : (b % 16 * 4 + c / 64) % 4 * 64 + c % 64 = c := by omega
    simp only [sextets, octets, hrest, h₁, h₂, h₃, Option.bind_eq_bind, Option.bind_some,
      Option.pure_def]
  | case2 a b =>
    have ha := h a (by simp)
    have hb := h b (by simp)
    have h₁ : a / 4 * 4 + (a % 4 * 16 + b / 16) / 16 = a := by omega
    have h₂ : (a % 4 * 16 + b / 16) % 16 * 16 + b % 16 * 4 / 4 = b := by omega
    simp only [sextets, octets, h₁, h₂]
  | case3 a =>
    have ha := h a (by simp)
    have h₁ : a / 4 * 4 + a % 4 * 16 / 16 = a := by omega
    simp only [sextets, octets, h₁]
  | case4 => rfl

theorem sextets_lt (l : List ℕ) (h : ∀ a, a ∈ l → a < 256) : ∀ d, d ∈ sextets l → d < 64 := by
  induction l using sextets.induct with
  | case1 a b c rest ih =>
    have ha := h a (by simp)
    have hb := h b (by simp)
    have hc := h c (by simp)
    have hrest := ih fun x hx => h x (by simp [hx])
    simp only [sextets, List.mem_cons, forall_eq_or_imp]
    exact ⟨by omega,by omega,by omega,by omega,hrest⟩
  | case2 a b =>
    have ha := h a (by simp)
    have hb := h b (by simp)
    simp only [sextets, List.mem_cons, List.not_mem_nil, or_false, forall_eq_or_imp, forall_eq]
    exact ⟨by omega,by omega,by omega⟩
  | case3 a =>
    have ha := h a (by simp)
    simp only [sextets, List.mem_cons, List.not_mem_nil, or_false, forall_eq_or_imp, forall_eq]
    exact ⟨by omega,by omega⟩
  | case4 => simp [sextets]

/-- `A`–`Z`, `a`–`z`, `0`–`9`, `-` and `_`. -/
def digitChar (d : ℕ) : Char :=
  if d < 26 then Char.ofNat (65 + d)
  else if d < 52 then Char.ofNat (97 + (d - 26))
  else if d < 62 then Char.ofNat (48 + (d - 52))
  else if d = 62 then '-' else '_'

def digitOf (c : Char) : Option ℕ :=
  if 'A' ≤ c ∧ c ≤ 'Z' then some (c.toNat - 65)
  else if 'a' ≤ c ∧ c ≤ 'z' then some (c.toNat - 97 + 26)
  else if '0' ≤ c ∧ c ≤ '9' then some (c.toNat - 48 + 52)
  else if c = '-' then some 62
  else if c = '_' then some 63
  else none

theorem digitOf_digitChar : ∀ d, d < 64 → digitOf (digitChar d) = some d := by decide

/-- `base64.urlsafe_b64encode` without its padding, of ASCII text. -/
def encode64 (text : List Char) : String :=
  String.ofList ((sextets (text.map Char.toNat)).map digitChar)

/-- `base64.urlsafe_b64decode` of unpadded text, as ASCII. -/
def decode64 (encoded : String) : Option (List Char) := do
  let digits ← encoded.toList.mapM digitOf
  let bytes ← octets digits
  pure (bytes.map Char.ofNat)

theorem mapM_digitOf (l : List ℕ) (h : ∀ d, d ∈ l → d < 64) :
    (l.map digitChar).mapM digitOf = some l := by
  induction l with
  | nil => rfl
  | cons d l ih =>
    rw [List.map_cons, List.mapM_cons, digitOf_digitChar d (h d List.mem_cons_self),
      ih fun x hx => h x (List.mem_cons_of_mem _ hx)]
    rfl

def Ascii (text : List Char) : Prop := ∀ c, c ∈ text → c.toNat < 128

theorem decode64_encode64 {text : List Char} (h : Ascii text) :
    decode64 (encode64 text) = some text := by
  have hbytes : ∀ a, a ∈ text.map Char.toNat → a < 256 := by
    intro a ha
    obtain ⟨c,hc,rfl⟩ := List.mem_map.1 ha
    have := h c hc
    omega
  have hback : (text.map Char.toNat).map Char.ofNat = text := by
    rw [List.map_map]
    exact (List.map_congr_left fun c _ => Char.ofNat_toNat c).trans (List.map_id text)
  simp only [decode64, encode64, String.toList_ofList, mapM_digitOf _ (sextets_lt _ hbytes),
    octets_sextets _ hbytes, Option.bind_eq_bind, Option.bind_some, Option.pure_def, hback]

/-! ### Flat JSON objects -/

inductive Field where
  | str (s : String)
  | int (n : ℕ)
deriving DecidableEq

abbrev Payload := List (String × Field)

def quoted (s : String) : List Char := '"' :: s.toList ++ ['"']

def Field.render : Field → List Char
  | .str s => quoted s
  | .int n => Nat.toDigits 10 n

def renderMember (m : String × Field) : List Char := quoted m.1 ++ ':' :: m.2.render

def renderMembers : Payload → List Char
  | [] => ['}']
  | [m] => renderMember m ++ ['}']
  | m :: rest => renderMember m ++ ',' :: renderMembers rest

/-- `json.dumps` with compact separators of members in the order of their keys. -/
def dumps (payload : Payload) : List Char := '{' :: renderMembers payload

/-- The text up to the next quotation mark; escapes are not accepted. -/
def parseString (cs : List Char) : Option (String × List Char) :=
  match cs.dropWhile (· ≠ '"') with
  | '"' :: rest =>
      let text := cs.takeWhile (· ≠ '"')
      if '\\' ∈ text then none else some (String.ofList text,rest)
  | _ => none

def parseField : List Char → Option (Field × List Char)
  | '"' :: cs => (parseString cs).map fun x => (.str x.1,x.2)
  | cs =>
      let digits := cs.takeWhile Char.isDigit
      if digits = [] then none
      else some (.int (Nat.ofDigitChars 10 digits 0),cs.dropWhile Char.isDigit)

def parseMember : List Char → Option ((String × Field) × List Char)
  | '"' :: cs =>
      match parseString cs with
      | some (key,':' :: rest) => (parseField rest).map fun x => ((key,x.1),x.2)
      | _ => none
  | _ => none

/-- The members up to the closing brace; `fuel` bounds their number. -/
def parseMembers : ℕ → List Char → Option Payload
  | 0, _ => none
  | fuel + 1, cs =>
      match parseMember cs with
      | some (m,['}']) => some [m]
      | some (m,',' :: rest) => (parseMembers fuel rest).map (m :: ·)
      | _ => none

/-- `json.loads` of a flat object. -/
def loads : List Char → Option Payload
  | ['{','}'] => some []
  | '{' :: cs => parseMembers cs.length cs
  | _ => none

/-- Text that JSON writes without escapes. -/
def Plain (s : String) : Prop := ∀ c, c ∈ s.toList → c ≠ '"' ∧ c ≠ '\\' ∧ c.toNat < 128

def Field.Plain : Field → Prop
  | .str s => Codec.Plain s
  | .int _ => True

theorem parseString_append {s : String} (hs : Plain s) (rest : List Char) :
    parseString (s.toList ++ '"' :: rest) = some (s,rest) := by
  have hall : ∀ c, c ∈ s.toList → decide (c ≠ '"') = true := fun c hc => by
    simpa using (hs c hc).1
  have htake : (s.toList ++ '"' :: rest).takeWhile (· ≠ '"') = s.toList := by
    rw [List.takeWhile_append_of_pos hall, List.takeWhile_cons_of_neg (by simp), List.append_nil]
  have hdrop : (s.toList ++ '"' :: rest).dropWhile (· ≠ '"') = '"' :: rest := by
    rw [List.dropWhile_append_of_pos hall, List.dropWhile_cons_of_neg (by simp)]
  have hescape : '\\' ∉ s.toList := fun h => (hs _ h).2.1 rfl
  simp only [parseString, hdrop, htake, if_neg hescape, String.ofList_toList]

/-- A number is followed by something else than a digit. -/
def Delimits (rest : List Char) : Prop := ∀ c, rest.head? = some c → c.isDigit = false

theorem parseField_append {f : Field} (hf : f.Plain) {rest : List Char} (hrest : Delimits rest) :
    parseField (f.render ++ rest) = some (f,rest) := by
  cases f with
  | str s =>
    simp only [Field.render, quoted, List.cons_append, List.append_assoc, List.nil_append,
      parseField, parseString_append hf, Option.map_some]
  | int n =>
    have hdigits : ∀ c, c ∈ Nat.toDigits 10 n → c.isDigit = true := fun c hc =>
      Nat.isDigit_of_mem_toDigits (by decide) (by decide) hc
    have hhead : rest.takeWhile Char.isDigit = [] ∧ rest.dropWhile Char.isDigit = rest := by
      cases rest with
      | nil => exact ⟨rfl,rfl⟩
      | cons c rest =>
        have := hrest c rfl
        simp [this]
    have htake : (Nat.toDigits 10 n ++ rest).takeWhile Char.isDigit = Nat.toDigits 10 n := by
      rw [List.takeWhile_append_of_pos hdigits, hhead.1, List.append_nil]
    have hdrop : (Nat.toDigits 10 n ++ rest).dropWhile Char.isDigit = rest := by
      rw [List.dropWhile_append_of_pos hdigits, hhead.2]
    have hne : Nat.toDigits 10 n ≠ [] := Nat.toDigits_ne_nil
    have hquote : ∀ cs, Nat.toDigits 10 n ++ rest ≠ '"' :: cs := by
      intro cs he
      cases hd : Nat.toDigits 10 n with
      | nil => exact hne hd
      | cons c ds =>
        have hc := hdigits c (hd ▸ List.mem_cons_self)
        rw [hd, List.cons_append] at he
        rw [(List.cons.inj he).1] at hc
        exact absurd hc (by decide)
    simp only [Field.render]
    rw [parseField.eq_2 _ hquote]
    simp only [htake, hdrop, if_neg hne, Nat.ofDigitChars_ten_toDigits]

theorem parseMember_append {m : String × Field} (hk : Plain m.1) (hf : m.2.Plain)
    {rest : List Char} (hrest : Delimits rest) :
    parseMember (renderMember m ++ rest) = some (m,rest) := by
  simp only [renderMember, quoted, List.cons_append, List.append_assoc, List.nil_append,
    parseMember, parseString_append hk, parseField_append hf hrest, Option.map_some]

def Payload.Plain (payload : Payload) : Prop :=
  ∀ m, m ∈ payload → Codec.Plain m.1 ∧ m.2.Plain

theorem parseMembers_render {payload : Payload} (h : payload.Plain) (hne : payload ≠ [])
    {fuel : ℕ} (hfuel : payload.length ≤ fuel) :
    parseMembers fuel (renderMembers payload) = some payload := by
  induction payload generalizing fuel with
  | nil => exact absurd rfl hne
  | cons m rest ih =>
    obtain ⟨fuel,rfl⟩ : ∃ n, fuel = n + 1 := ⟨fuel - 1,by simp at hfuel; omega⟩
    obtain ⟨hk,hf⟩ := h m List.mem_cons_self
    cases rest with
    | nil =>
      have hbrace : Delimits ['}'] := fun c hc => by cases hc; decide
      simp only [renderMembers, parseMembers, parseMember_append hk hf hbrace]
    | cons m' rest =>
      have hcomma : ∀ cs, Delimits (',' :: cs) := fun cs c hc => by cases hc; decide
      have hrest : parseMembers fuel (renderMembers (m' :: rest)) = some (m' :: rest) :=
        ih (fun x hx => h x (List.mem_cons_of_mem _ hx)) (by simp)
          (by simp only [List.length_cons] at hfuel ⊢; omega)
      simp only [renderMembers, parseMembers, parseMember_append hk hf (hcomma _)]
      rw [hrest, Option.map_some]

theorem length_renderMembers (payload : Payload) :
    payload.length ≤ (renderMembers payload).length := by
  induction payload using renderMembers.induct with
  | case1 => simp
  | case2 m => simp [renderMembers]
  | case3 m rest hne ih =>
    rw [renderMembers.eq_3 _ _ hne]
    simp only [List.length_append, List.length_cons]
    omega

/-- A written object is read back. -/
theorem loads_dumps {payload : Payload} (h : payload.Plain) (hne : payload ≠ []) :
    loads (dumps payload) = some payload := by
  have hparse := parseMembers_render h hne (length_renderMembers payload)
  have hbrace : renderMembers payload ≠ ['}'] := by
    intro he
    rw [he] at hparse
    cases hparse
  unfold dumps
  rw [loads.eq_2 _ hbrace]
  exact hparse

theorem isDigit_ascii {c : Char} (h : c.isDigit = true) : c.toNat < 128 := by
  simp only [Char.isDigit, Bool.and_eq_true, decide_eq_true_eq] at h
  have := h.2
  simp only [UInt32.le_iff_toNat_le] at this
  exact lt_of_le_of_lt this (by decide)

theorem ascii_dumps {payload : Payload} (h : payload.Plain) : Ascii (dumps payload) := by
  have hquoted : ∀ s, Plain s → Ascii (quoted s) := by
    intro s hs c hc
    simp only [quoted, List.mem_cons, List.mem_append, List.not_mem_nil, or_false] at hc
    rcases hc with (rfl | hc) | rfl
    · decide
    · exact (hs c hc).2.2
    · decide
  have hfield : ∀ f : Field, f.Plain → Ascii f.render := by
    intro f hf
    cases f with
    | str s => exact hquoted s hf
    | int n =>
      exact fun c hc => isDigit_ascii (Nat.isDigit_of_mem_toDigits (by decide) (by decide) hc)
  have hmember : ∀ m : String × Field, Plain m.1 ∧ m.2.Plain → Ascii (renderMember m) := by
    rintro m ⟨hk,hf⟩ c hc
    simp only [renderMember, List.mem_append, List.mem_cons] at hc
    rcases hc with hc | rfl | hc
    · exact hquoted m.1 hk c hc
    · decide
    · exact hfield m.2 hf c hc
  have hmembers : Ascii (renderMembers payload) := by
    induction payload using renderMembers.induct with
    | case1 =>
      intro c hc
      cases List.mem_singleton.1 hc
      decide
    | case2 m =>
      intro c hc
      rcases List.mem_append.1 hc with hc | hc
      · exact hmember m (h m List.mem_cons_self) c hc
      · cases List.mem_singleton.1 hc
        decide
    | case3 m rest hne ih =>
      intro c hc
      rw [renderMembers.eq_3 _ _ hne] at hc
      simp only [List.mem_append, List.mem_cons] at hc
      rcases hc with hc | rfl | hc
      · exact hmember m (h m List.mem_cons_self) c hc
      · decide
      · exact ih (fun x hx => h x (List.mem_cons_of_mem _ hx)) c hc
  intro c hc
  rcases List.mem_cons.1 hc with rfl | hc
  · decide
  · exact hmembers c hc

/-! ### Cursors -/

/-- The opaque text of a payload. -/
def encodeCursor (payload : Payload) : String := encode64 (dumps payload)

def decodeCursor (cursor : String) : Option Payload := (decode64 cursor).bind loads

theorem decodeCursor_encodeCursor {payload : Payload} (h : payload.Plain) (hne : payload ≠ []) :
    decodeCursor (encodeCursor payload) = some payload := by
  rw [decodeCursor, encodeCursor, decode64_encode64 (ascii_dumps h), Option.bind_some,
    loads_dumps h hne]

theorem length_sextets (l : List ℕ) : 3 * (sextets l).length ≤ 4 * l.length + 4 := by
  induction l using sextets.induct with
  | case1 a b c rest ih =>
    simp only [sextets, List.length_cons]
    omega
  | case2 a b => simp [sextets]
  | case3 a => simp [sextets]
  | case4 => simp [sextets]

theorem length_encodeCursor (payload : Payload) :
    3 * (encodeCursor payload).length ≤ 4 * (dumps payload).length + 4 := by
  simp only [encodeCursor, encode64, String.length_ofList, List.length_map]
  exact (length_sextets _).trans_eq (by rw [List.length_map])

end Codec
end PdfBridge
