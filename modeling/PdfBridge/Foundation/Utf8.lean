import PdfBridge.Foundation.Unicode

/-! UTF-8. The strict decoder accepts exactly the encodings of texts without surrogates, so that
every such text has one encoding. -/
namespace PdfBridge
namespace Unicode
namespace Utf8

/-! ### The encoder -/

/-- `10xxxxxx`, with six bits of a code point. -/
def continuation (v : ℕ) : ℕ := 0x80 + v % 64

def encodeChar (c : CodePoint) : List ℕ :=
  if c.val < 0x80 then [c.val]
  else if c.val < 0x800 then [0xc0 + c.val / 64,continuation c.val]
  else if c.val < 0x10000 then
    [0xe0 + c.val / 4096,continuation (c.val / 64),continuation c.val]
  else
    [0xf0 + c.val / 262144,continuation (c.val / 4096),continuation (c.val / 64),
      continuation c.val]

def encode (s : Str) : List ℕ := s.flatMap encodeChar

/-! ### The decoder -/

def isContinuation (b : ℕ) : Bool := 0x80 ≤ b && b < 0xc0

/-- The payload of continuation bytes behind the bits of a leading byte. -/
def joined (lead : ℕ) (tails : List ℕ) : ℕ := tails.foldl (fun v b => v * 64 + (b - 0x80)) lead

/-- A sequence is accepted if its code point needs as many bytes and is no surrogate. -/
def accepts (least lead : ℕ) (tails : List ℕ) : Bool :=
  let v := joined lead tails
  tails.all isContinuation && least ≤ v && v < 0x110000 && !(0xd800 ≤ v && v ≤ 0xdfff)

def decode : List ℕ → Option Str
  | [] => some []
  | a :: rest =>
      if a < 0x80 then (decode rest).map fun s => Fin.ofNat 0x110000 a :: s
      else if a < 0xc0 then none
      else if a < 0xe0 then
        match rest with
        | b :: rest =>
            if accepts 0x80 (a - 0xc0) [b] then
              (decode rest).map fun s => Fin.ofNat 0x110000 (joined (a - 0xc0) [b]) :: s
            else none
        | _ => none
      else if a < 0xf0 then
        match rest with
        | b :: b' :: rest =>
            if accepts 0x800 (a - 0xe0) [b,b'] then
              (decode rest).map fun s => Fin.ofNat 0x110000 (joined (a - 0xe0) [b,b']) :: s
            else none
        | _ => none
      else if a < 0xf8 then
        match rest with
        | b :: b' :: b'' :: rest =>
            if accepts 0x10000 (a - 0xf0) [b,b',b''] then
              (decode rest).map fun s => Fin.ofNat 0x110000 (joined (a - 0xf0) [b,b',b'']) :: s
            else none
        | _ => none
      else none

/-! ### Every accepted sequence is an encoding -/

theorem accepts_iff {least lead : ℕ} {tails : List ℕ} :
    accepts least lead tails = true ↔ (∀ b ∈ tails, 0x80 ≤ b ∧ b < 0xc0) ∧
      least ≤ joined lead tails ∧ joined lead tails < 0x110000 ∧
      ¬ (0xd800 ≤ joined lead tails ∧ joined lead tails ≤ 0xdfff) := by
  simp only [accepts, Bool.and_eq_true, List.all_eq_true, isContinuation, decide_eq_true_eq,
    Bool.not_eq_true', Bool.and_eq_false_iff, decide_eq_false_iff_not, not_and_or, and_assoc]

theorem joined_pair (a b : ℕ) : joined a [b] = a * 64 + (b - 0x80) := rfl

theorem joined_triple (a b b' : ℕ) :
    joined a [b,b'] = (a * 64 + (b - 0x80)) * 64 + (b' - 0x80) := rfl

theorem joined_quadruple (a b b' b'' : ℕ) :
    joined a [b,b',b''] = ((a * 64 + (b - 0x80)) * 64 + (b' - 0x80)) * 64 + (b'' - 0x80) := rfl

/-- A sequence of bytes that encodes one code point. -/
def Encodes (bytes : List ℕ) (v : ℕ) : Prop :=
  encodeChar (Fin.ofNat 0x110000 v) = bytes ∧ isSurrogate (Fin.ofNat 0x110000 v) = false

theorem encodes_of_lt {v : ℕ} {bytes : List ℕ} (hv : v < 0x110000)
    (hsurrogate : ¬ (0xd800 ≤ v ∧ v ≤ 0xdfff))
    (h : ∀ c : CodePoint, c.val = v → encodeChar c = bytes) : Encodes bytes v := by
  have hval : (Fin.ofNat 0x110000 v).val = v := Nat.mod_eq_of_lt hv
  refine ⟨h _ hval,?_⟩
  simp only [isSurrogate, hval, Bool.and_eq_false_iff, decide_eq_false_iff_not]
  omega

theorem encodes_single {a : ℕ} (ha : a < 0x80) : Encodes [a] a := by
  apply encodes_of_lt
  · omega
  · omega
  · intro c hc
    simp only [encodeChar, hc, if_pos ha]

theorem encodes_pair {a b : ℕ} (ha : 0xc0 ≤ a) (ha' : a < 0xe0)
    (h : accepts 0x80 (a - 0xc0) [b] = true) : Encodes [a,b] (joined (a - 0xc0) [b]) := by
  obtain ⟨htails,hleast,hbound,hsurrogate⟩ := accepts_iff.1 h
  have hb := htails b List.mem_cons_self
  apply encodes_of_lt hbound hsurrogate
  intro c hc
  rw [joined_pair] at hc hleast
  have h₁ : ¬ c.val < 0x80 := by omega
  have h₂ : c.val < 0x800 := by omega
  have hlead : 0xc0 + c.val / 64 = a := by omega
  have htail : 0x80 + c.val % 64 = b := by omega
  simp only [encodeChar, continuation, if_neg h₁, if_pos h₂, hlead, htail]

theorem encodes_triple {a b b' : ℕ} (ha : 0xe0 ≤ a) (ha' : a < 0xf0)
    (h : accepts 0x800 (a - 0xe0) [b,b'] = true) :
    Encodes [a,b,b'] (joined (a - 0xe0) [b,b']) := by
  obtain ⟨htails,hleast,hbound,hsurrogate⟩ := accepts_iff.1 h
  have hb := htails b (by simp)
  have hb' := htails b' (by simp)
  apply encodes_of_lt hbound hsurrogate
  intro c hc
  rw [joined_triple] at hc hleast
  have h₁ : ¬ c.val < 0x80 := by omega
  have h₂ : ¬ c.val < 0x800 := by omega
  have h₃ : c.val < 0x10000 := by omega
  have hlead : 0xe0 + c.val / 4096 = a := by omega
  have htail : 0x80 + c.val / 64 % 64 = b := by omega
  have htail' : 0x80 + c.val % 64 = b' := by omega
  simp only [encodeChar, continuation, if_neg h₁, if_neg h₂, if_pos h₃, hlead, htail, htail']

theorem encodes_quadruple {a b b' b'' : ℕ} (ha : 0xf0 ≤ a)
    (h : accepts 0x10000 (a - 0xf0) [b,b',b''] = true) :
    Encodes [a,b,b',b''] (joined (a - 0xf0) [b,b',b'']) := by
  obtain ⟨htails,hleast,hbound,hsurrogate⟩ := accepts_iff.1 h
  have hb := htails b (by simp)
  have hb' := htails b' (by simp)
  have hb'' := htails b'' (by simp)
  apply encodes_of_lt hbound hsurrogate
  intro c hc
  rw [joined_quadruple] at hc hleast
  have h₁ : ¬ c.val < 0x80 := by omega
  have h₂ : ¬ c.val < 0x800 := by omega
  have h₃ : ¬ c.val < 0x10000 := by omega
  have hlead : 0xf0 + c.val / 262144 = a := by omega
  have htail : 0x80 + c.val / 4096 % 64 = b := by omega
  have htail' : 0x80 + c.val / 64 % 64 = b' := by omega
  have htail'' : 0x80 + c.val % 64 = b'' := by omega
  simp only [encodeChar, continuation, if_neg h₁, if_neg h₂, if_neg h₃, hlead, htail, htail',
    htail'']

/-- Text without surrogates. -/
def Encodable (s : Str) : Prop := ∀ c ∈ s, isSurrogate c = false

theorem Encodes.cons {bytes rest : List ℕ} {v : ℕ} {r : Option Str} {s : Str}
    (h : Encodes bytes v)
    (hrest : ∀ t, r = some t → encode t = rest ∧ Encodable t)
    (hs : r.map (fun t => Fin.ofNat 0x110000 v :: t) = some s) :
    encode s = bytes ++ rest ∧ Encodable s := by
  obtain ⟨t,ht,rfl⟩ := Option.map_eq_some_iff.1 hs
  obtain ⟨hencode,hencodable⟩ := hrest t ht
  constructor
  · rw [encode, List.flatMap_cons, h.1, ← encode, hencode]
  · intro c hc
    rcases List.mem_cons.1 hc with rfl | hc
    · exact h.2
    · exact hencodable c hc

/-- The decoder accepts nothing but encodings. -/
theorem encode_of_decode (bytes : List ℕ) {s : Str} (h : decode bytes = some s) :
    encode s = bytes ∧ Encodable s := by
  induction bytes using decode.induct generalizing s with
  | case1 =>
    cases h
    exact ⟨rfl,by simp [Encodable]⟩
  | case2 a rest ha ih =>
    rw [decode.eq_def] at h
    simp only [if_pos ha] at h
    exact (encodes_single ha).cons (fun _ => ih) h
  | case3 a rest ha ha' =>
    rw [decode.eq_def] at h
    simp only [if_neg ha, if_pos ha'] at h
    cases h
  | case4 a ha ha' ha'' b rest haccepts ih =>
    simp only [decode, if_neg ha, if_neg ha', if_pos ha'', if_pos haccepts] at h
    exact (encodes_pair (not_lt.1 ha') ha'' haccepts).cons (fun _ => ih) h
  | case5 a ha ha' ha'' b rest haccepts => simp [decode, ha, ha', ha'', haccepts] at h
  | case6 a rest ha ha' ha'' hshort =>
    rw [decode.eq_def] at h
    simp only [if_neg ha, if_neg ha', if_pos ha''] at h
    cases h
  | case7 a ha ha' ha'' ha₃ b b' rest haccepts ih =>
    simp only [decode, if_neg ha, if_neg ha', if_neg ha'', if_pos ha₃, if_pos haccepts] at h
    exact (encodes_triple (not_lt.1 ha'') ha₃ haccepts).cons (fun _ => ih) h
  | case8 a ha ha' ha'' ha₃ b b' rest haccepts =>
    simp [decode, ha, ha', ha'', ha₃, haccepts] at h
  | case9 a rest ha ha' ha'' ha₃ hshort =>
    rw [decode.eq_def] at h
    simp only [if_neg ha, if_neg ha', if_neg ha'', if_pos ha₃] at h
    cases h
  | case10 a ha ha' ha'' ha₃ ha₄ b b' b'' rest haccepts ih =>
    simp only [decode, if_neg ha, if_neg ha', if_neg ha'', if_neg ha₃, if_pos ha₄,
      if_pos haccepts] at h
    exact (encodes_quadruple (not_lt.1 ha₃) haccepts).cons (fun _ => ih) h
  | case11 a ha ha' ha'' ha₃ ha₄ b b' b'' rest haccepts =>
    simp [decode, ha, ha', ha'', ha₃, ha₄, haccepts] at h
  | case12 a rest ha ha' ha'' ha₃ ha₄ hshort =>
    rw [decode.eq_def] at h
    simp only [if_neg ha, if_neg ha', if_neg ha'', if_neg ha₃, if_pos ha₄] at h
    cases h
  | case13 a rest ha ha' ha'' ha₃ ha₄ =>
    rw [decode.eq_def] at h
    simp only [if_neg ha, if_neg ha', if_neg ha'', if_neg ha₃, if_neg ha₄] at h
    cases h

/-! ### Every encoding is accepted -/

/-- The decoder reads one encoded code point. -/
theorem decode_encodeChar {c : CodePoint} (h : isSurrogate c = false) (rest : List ℕ) :
    decode (encodeChar c ++ rest) = (decode rest).map fun s => c :: s := by
  have hc : c.val < 0x110000 := c.isLt
  have hsurrogate : ¬ (0xd800 ≤ c.val ∧ c.val ≤ 0xdfff) := by
    simpa only [isSurrogate, Bool.and_eq_false_iff, decide_eq_false_iff_not, ← not_and_or] using h
  have hself : Fin.ofNat 0x110000 c.val = c := Fin.ofNat_val_eq_self c
  unfold encodeChar
  split_ifs with h₁ h₂ h₃
  · rw [List.cons_append, List.nil_append, decode.eq_def]
    simp only [if_pos h₁, hself]
  · have hjoined : joined (0xc0 + c.val / 64 - 0xc0) [continuation c.val] = c.val := by
      simp only [joined_pair, continuation]
      omega
    have haccepts : accepts 0x80 (0xc0 + c.val / 64 - 0xc0) [continuation c.val] = true := by
      rw [accepts_iff, hjoined]
      simp only [List.mem_singleton, forall_eq, continuation]
      omega
    have hlead : ¬ 0xc0 + c.val / 64 < 0x80 ∧ ¬ 0xc0 + c.val / 64 < 0xc0 ∧
        0xc0 + c.val / 64 < 0xe0 := by omega
    simp only [List.cons_append, List.nil_append, decode, if_neg hlead.1, if_neg hlead.2.1,
      if_pos hlead.2.2, if_pos haccepts, hjoined, hself]
  · have hjoined : joined (0xe0 + c.val / 4096 - 0xe0)
        [continuation (c.val / 64),continuation c.val] = c.val := by
      simp only [joined_triple, continuation]
      omega
    have haccepts : accepts 0x800 (0xe0 + c.val / 4096 - 0xe0)
        [continuation (c.val / 64),continuation c.val] = true := by
      rw [accepts_iff, hjoined]
      simp only [List.mem_cons, List.not_mem_nil, or_false, forall_eq_or_imp, forall_eq,
        continuation]
      omega
    have hlead : ¬ 0xe0 + c.val / 4096 < 0x80 ∧ ¬ 0xe0 + c.val / 4096 < 0xc0 ∧
        ¬ 0xe0 + c.val / 4096 < 0xe0 ∧ 0xe0 + c.val / 4096 < 0xf0 := by omega
    simp only [List.cons_append, List.nil_append, decode, if_neg hlead.1, if_neg hlead.2.1,
      if_neg hlead.2.2.1, if_pos hlead.2.2.2, if_pos haccepts, hjoined, hself]
  · have hjoined : joined (0xf0 + c.val / 262144 - 0xf0)
        [continuation (c.val / 4096),continuation (c.val / 64),continuation c.val] = c.val := by
      simp only [joined_quadruple, continuation]
      omega
    have haccepts : accepts 0x10000 (0xf0 + c.val / 262144 - 0xf0)
        [continuation (c.val / 4096),continuation (c.val / 64),continuation c.val] = true := by
      rw [accepts_iff, hjoined]
      simp only [List.mem_cons, List.not_mem_nil, or_false, forall_eq_or_imp, forall_eq,
        continuation]
      omega
    have hlead : ¬ 0xf0 + c.val / 262144 < 0x80 ∧ ¬ 0xf0 + c.val / 262144 < 0xc0 ∧
        ¬ 0xf0 + c.val / 262144 < 0xe0 ∧ ¬ 0xf0 + c.val / 262144 < 0xf0 ∧
        0xf0 + c.val / 262144 < 0xf8 := by omega
    simp only [List.cons_append, List.nil_append, decode, if_neg hlead.1, if_neg hlead.2.1,
      if_neg hlead.2.2.1, if_neg hlead.2.2.2.1, if_pos hlead.2.2.2.2, if_pos haccepts, hjoined,
      hself]

theorem decode_encode {s : Str} (h : Encodable s) : decode (encode s) = some s := by
  induction s with
  | nil => rfl
  | cons c s ih =>
    have hs : decode (encode s) = some s := ih fun d hd => h d (List.mem_cons_of_mem _ hd)
    rw [encode, List.flatMap_cons, decode_encodeChar (h c List.mem_cons_self), ← encode, hs,
      Option.map_some]

/-- Decoding inverts encoding on the texts without surrogates, and accepts nothing else. -/
theorem decode_eq_some {bytes : List ℕ} {s : Str} :
    decode bytes = some s ↔ bytes = encode s ∧ Encodable s := by
  constructor
  · intro h
    obtain ⟨hencode,hencodable⟩ := encode_of_decode bytes h
    exact ⟨hencode.symm,hencodable⟩
  · rintro ⟨rfl,h⟩
    exact decode_encode h

theorem encodeChar_lt (c : CodePoint) : ∀ b ∈ encodeChar c, b < 256 := by
  have hc : c.val < 0x110000 := c.isLt
  unfold encodeChar
  split_ifs with h₁ h₂ h₃ <;>
  · simp only [List.mem_cons, List.not_mem_nil, or_false, forall_eq_or_imp, forall_eq,
      continuation]
    omega

theorem encode_lt (s : Str) : ∀ b ∈ encode s, b < 256 := by
  intro b hb
  obtain ⟨c,-,hb⟩ := List.mem_flatMap.1 hb
  exact encodeChar_lt c b hb

end Utf8
end Unicode
end PdfBridge
