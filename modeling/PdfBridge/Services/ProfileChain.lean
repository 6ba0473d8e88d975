import Mathlib.Data.Finset.Lattice.Fold
import Mathlib.Data.List.FinRange
import Mathlib.Data.Set.Function
import Mathlib.Tactic.FinCases
import PdfBridge.Services.Profiles

/-! The chain of profiles: canonical JSON is one text for one value, so the three identifiers
determine the inputs, and the check of an identity reads every link of the chain back. -/
namespace PdfBridge
namespace Profiles
open Json Unicode

/-! ### Equal inputs -/

/-- A float without the sign of its zero. -/
def magnitude : Double → Double
  | .negativeZero => .finite 0
  | x => x

/-- Equality as JSON data: the order of keys, lists and tuples, and the sign of zero are ignored;
integers, floats and booleans are distinct. -/
def Same : Input → Input → Prop
  | .none, .none => True
  | .bool a, .bool b => a = b
  | .str s, .str t => s = t
  | .int m, .int n => m = n
  | .float x, .float y => magnitude x = magnitude y
  | .mapping keys values, .mapping keys' values' =>
      (∀ i, ∃ j, keys' j = keys i ∧ Same (values i) (values' j)) ∧ ∀ j, ∃ i, keys i = keys' j
  | .sequence (n := n) _ items, .sequence (n := m) _ items' =>
      ∃ h : n = m, ∀ i, Same (items i) (items' (Fin.cast h i))
  | _, _ => False

/-- What `_canonical_value` accepts and returns, wherever the value stands. -/
inductive Normal : Input → Input → Prop
  | none : Normal .none .none
  | bool (b : Bool) : Normal (.bool b) (.bool b)
  | str (s : Str) (h : s.any isSurrogate = false) : Normal (.str s) (.str s)
  | int (n : ℤ) : Normal (.int n) (.int n)
  | negativeZero : Normal (.float .negativeZero) (.float (.finite 0))
  | finite (x : Binary64) : Normal (.float (.finite x)) (.float (.finite x))
  | mapping {n : ℕ} (keys : Fin n ↪ Key) {values values' : Fin n → Input}
      (hkeys : ∀ i, ∃ key, keys i = .str key ∧ invalidKey key = false)
      (h : ∀ i, Normal (values i) (values' i)) : Normal (.mapping keys values) (.mapping keys values')
  | sequence (kind : SequenceKind) {n : ℕ} {items items' : Fin n → Input}
      (h : ∀ i, Normal (items i) (items' i)) :
      Normal (.sequence kind items) (.sequence .list items')

theorem bind_ok {ε α β : Type} {x : Except ε α} {f : α → Except ε β} {b : β} :
    (x >>= f) = .ok b ↔ ∃ a, x = .ok a ∧ f a = .ok b := by
  cases x with
  | error e => simp [bind, Except.bind]
  | ok a => simp [bind, Except.bind]

theorem pure_ok {ε α : Type} {a b : α} : (pure a : Except ε α) = .ok b ↔ a = b := by
  simp [pure, Except.pure]

theorem collect_eq_ok {ε α : Type} {n : ℕ} {f : Fin n → Except ε α} {g : Fin n → α} :
    collect f = .ok g ↔ ∀ i, f i = .ok (g i) := by
  induction n with
  | zero =>
    refine ⟨fun _ i => i.elim0,fun _ => ?_⟩
    rw [collect]
    exact congrArg Except.ok (funext fun i => i.elim0)
  | succ n ih =>
    simp only [collect, bind_ok, pure_ok, ih]
    constructor
    · rintro ⟨a,ha,t,ht,rfl⟩ i
      refine Fin.cases ?_ (fun j => ?_) i
      · simpa using ha
      · simpa using ht j
    · intro h
      exact ⟨g 0,h 0,fun i => g i.succ,fun i => h i.succ,Fin.cons_self_tail g⟩

theorem checkKey_eq_ok {location : Str} {key : Key} {s : Str} :
    checkKey location key = .ok s ↔ key = .str s ∧ invalidKey s = false := by
  cases key with
  | str t =>
    simp only [checkKey]
    split
    · rename_i h
      simp only [reduceCtorEq, Key.str.injEq, false_iff, not_and]
      rintro rfl
      rw [h]
      decide
    · rename_i h
      simp only [Except.ok.injEq, Key.str.injEq, iff_self_and]
      rintro rfl
      exact Bool.eq_false_iff.2 h
  | other identity => simp [checkKey]

/-- The location matters for messages only. -/
theorem canonicalValue_eq_ok {a b : Input} (location : Str) :
    canonicalValue a location = .ok b ↔ Normal a b := by
  induction a generalizing b location with
  | none =>
    simp only [canonicalValue, Except.ok.injEq]
    exact ⟨fun h => h ▸ .none,fun h => by cases h; rfl⟩
  | bool x =>
    simp only [canonicalValue, Except.ok.injEq]
    exact ⟨fun h => h ▸ .bool x,fun h => by cases h; rfl⟩
  | str s =>
    simp only [canonicalValue]
    split
    · rename_i hs
      refine ⟨fun h => (by cases h),fun h => ?_⟩
      cases h with
      | str _ h =>
        rw [h] at hs
        cases hs
    · rename_i hs
      refine ⟨fun h => ?_,fun h => by cases h; rfl⟩
      cases h
      exact .str s (Bool.eq_false_iff.2 hs)
  | int n =>
    simp only [canonicalValue, Except.ok.injEq]
    exact ⟨fun h => h ▸ .int n,fun h => by cases h; rfl⟩
  | float x =>
    cases x with
    | negativeZero =>
      simp only [canonicalValue, Except.ok.injEq]
      exact ⟨fun h => h ▸ .negativeZero,fun h => by cases h; rfl⟩
    | finite x =>
      simp only [canonicalValue, Except.ok.injEq]
      exact ⟨fun h => h ▸ .finite x,fun h => by cases h; rfl⟩
    | infinite negative => exact ⟨fun h => (by cases h),fun h => (by cases h)⟩
    | nan => exact ⟨fun h => (by cases h),fun h => (by cases h)⟩
  | mapping keys values ih =>
    simp only [canonicalValue, bind_ok, pure_ok, collect_eq_ok, checkKey_eq_ok, ih]
    constructor
    · rintro ⟨values',h,rfl⟩
      refine .mapping keys (fun i => ?_) fun i => ?_
      · obtain ⟨key,hkey,-⟩ := h i
        exact ⟨key,hkey⟩
      · obtain ⟨key,-,hvalue⟩ := h i
        exact hvalue
    · intro h
      cases h with
      | @mapping _ _ _ values' hkeys h =>
        refine ⟨values',fun i => ?_,rfl⟩
        obtain ⟨key,hkey⟩ := hkeys i
        exact ⟨key,hkey,h i⟩
  | sequence kind items ih =>
    simp only [canonicalValue, bind_ok, pure_ok, collect_eq_ok, ih]
    constructor
    · rintro ⟨items',h,rfl⟩
      exact .sequence kind h
    · intro h
      cases h with
      | @sequence _ _ _ items' h => exact ⟨items',h,rfl⟩
  | other typeName => exact ⟨fun h => (by cases h),fun h => (by cases h)⟩

/-- A normalized value is left as it is. -/
theorem Normal.idempotent {a b : Input} (h : Normal a b) : Normal b b := by
  induction h with
  | none => exact .none
  | bool b => exact .bool b
  | str s h => exact .str s h
  | int n => exact .int n
  | negativeZero => exact .finite 0
  | finite x => exact .finite x
  | mapping keys hkeys _ ih => exact .mapping keys hkeys ih
  | sequence kind _ ih => exact .sequence .list ih

/-! ### One text for one value -/

/-- The JSON value with its keys in order. -/
def form (v : Input) : Value := sorted (toJson v)

def members {n : ℕ} (keys : Fin n ↪ Key) (values : Fin n → Input) : Members :=
  List.ofFn fun i => (keyText (keys i),form (values i))

theorem form_mapping {n : ℕ} (keys : Fin n ↪ Key) (values : Fin n → Input) :
    form (.mapping keys values) = .object (byKey (members keys values)) := by
  rw [form, toJson, sorted_object, List.map_ofFn]
  rfl

theorem form_sequence {n : ℕ} (kind : SequenceKind) (items : Fin n → Input) :
    form (.sequence kind items) = .list (List.ofFn fun i => form (items i)) := by
  rw [form, toJson, sorted_list, List.map_ofFn]
  rfl

theorem mem_members {n : ℕ} {keys : Fin n ↪ Key} {values : Fin n → Input} {m : Str × Value} :
    m ∈ members keys values ↔ ∃ i, (keyText (keys i),form (values i)) = m := by
  simp only [members, List.mem_ofFn]

/-- Every key is a string. -/
def TextKeys {n : ℕ} (keys : Fin n ↪ Key) : Prop := ∀ i, ∃ key, keys i = .str key

theorem TextKeys.injective {n : ℕ} {keys : Fin n ↪ Key} (h : TextKeys keys) :
    Function.Injective fun i => keyText (keys i) := by
  intro i j hij
  obtain ⟨a,ha⟩ := h i
  obtain ⟨b,hb⟩ := h j
  simp only [ha, hb, keyText] at hij
  exact keys.injective (by rw [ha, hb, hij])

theorem TextKeys.nodup {n : ℕ} {keys : Fin n ↪ Key} (h : TextKeys keys) (values : Fin n → Input) :
    ((members keys values).map Prod.fst).Nodup := by
  rw [members, List.map_ofFn, List.nodup_ofFn]
  exact h.injective

theorem keyText_eq {a b : Key} {s t : Str} (ha : a = .str s) (hb : b = .str t)
    (h : keyText a = keyText b) : a = b := by
  rw [ha, hb] at h ⊢
  exact congrArg Key.str h

/-- Equal canonical values are equal inputs, and conversely. -/
theorem form_eq_iff {a a' b b' : Input} (ha : Normal a a') (hb : Normal b b') :
    form a' = form b' ↔ Same a b := by
  induction ha generalizing b b' with
  | none => cases hb <;> simp [form, toJson, Same, sorted]
  | bool x => cases hb <;> simp [form, toJson, Same, sorted]
  | str s h => cases hb <;> simp [form, toJson, Same, sorted]
  | int n => cases hb <;> simp [form, toJson, Same, sorted]
  | negativeZero => cases hb <;> simp [form, toJson, Same, sorted, magnitude]
  | finite x => cases hb <;> simp [form, toJson, Same, sorted, magnitude]
  | @mapping n keys values values' hkeys h ih =>
    cases hb with
    | @mapping m keys₂ values₂ values₂' hkeys₂ h₂ =>
      have htext : TextKeys keys := fun i => (hkeys i).imp fun _ h => h.1
      have htext₂ : TextKeys keys₂ := fun i => (hkeys₂ i).imp fun _ h => h.1
      rw [form_mapping, form_mapping, Value.object.injEq,
        byKey_eq_iff (htext.nodup values') (htext₂.nodup values₂')]
      simp only [mem_members, Same]
      constructor
      · intro hmem
        refine ⟨fun i => ?_,fun j => ?_⟩
        · obtain ⟨j,hj⟩ := (hmem _).1 ⟨i,rfl⟩
          obtain ⟨hkey,hvalue⟩ := Prod.mk.inj hj
          obtain ⟨s,hs⟩ := htext i
          obtain ⟨t,ht⟩ := htext₂ j
          exact ⟨j,keyText_eq ht hs hkey,(ih i (h₂ j)).1 hvalue.symm⟩
        · obtain ⟨i,hi⟩ := (hmem _).2 ⟨j,rfl⟩
          obtain ⟨s,hs⟩ := htext i
          obtain ⟨t,ht⟩ := htext₂ j
          exact ⟨i,keyText_eq hs ht (Prod.mk.inj hi).1⟩
      · rintro ⟨hforward,hbackward⟩ x
        constructor
        · rintro ⟨i,rfl⟩
          obtain ⟨j,hkey,hsame⟩ := hforward i
          exact ⟨j,by rw [hkey, (ih i (h₂ j)).2 hsame]⟩
        · rintro ⟨j,rfl⟩
          obtain ⟨i,hkey⟩ := hbackward j
          obtain ⟨j',hkey',hsame⟩ := hforward i
          obtain rfl : j' = j := keys₂.injective (hkey'.trans hkey)
          exact ⟨i,by rw [hkey, (ih i (h₂ j')).2 hsame]⟩
    | sequence kind h₂ =>
      rw [form_mapping, form_sequence]
      simp [Same]
    | _ => simp [form, toJson, Same, sorted]
  | @sequence kind n items items' h ih =>
    cases hb with
    | @sequence kind₂ m items₂ items₂' h₂ =>
      rw [form_sequence, form_sequence, Value.list.injEq]
      simp only [Same]
      constructor
      · intro hlist
        have hlength := congrArg List.length hlist
        simp only [List.length_ofFn] at hlength
        subst hlength
        exact ⟨rfl,fun i => (ih i (h₂ i)).1 (congrFun (List.ofFn_injective hlist) i)⟩
      · rintro ⟨rfl,hsame⟩
        exact congrArg List.ofFn (funext fun i => (ih i (h₂ i)).2 (hsame i))
    | @mapping m keys₂ values₂ values₂' hkeys₂ h₂ =>
      rw [form_mapping, form_sequence]
      simp [Same]
    | _ => simp [form, toJson, Same, sorted]

/-! ### Built profiles -/

section Built
variable {py : Interpreter} {sha256 : Str → Digest}

theorem regular_of_forall {ι : Type} [Fintype ι] {f : ι → Value}
    (h : ∀ i, ∃ n, Regular py n (f i)) : ∃ n, ∀ i, Regular py n (f i) := by
  choose n hn using h
  exact ⟨Finset.univ.sup n,fun i => (hn i).mono (Finset.le_sup (Finset.mem_univ i))⟩

/-- A normalized value is written without loss. -/
theorem Normal.regular (py : Interpreter) {a b : Input} (h : Normal a b) :
    ∃ n, Regular (unlimited py) n (toJson b) := by
  induction h with
  | none => exact ⟨0,.null⟩
  | bool b => exact ⟨0,.bool b⟩
  | str s h => exact ⟨0,.str s⟩
  | int n => exact ⟨0,.int n rfl⟩
  | negativeZero => exact ⟨0,.float 0⟩
  | finite x => exact ⟨0,.float x⟩
  | @mapping m keys values values' hkeys h ih =>
    obtain ⟨n,hn⟩ := regular_of_forall ih
    refine ⟨n + 1,?_⟩
    rw [toJson]
    refine .object ?_ fun x hx => ?_
    · rw [List.map_ofFn, List.nodup_ofFn]
      exact TextKeys.injective fun i => (hkeys i).imp fun _ h => h.1
    · obtain ⟨i,rfl⟩ := List.mem_ofFn.1 hx
      exact hn i
  | @sequence kind m items items' h ih =>
    obtain ⟨n,hn⟩ := regular_of_forall ih
    refine ⟨n + 1,?_⟩
    rw [toJson]
    refine .list fun x hx => ?_
    obtain ⟨i,rfl⟩ := List.mem_ofFn.1 hx
    exact hn i

/-- The canonical text of a normalized value. -/
def canonicalText (py : Interpreter) (v : Input) : Str := dumps (unlimited py) (toJson v)

theorem canonicalText_eq_iff {a a' b b' : Input} (ha : Normal a a') (hb : Normal b b') :
    canonicalText py a' = canonicalText py b' ↔ Same a b := by
  rw [← form_eq_iff ha hb]
  refine ⟨fun h => ?_,fun h => ?_⟩
  · obtain ⟨n,hn⟩ := ha.regular py
    obtain ⟨k,hk⟩ := hb.regular py
    exact dumps_injective hn hk rfl h
  · exact congrArg (render (unlimited py)) h

theorem loads_canonicalText {a b : Input} (h : Normal a b) :
    loads (unlimited py) (canonicalText py b) = .ok (form b) := by
  obtain ⟨n,hn⟩ := h.regular py
  exact loads_dumps hn rfl

/-- The profile of normalized material. -/
def profileOf (py : Interpreter) (sha256 : Str → Digest) (material : Input) : ProfileIdentity :=
  ⟨str "sha256:" ++ hexdigest (sha256 (canonicalText py material)),canonicalText py material⟩

theorem identity_eq_ok {n : ℕ} {keys : Fin n ↪ Key} {values : Fin n → Input}
    (h : Normal (.mapping keys values) (.mapping keys values)) {p : ProfileIdentity} :
    identity py sha256 (.mapping keys values) = .ok p ↔
      (canonicalText py (.mapping keys values)).any isSurrogate = false ∧
        p = profileOf py sha256 (.mapping keys values) := by
  have hcanonical : canonicalProfileJson py (.mapping keys values) =
      .ok (canonicalText py (.mapping keys values)) := by
    simp only [canonicalProfileJson, (canonicalValue_eq_ok _).2 h, bind, Except.bind]
    rfl
  simp only [identity, hcanonical, bind, Except.bind]
  split
  · rename_i hs
    rw [hs]
    exact ⟨fun h => (by cases h),fun h => (by cases h.1)⟩
  · rename_i hs
    simp only [pure_ok]
    exact ⟨fun h => ⟨Bool.eq_false_iff.2 hs,h.symm⟩,fun h => h.2.symm⟩

theorem validatedInputs_eq_ok {name : Str} {inputs v : Input}
    (h : validatedInputs name inputs = .ok v) : Normal inputs v := by
  cases inputs with
  | mapping keys values =>
    simp only [validatedInputs] at h
    split at h
    · cases h
    · exact (canonicalValue_eq_ok _).1 h
  | _ => cases h

theorem normal_record {n : ℕ} {keys : Fin n ↪ Key} {values : Fin n → Input}
    (hkeys : ∀ i, ∃ key, keys i = .str key ∧ invalidKey key = false)
    (h : ∀ i, Normal (values i) (values i)) :
    Normal (.mapping keys values) (.mapping keys values) := .mapping keys hkeys h

theorem contentKeys_text (i : Fin 3) :
    ∃ key, contentKeys i = .str key ∧ invalidKey key = false := by
  fin_cases i <;> exact ⟨_,rfl,by decide⟩

theorem indexKeys_text (i : Fin 5) : ∃ key, indexKeys i = .str key ∧ invalidKey key = false := by
  fin_cases i <;> exact ⟨_,rfl,by decide⟩

theorem policyKeys_text (i : Fin 4) :
    ∃ key, policyKeys i = .str key ∧ invalidKey key = false := by
  fin_cases i <;> exact ⟨_,rfl,by decide⟩

theorem normal_contentMaterial {v w : Input} (h : Normal v w) :
    Normal (contentMaterial w) (contentMaterial w) := by
  refine normal_record contentKeys_text fun i => ?_
  fin_cases i
  · exact .int 1
  · exact .str _ (by decide)
  · exact h.idempotent

theorem normal_indexMaterial {v w : Input} (h : Normal v w) {contentId collection : Str}
    (hid : contentId.any isSurrogate = false) (hcollection : collection.any isSurrogate = false) :
    Normal (indexMaterial contentId collection w) (indexMaterial contentId collection w) := by
  refine normal_record indexKeys_text fun i => ?_
  fin_cases i
  · exact .int 1
  · exact .str _ (by decide)
  · exact .str _ hid
  · exact .str _ hcollection
  · exact h.idempotent

theorem normal_policyMaterial {v w : Input} (h : Normal v w) {indexId : Str}
    (hid : indexId.any isSurrogate = false) :
    Normal (policyMaterial indexId w) (policyMaterial indexId w) := by
  refine normal_record policyKeys_text fun i => ?_
  fin_cases i
  · exact .int 1
  · exact .str _ (by decide)
  · exact .str _ hid
  · exact h.idempotent

/-! ### Identifiers -/

theorem length_hexDigits (width n : ℕ) : (hexDigits width n).length = width := by
  induction width generalizing n with
  | zero => rfl
  | succ width ih => rw [hexDigits, List.length_append, ih, List.length_singleton]

theorem hexDigit_lowerHex : ∀ n, n < 16 → lowerHex (hexDigit n) = true := by decide

theorem hexDigits_lowerHex (width n : ℕ) : (hexDigits width n).all lowerHex = true := by
  induction width generalizing n with
  | zero => rfl
  | succ width ih =>
    rw [hexDigits, List.all_append, ih, List.all_cons,
      hexDigit_lowerHex _ (Nat.mod_lt n (by decide))]
    rfl

theorem hexDigit_injective {m n : ℕ} (hm : m < 16) (hn : n < 16)
    (h : hexDigit m = hexDigit n) : m = n := by
  have hvalue := hexValue_hexDigit m hm
  rw [h, hexValue_hexDigit n hn] at hvalue
  exact (Option.some.inj hvalue).symm

/-- A number below `16 ^ width` is known from its digits. -/
theorem hexDigits_injective {width m n : ℕ} (hm : m < 16 ^ width) (hn : n < 16 ^ width)
    (h : hexDigits width m = hexDigits width n) : m = n := by
  induction width generalizing m n with
  | zero =>
    rw [pow_zero] at hm hn
    omega
  | succ width ih =>
    rw [pow_succ] at hm hn
    rw [hexDigits, hexDigits] at h
    obtain ⟨hhigh,hlow⟩ := List.append_inj h (by rw [length_hexDigits, length_hexDigits])
    have hquotient := ih (by omega) (by omega) hhigh
    have hremainder := hexDigit_injective (Nat.mod_lt m (by decide)) (Nat.mod_lt n (by decide))
      (List.cons.inj hlow).1
    omega

theorem hexdigest_injective {d e : Digest} (h : hexdigest d = hexdigest e) : d = e := by
  have hpow : 16 ^ 64 = 2 ^ 256 := by
    rw [show 16 = 2 ^ 4 from rfl, ← pow_mul]
  have hd : d.val < 16 ^ 64 := by
    rw [hpow]
    exact d.isLt
  have he : e.val < 16 ^ 64 := by
    rw [hpow]
    exact e.isLt
  exact Fin.ext (hexDigits_injective hd he h)

theorem isProfileId_digest (d : Digest) : isProfileId (str "sha256:" ++ hexdigest d) = true := by
  have hlength : (str "sha256:").length = 7 := by decide
  simp only [isProfileId, List.take_left' hlength, List.drop_left' hlength, hexdigest,
    length_hexDigits, hexDigits_lowerHex, decide_true, Bool.and_self]

theorem lowerHex_plain {c : CodePoint} (h : lowerHex c = true) : isSurrogate c = false := by
  simp only [lowerHex, isDigit, Bool.or_eq_true, Bool.and_eq_true, decide_eq_true_eq] at h
  simp only [isSurrogate, Bool.and_eq_false_iff, decide_eq_false_iff_not]
  omega

theorem digest_plain (d : Digest) : (str "sha256:" ++ hexdigest d).any isSurrogate = false := by
  rw [List.any_append, Bool.or_eq_false_iff]
  refine ⟨by decide,?_⟩
  rw [List.any_eq_false]
  intro c hc
  rw [lowerHex_plain (List.all_eq_true.1 (hexDigits_lowerHex 64 d.val) c hc)]
  decide

theorem alphanumeric_plain {c : CodePoint} (h : alphanumeric c = true) :
    isSurrogate c = false ∧ 33 ≤ c.val := by
  simp only [alphanumeric, isDigit, Bool.or_eq_true, Bool.and_eq_true, decide_eq_true_eq] at h
  simp only [isSurrogate, Bool.and_eq_false_iff, decide_eq_false_iff_not]
  omega

theorem collectionName_plain {s : Str} (h : isCollectionName s = true) :
    ∀ c, c ∈ s → isSurrogate c = false ∧ 33 ≤ c.val := by
  cases s with
  | nil => cases h
  | cons c rest =>
    simp only [isCollectionName, Bool.and_eq_true, List.all_eq_true, Bool.or_eq_true,
      decide_eq_true_eq] at h
    obtain ⟨⟨hfirst,-⟩,hrest⟩ := h
    intro d hd
    rcases List.mem_cons.1 hd with rfl | hd
    · exact alphanumeric_plain hfirst
    · rcases hrest d hd with ((hd' | hd') | hd') | hd'
      · exact alphanumeric_plain hd'
      all_goals
        simp only [isSurrogate, Bool.and_eq_false_iff, decide_eq_false_iff_not]
        omega

theorem collectionName_valid {s : Str} (h : isCollectionName s = true) :
    s.any isSurrogate = false := by
  rw [List.any_eq_false]
  intro c hc
  rw [(collectionName_plain h c hc).1]
  decide

/-- The target of a built profile passes the check of targets. -/
theorem collectionName_label {s : Str} (h : isCollectionName s = true) : isLabel s = true := by
  have hall : s.all (fun c => decide (33 ≤ c.val)) = true :=
    List.all_eq_true.2 fun c hc => decide_eq_true (collectionName_plain h c hc).2
  have hlength : s ≠ [] ∧ s.length ≤ 255 := by
    cases s with
    | nil => cases h
    | cons c rest =>
      simp only [isCollectionName, Bool.and_eq_true, decide_eq_true_eq] at h
      have := h.1.2
      exact ⟨List.cons_ne_nil _ _,by rw [List.length_cons]; omega⟩
  simp only [isLabel, hall, Bool.and_true, Bool.and_eq_true, decide_eq_true_eq]
  exact hlength

/-! ### The three builders -/

/-- A profile as it was built from normalized inputs. -/
structure Built (py : Interpreter) (sha256 : Str → Digest) (material : Input)
    (p : ProfileIdentity) : Prop where
  eq : p = profileOf py sha256 material
  valid : (canonicalText py material).any isSurrogate = false

theorem Built.profileId {material : Input} {p : ProfileIdentity}
    (h : Built py sha256 material p) :
    p.profileId = str "sha256:" ++ hexdigest (sha256 p.canonicalJson) := by
  rw [h.eq]
  rfl

theorem built_content {inputs : Input} {p : ProfileIdentity}
    (h : buildContentProfile py sha256 inputs = .ok p) :
    ∃ v, Normal inputs v ∧ Built py sha256 (contentMaterial v) p := by
  obtain ⟨v,hv,h⟩ := bind_ok.1 h
  have hnormal := validatedInputs_eq_ok hv
  obtain ⟨hvalid,heq⟩ := (identity_eq_ok (normal_contentMaterial hnormal)).1 h
  exact ⟨v,hnormal,heq,hvalid⟩

theorem isProfileId_plain {s : Str} (h : isProfileId s = true) : s.any isSurrogate = false := by
  simp only [isProfileId, Bool.and_eq_true, decide_eq_true_eq] at h
  rw [← List.take_append_drop 7 s, h.1.1, List.any_append, Bool.or_eq_false_iff]
  refine ⟨by decide,?_⟩
  rw [List.any_eq_false]
  intro c hc
  rw [lowerHex_plain (List.all_eq_true.1 h.2 c hc)]
  decide

theorem validateProfileId_eq_ok {fieldName value : Str} {u : Unit} :
    validateProfileId fieldName value = .ok u ↔ isProfileId value = true := by
  simp only [validateProfileId]
  split <;> simp [*]

theorem built_index {inputs : Input} {contentId collection : Str} {p : ProfileIdentity}
    (h : buildIndexProfile py sha256 inputs contentId collection = .ok p) :
    isCollectionName collection = true ∧ ∃ v, Normal inputs v ∧
      Built py sha256 (indexMaterial contentId collection v) p ∧
      Normal (indexMaterial contentId collection v) (indexMaterial contentId collection v) := by
  obtain ⟨⟨⟩,hid,h⟩ := bind_ok.1 h
  split at h
  · cases h
  · rename_i hname
    have hname' : isCollectionName collection = true := by simpa using hname
    obtain ⟨v,hv,h⟩ := bind_ok.1 h
    have hnormal := validatedInputs_eq_ok hv
    have hmaterial := normal_indexMaterial hnormal (isProfileId_plain (validateProfileId_eq_ok.1 hid))
      (collectionName_valid hname')
    obtain ⟨hvalid,heq⟩ := (identity_eq_ok hmaterial).1 h
    exact ⟨hname',v,hnormal,⟨heq,hvalid⟩,hmaterial⟩

theorem built_policy {inputs : Input} {indexId : Str} {p : ProfileIdentity}
    (h : buildPreflightPolicyProfile py sha256 inputs indexId = .ok p) :
    ∃ v, Normal inputs v ∧ Built py sha256 (policyMaterial indexId v) p ∧
      Normal (policyMaterial indexId v) (policyMaterial indexId v) := by
  obtain ⟨⟨⟩,hid,h⟩ := bind_ok.1 h
  obtain ⟨v,hv,h⟩ := bind_ok.1 h
  have hnormal := validatedInputs_eq_ok hv
  have hmaterial := normal_policyMaterial hnormal (isProfileId_plain (validateProfileId_eq_ok.1 hid))
  obtain ⟨hvalid,heq⟩ := (identity_eq_ok hmaterial).1 h
  exact ⟨v,hnormal,⟨heq,hvalid⟩,hmaterial⟩

/-- The normalized inputs of three profiles and the links between these. -/
structure Chain (py : Interpreter) (sha256 : Str → Digest) (contentInputs indexInputs policyInputs :
    Input) (collection : Str) (p : PipelineProfiles) (c i q : Input) : Prop where
  contentNormal : Normal contentInputs c
  indexNormal : Normal indexInputs i
  policyNormal : Normal policyInputs q
  target : isCollectionName collection = true
  content : Built py sha256 (contentMaterial c) p.content
  index : Built py sha256 (indexMaterial p.content.profileId collection i) p.index
  policy : Built py sha256 (policyMaterial p.index.profileId q) p.preflightPolicy

theorem chain_of_build {contentInputs indexInputs policyInputs : Input} {collection : Str}
    {p : PipelineProfiles}
    (h : buildPipelineProfiles py sha256 contentInputs indexInputs policyInputs collection =
      .ok p) :
    ∃ c i q, Chain py sha256 contentInputs indexInputs policyInputs collection p c i q := by
  obtain ⟨content,hcontent,h⟩ := bind_ok.1 h
  obtain ⟨index,hindex,h⟩ := bind_ok.1 h
  obtain ⟨policy,hpolicy,h⟩ := bind_ok.1 h
  cases h
  obtain ⟨c,hc,hcontent⟩ := built_content hcontent
  obtain ⟨hname,i,hi,hindex,-⟩ := built_index hindex
  obtain ⟨q,hq,hpolicy,-⟩ := built_policy hpolicy
  exact ⟨c,i,q,hc,hi,hq,hname,hcontent,hindex,hpolicy⟩

/-! ### What the identifiers determine -/

theorem same_record {n : ℕ} {keys : Fin n ↪ Key} {f g : Fin n → Input} :
    Same (.mapping keys f) (.mapping keys g) ↔ ∀ i, Same (f i) (g i) := by
  simp only [Same]
  constructor
  · rintro ⟨hforward,-⟩ i
    obtain ⟨j,hkey,hsame⟩ := hforward i
    obtain rfl := keys.injective hkey
    exact hsame
  · intro h
    exact ⟨fun i => ⟨i,rfl,h i⟩,fun j => ⟨j,rfl⟩⟩

theorem Normal.same_iff {a a' b b' : Input} (ha : Normal a a') (hb : Normal b b') :
    Same a' b' ↔ Same a b := by
  rw [← form_eq_iff ha.idempotent hb.idempotent, form_eq_iff ha hb]

theorem same_contentMaterial {v w : Input} :
    Same (contentMaterial v) (contentMaterial w) ↔ Same v w := by
  rw [contentMaterial, contentMaterial, same_record]
  simp [Fin.forall_fin_succ, Same]

theorem same_indexMaterial {contentId contentId' collection collection' : Str} {v w : Input} :
    Same (indexMaterial contentId collection v) (indexMaterial contentId' collection' w) ↔
      contentId = contentId' ∧ collection = collection' ∧ Same v w := by
  rw [indexMaterial, indexMaterial, same_record]
  simp [Fin.forall_fin_succ, Same]

theorem same_policyMaterial {indexId indexId' : Str} {v w : Input} :
    Same (policyMaterial indexId v) (policyMaterial indexId' w) ↔
      indexId = indexId' ∧ Same v w := by
  rw [policyMaterial, policyMaterial, same_record]
  simp [Fin.forall_fin_succ, Same]

/-- Where no two texts collide, the digest of a text is as good as the text. -/
theorem digest_eq_iff {texts : Set Str} (hfree : Set.InjOn sha256 texts) {s t : Str}
    (hs : s ∈ texts) (ht : t ∈ texts) :
    str "sha256:" ++ hexdigest (sha256 s) = str "sha256:" ++ hexdigest (sha256 t) ↔ s = t := by
  rw [List.append_cancel_left_eq]
  exact ⟨fun h => hfree hs ht (hexdigest_injective h),fun h => by rw [h]⟩

theorem Built.profileId_eq_iff {texts : Set Str} (hfree : Set.InjOn sha256 texts)
    {material material' : Input} {p p' : ProfileIdentity} (h : Built py sha256 material p)
    (h' : Built py sha256 material' p') (hnormal : Normal material material)
    (hnormal' : Normal material' material') (hp : p.canonicalJson ∈ texts)
    (hp' : p'.canonicalJson ∈ texts) :
    p.profileId = p'.profileId ↔ Same material material' := by
  rw [h.profileId, h'.profileId, digest_eq_iff hfree hp hp', h.eq, h'.eq]
  exact canonicalText_eq_iff hnormal hnormal'

/-- The texts that the identifiers of a chain are digests of. -/
def PipelineProfiles.texts (p : PipelineProfiles) : Set Str :=
  {p.content.canonicalJson,p.index.canonicalJson,p.preflightPolicy.canonicalJson}

section Chains
variable {texts : Set Str} {contentInputs indexInputs policyInputs : Input} {collection : Str}
  {p : PipelineProfiles} {c i q : Input} {contentInputs' indexInputs' policyInputs' : Input}
  {collection' : Str} {p' : PipelineProfiles} {c' i' q' : Input}

theorem Chain.index_normal
    (h : Chain py sha256 contentInputs indexInputs policyInputs collection p c i q) :
    Normal (indexMaterial p.content.profileId collection i)
      (indexMaterial p.content.profileId collection i) := by
  refine normal_indexMaterial h.indexNormal ?_ (collectionName_valid h.target)
  rw [h.content.profileId]
  exact digest_plain _

theorem Chain.policy_normal
    (h : Chain py sha256 contentInputs indexInputs policyInputs collection p c i q) :
    Normal (policyMaterial p.index.profileId q) (policyMaterial p.index.profileId q) := by
  refine normal_policyMaterial h.policyNormal ?_
  rw [h.index.profileId]
  exact digest_plain _

variable (hfree : Set.InjOn sha256 texts)
  (h : Chain py sha256 contentInputs indexInputs policyInputs collection p c i q)
  (h' : Chain py sha256 contentInputs' indexInputs' policyInputs' collection' p' c' i' q')
  (hp : p.texts ⊆ texts) (hp' : p'.texts ⊆ texts)
include hfree h h' hp hp'

theorem content_profileId_eq_iff :
    p.content.profileId = p'.content.profileId ↔ Same contentInputs contentInputs' := by
  rw [h.content.profileId_eq_iff hfree h'.content (normal_contentMaterial h.contentNormal)
    (normal_contentMaterial h'.contentNormal) (hp (Or.inl rfl)) (hp' (Or.inl rfl)),
    same_contentMaterial, h.contentNormal.same_iff h'.contentNormal]

theorem index_profileId_eq_iff :
    p.index.profileId = p'.index.profileId ↔
      Same contentInputs contentInputs' ∧ Same indexInputs indexInputs' ∧
        collection = collection' := by
  rw [h.index.profileId_eq_iff hfree h'.index h.index_normal h'.index_normal
    (hp (Or.inr (Or.inl rfl))) (hp' (Or.inr (Or.inl rfl))), same_indexMaterial,
    content_profileId_eq_iff hfree h h' hp hp', h.indexNormal.same_iff h'.indexNormal]
  exact and_congr_right fun _ => and_comm

theorem policy_profileId_eq_iff :
    p.preflightPolicy.profileId = p'.preflightPolicy.profileId ↔
      Same contentInputs contentInputs' ∧ Same indexInputs indexInputs' ∧
        Same policyInputs policyInputs' ∧ collection = collection' := by
  rw [h.policy.profileId_eq_iff hfree h'.policy h.policy_normal h'.policy_normal
    (hp (Or.inr (Or.inr rfl))) (hp' (Or.inr (Or.inr rfl))), same_policyMaterial,
    index_profileId_eq_iff hfree h h' hp hp', h.policyNormal.same_iff h'.policyNormal,
    and_assoc, and_assoc]
  exact and_congr_right fun _ => and_congr_right fun _ => and_comm

end Chains

end Built

end Profiles
end PdfBridge
