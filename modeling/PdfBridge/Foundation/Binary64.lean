import Mathlib.Algebra.Order.Field.Power
import Mathlib.Data.Int.Log
import Mathlib.Data.Rat.Floor
import Mathlib.Tactic.FieldSimp
import Mathlib.Tactic.Linarith
import Mathlib.Tactic.Positivity

/-! Binary floating-point numbers as the rationals that they stand for: the number nearest to a
rational, of two the one with an even last digit, and the numbers that are nearest to themselves. -/
namespace PdfBridge
namespace Binary64

variable {q : ℚ} {n : ℤ}

/-! ### The nearest integer -/

/-- The integer nearest to `q`, of two the even one. -/
def halfEven (q : ℚ) : ℤ :=
  if Int.fract q < 1 / 2 then ⌊q⌋
  else if 1 / 2 < Int.fract q then ⌊q⌋ + 1
  else if 2 ∣ ⌊q⌋ then ⌊q⌋ else ⌊q⌋ + 1

theorem le_halfEven (h : (n : ℚ) ≤ q) : n ≤ halfEven q := by
  have hfloor : n ≤ ⌊q⌋ := Int.le_floor.2 h
  unfold halfEven
  split_ifs <;> omega

theorem halfEven_le (h : q ≤ n) : halfEven q ≤ n := by
  have hfloor : ⌊q⌋ ≤ n := Int.cast_le.1 ((Int.floor_le q).trans h)
  by_cases hlt : ⌊q⌋ < n
  · unfold halfEven
    split_ifs <;> omega
  · have hq : q = ⌊q⌋ := by
      have heq : ⌊q⌋ = n := by omega
      exact le_antisymm (heq ▸ h) (Int.floor_le q)
    have hfract : Int.fract q = 0 := by
      rw [hq, Int.fract_intCast]
    unfold halfEven
    rw [hfract, if_pos (by norm_num)]
    exact hfloor

@[simp] theorem halfEven_intCast (n : ℤ) : halfEven n = n :=
  le_antisymm (halfEven_le le_rfl) (le_halfEven le_rfl)

theorem halfEven_nonneg (h : 0 ≤ q) : 0 ≤ halfEven q :=
  le_halfEven (by rwa [Int.cast_zero])

theorem abs_halfEven_le (h : |q| ≤ n) : |halfEven q| ≤ n := by
  obtain ⟨hlow,hhigh⟩ := abs_le.1 h
  exact abs_le.2 ⟨le_halfEven (by rwa [Int.cast_neg]),halfEven_le hhigh⟩

/-! ### The nearest number -/

/-- The place of the last of the 53 digits of a number next to `q`, which is no lower than the
last place of all. -/
def lastPlace (q : ℚ) : ℤ := max (Int.log 2 |q| - 52) (-1074)

/-- Round to the nearest number, as if there were no largest one. -/
def nearest (q : ℚ) : ℚ := halfEven (q / 2 ^ lastPlace q) * 2 ^ lastPlace q

/-- `round` to decimal places. -/
def roundTo (places : ℕ) (q : ℚ) : ℚ := nearest (halfEven (q * 10 ^ places) / 10 ^ places)

theorem nearest_nonneg (h : 0 ≤ q) : 0 ≤ nearest q := by
  have hround : 0 ≤ halfEven (q / 2 ^ lastPlace q) := halfEven_nonneg (by positivity)
  unfold nearest
  positivity

theorem roundTo_nonneg {places : ℕ} (h : 0 ≤ q) : 0 ≤ roundTo places q := by
  have hround : 0 ≤ halfEven (q * 10 ^ places) := halfEven_nonneg (by positivity)
  exact nearest_nonneg (by positivity)

/-- A rational with its last digit at a place that is not too high is an integer there. -/
theorem nearest_of_place {m e : ℤ} (hq : q = m * 2 ^ e) (hplace : lastPlace q ≤ e) :
    nearest q = q := by
  obtain ⟨k,hk⟩ := Int.le.dest hplace
  have htwo : (2 : ℚ) ^ lastPlace q ≠ 0 := by positivity
  have hint : q / 2 ^ lastPlace q = ((m * 2 ^ k : ℤ) : ℚ) := by
    have hsplit : (2 : ℚ) ^ e = 2 ^ k * 2 ^ lastPlace q := by
      rw [← hk, zpow_add₀ two_ne_zero, zpow_natCast, mul_comm]
    rw [div_eq_iff htwo]
    calc q = m * (2 ^ k * 2 ^ lastPlace q) := by rw [← hsplit, ← hq]
      _ = ((m * 2 ^ k : ℤ) : ℚ) * 2 ^ lastPlace q := by
        push_cast
        ring
  unfold nearest
  rw [hint, halfEven_intCast, ← hint, div_mul_cancel₀ _ htwo]

/-- A number with at most 53 digits is nearest to itself. -/
theorem nearest_of_digits {m e : ℤ} (hq : q = m * 2 ^ e) (hm : |m| ≤ 2 ^ 53) (he : -1074 ≤ e) :
    nearest q = q := by
  rcases eq_or_ne q 0 with rfl | hne
  · unfold nearest
    rw [zero_div, ← Int.cast_zero, halfEven_intCast, Int.cast_zero, zero_mul]
  have habs : |q| = |(m : ℚ)| * 2 ^ e := by
    rw [hq, abs_mul, abs_of_pos (a := (2 : ℚ) ^ e) (by positivity)]
  have hpos : 0 < |q| := abs_pos.2 hne
  rcases lt_or_eq_of_le hm with hlt | heq
  · apply nearest_of_place hq
    have hbound : |q| < (2 : ℕ) ^ (e + 53) := by
      have hcast : |(m : ℚ)| < 2 ^ (53 : ℤ) := by exact_mod_cast hlt
      rw [habs, add_comm, zpow_add₀ (by norm_num)]
      exact mul_lt_mul_of_pos_right hcast (by positivity)
    have hlog := (Int.lt_zpow_iff_log_lt Nat.one_lt_two hpos).1 hbound
    unfold lastPlace
    omega
  · have hsign : m = 2 ^ 53 ∨ m = -2 ^ 53 := by
      rcases abs_eq (by positivity : (0 : ℤ) ≤ 2 ^ 53) |>.1 heq with h | h
      · exact Or.inl h
      · exact Or.inr h
    have hlog : Int.log 2 |q| = e + 53 := by
      have hpower : |q| = (2 : ℕ) ^ (e + 53) := by
        rw [habs, add_comm, zpow_add₀ (by norm_num), ← Int.cast_abs, heq]
        norm_num
      rw [hpower, Int.log_zpow Nat.one_lt_two]
    have hplace : lastPlace q ≤ e + 1 := by
      unfold lastPlace
      omega
    rcases hsign with rfl | rfl
    · apply nearest_of_place (m := 2 ^ 52) _ hplace
      rw [hq, zpow_add₀ two_ne_zero]
      push_cast
      ring
    · apply nearest_of_place (m := -2 ^ 52) _ hplace
      rw [hq, zpow_add₀ two_ne_zero]
      push_cast
      ring

@[simp] theorem nearest_nearest (q : ℚ) : nearest (nearest q) = nearest q := by
  have hpos : (0 : ℚ) < 2 ^ lastPlace q := by positivity
  have hbound : |q / 2 ^ lastPlace q| ≤ ((2 ^ 53 : ℤ) : ℚ) := by
    rw [abs_div, abs_of_pos hpos, div_le_iff₀ hpos]
    have hlog : |q| < (2 : ℕ) ^ (Int.log 2 |q| + 1) := Int.lt_zpow_succ_log_self Nat.one_lt_two |q|
    have hplace : Int.log 2 |q| + 1 ≤ 53 + lastPlace q := by
      unfold lastPlace
      omega
    calc |q| ≤ (2 : ℚ) ^ (Int.log 2 |q| + 1) := by exact_mod_cast hlog.le
      _ ≤ 2 ^ (53 + lastPlace q) := zpow_le_zpow_right₀ one_le_two hplace
      _ = ((2 ^ 53 : ℤ) : ℚ) * 2 ^ lastPlace q := by
        rw [zpow_add₀ two_ne_zero]
        norm_num
  exact nearest_of_digits rfl (abs_halfEven_le hbound) (le_max_right _ _)

end Binary64

/-! ### Finite numbers -/

/-- A finite binary floating-point number. -/
def Binary64 : Type := {q : ℚ // Binary64.nearest q = q ∧ |q| < 2 ^ 1024}

namespace Binary64

instance : DecidableEq Binary64 :=
  inferInstanceAs (DecidableEq {q : ℚ // nearest q = q ∧ |q| < 2 ^ 1024})

instance : Zero Binary64 := ⟨⟨0,by decide +kernel,by decide +kernel⟩⟩

/-- The number nearest to `q`, unless it is too large. -/
def ofRat? (q : ℚ) : Option Binary64 :=
  if h : |nearest q| < 2 ^ 1024 then some ⟨nearest q,nearest_nearest q,h⟩ else none

theorem ofRat?_val (x : Binary64) : ofRat? x.1 = some x := by
  have hsmall : |nearest x.1| < 2 ^ 1024 := by
    rw [x.2.1]
    exact x.2.2
  unfold ofRat?
  rw [dif_pos hsmall]
  exact congrArg some (Subtype.ext x.2.1)

/-- A tie at the sixth place goes to the even digit. -/
example : roundTo 6 (1 / 128) = nearest (7812 / 1000000) := by decide +kernel

end Binary64
end PdfBridge
