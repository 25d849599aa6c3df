/-
  Lexis.Proofs.Number.Nearest

  Rounding a rational to the nearest double.

  `RoundsTo q m` says what the magnitude of the nearest double is, without saying how to find it,
  and `RoundsTo.eq` that there is only one. The proof that `nearestMagnitude` finds it goes by the
  middles between numbers: `IsMiddling q m` puts `q` between the middles around the number of `m`,
  in the endless sequence of which the finite magnitudes are a beginning. As infinity is the next
  in this sequence, overflow needs no case of its own until the very end.
-/

import Lexis.Number.Binary64
import Mathlib

namespace Lexis.Binary64

/-! ## What magnitudes stand for -/

/-- The number that a magnitude stands for. Its upper bits are the exponent and its lower 52 the
    fraction, which has a one in front of it unless the exponent is zero.

    At `infinite` this is the power of two behind the largest number. -/
def value (m : Nat) : ℚ :=
  if m / 2 ^ 52 = 0 then (m % 2 ^ 52 : ℕ) * 2 ^ (-1074 : ℤ)
  else (2 ^ 52 + (m % 2 ^ 52 : ℕ)) * 2 ^ ((m / 2 ^ 52 : ℕ) - 1075 : ℤ)

/-- A magnitude by its unit and a multiple of it, which may be the power of two that belongs to the
    next unit. -/
theorem value_of_steps (steps c : Nat) (hc : c ≤ 2 ^ 53) (hsteps : steps = 0 ∨ 2 ^ 52 ≤ c) :
    value (steps * 2 ^ 52 + c) = c * 2 ^ (steps - 1074 : ℤ) := by
  unfold value
  -- Below the first normal number, among the normal ones, and where a carry has reached the next
  -- power.
  rcases Nat.lt_or_ge c (2 ^ 52) with hlt | hle
  · have hzero : steps = 0 := hsteps.resolve_right (by omega)
    subst hzero
    rw [if_pos (by omega), show (0 * 2 ^ 52 + c) % 2 ^ 52 = c by omega]
    norm_num
  · rw [if_neg (by omega)]
    rcases Nat.lt_or_ge c (2 ^ 53) with hlt | hge
    · rw [show (steps * 2 ^ 52 + c) / 2 ^ 52 = steps + 1 by omega,
        show (steps * 2 ^ 52 + c) % 2 ^ 52 = c - 2 ^ 52 by omega, Nat.cast_sub hle]
      push_cast
      congr 1
      · ring
      · congr 1
        ring
    · obtain rfl : c = 2 ^ 53 := by omega
      rw [show (steps * 2 ^ 52 + 2 ^ 53) / 2 ^ 52 = steps + 2 by omega,
        show (steps * 2 ^ 52 + 2 ^ 53) % 2 ^ 52 = 0 by omega]
      rw [show ((steps + 2 : ℕ) - 1075 : ℤ) = (steps - 1074) + 1 by push_cast; ring,
        zpow_add_one₀ two_ne_zero]
      push_cast
      ring

/-- Every magnitude has a unit below which its multiple has at most 53 bits. -/
theorem exists_steps (m : Nat) :
    ∃ steps c, m = steps * 2 ^ 52 + c ∧ c < 2 ^ 53 ∧ (steps = 0 ∨ 2 ^ 52 ≤ c) := by
  rcases Nat.lt_or_ge m (2 ^ 53) with hlt | hge
  · exact ⟨0, m, by omega, hlt, .inl rfl⟩
  · exact ⟨m / 2 ^ 52 - 1, m % 2 ^ 52 + 2 ^ 52, by omega, by omega, .inr (by omega)⟩

/-- Larger words stand for larger numbers. -/
theorem value_strictMono : StrictMono value := by
  refine strictMono_nat_of_lt_succ fun m => ?_
  obtain ⟨steps, c, rfl, hc, hsteps⟩ := exists_steps m
  rw [Nat.add_assoc, value_of_steps steps c hc.le hsteps,
    value_of_steps steps (c + 1) hc (hsteps.imp_right fun h => h.trans c.le_succ)]
  gcongr
  exact c.lt_succ_self

@[simp] theorem value_zero : value 0 = 0 := by
  simp [value]

theorem value_one : value 1 = 2 ^ (-1074 : ℤ) := by
  simp [value]

theorem value_infinite : value infinite = 2 ^ 1024 := by
  have h := value_of_steps 2045 (2 ^ 53) le_rfl (.inr (by norm_num))
  rw [show ((2045 : ℕ) - 1074 : ℤ) = (971 : ℕ) by norm_num, zpow_natCast, Nat.cast_pow,
    Nat.cast_ofNat, ← pow_add] at h
  exact h

theorem value_largest : value (infinite - 1) = (2 ^ 53 - 1) * 2 ^ 971 := by
  have h := value_of_steps 2045 (2 ^ 53 - 1) (by norm_num) (.inr (by norm_num))
  rw [show ((2045 : ℕ) - 1074 : ℤ) = (971 : ℕ) by norm_num, zpow_natCast,
    Nat.cast_sub Nat.one_le_two_pow, Nat.cast_pow, Nat.cast_ofNat, Nat.cast_one] at h
  exact h

/-- From here on numbers round to infinity: the middle between the largest number and the power of
    two behind it. -/
def overflowThreshold : ℚ := 2 ^ 1024 - 2 ^ 970

/-- The threshold of overflow is the middle of the largest number and infinity. -/
theorem value_largest_add_value_infinite :
    value (infinite - 1) + value infinite = 2 * overflowThreshold := by
  rw [value_largest, value_infinite, overflowThreshold, pow_succ' (2 : ℚ) 970,
    show (2 : ℚ) ^ 1024 = 2 ^ 54 * 2 ^ 970 from pow_add 2 54 970]
  generalize (2 : ℚ) ^ 970 = u
  ring

/-! ## The nearest double -/

/-- `m` is the magnitude of the double nearest to `q`: infinity from the threshold on, and a finite
    number below it. Of two numbers that are equally near, it is the one with the even significand,
    whose last bit is that of the magnitude. -/
structure RoundsTo (q : ℚ) (m : Nat) : Prop where
  le_infinite : m ≤ infinite
  eq_infinite_iff : m = infinite ↔ overflowThreshold ≤ q
  nearest : m < infinite → ∀ n < infinite, |q - value m| ≤ |q - value n|
  even : m < infinite → ∀ n < infinite, n ≠ m → |q - value n| = |q - value m| → Even m

/-- The number of `m` is nearest to `q` in the endless sequence of numbers: `q` is not beyond the
    middle to any other, and in such a middle only if `m` is even. -/
structure IsMiddling (q : ℚ) (m : Nat) : Prop where
  below : ∀ n < m, value n + value m < 2 * q ∨ (value n + value m = 2 * q ∧ Even m)
  above : ∀ n, m < n → 2 * q < value m + value n ∨ (2 * q = value m + value n ∧ Even m)

variable {q a b : ℚ} {m n : Nat}

/-- The nearer of two numbers is on the same side of their middle. -/
theorem abs_sub_lt_iff_of_lt (h : a < b) : |q - a| < |q - b| ↔ 2 * q < a + b := by
  rw [← sq_lt_sq]
  constructor <;> intro h' <;> nlinarith

/-- A number is as far from two others exactly in their middle. -/
theorem abs_sub_eq_iff_of_lt (h : a < b) : |q - a| = |q - b| ↔ 2 * q = a + b := by
  rw [← sq_eq_sq_iff_abs_eq_abs]
  constructor
  · intro h'
    have hne : b - a ≠ 0 := sub_ne_zero.2 h.ne'
    exact mul_left_cancel₀ hne (by linarith)
  · intro h'
    linear_combination (b - a) * h'

/-- A number is no further from the greater of two exactly past their middle. -/
theorem le_abs_sub_iff_of_lt (h : a < b) : |q - b| ≤ |q - a| ↔ a + b ≤ 2 * q := by
  rw [← not_lt, abs_sub_lt_iff_of_lt h, not_lt]

/-- A number rounded to a word lies past the middle with each smaller word. -/
theorem IsMiddling.add_le (h : IsMiddling q m) (hn : n < m) : value n + value m ≤ 2 * q :=
  (h.below n hn).elim le_of_lt fun h => h.1.le

/-- The middles around a number show that it is nearest. -/
theorem IsMiddling.abs_sub_le (h : IsMiddling q m) (n : Nat) :
    |q - value m| ≤ |q - value n| := by
  rcases Nat.lt_trichotomy n m with hlt | rfl | hgt
  · exact (le_abs_sub_iff_of_lt (value_strictMono hlt)).2 (h.add_le hlt)
  · exact le_rfl
  · rcases h.above n hgt with hbelow | ⟨hmiddle, -⟩
    · exact ((abs_sub_lt_iff_of_lt (value_strictMono hgt)).2 hbelow).le
    · exact ((abs_sub_eq_iff_of_lt (value_strictMono hgt)).2 hmiddle).le

/-- A tie goes to the even word. -/
theorem IsMiddling.even_of_abs_sub_eq (h : IsMiddling q m) (hne : n ≠ m)
    (heq : |q - value n| = |q - value m|) : Even m := by
  rcases Nat.lt_or_gt_of_ne hne with hlt | hgt
  · have hmiddle := (abs_sub_eq_iff_of_lt (value_strictMono hlt)).1 heq
    exact (h.below n hlt).elim (fun hlt => absurd hmiddle hlt.ne') fun h => h.2
  · have hmiddle := (abs_sub_eq_iff_of_lt (value_strictMono hgt)).1 heq.symm
    exact (h.above n hgt).elim (fun hlt => absurd hmiddle hlt.ne) fun h => h.2

/-- The threshold is the middle below infinity. -/
theorem IsMiddling.infinite_le_iff (h : IsMiddling q m) :
    infinite ≤ m ↔ overflowThreshold ≤ q := by
  have hsum := value_largest_add_value_infinite
  constructor
  -- Past the largest number the middle with it is the threshold.
  · intro hle
    have hmono : value infinite ≤ value m := value_strictMono.monotone hle
    have hbelow : value (infinite - 1) + value m ≤ 2 * q :=
      h.add_le (Nat.lt_of_lt_of_le (by decide) hle)
    linarith
  · intro hle
    by_contra hlt
    have hlast : m ≤ infinite - 1 := by omega
    have hmono : value m ≤ value (infinite - 1) := value_strictMono.monotone hlast
    rcases h.above infinite (by omega) with habove | ⟨hmiddle, heven⟩
    · linarith
    · -- The threshold itself is the middle between the largest number and infinity.
      have hvalue : value m = value (infinite - 1) := by linarith
      rw [value_strictMono.injective hvalue] at heven
      exact absurd heven (by decide)

/-- Where the endless sequence is cut off, infinity takes the place of all the rest. -/
theorem IsMiddling.roundsTo (h : IsMiddling q m) : RoundsTo q (min infinite m) := by
  rcases Nat.lt_or_ge m infinite with hlt | hge
  · rw [Nat.min_eq_right hlt.le]
    refine ⟨hlt.le, ?_, fun _ n _ => h.abs_sub_le n, fun _ n _ => h.even_of_abs_sub_eq⟩
    rw [← h.infinite_le_iff]
    omega
  · rw [Nat.min_eq_left hge]
    refine ⟨le_rfl, iff_of_true rfl (h.infinite_le_iff.1 hge), ?_, ?_⟩ <;>
      exact fun hlt => absurd hlt (Nat.lt_irrefl _)

/-- Two even magnitudes have an odd one between them, whose number is nearer to their middle. -/
theorem RoundsTo.le_of_roundsTo (hm : RoundsTo q m) (hn : RoundsTo q n) : n ≤ m := by
  -- Two nearest numbers would be as far from it, both even, and so have a nearer one between them.
  by_contra hlt
  have hlt : m < n := Nat.lt_of_not_le hlt
  have hfinite : m < infinite := Nat.lt_of_lt_of_le hlt hn.le_infinite
  have hn_finite : n < infinite := by
    refine Nat.lt_of_le_of_ne hn.le_infinite fun heq => ?_
    exact hfinite.ne (hm.eq_infinite_iff.2 (hn.eq_infinite_iff.1 heq))
  have heq : |q - value m| = |q - value n| :=
    le_antisymm (hm.nearest hfinite n hn_finite) (hn.nearest hn_finite m hfinite)
  have hm_even : Even m := hm.even hfinite n hn_finite hlt.ne' heq.symm
  have hn_even : Even n := hn.even hn_finite m hfinite hlt.ne heq
  have hbetween : m + 1 < n := by
    refine Nat.lt_of_le_of_ne hlt fun hsucc => ?_
    rw [← hsucc, Nat.even_add_one] at hn_even
    exact hn_even hm_even
  have hmiddle : 2 * q = value m + value n :=
    (abs_sub_eq_iff_of_lt (value_strictMono hlt)).1 heq
  have hnearer : |q - value (m + 1)| < |q - value n| := by
    rw [abs_sub_lt_iff_of_lt (value_strictMono hbetween), hmiddle]
    have hmono : value m < value (m + 1) := value_strictMono m.lt_succ_self
    linarith
  exact absurd (hn.nearest hn_finite (m + 1) (by omega)) (not_le.2 hnearer)

/-- There is one nearest double. -/
theorem RoundsTo.eq (hm : RoundsTo q m) (hn : RoundsTo q n) : m = n :=
  Nat.le_antisymm (hn.le_of_roundsTo hm) (hm.le_of_roundsTo hn)

/-- Every middle of finite neighbours lies below the threshold of overflow. -/
theorem middle_lt_overflowThreshold (hn : n + 1 < infinite) :
    value n + value (n + 1) < 2 * overflowThreshold := by
  have hfirst : value n ≤ value (infinite - 1) := value_strictMono.monotone (by omega)
  have hsecond : value (n + 1) < value infinite := value_strictMono hn
  rw [← value_largest_add_value_infinite]
  exact add_lt_add_of_le_of_lt hfirst hsecond

/-- What rounds to `n` or less is not beyond the middle behind `n`. -/
theorem RoundsTo.middle_of_le (h : RoundsTo q m) (hn : n + 1 < infinite) (hle : m ≤ n) :
    2 * q < value n + value (n + 1) ∨ (2 * q = value n + value (n + 1) ∧ Even n) := by
  have hfinite : m < infinite := by omega
  have hlt : value m < value (n + 1) := value_strictMono (Nat.lt_succ_of_le hle)
  rcases (h.nearest hfinite (n + 1) hn).lt_or_eq with hnear | hnear
  · have hmiddle := (abs_sub_lt_iff_of_lt hlt).1 hnear
    have hmono : value m ≤ value n := value_strictMono.monotone hle
    exact .inl (by linarith)
  · have hmiddle := (abs_sub_eq_iff_of_lt hlt).1 hnear
    -- In the middle between `m` and `n + 1`, which is that between `n` and `n + 1` only for `n`.
    rcases hle.lt_or_eq with hless | rfl
    · have hmono : value m < value n := value_strictMono hless
      exact .inl (by linarith)
    · exact .inr ⟨hmiddle, h.even hfinite (m + 1) hn (by omega) hnear.symm⟩

/-- A number up to a middle rounds to the smaller neighbour at most. -/
theorem RoundsTo.le_of_middle (h : RoundsTo q m) (hn : n + 1 < infinite)
    (hq : 2 * q < value n + value (n + 1) ∨ (2 * q = value n + value (n + 1) ∧ Even n)) :
    m ≤ n := by
  by_contra hgt
  have hgt : n + 1 ≤ m := Nat.lt_of_not_le hgt
  have hmono : value (n + 1) ≤ value m := value_strictMono.monotone hgt
  have hlt : value n < value m := value_strictMono hgt
  have hmiddle : 2 * q ≤ value n + value (n + 1) := hq.elim le_of_lt fun h => h.1.le
  -- Every finite middle lies below the threshold.
  have hfinite : m < infinite := by
    refine Nat.lt_of_le_of_ne h.le_infinite fun heq => ?_
    have hlarge : overflowThreshold ≤ q := h.eq_infinite_iff.1 heq
    have hsmall := middle_lt_overflowThreshold hn
    linarith
  have hle : value n + value m ≤ 2 * q :=
    (le_abs_sub_iff_of_lt hlt).1 (h.nearest hfinite n (by omega))
  rcases hq with hq | ⟨hq, heven⟩
  · linarith
  · -- `q` is the middle between `n` and its successor, so `m` is that successor and odd.
    have hvalue : value m = value (n + 1) := by linarith
    obtain rfl : m = n + 1 := value_strictMono.injective hvalue
    have hsucc : Even (n + 1) :=
      h.even hfinite n (by omega) (by omega) ((abs_sub_eq_iff_of_lt hlt).2 hq)
    exact Nat.even_add_one.1 hsucc heven

/-- How far up the numbers reach that round to `n` or less. -/
theorem RoundsTo.le_iff (h : RoundsTo q m) (hn : n + 1 < infinite) :
    m ≤ n ↔ 2 * q < value n + value (n + 1) ∨ (2 * q = value n + value (n + 1) ∧ Even n) :=
  ⟨h.middle_of_le hn, h.le_of_middle hn⟩

/-- Half of the smallest number is the last to round to zero. -/
theorem RoundsTo.eq_zero_iff (h : RoundsTo q m) : m = 0 ↔ q ≤ 2 ^ (-1075 : ℤ) := by
  have hunit : value 1 = 2 * 2 ^ (-1075 : ℤ) := by
    rw [value_one, ← zpow_one_add₀ two_ne_zero]
    norm_num
  rw [← Nat.le_zero, h.le_iff (by decide), value_zero, zero_add, hunit]
  constructor
  · intro hq
    rcases hq with hq | ⟨hq, -⟩ <;> linarith
  · intro hq
    rcases hq.lt_or_eq with hlt | heq
    · exact .inl (by linarith)
    · exact .inr ⟨by linarith, Even.zero⟩

/-- The numbers that round to zero or to a subnormal number end halfway between the largest
    subnormal number and the smallest normal one, which is even. -/
theorem RoundsTo.lt_normal_iff (h : RoundsTo q m) :
    m < 2 ^ 52 ↔ q < (2 ^ 53 - 1) * 2 ^ (-1075 : ℤ) := by
  have hlast := value_of_steps 0 (2 ^ 52 - 1) (by norm_num) (.inl rfl)
  have hfirst := value_of_steps 0 (2 ^ 52 - 1 + 1) (by norm_num) (.inl rfl)
  rw [Nat.zero_mul, Nat.zero_add] at hlast hfirst
  have hsum : value (2 ^ 52 - 1) + value (2 ^ 52 - 1 + 1) =
      2 * ((2 ^ 53 - 1) * 2 ^ (-1075 : ℤ)) := by
    rw [hlast, hfirst, show ((0 : ℕ) - 1074 : ℤ) = 1 + -1075 by norm_num,
      zpow_one_add₀ two_ne_zero]
    generalize (2 : ℚ) ^ (-1075 : ℤ) = unit
    norm_num
    ring
  have hodd : ¬ Even (2 ^ 52 - 1) := by decide
  -- The last subnormal is odd, so a tie goes to the first normal number.
  rw [Nat.lt_iff_le_pred (by decide), h.le_iff (by decide), hsum]
  constructor
  · intro hq
    rcases hq with hq | ⟨-, heven⟩
    · linarith
    · exact absurd heven hodd
  · intro hq
    exact .inl (by linarith)

/-! ## Rounding to a multiple of a unit -/

/-- `c` is the integer nearest to `x`, and even where `x` is in the middle of two. -/
structure IsRounded (x : ℚ) (c : Nat) : Prop where
  below : 2 * c - 1 < 2 * x ∨ (2 * c - 1 = 2 * x ∧ Even c)
  above : 2 * x < 2 * c + 1 ∨ (2 * x = 2 * c + 1 ∧ Even c)

/-- Division with its remainder rounds a fraction to the nearest whole number, ties to even. -/
theorem roundHalfEven_isRounded (num : Nat) {den : Nat} (hden : 0 < den) :
    IsRounded (num / den) (roundHalfEven num den) := by
  have hpos : (0 : ℚ) < den := Nat.cast_pos.2 hden
  -- The quotient is its whole part and a fraction, which is what is left over `den`.
  have hwhole : (num : ℚ) / den = (num / den : ℕ) + (num % den : ℕ) / den := by
    rw [div_eq_iff hpos.ne', add_mul, div_mul_cancel₀ _ hpos.ne']
    exact_mod_cast (Nat.div_add_mod' num den).symm
  have hnonneg : (0 : ℚ) ≤ (num % den : ℕ) / den := by positivity
  have hlt : ((num % den : ℕ) : ℚ) / den < 1 := by
    rw [div_lt_one hpos]
    exact_mod_cast Nat.mod_lt num hden
  have hhalf_lt : 2 * (((num % den : ℕ) : ℚ) / den) < 1 ↔ 2 * (num % den) < den := by
    rw [← mul_div_assoc, div_lt_one hpos]
    exact_mod_cast Iff.rfl
  have hhalf_eq : 2 * (((num % den : ℕ) : ℚ) / den) = 1 ↔ 2 * (num % den) = den := by
    rw [← mul_div_assoc, div_eq_one_iff_eq hpos.ne']
    exact_mod_cast Iff.rfl
  rw [hwhole]
  simp only [roundHalfEven, ← hhalf_lt, ← hhalf_eq, ← Nat.even_iff]
  generalize ((num % den : ℕ) : ℚ) / den = fraction at *
  generalize num / den = whole at *
  split
  next hdown =>
    refine ⟨.inl (by linarith), ?_⟩
    rcases hdown with hless | ⟨hmiddle, heven⟩
    · exact .inl (by linarith)
    · exact .inr ⟨by linarith, heven⟩
  next hup =>
    rw [not_or, not_lt, not_and] at hup
    refine ⟨?_, .inl (by push_cast; linarith)⟩
    rcases hup.1.lt_or_eq with hmore | hmiddle
    · exact .inl (by push_cast; linarith)
    · exact .inr ⟨by push_cast; linarith, Nat.even_add_one.2 (hup.2 hmiddle.symm)⟩

variable {x : ℚ} {c steps : Nat}

/-- A comparison that may end in a tie, in another unit. -/
theorem scaled_lt_or_eq {left right unit : ℚ} {P : Prop} (hunit : 0 < unit)
    (h : left < right ∨ (left = right ∧ P)) (ha : a ≤ left * unit) (hb : right * unit ≤ b) :
    a < b ∨ (a = b ∧ P) := by
  rcases h with hlt | ⟨rfl, hP⟩
  · exact .inl (ha.trans_lt ((mul_lt_mul_of_pos_right hlt hunit).trans_le hb))
  · exact (ha.trans hb).lt_or_eq.imp_right fun heq => ⟨heq, hP⟩

/-- Rounding does not pass a whole number above. -/
theorem IsRounded.le_of_lt_natCast (h : IsRounded x c) (hx : x < n) : c ≤ n := by
  have hbelow : 2 * (c : ℚ) - 1 ≤ 2 * x := h.below.elim le_of_lt fun h => h.1.le
  have hlt : (c : ℚ) < (n + 1 : ℕ) := by
    push_cast
    linarith
  exact Nat.lt_succ_iff.1 (Nat.cast_lt.1 hlt)

theorem IsRounded.le_of_natCast_le (h : IsRounded x c) (hx : n ≤ x) : n ≤ c := by
  have habove : 2 * x ≤ 2 * c + 1 := h.above.elim le_of_lt fun h => h.1.le
  have hlt : (n : ℚ) < (c + 1 : ℕ) := by
    push_cast
    linarith
  exact Nat.lt_succ_iff.1 (Nat.cast_lt.1 hlt)

/-- The rounded multiple of a unit against the numbers below it. -/
theorem IsRounded.below_middle (h : IsRounded x c) (hc : c ≤ 2 ^ 53)
    (hsteps : steps = 0 ∨ 2 ^ 52 ≤ x) (hcsteps : steps = 0 ∨ 2 ^ 52 ≤ c)
    (hn : n < steps * 2 ^ 52 + c) :
    value n + c * 2 ^ (steps - 1074 : ℤ) < 2 * (x * 2 ^ (steps - 1074 : ℤ)) ∨
      (value n + c * 2 ^ (steps - 1074 : ℤ) = 2 * (x * 2 ^ (steps - 1074 : ℤ)) ∧ Even c) := by
  have hunit : (0 : ℚ) < 2 ^ (steps - 1074 : ℤ) := by positivity
  by_cases hfirst : steps ≠ 0 ∧ c = 2 ^ 52
  · -- The numbers below are multiples of a smaller unit, but `x` is not below this one.
    have hless := value_strictMono hn
    rw [value_of_steps steps c hc hcsteps] at hless
    obtain ⟨hne, rfl⟩ := hfirst
    have hle : ((2 ^ 52 : ℕ) : ℚ) ≤ x := by exact_mod_cast hsteps.resolve_left hne
    have hq := mul_le_mul_of_nonneg_right hle hunit.le
    exact .inl (by linarith)
  · have hpos : 1 ≤ c := by omega
    have hprevious : value n ≤ (c - 1) * 2 ^ (steps - 1074 : ℤ) := by
      have hvalue := value_of_steps steps (c - 1) (by omega) (by omega)
      rw [Nat.cast_sub hpos, Nat.cast_one] at hvalue
      rw [← hvalue]
      exact value_strictMono.monotone (by omega)
    exact scaled_lt_or_eq hunit h.below (by linarith) (by linarith)

/-- And against the numbers above it. -/
theorem IsRounded.above_middle (h : IsRounded x c) (hc : c ≤ 2 ^ 53) (hx : x < 2 ^ 53)
    (hcsteps : steps = 0 ∨ 2 ^ 52 ≤ c) (hn : steps * 2 ^ 52 + c < n) :
    2 * (x * 2 ^ (steps - 1074 : ℤ)) < c * 2 ^ (steps - 1074 : ℤ) + value n ∨
      (2 * (x * 2 ^ (steps - 1074 : ℤ)) = c * 2 ^ (steps - 1074 : ℤ) + value n ∧ Even c) := by
  have hunit : (0 : ℚ) < 2 ^ (steps - 1074 : ℤ) := by positivity
  by_cases hlast : c = 2 ^ 53
  · -- The numbers above are multiples of a larger unit, but `x` is below this one.
    have hmore := value_strictMono hn
    rw [value_of_steps steps c hc hcsteps] at hmore
    subst hlast
    have hlt : x < (2 ^ 53 : ℕ) := by exact_mod_cast hx
    have hq := mul_lt_mul_of_pos_right hlt hunit
    exact .inl (by linarith)
  · have hnext : (c + 1) * 2 ^ (steps - 1074 : ℤ) ≤ value n := by
      have hvalue := value_of_steps steps (c + 1) (by omega) (by omega)
      rw [Nat.cast_add, Nat.cast_one] at hvalue
      rw [← hvalue]
      exact value_strictMono.monotone (by omega)
    exact scaled_lt_or_eq hunit h.above (by linarith) (by linarith)

/-- The rounded multiple of a unit is nearest in all the numbers, if the unit is the one that
    belongs to `x`: 53 bits are enough, and the first of them is not wasted. -/
theorem IsRounded.isMiddling (h : IsRounded x c) (hx : x < 2 ^ 53)
    (hsteps : steps = 0 ∨ 2 ^ 52 ≤ x) :
    IsMiddling (x * 2 ^ (steps - 1074 : ℤ)) (steps * 2 ^ 52 + c) := by
  have hc : c ≤ 2 ^ 53 := h.le_of_lt_natCast (by exact_mod_cast hx)
  have hcsteps : steps = 0 ∨ 2 ^ 52 ≤ c :=
    hsteps.imp_right fun hle => h.le_of_natCast_le (by exact_mod_cast hle)
  -- Whole steps do not change whether a magnitude is even.
  have heven : Even c → Even (steps * 2 ^ 52 + c) := fun hc =>
    ((Nat.even_pow.2 ⟨even_two, by decide⟩).mul_left steps).add hc
  constructor
  · intro n hn
    rw [value_of_steps steps c hc hcsteps]
    exact (h.below_middle hc hsteps hcsteps hn).imp_right (And.imp_right heven)
  · intro n hn
    rw [value_of_steps steps c hc hcsteps]
    exact (h.above_middle hc hx hcsteps hn).imp_right (And.imp_right heven)

/-! ## The unit of a quotient -/

variable {num den : Nat}

/-- Two binary logarithms leave two binades open for a quotient. -/
theorem div_mem_of_log2 (hnum : 0 < num) (hden : 0 < den) :
    (2 : ℚ) ^ ((num.log2 : ℤ) - den.log2 - 1) ≤ num / den ∧
      (num / den : ℚ) < 2 ^ ((num.log2 : ℤ) - den.log2 + 1) := by
  have hpos : (0 : ℚ) < den := Nat.cast_pos.2 hden
  have hnum_le : (2 : ℚ) ^ (num.log2 : ℤ) ≤ num := by exact_mod_cast Nat.log2_self_le hnum.ne'
  have hnum_lt : (num : ℚ) < 2 ^ (num.log2 + 1 : ℤ) := by exact_mod_cast Nat.lt_log2_self
  have hden_le : (2 : ℚ) ^ (den.log2 : ℤ) ≤ den := by exact_mod_cast Nat.log2_self_le hden.ne'
  have hden_lt : (den : ℚ) < 2 ^ (den.log2 + 1 : ℤ) := by exact_mod_cast Nat.lt_log2_self
  -- The logarithms of both parts are off by less than one, and so their difference.
  rw [le_div_iff₀ hpos, div_lt_iff₀ hpos]
  constructor
  · calc (2 : ℚ) ^ ((num.log2 : ℤ) - den.log2 - 1) * den
        ≤ 2 ^ ((num.log2 : ℤ) - den.log2 - 1) * 2 ^ (den.log2 + 1 : ℤ) := by gcongr
      _ = 2 ^ (num.log2 : ℤ) := by
        rw [← zpow_add₀ two_ne_zero]
        congr 1
        ring
      _ ≤ num := hnum_le
  · calc (num : ℚ) < 2 ^ (num.log2 + 1 : ℤ) := hnum_lt
      _ = 2 ^ ((num.log2 : ℤ) - den.log2 + 1) * 2 ^ (den.log2 : ℤ) := by
        rw [← zpow_add₀ two_ne_zero]
        congr 1
        ring
      _ ≤ 2 ^ ((num.log2 : ℤ) - den.log2 + 1) * den := by gcongr

/-- A power of two is compared with a quotient in integers, on the side where its exponent is not
    negative. -/
theorem reached_iff (hden : 0 < den) (k : ℤ) :
    (if 0 ≤ k then den * Nat.pow 2 k.toNat ≤ num else den ≤ num * Nat.pow 2 (-k).toNat) ↔
      (2 : ℚ) ^ k ≤ num / den := by
  have hpos : (0 : ℚ) < den := Nat.cast_pos.2 hden
  rw [le_div_iff₀ hpos]
  -- A positive power is moved to the denominator, a negative one to the numerator.
  split
  next hk =>
    obtain ⟨n, rfl⟩ := Int.eq_ofNat_of_zero_le hk
    rw [Int.toNat_natCast, zpow_natCast, mul_comm]
    exact_mod_cast Iff.rfl
  next hk =>
    obtain ⟨n, rfl⟩ := Int.exists_eq_neg_ofNat (Int.not_le.1 hk).le
    rw [neg_neg, Int.toNat_natCast, zpow_neg, zpow_natCast, inv_mul_le_iff₀ (by positivity),
      mul_comm]
    exact_mod_cast Iff.rfl

/-- The logarithm of a fraction, rounded down. -/
theorem floorLog2_spec (hnum : 0 < num) (hden : 0 < den) :
    (2 : ℚ) ^ floorLog2 num den ≤ num / den ∧ (num / den : ℚ) < 2 ^ (floorLog2 num den + 1) := by
  obtain ⟨hlow, hhigh⟩ := div_mem_of_log2 hnum hden
  simp only [floorLog2, reached_iff hden]
  split
  next hle => exact ⟨hle, hhigh⟩
  next hlt => exact ⟨hlow, by simpa using hlt⟩

/-- In its unit a quotient has 53 bits, or fewer if the unit is the smallest. -/
theorem unitExponent_spec (hnum : 0 < num) (hden : 0 < den) :
    -1074 ≤ unitExponent num den ∧
      (num / den : ℚ) / 2 ^ unitExponent num den < 2 ^ 53 ∧
      (unitExponent num den = -1074 ∨ 2 ^ 52 ≤ (num / den : ℚ) / 2 ^ unitExponent num den) := by
  obtain ⟨hlow, hhigh⟩ := floorLog2_spec hnum hden
  unfold unitExponent
  generalize floorLog2 num den = k at *
  -- The exponent is that of 53 digits, unless the least one is greater.
  refine ⟨le_max_left _ _, ?_, ?_⟩
  · rw [div_lt_iff₀ (by positivity)]
    refine hhigh.trans_le ?_
    rw [← zpow_natCast, ← zpow_add₀ two_ne_zero]
    exact zpow_le_zpow_right₀ one_le_two (by push_cast; omega)
  · rcases max_choice (-1074 : ℤ) (k - 52) with hmax | hmax
    · exact .inl hmax
    · right
      rw [hmax, le_div_iff₀ (by positivity), ← zpow_natCast, ← zpow_add₀ two_ne_zero]
      simpa using hlow

/-! ## The nearest magnitude -/

/-- Rounding the multiple of a unit, with the unit in the denominator or its inverse in the
    numerator. -/
theorem significand_isRounded (num : Nat) (hden : 0 < den) (e : ℤ) :
    IsRounded ((num / den : ℚ) / 2 ^ e)
      (if 0 ≤ e then roundHalfEven num (den * Nat.pow 2 e.toNat)
        else roundHalfEven (num * Nat.pow 2 (-e).toNat) den) := by
  -- The fraction is divided by the unit before it is rounded.
  split
  next he =>
    obtain ⟨n, rfl⟩ := Int.eq_ofNat_of_zero_le he
    have h := roundHalfEven_isRounded num (Nat.mul_pos hden (Nat.two_pow_pos n))
    rw [Nat.cast_mul, Nat.cast_pow, Nat.cast_ofNat, ← div_div] at h
    rw [zpow_natCast, Int.toNat_natCast]
    exact h
  next he =>
    obtain ⟨n, rfl⟩ := Int.exists_eq_neg_ofNat (Int.not_le.1 he).le
    have h := roundHalfEven_isRounded (num * 2 ^ n) hden
    rw [Nat.cast_mul, Nat.cast_pow, Nat.cast_ofNat, mul_div_right_comm] at h
    rw [zpow_neg, zpow_natCast, div_inv_eq_mul, neg_neg, Int.toNat_natCast]
    exact h

theorem isMiddling_zero (h : 2 * q ≤ value 1) : IsMiddling q 0 := by
  refine ⟨fun n hn => absurd hn n.not_lt_zero, fun n hn => ?_⟩
  have hmono : value 1 ≤ value n := value_strictMono.monotone hn
  rw [value_zero, zero_add]
  exact (h.trans hmono).lt_or_eq.imp_right fun heq => ⟨heq, Even.zero⟩

theorem roundsTo_zero (h : 2 * q ≤ value 1) : RoundsTo q 0 := by
  have hround := (isMiddling_zero h).roundsTo
  rwa [Nat.min_zero] at hround

/-- The magnitude that is found is nearest. -/
theorem nearestMagnitude_roundsTo (num : Nat) (hden : 0 < den) :
    RoundsTo (num / den) (nearestMagnitude num den) := by
  unfold nearestMagnitude
  split
  next hzero =>
    subst hzero
    rw [Nat.cast_zero, zero_div]
    exact roundsTo_zero (by rw [mul_zero, value_one]; positivity)
  next hne =>
    -- With the unit in steps above the least one, the significand is what the word counts.
    obtain ⟨hmin, hlt, hfirst⟩ := unitExponent_spec (Nat.pos_of_ne_zero hne) hden
    have hround := significand_isRounded num hden (unitExponent num den)
    dsimp only
    generalize unitExponent num den = e at *
    obtain ⟨steps, hsteps⟩ := Int.eq_ofNat_of_zero_le (show 0 ≤ e + 1074 by omega)
    obtain rfl : e = steps - 1074 := by omega
    have hunit : steps = 0 ∨ 2 ^ 52 ≤ (num / den : ℚ) / 2 ^ (steps - 1074 : ℤ) :=
      hfirst.imp_left (by omega)
    have hnearest := hround.isMiddling hlt hunit
    rw [div_mul_cancel₀ _ (zpow_ne_zero _ two_ne_zero)] at hnearest
    rw [hsteps]
    exact hnearest.roundsTo

/-- Enough places bring a coefficient below the middle between zero and the smallest number. -/
theorem div_pow_le_of_log2_lt {c places : Nat} (h : c.log2 + 400 < places) :
    2 * ((c : ℚ) / 10 ^ places) ≤ value 1 := by
  have hc : (c : ℚ) ≤ 2 ^ (c.log2 + 1) := by exact_mod_cast Nat.lt_log2_self.le
  -- Three binary digits are fewer than a decimal one.
  have hten : (2 : ℚ) ^ (3 * places) ≤ 10 ^ places := by
    rw [pow_mul]
    exact pow_le_pow_left₀ (by norm_num) (by norm_num) places
  have hpower : (2 : ℚ) ^ (c.log2 + 2 + 1074) ≤ 2 ^ (3 * places) :=
    pow_le_pow_right₀ one_le_two (by omega)
  rw [value_one, zpow_neg, ← mul_div_assoc, div_le_iff₀ (by positivity),
    inv_mul_eq_div, le_div_iff₀ (by positivity)]
  calc 2 * (c : ℚ) * 2 ^ (1074 : ℤ) ≤ 2 * 2 ^ (c.log2 + 1) * 2 ^ (1074 : ℤ) := by gcongr
    _ = 2 ^ (c.log2 + 2 + 1074) := by
      rw [← pow_succ', pow_add _ _ 1074]
      rfl
    _ ≤ 10 ^ places := hpower.trans hten

/-- A power of ten past 400 overflows whatever stands in front of it. -/
theorem overflowThreshold_le_of_lt {c exponent : Nat} (hc : c ≠ 0) (h : 400 < exponent) :
    overflowThreshold ≤ c * 10 ^ exponent := by
  have hone : (1 : ℚ) ≤ c := Nat.one_le_cast.2 (Nat.pos_of_ne_zero hc)
  calc overflowThreshold ≤ 2 ^ 1024 := sub_le_self _ (by positivity)
    _ ≤ 2 ^ (3 * exponent) := pow_le_pow_right₀ one_le_two (by omega)
    _ = 8 ^ exponent := by
      rw [pow_mul]
      norm_num
    _ ≤ 10 ^ exponent := pow_le_pow_left₀ (by norm_num) (by norm_num) exponent
    _ ≤ c * 10 ^ exponent := le_mul_of_one_le_left (by positivity) hone

/-- From the threshold on a number rounds to infinity. -/
theorem roundsTo_infinite (h : overflowThreshold ≤ q) : RoundsTo q infinite :=
  ⟨le_rfl, iff_of_true rfl h, fun hlt => absurd hlt (Nat.lt_irrefl _),
    fun hlt => absurd hlt (Nat.lt_irrefl _)⟩

/-- A decimal fraction is rounded to the nearest double, however long it is: where its power of ten
    is not computed, the answer is known without it. -/
theorem decimalMagnitude_roundsTo (coefficient : Nat) (exponent : ℤ) :
    RoundsTo (coefficient * 10 ^ exponent) (decimalMagnitude coefficient exponent) := by
  unfold decimalMagnitude
  split
  next hzero =>
    rw [hzero, Nat.cast_zero, zero_mul]
    exact roundsTo_zero (by rw [mul_zero, value_one]; positivity)
  next hne =>
    split
    next hexponent =>
      obtain ⟨n, rfl⟩ := Int.eq_ofNat_of_zero_le hexponent
      rw [zpow_natCast, Int.toNat_natCast]
      split
      next hlarge =>
        exact roundsTo_infinite (overflowThreshold_le_of_lt hne (by exact_mod_cast hlarge))
      next =>
        have h := nearestMagnitude_roundsTo (coefficient * 10 ^ n) one_pos
        rw [Nat.cast_one, div_one, Nat.cast_mul, Nat.cast_pow] at h
        exact h
    next hexponent =>
      obtain ⟨places, rfl⟩ := Int.exists_eq_neg_ofNat (Int.not_le.1 hexponent).le
      rw [zpow_neg, zpow_natCast, ← div_eq_mul_inv, neg_neg, Int.toNat_natCast]
      dsimp only
      split
      next hsmall => exact roundsTo_zero (div_pow_le_of_log2_lt hsmall)
      next =>
        have h := nearestMagnitude_roundsTo coefficient (Nat.pow_pos (n := places) (Nat.succ_pos 9))
        rw [Nat.cast_pow] at h
        exact h

end Lexis.Binary64
