/-
Rounding to binary64. The float nearest to a rational is a rational again,
of at most 53 significant bits, none below `2 ^ -1074` (`round`); a tie goes
to the even one. A number that would be rounded past the largest float has
none (`Fits`).

Integers of 53 bits are floats (`round_intCast`), and what fits is rounded to
the largest float at most (`abs_round_le`); no power of two is passed
(`abs_round_le_pow`).
-/
import Mathlib.Algebra.Order.Field.Power
import Mathlib.Data.Rat.Floor
import Mathlib.Tactic.Linarith
import Mathlib.Tactic.Positivity
import Mathlib.Tactic.Ring

namespace Binary64

/-- The integer nearest to a number, the even one of two. -/
def halfEven (x : ℚ) : ℤ := if 2 * (x - ⌊x⌋) < 1 ∨ 2 * (x - ⌊x⌋) = 1 ∧ ⌊x⌋ % 2 = 0 then ⌊x⌋ else ⌊x⌋ + 1

/-- `⌊log₂ x⌋` of a positive number. -/
def floorLog2 (x : ℚ) : ℤ :=
  let e : ℤ := x.num.natAbs.log2 - x.den.log2
  if x < 2 ^ e then e - 1 else e

/-- The exponent of the last bit of the floats of a number's size. -/
def lastBit (x : ℚ) : ℤ := max (floorLog2 |x| - 52) (-1074)

/-- The float nearest to a number, if there were no largest one. -/
def round (x : ℚ) : ℚ := halfEven (x / 2 ^ lastBit x) * 2 ^ lastBit x

/-- The number is not rounded past the largest float. -/
def Fits (x : ℚ) : Prop := |x| < 2 ^ 1024 - 2 ^ 970

instance (x : ℚ) : Decidable (Fits x) := inferInstanceAs (Decidable (_ < _))

/-! ## The nearest integer -/

theorem halfEven_intCast (n : ℤ) : halfEven n = n := by
  simp [halfEven]

/-- Rounding does not pass an integer. -/
theorem le_halfEven {x : ℚ} {n : ℤ} (h : n ≤ x) : n ≤ halfEven x := by
  have hfloor : n ≤ ⌊x⌋ := Int.le_floor.mpr h
  unfold halfEven
  split <;> omega

/-- Below the half, the lower integer is nearer. -/
theorem halfEven_le {x : ℚ} {n : ℤ} (h : x < n + 1 / 2) : halfEven x ≤ n := by
  have hx := Int.floor_le x
  have hfloor : ⌊x⌋ ≤ n := by
    refine Int.lt_add_one_iff.mp (Int.floor_lt.mpr ?_)
    push_cast
    linarith
  unfold halfEven
  split
  · exact hfloor
  · next hup =>
    -- At `n` itself the half is not reached.
    rcases hfloor.lt_or_eq with hlt | heq
    · omega
    · rw [heq] at hup
      exact absurd (.inl (by linarith)) hup

theorem halfEven_neg (x : ℚ) : halfEven (-x) = -halfEven x := by
  have hx := Int.floor_le x
  have hx' := Int.lt_floor_add_one x
  rcases hx.eq_or_lt with heq | hlt
  · rw [← heq, ← Int.cast_neg, halfEven_intCast, halfEven_intCast]
  have hneg : ⌊-x⌋ = -⌊x⌋ - 1 := by
    refine Int.floor_eq_iff.mpr ⟨?_, ?_⟩ <;> push_cast <;> linarith
  unfold halfEven
  rw [hneg]
  push_cast
  split <;> split
  · next hlow hhigh =>
    rcases hlow with hlow | ⟨hlow, heven⟩ <;> rcases hhigh with hhigh | ⟨hhigh, heven'⟩
    · linarith
    · linarith
    · linarith
    · omega
  · omega
  · omega
  · next hlow hhigh =>
    rcases lt_trichotomy (2 * (x - ⌊x⌋)) 1 with hside | hside | hside
    · exact absurd (.inl hside) hhigh
    · by_cases heven : ⌊x⌋ % 2 = 0
      · exact absurd (.inr ⟨hside, heven⟩) hhigh
      · exact absurd (.inr ⟨by linarith, by omega⟩) hlow
    · exact absurd (.inl (by linarith)) hlow

/-! ## The exponent -/

theorem floorLog2_spec {x : ℚ} (h : 0 < x) : (2 : ℚ) ^ floorLog2 x ≤ x ∧ x < 2 ^ (floorLog2 x + 1) := by
  have hden : (0 : ℚ) < x.den := by exact_mod_cast x.den_pos
  have hnum : x.num.natAbs ≠ 0 := by simpa using h.ne'
  have hx : x * x.den = x.num.natAbs := by
    rw [Rat.mul_den_eq_num, ← Int.cast_natCast, Int.natAbs_of_nonneg (Rat.num_nonneg.mpr h.le)]
  have hp : (2 : ℚ) ^ (x.num.natAbs.log2 : ℤ) ≤ x * x.den := by
    rw [hx, zpow_natCast]
    exact_mod_cast Nat.log2_self_le hnum
  have hp' : x * x.den < 2 ^ ((x.num.natAbs.log2 : ℤ) + 1) := by
    rw [hx, ← Nat.cast_succ, zpow_natCast]
    exact_mod_cast Nat.lt_log2_self
  have hq : (2 : ℚ) ^ (x.den.log2 : ℤ) ≤ x.den := by
    rw [zpow_natCast]
    exact_mod_cast Nat.log2_self_le x.den_nz
  have hq' : (x.den : ℚ) < 2 ^ ((x.den.log2 : ℤ) + 1) := by
    rw [← Nat.cast_succ, zpow_natCast]
    exact_mod_cast Nat.lt_log2_self
  have hlow : (2 : ℚ) ^ ((x.num.natAbs.log2 : ℤ) - x.den.log2 - 1) < x := by
    refine lt_of_mul_lt_mul_right (lt_of_lt_of_le ?_ hp) hden.le
    calc (2 : ℚ) ^ ((x.num.natAbs.log2 : ℤ) - x.den.log2 - 1) * x.den
        < 2 ^ ((x.num.natAbs.log2 : ℤ) - x.den.log2 - 1) * 2 ^ ((x.den.log2 : ℤ) + 1) := by gcongr
      _ = 2 ^ (x.num.natAbs.log2 : ℤ) := by rw [← zpow_add₀ two_ne_zero]; congr 1; ring
  have hhigh : x < (2 : ℚ) ^ ((x.num.natAbs.log2 : ℤ) - x.den.log2 + 1) := by
    refine lt_of_mul_lt_mul_right (lt_of_lt_of_le hp' ?_) hden.le
    calc (2 : ℚ) ^ ((x.num.natAbs.log2 : ℤ) + 1)
        = 2 ^ ((x.num.natAbs.log2 : ℤ) - x.den.log2 + 1) * 2 ^ (x.den.log2 : ℤ) := by
          rw [← zpow_add₀ two_ne_zero]; congr 1; ring
      _ ≤ 2 ^ ((x.num.natAbs.log2 : ℤ) - x.den.log2 + 1) * x.den := by gcongr
  dsimp only [floorLog2]
  split
  · next hlt => exact ⟨hlow.le, by rwa [sub_add_cancel]⟩
  · next hle => exact ⟨not_lt.mp hle, hhigh⟩

theorem lastBit_neg (x : ℚ) : lastBit (-x) = lastBit x := by
  rw [lastBit, lastBit, abs_neg]

/-! ## Floats -/

@[simp] theorem round_zero : round 0 = 0 := by
  have : halfEven 0 = 0 := halfEven_intCast 0
  simp [round, this]

theorem round_neg (x : ℚ) : round (-x) = -round x := by
  rw [round, round, lastBit_neg, neg_div, halfEven_neg, Int.cast_neg, neg_mul]

/-- What is rounded has 53 bits before the point. -/
theorem div_lastBit_lt {x : ℚ} (h : 0 < x) : x / 2 ^ lastBit x < 2 ^ 53 := by
  have hspec := (floorLog2_spec h).2
  have hle : floorLog2 x + 1 ≤ 53 + lastBit x := by
    rw [lastBit, abs_of_pos h]
    omega
  rw [div_lt_iff₀ (by positivity)]
  calc x < 2 ^ (floorLog2 x + 1) := hspec
    _ ≤ (2 : ℚ) ^ (53 + lastBit x) := zpow_le_zpow_right₀ one_le_two hle
    _ = 2 ^ 53 * 2 ^ lastBit x := by rw [zpow_add₀ two_ne_zero]; norm_cast

/-- **Integers of 53 bits are floats.** -/
theorem round_intCast {n : ℤ} (h : n.natAbs < 2 ^ 53) : round n = n := by
  by_cases hn : n = 0
  · rw [hn, Int.cast_zero, round_zero]
  have habs : (0 : ℚ) < |(n : ℚ)| := by positivity
  have hsmall : lastBit n ≤ 0 := by
    have hlog : floorLog2 |(n : ℚ)| < 53 := by
      have hpow : (2 : ℚ) ^ floorLog2 |(n : ℚ)| < 2 ^ (53 : ℤ) := by
        refine lt_of_le_of_lt (floorLog2_spec habs).1 ?_
        rw [← Int.cast_abs, Int.abs_eq_natAbs]
        exact_mod_cast h
      exact (zpow_lt_zpow_iff_right₀ one_lt_two).mp hpow
    rw [lastBit]
    omega
  obtain ⟨k, hk⟩ := Int.eq_ofNat_of_zero_le (neg_nonneg.mpr hsmall)
  -- The bits below the point are none, so nothing is lost.
  have hscaled : (n : ℚ) / 2 ^ lastBit n = (n * 2 ^ k : ℤ) := by
    rw [div_eq_mul_inv, ← zpow_neg, hk, zpow_natCast]
    push_cast
    rfl
  rw [round, hscaled, halfEven_intCast, ← hscaled, div_mul_cancel₀ _ (by positivity)]

/-- A float is not rounded past a power of two of 53 bits or more. -/
theorem le_round {x : ℚ} (h : 2 ^ 53 ≤ x) : 2 ^ 53 ≤ round x := by
  have hx : 0 < x := lt_of_lt_of_le (by positivity) h
  obtain ⟨hlow, hhigh⟩ := floorLog2_spec hx
  have hlog : 53 ≤ floorLog2 x := by
    have hpow : (2 : ℚ) ^ (53 : ℤ) < 2 ^ (floorLog2 x + 1) := lt_of_le_of_lt (by exact_mod_cast h) hhigh
    exact Int.lt_add_one_iff.mp ((zpow_lt_zpow_iff_right₀ one_lt_two).mp hpow)
  have hbit : lastBit x = floorLog2 x - 52 := by
    rw [lastBit, abs_of_pos hx]
    omega
  have hhalf : (2 : ℤ) ^ 52 ≤ halfEven (x / 2 ^ lastBit x) := by
    refine le_halfEven ?_
    rw [le_div_iff₀ (by positivity), hbit]
    refine le_of_eq_of_le ?_ hlow
    rw [Int.cast_pow, Int.cast_ofNat, ← zpow_natCast, ← zpow_add₀ two_ne_zero]
    congr 1
    omega
  calc (2 : ℚ) ^ 53 = ((2 ^ 52 : ℤ) : ℚ) * 2 ^ (1 : ℤ) := by norm_num
    _ ≤ halfEven (x / 2 ^ lastBit x) * 2 ^ lastBit x := by
      gcongr
      · exact one_le_two
      · omega

/-- The powers at the end of the range, by the lowest of them. -/
theorem pow_last : ∃ p : ℚ, 0 < p ∧ 2 ^ 970 = p ∧ 2 ^ 971 = 2 * p ∧ 2 ^ 1024 = 2 ^ 54 * p :=
  ⟨2 ^ 970, by positivity, rfl, by rw [← pow_succ'], by rw [← pow_add]⟩

theorem round_le {x : ℚ} (hx : 0 < x) (h : Fits x) : round x ≤ 2 ^ 1024 - 2 ^ 971 := by
  obtain ⟨p, hp, h970, h971, h1024⟩ := pow_last
  rw [Fits, abs_of_pos hx, h970, h1024] at h
  rw [h971, h1024]
  have hlast : lastBit x ≤ 971 := by
    have hlog : floorLog2 x < 1024 := by
      have hpow : (2 : ℚ) ^ floorLog2 x < 2 ^ (1024 : ℤ) := by
        have htop : (2 : ℚ) ^ (1024 : ℤ) = 2 ^ 54 * p := (zpow_natCast 2 1024).trans h1024
        rw [htop]
        linarith only [(floorLog2_spec hx).1, h, hp]
      exact (zpow_lt_zpow_iff_right₀ one_lt_two).mp hpow
    rw [lastBit, abs_of_pos hx]
    omega
  have hbits := div_lastBit_lt hx
  rcases hlast.eq_or_lt with heq | hlt
  · have hbit : (2 : ℚ) ^ lastBit x = 2 * p := by rw [heq, ← h971]; exact zpow_natCast 2 971
    -- In the last binade the mantissa is not rounded up to `2 ^ 53`.
    have hmant : halfEven (x / 2 ^ lastBit x) ≤ 2 ^ 53 - 1 := by
      refine halfEven_le ?_
      rw [div_lt_iff₀ (by positivity), hbit]
      push_cast
      linarith only [h]
    calc round x ≤ ((2 ^ 53 - 1 : ℤ) : ℚ) * 2 ^ lastBit x := by unfold round; gcongr
      _ = 2 ^ 54 * p - 2 * p := by
        rw [hbit]
        push_cast
        ring
  · have hbit : (2 : ℚ) ^ lastBit x ≤ p := by
      rw [← h970, ← zpow_natCast]
      exact zpow_le_zpow_right₀ one_le_two (by omega)
    have hmant : halfEven (x / 2 ^ lastBit x) ≤ 2 ^ 53 := by
      refine halfEven_le (hbits.trans ?_)
      push_cast
      linarith
    calc round x ≤ ((2 ^ 53 : ℤ) : ℚ) * 2 ^ lastBit x := by unfold round; gcongr
      _ ≤ ((2 ^ 53 : ℤ) : ℚ) * p := by gcongr
      _ ≤ 2 ^ 54 * p - 2 * p := by
        push_cast
        linarith only [hp]

/-- **What fits is rounded to the largest float at most.** -/
theorem abs_round_le {x : ℚ} (h : Fits x) : |round x| ≤ 2 ^ 1024 - 2 ^ 971 := by
  have hnonneg : ∀ {y : ℚ}, 0 < y → 0 ≤ round y := by
    intro y hy
    have hzero : (0 : ℤ) ≤ halfEven (y / 2 ^ lastBit y) := le_halfEven (by push_cast; positivity)
    unfold round
    positivity
  rcases lt_trichotomy x 0 with hneg | rfl | hpos
  · have hneg' : 0 < -x := neg_pos.mpr hneg
    have hfits : Fits (-x) := by rwa [Fits, abs_neg]
    rw [← abs_neg, ← round_neg, abs_of_nonneg (hnonneg hneg')]
    exact round_le hneg' hfits
  · obtain ⟨p, hp, -, h971, h1024⟩ := pow_last
    rw [round_zero, abs_zero, h971, h1024]
    linarith only [hp]
  · rw [abs_of_nonneg (hnonneg hpos)]
    exact round_le hpos h

/-- Rounding does not pass a power of two. -/
theorem abs_round_le_pow {x : ℚ} {k : ℕ} (h : |x| ≤ 2 ^ k) : |round x| ≤ 2 ^ k := by
  have hpos : ∀ {y : ℚ}, 0 < y → y ≤ 2 ^ k → |round y| ≤ 2 ^ k := by
    intro y hy hle
    have hbit : lastBit y ≤ k := by
      have hpow : (2 : ℚ) ^ floorLog2 y ≤ 2 ^ (k : ℤ) := (floorLog2_spec hy).1.trans (by rwa [zpow_natCast])
      have hlog := (zpow_le_zpow_iff_right₀ one_lt_two).mp hpow
      rw [lastBit, abs_of_pos hy]
      omega
    obtain ⟨n, hn⟩ := Int.eq_ofNat_of_zero_le (sub_nonneg.mpr hbit)
    -- Seen from the last bit, the power is an integer.
    have hscaled : (2 : ℚ) ^ k = ((2 ^ n : ℤ) : ℚ) * 2 ^ lastBit y := by
      push_cast
      rw [← zpow_natCast, ← zpow_natCast, ← zpow_add₀ two_ne_zero]
      congr 1
      omega
    have hmant : halfEven (y / 2 ^ lastBit y) ≤ 2 ^ n := by
      refine halfEven_le ?_
      have hdiv : y / 2 ^ lastBit y ≤ ((2 ^ n : ℤ) : ℚ) := by
        rw [div_le_iff₀ (by positivity), ← hscaled]
        exact hle
      linarith
    have hnonneg : (0 : ℤ) ≤ halfEven (y / 2 ^ lastBit y) := le_halfEven (by push_cast; positivity)
    rw [round, abs_of_nonneg (by positivity), hscaled]
    gcongr
  rcases lt_trichotomy x 0 with hneg | rfl | hx
  · rw [← abs_neg, ← round_neg]
    exact hpos (neg_pos.mpr hneg) ((le_abs_self _).trans (by rwa [abs_neg]))
  · rw [round_zero, abs_zero]
    positivity
  · exact hpos hx ((le_abs_self x).trans h)

/-- What is no greater than a lower power of two fits. -/
theorem fits_of_abs_le {x : ℚ} {k : ℕ} (h : |x| ≤ 2 ^ k) (hk : k < 1024) : Fits x := by
  obtain ⟨p, hp, h970, -, h1024⟩ := pow_last
  have hpow : (2 : ℚ) ^ k ≤ 2 ^ 53 * p := by
    calc (2 : ℚ) ^ k ≤ 2 ^ 1023 := pow_le_pow_right₀ one_le_two (by omega)
      _ = 2 ^ 53 * p := by rw [← h970, ← pow_add]
  rw [Fits, h970, h1024]
  linarith only [h, hpow, hp]

/-- A float and a number below its last bit are added within the range. -/
theorem fits_add {x y : ℚ} (hx : |x| ≤ 2 ^ 1024 - 2 ^ 971) {k : ℕ} (hy : |y| ≤ 2 ^ k) (hk : k < 970) : Fits (x + y) := by
  obtain ⟨p, hp, h970, h971, h1024⟩ := pow_last
  have hpow : (2 : ℚ) ^ k < p := by
    rw [← h970]
    exact pow_lt_pow_right₀ one_lt_two hk
  rw [h971, h1024] at hx
  rw [Fits, h970, h1024]
  linarith only [abs_add_le x y, hx, hy, hpow]

/-- A float fits. -/
theorem fits_of_le {x : ℚ} (hx : |x| ≤ 2 ^ 1024 - 2 ^ 971) : Fits x := by
  have hzero : |(0 : ℚ)| ≤ 2 ^ 0 := by rw [abs_zero]; positivity
  rw [← add_zero x]
  exact fits_add hx hzero (by decide)

end Binary64
