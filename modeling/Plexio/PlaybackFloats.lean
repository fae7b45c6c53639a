/-
Positions as `_position_ms` computes them, in floats: a quotient of integers
or an integer may be out of their range, and a product may be infinite, which
no integer is. By a clock of 64 bits, whether a report can be made depends on
the playback alone (`returns_report`).
-/
import Plexio.PlaybackProtocol
import Plexio.StreamFields

namespace Plexio

open Py
open Binary64 (Fits abs_round_le abs_round_le_pow)

/-! ## Float arithmetic -/

/-- What a float operation gives; `none` is infinite. -/
def rounded (x : ℚ) : Option ℚ := if Fits x then some (Binary64.round x) else none

/-- `a / b` of integers. -/
def quotient (a b : Int) : Except Exc ℚ := if Fits (a / b : ℚ) then .ok (Binary64.round (a / b)) else .error .overflow

/-- `int(x)` -/
def intOfFloat : Option ℚ → Except Exc Int
  | some x => .ok (truncate x)
  | none => .error .overflow

theorem returns_quotient {a b : Int} : Returns (quotient a b) ↔ Fits (a / b : ℚ) := by
  simp [quotient, Returns.ite_iff]

theorem returns_intOfFloat {x : Option ℚ} : Returns (intOfFloat x) ↔ x.isSome := by
  cases x <;> simp [intOfFloat]

theorem isSome_rounded {x : ℚ} : (rounded x).isSome ↔ Fits x := by
  unfold rounded
  split <;> simp [*]

/-! ## `_position_ms` -/

section Position
variable (p : Playback)

/-- The position that was asked for. -/
def initialMs : Except Exc Int :=
  match p.total with
  | none => pure 0
  | some total =>
    if total = 0 then pure 0
    else do
      let fraction ← quotient p.start total
      let duration ← float p.durationMs
      intOfFloat (rounded (fraction * duration))

/-- The milliseconds since the first chunk. -/
def elapsedMs (startedAt now : ℚ) : Option ℚ :=
  (rounded (now - startedAt)).bind fun seconds => rounded (max seconds 0 * 1000)

/-- `_position_ms` in floats. -/
def floatPositionMs (startedAt now : ℚ) : Except Exc Int :=
  if p.durationMs = 0 then pure 0
  else do
    let initial ← initialMs p
    let initial ← float initial
    let position ← intOfFloat ((elapsedMs startedAt now).bind fun elapsed => rounded (initial + elapsed))
    pure (min position p.durationMs)

/-- `_timeline`, up to its request: what the URL says is written before anything is caught. -/
def writeTimeline (state : TimelineState) (timeMs : Int) : Except Exc Action := do
  let _ ← formatInt (max timeMs 0)
  let _ ← formatInt (max p.durationMs 0)
  pure (timeline p state timeMs)

/-- A report of a state. -/
def report (state : TimelineState) (startedAt now : ℚ) : Except Exc Action := do
  let timeMs ← floatPositionMs p startedAt now
  writeTimeline p state timeMs

end Position

/-! ## When there is a position -/

/-- `monotonic()` counts nanoseconds in 64 bits. -/
def OnClock (t : ℚ) : Prop := |t| ≤ 2 ^ 34

instance (t : ℚ) : Decidable (OnClock t) := inferInstanceAs (Decidable (_ ≤ _))

/-- The position asked for is computed in floats. -/
def Playback.InRange (p : Playback) : Prop :=
  ∀ total ∈ p.total, total ≠ 0 → Fits (p.start / total : ℚ) ∧ Fits p.durationMs ∧
    Fits (Binary64.round (p.start / total) * Binary64.round p.durationMs)

/-- A report of the playback can be made. -/
def Playback.Reportable (p : Playback) : Prop :=
  (p.durationMs = 0 ∨ p.InRange) ∧ Prints (max p.durationMs 0)

section Returns
variable {p : Playback} {startedAt now : ℚ}

theorem returns_initialMs : Returns (initialMs p) ↔ p.InRange := by
  unfold initialMs Playback.InRange
  cases p.total with
  | none => simp
  | some total =>
    dsimp only
    rw [Returns.ite_iff, Returns.pure_iff]
    have hrest : ∀ fraction, quotient p.start total = .ok fraction →
        (Returns (float p.durationMs >>= fun duration => intOfFloat (rounded (fraction * duration))) ↔
          Fits p.durationMs ∧ Fits (Binary64.round (p.start / total) * Binary64.round p.durationMs)) := by
      intro fraction hfraction
      obtain rfl : Binary64.round (p.start / total) = fraction := by
        unfold quotient at hfraction
        split at hfraction
        · exact Except.ok.inj hfraction
        · cases hfraction
      rw [← returns_float]
      refine Returns.bind_and fun duration hduration => ?_
      obtain rfl : Binary64.round p.durationMs = duration := by
        unfold float at hduration
        split at hduration
        · exact Except.ok.inj hduration
        · cases hduration
      rw [returns_intOfFloat, isSome_rounded]
    rw [Returns.bind_and hrest, returns_quotient]
    simp

theorem abs_truncate_le (x : ℚ) : |(truncate x : ℚ)| ≤ |x| := by
  unfold truncate
  split
  · next h =>
    have hfloor : (0 : ℚ) ≤ ⌊x⌋ := by exact_mod_cast Int.floor_nonneg.mpr h
    rw [abs_of_nonneg h, abs_of_nonneg hfloor]
    exact Int.floor_le x
  · next h =>
    have hneg := not_le.mp h
    have hceil : ((⌈x⌉ : ℤ) : ℚ) ≤ 0 := by exact_mod_cast Int.ceil_le.mpr (by simpa using hneg.le)
    rw [abs_of_neg hneg, abs_of_nonpos hceil]
    exact neg_le_neg (Int.le_ceil x)

/-- A position asked for is no greater than a float. -/
theorem initialMs_le {bound : ℚ} (hbound : ∀ {x : ℚ}, Fits x → |Binary64.round x| ≤ bound) {initial : Int}
    (h : initialMs p = .ok initial) : |(initial : ℚ)| ≤ bound := by
  have hzero : |((0 : ℤ) : ℚ)| ≤ bound := by
    rw [Int.cast_zero, abs_zero]
    exact (abs_nonneg (Binary64.round 0)).trans (hbound (by decide +kernel))
  unfold initialMs at h
  split at h
  · obtain rfl : 0 = initial := Except.ok.inj h
    exact hzero
  split at h
  · obtain rfl : 0 = initial := Except.ok.inj h
    exact hzero
  · obtain ⟨fraction, -, h⟩ := Json.bind_ok.mp h
    obtain ⟨duration, -, h⟩ := Json.bind_ok.mp h
    unfold rounded at h
    split at h
    · next hfits =>
      obtain rfl : truncate _ = initial := Except.ok.inj h
      exact (abs_truncate_le _).trans (hbound hfits)
    · cases h

/-- By the clock, the time since the first chunk is short. -/
theorem exists_elapsedMs (hstart : OnClock startedAt) (hnow : OnClock now) :
    ∃ elapsed, elapsedMs startedAt now = some elapsed ∧ |elapsed| ≤ 2 ^ 45 := by
  have hdiff : |now - startedAt| ≤ 2 ^ 35 := by
    have hadd := abs_sub now startedAt
    rw [OnClock] at hstart hnow
    linarith
  have hround := abs_round_le_pow hdiff
  have hprod : |max (Binary64.round (now - startedAt)) 0 * 1000| ≤ 2 ^ 45 := by
    rw [abs_of_nonneg (mul_nonneg (le_max_right _ _) (by norm_num))]
    have hmax : max (Binary64.round (now - startedAt)) 0 ≤ 2 ^ 35 := max_le ((le_abs_self _).trans hround) (by positivity)
    linarith
  refine ⟨_, ?_, abs_round_le_pow hprod⟩
  rw [elapsedMs, rounded, if_pos (Binary64.fits_of_abs_le hdiff (by decide)), Option.bind_some, rounded,
    if_pos (Binary64.fits_of_abs_le hprod (by decide))]

/-- **Whether there is a position does not depend on the time.** -/
theorem returns_floatPositionMs (hstart : OnClock startedAt) (hnow : OnClock now) :
    Returns (floatPositionMs p startedAt now) ↔ p.durationMs = 0 ∨ p.InRange := by
  have hrest : ∀ initial, initialMs p = .ok initial → (Returns (float initial >>= fun initial => do
      let position ← intOfFloat ((elapsedMs startedAt now).bind fun elapsed => rounded (initial + elapsed))
      pure (min position p.durationMs)) ↔ True) := by
    intro initial hinitial
    have hfits : Fits initial := Binary64.fits_of_le (initialMs_le abs_round_le hinitial)
    obtain ⟨elapsed, helapsed, hle⟩ := exists_elapsedMs hstart hnow
    have hsum : Fits (Binary64.round initial + elapsed) := Binary64.fits_add (abs_round_le hfits) hle (by decide)
    rw [float, if_pos hfits, Json.ok_bind, helapsed, Option.bind_some, rounded, if_pos hsum]
    exact iff_true_intro ⟨_, rfl⟩
  unfold floatPositionMs
  rw [Returns.ite_iff, Returns.bind_and hrest, returns_initialMs, and_true]
  simp only [Returns.pure_iff, implies_true, true_and]
  exact or_iff_not_imp_left.symm

/-- A smaller number has no more digits. -/
theorem prints_mono {m n : Int} (hm : 0 ≤ m) (h : m ≤ n) (hn : Prints n) : Prints m := by
  have hdigits : ∀ k : Int, strInt k.natAbs = Nat.toDigits 10 k.natAbs := by
    intro k
    rw [Json.strInt_eq, if_pos (by omega)]
    rfl
  rw [Prints, hdigits] at hn ⊢
  have hpos : 0 < (Nat.toDigits 10 n.natAbs).length := List.length_pos_iff.mpr Nat.toDigits_ne_nil
  have hlt := (Nat.length_toDigits_le_iff (by decide) hpos).mp le_rfl
  refine le_trans ((Nat.length_toDigits_le_iff (by decide) hpos).mpr ?_) hn
  omega

theorem floatPositionMs_le {time : Int} (h : floatPositionMs p startedAt now = .ok time) :
    max time 0 ≤ max p.durationMs 0 := by
  unfold floatPositionMs at h
  split at h
  · obtain rfl : 0 = time := Except.ok.inj h
    omega
  · obtain ⟨initial, -, h⟩ := Json.bind_ok.mp h
    obtain ⟨initial', -, h⟩ := Json.bind_ok.mp h
    obtain ⟨position, -, h⟩ := Json.bind_ok.mp h
    obtain rfl : min position p.durationMs = time := Except.ok.inj h
    omega

/-- **Whether a report can be made depends on the playback alone.** -/
theorem returns_report (hstart : OnClock startedAt) (hnow : OnClock now) (state : TimelineState) :
    Returns (report p state startedAt now) ↔ p.Reportable := by
  have hwrite : ∀ time, floatPositionMs p startedAt now = .ok time →
      (Returns (writeTimeline p state time) ↔ Prints (max p.durationMs 0)) := by
    intro time htime
    have hle := floatPositionMs_le htime
    unfold writeTimeline
    rw [Returns.bind_and fun _ _ => Returns.bind_pure_iff, returns_formatInt, returns_formatInt]
    exact and_iff_right_of_imp fun hprints => prints_mono (le_max_right _ _) hle hprints
  rw [report, Returns.bind_and hwrite, returns_floatPositionMs hstart hnow, Playback.Reportable]

end Returns

end Plexio
