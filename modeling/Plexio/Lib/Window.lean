/-
Times in order, and the ones after a cutoff. Trimming a sorted list at its
front leaves these (`trim_eq_recent`), and a later cutoff can be taken of what
an earlier one left (`recent_recent`): so a list that is trimmed now and then
still tells what is recent at every later time.
-/
import Mathlib.Data.List.Basic
import Mathlib.Order.Lattice

namespace Window

variable {T : Type} [LinearOrder T]

/-- The times after the cutoff. -/
def recent (cutoff : T) (times : List T) : List T := times.filter fun t => cutoff < t

/-- `while times and times[0] <= cutoff: times.popleft()` -/
def trim (cutoff : T) (times : List T) : List T := times.dropWhile fun t => t ≤ cutoff

/-- No time, or none after the cutoff as the last is not. -/
def isStale (cutoff : T) (times : List T) : Bool := times.getLast?.all fun t => t ≤ cutoff

theorem mem_recent {cutoff t : T} {times : List T} : t ∈ recent cutoff times ↔ t ∈ times ∧ cutoff < t := by
  simp [recent]

theorem recent_eq_nil {cutoff : T} {times : List T} (h : ∀ t ∈ times, t ≤ cutoff) : recent cutoff times = [] := by
  unfold recent
  rw [List.filter_eq_nil_iff]
  intro t ht
  simpa using h t ht

theorem recent_eq_self {cutoff : T} {times : List T} (h : ∀ t ∈ times, cutoff < t) : recent cutoff times = times := by
  unfold recent
  rw [List.filter_eq_self]
  intro t ht
  simpa using h t ht

/-- A later cutoff of what an earlier one left. -/
theorem recent_recent {cutoff later : T} (h : cutoff ≤ later) (times : List T) :
    recent later (recent cutoff times) = recent later times := by
  unfold recent
  rw [List.filter_filter]
  refine List.filter_congr fun t _ => ?_
  by_cases ht : later < t
  · simp [ht, h.trans_lt ht]
  · simp [ht]

theorem recent_append (cutoff : T) (times more : List T) :
    recent cutoff (times ++ more) = recent cutoff times ++ recent cutoff more := List.filter_append ..

/-- **Trimming a sorted list leaves what is recent.** -/
theorem trim_eq_recent {times : List T} (h : times.Pairwise (· ≤ ·)) (cutoff : T) : trim cutoff times = recent cutoff times := by
  induction times with
  | nil => rfl
  | cons t times ih =>
    rw [List.pairwise_cons] at h
    by_cases ht : t ≤ cutoff
    · have hdrop : trim cutoff (t :: times) = trim cutoff times := List.dropWhile_cons_of_pos (by simpa using ht)
      have hskip : recent cutoff (t :: times) = recent cutoff times := List.filter_cons_of_neg (by simpa using ht)
      rw [hdrop, hskip, ih h.2]
    · have hstop : trim cutoff (t :: times) = t :: times := List.dropWhile_cons_of_neg (by simpa using ht)
      rw [hstop]
      refine (recent_eq_self fun x hx => ?_).symm
      -- The first time is after the cutoff, and the others after it.
      rcases List.mem_cons.mp hx with rfl | hx
      · exact not_le.mp ht
      · exact (not_le.mp ht).trans_le (h.1 x hx)

/-- A sorted list is stale when nothing in it is recent. -/
theorem recent_of_isStale {times : List T} (h : times.Pairwise (· ≤ ·)) {cutoff : T} (hstale : isStale cutoff times = true) :
    recent cutoff times = [] := by
  rcases List.eq_nil_or_concat times with rfl | ⟨init, last, rfl⟩
  · rfl
  · simp only [isStale, List.concat_eq_append, List.getLast?_append, List.getLast?_singleton, Option.some_or,
      Option.all_some, decide_eq_true_eq] at hstale
    rw [List.concat_eq_append] at h ⊢
    rw [List.pairwise_append] at h
    refine recent_eq_nil fun t ht => ?_
    rcases List.mem_append.mp ht with ht | ht
    · exact (h.2.2 t ht last List.mem_cons_self).trans hstale
    · exact List.mem_singleton.mp ht ▸ hstale

/-- The last time of a list that is not stale is recent. -/
theorem exists_recent {times : List T} {cutoff : T} (h : isStale cutoff times = false) : ∃ t ∈ times, cutoff < t := by
  unfold isStale at h
  cases hlast : times.getLast? with
  | none => simp [hlast] at h
  | some t =>
    rw [hlast, Option.all_some, decide_eq_false_iff_not, not_le] at h
    exact ⟨t, List.mem_of_getLast? hlast, h⟩

end Window
