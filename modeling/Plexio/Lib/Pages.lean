/-
Lists in pages of `w` elements, and the pages a merge of several sorted lists
is shown in, when page `k` of the merge is made of page `k` of each list and
cut to `w`.

That loses what is cut: no later page shows it. `mergedPage_eq` says the
pages are those of the whole merge when the lists fit (`Fits`): all but one
are empty, or all together fill one page. `fits_of_length` says they show too
little otherwise.
-/
import Mathlib.Algebra.BigOperators.Group.List.Basic
import Mathlib.Algebra.GroupWithZero.Nat
import Mathlib.Algebra.Order.BigOperators.Group.List
import Mathlib.Algebra.Order.Group.Nat
import Mathlib.Data.List.Sort

namespace Pages

variable {α : Type}

/-- Page `k` of the list. -/
def page (w k : Nat) (xs : List α) : List α := (xs.drop (w * k)).take w

@[simp] theorem page_nil (w k : Nat) : page w k ([] : List α) = [] := by simp [page]

theorem length_page (w k : Nat) (xs : List α) : (page w k xs).length = min w (xs.length - w * k) := by
  simp [page]

theorem page_sublist (w k : Nat) (xs : List α) : (page w k xs).Sublist xs :=
  (List.take_sublist _ _).trans (List.drop_sublist _ _)

/-- A list that fills one page at most has no second. -/
theorem page_of_length_le {w k : Nat} {xs : List α} (h : xs.length ≤ w) : page w k xs = if k = 0 then xs else [] := by
  unfold page
  split
  · next hk => subst hk; simpa using h
  · next hk =>
    have : w * 1 ≤ w * k := Nat.mul_le_mul_left w (by omega)
    rw [List.drop_of_length_le (by omega), List.take_nil]

/-- The first `n` pages. -/
theorem flatMap_page (w n : Nat) (xs : List α) : ((List.range n).flatMap fun k => page w k xs) = xs.take (w * n) := by
  induction n with
  | zero => simp
  | succ n ih =>
    rw [List.range_succ, List.flatMap_append, ih, List.flatMap_singleton, page, Nat.mul_succ, List.take_add]

/-! ## Pages of a merge -/

section Merge
variable (r : α → α → Prop) [DecidableRel r]

/-- Page `k` of each list, merged and cut to a page. -/
def mergedPage (w k : Nat) (xss : List (List α)) : List α := ((xss.flatMap (page w k)).insertionSort r).take w

/-- All lists but one are empty, or all together fill one page. -/
def Fits (w : Nat) (xss : List (List α)) : Prop :=
  (xss.filter fun xs => !xs.isEmpty).length ≤ 1 ∨ xss.flatten.length ≤ w

/-- Where all lists but one are empty, what is made of each is what is made of the one. -/
theorem flatMap_of_single {xss : List (List α)} (h : (xss.filter fun xs => !xs.isEmpty).length ≤ 1) :
    ∃ xs, (xs = [] ∨ xs ∈ xss) ∧ ∀ f : List α → List α, f [] = [] → xss.flatMap f = f xs := by
  induction xss with
  | nil => exact ⟨[], .inl rfl, fun f hf => hf.symm⟩
  | cons ys yss ih =>
    cases ys with
    | nil =>
      obtain ⟨xs, hxs, hf⟩ := ih h
      exact ⟨xs, hxs.imp_right (List.mem_cons_of_mem _), fun f hnil => by rw [List.flatMap_cons, hnil, hf f hnil]; rfl⟩
    | cons y ys =>
      refine ⟨y :: ys, .inr List.mem_cons_self, fun f hnil => ?_⟩
      have hrest : ∀ zs ∈ yss, f zs = [] := by
        intro zs hzs
        have hempty : (yss.filter fun xs => !xs.isEmpty) = [] := by simpa using h
        have : zs = [] := by simpa using List.filter_eq_nil_iff.mp hempty zs hzs
        rw [this, hnil]
      rw [List.flatMap_cons, List.flatMap_eq_nil_iff.mpr hrest, List.append_nil]

variable {r} {w : Nat} {xss : List (List α)}

/-- **The pages of lists that fit** are those of their whole merge. -/
theorem mergedPage_eq [Std.Total r] [IsTrans α r] (hsorted : ∀ xs ∈ xss, xs.Pairwise r) (h : Fits w xss) (k : Nat) :
    mergedPage r w k xss = page w k (xss.flatten.insertionSort r) := by
  rcases h with h | h
  · obtain ⟨xs, hxs, hf⟩ := flatMap_of_single h
    have hpairwise : xs.Pairwise r := by
      rcases hxs with rfl | hxs
      · exact .nil
      · exact hsorted xs hxs
    have hflatten : xss.flatten = xs := by simpa [List.flatMap_id] using hf id rfl
    have hpage : (page w k xs).length ≤ w := by rw [length_page]; omega
    rw [mergedPage, hf _ (page_nil w k), hflatten, hpairwise.insertionSort_eq,
      (hpairwise.sublist (page_sublist w k xs)).insertionSort_eq, List.take_of_length_le hpage]
  · have hlength : (xss.flatten.insertionSort r).length ≤ w := by rwa [List.length_insertionSort]
    have hpages : xss.flatMap (page w k) = if k = 0 then xss.flatten else [] := by
      have heach : ∀ xs ∈ xss, page w k xs = if k = 0 then xs else [] := by
        intro xs hxs
        exact page_of_length_le ((List.sublist_flatten_of_mem hxs).length_le.trans h)
      rw [List.flatMap_congr heach]
      split <;> simp [List.flatMap_id']
    rw [mergedPage, hpages, page_of_length_le hlength]
    split
    · exact List.take_of_length_le hlength
    · simp

/-! ## What is lost -/

/-- No more is on the pages than in the lists. -/
theorem sum_pages_le (w n : Nat) (xss : List (List α)) :
    ((List.range n).map fun k => (xss.flatMap (page w k)).length).sum ≤ xss.flatten.length := by
  induction xss with
  | nil => simp
  | cons xs xss ih =>
    have hfirst : ((List.range n).map fun k => (page w k xs).length).sum ≤ xs.length := by
      have := congrArg List.length (flatMap_page w n xs)
      rw [List.length_flatMap, List.length_take] at this
      omega
    simp only [List.flatMap_cons, List.length_append, List.flatten_cons, List.sum_map_add]
    omega

theorem length_mergedPage (w k : Nat) (xss : List (List α)) :
    (mergedPage r w k xss).length = min w (xss.flatMap (page w k)).length := by
  simp [mergedPage, List.length_insertionSort]

/-- Lists whose first pages fill one page together fit. -/
theorem fits_of_first (hw : 0 < w) (h : (xss.flatMap (page w 0)).length ≤ w) : Fits w xss := by
  by_cases hall : ∀ xs ∈ xss, xs.length ≤ w
  · refine .inr ?_
    have : xss.flatMap (page w 0) = xss.flatten := by
      rw [List.flatMap_congr fun xs hxs => (page_of_length_le (hall xs hxs)).trans (if_pos rfl), List.flatMap_id']
    rwa [← this]
  · obtain ⟨xs, hxs, hlong⟩ : ∃ xs ∈ xss, w < xs.length := by simpa using hall
    obtain ⟨before, after, rfl⟩ := List.append_of_mem hxs
    have hpage : (page w 0 xs).length = w := by rw [length_page]; omega
    simp only [List.flatMap_append, List.flatMap_cons, List.length_append, hpage] at h
    -- The long list fills the page alone, so the first page of any other is empty.
    have hothers : ∀ yss : List (List α), (yss.flatMap (page w 0)).length = 0 → ∀ ys ∈ yss, ys = [] := by
      intro yss hyss ys hys
      have := List.flatMap_eq_nil_iff.mp (List.length_eq_zero_iff.mp hyss) ys hys
      have := congrArg List.length this
      rw [length_page, List.length_nil] at this
      exact List.length_eq_zero_iff.mp (by omega)
    have hbefore := hothers before (by omega)
    have hafter := hothers after (by omega)
    refine .inl ?_
    rw [List.filter_append, List.filter_cons, List.filter_eq_nil_iff.mpr fun ys hys => by simp [hbefore ys hys],
      List.filter_eq_nil_iff.mpr fun ys hys => by simp [hafter ys hys]]
    split <;> simp

/-- **Lists that are shown whole fit.** -/
theorem fits_of_length (hw : 0 < w) {n : Nat} (hn : 0 < n)
    (h : ((List.range n).flatMap fun k => mergedPage r w k xss).length = xss.flatten.length) : Fits w xss := by
  obtain ⟨n, rfl⟩ : ∃ m, n = m + 1 := ⟨n - 1, by omega⟩
  have hle := sum_pages_le w (n + 1) xss
  rw [List.length_flatMap, List.range_succ_eq_map, List.map_cons, List.sum_cons] at h
  rw [List.range_succ_eq_map, List.map_cons, List.sum_cons] at hle
  have hrest : (((List.range n).map Nat.succ).map fun k => (mergedPage r w k xss).length).sum ≤
      (((List.range n).map Nat.succ).map fun k => (xss.flatMap (page w k)).length).sum := by
    refine List.sum_le_sum fun k _ => ?_
    rw [length_mergedPage]
    omega
  have hfirst := length_mergedPage (r := r) w 0 xss
  exact fits_of_first hw (by omega)

end Merge

end Pages
