/-
The first element of each key in a list, as a loop with a set of seen keys
finds them; and what becomes of the whole when the loop is run on each of
several blocks with a set of its own (`firsts_blocks`).
-/
import Mathlib.Data.List.Pairwise
import Mathlib.Data.List.Nodup

namespace Firsts

variable {α κ : Type} [DecidableEq κ] (key : α → κ)

/-- The elements whose key is not seen and stands there first. -/
def firsts : List κ → List α → List α
  | _, [] => []
  | seen, a :: as => if key a ∈ seen then firsts seen as else a :: firsts (key a :: seen) as

variable {key} {seen seen' : List κ} {as bs : List α}

theorem firsts_sublist (seen : List κ) (as : List α) : (firsts key seen as).Sublist as := by
  induction as generalizing seen with
  | nil => exact .slnil
  | cons a as ih =>
    rw [firsts]
    split
    · exact (ih seen).cons a
    · exact (ih _).cons_cons a

/-- Only which keys are seen counts. -/
theorem firsts_congr (h : ∀ a ∈ as, key a ∈ seen ↔ key a ∈ seen') : firsts key seen as = firsts key seen' as := by
  induction as generalizing seen seen' with
  | nil => rfl
  | cons a as ih =>
    obtain ⟨hhead, htail⟩ := List.forall_mem_cons.mp h
    rw [firsts, firsts]
    by_cases ha : key a ∈ seen
    · rw [if_pos ha, if_pos (hhead.mp ha)]
      exact ih htail
    · rw [if_neg ha, if_neg fun h' => ha (hhead.mpr h')]
      refine congrArg _ (ih fun b hb => ?_)
      simp only [List.mem_cons, htail b hb]

theorem mem_firsts_keys {k : κ} : k ∈ (firsts key seen as).map key ↔ k ∈ as.map key ∧ k ∉ seen := by
  induction as generalizing seen with
  | nil => simp [firsts]
  | cons a as ih =>
    rw [firsts]
    split
    · next ha =>
      rw [ih, List.map_cons, List.mem_cons]
      constructor
      · exact fun h => ⟨.inr h.1, h.2⟩
      · rintro ⟨rfl | h, hk⟩
        · exact absurd ha hk
        · exact ⟨h, hk⟩
    · next ha =>
      rw [List.map_cons, List.mem_cons, ih, List.map_cons, List.mem_cons, List.mem_cons, not_or]
      by_cases hk : k = key a
      · subst hk
        simp [ha]
      · simp [hk]

theorem firsts_nodup (seen : List κ) (as : List α) : ((firsts key seen as).map key).Nodup := by
  induction as generalizing seen with
  | nil => exact List.nodup_nil
  | cons a as ih =>
    rw [firsts]
    split
    · exact ih seen
    · exact List.nodup_cons.mpr ⟨fun h => (mem_firsts_keys.mp h).2 List.mem_cons_self, ih _⟩

theorem firsts_append (seen : List κ) (as bs : List α) :
    firsts key seen (as ++ bs) = firsts key seen as ++ firsts key (as.map key ++ seen) bs := by
  induction as generalizing seen with
  | nil => rfl
  | cons a as ih =>
    rw [List.cons_append, firsts, firsts]
    split
    · next ha =>
      rw [ih]
      refine congrArg _ (firsts_congr fun b _ => ?_)
      simp only [List.map_cons, List.cons_append, List.mem_cons, List.mem_append]
      constructor
      · exact .inr
      · rintro (h | h)
        · exact .inr (h ▸ ha)
        · exact h
    · rw [ih, List.cons_append]
      refine congrArg _ (congrArg _ (firsts_congr fun b _ => ?_))
      simp only [List.map_cons, List.cons_append, List.mem_cons, List.mem_append]
      tauto

/-- No key stands in two blocks. -/
def Apart (key : α → κ) (blocks : List (List α)) : Prop := blocks.Pairwise fun as bs => ∀ a ∈ as, ∀ b ∈ bs, key a ≠ key b

instance (blocks : List (List α)) : Decidable (Apart key blocks) := by unfold Apart; infer_instance

/-- Blocks with keys that are not seen. -/
theorem firsts_flatten_of_apart {blocks : List (List α)} (h : Apart key blocks)
    (hseen : ∀ block ∈ blocks, ∀ a ∈ block, key a ∉ seen) :
    firsts key seen blocks.flatten = blocks.flatMap (firsts key []) := by
  induction blocks generalizing seen with
  | nil => rfl
  | cons block blocks ih =>
    obtain ⟨hfirst, hrest⟩ := List.pairwise_cons.mp h
    obtain ⟨hblock, hblocks⟩ := List.forall_mem_cons.mp hseen
    rw [List.flatten_cons, List.flatMap_cons, firsts_append,
      firsts_congr (show ∀ a ∈ block, key a ∈ seen ↔ key a ∈ [] from fun a ha => by simp [hblock a ha]), ih hrest]
    intro other hother a ha hmem
    rcases List.mem_append.mp hmem with hmem | hmem
    · obtain ⟨b, hb, heq⟩ := List.mem_map.mp hmem
      exact hfirst other hother b hb a ha heq
    · exact hblocks other hother a ha hmem

/-- **Block by block, the firsts are of different keys** exactly if no key
stands in two blocks; then they are the firsts of the whole. -/
theorem firsts_blocks (blocks : List (List α)) :
    (((blocks.flatMap (firsts key [])).map key).Nodup ↔ Apart key blocks) ∧
      (Apart key blocks → blocks.flatMap (firsts key []) = firsts key [] blocks.flatten) := by
  refine ⟨?_, fun h => (firsts_flatten_of_apart h (by simp)).symm⟩
  rw [List.map_flatMap, List.nodup_flatMap]
  constructor
  · intro hnodup
    refine hnodup.2.imp fun {as bs} hdisjoint a ha b hb hab => ?_
    exact hdisjoint (mem_firsts_keys.mpr ⟨List.mem_map_of_mem ha, by simp⟩)
      (hab ▸ mem_firsts_keys.mpr ⟨List.mem_map_of_mem hb, by simp⟩)
  · intro h
    refine ⟨fun block _ => firsts_nodup [] block, h.imp fun {as bs} hapart k has hbs => ?_⟩
    obtain ⟨a, ha, hka⟩ := List.mem_map.mp (mem_firsts_keys.mp has).1
    obtain ⟨b, hb, hkb⟩ := List.mem_map.mp (mem_firsts_keys.mp hbs).1
    exact hapart a ha b hb (hka.trans hkb.symm)

/-- The firsts of the blocks have the keys of the whole. -/
theorem mem_firsts_blocks {blocks : List (List α)} {k : κ} :
    k ∈ (blocks.flatMap (firsts key [])).map key ↔ k ∈ blocks.flatten.map key := by
  simp only [List.map_flatMap, List.map_flatten, List.mem_flatMap, List.mem_flatten, List.mem_map (f := List.map key),
    mem_firsts_keys, List.not_mem_nil, not_false_eq_true, and_true, exists_exists_and_eq_and]

omit [DecidableEq κ] in
/-- Keys that are all different are in one block each. -/
theorem Apart.of_nodup {blocks : List (List α)} (h : (blocks.flatten.map key).Nodup) : Apart key blocks := by
  rw [List.map_flatten, List.nodup_flatten] at h
  refine (List.pairwise_map.mp h.2).imp fun {as bs} hdisjoint a ha b hb hab => ?_
  exact hdisjoint (List.mem_map_of_mem ha) (hab ▸ List.mem_map_of_mem hb)

end Firsts
