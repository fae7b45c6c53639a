/-
What an expiring cache answers, by its history: the last value written for
the key, until its time is over (`read_history`). A read drops an entry only
when it has expired, so it never changes a later answer, as long as the clock
does not go back.
-/
import Mathlib.Data.List.Induction
import Plexio.Lib.Prog

namespace CacheProg

variable {σ : Sig}

/-- A call of a cache, and when it was made. -/
inductive CacheCall (σ : Sig)
  | get (k : σ.Key)
  | set (k : σ.Key) (v : σ.Val) (ttl : Nat)

namespace Cache
variable [DecidableEq σ.Key]

/-- The cache after a call. -/
def after (c : Cache σ) (now : ℚ) : CacheCall σ → Cache σ
  | .get k => c.afterRead now k
  | .set k v ttl => c.write now k v ttl

/-- The cache after calls in a row. -/
def afterAll (c : Cache σ) (calls : List (ℚ × CacheCall σ)) : Cache σ := calls.foldl (fun c x => c.after x.1 x.2) c

theorem afterAll_append (c : Cache σ) (calls more : List (ℚ × CacheCall σ)) :
    c.afterAll (calls ++ more) = (c.afterAll calls).afterAll more := List.foldl_append

/-- The entry a call makes for the key. -/
def entryMade (k : σ.Key) : ℚ × CacheCall σ → Option (σ.Val × ℚ)
  | (_, .get _) => none
  | (now, .set k' v ttl) => if k' = k ∧ ttl ≠ 0 then some (v, now + ttl) else none

/-- The last entry made for the key. -/
def lastEntry (calls : List (ℚ × CacheCall σ)) (k : σ.Key) : Option (σ.Val × ℚ) := calls.reverse.findSome? (entryMade k)

theorem lastEntry_snoc (calls : List (ℚ × CacheCall σ)) (x : ℚ × CacheCall σ) (k : σ.Key) :
    lastEntry (calls ++ [x]) k = (entryMade k x).or (lastEntry calls k) := by
  unfold lastEntry
  rw [List.reverse_append, List.reverse_singleton, List.singleton_append, List.findSome?_cons]
  cases entryMade k x <;> rfl

/-- An entry that has not expired at `now`. -/
def live (now : ℚ) (entry : Option (σ.Val × ℚ)) : Option σ.Val :=
  match entry with
  | none => none
  | some (v, expires) => if expires ≤ now then none else some v

omit [DecidableEq σ.Key] in
/-- What is expired stays so. -/
theorem live_of_le {now later : ℚ} (hle : now ≤ later) {v : σ.Val} {expires : ℚ} (h : expires ≤ now) :
    live later (some (v, expires)) = none := if_pos (h.trans hle)

/-- From `since` on, a cache answers for what the calls wrote. -/
def Recalls (c : Cache σ) (calls : List (ℚ × CacheCall σ)) (since : ℚ) : Prop :=
  ∀ k now, since ≤ now → c.read now k = live now (lastEntry calls k)

theorem Recalls.empty (since : ℚ) : (Cache.empty : Cache σ).Recalls [] since := fun _ _ _ => rfl

theorem Recalls.later {c : Cache σ} {calls : List (ℚ × CacheCall σ)} {since later : ℚ} (h : c.Recalls calls since)
    (hle : since ≤ later) : c.Recalls calls later := fun k now hnow => h k now (hle.trans hnow)

theorem read_put (c : Cache σ) (k j : σ.Key) (entry : Option (σ.Val × ℚ)) (now : ℚ) :
    (c.put k entry).read now j = if j = k then live now entry else c.read now j := by
  unfold Cache.read
  by_cases hj : j = k
  · subst hj
    rw [put_self, if_pos rfl]
    rfl
  · rw [put_of_ne c hj, if_neg hj]

/-- A read drops what no read finds any more. -/
theorem read_afterRead {c : Cache σ} {now later : ℚ} (hle : now ≤ later) (k j : σ.Key) :
    (c.afterRead now k).read later j = c.read later j := by
  unfold Cache.afterRead
  split
  · rfl
  · next v expires hk =>
    split
    · next hexpired =>
      rw [read_put]
      split
      · next hj =>
        subst hj
        unfold Cache.read
        rw [hk]
        exact (live_of_le hle hexpired).symm
      · rfl
    · rfl

theorem Recalls.after {c : Cache σ} {calls : List (ℚ × CacheCall σ)} {since now : ℚ} (h : c.Recalls calls since)
    (hle : since ≤ now) (call : CacheCall σ) : (c.after now call).Recalls (calls ++ [(now, call)]) now := by
  intro j later hlater
  rw [lastEntry_snoc]
  cases call with
  | get k => exact (read_afterRead hlater k j).trans (h j later (hle.trans hlater))
  | set k v ttl =>
    simp only [Cache.after, Cache.write, entryMade]
    by_cases httl : ttl = 0
    · simp only [httl, if_true, ne_eq, not_true_eq_false, and_false, if_false, Option.none_or]
      exact h j later (hle.trans hlater)
    · simp only [httl, if_false, ne_eq, not_false_eq_true, and_true]
      rw [read_put]
      by_cases hj : j = k
      · rw [if_pos hj, if_pos hj.symm]
        rfl
      · rw [if_neg hj, if_neg (Ne.symm hj)]
        exact h j later (hle.trans hlater)

theorem Recalls.afterAll {calls : List (ℚ × CacheCall σ)} (hsorted : calls.Pairwise fun x y => x.1 ≤ y.1) {now : ℚ}
    (hpast : ∀ x ∈ calls, x.1 ≤ now) : ((Cache.empty : Cache σ).afterAll calls).Recalls calls now := by
  induction calls using List.reverseRecOn generalizing now with
  | nil => exact Recalls.empty now
  | append_singleton calls x ih =>
    rw [List.pairwise_append] at hsorted
    have hprev : ∀ y ∈ calls, y.1 ≤ x.1 := fun y hy => hsorted.2.2 y hy x List.mem_cons_self
    rw [afterAll_append]
    exact ((ih hsorted.1 hprev).after le_rfl x.2).later (hpast x (List.mem_append_right _ List.mem_cons_self))

/-- **A read finds the last write**, and finds it until it expires. -/
theorem read_history {calls : List (ℚ × CacheCall σ)} (hsorted : calls.Pairwise fun x y => x.1 ≤ y.1) {now : ℚ}
    (hpast : ∀ x ∈ calls, x.1 ≤ now) (k : σ.Key) :
    ((Cache.empty : Cache σ).afterAll calls).read now k = live now (lastEntry calls k) :=
  Recalls.afterAll hsorted hpast k now le_rfl

end Cache

end CacheProg
