/-
Concurrent calls on one shared object, and linearizability: some order of
the calls, consistent with real time, in which a sequential specification
gives the same results.

A call is a machine that takes atomic steps on the shared state (`Machine`);
a run interleaves invocations and steps of any number of calls. The result of
a call may be settled before the call returns. `Simulation` asks for a
relation to the specification's states that every step keeps, where a step
that settles a call's result is a step of the specification and any other is
none. `Simulation.linearizable` then takes the calls in the order their
results were settled.
-/
import Mathlib.Logic.Function.Basic
import Mathlib.Data.List.Induction

namespace Linearize

/-- An object's implementation: where a call starts and what one atomic step
of it does. `Choice` is what the environment supplies at a step: the time, a
fresh name. -/
structure Machine (Op Res Local Shared Choice : Type) where
  start : Op → Local
  step : Choice → Shared → Local → Shared × (Local ⊕ Res)

/-- A sequential specification; a step may choose among results. -/
structure Spec (Op Res : Type) where
  State : Type
  init : State
  Step : State → Op → Res → State → Prop

inductive Phase (L R : Type)
  | idle
  | running (l : L)
  | done (r : R)

inductive Event (ι C : Type)
  | invoke (i : ι)
  | act (i : ι) (c : C)

/-- Whose event it is. -/
def Event.who {ι C : Type} : Event ι C → ι
  | invoke i | act i _ => i

variable {Op Res Local Shared Choice ι : Type}

structure System (Shared Local Res ι : Type) where
  shared : Shared
  phase : ι → Phase Local Res

/-- No call has begun. -/
def System.start (shared : Shared) : System Shared Local Res ι := { shared, phase := fun _ => .idle }

/-- What a call's event does to the shared state and the call. -/
def stepCall (M : Machine Op Res Local Shared Choice) (op : Op) (shared : Shared) (p : Phase Local Res) :
    Event ι Choice → Shared × Phase Local Res
  | .invoke _ =>
    match p with
    | .idle => (shared, .running (M.start op))
    | p => (shared, p)
  | .act _ c =>
    match p with
    | .running l =>
      match M.step c shared l with
      | (shared', .inl l') => (shared', .running l')
      | (shared', .inr r) => (shared', .done r)
    | p => (shared, p)

section System
variable [DecidableEq ι] (M : Machine Op Res Local Shared Choice) (ops : ι → Op)

def System.step (s : System Shared Local Res ι) (e : Event ι Choice) : System Shared Local Res ι :=
  let r := stepCall M (ops e.who) s.shared (s.phase e.who) e
  { shared := r.1, phase := Function.update s.phase e.who r.2 }

def System.run (s : System Shared Local Res ι) (evs : List (Event ι Choice)) : System Shared Local Res ι := evs.foldl (System.step M ops) s

theorem System.run_append (s : System Shared Local Res ι) (es fs : List (Event ι Choice)) :
    s.run M ops (es ++ fs) = (s.run M ops es).run M ops fs := List.foldl_append

theorem System.run_snoc (s : System Shared Local Res ι) (es : List (Event ι Choice)) (e : Event ι Choice) :
    s.run M ops (es ++ [e]) = (s.run M ops es).step M ops e := by
  rw [System.run_append]; rfl

@[simp] theorem System.step_self (s : System Shared Local Res ι) (e : Event ι Choice) :
    (s.step M ops e).phase e.who = (stepCall M (ops e.who) s.shared (s.phase e.who) e).2 := Function.update_self ..

theorem System.step_other (s : System Shared Local Res ι) (e : Event ι Choice) {i : ι} (h : i ≠ e.who) :
    (s.step M ops e).phase i = s.phase i := Function.update_of_ne h ..

end System

/-! ## Sequential runs -/

/-- The specification runs calls in order, with these results. -/
inductive Spec.Run (S : Spec Op Res) (ops : ι → Op) : List (ι × Res) → S.State → Prop
  | nil : S.Run ops [] S.init
  | snoc {order : List (ι × Res)} {a b : S.State} {i : ι} {r : Res} (h : S.Run ops order a) (hs : S.Step a (ops i) r b) :
      S.Run ops (order ++ [(i, r)]) b

/-- `order` is a linearization of the run `evs`, and leads the specification to `a`. -/
structure Linearization [DecidableEq ι] (M : Machine Op Res Local Shared Choice) (S : Spec Op Res) (ops : ι → Op) (s : System Shared Local Res ι)
    (evs : List (Event ι Choice)) (order : List (ι × Res)) (a : S.State) : Prop where
  /-- One at a time, the calls have these results. -/
  sequential : S.Run ops order a
  once : (order.map Prod.fst).Nodup
  /-- Every call that returned is in the order, with the result it returned. -/
  results : ∀ i r, (s.run M ops evs).phase i = .done r → (i, r) ∈ order
  begun : ∀ i r, (i, r) ∈ order → (s.run M ops evs).phase i ≠ .idle
  /-- A call that returned before another began comes first. -/
  realTime : ∀ pre post, evs = pre ++ post → ∀ i r, (s.run M ops pre).phase i = .done r →
    ∀ j q, (s.run M ops pre).phase j = .idle → (j, q) ∈ order → List.Sublist [(i, r), (j, q)] order

/-! ## Simulation -/

/-- The result a call is certain to have, once it is. -/
def settled (committed : Local → Option Res) : Phase Local Res → Option Res
  | .idle => none
  | .running l => committed l
  | .done r => some r

/-- A relation between runs and specification states that every allowed step
keeps. -/
structure Simulation [DecidableEq ι] (M : Machine Op Res Local Shared Choice) (S : Spec Op Res) (ops : ι → Op)
    (Allowed : List (Event ι Choice) → Event ι Choice → Prop) (s₀ : System Shared Local Res ι) where
  committed : Local → Option Res
  Rel : List (Event ι Choice) → System Shared Local Res ι → S.State → Prop
  init : Rel [] s₀ S.init
  idle : ∀ i, s₀.phase i = .idle
  /-- A settled result stays, and is the one returned. -/
  stable : ∀ past s a e r, Rel past s a → Allowed past e → settled committed (s.phase e.who) = some r →
    settled committed ((s.step M ops e).phase e.who) = some r ∧ Rel (past ++ [e]) (s.step M ops e) a
  /-- A step settles its call's result as a step of the specification, or changes nothing there. -/
  advance : ∀ past s a e, Rel past s a → Allowed past e → settled committed (s.phase e.who) = none →
    match settled committed ((s.step M ops e).phase e.who) with
    | none => Rel (past ++ [e]) (s.step M ops e) a
    | some r => ∃ b, S.Step a (ops e.who) r b ∧ Rel (past ++ [e]) (s.step M ops e) b

/-- Every event is allowed after the events before it. -/
def AllAllowed {C : Type} (Allowed : List (Event ι C) → Event ι C → Prop) (evs : List (Event ι C)) : Prop :=
  ∀ pre e post, evs = pre ++ e :: post → Allowed pre e

theorem AllAllowed.left {C : Type} {Allowed : List (Event ι C) → Event ι C → Prop} {es fs : List (Event ι C)}
    (h : AllAllowed Allowed (es ++ fs)) : AllAllowed Allowed es :=
  fun pre e post he => h pre e (post ++ fs) (by rw [he]; simp)

theorem AllAllowed.last {C : Type} {Allowed : List (Event ι C) → Event ι C → Prop} {es : List (Event ι C)} {e : Event ι C}
    (h : AllAllowed Allowed (es ++ [e])) : Allowed es e := h es e [] (by simp)

section Simulation
variable [DecidableEq ι] {M : Machine Op Res Local Shared Choice} {S : Spec Op Res} {ops : ι → Op}
  {Allowed : List (Event ι Choice) → Event ι Choice → Prop} {s₀ : System Shared Local Res ι} (sim : Simulation M S ops Allowed s₀)

/-- One event, noting the result it settles. -/
def Simulation.track (t : System Shared Local Res ι × List (ι × Res)) (e : Event ι Choice) : System Shared Local Res ι × List (ι × Res) :=
  (t.1.step M ops e,
    match settled sim.committed (t.1.phase e.who), settled sim.committed ((t.1.step M ops e).phase e.who) with
    | none, some r => t.2 ++ [(e.who, r)]
    | _, _ => t.2)

/-- The results settled by a run, in the order they were. -/
def Simulation.order (evs : List (Event ι Choice)) : List (ι × Res) := (evs.foldl sim.track (s₀, [])).2

theorem Simulation.track_run (evs : List (Event ι Choice)) : (evs.foldl sim.track (s₀, [])).1 = s₀.run M ops evs := by
  induction evs using List.reverseRecOn with
  | nil => rfl
  | append_singleton evs e ih => rw [List.foldl_append, System.run_snoc, ← ih]; rfl

theorem Simulation.order_nil : sim.order [] = [] := rfl

theorem Simulation.order_snoc (evs : List (Event ι Choice)) (e : Event ι Choice) :
    sim.order (evs ++ [e]) =
      match settled sim.committed ((s₀.run M ops evs).phase e.who),
        settled sim.committed ((s₀.run M ops (evs ++ [e])).phase e.who) with
      | none, some r => sim.order evs ++ [(e.who, r)]
      | _, _ => sim.order evs := by
  rw [Simulation.order, List.foldl_append, List.foldl_cons, List.foldl_nil, Simulation.track, sim.track_run,
    System.run_snoc]
  rfl

/-- The order only grows. -/
theorem Simulation.order_append (es fs : List (Event ι Choice)) : ∃ rest, sim.order (es ++ fs) = sim.order es ++ rest := by
  induction fs using List.reverseRecOn with
  | nil => exact ⟨[], by simp⟩
  | append_singleton fs e ih =>
    obtain ⟨rest, hrest⟩ := ih
    rw [← List.append_assoc, sim.order_snoc]
    split
    · next r _ _ => exact ⟨rest ++ [(e.who, r)], by rw [hrest, List.append_assoc]⟩
    · exact ⟨rest, hrest⟩

/-- What holds after every run. -/
structure Simulation.Holds (evs : List (Event ι Choice)) (a : S.State) : Prop where
  rel : sim.Rel evs (s₀.run M ops evs) a
  sequential : S.Run ops (sim.order evs) a
  settled : ∀ i r, (i, r) ∈ sim.order evs ↔ Linearize.settled sim.committed ((s₀.run M ops evs).phase i) = some r
  once : ((sim.order evs).map Prod.fst).Nodup

theorem Simulation.Holds.start : sim.Holds [] S.init where
  rel := sim.init
  sequential := .nil
  settled i r := by
    have : (s₀.run M ops []).phase i = .idle := sim.idle i
    simp [Simulation.order_nil, this, Linearize.settled]
  once := by simp [Simulation.order_nil]

variable {sim} in
theorem Simulation.Holds.next {evs : List (Event ι Choice)} {e : Event ι Choice} {a : S.State} (h : sim.Holds evs a)
    (he : Allowed evs e) : ∃ b, sim.Holds (evs ++ [e]) b := by
  have hother : ∀ i, i ≠ e.who → (s₀.run M ops (evs ++ [e])).phase i = (s₀.run M ops evs).phase i := by
    intro i hi
    rw [System.run_snoc, System.step_other _ _ _ _ hi]
  cases hs : Linearize.settled sim.committed ((s₀.run M ops evs).phase e.who) with
  | some r =>
    -- The call's result was settled already.
    obtain ⟨hs', hrel⟩ := sim.stable _ _ _ e r h.rel he hs
    rw [← System.run_snoc] at hs' hrel
    have horder : sim.order (evs ++ [e]) = sim.order evs := by rw [sim.order_snoc, hs]
    refine ⟨a, hrel, by rw [horder]; exact h.sequential, fun i q => ?_, by rw [horder]; exact h.once⟩
    rw [horder, h.settled]
    by_cases hi : i = e.who
    · rw [hi, hs, hs']
    · rw [hother i hi]
  | none =>
    have hadv := sim.advance _ _ _ e h.rel he hs
    rw [← System.run_snoc] at hadv
    cases hs' : Linearize.settled sim.committed ((s₀.run M ops (evs ++ [e])).phase e.who) with
    | none =>
      rw [hs'] at hadv
      have horder : sim.order (evs ++ [e]) = sim.order evs := by rw [sim.order_snoc, hs, hs']
      refine ⟨a, hadv, by rw [horder]; exact h.sequential, fun i q => ?_, by rw [horder]; exact h.once⟩
      rw [horder, h.settled]
      by_cases hi : i = e.who
      · rw [hi, hs, hs']
      · rw [hother i hi]
    | some r =>
      -- The step settles it: it is the specification's next call.
      rw [hs'] at hadv
      obtain ⟨b, hstep, hrel⟩ := hadv
      have horder : sim.order (evs ++ [e]) = sim.order evs ++ [(e.who, r)] := by rw [sim.order_snoc, hs, hs']
      have hnew : ∀ q, (e.who, q) ∉ sim.order evs := by
        intro q hq
        rw [h.settled, hs] at hq
        cases hq
      refine ⟨b, hrel, by rw [horder]; exact h.sequential.snoc hstep, fun i q => ?_, ?_⟩
      · rw [horder, List.mem_append, List.mem_singleton, Prod.mk.injEq]
        by_cases hi : i = e.who
        · subst hi
          rw [hs']
          constructor
          · rintro (hq | ⟨-, rfl⟩)
            · exact absurd hq (hnew q)
            · rfl
          · intro hq; exact .inr ⟨rfl, (Option.some.inj hq).symm⟩
        · rw [hother i hi, h.settled]
          simp [hi]
      · rw [horder, List.map_append, List.nodup_append]
        refine ⟨h.once, by simp, ?_⟩
        intro i hi j hj
        simp only [List.map_cons, List.map_nil, List.mem_singleton] at hj
        subst hj
        rintro rfl
        obtain ⟨⟨k, q⟩, hq, rfl⟩ := List.mem_map.mp hi
        exact hnew q hq

theorem Simulation.holds (evs : List (Event ι Choice)) (hall : AllAllowed Allowed evs) : ∃ a, sim.Holds evs a := by
  induction evs using List.reverseRecOn with
  | nil => exact ⟨_, Simulation.Holds.start sim⟩
  | append_singleton evs e ih =>
    obtain ⟨a, h⟩ := ih hall.left
    exact h.next hall.last

/-- **Linearizability from a simulation.** -/
theorem Simulation.linearizable {evs : List (Event ι Choice)} (hall : AllAllowed Allowed evs) :
    ∃ a, Linearization M S ops s₀ evs (sim.order evs) a ∧ sim.Rel evs (s₀.run M ops evs) a := by
  obtain ⟨a, h⟩ := sim.holds evs hall
  refine ⟨a, ⟨h.sequential, h.once, ?_, ?_, ?_⟩, h.rel⟩
  · intro i r hr
    rw [h.settled, hr]; rfl
  · intro i r hr hidle
    rw [h.settled, hidle] at hr
    cases hr
  · rintro pre post rfl i r hi j q hj hq
    obtain ⟨b, hb⟩ := sim.holds pre hall.left
    obtain ⟨rest, hrest⟩ := sim.order_append pre post
    have hin : (i, r) ∈ sim.order pre := by rw [hb.settled, hi]; rfl
    have hout : (j, q) ∉ sim.order pre := by
      intro hmem
      rw [hb.settled, hj] at hmem
      cases hmem
    have hlate : (j, q) ∈ rest := by
      rw [hrest, List.mem_append] at hq
      exact hq.resolve_left hout
    rw [hrest]
    exact (List.singleton_sublist.mpr hin).append (List.singleton_sublist.mpr hlate)

end Simulation

end Linearize
