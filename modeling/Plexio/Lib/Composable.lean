/-
Properties of programs that sequencing keeps. A family of programs built from
a few others by sequencing has such a property when the few have it, so one
walk over the family serves every property (`Composable`).

One of them is what a program asks (`AsksOnly`): the questions it puts,
whatever is answered and whatever the cache does. `run_asks` carries it to
every question of a run.
-/
import Plexio.Lib.Outage

namespace CacheProg

variable {σ : Sig} {α β : Type}

namespace Prog

structure Composable (C : ∀ {α : Type}, Prog σ α → Prop) : Prop where
  lift : ∀ {α : Type} (x : Except σ.Err α), C (Prog.lift x)
  bind : ∀ {α β : Type} {p : Prog σ α} {f : α → Prog σ β}, C p → (∀ a, C (f a)) → C (p >>= f)

section Composable
variable {C : ∀ {α : Type}, Prog σ α → Prop}

theorem Composable.ret (h : Composable C) (a : α) : C (Prog.ret a) := h.lift (.ok a)

theorem Composable.throw (h : Composable C) (e : σ.Err) : C (Prog.throw e : Prog σ α) := h.lift (.error e)

/-- What follows a computation without effects. -/
theorem Composable.liftBind (h : Composable C) {x : Except σ.Err α} {f : α → Prog σ β} (hf : ∀ a, x = .ok a → C (f a)) :
    C (Prog.lift x >>= f) := by
  cases x with
  | ok a => exact hf a rfl
  | error e => exact h.throw e

theorem Composable.map (h : Composable C) {p : Prog σ α} (f : α → β) (hp : C p) : C (f <$> p) := by
  rw [map_eq_pure_bind]
  exact h.bind hp fun a => h.ret _

theorem Composable.mapM (h : Composable C) {f : α → Prog σ β} {as : List α} (hf : ∀ a ∈ as, C (f a)) : C (as.mapM f) := by
  induction as with
  | nil => exact h.ret []
  | cons a as ih =>
    rw [List.mapM_cons]
    exact h.bind (hf a (by simp)) fun _ => h.bind (ih fun b hb => hf b (by simp [hb])) fun _ => h.ret _

end Composable

theorem prompt_composable (F : Failures σ) : Composable (σ := σ) (Prompt F) where
  lift := Prompt.lift
  bind := Prompt.bind

/-! ## What a program asks -/

/-- Every question the program may put meets `Q`. -/
def AsksOnly (Q : σ.Ask → Prop) : Prog σ α → Prop
  | ret _ | throw _ => True
  | get _ next => ∀ o, (next o).AsksOnly Q
  | set _ _ _ next => ∀ o, (next o).AsksOnly Q
  | ask q next => Q q ∧ ∀ a, (next a).AsksOnly Q

/-- The question the program is about to put. -/
def asking : Prog σ α → Option σ.Ask
  | ask q _ => some q
  | _ => none

section AsksOnly
variable {Q : σ.Ask → Prop}

theorem AsksOnly.asking {p : Prog σ α} (h : p.AsksOnly Q) {q : σ.Ask} (hq : p.asking = some q) : Q q := by
  cases p with
  | ask q' next =>
    cases hq
    exact h.1
  | ret | throw | get | set => cases hq

theorem AsksOnly.lift (x : Except σ.Err α) : (Prog.lift x : Prog σ α).AsksOnly Q := by
  cases x <;> trivial

theorem AsksOnly.bind {p : Prog σ α} {f : α → Prog σ β} (hp : p.AsksOnly Q) (hf : ∀ a, (f a).AsksOnly Q) :
    (p >>= f).AsksOnly Q := by
  induction p with
  | ret a => exact hf a
  | throw e => trivial
  | get k next ih => exact fun o => ih o (hp o)
  | set k v ttl next ih => exact fun o => ih o (hp o)
  | ask q next ih => exact ⟨hp.1, fun a => ih a (hp.2 a)⟩

theorem asksOnly_composable (Q : σ.Ask → Prop) : Composable (σ := σ) (AsksOnly Q) where
  lift := AsksOnly.lift
  bind := AsksOnly.bind

end AsksOnly

end Prog

/-! ## Runs -/

section Runs
variable {ι : Type} [DecidableEq σ.Key] {Q : ι → σ.Ask → Prop}

theorem stepProg_asksOnly (ev : Event σ ι) (c : Cache σ) {P : σ.Ask → Prop} {p : Prog σ α} (h : p.AsksOnly P) :
    (stepProg ev c p).2.AsksOnly P := by
  cases p with
  | ret | throw => exact h
  | get k next =>
    simp only [stepProg]
    split <;> exact h _
  | set k v ttl next =>
    simp only [stepProg]
    split <;> exact h _
  | ask q next => exact h.2 _

variable [DecidableEq ι]

theorem run_asksOnly {s : System σ ι α} (h : ∀ i, (s.progs i).AsksOnly (Q i)) (evs : List (Event σ ι)) :
    ∀ i, ((s.run evs).progs i).AsksOnly (Q i) := by
  induction evs generalizing s with
  | nil => exact h
  | cons ev evs ih =>
    refine ih (s := s.step ev) fun i => ?_
    simp only [System.step]
    by_cases hi : i = ev.who
    · subst hi
      rw [Function.update_self]
      exact stepProg_asksOnly ev s.cache (h _)
    · rw [Function.update_of_ne hi]
      exact h i

/-- **Every question of a run is one of its program's.** -/
theorem run_asks {s : System σ ι α} (h : ∀ i, (s.progs i).AsksOnly (Q i)) (past : List (Event σ ι)) {i : ι} {q : σ.Ask}
    (hq : ((s.run past).progs i).asking = some q) : Q i q := (run_asksOnly h past i).asking hq

end Runs

end CacheProg
