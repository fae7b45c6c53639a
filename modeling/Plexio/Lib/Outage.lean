/-
Programs on a shared cache whose service fails now and then.

A failure may come at any question of any program, and may have passed by the
next one. A program is `Prompt` when a failure of the service ends it there
and then, with the service's error. Prompt programs that are sound while the
service works leave only valid entries behind, whatever failures they meet
(`run_outages`): one that ends has its one result, or ends with the error of
a failure it met itself.
-/
import Plexio.Lib.Prog

namespace CacheProg

variable {σ : Sig} {α β : Type}

/-- Which answers of the service are failures, and with what error. -/
abbrev Failures (σ : Sig) : Type := ∀ q, σ.Answer q → σ.Err → Prop

namespace Prog

/-- A failure of the service is the program's. -/
def Prompt (F : Failures σ) : Prog σ α → Prop
  | ret _ | throw _ => True
  | get _ next => ∀ o, (next o).Prompt F
  | set _ _ _ next => ∀ o, (next o).Prompt F
  | ask q next => (∀ a e, F q a e → next a = throw e) ∧ ∀ a, (next a).Prompt F

section Prompt
variable {F : Failures σ}

theorem Prompt.lift (x : Except σ.Err α) : (Prog.lift x : Prog σ α).Prompt F := by
  cases x <;> trivial

theorem Prompt.bind {p : Prog σ α} {f : α → Prog σ β} (hp : p.Prompt F) (hf : ∀ a, (f a).Prompt F) :
    (p >>= f).Prompt F := by
  induction p with
  | ret a => exact hf a
  | throw e => trivial
  | get k next ih => exact fun o => ih o (hp o)
  | set k v ttl next ih => exact fun o => ih o (hp o)
  | ask q next ih =>
    exact ⟨fun a e hfail => congrArg (·.bind f) (hp.1 a e hfail), fun a => ih a (hp.2 a)⟩

end Prompt

end Prog

section Runs
variable {ι : Type} {F : Failures σ} {I : σ.Key → σ.Val → Prop} {fails : Prop} {serve : ∀ q, σ.Answer q}

/-- At each question the event's service answers as `serve`, or fails; the
cache raises only where the programs are proof against it. -/
def Event.Unreliable (ev : Event σ ι) (F : Failures σ) (fails : Prop) (serve : ∀ q, σ.Answer q) : Prop :=
  (∀ q, ev.serve q = serve q ∨ ∃ e, F q (ev.serve q) e) ∧ ((∃ e, ev.fault = .raises e) → fails)

/-- The event's service fails with `e` at some question. -/
def Event.FailsWith (ev : Event σ ι) (F : Failures σ) (e : σ.Err) : Prop := ∃ q, F q (ev.serve q) e

/-- On its way to `r`, or ended by one of the errors `met`. -/
def Prog.SoundUnless (I : σ.Key → σ.Val → Prop) (fails : Prop) (serve : ∀ q, σ.Answer q) (F : Failures σ)
    (met : σ.Err → Prop) (p : Prog σ α) (r : Except σ.Err α) : Prop :=
  (p.Sound I fails serve r ∧ p.Prompt F) ∨ ∃ e, met e ∧ p = .throw e

theorem Prog.SoundUnless.mono {met met' : σ.Err → Prop} (h : ∀ e, met e → met' e) {p : Prog σ α} {r : Except σ.Err α}
    (hp : p.SoundUnless I fails serve F met r) : p.SoundUnless I fails serve F met' r := by
  rcases hp with hp | ⟨e, he, rfl⟩
  · exact .inl hp
  · exact .inr ⟨e, h e he, rfl⟩

/-- A program that has ended, by its outcome. -/
theorem Prog.SoundUnless.outcome {met : σ.Err → Prop} {p : Prog σ α} {r x : Except σ.Err α}
    (hp : p.SoundUnless I fails serve F met r) (ho : p.outcome = some x) : x = r ∨ ∃ e, met e ∧ x = .error e := by
  rcases hp with ⟨hp, -⟩ | ⟨e, he, rfl⟩
  · exact .inl (hp.outcome ho)
  · exact .inr ⟨e, he, (Option.some.inj ho).symm⟩

variable [DecidableEq σ.Key]

/-- One operation of a program, in an event the service may fail in. -/
theorem stepProg_outage {ev : Event σ ι} {c : Cache σ} {p : Prog σ α} {r : Except σ.Err α} {met : σ.Err → Prop}
    (hev : ev.Unreliable F fails serve) (hc : c.Holds I) (hp : p.SoundUnless I fails serve F met r) :
    (stepProg ev c p).1.Holds I ∧
      (stepProg ev c p).2.SoundUnless I fails serve F (fun e => met e ∨ ev.FailsWith F e) r := by
  rcases hp with ⟨hs, hprompt⟩ | ⟨e, he, rfl⟩
  · cases p with
    | ret | throw => exact ⟨hc, .inl ⟨hs, hprompt⟩⟩
    | get k next =>
      simp only [stepProg]
      split
      · exact ⟨hc.afterRead _ _, .inl ⟨hs.1 _ fun v hv => hc.read hv, hprompt _⟩⟩
      · exact ⟨hc, .inl ⟨hs.1 _ (by simp), hprompt _⟩⟩
      · next e he => exact ⟨hc, .inl ⟨hs.2 (hev.2 ⟨e, he⟩) e, hprompt _⟩⟩
    | set k v ttl next =>
      simp only [stepProg]
      split
      · exact ⟨hc.write _ _ hs.1, .inl ⟨hs.2.1, hprompt _⟩⟩
      · exact ⟨hc, .inl ⟨hs.2.1, hprompt _⟩⟩
      · next e he => exact ⟨hc, .inl ⟨hs.2.2 (hev.2 ⟨e, he⟩) e, hprompt _⟩⟩
    | ask q next =>
      refine ⟨hc, ?_⟩
      rcases hev.1 q with heq | ⟨e, he⟩
      · simp only [stepProg, heq]
        exact .inl ⟨hs, hprompt.2 _⟩
      · exact .inr ⟨e, .inr ⟨q, he⟩, hprompt.1 _ _ he⟩
  · exact ⟨hc, .inr ⟨e, .inl he, rfl⟩⟩

variable [DecidableEq ι]

/-- **Outages.** Prompt programs that are each sound while the service works,
in any interleaving, with the service failing at any of their questions: the
cache holds valid entries only, and each program is on its way to its one
result, or was ended by a failure in a step of its own. -/
theorem run_outages {evs : List (Event σ ι)} (hev : ∀ ev ∈ evs, ev.Unreliable F fails serve) {s : System σ ι α}
    {r : ι → Except σ.Err α} {met : ι → σ.Err → Prop} (hc : s.cache.Holds I)
    (hp : ∀ i, (s.progs i).SoundUnless I fails serve F (met i) (r i)) :
    (s.run evs).cache.Holds I ∧ ∀ i, ((s.run evs).progs i).SoundUnless I fails serve F
      (fun e => met i e ∨ ∃ ev ∈ evs, ev.who = i ∧ ev.FailsWith F e) (r i) := by
  induction evs generalizing s met with
  | nil => exact ⟨hc, fun i => (hp i).mono fun e he => .inl he⟩
  | cons ev evs ih =>
    obtain ⟨hev, hevs⟩ := List.forall_mem_cons.mp hev
    obtain ⟨hc', hp'⟩ := stepProg_outage hev hc (hp ev.who)
    have hstep : ∀ i, ((s.step ev).progs i).SoundUnless I fails serve F
        (fun e => met i e ∨ (ev.who = i ∧ ev.FailsWith F e)) (r i) := by
      intro i
      simp only [System.step]
      by_cases hi : i = ev.who
      · subst hi
        rw [Function.update_self]
        exact hp'.mono fun e he => he.imp_right fun h => ⟨rfl, h⟩
      · rw [Function.update_of_ne hi]
        exact (hp i).mono fun e he => .inl he
    obtain ⟨hcache, hprogs⟩ := ih hevs (s := s.step ev) hc' hstep
    refine ⟨hcache, fun i => (hprogs i).mono fun e he => ?_⟩
    rcases he with (he | ⟨hwho, he⟩) | ⟨ev', hmem, hwho, he⟩
    · exact .inl he
    · exact .inr ⟨ev, List.mem_cons_self, hwho, he⟩
    · exact .inr ⟨ev', List.mem_cons_of_mem _ hmem, hwho, he⟩

end Runs

end CacheProg
