/-
Programs whose cache is a server behind a connection that fails.

An operation is a command that is sent again when the connection fails, a
number of times, with the steps of other programs between one attempt and the
next. A failed attempt may have reached the server: then a write has been
made of which no reply arrived, and is made again later. When no attempt
succeeds, a read finds nothing and a write is given up; neither raises.

Soundness survives all of it (`run_remote`), with the service failing as well.
-/
import Plexio.Lib.Outage

namespace CacheProg

variable {σ : Sig} {α β : Type}

/-- What becomes of one attempt at a command. -/
inductive Attempt
  | answered
  /-- The server executes it; the connection fails before the reply. -/
  | lost
  /-- The connection fails before the server has it. -/
  | refused

/-- One step: whose, when, the service's answers, what becomes of the attempt,
and what the server has dropped of its own accord. -/
structure Try (σ : Sig) (ι : Type) where
  who : ι
  now : ℚ
  serve : ∀ q, σ.Answer q
  attempt : Attempt
  drops : σ.Key → Bool

/-- A program, and how often its command may still be sent again. -/
structure Client (σ : Sig) (α : Type) where
  prog : Prog σ α
  left : Nat

/-- The server and its clients. -/
structure Remote (σ : Sig) (ι α : Type) where
  cache : Cache σ
  clients : ι → Client σ α

/-- What the server keeps. -/
def Cache.without (c : Cache σ) (drops : σ.Key → Bool) : Cache σ := fun k => if drops k then none else c k

section Step
variable {ι : Type} [DecidableEq σ.Key] (again : Nat) (blank : σ.Val → Bool)

/-- A client whose command failed: the command again, or what follows when it is given up. -/
def Client.retry (p : Prog σ α) (left : Nat) (gaveUp : Prog σ α) : Client σ α :=
  match left with
  | left + 1 => ⟨p, left⟩
  | 0 => ⟨gaveUp, again⟩

/-- One attempt at a program's command, with `again` more for each command. A
blank value that is read counts as none; a write for no time sends nothing. -/
def attemptProg (ev : Try σ ι) (c : Cache σ) : Client σ α → Cache σ × Client σ α
  | ⟨.get k next, left⟩ =>
    match ev.attempt with
    | .answered => (c.afterRead ev.now k, ⟨next (.ok ((c.read ev.now k).filter fun v => !blank v)), again⟩)
    | .lost => (c.afterRead ev.now k, Client.retry again (.get k next) left (next (.ok none)))
    | .refused => (c, Client.retry again (.get k next) left (next (.ok none)))
  | ⟨.set k v ttl next, left⟩ =>
    if ttl = 0 then (c, ⟨next (.ok ()), again⟩)
    else
      match ev.attempt with
      | .answered => (c.write ev.now k v ttl, ⟨next (.ok ()), again⟩)
      | .lost => (c.write ev.now k v ttl, Client.retry again (.set k v ttl next) left (next (.ok ())))
      | .refused => (c, Client.retry again (.set k v ttl next) left (next (.ok ())))
  | ⟨.ask q next, _⟩ => (c, ⟨next (ev.serve q), again⟩)
  | client => (c, client)

variable [DecidableEq ι]

def Remote.step (s : Remote σ ι α) (ev : Try σ ι) : Remote σ ι α :=
  let r := attemptProg again blank ev (s.cache.without ev.drops) (s.clients ev.who)
  { cache := r.1, clients := Function.update s.clients ev.who r.2 }

def Remote.run (s : Remote σ ι α) (evs : List (Try σ ι)) : Remote σ ι α := evs.foldl (Remote.step again blank) s

/-- Before anything ran. -/
def Remote.start (progs : ι → Prog σ α) : Remote σ ι α := { cache := Cache.empty, clients := fun i => ⟨progs i, again⟩ }

end Step

section Sound
variable {ι : Type} {F : Failures σ} {I : σ.Key → σ.Val → Prop} {serve : ∀ q, σ.Answer q}

/-- At each question the service answers as `serve`, or fails. -/
def Try.Unreliable (ev : Try σ ι) (F : Failures σ) (serve : ∀ q, σ.Answer q) : Prop :=
  ∀ q, ev.serve q = serve q ∨ ∃ e, F q (ev.serve q) e

def Try.FailsWith (ev : Try σ ι) (F : Failures σ) (e : σ.Err) : Prop := ∃ q, F q (ev.serve q) e

theorem Cache.Holds.without {c : Cache σ} (h : c.Holds I) (drops : σ.Key → Bool) : (c.without drops).Holds I := by
  intro k v t hk
  unfold Cache.without at hk
  split at hk
  · cases hk
  · exact h k v t hk

/-- A command that failed is as good as not sent: the program is where it was,
or goes on as after a miss. -/
theorem retry_soundUnless {again left : Nat} {p gaveUp : Prog σ α} {r : Except σ.Err α} {met : σ.Err → Prop}
    (hp : p.SoundUnless I False serve F met r) (hgave : gaveUp.SoundUnless I False serve F met r) :
    (Client.retry again p left gaveUp).prog.SoundUnless I False serve F met r := by
  cases left with
  | zero => exact hgave
  | succ left => exact hp

variable [DecidableEq σ.Key] (again : Nat) (blank : σ.Val → Bool)

theorem attemptProg_sound {ev : Try σ ι} {c : Cache σ} {client : Client σ α} {r : Except σ.Err α} {met : σ.Err → Prop}
    (hev : ev.Unreliable F serve) (hc : c.Holds I) (hp : client.prog.SoundUnless I False serve F met r) :
    (attemptProg again blank ev c client).1.Holds I ∧ (attemptProg again blank ev c client).2.prog.SoundUnless I False serve F
      (fun e => met e ∨ ev.FailsWith F e) r := by
  have hweak : ∀ {p : Prog σ α}, p.SoundUnless I False serve F met r →
      p.SoundUnless I False serve F (fun e => met e ∨ ev.FailsWith F e) r := fun h => h.mono fun _ => .inl
  obtain ⟨p, left⟩ := client
  rcases hp with ⟨hs, hprompt⟩ | ⟨e, he, hthrow⟩
  · cases p with
    | ret | throw => exact ⟨hc, hweak (.inl ⟨hs, hprompt⟩)⟩
    | get k next =>
      have hmiss : (next (.ok none)).SoundUnless I False serve F met r := .inl ⟨hs.1 _ (by simp), hprompt _⟩
      have hsame : (Prog.get k next).SoundUnless I False serve F met r := .inl ⟨hs, hprompt⟩
      simp only [attemptProg]
      cases ev.attempt with
      | answered =>
        refine ⟨hc.afterRead _ _, hweak (.inl ⟨hs.1 _ fun v hv => ?_, hprompt _⟩)⟩
        exact hc.read (Option.filter_eq_some_iff.mp hv).1
      | lost => exact ⟨hc.afterRead _ _, hweak (retry_soundUnless hsame hmiss)⟩
      | refused => exact ⟨hc, hweak (retry_soundUnless hsame hmiss)⟩
    | set k v ttl next =>
      have hnext : (next (.ok ())).SoundUnless I False serve F met r := .inl ⟨hs.2.1, hprompt _⟩
      have hsame : (Prog.set k v ttl next).SoundUnless I False serve F met r := .inl ⟨hs, hprompt⟩
      simp only [attemptProg]
      split
      · exact ⟨hc, hweak hnext⟩
      · cases ev.attempt with
        | answered => exact ⟨hc.write _ _ hs.1, hweak hnext⟩
        | lost => exact ⟨hc.write _ _ hs.1, hweak (retry_soundUnless hsame hnext)⟩
        | refused => exact ⟨hc, hweak (retry_soundUnless hsame hnext)⟩
    | ask q next =>
      refine ⟨hc, ?_⟩
      rcases hev q with heq | ⟨e, he⟩
      · simp only [attemptProg, heq]
        exact hweak (.inl ⟨hs, hprompt.2 _⟩)
      · exact .inr ⟨e, .inr ⟨q, he⟩, hprompt.1 _ _ he⟩
  · dsimp only at hthrow
    subst hthrow
    exact ⟨hc, .inr ⟨e, .inl he, rfl⟩⟩

variable [DecidableEq ι]

/-- **A cache behind a failing connection.** Prompt programs that are each
sound keep the server's entries valid, and each is on its way to its one
result or was ended by a failure of the service in a step of its own. -/
theorem run_remote {evs : List (Try σ ι)} (hev : ∀ ev ∈ evs, ev.Unreliable F serve) {s : Remote σ ι α}
    {r : ι → Except σ.Err α} {met : ι → σ.Err → Prop} (hc : s.cache.Holds I)
    (hp : ∀ i, (s.clients i).prog.SoundUnless I False serve F (met i) (r i)) :
    (s.run again blank evs).cache.Holds I ∧ ∀ i, ((s.run again blank evs).clients i).prog.SoundUnless I False serve F
      (fun e => met i e ∨ ∃ ev ∈ evs, ev.who = i ∧ ev.FailsWith F e) (r i) := by
  induction evs generalizing s met with
  | nil => exact ⟨hc, fun i => (hp i).mono fun e he => .inl he⟩
  | cons ev evs ih =>
    obtain ⟨hev, hevs⟩ := List.forall_mem_cons.mp hev
    obtain ⟨hc', hp'⟩ := attemptProg_sound again blank hev (hc.without ev.drops) (hp ev.who)
    have hstep : ∀ i, ((s.step again blank ev).clients i).prog.SoundUnless I False serve F
        (fun e => met i e ∨ (ev.who = i ∧ ev.FailsWith F e)) (r i) := by
      intro i
      simp only [Remote.step]
      by_cases hi : i = ev.who
      · subst hi
        rw [Function.update_self]
        exact hp'.mono fun e he => he.imp_right fun h => ⟨rfl, h⟩
      · rw [Function.update_of_ne hi]
        exact (hp i).mono fun e he => .inl he
    obtain ⟨hcache, hclients⟩ := ih hevs (s := s.step again blank ev) hc' hstep
    refine ⟨hcache, fun i => (hclients i).mono fun e he => ?_⟩
    rcases he with (he | ⟨hwho, he⟩) | ⟨ev', hmem, hwho, he⟩
    · exact .inl he
    · exact .inr ⟨ev, List.mem_cons_self, hwho, he⟩
    · exact .inr ⟨ev', List.mem_cons_of_mem _ hmem, hwho, he⟩

end Sound

end CacheProg
