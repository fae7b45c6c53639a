/-
Programs that read and write a shared, expiring cache and ask a remote
service: the tree of a program's operations (`Prog`), its runs alone and
among others, and two rules about such runs.

Any number of programs share one cache; a step of the system is one
operation of one of them, at some time, with the service answering as it
does at that moment and the cache working, losing the operation or raising.

* Transparency (`run_sound`). When a program gives one result `r` whatever a
  cache holding only valid entries answers, and stores valid entries only
  (`Sound`), every interleaving with programs of that kind gives it `r`.
* Isolation (`run_isolated`). When the programs of one group touch no key of
  another's, removing the other group's steps changes nothing for the first.
-/
import Mathlib.Algebra.Order.Ring.Rat
import Mathlib.Data.Rat.Defs

namespace CacheProg

/-- What programs work on: cache keys and values, the service's requests with
the type of each one's answer, and the exceptions raised. -/
structure Sig where
  Key : Type
  Val : Type
  Ask : Type
  Answer : Ask → Type
  Err : Type

/-- A program: its next operation, and what it does with the outcome. -/
inductive Prog (σ : Sig) (α : Type) : Type
  | ret (a : α)
  | throw (e : σ.Err)
  | get (k : σ.Key) (next : Except σ.Err (Option σ.Val) → Prog σ α)
  | set (k : σ.Key) (v : σ.Val) (ttl : Nat) (next : Except σ.Err Unit → Prog σ α)
  | ask (q : σ.Ask) (next : σ.Answer q → Prog σ α)

variable {σ : Sig} {α β γ : Type}

namespace Prog

def bind : Prog σ α → (α → Prog σ β) → Prog σ β
  | ret a, f => f a
  | throw e, _ => throw e
  | get k next, f => get k fun o => (next o).bind f
  | set k v ttl next, f => set k v ttl fun o => (next o).bind f
  | ask q next, f => ask q fun a => (next a).bind f

instance : Monad (Prog σ) where
  pure := ret
  bind := bind

@[simp] theorem pure_eq (a : α) : (pure a : Prog σ α) = ret a := rfl
@[simp] theorem ret_bind (a : α) (f : α → Prog σ β) : (ret a >>= f) = f a := rfl
theorem get_bind (k : σ.Key) (next : Except σ.Err (Option σ.Val) → Prog σ α) (f : α → Prog σ β) :
    (get k next >>= f) = get k fun o => next o >>= f := rfl
theorem set_bind (k : σ.Key) (v : σ.Val) (ttl : Nat) (next : Except σ.Err Unit → Prog σ α) (f : α → Prog σ β) :
    (set k v ttl next >>= f) = set k v ttl fun o => next o >>= f := rfl
theorem ask_bind (q : σ.Ask) (next : σ.Answer q → Prog σ α) (f : α → Prog σ β) :
    (ask q next >>= f) = ask q fun a => next a >>= f := rfl

theorem bind_ret (p : Prog σ α) : (p >>= ret) = p := by
  induction p with
  | ret | throw => rfl
  | get k next ih => rw [get_bind]; exact congrArg _ (funext ih)
  | set k v ttl next ih => rw [set_bind]; exact congrArg _ (funext ih)
  | ask q next ih => rw [ask_bind]; exact congrArg _ (funext ih)

theorem bind_assoc (p : Prog σ α) (f : α → Prog σ β) (g : β → Prog σ γ) :
    (p >>= f >>= g) = p >>= fun a => f a >>= g := by
  induction p with
  | ret | throw => rfl
  | get k next ih => simp only [get_bind]; exact congrArg _ (funext ih)
  | set k v ttl next ih => simp only [set_bind]; exact congrArg _ (funext ih)
  | ask q next ih => simp only [ask_bind]; exact congrArg _ (funext ih)

instance : LawfulMonad (Prog σ) := LawfulMonad.mk' _ bind_ret (fun _ _ => rfl) bind_assoc

/-- A computation without effects. -/
def lift : Except σ.Err α → Prog σ α
  | .ok a => ret a
  | .error e => throw e

@[simp] theorem lift_ok (a : α) : (lift (.ok a) : Prog σ α) = ret a := rfl

/-- What a program that has finished finished with. -/
def outcome : Prog σ α → Option (Except σ.Err α)
  | ret a => some (.ok a)
  | throw e => some (.error e)
  | _ => none

theorem outcome_map (f : α → β) (p : Prog σ α) : (f <$> p).outcome = p.outcome.map fun r => f <$> r := by
  cases p <;> rfl

/-- The program run where the cache holds nothing and keeps nothing. -/
def alone (serve : ∀ q, σ.Answer q) : Prog σ α → Except σ.Err α
  | ret a => .ok a
  | throw e => .error e
  | get _ next => (next (.ok none)).alone serve
  | set _ _ _ next => (next (.ok ())).alone serve
  | ask q next => (next (serve q)).alone serve

@[simp] theorem alone_ret (serve) (a : α) : (ret a : Prog σ α).alone serve = .ok a := rfl

theorem alone_bind (serve) (p : Prog σ α) (f : α → Prog σ β) :
    (p >>= f).alone serve = p.alone serve >>= fun a => (f a).alone serve := by
  induction p with
  | ret | throw => rfl
  | get k next ih => exact ih _
  | set k v ttl next ih => exact ih _
  | ask q next ih => exact ih _

@[simp] theorem alone_lift (serve) (x : Except σ.Err α) : (lift x : Prog σ α).alone serve = x := by
  cases x <;> rfl

theorem alone_mapM (serve) (f : α → Prog σ β) (as : List α) :
    (as.mapM f).alone serve = as.mapM fun a => (f a).alone serve := by
  induction as with
  | nil => rfl
  | cons a as ih => simp only [List.mapM_cons, alone_bind, ih, pure_eq, alone_ret]; rfl

/-! ## Programs a valid cache cannot influence -/

/-- `p` finishes with `r` whatever a cache answers that holds only entries
`I` admits, and writes only such entries. With `fails`, also when cache
operations raise. -/
def Sound (I : σ.Key → σ.Val → Prop) (fails : Prop) (serve : ∀ q, σ.Answer q) : Prog σ α → Except σ.Err α → Prop
  | ret a, r => r = .ok a
  | throw e, r => r = .error e
  | get k next, r => (∀ o, (∀ v, o = some v → I k v) → (next (.ok o)).Sound I fails serve r) ∧
      (fails → ∀ e, (next (.error e)).Sound I fails serve r)
  | set k v _ next, r => I k v ∧ (next (.ok ())).Sound I fails serve r ∧
      (fails → ∀ e, (next (.error e)).Sound I fails serve r)
  | ask q next, r => (next (serve q)).Sound I fails serve r

section Sound
variable {I : σ.Key → σ.Val → Prop} {fails : Prop} {serve : ∀ q, σ.Answer q}

theorem Sound.lift (x : Except σ.Err α) : (Prog.lift x : Prog σ α).Sound I fails serve x := by
  cases x <;> rfl

theorem Sound.of_eq {p : Prog σ α} {r s : Except σ.Err α} (h : p.Sound I fails serve r) (he : r = s) :
    p.Sound I fails serve s := he ▸ h

/-- Sequencing: the result is that of the parts in sequence. -/
theorem Sound.bind {p : Prog σ α} {f : α → Prog σ β} {x : Except σ.Err α} {r : α → Except σ.Err β}
    (hp : p.Sound I fails serve x) (hf : ∀ a, x = .ok a → (f a).Sound I fails serve (r a)) :
    (p >>= f).Sound I fails serve (x >>= r) := by
  induction p with
  | ret a => cases hp; exact hf a rfl
  | throw e => cases hp; rfl
  | get k next ih => exact ⟨fun o ho => ih _ (hp.1 o ho), fun h e => ih _ (hp.2 h e)⟩
  | set k v ttl next ih => exact ⟨hp.1, ih _ hp.2.1, fun h e => ih _ (hp.2.2 h e)⟩
  | ask q next ih => exact ih _ hp

/-- A sound program's one result is its result alone. -/
theorem Sound.alone {p : Prog σ α} {r : Except σ.Err α} (h : p.Sound I fails serve r) : p.alone serve = r := by
  induction p with
  | ret | throw => exact h.symm
  | get k next ih => exact ih _ (h.1 none (by simp))
  | set k v ttl next ih => exact ih _ h.2.1
  | ask q next ih => exact ih _ h

/-- The program's one result, whatever a valid cache answers, is its result alone. -/
def Steady (I : σ.Key → σ.Val → Prop) (fails : Prop) (serve : ∀ q, σ.Answer q) (p : Prog σ α) : Prop :=
  p.Sound I fails serve (p.alone serve)

theorem Sound.steady {p : Prog σ α} {r : Except σ.Err α} (h : p.Sound I fails serve r) : p.Steady I fails serve := by
  rw [Steady, h.alone]; exact h

theorem Steady.ret (a : α) : (Prog.ret a : Prog σ α).Steady I fails serve := rfl

theorem Steady.throw (e : σ.Err) : (Prog.throw e : Prog σ α).Steady I fails serve := rfl

theorem Steady.lift (x : Except σ.Err α) : (Prog.lift x : Prog σ α).Steady I fails serve := (Sound.lift x).steady

theorem Steady.bind {p : Prog σ α} {f : α → Prog σ β} (hp : p.Steady I fails serve)
    (hf : ∀ a, p.alone serve = .ok a → (f a).Steady I fails serve) : (p >>= f).Steady I fails serve := by
  rw [Steady, alone_bind]
  exact Sound.bind hp hf

theorem Steady.ask {q : σ.Ask} {next : σ.Answer q → Prog σ α} (h : (next (serve q)).Steady I fails serve) :
    (Prog.ask q next).Steady I fails serve := h

theorem Steady.mapM {f : α → Prog σ β} {as : List α} (h : ∀ a ∈ as, (f a).Steady I fails serve) :
    (as.mapM f).Steady I fails serve := by
  induction as with
  | nil => exact Steady.ret _
  | cons a as ih =>
    rw [List.mapM_cons]
    exact (h a (by simp)).bind fun _ _ => (ih fun b hb => h b (by simp [hb])).bind fun _ _ => Steady.ret _

theorem Sound.outcome {p : Prog σ α} {r x : Except σ.Err α} (h : p.Sound I fails serve r)
    (ho : p.outcome = some x) : x = r := by
  cases p <;> simp only [Prog.outcome, Option.some.injEq, reduceCtorEq] at ho
  · rw [← ho]; exact h.symm
  · rw [← ho]; exact h.symm

end Sound

/-! ## Programs confined to some keys -/

/-- Every key the program reads or writes is in `S`. -/
def Within (S : σ.Key → Prop) : Prog σ α → Prop
  | ret _ | throw _ => True
  | get k next => S k ∧ ∀ o, (next o).Within S
  | set k _ _ next => S k ∧ ∀ o, (next o).Within S
  | ask _ next => ∀ a, (next a).Within S

theorem Within.mono {S T : σ.Key → Prop} (h : ∀ k, S k → T k) {p : Prog σ α} (hp : p.Within S) : p.Within T := by
  induction p with
  | ret | throw => trivial
  | get k next ih => exact ⟨h k hp.1, fun o => ih o (hp.2 o)⟩
  | set k v ttl next ih => exact ⟨h k hp.1, fun o => ih o (hp.2 o)⟩
  | ask q next ih => exact fun a => ih a (hp a)

/-! ## What every operation meets -/

/-- Every operation of the program meets `P`, which is told the key and
whether the program goes on after a failure as after a miss. -/
def Touches (P : σ.Key → Prop → Prop) : Prog σ α → Prop
  | ret _ | throw _ => True
  | get k next => P k (∀ e, next (.error e) = next (.ok none)) ∧ ∀ o, (next o).Touches P
  | set k _ _ next => P k (∀ e, next (.error e) = next (.ok ())) ∧ ∀ o, (next o).Touches P
  | ask _ next => ∀ a, (next a).Touches P

/-- What is asked of an operation is asked less of a tolerant one. -/
def Lenient {κ : Type} (P : κ → Prop → Prop) : Prop := ∀ k p q, (p → q) → P k p → P k q

section Touches
variable {P : σ.Key → Prop → Prop}

theorem Touches.ret (a : α) : (Prog.ret a : Prog σ α).Touches P := trivial

theorem Touches.bind (hP : Lenient P) {p : Prog σ α} {f : α → Prog σ β} (hp : p.Touches P)
    (hf : ∀ a, (f a).Touches P) : (p >>= f).Touches P := by
  induction p with
  | ret a => exact hf a
  | throw e => trivial
  | get k next ih => exact ⟨hP _ _ _ (fun h e => congrArg (·.bind f) (h e)) hp.1, fun o => ih o (hp.2 o)⟩
  | set k v ttl next ih => exact ⟨hP _ _ _ (fun h e => congrArg (·.bind f) (h e)) hp.1, fun o => ih o (hp.2 o)⟩
  | ask q next ih => exact fun a => ih a (hp a)

theorem Touches.lift (x : Except σ.Err α) : (Prog.lift x : Prog σ α).Touches P := by
  cases x <;> trivial

theorem Touches.mapM (hP : Lenient P) {f : α → Prog σ β} {as : List α} (h : ∀ a ∈ as, (f a).Touches P) :
    (as.mapM f).Touches P := by
  induction as with
  | nil => trivial
  | cons a as ih =>
    rw [List.mapM_cons]
    exact (h a (by simp)).bind hP fun _ => (ih fun b hb => h b (by simp [hb])).bind hP fun _ => Touches.ret _

theorem Touches.within {S : σ.Key → Prop} {p : Prog σ α} (h : p.Touches fun k _ => S k) : p.Within S := by
  induction p with
  | ret | throw => trivial
  | get k next ih => exact ⟨h.1, fun o => ih o (h.2 o)⟩
  | set k v ttl next ih => exact ⟨h.1, fun o => ih o (h.2 o)⟩
  | ask q next ih => exact fun a => ih a (h a)

end Touches

end Prog

/-! ## The cache -/

/-- Entries with the time they expire. -/
abbrev Cache (σ : Sig) := σ.Key → Option (σ.Val × ℚ)

namespace Cache

def empty : Cache σ := fun _ => none

/-- What a read at `now` answers: nothing once the entry has expired. -/
def read (c : Cache σ) (now : ℚ) (k : σ.Key) : Option σ.Val :=
  match c k with
  | none => none
  | some (v, expires) => if expires ≤ now then none else some v

/-- Every entry is one `I` admits. -/
def Holds (c : Cache σ) (I : σ.Key → σ.Val → Prop) : Prop := ∀ k v t, c k = some (v, t) → I k v

/-- Two caches agree on the keys of `S`. -/
def Agree (S : σ.Key → Prop) (c d : Cache σ) : Prop := ∀ k, S k → c k = d k

theorem Holds.empty (I : σ.Key → σ.Val → Prop) : (empty : Cache σ).Holds I := by
  intro k v t h; simp [Cache.empty] at h

theorem Holds.read {c : Cache σ} {I} (h : c.Holds I) {now : ℚ} {k : σ.Key} {v : σ.Val}
    (hr : c.read now k = some v) : I k v := by
  simp only [Cache.read] at hr
  split at hr
  · cases hr
  · next w t hk =>
    split at hr
    · cases hr
    · cases hr; exact h _ _ _ hk

theorem Agree.read {S : σ.Key → Prop} {c d : Cache σ} (h : Agree S c d) {k : σ.Key} (hk : S k) (now : ℚ) :
    c.read now k = d.read now k := by
  simp only [Cache.read, h k hk]

variable [DecidableEq σ.Key]

def put (c : Cache σ) (k : σ.Key) (e : Option (σ.Val × ℚ)) : Cache σ := Function.update c k e

/-- The cache after a read: an expired entry is dropped. -/
def afterRead (c : Cache σ) (now : ℚ) (k : σ.Key) : Cache σ :=
  match c k with
  | none => c
  | some (_, expires) => if expires ≤ now then c.put k none else c

/-- A write; nothing is kept for no time. -/
def write (c : Cache σ) (now : ℚ) (k : σ.Key) (v : σ.Val) (ttl : Nat) : Cache σ :=
  if ttl = 0 then c else c.put k (some (v, now + ttl))

@[simp] theorem put_self (c : Cache σ) (k : σ.Key) (e) : c.put k e k = e := Function.update_self ..

theorem put_of_ne (c : Cache σ) {j k : σ.Key} (h : j ≠ k) (e) : c.put k e j = c j := Function.update_of_ne h ..

theorem Holds.put {c : Cache σ} {I} (h : c.Holds I) {k : σ.Key} {e : Option (σ.Val × ℚ)}
    (he : ∀ v t, e = some (v, t) → I k v) : (c.put k e).Holds I := by
  intro j v t hj
  by_cases hjk : j = k
  · subst hjk; rw [put_self] at hj; exact he v t hj
  · rw [put_of_ne c hjk] at hj; exact h j v t hj

theorem Holds.afterRead {c : Cache σ} {I} (h : c.Holds I) (now : ℚ) (k : σ.Key) : (c.afterRead now k).Holds I := by
  simp only [Cache.afterRead]
  split
  · exact h
  · split
    · exact h.put fun v t he => by cases he
    · exact h

theorem Holds.write {c : Cache σ} {I} (h : c.Holds I) (now : ℚ) {k : σ.Key} {v : σ.Val} (ttl : Nat) (hv : I k v) :
    (c.write now k v ttl).Holds I := by
  simp only [Cache.write]
  split
  · exact h
  · exact h.put fun w t hw => by simp only [Option.some.injEq, Prod.mk.injEq] at hw; exact hw.1 ▸ hv

variable {S : σ.Key → Prop} {c d : Cache σ}

theorem Agree.put (h : Agree S c d) (k : σ.Key) (e : Option (σ.Val × ℚ)) : Agree S (c.put k e) (d.put k e) := by
  intro j hj
  by_cases hjk : j = k
  · subst hjk; rw [put_self, put_self]
  · rw [put_of_ne c hjk, put_of_ne d hjk]; exact h j hj

theorem Agree.afterRead (h : Agree S c d) {k : σ.Key} (hk : S k) (now : ℚ) :
    Agree S (c.afterRead now k) (d.afterRead now k) := by
  simp only [Cache.afterRead, h k hk]
  split
  · exact h
  · split
    · exact h.put k none
    · exact h

theorem Agree.write (h : Agree S c d) (now : ℚ) (k : σ.Key) (v : σ.Val) (ttl : Nat) :
    Agree S (c.write now k v ttl) (d.write now k v ttl) := by
  simp only [Cache.write]
  split
  · exact h
  · exact h.put k _

/-- What happens to a key outside `S` is not seen. -/
theorem Agree.put_left (h : Agree S c d) {k : σ.Key} (hk : ¬ S k) (e : Option (σ.Val × ℚ)) :
    Agree S (c.put k e) d := by
  intro j hj
  have hjk : j ≠ k := fun he => hk (he ▸ hj)
  rw [put_of_ne c hjk]; exact h j hj

theorem Agree.afterRead_left (h : Agree S c d) {k : σ.Key} (hk : ¬ S k) (now : ℚ) :
    Agree S (c.afterRead now k) d := by
  simp only [Cache.afterRead]
  split
  · exact h
  · split
    · exact h.put_left hk none
    · exact h

theorem Agree.write_left (h : Agree S c d) (now : ℚ) {k : σ.Key} (hk : ¬ S k) (v : σ.Val) (ttl : Nat) :
    Agree S (c.write now k v ttl) d := by
  simp only [Cache.write]
  split
  · exact h
  · exact h.put_left hk _

end Cache

/-! ## One program, alone with its cache -/

section Exec
variable [DecidableEq σ.Key]

/-- The program run from cache `c` with no other: its `n`th operation from
here takes place at `clock n`. -/
def Prog.exec (serve : ∀ q, σ.Answer q) (clock : ℕ → ℚ) : ℕ → Prog σ α → Cache σ → Except σ.Err α × Cache σ
  | _, ret a, c => (.ok a, c)
  | _, throw e, c => (.error e, c)
  | n, get k next, c => (next (.ok (c.read (clock n) k))).exec serve clock (n + 1) (c.afterRead (clock n) k)
  | n, set k v ttl next, c => (next (.ok ())).exec serve clock (n + 1) (c.write (clock n) k v ttl)
  | n, ask q next, c => (next (serve q)).exec serve clock (n + 1) c

theorem Prog.Sound.exec {I : σ.Key → σ.Val → Prop} {fails : Prop} {serve : ∀ q, σ.Answer q} {clock : ℕ → ℚ}
    {p : Prog σ α} {r : Except σ.Err α} (h : p.Sound I fails serve r) {n : ℕ} {c : Cache σ} (hc : c.Holds I) :
    (p.exec serve clock n c).1 = r := by
  induction p generalizing n c with
  | ret | throw => exact h.symm
  | get k next ih => exact ih _ (h.1 _ fun v hv => hc.read hv) (hc.afterRead _ _)
  | set k v ttl next ih => exact ih _ h.2.1 (hc.write _ _ h.1)
  | ask q next ih => exact ih _ h hc

end Exec

/-- How the cache behaves at one operation. -/
inductive Fault (σ : Sig)
  | works
  | loses
  | raises (e : σ.Err)

section Faults
variable [DecidableEq σ.Key]

/-- The program's result from cache `c` with no other, when the cache treats
its `n`th operation from here, on key `k`, as `faults n k` says. -/
def Prog.execFaulty (serve : ∀ q, σ.Answer q) (clock : ℕ → ℚ) (faults : ℕ → σ.Key → Fault σ) :
    ℕ → Prog σ α → Cache σ → Except σ.Err α
  | _, ret a, _ => .ok a
  | _, throw e, _ => .error e
  | n, get k next, c =>
    match faults n k with
    | .works => (next (.ok (c.read (clock n) k))).execFaulty serve clock faults (n + 1) (c.afterRead (clock n) k)
    | .loses => (next (.ok none)).execFaulty serve clock faults (n + 1) c
    | .raises e => (next (.error e)).execFaulty serve clock faults (n + 1) c
  | n, set k v ttl next, c =>
    match faults n k with
    | .works => (next (.ok ())).execFaulty serve clock faults (n + 1) (c.write (clock n) k v ttl)
    | .loses => (next (.ok ())).execFaulty serve clock faults (n + 1) c
    | .raises e => (next (.error e)).execFaulty serve clock faults (n + 1) c
  | n, ask q next, c => (next (serve q)).execFaulty serve clock faults (n + 1) c

variable {I : σ.Key → σ.Val → Prop} {serve : ∀ q, σ.Answer q} {clock : ℕ → ℚ} {faults : ℕ → σ.Key → Fault σ}

/-- **Tolerance.** A program with one result whatever a valid cache answers
has it also when operations raise, where it goes on after a failure as after
a miss. -/
theorem Prog.Sound.execFaulty {p : Prog σ α} {r : Except σ.Err α} (h : p.Sound I False serve r)
    (htol : p.Touches fun k tolerant => (∃ n e, faults n k = .raises e) → tolerant) {n : ℕ} {c : Cache σ} (hc : c.Holds I) :
    p.execFaulty serve clock faults n c = r := by
  induction p generalizing n c with
  | ret | throw => exact h.symm
  | get k next ih =>
    have hmiss := h.1 none (by simp)
    simp only [Prog.execFaulty]
    split
    · exact ih _ (h.1 _ fun v hv => hc.read hv) (htol.2 _) (hc.afterRead _ _)
    · exact ih _ hmiss (htol.2 _) hc
    · next e he =>
      rw [htol.1 ⟨_, _, he⟩ e]
      exact ih _ hmiss (htol.2 _) hc
  | set k v ttl next ih =>
    simp only [Prog.execFaulty]
    split
    · exact ih _ h.2.1 (htol.2 _) (hc.write _ _ h.1)
    · exact ih _ h.2.1 (htol.2 _) hc
    · next e he =>
      rw [htol.1 ⟨_, _, he⟩ e]
      exact ih _ h.2.1 (htol.2 _) hc
  | ask q next ih => exact ih _ h (htol _) hc

end Faults

/-! ## Many programs on one cache -/

/-- One operation: whose, when, the service's answers then, the cache's
behaviour. -/
structure Event (σ : Sig) (ι : Type) where
  who : ι
  now : ℚ
  serve : ∀ q, σ.Answer q
  fault : Fault σ

structure System (σ : Sig) (ι α : Type) where
  cache : Cache σ
  progs : ι → Prog σ α

section System
variable {ι : Type} [DecidableEq σ.Key]

/-- One operation of one program on the cache. -/
def stepProg (ev : Event σ ι) (c : Cache σ) : Prog σ α → Cache σ × Prog σ α
  | .get k next =>
    match ev.fault with
    | .works => (c.afterRead ev.now k, next (.ok (c.read ev.now k)))
    | .loses => (c, next (.ok none))
    | .raises e => (c, next (.error e))
  | .set k v ttl next =>
    match ev.fault with
    | .works => (c.write ev.now k v ttl, next (.ok ()))
    | .loses => (c, next (.ok ()))
    | .raises e => (c, next (.error e))
  | .ask q next => (c, next (ev.serve q))
  | p => (c, p)

section
variable {I : σ.Key → σ.Val → Prop} {fails : Prop} {serve : ∀ q, σ.Answer q}

/-- The event's service answers as `serve`; the cache raises only where the
programs are proof against it. -/
def Event.Fixed (ev : Event σ ι) (fails : Prop) (serve : ∀ q, σ.Answer q) : Prop :=
  ev.serve = serve ∧ ((∃ e, ev.fault = .raises e) → fails)

theorem stepProg_sound {ev : Event σ ι} {c : Cache σ} {p : Prog σ α} {r} (hev : ev.Fixed fails serve)
    (hc : c.Holds I) (hp : p.Sound I fails serve r) :
    (stepProg ev c p).1.Holds I ∧ (stepProg ev c p).2.Sound I fails serve r := by
  cases p with
  | ret | throw => exact ⟨hc, hp⟩
  | get k next =>
    simp only [stepProg]
    split
    · exact ⟨hc.afterRead _ _, hp.1 _ fun v hv => hc.read hv⟩
    · exact ⟨hc, hp.1 _ (by simp)⟩
    · next e he => exact ⟨hc, hp.2 (hev.2 ⟨e, he⟩) e⟩
  | set k v ttl next =>
    simp only [stepProg]
    split
    · exact ⟨hc.write _ _ hp.1, hp.2.1⟩
    · exact ⟨hc, hp.2.1⟩
    · next e he => exact ⟨hc, hp.2.2 (hev.2 ⟨e, he⟩) e⟩
  | ask q next =>
    obtain ⟨rfl, -⟩ := hev
    exact ⟨hc, hp⟩

end

section
variable {S : σ.Key → Prop}

theorem stepProg_within {T : σ.Key → Prop} {ev : Event σ ι} {c : Cache σ} {p : Prog σ α} (h : p.Within T) :
    (stepProg ev c p).2.Within T := by
  cases p with
  | ret | throw => exact h
  | get k next => simp only [stepProg]; split <;> exact h.2 _
  | set k v ttl next => simp only [stepProg]; split <;> exact h.2 _
  | ask q next => exact h _

/-- On caches that agree where the program looks, one operation does the same. -/
theorem stepProg_agree {ev : Event σ ι} {c d : Cache σ} {p : Prog σ α} (hcd : Cache.Agree S c d) (h : p.Within S) :
    Cache.Agree S (stepProg ev c p).1 (stepProg ev d p).1 ∧ (stepProg ev c p).2 = (stepProg ev d p).2 := by
  cases p with
  | ret | throw => exact ⟨hcd, rfl⟩
  | get k next =>
    simp only [stepProg]
    split
    · exact ⟨hcd.afterRead h.1 _, by rw [hcd.read h.1]⟩
    · exact ⟨hcd, rfl⟩
    · exact ⟨hcd, rfl⟩
  | set k v ttl next =>
    simp only [stepProg]
    split
    · exact ⟨hcd.write _ _ _ _, rfl⟩
    · exact ⟨hcd, rfl⟩
    · exact ⟨hcd, rfl⟩
  | ask q next => exact ⟨hcd, rfl⟩

/-- A program outside `S` leaves what is in `S` as it was. -/
theorem stepProg_outside {ev : Event σ ι} {c d : Cache σ} {p : Prog σ α} (hcd : Cache.Agree S c d)
    (h : p.Within fun k => ¬ S k) : Cache.Agree S (stepProg ev c p).1 d := by
  cases p with
  | ret | throw => exact hcd
  | get k next =>
    simp only [stepProg]
    split
    · exact hcd.afterRead_left h.1 _
    · exact hcd
    · exact hcd
  | set k v ttl next =>
    simp only [stepProg]
    split
    · exact hcd.write_left _ h.1 _ _
    · exact hcd
    · exact hcd
  | ask q next => exact hcd

end

theorem stepProg_map (f : α → β) (ev : Event σ ι) (c : Cache σ) (p : Prog σ α) :
    stepProg ev c (f <$> p) = ((stepProg ev c p).1, f <$> (stepProg ev c p).2) := by
  cases p with
  | ret | throw | ask => rfl
  | get | set => simp only [map_eq_pure_bind, Prog.get_bind, Prog.set_bind, stepProg]; split <;> rfl

variable [DecidableEq ι]

def System.step (s : System σ ι α) (ev : Event σ ι) : System σ ι α :=
  let r := stepProg ev s.cache (s.progs ev.who)
  { cache := r.1, progs := Function.update s.progs ev.who r.2 }

def System.run (s : System σ ι α) (evs : List (Event σ ι)) : System σ ι α := evs.foldl System.step s

/-- The system before anything ran. -/
def System.start (progs : ι → Prog σ α) : System σ ι α := { cache := Cache.empty, progs }

/-! ### What is made of the results -/

/-- A run does not depend on what its programs' results are turned into. -/
theorem run_map (f : α → β) (evs : List (Event σ ι)) (s : System σ ι α) :
    (System.run { cache := s.cache, progs := fun i => f <$> s.progs i } evs) =
      { cache := (s.run evs).cache, progs := fun i => f <$> (s.run evs).progs i } := by
  induction evs generalizing s with
  | nil => rfl
  | cons ev evs ih =>
    have hstep : System.step { cache := s.cache, progs := fun i => f <$> s.progs i } ev =
        { cache := (s.step ev).cache, progs := fun i => f <$> (s.step ev).progs i } := by
      simp only [System.step, stepProg_map, System.mk.injEq, true_and]
      funext i
      by_cases hi : i = ev.who
      · subst hi; simp only [Function.update_self]
      · simp only [Function.update_of_ne hi]
    rw [System.run, List.foldl_cons, hstep]
    exact ih _

/-! ### Transparency -/

section Sound
variable {I : σ.Key → σ.Val → Prop} {fails : Prop} {serve : ∀ q, σ.Answer q}

/-- Every program is sound, the cache is valid. -/
structure System.Sound (s : System σ ι α) (I : σ.Key → σ.Val → Prop) (fails : Prop) (serve : ∀ q, σ.Answer q)
    (r : ι → Except σ.Err α) : Prop where
  cache : s.cache.Holds I
  progs : ∀ i, (s.progs i).Sound I fails serve (r i)

theorem System.Sound.step {s : System σ ι α} {r} (h : s.Sound I fails serve r) {ev : Event σ ι}
    (hev : ev.Fixed fails serve) : (s.step ev).Sound I fails serve r := by
  obtain ⟨h1, h2⟩ := stepProg_sound hev h.cache (h.progs ev.who)
  refine ⟨h1, fun i => ?_⟩
  simp only [System.step]
  by_cases hi : i = ev.who
  · subst hi; rw [Function.update_self]; exact h2
  · rw [Function.update_of_ne hi]; exact h.progs i

/-- **Transparency.** Programs each with one result, whatever a valid cache
answers, have that result in every run that started valid. -/
theorem run_sound {evs : List (Event σ ι)} (hev : ∀ ev ∈ evs, ev.Fixed fails serve) {s : System σ ι α} {r}
    (h : s.Sound I fails serve r) : (s.run evs).Sound I fails serve r := by
  induction evs generalizing s with
  | nil => exact h
  | cons ev evs ih => exact ih (fun e he => hev e (by simp [he])) (h.step (hev ev (by simp)))

end Sound

/-! ### Isolation -/

section Isolated
variable {S : σ.Key → Prop}

/-- `s` and `t` look the same to the programs of the group `mine`, confined
to `S`, while the others keep out of `S`. -/
structure Alike (S : σ.Key → Prop) (mine : ι → Prop) (s t : System σ ι α) : Prop where
  cache : Cache.Agree S s.cache t.cache
  progs : ∀ i, mine i → s.progs i = t.progs i
  inside : ∀ i, mine i → (s.progs i).Within S
  outside : ∀ i, ¬ mine i → (s.progs i).Within fun k => ¬ S k

variable {mine : ι → Prop} {s t : System σ ι α}

/-- A step of one of mine, taken by both. -/
theorem Alike.step (h : Alike S mine s t) {ev : Event σ ι} (hm : mine ev.who) : Alike S mine (s.step ev) (t.step ev) := by
  have hp := h.progs _ hm
  obtain ⟨h1, h2⟩ : _ ∧ (stepProg ev s.cache (s.progs ev.who)).2 = _ := stepProg_agree h.cache (h.inside _ hm)
  constructor
  · simpa [System.step, ← hp] using h1
  · intro i hi
    simp only [System.step]
    by_cases hiw : i = ev.who
    · subst hiw; rw [Function.update_self, Function.update_self, ← hp]; exact h2
    · rw [Function.update_of_ne hiw, Function.update_of_ne hiw]; exact h.progs i hi
  · intro i hi
    simp only [System.step]
    by_cases hiw : i = ev.who
    · subst hiw; rw [Function.update_self]; exact stepProg_within (h.inside _ hm)
    · rw [Function.update_of_ne hiw]; exact h.inside i hi
  · intro i hi
    have hiw : i ≠ ev.who := fun he => hi (he ▸ hm)
    simp only [System.step]
    rw [Function.update_of_ne hiw]; exact h.outside i hi

/-- A step of one of the others, taken by one system only. -/
theorem Alike.step_other (h : Alike S mine s t) {ev : Event σ ι} (hm : ¬ mine ev.who) : Alike S mine (s.step ev) t := by
  constructor
  · exact stepProg_outside h.cache (h.outside _ hm)
  · intro i hi
    have hiw : i ≠ ev.who := fun he => hm (he ▸ hi)
    simp only [System.step]
    rw [Function.update_of_ne hiw]; exact h.progs i hi
  · intro i hi
    have hiw : i ≠ ev.who := fun he => hm (he ▸ hi)
    simp only [System.step]
    rw [Function.update_of_ne hiw]; exact h.inside i hi
  · intro i hi
    simp only [System.step]
    by_cases hiw : i = ev.who
    · subst hiw; rw [Function.update_self]; exact stepProg_within (h.outside _ hm)
    · rw [Function.update_of_ne hiw]; exact h.outside i hi

variable [DecidablePred mine]

/-- **Isolation.** Removing the others' steps from a run changes nothing for
the group. -/
theorem run_isolated (h : Alike S mine s t) (evs : List (Event σ ι)) :
    Alike S mine (s.run evs) (t.run (evs.filter fun ev => mine ev.who)) := by
  induction evs generalizing s t with
  | nil => exact h
  | cons ev evs ih =>
    by_cases hm : mine ev.who
    · rw [List.filter_cons_of_pos (by simpa using hm)]; exact ih (h.step hm)
    · rw [List.filter_cons_of_neg (by simpa using hm)]; exact ih (h.step_other hm)

end Isolated

end System

end CacheProg
