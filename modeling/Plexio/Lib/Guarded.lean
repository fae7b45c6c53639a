/-
What a program asks, and returns, in view of the questions and answers it has
had before: a precondition for each question, and a postcondition, over the
history (`Guarded`). Answers are arbitrary.
-/
import Plexio.Lib.Composable

namespace CacheProg

variable {σ : Sig} {α β : Type}

/-- A question and its answer. -/
abbrev Exchange (σ : Sig) : Type := Σ q : σ.Ask, σ.Answer q

namespace Prog

/-- What the program may have become after these exchanges. -/
inductive Reaches (p : Prog σ α) : List (Exchange σ) → Prog σ α → Prop
  | start : Reaches p [] p
  | get {past : List (Exchange σ)} {k : σ.Key} {next : Except σ.Err (Option σ.Val) → Prog σ α} (o) :
      Reaches p past (.get k next) → Reaches p past (next o)
  | set {past : List (Exchange σ)} {k : σ.Key} {v : σ.Val} {ttl : Nat} {next : Except σ.Err Unit → Prog σ α} (o) :
      Reaches p past (.set k v ttl next) → Reaches p past (next o)
  | ask {past : List (Exchange σ)} {q : σ.Ask} {next : σ.Answer q → Prog σ α} (a) :
      Reaches p past (.ask q next) → Reaches p (past ++ [⟨q, a⟩]) (next a)

/-- After the exchanges so far, every question meets `Q`, and what is returned `P`. -/
def Guarded (Q : List (Exchange σ) → σ.Ask → Prop) (P : List (Exchange σ) → α → Prop) :
    Prog σ α → List (Exchange σ) → Prop
  | ret a, past => P past a
  | throw _, _ => True
  | get _ next, past => ∀ o, (next o).Guarded Q P past
  | set _ _ _ next, past => ∀ o, (next o).Guarded Q P past
  | ask q next, past => Q past q ∧ ∀ a, (next a).Guarded Q P (past ++ [⟨q, a⟩])

section Guarded
variable {Q : List (Exchange σ) → σ.Ask → Prop} {P : List (Exchange σ) → α → Prop} {past : List (Exchange σ)}

/-- **Sequencing**: the postcondition of the first part is the precondition of the second. -/
theorem Guarded.bind {R : List (Exchange σ) → β → Prop} {p : Prog σ α} {f : α → Prog σ β} (hp : p.Guarded Q P past)
    (hf : ∀ past a, P past a → (f a).Guarded Q R past) : (p >>= f).Guarded Q R past := by
  induction p generalizing past with
  | ret a => exact hf past a hp
  | throw e => trivial
  | get k next ih => exact fun o => ih o (hp o)
  | set k v ttl next ih => exact fun o => ih o (hp o)
  | ask q next ih => exact ⟨hp.1, fun a => ih a (hp.2 a)⟩

/-- What a program becomes is guarded by what has passed. -/
theorem Guarded.reaches {p p' : Prog σ α} (hp : p.Guarded Q P []) (h : p.Reaches past p') : p'.Guarded Q P past := by
  induction h with
  | start => exact hp
  | get o _ ih | set o _ ih => exact ih o
  | ask a _ ih => exact ih.2 a

/-- **Every question was allowed by the exchanges before it.** -/
theorem Guarded.asks {p p' : Prog σ α} (hp : p.Guarded Q P []) (h : p.Reaches past p') {q : σ.Ask}
    (hq : p'.asking = some q) : Q past q := by
  have hp' := hp.reaches h
  cases p' with
  | ask q' next =>
    cases hq
    exact hp'.1
  | ret | throw | get | set => cases hq

end Guarded

end Prog

end CacheProg
