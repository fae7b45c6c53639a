/-
An effect that sends a request whenever what it depends on changes, and shows
what comes back (a hook of a page). Requests are answered in any order, or
not at all, and the handlers of an answer run when they run; those of a
request whose effect has been cleaned up do nothing.

`Hook.run_shows`: what is shown is what the request of the last effect has come
to, whatever the other requests did. `Hook.step_kept`: what is known of the
inputs and of the answers is known of every request.
-/
import Mathlib.Data.List.Basic

namespace Effects

/-! ## Requests -/

/-- How far a request is; an answer that is `none` is a failure. -/
inductive Stage (α : Type)
  | asked
  | answered (answer : Option α)
  /-- `then` or `catch` has run. -/
  | handled (answer : Option α)
  /-- `finally` has run. -/
  | settled (answer : Option α)

/-- What was answered. -/
def Stage.result {α : Type} : Stage α → Option α
  | asked => none
  | answered o | handled o | settled o => o

structure Request (δ α : Type) where
  inputs : δ
  stage : Stage α

/-- A hook, as its effect is written. -/
structure Hook (δ κ α σ : Type) where
  /-- The list of dependencies. -/
  deps : δ → κ
  /-- The inputs are enough to ask. -/
  asks : δ → Bool
  /-- What the effect sets before it asks, or does not ask. -/
  start : Bool → σ → σ
  /-- What `then` or `catch` sets. -/
  handle : Option α → σ → σ
  /-- What `finally` sets. -/
  settle : σ → σ

/-- The dependencies of the last effect, the request it sent unless it has
been cleaned up, every request sent, and what is shown. -/
structure State (δ κ α σ : Type) where
  deps : Option κ
  active : Option Nat
  requests : List (Request δ α)
  shown : σ

inductive Event (δ α : Type)
  | render (inputs : δ)
  | unmount
  | answer (i : Nat) (answer : Option α)
  | handle (i : Nat)
  | settle (i : Nat)

variable {δ κ α σ : Type}

def State.initial (shown : σ) : State δ κ α σ := ⟨none, none, [], shown⟩

def State.stage (s : State δ κ α σ) (i : Nat) : Option (Stage α) := s.requests[i]?.map (·.stage)

/-- Request `i` comes to a stage. -/
def State.advance (s : State δ κ α σ) (i : Nat) (stage : Stage α) : State δ κ α σ :=
  { s with requests := s.requests.modify i fun r => { r with stage } }

/-- The handlers of request `i` set something, if its effect is active. -/
def State.show (s : State δ κ α σ) (i : Nat) (f : σ → σ) : State δ κ α σ :=
  { s with shown := if s.active = some i then f s.shown else s.shown }

namespace Hook
variable [DecidableEq κ] (hook : Hook δ κ α σ)

def step (s : State δ κ α σ) : Event δ α → State δ κ α σ
  | .render d =>
    if s.deps = some (hook.deps d) then s
    else
      { deps := some (hook.deps d)
        active := if hook.asks d then some s.requests.length else none
        requests := if hook.asks d then s.requests ++ [⟨d, .asked⟩] else s.requests
        shown := hook.start (hook.asks d) s.shown }
  | .unmount => { s with deps := none, active := none }
  | .answer i o =>
    match s.stage i with
    | some .asked => s.advance i (.answered o)
    | _ => s
  | .handle i =>
    match s.stage i with
    | some (.answered o) => (s.advance i (.handled o)).show i (hook.handle o)
    | _ => s
  | .settle i =>
    match s.stage i with
    | some (.handled o) => (s.advance i (.settled o)).show i hook.settle
    | _ => s

def run (shown : σ) (events : List (Event δ α)) : State δ κ α σ := events.foldl hook.step (.initial shown)

/-! ## The step, event by event -/

/-- What an event does: an effect, a clean-up, a request that advances, or nothing. -/
theorem step_cases (s : State δ κ α σ) (e : Event δ α) :
    hook.step s e = s ∨
    (∃ d, e = .render d ∧ s.deps ≠ some (hook.deps d) ∧ hook.asks d = true ∧
      hook.step s e =
        ⟨some (hook.deps d), some s.requests.length, s.requests ++ [⟨d, .asked⟩], hook.start true s.shown⟩) ∨
    (∃ d, e = .render d ∧ s.deps ≠ some (hook.deps d) ∧ hook.asks d = false ∧
      hook.step s e = ⟨some (hook.deps d), none, s.requests, hook.start false s.shown⟩) ∨
    (e = .unmount ∧ hook.step s e = { s with deps := none, active := none }) ∨
    (∃ i o, e = .answer i o ∧ s.stage i = some .asked ∧ hook.step s e = s.advance i (.answered o)) ∨
    (∃ i o, e = .handle i ∧ s.stage i = some (.answered o) ∧
      hook.step s e = (s.advance i (.handled o)).show i (hook.handle o)) ∨
    (∃ i o, e = .settle i ∧ s.stage i = some (.handled o) ∧
      hook.step s e = (s.advance i (.settled o)).show i hook.settle) := by
  cases e with
  | render d =>
    rw [step]
    split
    · exact .inl rfl
    · next h =>
      cases ha : hook.asks d with
      | true => exact .inr (.inl ⟨d, rfl, h, ha, rfl⟩)
      | false => exact .inr (.inr (.inl ⟨d, rfl, h, ha, rfl⟩))
  | unmount => exact .inr (.inr (.inr (.inl ⟨rfl, rfl⟩)))
  | answer i o =>
    rw [step]
    split
    · next h => exact .inr (.inr (.inr (.inr (.inl ⟨i, o, rfl, h, rfl⟩))))
    · exact .inl rfl
  | handle i =>
    rw [step]
    split
    · next o h => exact .inr (.inr (.inr (.inr (.inr (.inl ⟨i, o, rfl, h, rfl⟩)))))
    · exact .inl rfl
  | settle i =>
    rw [step]
    split
    · next o h => exact .inr (.inr (.inr (.inr (.inr (.inr ⟨i, o, rfl, h, rfl⟩)))))
    · exact .inl rfl

end Hook

/-- A request of an advanced state is one of before, at the new stage if it is that one. -/
theorem State.getElem?_advance (s : State δ κ α σ) (i j : Nat) (stage : Stage α) :
    (s.advance i stage).requests[j]? = s.requests[j]?.map fun r => if i = j then { r with stage } else r := by
  rw [advance, List.getElem?_modify]
  split <;> simp

/-! ## What is shown -/

namespace Hook
variable (hook : Hook δ κ α σ)

/-- An effect sets all that is shown, whatever it was. -/
def Resets : Prop := ∀ asking s s', hook.start asking s = hook.start asking s'

/-- What is shown of a request at a stage. -/
def view (shown : σ) : Stage α → σ
  | .asked | .answered _ => hook.start true shown
  | .handled o => hook.handle o (hook.start true shown)
  | .settled o => hook.settle (hook.handle o (hook.start true shown))

/-- What is shown of the active request, or of none. -/
def viewAt (shown : σ) : Option (Stage α) → σ
  | none => hook.start false shown
  | some stage => hook.view shown stage

/-- **What is shown** is what the active request has come to, which was asked
for with the dependencies of now; or, with none, what an effect that does not ask sets. -/
structure Shows (shown : σ) (s : State δ κ α σ) : Prop where
  idle : s.deps ≠ none → s.active = none → s.shown = hook.start false shown
  asking : ∀ {i}, s.active = some i →
    ∃ r, s.requests[i]? = some r ∧ s.deps = some (hook.deps r.inputs) ∧ hook.asks r.inputs = true ∧
      s.shown = hook.view shown r.stage

variable {hook} {shown : σ} {s : State δ κ α σ}

theorem Shows.viewed (h : hook.Shows shown s) (hdeps : s.deps ≠ none) :
    s.shown = hook.viewAt shown (s.active.bind s.stage) := by
  cases hactive : s.active with
  | none => exact h.idle hdeps hactive
  | some i =>
    obtain ⟨r, hr, -, -, hshown⟩ := h.asking hactive
    rw [hshown, Option.bind_some, State.stage, hr]
    rfl

/-- A request that advances, whatever is shown of that. -/
theorem Shows.advance (h : hook.Shows shown s) {i : Nat} {stage stage' : Stage α} {f : σ → σ}
    (hstage : s.stage i = some stage) (hview : hook.view shown stage' = f (hook.view shown stage)) :
    hook.Shows shown ((s.advance i stage').show i f) := by
  constructor
  · intro hdeps hactive
    simp only [State.show, State.advance] at hdeps hactive ⊢
    simpa [hactive] using h.idle hdeps hactive
  · intro j hj
    obtain ⟨r, hr, hdeps, hasks, hshown⟩ := h.asking (show s.active = some j from hj)
    have hactive : s.active = some j := hj
    have hget := State.getElem?_advance s i j stage'
    rw [hr, Option.map_some] at hget
    simp only [State.show]
    by_cases hij : i = j
    · subst hij
      rw [State.stage, hr, Option.map_some, Option.some.injEq] at hstage
      rw [if_pos rfl] at hget
      refine ⟨_, hget, hdeps, hasks, ?_⟩
      simp only [State.advance, hactive, if_true, hview, hshown, hstage]
    · rw [if_neg hij] at hget
      refine ⟨r, hget, hdeps, hasks, ?_⟩
      simp only [State.advance, hactive, Option.some.injEq, Ne.symm hij, if_false, hshown]

variable [DecidableEq κ]

theorem step_shows (hresets : hook.Resets) (h : hook.Shows shown s) (e : Event δ α) :
    hook.Shows shown (hook.step s e) := by
  obtain he | ⟨d, -, -, hasks, he⟩ | ⟨d, -, -, -, he⟩ | ⟨-, he⟩ | ⟨i, o, -, hi, he⟩ | ⟨i, o, -, hi, he⟩ | ⟨i, o, -, hi, he⟩ :=
    hook.step_cases s e <;> rw [he]
  · exact h
  · refine ⟨fun _ hactive => (by cases hactive), fun hactive => ?_⟩
    cases hactive
    exact ⟨⟨d, .asked⟩, by simp, rfl, hasks, hresets _ _ _⟩
  · exact ⟨fun _ _ => hresets _ _ _, fun hactive => by cases hactive⟩
  · exact ⟨fun hdeps _ => absurd rfl hdeps, fun hactive => by cases hactive⟩
  · have hadvance : hook.Shows shown ((s.advance i (.answered o)).show i id) := h.advance hi rfl
    rwa [State.show, id, ite_self] at hadvance
  · exact h.advance hi rfl
  · exact h.advance hi rfl

/-- **Whatever the requests before it did.** -/
theorem run_shows (hresets : hook.Resets) (events : List (Event δ α)) : hook.Shows shown (hook.run shown events) := by
  suffices h : ∀ s, hook.Shows shown s → hook.Shows shown (events.foldl hook.step s) from
    h _ ⟨fun hdeps _ => absurd rfl hdeps, fun hactive => by cases hactive⟩
  induction events with
  | nil => exact fun s h => h
  | cons e events ih => exact fun s h => ih _ (step_shows hresets h e)

/-! ## What is known of the requests -/

/-- After an effect, its dependencies. -/
theorem step_render (s : State δ κ α σ) (d : δ) : (hook.step s (.render d)).deps = some (hook.deps d) := by
  rw [step]
  split
  · next h => exact h
  · rfl

/-- The answers and their handlers do not change the dependencies. -/
theorem step_deps (s : State δ κ α σ) {e : Event δ α} (hrender : ∀ d, e ≠ .render d) (hunmount : e ≠ .unmount) :
    (hook.step s e).deps = s.deps := by
  obtain he | ⟨d, rfl, -⟩ | ⟨d, rfl, -⟩ | ⟨rfl, -⟩ | ⟨i, o, -, -, he⟩ | ⟨i, o, -, -, he⟩ | ⟨i, o, -, -, he⟩ :=
    hook.step_cases s e
  · rw [he]
  · exact absurd rfl (hrender d)
  · exact absurd rfl (hrender d)
  · exact absurd rfl hunmount
  all_goals rw [he]; rfl

/-- The inputs and the answers of every request sent. -/
def Kept (I : δ → Prop) (R : δ → α → Prop) (s : State δ κ α σ) : Prop :=
  ∀ r ∈ s.requests, I r.inputs ∧ ∀ a, r.stage.result = some a → R r.inputs a

/-- What an event brings: inputs that are enough to ask, or the answer to a request. -/
def Brings (hook : Hook δ κ α σ) (I : δ → Prop) (R : δ → α → Prop) (s : State δ κ α σ) : Event δ α → Prop
  | .render d => hook.asks d = true → I d
  | .answer i o => ∀ r, s.requests[i]? = some r → ∀ a, o = some a → R r.inputs a
  | _ => True

section Kept
variable {I : δ → Prop} {R : δ → α → Prop}

omit [DecidableEq κ] in
/-- A request that advances to a result that is known. -/
theorem kept_advance (h : Kept I R s) {i : Nat} {stage : Stage α}
    (hstage : ∀ r, s.requests[i]? = some r → ∀ a, stage.result = some a → R r.inputs a) :
    Kept I R (s.advance i stage) := by
  intro r hr
  obtain ⟨j, hj⟩ := List.mem_iff_getElem?.mp hr
  rw [State.getElem?_advance, Option.map_eq_some_iff] at hj
  obtain ⟨r', hr', rfl⟩ := hj
  have hkept := h r' (List.mem_of_getElem? hr')
  split
  · next hij => exact ⟨hkept.1, hstage r' (hij ▸ hr')⟩
  · exact hkept

omit [DecidableEq κ] in
/-- What is known of the answer of a request is known of it at its next stage. -/
theorem kept_stage (h : Kept I R s) {i : Nat} {stage stage' : Stage α} (hi : s.stage i = some stage)
    (hresult : stage'.result = stage.result) {r : Request δ α} (hr : s.requests[i]? = some r) :
    ∀ a, stage'.result = some a → R r.inputs a := by
  rw [State.stage, hr, Option.map_some, Option.some.injEq] at hi
  rw [hresult, ← hi]
  exact (h r (List.mem_of_getElem? hr)).2

theorem step_kept (h : Kept I R s) {e : Event δ α} (hbrings : hook.Brings I R s e) : Kept I R (hook.step s e) := by
  obtain he | ⟨d, rfl, -, hasks, he⟩ | ⟨d, -, -, -, he⟩ | ⟨-, he⟩ | ⟨i, o, rfl, hi, he⟩ | ⟨i, o, -, hi, he⟩ |
    ⟨i, o, -, hi, he⟩ := hook.step_cases s e <;> rw [he]
  · exact h
  · intro r hr
    obtain hr | hr := List.mem_append.mp hr
    · exact h r hr
    · rw [List.mem_singleton.mp hr]
      exact ⟨hbrings hasks, fun a ha => by cases ha⟩
  · exact h
  · exact h
  · exact kept_advance h fun r hr a ha => hbrings r hr a ha
  · exact kept_advance h fun r hr => kept_stage h hi rfl hr
  · exact kept_advance h fun r hr => kept_stage h hi rfl hr

end Kept

end Hook

end Effects
