/-
Runs of `Linearize`, event by event, and calls that nobody else notices.

`System.step_cases` says what an event does. A call is inert when none of its
steps changes the shared state: then the run without its events leaves the
same shared state, and every other call where it was (`run_without`).
-/
import Plexio.Lib.Linearize

namespace Linearize

variable {Op Res Local Shared Choice ι : Type}

/-- Where a step leaves its call. -/
def Phase.after : Local ⊕ Res → Phase Local Res
  | .inl l => .running l
  | .inr r => .done r

@[simp] theorem Phase.after_inl (l : Local) : (Phase.after (.inl l) : Phase Local Res) = .running l := rfl
@[simp] theorem Phase.after_inr (r : Res) : (Phase.after (.inr r) : Phase Local Res) = .done r := rfl

section Steps
variable [DecidableEq ι] (M : Machine Op Res Local Shared Choice) (ops : ι → Op)

/-- What an event does: nothing, a start, or a step of a call. -/
theorem System.step_cases (s : System Shared Local Res ι) (e : Event ι Choice) :
    s.step M ops e = s ∨
    (∃ i, e = .invoke i ∧ s.phase i = .idle ∧
      s.step M ops e = ⟨s.shared, Function.update s.phase i (.running (M.start (ops i)))⟩) ∨
    (∃ i c l, e = .act i c ∧ s.phase i = .running l ∧
      s.step M ops e = ⟨(M.step c s.shared l).1, Function.update s.phase i (.after (M.step c s.shared l).2)⟩) := by
  cases e with
  | invoke i =>
    cases hp : s.phase i with
    | idle =>
      refine .inr (.inl ⟨i, rfl, hp, ?_⟩)
      simp only [System.step, stepCall, Event.who, hp]
    | running l | done r =>
      refine .inl ?_
      simp only [System.step, stepCall, Event.who, hp]
      rw [← hp, Function.update_eq_self]
  | act i c =>
    cases hp : s.phase i with
    | running l =>
      refine .inr (.inr ⟨i, c, l, rfl, hp, ?_⟩)
      simp only [System.step, stepCall, Event.who, hp]
      rcases M.step c s.shared l with ⟨s', l' | r⟩ <;> rfl
    | idle | done r =>
      refine .inl ?_
      simp only [System.step, stepCall, Event.who, hp]
      rw [← hp, Function.update_eq_self]

/-- An invariant of every run: kept by a start, and by a step of a call. -/
theorem System.run_invariant (Inv : List (Event ι Choice) → System Shared Local Res ι → Prop) (past : List (Event ι Choice))
    {s : System Shared Local Res ι} (h : Inv past s) (evs : List (Event ι Choice))
    (hstep : ∀ pre e post s, evs = pre ++ e :: post → Inv (past ++ pre) s → Inv (past ++ pre ++ [e]) (s.step M ops e)) :
    Inv (past ++ evs) (s.run M ops evs) := by
  induction evs using List.reverseRecOn with
  | nil =>
    rw [List.append_nil]
    exact h
  | append_singleton evs e ih =>
    rw [System.run_snoc, ← List.append_assoc]
    refine hstep evs e [] _ rfl (ih fun pre e' post s' heq => hstep pre e' (post ++ [e]) s' ?_)
    rw [heq]
    simp

end Steps

/-! ## Inert calls -/

section Inert
variable {M : Machine Op Res Local Shared Choice} {At : Local → Prop}

/-- From these places a call goes on without changing the shared state. -/
structure Inert (M : Machine Op Res Local Shared Choice) (At : Local → Prop) : Prop where
  shared : ∀ c s l, At l → (M.step c s l).1 = s
  stays : ∀ c s l l', At l → (M.step c s l).2 = .inl l' → At l'

/-- The same but for inert calls. -/
structure Alike (At : Local → Prop) (inert : ι → Bool) (s t : System Shared Local Res ι) : Prop where
  shared : s.shared = t.shared
  others : ∀ i, inert i = false → s.phase i = t.phase i
  inert : ∀ i l, inert i = true → s.phase i = .running l → At l

variable [DecidableEq ι] {ops : ι → Op} {inert : ι → Bool} {s t : System Shared Local Res ι}

/-- An inert call's event. -/
theorem Alike.step_inert (h : Alike At inert s t) (hM : Inert M At) (hstart : ∀ i, inert i = true → At (M.start (ops i)))
    {e : Event ι Choice} (he : inert e.who = true) : Alike At inert (s.step M ops e) t := by
  have hother : ∀ i, inert i = false → i ≠ e.who := by
    intro i hi heq
    rw [heq, he] at hi
    cases hi
  have hphase : ∀ i l, inert i = true → (s.step M ops e).phase i = .running l → i ≠ e.who → At l := by
    intro i l hi hl hne
    rw [System.step_other _ _ _ _ hne] at hl
    exact h.inert i l hi hl
  rcases System.step_cases M ops s e with heq | ⟨i, rfl, -, heq⟩ | ⟨i, c, l, rfl, hl, heq⟩
  · rw [heq]
    exact h
  · refine ⟨by rw [heq]; exact h.shared, fun j hj => ?_, fun j l hj hl => ?_⟩
    · rw [System.step_other _ _ _ _ (hother j hj), h.others j hj]
    · by_cases hji : j = i
      · subst hji
        simp only [heq, Function.update_self] at hl
        cases hl
        exact hstart j hj
      · exact hphase j l hj hl hji
  · have hat := h.inert i l he hl
    refine ⟨by rw [heq]; exact (hM.shared c s.shared l hat).trans h.shared, fun j hj => ?_, fun j l' hj hl' => ?_⟩
    · rw [System.step_other _ _ _ _ (hother j hj), h.others j hj]
    · by_cases hji : j = i
      · subst hji
        simp only [heq, Function.update_self] at hl'
        cases hs : (M.step c s.shared l).2 with
        | inl next =>
          rw [hs] at hl'
          cases hl'
          exact hM.stays c s.shared l _ hat hs
        | inr r =>
          rw [hs] at hl'
          cases hl'
      · exact hphase j l' hj hl' hji

/-- An event of any other call. -/
theorem Alike.step_other (h : Alike At inert s t) {e : Event ι Choice} (he : inert e.who = false) :
    Alike At inert (s.step M ops e) (t.step M ops e) := by
  have hsame : stepCall M (ops e.who) s.shared (s.phase e.who) e = stepCall M (ops e.who) t.shared (t.phase e.who) e := by
    rw [h.shared, h.others _ he]
  refine ⟨congrArg Prod.fst hsame, fun i hi => ?_, fun i l hi hl => ?_⟩
  · by_cases hie : i = e.who
    · rw [hie, System.step_self, System.step_self, hsame]
    · rw [System.step_other _ _ _ _ hie, System.step_other _ _ _ _ hie, h.others i hi]
  · have hie : i ≠ e.who := by
      rintro rfl
      rw [he] at hi
      cases hi
    rw [System.step_other _ _ _ _ hie] at hl
    exact h.inert i l hi hl

/-- **Inert calls are as good as not made.** -/
theorem run_without (hM : Inert M At) (inert : ι → Bool) (hstart : ∀ i, inert i = true → At (M.start (ops i))) (shared : Shared)
    (evs : List (Event ι Choice)) :
    Alike At inert ((System.start shared).run M ops evs)
      ((System.start shared).run M ops (evs.filter fun e => !inert e.who)) := by
  induction evs using List.reverseRecOn with
  | nil => exact ⟨rfl, fun _ _ => rfl, fun i l _ hl => by cases hl⟩
  | append_singleton evs e ih =>
    rw [System.run_snoc, List.filter_append]
    cases he : inert e.who with
    | true =>
      rw [show [e].filter (fun e => !inert e.who) = [] by simp [he], List.append_nil]
      exact ih.step_inert hM hstart he
    | false =>
      rw [show [e].filter (fun e => !inert e.who) = [e] by simp [he], System.run_snoc]
      exact ih.step_other he

end Inert

end Linearize
