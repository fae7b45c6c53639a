/-
Which computations return. A computation in `Except` returns when each of its
parts does; the rules here take `Returns` apart along binds, branches and
loops, so that what a program needs of its input can be read off it.
-/
import Plexio.Lib.Json

open Json (bind_ok mapM_ok exists_forall₂ exists_of_forall₂)

/-- The computation ends without an exception. -/
def Returns {ε α : Type} (x : Except ε α) : Prop := ∃ a, x = .ok a

namespace Returns

variable {ε α β σ : Type}

theorem ok (a : α) : Returns (.ok a : Except ε α) := ⟨a, rfl⟩

theorem pure (a : α) : Returns (Pure.pure a : Except ε α) := ⟨a, rfl⟩

@[simp] theorem ok_iff (a : α) : Returns (.ok a : Except ε α) ↔ True := iff_true_intro (ok a)

@[simp] theorem pure_iff (a : α) : Returns (Pure.pure a : Except ε α) ↔ True := iff_true_intro (pure a)

@[simp] theorem error_iff (e : ε) : Returns (.error e : Except ε α) ↔ False := by
  simp [Returns]

theorem bind_iff {x : Except ε α} {f : α → Except ε β} :
    Returns (x >>= f) ↔ ∃ a, x = .ok a ∧ Returns (f a) := by
  constructor
  · rintro ⟨b, hb⟩
    obtain ⟨a, ha, hf⟩ := bind_ok.mp hb
    exact ⟨a, ha, b, hf⟩
  · rintro ⟨a, ha, b, hf⟩
    exact ⟨b, bind_ok.mpr ⟨a, ha, hf⟩⟩

/-- Where the first part's result does not matter to whether the rest returns. -/
theorem bind_and {x : Except ε α} {f : α → Except ε β} {p : Prop} (h : ∀ a, x = .ok a → (Returns (f a) ↔ p)) :
    Returns (x >>= f) ↔ Returns x ∧ p := by
  rw [bind_iff]
  constructor
  · rintro ⟨a, ha, hf⟩
    exact ⟨⟨a, ha⟩, (h a ha).mp hf⟩
  · rintro ⟨⟨a, ha⟩, hp⟩
    exact ⟨a, ha, (h a ha).mpr hp⟩

/-- The rest returns whatever the first part gives. -/
theorem bind_total {x : Except ε α} {f : α → Except ε β} (h : ∀ a, Returns (f a)) : Returns (x >>= f) ↔ Returns x := by
  rw [bind_and fun a _ => iff_true_intro (h a), and_true]

theorem bind_pure_iff {x : Except ε α} {f : α → β} : Returns (x >>= fun a => Pure.pure (f a)) ↔ Returns x :=
  bind_total fun a => pure (f a)

theorem ite_iff {c : Prop} [Decidable c] {x y : Except ε α} :
    Returns (if c then x else y) ↔ (c → Returns x) ∧ (¬c → Returns y) := by
  split <;> simp [*]

theorem mapM_iff {f : α → Except ε β} {xs : List α} : Returns (xs.mapM f) ↔ ∀ x ∈ xs, Returns (f x) := by
  constructor
  · rintro ⟨ys, hys⟩ x hx
    obtain ⟨y, -, hy⟩ := exists_of_forall₂ (mapM_ok.mp hys).flip x hx
    exact ⟨y, hy⟩
  · intro h
    obtain ⟨ys, hys⟩ := exists_forall₂ h
    exact ⟨ys, mapM_ok.mpr hys⟩

/-- A loop whose steps return or not by the item alone. -/
theorem foldlM_iff {f : σ → α → Except ε σ} {p : α → Prop} (h : ∀ s a, Returns (f s a) ↔ p a) (xs : List α) (s : σ) :
    Returns (xs.foldlM f s) ↔ ∀ a ∈ xs, p a := by
  induction xs generalizing s with
  | nil => simp
  | cons a xs ih =>
    rw [List.foldlM_cons, bind_and fun s' _ => ih s', h, List.forall_mem_cons]

end Returns
