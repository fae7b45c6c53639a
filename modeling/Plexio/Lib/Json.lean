/-
JSON values, the text codec a program stores them by, and validation of a
value into a record in the manner of pydantic: fields found by alias or by
name, defaults, length and pattern checks, forbidden extra keys.

A Python dict is read here up to `==`, which ignores insertion order: an
object lists its members in increasing key order (`Json.Sorted`), so that
equal dicts are equal values and no key comes twice. `Json.Value` carries
the invariant.
-/
import Mathlib.Data.List.Forall2
import Plexio.Lib.Str

open Py (Str)

inductive Json
  | null
  | bool (b : Bool)
  | num (n : Int)
  | str (s : Str)
  | arr (items : List Json)
  | obj (members : List (Str × Json))

namespace Json

mutual
/-- Every object lists its members in increasing key order. -/
def Sorted : Json → Prop
  | .arr items => SortedItems items
  | .obj members => (members.map Prod.fst).Pairwise (· < ·) ∧ SortedMembers members
  | _ => True

def SortedItems : List Json → Prop
  | [] => True
  | x :: xs => x.Sorted ∧ SortedItems xs

def SortedMembers : List (Str × Json) → Prop
  | [] => True
  | (_, v) :: ms => v.Sorted ∧ SortedMembers ms
end

theorem sortedItems_iff {xs : List Json} : SortedItems xs ↔ ∀ x ∈ xs, x.Sorted := by
  induction xs with
  | nil => simp [SortedItems]
  | cons x xs ih => simp [SortedItems, ih]

/-- A value whose objects are in key order: Python's JSON values up to `==`. -/
abbrev Value := { j : Json // j.Sorted }

/-! ## Text -/

/-- `json.dumps`, `json.loads` and the canonical form `json.dumps(x,
sort_keys=True, separators=(',', ':'))` on the values of `γ`: what is
written is read back, and the canonical form tells values apart. -/
structure Text (γ : Type) where
  dumps : γ → Str
  canonical : γ → Str
  loads : Str → Option γ
  loads_dumps : ∀ c, loads (dumps c) = some c
  canonical_inj : Function.Injective canonical

/-! ## Validation -/

/-- What a field check found wrong. -/
inductive Fault
  | missing
  | extra
  | wrongType
  | tooShort (least : Nat)
  | tooLong (most : Nat)
  | pattern
  | notInEnum
  | value (message : Str)
  deriving DecidableEq, Repr

/-- A validation error: the path of keys to the field, and the fault. -/
structure Error where
  path : List Str
  fault : Fault
  deriving DecidableEq, Repr

abbrev Check (α : Type) := Json → Except Error α

def fail {α : Type} (fault : Fault) : Except Error α := .error ⟨[], fault⟩

/-- The error, seen from one level further out. -/
def within {α : Type} (key : Str) : Except Error α → Except Error α
  | .ok a => .ok a
  | .error e => .error { e with path := key :: e.path }

/-- A string of `least` to `most` characters that satisfies `pattern`. -/
def checkStr (least : Nat) (most : Option Nat) (pattern : Str → Bool) : Check Str
  | .str s =>
    if s.length < least then fail (.tooShort least)
    else if most.any (· < s.length) then fail (.tooLong (most.getD 0))
    else if pattern s then .ok s
    else fail .pattern
  | _ => fail .wrongType

/-- A boolean, or what pydantic's lax mode takes for one. -/
def checkBool : Check Bool
  | .bool b => .ok b
  | .num n => if n = 0 then .ok false else if n = 1 then .ok true else fail .wrongType
  | .str s =>
    let s := s.map Char.toLower
    if s ∈ ["0", "off", "f", "false", "n", "no"].map String.toList then .ok false
    else if s ∈ ["1", "on", "t", "true", "y", "yes"].map String.toList then .ok true
    else fail .wrongType
  | _ => fail .wrongType

/-- A member of an enumeration, given by its value. -/
def checkEnum {α : Type} (table : List (Str × α)) : Check α
  | .str s =>
    match table.lookup s with
    | some a => .ok a
    | none => fail .notInEnum
  | _ => fail .wrongType

/-- The items from index `i` on, each checked; an error names the index. -/
def checkItems {α : Type} (item : Check α) : Nat → List Json → Except Error (List α)
  | _, [] => .ok []
  | i, x :: xs => do
    let a ← within (Py.strInt i) (item x)
    let as ← checkItems item (i + 1) xs
    pure (a :: as)

/-- A list of at most `most` items. -/
def checkList {α : Type} (most : Option Nat) (item : Check α) : Check (List α)
  | .arr xs => if most.any (· < xs.length) then fail (.tooLong (most.getD 0)) else checkItems item 0 xs
  | _ => fail .wrongType

/-- The key a field is read from: its alias, else its name. -/
def fieldKey (camel : Str → Str) (o : List (Str × Json)) (name : Str) : Option Str :=
  if (List.lookup (camel name) o).isSome then some (camel name)
  else if (List.lookup name o).isSome then some name
  else none

/-- A field with an optional default; the default itself is not checked. -/
def field {α : Type} (camel : Str → Str) (o : List (Str × Json)) (name : String) (default : Option α)
    (check : Check α) : Except Error α :=
  match (fieldKey camel o name.toList).bind fun k => List.lookup k o with
  | some v => within (camel name.toList) (check v)
  | none =>
    match default with
    | some a => .ok a
    | none => .error ⟨[camel name.toList], .missing⟩

/-- `extra='forbid'`: every key is one a field was read from. -/
def forbidExtra (camel : Str → Str) (o : List (Str × Json)) (names : List String) : Except Error Unit :=
  match o.find? fun m => m.1 ∉ names.filterMap fun n => fieldKey camel o n.toList with
  | some m => .error ⟨[m.1], .extra⟩
  | none => .ok ()

theorem bind_ok {ε α β : Type} {x : Except ε α} {f : α → Except ε β} {b : β} :
    (x >>= f) = .ok b ↔ ∃ a, x = .ok a ∧ f a = .ok b := by
  cases x <;> simp [bind, Except.bind]

@[simp] theorem ok_bind {ε α β : Type} (a : α) (f : α → Except ε β) : ((.ok a : Except ε α) >>= f) = f a := rfl

@[simp] theorem within_ok {α : Type} {key : Str} {x : Except Error α} {a : α} : within key x = .ok a ↔ x = .ok a := by
  cases x <;> simp [within]

theorem checkStr_ok {least : Nat} {most : Option Nat} {pattern : Str → Bool} {j : Json} {s : Str} :
    checkStr least most pattern j = .ok s ↔
      j = .str s ∧ least ≤ s.length ∧ (∀ n ∈ most, s.length ≤ n) ∧ pattern s = true := by
  cases j with
  | str t =>
    simp only [checkStr, fail]
    split
    · simp; rintro rfl; omega
    split
    · next h =>
      simp only [Option.any_eq_true, decide_eq_true_eq] at h
      obtain ⟨n, hn, hlt⟩ := h
      simp only [reduceCtorEq, Json.str.injEq, false_iff, not_and]
      rintro rfl - h
      exact absurd (h n hn) (by omega)
    split
    · next h1 h2 h3 =>
      simp only [Option.any_eq_true, decide_eq_true_eq, not_exists, not_and] at h2
      simp only [Except.ok.injEq, Json.str.injEq]
      constructor
      · rintro rfl; exact ⟨rfl, by omega, fun n hn => by have := h2 n hn; omega, h3⟩
      · exact fun h => h.1
    · next h =>
      simp only [reduceCtorEq, Json.str.injEq, false_iff, not_and]
      rintro rfl - - ; exact h
  | _ => simp [checkStr, fail]

theorem checkItems_cons {α : Type} {item : Check α} {i : Nat} {x : Json} {xs : List Json} {as : List α} :
    checkItems item i (x :: xs) = .ok as ↔
      ∃ a bs, item x = .ok a ∧ checkItems item (i + 1) xs = .ok bs ∧ as = a :: bs := by
  simp only [checkItems, bind, Except.bind, pure, Except.pure]
  cases item x with
  | error e => simp [within]
  | ok a =>
    cases checkItems item (i + 1) xs with
    | error e => simp [within]
    | ok bs => simp [within, eq_comm]

/-- The items checked, one by one. -/
theorem checkItems_ok {α : Type} {item : Check α} {xs : List Json} {as : List α} {i : Nat} :
    checkItems item i xs = .ok as ↔ List.Forall₂ (fun x a => item x = .ok a) xs as := by
  induction xs generalizing i as with
  | nil => simp [checkItems, eq_comm]
  | cons x xs ih =>
    rw [checkItems_cons, List.forall₂_cons_left_iff]
    constructor
    · rintro ⟨a, bs, ha, hs, rfl⟩; exact ⟨a, bs, ha, ih.mp hs, rfl⟩
    · rintro ⟨a, bs, ha, hs, rfl⟩; exact ⟨a, bs, ha, ih.mpr hs, rfl⟩

theorem checkList_ok {α : Type} {most : Option Nat} {item : Check α} {j : Json} {as : List α} :
    checkList most item j = .ok as ↔
      ∃ xs, j = .arr xs ∧ List.Forall₂ (fun x a => item x = .ok a) xs as ∧ ∀ n ∈ most, as.length ≤ n := by
  cases j with
  | arr xs =>
    simp only [checkList, fail, Json.arr.injEq, exists_eq_left']
    split
    · next h =>
      simp only [Option.any_eq_true, decide_eq_true_eq] at h
      obtain ⟨n, hn, hlt⟩ := h
      simp only [reduceCtorEq, false_iff, not_and]
      intro hc hle
      have := hc.length_eq
      exact absurd (hle n hn) (by omega)
    · next h =>
      simp only [Option.any_eq_true, decide_eq_true_eq, not_exists, not_and, Nat.not_lt] at h
      rw [checkItems_ok]
      constructor
      · exact fun hc => ⟨hc, fun n hn => hc.length_eq ▸ h n hn⟩
      · exact fun hc => hc.1
  | _ => simp [checkList, fail]

/-- Every item of a checked list passed the check. -/
theorem exists_of_forall₂ {α β : Type} {R : α → β → Prop} {xs : List α} {ys : List β} (h : List.Forall₂ R xs ys) :
    ∀ y ∈ ys, ∃ x ∈ xs, R x y := by
  induction h with
  | nil => simp
  | cons hx _ ih =>
    intro y hy
    rcases List.mem_cons.mp hy with rfl | hy
    · exact ⟨_, by simp, hx⟩
    · obtain ⟨x, hx, hr⟩ := ih y hy
      exact ⟨x, by simp [hx], hr⟩

theorem exists_forall₂ {α β : Type} {R : α → β → Prop} : ∀ {xs : List α}, (∀ x ∈ xs, ∃ y, R x y) → ∃ ys, List.Forall₂ R xs ys
  | [], _ => ⟨[], .nil⟩
  | x :: xs, h => by
    obtain ⟨y, hy⟩ := h x (by simp)
    obtain ⟨ys, hys⟩ := exists_forall₂ fun z hz => h z (List.mem_cons_of_mem x hz)
    exact ⟨y :: ys, .cons hy hys⟩

theorem mapM_ok {ε α β : Type} {f : α → Except ε β} {xs : List α} {ys : List β} :
    xs.mapM f = .ok ys ↔ List.Forall₂ (fun x y => f x = .ok y) xs ys := by
  induction xs generalizing ys with
  | nil => cases ys <;> simp [pure, Except.pure]
  | cons x xs ih =>
    rw [List.mapM_cons, bind_ok]
    constructor
    · rintro ⟨y, hy, hys⟩
      obtain ⟨zs, hzs, heq⟩ := bind_ok.mp hys
      cases heq
      exact .cons hy (ih.mp hzs)
    · rintro (_ | ⟨hy, hys⟩)
      exact ⟨_, hy, bind_ok.mpr ⟨_, ih.mpr hys, rfl⟩⟩

/-! ## Fields -/

section Field
variable {camel : Str → Str} {o : List (Str × Json)} {name : String} {α : Type} {default : Option α} {check : Check α}

/-- A field given under its alias. -/
theorem field_of_lookup {v : Json} (h : List.lookup (camel name.toList) o = some v) :
    field camel o name default check = within (camel name.toList) (check v) := by
  simp [field, fieldKey, h]

/-- Where a field's value comes from. -/
theorem field_ok {a : α} (h : field camel o name default check = .ok a) :
    (∃ v, check v = .ok a) ∨ default = some a := by
  simp only [field] at h
  split at h
  · exact .inl ⟨_, within_ok.mp h⟩
  · split at h
    · exact .inr (by simpa using h)
    · cases h

theorem field_required {a : α} (h : field camel o name none check = .ok a) : ∃ v, check v = .ok a := by
  simpa using field_ok h

end Field

/-- Nothing is left over when every key is some field's alias. -/
theorem forbidExtra_ok {camel : Str → Str} {o : List (Str × Json)} {names : List String}
    (h : ∀ m ∈ o, ∃ n ∈ names, camel n.toList = m.1) : forbidExtra camel o names = .ok () := by
  have : (o.find? fun m => decide (m.1 ∉ names.filterMap fun n => fieldKey camel o n.toList)) = none := by
    rw [List.find?_eq_none]
    intro m hm
    obtain ⟨n, hn, hc⟩ := h m hm
    have hsome : (List.lookup (camel n.toList) o).isSome := by
      rw [hc, Option.isSome_iff_ne_none, Ne, List.lookup_eq_none_iff]
      exact fun hall => by simpa using hall m hm
    simp only [decide_not, Bool.not_eq_true', decide_eq_false_iff_not, not_not, List.mem_filterMap]
    exact ⟨n, hn, by rw [fieldKey, if_pos hsome, hc]⟩
  simp only [forbidExtra, this]

end Json
