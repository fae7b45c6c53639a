/-
Dictionaries that keep the order keys were first given in: a value given
again takes the place of the earlier, a new key goes last. The keys of a
`Dict` are distinct, which every operation keeps, so `get?` and membership
say the same.

A change is stated by what `get?` gives after it: `get?_set`, `get?_filter`.
-/
import Mathlib.Data.List.Induction
import Mathlib.Data.List.Nodup

/-- An entry takes the place of the one of its key, or goes last. -/
def upsert {K V : Type} [DecidableEq K] (entries : List (K × V)) (e : K × V) : List (K × V) :=
  if entries.any fun p => p.1 = e.1 then entries.map fun p => if p.1 = e.1 then e else p else entries ++ [e]

section Upsert
variable {K V : Type} [DecidableEq K]

section Lookup
variable [BEq K] [LawfulBEq K]

theorem lookup_cons_if (e : K × V) (entries : List (K × V)) (key : K) :
    (e :: entries).lookup key = if key = e.1 then some e.2 else entries.lookup key := by
  obtain ⟨k, v⟩ := e
  rw [List.lookup_cons]
  by_cases h : key = k
  · simp [h]
  · simp [h, beq_false_of_ne h]

/-- Values of the key are replaced, others are not. -/
theorem lookup_map_replace (entries : List (K × V)) (e : K × V) (key : K) :
    (entries.map fun p => if p.1 = e.1 then e else p).lookup key =
      if key = e.1 ∧ entries.any (fun p => p.1 = e.1) then some e.2 else entries.lookup key := by
  induction entries with
  | nil => simp
  | cons p entries ih =>
    rw [List.map_cons, lookup_cons_if, lookup_cons_if, List.any_cons, ih]
    by_cases hp : p.1 = e.1
    · by_cases hkey : key = e.1 <;> simp [hp, hkey]
    · by_cases hkey : key = e.1
      · have : key ≠ p.1 := fun h => hp (h.symm.trans hkey)
        simp only [hp, if_false, this, decide_false, Bool.false_or]
      · simp [hp, hkey]

theorem lookup_upsert (entries : List (K × V)) (e : K × V) (key : K) :
    (upsert entries e).lookup key = if key = e.1 then some e.2 else entries.lookup key := by
  unfold upsert
  split
  · next hany => rw [lookup_map_replace, hany]; simp
  · next hany =>
    rw [List.lookup_append, lookup_cons_if, List.lookup_nil]
    by_cases hkey : key = e.1
    · have hnone : entries.lookup key = none := by
        rw [List.lookup_eq_none_iff]
        intro p hp
        simp only [Bool.not_eq_true, List.any_eq_false, decide_eq_true_eq] at hany
        rw [hkey, bne_iff_ne]
        exact Ne.symm (hany p hp)
      rw [if_pos hkey, if_pos hkey, hnone]
      rfl
    · rw [if_neg hkey, if_neg hkey, Option.or_none]

end Lookup

theorem upsert_ne_nil (entries : List (K × V)) (e : K × V) : upsert entries e ≠ [] := by
  unfold upsert
  split
  · next hany =>
    obtain ⟨p, hp, -⟩ := List.any_eq_true.mp hany
    simpa using List.ne_nil_of_mem hp
  · simp

theorem nodup_upsert {entries : List (K × V)} (h : (entries.map Prod.fst).Nodup) (e : K × V) :
    ((upsert entries e).map Prod.fst).Nodup := by
  unfold upsert
  split
  · have hkeys : (entries.map fun p => if p.1 = e.1 then e else p).map Prod.fst = entries.map Prod.fst := by
      rw [List.map_map]
      refine List.map_congr_left fun p _ => ?_
      simp only [Function.comp_apply]
      split
      · next hp => exact hp.symm
      · rfl
    rwa [hkeys]
  · next hany =>
    simp only [Bool.not_eq_true, List.any_eq_false, decide_eq_true_eq] at hany
    rw [List.map_append, List.map_singleton, List.nodup_append]
    refine ⟨h, List.nodup_singleton _, fun key hkey other hother => ?_⟩
    obtain ⟨p, hp, rfl⟩ := List.mem_map.mp hkey
    rw [List.mem_singleton.mp hother]
    exact hany p hp

end Upsert

/-- Entries in the order of their keys' first giving. -/
structure Dict (K V : Type) where
  entries : List (K × V)
  nodup : (entries.map Prod.fst).Nodup

namespace Dict
variable {K V : Type}

def empty : Dict K V := ⟨[], List.nodup_nil⟩

def length (d : Dict K V) : Nat := d.entries.length

def keys (d : Dict K V) : List K := d.entries.map Prod.fst

/-- The entries whose value is kept. -/
def filter (p : V → Bool) (d : Dict K V) : Dict K V where
  entries := d.entries.filter fun e => p e.2
  nodup := d.nodup.sublist (List.filter_sublist.map Prod.fst)

/-- Without its first entry, when it has one. -/
def popFirst (d : Dict K V) : Option (Dict K V) :=
  match h : d.entries with
  | [] => none
  | _ :: entries => some ⟨entries, by have hnodup := d.nodup; rw [h] at hnodup; exact hnodup.of_cons⟩

/-- One entry is dropped, unless there is none. -/
theorem popFirst_some {d d' : Dict K V} (h : d.popFirst = some d') : ∃ e, d.entries = e :: d'.entries := by
  unfold popFirst at h
  split at h
  · cases h
  next e entries heq =>
    cases h
    exact ⟨e, heq⟩

theorem popFirst_none {d : Dict K V} (h : d.popFirst = none) : d.length = 0 := by
  unfold popFirst at h
  split at h
  next hnil => rw [length, hnil]; rfl
  · cases h

theorem nodup_keys (d : Dict K V) : d.keys.Nodup := d.nodup

/-- As many keys as entries. -/
theorem length_keys (d : Dict K V) : d.keys.length = d.length := List.length_map _

variable [DecidableEq K]

def get? (d : Dict K V) (key : K) : Option V := d.entries.lookup key

def set (d : Dict K V) (key : K) (value : V) : Dict K V := ⟨upsert d.entries (key, value), nodup_upsert d.nodup _⟩

/-- A new key takes a place, one that is there does not. -/
theorem length_set (d : Dict K V) (key : K) (value : V) :
    (d.set key value).length = if key ∈ d.keys then d.length else d.length + 1 := by
  have hany : (d.entries.any fun p => p.1 = key) = true ↔ key ∈ d.keys := by simp [keys]
  show (upsert d.entries (key, value)).length = _
  unfold length upsert
  by_cases hkey : key ∈ d.keys
  · rw [if_pos hkey, if_pos (hany.mpr hkey), List.length_map]
  · rw [if_neg hkey, if_neg (fun h => hkey (hany.mp h)), List.length_append, List.length_singleton]

/-- Any lawful comparison of keys finds the same. -/
theorem lookup_entries [BEq K] [LawfulBEq K] (d : Dict K V) (key : K) : d.entries.lookup key = d.get? key := by
  unfold get?
  induction d.entries with
  | nil => rfl
  | cons e entries ih =>
    have hself := @lookup_cons_if K V _ instBEqOfDecidableEq _ e entries key
    rw [hself, ← ih]
    exact lookup_cons_if e entries key

theorem get?_set (d : Dict K V) (key : K) (value : V) (other : K) :
    (d.set key value).get? other = if other = key then some value else d.get? other := lookup_upsert _ _ _

/-- `dict(entries)`: the last entry of a key counts. -/
def ofList (entries : List (K × V)) : Dict K V := entries.foldl (fun d e => d.set e.1 e.2) empty

theorem get?_ofList [BEq K] [LawfulBEq K] (entries : List (K × V)) (key : K) :
    (ofList entries).get? key = entries.reverse.lookup key := by
  induction entries using List.reverseRecOn with
  | nil => rfl
  | append_singleton entries e ih =>
    have hlast : ofList (entries ++ [e]) = (ofList entries).set e.1 e.2 := List.foldl_concat _ _ _ _
    rw [hlast, get?_set, ih, List.reverse_concat]
    exact (lookup_cons_if e entries.reverse key).symm

/-- As keys are distinct, the entry of a key is the one that is found. -/
theorem get?_of_mem {d : Dict K V} {key : K} {value : V} (h : (key, value) ∈ d.entries) : d.get? key = some value := by
  obtain ⟨entries, hnodup⟩ := d
  induction entries with
  | nil => cases h
  | cons e entries ih =>
    rw [List.map_cons, List.nodup_cons] at hnodup
    show List.lookup key (e :: entries) = _
    rw [lookup_cons_if]
    rcases List.mem_cons.mp h with rfl | h
    · exact if_pos rfl
    · have hkey : key ≠ e.1 := fun hkey => hnodup.1 (hkey ▸ List.mem_map_of_mem h)
      rw [if_neg hkey]
      exact ih hnodup.2 h

/-- What is dropped first is not found, and nothing else changes. -/
theorem get?_popFirst {d d' : Dict K V} (h : d.popFirst = some d') (key : K) :
    d'.get? key = d.get? key ∨ d'.get? key = none := by
  obtain ⟨e, he⟩ := popFirst_some h
  have hnodup := d.nodup
  rw [he, List.map_cons, List.nodup_cons] at hnodup
  unfold get?
  rw [he, lookup_cons_if]
  split
  next hkey =>
    refine .inr (List.lookup_eq_none_iff.mpr fun p hp => bne_iff_ne.mpr ?_)
    rintro rfl
    exact hnodup.1 (hkey ▸ List.mem_map_of_mem hp)
  · exact .inl rfl

theorem mem_entries_iff {d : Dict K V} {key : K} {value : V} : (key, value) ∈ d.entries ↔ d.get? key = some value := by
  refine ⟨get?_of_mem, fun h => ?_⟩
  unfold get? at h
  rw [List.lookup_eq_some_iff] at h
  obtain ⟨before, after, hentries, -⟩ := h
  rw [hentries]
  exact List.mem_append_right _ List.mem_cons_self

theorem mem_keys_iff {d : Dict K V} {key : K} : key ∈ d.keys ↔ ∃ value, d.get? key = some value := by
  constructor
  · intro h
    obtain ⟨⟨k, value⟩, hmem, rfl⟩ := List.mem_map.mp h
    exact ⟨value, get?_of_mem hmem⟩
  · rintro ⟨value, h⟩
    exact List.mem_map.mpr ⟨(key, value), mem_entries_iff.mpr h, rfl⟩

/-- `pop(key, None)` -/
def erase (d : Dict K V) (key : K) : Dict K V where
  entries := d.entries.filter fun e => e.1 ≠ key
  nodup := d.nodup.sublist (List.filter_sublist.map Prod.fst)

theorem get?_erase (d : Dict K V) (key other : K) : (d.erase key).get? other = if other = key then none else d.get? other := by
  refine Option.ext fun value => ?_
  rw [← mem_entries_iff]
  simp only [erase, List.mem_filter, ne_eq, decide_eq_true_eq]
  split
  · next h => simp [h]
  · next h => simp [h, mem_entries_iff]

theorem get?_filter (p : V → Bool) (d : Dict K V) (key : K) : (d.filter p).get? key = (d.get? key).filter p := by
  refine Option.ext fun value => ?_
  rw [← mem_entries_iff, Option.filter_eq_some_iff, ← mem_entries_iff]
  exact List.mem_filter

end Dict
