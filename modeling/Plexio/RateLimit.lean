/-
The rate limiter (`rate_limit.py`). Its table keeps the times of each key's
admitted calls, trims them when the key calls again, and drops whole clients
when it is full and an unknown key calls. A rejected call leaves no time.

`Represents` ties the table to all calls so far: after the cutoff of any time
from now on, what it keeps of a key is what was admitted of the key. So as
long as the clients in the window fit the table it never drops one that
counts, and `allow_slidingWindow` says that each answer is the rule's.

Times are a linear order with a subtraction that keeps the order, as floats
have it.
-/
import Mathlib.Data.Finset.Card
import Mathlib.Order.Monotone.Basic
import Plexio.Lib.Dict
import Plexio.Lib.Window

namespace Plexio

open Window

structure InMemoryRateLimiter (T : Type) where
  requests : Nat
  windowSeconds : T
  maxClients : Nat

/-- The times of each key's admitted calls (`_events`). -/
abbrev Events (K T : Type) : Type := Dict K (List T)

/-- A call and its answer. -/
structure Answered (K T : Type) where
  key : K
  now : T
  ok : Bool

section Table
variable {K T : Type} [DecidableEq K]

/-- The deque of a key, empty when it has none. -/
def Events.times (events : Events K T) (key : K) : List T := (events.get? key).getD []

theorem Events.times_set (events : Events K T) (key : K) (entries : List T) (other : K) :
    Events.times (events.set key entries) other = if other = key then entries else Events.times events other := by
  unfold Events.times
  rw [Dict.get?_set]
  split <;> rfl

/-- The times of the key's admitted calls. -/
def admitted (past : List (Answered K T)) (key : K) : List T :=
  (past.filter fun a => a.ok && a.key = key).map (·.now)

theorem mem_admitted {past : List (Answered K T)} {key : K} {t : T} :
    t ∈ admitted past key ↔ ∃ a ∈ past, a.ok = true ∧ a.key = key ∧ a.now = t := by
  simp [admitted, and_assoc]

theorem admitted_append (past : List (Answered K T)) (a : Answered K T) (key : K) :
    admitted (past ++ [a]) key = admitted past key ++ if a.ok = true ∧ a.key = key then [a.now] else [] := by
  unfold admitted
  rw [List.filter_append, List.map_append]
  by_cases h : a.ok = true ∧ a.key = key
  · simp [h]
  · rw [if_neg h, List.filter_cons_of_neg (by simpa using h)]
    rfl

/-- The table without its stale clients. -/
def Events.purge [LinearOrder T] (cutoff : T) (events : Events K T) : Events K T :=
  events.filter fun entries => !isStale cutoff entries

theorem Events.times_purge [LinearOrder T] (cutoff : T) (events : Events K T) (key : K) :
    (Events.purge cutoff events).times key = if isStale cutoff (events.times key) then [] else events.times key := by
  unfold Events.times Events.purge
  rw [Dict.get?_filter]
  cases events.get? key with
  | none => simp
  | some entries =>
    rw [Option.filter_some, Option.getD_some]
    cases isStale cutoff entries <;> rfl

end Table

namespace InMemoryRateLimiter
variable {K T : Type} [DecidableEq K] [LinearOrder T] [Sub T] (L : InMemoryRateLimiter T)

/-- Room for an unknown key: stale clients go, and the oldest if none is. `none`
is the `RuntimeError` that `next` on an empty table ends in. -/
def makeRoom (cutoff : T) (events : Events K T) (key : K) : Option (Events K T) :=
  if key ∉ events.keys ∧ L.maxClients ≤ events.length then
    if L.maxClients ≤ (events.purge cutoff).length then (events.purge cutoff).popFirst else some (events.purge cutoff)
  else some events

def allow (events : Events K T) (key : K) (now : T) : Option (Bool × Events K T) := do
  let cutoff := now - L.windowSeconds
  let events ← L.makeRoom cutoff events key
  let entries := trim cutoff (events.times key)
  if L.requests ≤ entries.length then
    return (false, events.set key entries)
  return (true, events.set key (entries ++ [now]))

/-! ## The rule -/

/-- Other keys with an admitted call in the window that ends now. -/
def otherClients (past : List (Answered K T)) (key : K) (now : T) : Finset K :=
  ((past.filter fun a => a.ok = true ∧ a.key ≠ key ∧ now - L.windowSeconds < a.now ∧ a.now ≤ now).map (·.key)).toFinset

/-- The key's admitted calls in the window are fewer than what is allowed. -/
def rule (past : List (Answered K T)) (key : K) (now : T) : Prop :=
  (recent (now - L.windowSeconds) (admitted past key)).length < L.requests

instance (past : List (Answered K T)) (key : K) (now : T) : Decidable (L.rule past key now) :=
  inferInstanceAs (Decidable (_ < _))

/-- A call that comes no earlier than the ones before it, and finds fewer
other clients in the window than the table holds. -/
structure Fits (past : List (Answered K T)) (key : K) (now : T) : Prop where
  later : ∀ a ∈ past, a.now ≤ now
  few : (L.otherClients past key now).card < L.maxClients

/-- Calls in a row, each of which fits, from a table to a table. -/
inductive Run (past : List (Answered K T)) (events : Events K T) : List (Answered K T) → Events K T → Prop
  | start : Run past events past events
  | call {past' events' key now ok events''} : Run past events past' events' → L.Fits past' key now →
      L.allow events' key now = some (ok, events'') → Run past events (past' ++ [⟨key, now, ok⟩]) events''

/-- The table answers for all calls so far, from a time on. -/
structure Represents (past : List (Answered K T)) (events : Events K T) (since : T) : Prop where
  sorted : ∀ key, (events.times key).Pairwise (· ≤ ·)
  upto : ∀ key, ∀ t ∈ events.times key, t ≤ since
  counts : ∀ key now, since ≤ now →
    recent (now - L.windowSeconds) (events.times key) = recent (now - L.windowSeconds) (admitted past key)

section Steps
variable {L} {past : List (Answered K T)} {events : Events K T} {key : K} {now since : T}

theorem Represents.empty : L.Represents [] (Dict.empty : Events K T) since :=
  ⟨fun _ => List.Pairwise.nil, fun _ => nofun, fun _ _ _ => rfl⟩

theorem Represents.later (h : L.Represents past events since) (hle : since ≤ now) : L.Represents past events now :=
  ⟨h.sorted, fun key t ht => (h.upto key t ht).trans hle, fun key now hnow => h.counts key now (hle.trans hnow)⟩

/-- Stale clients hold nothing that counts, now or later. -/
theorem Represents.purge (hsub : ∀ w : T, Monotone fun t : T => t - w) (h : L.Represents past events since) :
    L.Represents past (events.purge (since - L.windowSeconds)) since where
  sorted key := by
    rw [Events.times_purge]
    split
    · exact List.Pairwise.nil
    · exact h.sorted key
  upto key t ht := by
    rw [Events.times_purge] at ht
    split at ht
    · cases ht
    · exact h.upto key t ht
  counts key now hnow := by
    rw [← h.counts key now hnow, Events.times_purge]
    split
    · next hstale =>
      rw [← recent_recent (hsub _ hnow) (events.times key), recent_of_isStale (h.sorted key) hstale]
    · rfl

/-- Each client that is left by a purge counts. -/
theorem Represents.keys_purge (h : L.Represents past events now) (hlater : ∀ a ∈ past, a.now ≤ now)
    (hkey : key ∉ events.keys) : ∀ k ∈ (events.purge (now - L.windowSeconds)).keys, k ∈ L.otherClients past key now := by
  intro k hk
  obtain ⟨entries, hentries⟩ := Dict.mem_keys_iff.mp hk
  rw [Events.purge, Dict.get?_filter, Option.filter_eq_some_iff] at hentries
  obtain ⟨hget, hstale⟩ := hentries
  have hne : k ≠ key := by
    rintro rfl
    exact hkey (Dict.mem_keys_iff.mpr ⟨entries, hget⟩)
  have htimes : events.times k = entries := by rw [Events.times, hget]; rfl
  obtain ⟨t, ht, hcutoff⟩ := exists_recent (by simpa using hstale)
  have hcounts : t ∈ recent (now - L.windowSeconds) (admitted past k) := by
    rw [← h.counts k now le_rfl, htimes]
    exact mem_recent.mpr ⟨ht, hcutoff⟩
  obtain ⟨a, ha, hok, rfl, rfl⟩ := mem_admitted.mp (mem_recent.mp hcounts).1
  rw [otherClients, List.mem_toFinset]
  refine List.mem_map_of_mem (List.mem_filter.mpr ⟨ha, ?_⟩)
  simpa using ⟨hok, hne, hcutoff, hlater a ha⟩

/-- No client that counts is dropped. -/
theorem makeRoom_spec (hsub : ∀ w : T, Monotone fun t : T => t - w) (h : L.Represents past events now)
    (hfits : L.Fits past key now) :
    ∃ room, L.makeRoom (now - L.windowSeconds) events key = some room ∧ L.Represents past room now := by
  unfold makeRoom
  split
  · next hfull =>
    have hroom : (events.purge (now - L.windowSeconds)).length < L.maxClients := by
      rw [← Dict.length_keys, ← List.toFinset_card_of_nodup (Dict.nodup_keys _)]
      refine (Finset.card_le_card fun k hk => ?_).trans_lt hfits.few
      exact h.keys_purge hfits.later hfull.1 k (List.mem_toFinset.mp hk)
    exact ⟨_, if_neg (not_le.mpr hroom), h.purge hsub⟩
  · exact ⟨events, rfl, h⟩

/-- The table after an answer. -/
theorem Represents.set (hsub : ∀ w : T, Monotone fun t : T => t - w) (h : L.Represents past events now) (ok : Bool) :
    L.Represents (past ++ [⟨key, now, ok⟩])
      (events.set key (trim (now - L.windowSeconds) (events.times key) ++ if ok then [now] else [])) now := by
  have htrim : trim (now - L.windowSeconds) (events.times key) = recent (now - L.windowSeconds) (events.times key) :=
    trim_eq_recent (h.sorted key) _
  have hupto : ∀ t ∈ trim (now - L.windowSeconds) (events.times key), t ≤ now :=
    fun t ht => h.upto key t ((List.dropWhile_sublist _).subset ht)
  refine ⟨fun other => ?_, fun other t ht => ?_, fun other later hlater => ?_⟩
  · rw [Events.times_set]
    split
    · rw [List.pairwise_append]
      refine ⟨(h.sorted key).sublist (List.dropWhile_sublist _), by cases ok <;> simp, fun t ht t' ht' => ?_⟩
      cases ok with
      | false => cases ht'
      | true => exact List.mem_singleton.mp ht' ▸ hupto t ht
    · exact h.sorted other
  · rw [Events.times_set] at ht
    split at ht
    · rcases List.mem_append.mp ht with ht | ht
      · exact hupto t ht
      · cases ok with
        | false => cases ht
        | true => exact (List.mem_singleton.mp ht).le
    · exact h.upto other t ht
  · rw [Events.times_set, admitted_append]
    split
    · next hkey =>
      subst hkey
      rw [recent_append, recent_append, htrim, recent_recent (hsub _ hlater), h.counts other later hlater]
      simp
    · next hkey =>
      rw [if_neg (fun hother => hkey hother.2.symm), List.append_nil, h.counts other later hlater]

/-- **One call**: it is answered by the rule, and the table represents it too. -/
theorem allow_spec (hsub : ∀ w : T, Monotone fun t : T => t - w) (h : L.Represents past events now)
    (hfits : L.Fits past key now) :
    ∃ events', L.allow events key now = some (decide (L.rule past key now), events') ∧
      L.Represents (past ++ [⟨key, now, decide (L.rule past key now)⟩]) events' now := by
  obtain ⟨room, hroom, hrep⟩ := makeRoom_spec hsub h hfits
  have hlength : (trim (now - L.windowSeconds) (room.times key)).length =
      (recent (now - L.windowSeconds) (admitted past key)).length := by
    rw [trim_eq_recent (hrep.sorted key), hrep.counts key now le_rfl]
  refine ⟨_, ?_, hrep.set hsub (decide (L.rule past key now))⟩
  unfold allow
  dsimp only
  rw [hroom]
  show (if L.requests ≤ (trim (now - L.windowSeconds) (room.times key)).length then _ else _) = _
  rw [hlength]
  by_cases hrule : L.rule past key now
  · simp only [hrule, decide_true, if_true]
    exact if_neg (not_le.mpr hrule)
  · simp only [hrule, decide_false, Bool.false_eq_true, if_false, List.append_nil]
    exact if_pos (not_lt.mp hrule)

/-! ## Runs -/

theorem Run.represents (hsub : ∀ w : T, Monotone fun t : T => t - w) (h : L.Run [] Dict.empty past events)
    (hlater : ∀ a ∈ past, a.now ≤ now) : L.Represents past events now := by
  induction h generalizing now with
  | start => exact .empty
  | @call past events key last ok events' _ hfits hallow ih =>
    obtain ⟨table, hanswer, hrep⟩ := allow_spec hsub (ih hfits.later) hfits
    rw [hallow, Option.some.injEq, Prod.mk.injEq] at hanswer
    obtain ⟨rfl, rfl⟩ := hanswer
    exact hrep.later (hlater _ (List.mem_append_right _ List.mem_cons_self))

/-- A run keeps the calls made before it. -/
theorem Run.extends {past' : List (Answered K T)} {events' : Events K T} (h : L.Run past events past' events') :
    past <+: past' := by
  induction h with
  | start => exact List.prefix_rfl
  | call _ _ _ ih => exact ih.trans (List.prefix_append _ _)

/-- **Two tables for the same calls answer alike**, from the time on that both
answer for. -/
theorem Run.alike (hsub : ∀ w : T, Monotone fun t : T => t - w) {past' : List (Answered K T)} {events' other : Events K T}
    (h : L.Run past events past' events') (hevents : L.Represents past events since) (hother : L.Represents past other since)
    (hsince : ∀ a ∈ past'.drop past.length, since ≤ a.now) :
    ∃ other', L.Run past other past' other' ∧ ∀ now, since ≤ now → (∀ a ∈ past', a.now ≤ now) →
      L.Represents past' events' now ∧ L.Represents past' other' now := by
  induction h with
  | start => exact ⟨other, .start, fun now hnow _ => ⟨hevents.later hnow, hother.later hnow⟩⟩
  | @call past' events' key last ok events'' hrun hfits hallow ih =>
    rw [List.drop_append_of_le_length hrun.extends.length_le] at hsince
    obtain ⟨other', hrun', hboth⟩ := ih fun a ha => hsince a (List.mem_append_left _ ha)
    have hlast : since ≤ last := hsince _ (List.mem_append_right _ List.mem_cons_self)
    obtain ⟨hrep, hrep'⟩ := hboth last hlast hfits.later
    -- Both answers are the rule's.
    obtain ⟨table, hanswer, htable⟩ := allow_spec hsub hrep hfits
    obtain ⟨table', hanswer', htable'⟩ := allow_spec hsub hrep' hfits
    rw [hallow, Option.some.injEq, Prod.mk.injEq] at hanswer
    obtain ⟨rfl, rfl⟩ := hanswer
    refine ⟨table', .call hrun' hfits hanswer', fun now _ hlater => ?_⟩
    have hnow : last ≤ now := hlater _ (List.mem_append_right _ List.mem_cons_self)
    exact ⟨htable.later hnow, htable'.later hnow⟩

end Steps

/-- **The limiter is the sliding window.** In every run a call that fits is
admitted exactly when fewer than `requests` calls of its key were admitted in
the window; and had stale clients been purged at any time, every later call
would have been answered the same. -/
theorem allow_slidingWindow (hsub : ∀ w : T, Monotone fun t : T => t - w) {past : List (Answered K T)} {events : Events K T}
    (h : L.Run [] Dict.empty past events) :
    (∀ key now, L.Fits past key now → ∃ ok events', L.allow events key now = some (ok, events') ∧
      (ok = true ↔ (recent (now - L.windowSeconds) (admitted past key)).length < L.requests)) ∧
    ∀ t, (∀ a ∈ past, a.now ≤ t) → ∀ past' events', L.Run past events past' events' →
      (∀ a ∈ past'.drop past.length, t ≤ a.now) →
      ∃ events'', L.Run past (events.purge (t - L.windowSeconds)) past' events'' := by
  refine ⟨fun key now hfits => ?_, fun t ht past' events' hrun hlater => ?_⟩
  · obtain ⟨events', hallow, -⟩ := allow_spec hsub (h.represents hsub hfits.later) hfits
    exact ⟨_, events', hallow, decide_eq_true_iff⟩
  · have hrep : L.Represents past events t := h.represents hsub ht
    obtain ⟨other, hother, -⟩ := hrun.alike hsub hrep (hrep.purge hsub) hlater
    exact ⟨other, hother⟩

/-- One request a minute and room for one client, whose window is over when another calls. -/
theorem allow_slidingWindow_minute : ∃ events, (⟨1, 60, 1⟩ : InMemoryRateLimiter Int).allow Dict.empty true 0 = some (true, events) ∧
    (∃ events', (⟨1, 60, 1⟩ : InMemoryRateLimiter Int).allow events false 60 = some (true, events')) ∧
    ∃ events', (⟨1, 60, 1⟩ : InMemoryRateLimiter Int).Run [⟨true, 0, true⟩] (events.purge (60 - 60))
      [⟨true, 0, true⟩, ⟨false, 60, true⟩] events' := by
  have hsub : ∀ w : Int, Monotone fun t : Int => t - w := fun w a b hab => Int.sub_le_sub_right hab w
  have hfirst : (⟨1, 60, 1⟩ : InMemoryRateLimiter Int).allow Dict.empty true 0 = some (true, Dict.empty.set true [0]) := rfl
  have hrun : (⟨1, 60, 1⟩ : InMemoryRateLimiter Int).Run [] Dict.empty ([] ++ [⟨true, 0, true⟩]) (Dict.empty.set true [0]) :=
    .call .start ⟨nofun, by decide⟩ hfirst
  have hfits : (⟨1, 60, 1⟩ : InMemoryRateLimiter Int).Fits [⟨true, 0, true⟩] false 60 := ⟨by decide, by decide⟩
  obtain ⟨hallow, hpurge⟩ := allow_slidingWindow ⟨1, 60, 1⟩ hsub hrun
  obtain ⟨ok, events', hanswer, hok⟩ := hallow false 60 hfits
  obtain rfl : ok = true := hok.mpr (by decide)
  refine ⟨_, hfirst, ⟨events', hanswer⟩, ?_⟩
  exact hpurge 60 (by decide) _ _ (.call .start hfits hanswer) (by decide)

end InMemoryRateLimiter

end Plexio
