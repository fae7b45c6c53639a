/-
The limit on the public routes (`limit_public_api` of `rate_limit.py`), under
any load: nothing is assumed of how many clients there are, and when there are
more than the table has room for it drops some.

`limit_fair` says what holds all the same: the table is bounded, a call always
has an answer, and a call is refused only where its own client has spent what
it is allowed.
-/
import Plexio.RateLimit
import Plexio.Runtime

namespace Plexio

open Py Window

/-! ## The dependency -/

/-- What `limit_public_api` sees of a request, and when. -/
structure PublicRequest (T : Type) where
  peer : Option Str
  forwardedFor : Option Str
  now : T

/-- The client that a request counts for. -/
def PublicRequest.clientIp {T : Type} (trustProxyHeaders : Bool) (r : PublicRequest T) : Str :=
  let peer := r.peer.getD "unknown".toList
  if trustProxyHeaders then
    match r.forwardedFor with
    | some (c :: cs) => strip ((c :: cs).takeWhile (· ≠ ','))
    | some [] | none => peer
  else peer

section Dependency
variable {T : Type} [LinearOrder T] [Sub T] (L : InMemoryRateLimiter T) (trustProxyHeaders : Bool)

/-- `limit_public_api`; `none` is an error of the table's own. -/
def limitPublicApi (events : Events Str T) (r : PublicRequest T) : Option (Except Exc Unit × Events Str T) :=
  match L.allow events (r.clientIp trustProxyHeaders) r.now with
  | none => none
  | some (true, events) => some (.ok (), events)
  | some (false, events) => some (.error (.http 429 "Too many requests; retry in one minute".toList), events)

/-- Requests in a row, on a clock that does not go back, from an empty table:
which client each counted for, and whether it was let through. -/
inductive PublicRun : List (Answered Str T) → Events Str T → Prop
  | start : PublicRun [] Dict.empty
  | request {past : List (Answered Str T)} {events events' : Events Str T} {r : PublicRequest T} {answer : Except Exc Unit} :
      PublicRun past events → (∀ a ∈ past, a.now ≤ r.now) →
      limitPublicApi L trustProxyHeaders events r = some (answer, events') →
      PublicRun (past ++ [⟨r.clientIp trustProxyHeaders, r.now, answer.isOk⟩]) events'

end Dependency

/-! ## The table under load -/

namespace InMemoryRateLimiter
variable {K T : Type} [DecidableEq K] [LinearOrder T] [Sub T] (L : InMemoryRateLimiter T)

/-- What the table keeps of each client is the last of its admitted calls, some or none. -/
structure Bounded (past : List (Answered K T)) (events : Events K T) : Prop where
  room : events.length ≤ L.maxClients
  last : ∀ key, events.times key <:+ admitted past key
  few : ∀ key, (events.times key).length ≤ L.requests

variable {L} {past : List (Answered K T)} {events room : Events K T} {key : K} {now : T}

omit [LinearOrder T] [Sub T] in
theorem Bounded.empty : L.Bounded [] (Dict.empty : Events K T) := ⟨Nat.zero_le _, fun _ => List.suffix_rfl, fun _ => Nat.zero_le _⟩

/-- A client is in the room as it was, or it is dropped; and there is a place for the caller. -/
structure Room (L : InMemoryRateLimiter T) (events room : Events K T) (key : K) : Prop where
  times : ∀ k, room.times k = events.times k ∨ room.times k = []
  place : room.length ≤ L.maxClients ∧ (key ∉ room.keys → room.length < L.maxClients)

omit [LinearOrder T] [Sub T] in
theorem times_popFirst {d d' : Events K T} (h : d.popFirst = some d') (k : K) : d'.times k = d.times k ∨ d'.times k = [] := by
  unfold Events.times
  rcases Dict.get?_popFirst h k with h | h
  · exact .inl (congrArg (·.getD []) h)
  · exact .inr (congrArg (·.getD []) h)

omit [Sub T] in
theorem times_purge (cutoff : T) (events : Events K T) (k : K) :
    (events.purge cutoff).times k = events.times k ∨ (events.purge cutoff).times k = [] := by
  rw [Events.times_purge]
  split
  · exact .inr rfl
  · exact .inl rfl

omit [Sub T] in
/-- Room is always made. -/
theorem makeRoom_room (hmax : 1 ≤ L.maxClients) (hroom : events.length ≤ L.maxClients) (cutoff : T) (key : K) :
    ∃ room, L.makeRoom cutoff events key = some room ∧ L.Room events room key := by
  have hlength : (events.purge cutoff).length ≤ events.length := List.length_filter_le _ _
  unfold makeRoom
  split
  · split
    next hfull =>
      cases hpop : (events.purge cutoff).popFirst with
      | none =>
        have hnone := Dict.popFirst_none hpop
        omega
      | some d =>
        obtain ⟨e, he⟩ := Dict.popFirst_some hpop
        have hpopped : (events.purge cutoff).length = d.length + 1 := by rw [Dict.length, he]; rfl
        refine ⟨d, rfl, fun k => ?_, by omega, fun _ => by omega⟩
        rcases times_popFirst hpop k with h | h
        · rw [h]
          exact times_purge cutoff events k
        · exact .inr h
    · exact ⟨_, rfl, times_purge cutoff events, by omega, fun _ => by omega⟩
  next hfits =>
    refine ⟨events, rfl, fun _ => .inl rfl, hroom, fun hkey => ?_⟩
    rw [not_and, not_le] at hfits
    exact hfits hkey

omit [Sub T] in
theorem admitted_sorted (hpast : past.Pairwise fun a b => a.now ≤ b.now) (key : K) : (admitted past key).Pairwise (· ≤ ·) :=
  List.pairwise_map.mpr (hpast.sublist List.filter_sublist)

/-- **One call**: it has an answer; a refusal has its reason; and the table stays bounded. -/
theorem Bounded.allow (h : L.Bounded past events) (hmax : 1 ≤ L.maxClients) (hpast : past.Pairwise fun a b => a.now ≤ b.now)
    (key : K) (now : T) : ∃ ok events', L.allow events key now = some (ok, events') ∧
      (ok = false → L.requests ≤ (recent (now - L.windowSeconds) (admitted past key)).length) ∧
      L.Bounded (past ++ [⟨key, now, ok⟩]) events' := by
  obtain ⟨room, hmade, hroom⟩ := makeRoom_room hmax h.room (now - L.windowSeconds) key
  have hlast : ∀ k, room.times k <:+ admitted past k := by
    intro k
    rcases hroom.times k with hk | hk
    · rw [hk]
      exact h.last k
    · rw [hk]
      exact List.nil_suffix
  have hfew : ∀ k, (room.times k).length ≤ L.requests := by
    intro k
    rcases hroom.times k with hk | hk
    · rw [hk]
      exact h.few k
    · rw [hk]
      exact Nat.zero_le _
  generalize hentries : trim (now - L.windowSeconds) (room.times key) = entries
  have hsuffix : entries <:+ room.times key := hentries ▸ List.dropWhile_suffix _
  have hbounded : ∀ ok : Bool, entries.length + (if ok then 1 else 0) ≤ L.requests →
      L.Bounded (past ++ [⟨key, now, ok⟩]) (room.set key (entries ++ if ok then [now] else [])) := by
    intro ok hlength
    refine ⟨?_, fun k => ?_, fun k => ?_⟩
    · rw [Dict.length_set]
      split
      · exact hroom.place.1
      next hkey => exact hroom.place.2 hkey
    · rw [Events.times_set, admitted_append]
      split
      next hk =>
        subst hk
        obtain ⟨before, hbefore⟩ := hsuffix.trans (hlast k)
        exact ⟨before, by rw [← List.append_assoc, hbefore]; simp⟩
      next hk =>
        rw [if_neg (fun hother => hk hother.2.symm), List.append_nil]
        exact hlast k
    · rw [Events.times_set]
      split
      · rw [List.length_append]
        refine le_trans ?_ hlength
        cases ok <;> simp
      · exact hfew k
  unfold InMemoryRateLimiter.allow
  dsimp only
  rw [hmade]
  simp only [Option.bind_eq_bind, Option.bind_some, hentries]
  by_cases hfull : L.requests ≤ entries.length
  · refine ⟨false, room.set key entries, if_pos hfull, fun _ => ?_, ?_⟩
    · have hrecent : entries = recent (now - L.windowSeconds) (room.times key) := by
        rw [← hentries]
        exact trim_eq_recent ((admitted_sorted hpast key).sublist (hlast key).sublist) _
      rw [hrecent] at hfull
      exact hfull.trans ((hlast key).sublist.filter _).length_le
    · have hlength := (hsuffix.length_le).trans (hfew key)
      simpa using hbounded false (by simpa using hlength)
  · refine ⟨true, room.set key (entries ++ [now]), if_neg hfull, fun h => (by cases h), ?_⟩
    simpa using hbounded true (by rw [if_pos rfl]; omega)

end InMemoryRateLimiter

/-! ## The public routes -/

section Public
variable {T : Type} [LinearOrder T] [Sub T] {L : InMemoryRateLimiter T} {trustProxyHeaders : Bool}
  {past : List (Answered Str T)} {events : Events Str T}

/-- The answer is the limiter's. -/
theorem limitPublicApi_of_allow {r : PublicRequest T} {ok : Bool} {events' : Events Str T}
    (h : L.allow events (r.clientIp trustProxyHeaders) r.now = some (ok, events')) :
    limitPublicApi L trustProxyHeaders events r = some (if ok then .ok () else
      .error (.http 429 "Too many requests; retry in one minute".toList), events') := by
  rw [limitPublicApi, h]
  cases ok <;> rfl

/-- **The run lemma.** -/
theorem PublicRun.bounded (hmax : 1 ≤ L.maxClients) (h : PublicRun L trustProxyHeaders past events) :
    past.Pairwise (fun a b => a.now ≤ b.now) ∧ L.Bounded past events := by
  induction h with
  | start => exact ⟨List.Pairwise.nil, .empty⟩
  | @request past events events' r answer _ hlater hanswer ih =>
    obtain ⟨hpast, hbounded⟩ := ih
    obtain ⟨ok, table, hallow, -, htable⟩ := hbounded.allow hmax hpast (r.clientIp trustProxyHeaders) r.now
    rw [limitPublicApi_of_allow hallow, Option.some.injEq, Prod.mk.injEq] at hanswer
    obtain ⟨rfl, rfl⟩ := hanswer
    refine ⟨?_, ?_⟩
    · rw [List.pairwise_append]
      exact ⟨hpast, List.pairwise_singleton _ _, fun a ha b hb => List.mem_singleton.mp hb ▸ hlater a ha⟩
    · cases ok <;> exact htable

/-- **The limit is fair under any load.** However many clients there are and
whatever they send: the table never has more than its number of clients, nor
of a client more times than it is allowed requests; each request has an answer;
and one that is refused comes from a client that was let through that often in
the window that ends now. -/
theorem limit_fair (hmax : 1 ≤ L.maxClients) (h : PublicRun L trustProxyHeaders past events) :
    events.length ≤ L.maxClients ∧ (∀ client, (events.times client).length ≤ L.requests) ∧
      ∀ r : PublicRequest T, ∃ answer events', limitPublicApi L trustProxyHeaders events r = some (answer, events') ∧
        (answer = .ok () ∨ answer = .error (.http 429 "Too many requests; retry in one minute".toList) ∧
          L.requests ≤ (recent (r.now - L.windowSeconds) (admitted past (r.clientIp trustProxyHeaders))).length) := by
  obtain ⟨hpast, hbounded⟩ := h.bounded hmax
  refine ⟨hbounded.room, hbounded.few, fun r => ?_⟩
  obtain ⟨ok, table, hallow, hreason, -⟩ := hbounded.allow hmax hpast (r.clientIp trustProxyHeaders) r.now
  refine ⟨_, table, limitPublicApi_of_allow hallow, ?_⟩
  cases ok with
  | true => exact .inl rfl
  | false => exact .inr ⟨rfl, hreason rfl⟩

/-- A limiter of one request for each of two clients. -/
def twoClients : InMemoryRateLimiter Int := ⟨1, 60, 2⟩

theorem limit_fair_twoClients : ∃ events, PublicRun twoClients false [⟨"a".toList, 0, true⟩] events ∧
    ∃ events', limitPublicApi twoClients false events ⟨some "b".toList, some "a".toList, 1⟩ = some (.ok (), events') := by
  have hfirst : limitPublicApi twoClients false Dict.empty ⟨some "a".toList, none, 0⟩ =
    some (.ok (), Dict.empty.set "a".toList [0]) := rfl
  have hrun : PublicRun twoClients false ([] ++ [⟨"a".toList, 0, true⟩]) (Dict.empty.set "a".toList [0]) :=
    .request .start (by simp) hfirst
  refine ⟨_, hrun, ?_⟩
  obtain ⟨-, -, hanswers⟩ := limit_fair (by decide) hrun
  obtain ⟨answer, events', hanswer, hok | ⟨-, hspent⟩⟩ := hanswers ⟨some "b".toList, some "a".toList, 1⟩
  · exact ⟨events', hok ▸ hanswer⟩
  · exact absurd hspent (by decide)

end Public

end Plexio
