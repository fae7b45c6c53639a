/-
What Plex is told of a playback, whatever the order of the two tasks' steps.

`Plays` is the protocol: chunks and reports of playing, the upstream closed,
then one report of having stopped, and nothing after it. `Inv` says that the
tasks' places tell how far the protocol has come, that the chunks passed on
are those read, and that no report is ahead of the clock. Every step keeps it,
and once the generator has left its loop every step but the idle ones brings
the end nearer (`rank`).
-/
import Mathlib.Algebra.Order.Ring.Rat
import Mathlib.Tactic.Linarith
import Plexio.Playback

namespace Plexio

open Py

/-! ## The protocol -/

/-- How far a playback has come. -/
inductive Mode
  | idle
  | watching (reported : Bool)
  | closing (reported : Bool)
  | stopped
  /-- Closed with nothing played. -/
  | quiet

/-- The protocol: what is seen of a playback that has come so far. -/
inductive Plays : Mode → List Action → Prop
  | idle : Plays .idle []
  | first {trace : List Action} (chunk : Chunk) (h : Plays .idle trace) : Plays (.watching false) (trace ++ [.yield chunk])
  | chunk {trace : List Action} {reported : Bool} (chunk : Chunk) (h : Plays (.watching reported) trace) :
      Plays (.watching reported) (trace ++ [.yield chunk])
  | playing {trace : List Action} {reported : Bool} (time duration : Int) (h : Plays (.watching reported) trace) :
      Plays (.watching true) (trace ++ [.timeline .playing time duration])
  | close {trace : List Action} {reported : Bool} (h : Plays (.watching reported) trace) :
      Plays (.closing reported) (trace ++ [.close])
  | late {trace : List Action} {reported : Bool} (time duration : Int) (h : Plays (.closing reported) trace) :
      Plays (.closing true) (trace ++ [.timeline .playing time duration])
  | stop {trace : List Action} (time duration : Int) (h : Plays (.closing true) trace) :
      Plays .stopped (trace ++ [.timeline .stopped time duration])
  | quit {trace : List Action} (h : Plays .idle trace) : Plays .quiet (trace ++ [.close])

def Action.isPlaying : Action → Bool
  | .timeline .playing _ _ => true
  | _ => false

def Action.isYield : Action → Bool
  | .yield _ => true
  | _ => false

/-- The protocol in one line: chunks and reports of playing, the close, late
reports of playing, the report of having stopped, with at least one of
playing; or only the close. -/
def Complete (trace : List Action) : Prop :=
  trace = [.close] ∨ ∃ before after time duration,
    trace = before ++ .close :: after ++ [.timeline .stopped time duration] ∧
    (∀ a ∈ before, a.isYield = true ∨ a.isPlaying = true) ∧ (∀ a ∈ after, a.isPlaying = true) ∧
    (before.any Action.isYield = true) ∧ (before ++ after).any Action.isPlaying = true

/-- What a trace of each mode is made of. -/
def Mode.Reads : Mode → List Action → Prop
  | idle, trace => trace = []
  | watching reported, trace =>
    (∀ a ∈ trace, a.isYield = true ∨ a.isPlaying = true) ∧ trace.any Action.isYield = true ∧
      trace.any Action.isPlaying = reported
  | closing reported, trace => ∃ before after, trace = before ++ .close :: after ∧
      (∀ a ∈ before, a.isYield = true ∨ a.isPlaying = true) ∧ (∀ a ∈ after, a.isPlaying = true) ∧
      before.any Action.isYield = true ∧ (before ++ after).any Action.isPlaying = reported
  | stopped, trace | quiet, trace => Complete trace

theorem Plays.reads {m : Mode} {trace : List Action} (h : Plays m trace) : m.Reads trace := by
  induction h with
  | idle => rfl
  | first chunk h ih =>
    subst ih
    simp [Mode.Reads, Action.isYield, Action.isPlaying]
  | chunk chunk h ih =>
    obtain ⟨hall, hyield, hplaying⟩ := ih
    refine ⟨?_, by simp [hyield], by simp [hplaying, Action.isPlaying]⟩
    simpa [or_imp, forall_and, Action.isYield] using hall
  | playing time duration h ih =>
    obtain ⟨hall, hyield, -⟩ := ih
    refine ⟨?_, by simp [hyield], by simp [Action.isPlaying]⟩
    simpa [or_imp, forall_and, Action.isPlaying] using hall
  | close h ih =>
    obtain ⟨hall, hyield, hplaying⟩ := ih
    exact ⟨_, [], rfl, hall, by simp, hyield, by simpa using hplaying⟩
  | late time duration h ih =>
    obtain ⟨before, after, rfl, hall, hafter, hyield, -⟩ := ih
    refine ⟨before, after ++ [.timeline .playing time duration], by simp, hall, ?_, hyield, by simp [Action.isPlaying]⟩
    simpa [or_imp, forall_and, Action.isPlaying] using hafter
  | stop time duration h ih =>
    obtain ⟨before, after, rfl, hall, hafter, hyield, hplaying⟩ := ih
    exact .inr ⟨before, after, time, duration, rfl, hall, hafter, hyield, hplaying⟩
  | quit h ih =>
    subst ih
    exact .inl rfl

/-! ## What a trace tells -/

def Action.chunk? : Action → Option Chunk
  | .yield chunk => some chunk
  | _ => none

def Action.time? : Action → Option Int
  | .timeline _ time _ => some time
  | _ => none

/-- The chunks passed on. -/
def chunks (trace : List Action) : List Chunk := trace.filterMap Action.chunk?

/-- The times reported. -/
def times (trace : List Action) : List Int := trace.filterMap Action.time?

/-- The bytes the upstream gives until it ends or fails. -/
def body : List Read → List UInt8
  | .chunk chunk :: rest => chunk.1 ++ body rest
  | _ => []

@[simp] theorem chunks_append (s t : List Action) : chunks (s ++ t) = chunks s ++ chunks t := List.filterMap_append

@[simp] theorem times_append (s t : List Action) : times (s ++ t) = times s ++ times t := List.filterMap_append

@[simp] theorem chunks_timeline (p : Playback) (state : TimelineState) (t : Int) : chunks [timeline p state t] = [] := rfl

@[simp] theorem times_timeline (p : Playback) (state : TimelineState) (t : Int) : times [timeline p state t] = [max t 0] := rfl

@[simp] theorem chunks_close : chunks [.close] = [] := rfl

@[simp] theorem times_close : times [.close] = [] := rfl

@[simp] theorem chunks_yield (chunk : Chunk) : chunks [.yield chunk] = [chunk] := rfl

@[simp] theorem times_yield (chunk : Chunk) : times [.yield chunk] = [] := rfl

theorem body_append (cs : List Chunk) (rest : List Read) :
    body (cs.map Read.chunk ++ rest) = (cs.map Subtype.val).flatten ++ body rest := by
  induction cs with
  | nil => rfl
  | cons c cs ih => simp only [List.map_cons, List.cons_append, body, ih, List.flatten_cons, List.append_assoc]

/-! ## Positions -/

theorem truncate_mono {q r : ℚ} (h : q ≤ r) : truncate q ≤ truncate r := by
  simp only [truncate]
  split <;> split
  · exact Int.floor_le_floor h
  · linarith
  · next hq hr => exact (Int.ceil_le.mpr (by push_cast; linarith)).trans (Int.floor_nonneg.mpr hr)
  · exact Int.ceil_le_ceil h

theorem truncate_nonneg {q : ℚ} (h : 0 ≤ q) : 0 ≤ truncate q := by
  rw [truncate, if_pos h]
  exact Int.floor_nonneg.mpr h

/-- A size that is unknown, or not exceeded by the offset; a duration that is no debt. -/
structure Playback.Valid (p : Playback) : Prop where
  unknown : p.total = none → p.start = 0
  known : ∀ total ∈ p.total, 0 ≤ p.start ∧ p.start ≤ total
  duration : 0 ≤ p.durationMs

section Position
variable {p : Playback} {startedAt now later : ℚ}

theorem positionMs_mono (h : now ≤ later) : positionMs p startedAt now ≤ positionMs p startedAt later := by
  simp only [positionMs]
  split
  · exact le_rfl
  · refine min_le_min (truncate_mono ?_) le_rfl
    gcongr

theorem positionMs_le (hp : p.Valid) : positionMs p startedAt now ≤ p.durationMs := by
  simp only [positionMs]
  split
  · exact hp.duration
  · exact min_le_right _ _

theorem positionMs_nonneg (hp : p.Valid) : 0 ≤ positionMs p startedAt now := by
  simp only [positionMs]
  split
  · exact le_rfl
  refine le_min (truncate_nonneg (add_nonneg ?_ (mul_nonneg (le_max_right _ _) (by norm_num)))) hp.duration
  have hduration : (0 : ℚ) ≤ p.durationMs := by exact_mod_cast hp.duration
  cases ht : p.total with
  | none => simp
  | some total =>
    have hstart := hp.known total ht
    have h0 : (0 : ℚ) ≤ p.start := by exact_mod_cast hstart.1
    have h1 : (0 : ℚ) ≤ total := by exact_mod_cast hstart.1.trans hstart.2
    simp only
    split
    · exact_mod_cast truncate_nonneg (mul_nonneg (div_nonneg h0 h1) hduration)
    · simp

end Position

/-! ## The invariant -/

/-- Whether the generator has left its loop, and why. -/
def Streamer.ending : Streamer → Option Ending
  | reading | yielded => none
  | joining ending | reporting ending | finished ending => some ending

/-- How far the protocol has come, by where the tasks wait. -/
def PlaybackState.mode (s : PlaybackState) : Option Mode :=
  match s.streamer, s.heartbeat with
  | .reading, none => some .idle
  | .reading, some h | .yielded, some h => some (.watching (h.beat ≠ .created))
  | .joining _, some h => some (.closing (h.beat ≠ .created))
  | .reporting _, some ⟨_, .returned⟩ | .finished _, some ⟨_, .returned⟩ => some .stopped
  | .finished _, none => some .quiet
  | _, _ => none

/-- The chunks are those before the end of the reads, or the first of them. -/
def HeardUntil (outcomes : List Read) (cs : List Chunk) : Ending → Prop
  | .eof => ∃ rest, outcomes = cs.map .chunk ++ .eof :: rest
  | _ => ∃ rest, outcomes = cs.map .chunk ++ rest

/-- What has been read of the upstream has been passed on. -/
def Heard (outcomes : List Read) (s : PlaybackState) : Prop :=
  match s.streamer.ending with
  | none => outcomes = (chunks s.trace).map .chunk ++ s.upstream
  | some ending => HeardUntil outcomes (chunks s.trace) ending

/-- Reports do not go back, and none is ahead of the clock. -/
def Timed (p : Playback) (clock : ℚ) (s : PlaybackState) : Prop :=
  match s.heartbeat with
  | none => times s.trace = []
  | some h => h.startedAt ≤ clock ∧ (times s.trace).Pairwise (· ≤ ·) ∧
      (∀ t ∈ times s.trace, 0 ≤ t ∧ t ≤ positionMs p h.startedAt clock) ∧ (h.beat = .created → times s.trace = [])

/-- What holds after every step; `clock` is the last step's time. -/
structure PlaybackInv (p : Playback) (outcomes : List Read) (clock : ℚ) (s : PlaybackState) : Prop where
  plays : ∃ m, s.mode = some m ∧ Plays m s.trace
  stopped : s.stopped = s.streamer.ending.isSome
  heard : Heard outcomes s
  timed : Timed p clock s

section Inv
variable {p : Playback} {outcomes : List Read} {clock now : ℚ} {s : PlaybackState}

/-- One more report, at a time not before the clock. -/
theorem Timed.report (h : Timed p clock s) (hp : p.Valid) (hnow : clock ≤ now) {hb : Heartbeat} (hhb : s.heartbeat = some hb)
    {at_ : ℚ} (hat : at_ ≤ now) (hlate : hb.beat ≠ .created → clock ≤ at_) (state : TimelineState) (beat : Beat)
    (hbeat : beat ≠ .created) {s' : PlaybackState} (hs' : s'.heartbeat = some { hb with beat })
    (htrace : s'.trace = s.trace ++ [timeline p state (positionMs p hb.startedAt at_)]) : Timed p now s' := by
  simp only [Timed, hhb] at h
  obtain ⟨hstart, hsorted, hbound, hnone⟩ := h
  have hmax : max (positionMs p hb.startedAt at_) 0 = positionMs p hb.startedAt at_ := max_eq_left (positionMs_nonneg hp)
  simp only [Timed, hs', htrace, times_append, times_timeline, hmax]
  refine ⟨hstart.trans hnow, ?_, ?_, fun hc => absurd hc hbeat⟩
  · rw [List.pairwise_append]
    refine ⟨hsorted, List.pairwise_singleton _ _, fun t ht u hu => ?_⟩
    rw [List.mem_singleton.mp hu]
    by_cases hc : hb.beat = .created
    · rw [hnone hc] at ht; cases ht
    · exact (hbound t ht).2.trans (positionMs_mono (hlate hc))
  · intro t ht
    rcases List.mem_append.mp ht with ht | ht
    · exact ⟨(hbound t ht).1, (hbound t ht).2.trans (positionMs_mono hnow)⟩
    · rw [List.mem_singleton.mp ht]
      exact ⟨positionMs_nonneg hp, positionMs_mono hat⟩

/-- The clock goes on. -/
theorem Timed.later (h : Timed p clock s) (hnow : clock ≤ now) : Timed p now s := by
  simp only [Timed] at h ⊢
  cases hhb : s.heartbeat with
  | none => rw [hhb] at h; exact h
  | some hb =>
    rw [hhb] at h
    exact ⟨h.1.trans hnow, h.2.1, fun t ht => ⟨(h.2.2.1 t ht).1, (h.2.2.1 t ht).2.trans (positionMs_mono hnow)⟩, h.2.2.2⟩

theorem PlaybackInv.later (h : PlaybackInv p outcomes clock s) (hnow : clock ≤ now) : PlaybackInv p outcomes now s :=
  { h with timed := h.timed.later hnow }

/-! ## Steps -/

/-- While the heartbeat is out, the generator streams or waits for it. -/
theorem mode_of_beat {hb : Heartbeat} (hhb : s.heartbeat = some hb) (hbeat : hb.beat ≠ .returned) {m : Mode} (hm : s.mode = some m) :
    (s.streamer.ending = none ∧ m = .watching (hb.beat ≠ .created)) ∨
      ((∃ ending, s.streamer = .joining ending) ∧ m = .closing (hb.beat ≠ .created)) := by
  obtain ⟨startedAt, beat⟩ := hb
  simp only [PlaybackState.mode, hhb] at hm
  cases hs : s.streamer with
  | reading | yielded =>
    simp only [hs, Option.some.injEq] at hm
    exact .inl ⟨rfl, hm.symm⟩
  | joining ending =>
    simp only [hs, Option.some.injEq] at hm
    exact .inr ⟨⟨_, rfl⟩, hm.symm⟩
  | reporting ending | finished ending =>
    cases beat with
    | returned => exact absurd rfl hbeat
    | created | requesting | sleeping => simp [hs] at hm

theorem yieldChunk_inv (h : PlaybackInv p outcomes now s) (hs : s.streamer = .reading) {chunk : Chunk} {rest : List Read}
    (hup : s.upstream = .chunk chunk :: rest) : PlaybackInv p outcomes now (yieldChunk now chunk { s with upstream := rest }) where
  plays := by
    obtain ⟨m, hm, hplays⟩ := h.plays
    simp only [PlaybackState.mode, hs] at hm
    cases hhb : s.heartbeat with
    | none =>
      simp only [hhb, Option.some.injEq] at hm
      subst hm
      exact ⟨_, by simp [yieldChunk, PlaybackState.mode], .first chunk hplays⟩
    | some hb =>
      simp only [hhb, Option.some.injEq] at hm
      subst hm
      exact ⟨_, by simp [yieldChunk, PlaybackState.mode], .chunk chunk hplays⟩
  stopped := by rw [yieldChunk, h.stopped, hs]; rfl
  heard := by
    have heard := h.heard
    simp only [Heard, hs, Streamer.ending, hup] at heard
    simp [Heard, yieldChunk, Streamer.ending, heard]
  timed := by
    have timed := h.timed
    cases hhb : s.heartbeat with
    | none =>
      simp only [Timed, hhb] at timed
      simp [Timed, yieldChunk, timed]
    | some hb =>
      simp only [Timed, hhb] at timed
      simpa [Timed, yieldChunk, hhb] using timed

theorem leave_inv (h : PlaybackInv p outcomes now s) (hs : s.streamer.ending = none) (ending : Ending) (rest : List Read)
    (hheard : HeardUntil outcomes (chunks s.trace) ending) :
    PlaybackInv p outcomes now (leave p now ending { s with upstream := rest }) := by
  obtain ⟨m, hm, hplays⟩ := h.plays
  have timed := h.timed
  cases hhb : s.heartbeat with
  | none =>
    -- Nothing was played: the clean-up ends at once.
    have hidle : m = .idle := by
      simp only [PlaybackState.mode, hhb] at hm
      cases hstreamer : s.streamer with
      | reading => simpa [hstreamer] using hm.symm
      | yielded => simp [hstreamer] at hm
      | joining | reporting | finished => simp [hstreamer, Streamer.ending] at hs
    subst hidle
    simp only [Timed, hhb] at timed
    refine ⟨⟨.quiet, ?_, ?_⟩, ?_, ?_, ?_⟩
    · simp [leave, reportStopped, PlaybackState.mode]
    · simpa [leave, reportStopped, hhb] using hplays.quit
    · simp [leave, reportStopped, Streamer.ending]
    · simpa [leave, reportStopped, hhb, Heard, Streamer.ending] using hheard
    · simp [leave, reportStopped, Timed, timed]
  | some hb =>
    have hwatching : m = .watching (hb.beat ≠ .created) := by
      simp only [PlaybackState.mode, hhb] at hm
      cases hstreamer : s.streamer with
      | reading | yielded => simpa [hstreamer] using hm.symm
      | joining | reporting | finished => simp [hstreamer, Streamer.ending] at hs
    subst hwatching
    simp only [Timed, hhb] at timed
    refine ⟨⟨.closing (hb.beat ≠ .created), ?_, ?_⟩, ?_, ?_, ?_⟩
    · simp [leave, PlaybackState.mode]
    · simpa [leave, hhb] using hplays.close
    · simp [leave, Streamer.ending]
    · simpa [leave, hhb, Heard, Streamer.ending] using hheard
    · simpa [leave, hhb, Timed] using timed

/-- A report of playing at `at_`: the start for the first, the clock for the next. -/
theorem reportPlaying_inv (h : PlaybackInv p outcomes clock s) (hp : p.Valid) (hnow : clock ≤ now) {hb : Heartbeat}
    (hhb : s.heartbeat = some hb) (hbeat : hb.beat = .created ∨ hb.beat = .sleeping) {at_ : ℚ} (hat : at_ ≤ now)
    (hlate : hb.beat ≠ .created → clock ≤ at_) : PlaybackInv p outcomes now (reportPlaying p at_ hb s) where
  plays := by
    obtain ⟨m, hm, hplays⟩ := h.plays
    have hnot : hb.beat ≠ .returned := by rcases hbeat with hb | hb <;> simp [hb]
    rcases mode_of_beat hhb hnot hm with ⟨hs, rfl⟩ | ⟨⟨ending, hs⟩, rfl⟩
    · refine ⟨.watching true, ?_, .playing _ _ hplays⟩
      cases hstreamer : s.streamer with
      | reading | yielded => simp [reportPlaying, PlaybackState.mode, hstreamer]
      | joining | reporting | finished => simp [hstreamer, Streamer.ending] at hs
    · exact ⟨.closing true, by simp [reportPlaying, PlaybackState.mode, hs], .late _ _ hplays⟩
  stopped := h.stopped
  heard := by
    have heard := h.heard
    simpa [Heard, reportPlaying] using heard
  timed := h.timed.report hp hnow hhb hat hlate .playing .requesting (by simp) rfl rfl

theorem reportStopped_inv (h : PlaybackInv p outcomes clock s) (hp : p.Valid) (hnow : clock ≤ now) {ending : Ending}
    (hs : s.streamer = .joining ending) {startedAt : ℚ} (hhb : s.heartbeat = some ⟨startedAt, .returned⟩) :
    PlaybackInv p outcomes now (reportStopped p now ending s) where
  plays := by
    obtain ⟨m, hm, hplays⟩ := h.plays
    simp only [PlaybackState.mode, hs, hhb, Option.some.injEq] at hm
    subst hm
    exact ⟨.stopped, by simp [reportStopped, hhb, PlaybackState.mode], by
      simp only [reportStopped, hhb]
      exact .stop _ _ hplays⟩
  stopped := by
    have hstopped := h.stopped
    simpa [reportStopped, hhb, hs, Streamer.ending] using hstopped
  heard := by
    have heard := h.heard
    simpa [Heard, reportStopped, hhb, hs, Streamer.ending] using heard
  timed := h.timed.report hp hnow hhb le_rfl (fun _ => hnow) .stopped .returned (by simp)
    (by simp [reportStopped, hhb]) (by simp [reportStopped, hhb])

/-- The heartbeat goes from one wait to another. -/
theorem beat_inv (h : PlaybackInv p outcomes now s) {startedAt : ℚ} {beat beat' : Beat}
    (hhb : s.heartbeat = some ⟨startedAt, beat⟩) (hout : beat ≠ .created ∧ beat ≠ .returned) (hbeat' : beat' ≠ .created) :
    PlaybackInv p outcomes now { s with heartbeat := some ⟨startedAt, beat'⟩ } where
  plays := by
    obtain ⟨m, hm, hplays⟩ := h.plays
    rcases mode_of_beat hhb hout.2 hm with ⟨hs, rfl⟩ | ⟨⟨ending, hs⟩, rfl⟩
    · refine ⟨_, ?_, hplays⟩
      cases hstreamer : s.streamer with
      | reading | yielded => simp [PlaybackState.mode, hout.1, hbeat']
      | joining | reporting | finished => simp [hstreamer, Streamer.ending] at hs
    · exact ⟨_, by simp [PlaybackState.mode, hs, hout.1, hbeat'], hplays⟩
  stopped := h.stopped
  heard := h.heard
  timed := by
    have timed := h.timed
    simp only [Timed, hhb] at timed ⊢
    exact ⟨timed.1, timed.2.1, timed.2.2.1, fun hc => absurd hc hbeat'⟩

/-- **The step lemma.** -/
theorem PlaybackInv.step (h : PlaybackInv p outcomes clock s) (hp : p.Valid) {e : PlaybackEvent} (hnow : clock ≤ e.now) :
    PlaybackInv p outcomes e.now (playbackStep p s e) := by
  have h' := h.later hnow
  have heard := h.heard
  cases he : e.step with
  | read =>
    simp only [playbackStep, he]
    cases hs : s.streamer with
    | reading =>
      have hending : s.streamer.ending = none := by rw [hs]; rfl
      simp only [Heard, hending] at heard
      cases hup : s.upstream with
      | nil => exact h'
      | cons outcome rest =>
        rw [hup] at heard
        cases outcome with
        | chunk chunk => exact yieldChunk_inv h' hs hup
        | eof => exact leave_inv h' hending .eof rest ⟨rest, heard⟩
        | failed => exact leave_inv h' hending .failed rest ⟨_, heard⟩
    | yielded | joining | reporting | finished => exact h'
  | cancel =>
    simp only [playbackStep, he]
    split
    · next hs =>
      have hending : s.streamer.ending = none := by rw [hs]; rfl
      simp only [Heard, hending] at heard
      exact leave_inv h' hending .cancelled s.upstream ⟨_, heard⟩
    · exact h'
  | next =>
    simp only [playbackStep, he]
    split
    · next hs =>
      obtain ⟨m, hm, hplays⟩ := h'.plays
      have hstopped := h'.stopped
      rw [hs] at hstopped
      simp only [Heard, hs, Streamer.ending] at heard
      refine ⟨⟨m, ?_, hplays⟩, hstopped, heard, h'.timed⟩
      simp only [PlaybackState.mode, hs] at hm
      cases hhb : s.heartbeat with
      | none => simp [hhb] at hm
      | some hb => simpa [PlaybackState.mode, hhb] using hm
    · exact h'
  | aclose =>
    simp only [playbackStep, he]
    split
    · next hs =>
      have hending : s.streamer.ending = none := by rw [hs]; rfl
      simp only [Heard, hending] at heard
      exact leave_inv h' hending .closed s.upstream ⟨_, heard⟩
    · exact h'
  | joined =>
    simp only [playbackStep, he]
    split
    · next hs hhb => exact reportStopped_inv h hp hnow hs hhb
    · exact h'
  | answered ok =>
    simp only [playbackStep, he]
    split
    · next ending hs =>
      obtain ⟨m, hm, hplays⟩ := h'.plays
      have hstopped := h'.stopped
      rw [hs] at hstopped
      simp only [Heard, hs, Streamer.ending] at heard
      refine ⟨⟨m, ?_, hplays⟩, hstopped, heard, h'.timed⟩
      simp only [PlaybackState.mode, hs] at hm
      match hhb : s.heartbeat with
      | some ⟨startedAt, .returned⟩ => simpa [PlaybackState.mode, hhb] using hm
      | some ⟨startedAt, .created⟩ | some ⟨startedAt, .requesting⟩ | some ⟨startedAt, .sleeping⟩ | none => simp [hhb] at hm
    · exact h'
  | beatStarts =>
    simp only [playbackStep, he]
    split
    · next startedAt hhb =>
      have timed := h'.timed
      simp only [Timed, hhb] at timed
      exact reportPlaying_inv h' hp le_rfl hhb (.inl rfl) timed.1 fun hc => absurd rfl hc
    · exact h'
  | beatAnswered ok =>
    simp only [playbackStep, he]
    split
    · next startedAt hhb => exact beat_inv h' hhb (by simp) (by split <;> simp)
    · exact h'
  | beatTimesOut =>
    simp only [playbackStep, he]
    split
    · next startedAt hhb => exact reportPlaying_inv h' hp le_rfl hhb (.inr rfl) le_rfl fun _ => le_rfl
    · exact h'
  | beatWakes =>
    simp only [playbackStep, he]
    split
    · next startedAt hhb _ => exact beat_inv h' hhb (by simp) (by simp)
    · exact h'

theorem PlaybackInv.start (p : Playback) (outcomes : List Read) (clock : ℚ) :
    PlaybackInv p outcomes clock (playbackStart outcomes) :=
  ⟨⟨.idle, rfl, .idle⟩, rfl, rfl, rfl⟩

/-- **The run lemma.** -/
theorem PlaybackInv.run (h : PlaybackInv p outcomes clock s) (hp : p.Valid) {events : List PlaybackEvent}
    (hclock : (events.map (·.now)).Pairwise (· ≤ ·)) (hfrom : ∀ e ∈ events, clock ≤ e.now) (hnow : clock ≤ now)
    (hlast : ∀ e ∈ events, e.now ≤ now) : PlaybackInv p outcomes now (playbackRun p s events) := by
  induction events generalizing s clock with
  | nil => exact h.later hnow
  | cons e events ih =>
    obtain ⟨hfirst, hrest⟩ := List.pairwise_cons.mp hclock
    exact ih (h.step hp (hfrom e (by simp))) hrest (fun e' he' => hfirst _ (List.mem_map_of_mem he')) (hlast e (by simp))
      fun e' he' => hlast e' (List.mem_cons_of_mem e he')

/-! ## The clean-up ends -/

def Beat.rank : Beat → Nat
  | created | sleeping => 2
  | requesting => 1
  | returned => 0

def Streamer.rank : Streamer → Nat
  | joining _ => 2
  | reporting _ => 1
  | reading | yielded | finished _ => 0

/-- The steps a clean-up has before it, at most. -/
def PlaybackState.rank (s : PlaybackState) : Nat := s.streamer.rank + (s.heartbeat.elim 0 fun h => h.beat.rank)

theorem PlaybackState.rank_le (s : PlaybackState) : s.rank ≤ 4 := by
  have hstreamer : s.streamer.rank ≤ 2 := by cases s.streamer <;> simp [Streamer.rank]
  have hbeat : (s.heartbeat.elim 0 fun h => h.beat.rank) ≤ 2 := by
    cases s.heartbeat with
    | none => simp
    | some h => cases hb : h.beat <;> simp [hb, Beat.rank]
  rw [rank]
  omega

/-- **Every step of a clean-up brings its end nearer**, or changes nothing. -/
theorem rank_step (h : PlaybackInv p outcomes clock s) {ending : Ending} (hs : s.streamer.ending = some ending)
    (e : PlaybackEvent) : playbackStep p s e = s ∨
      ((playbackStep p s e).rank < s.rank ∧ (playbackStep p s e).streamer.ending = some ending) := by
  have hstopped : s.stopped = true := by rw [h.stopped, hs]; rfl
  have hloop : s.streamer ≠ .reading ∧ s.streamer ≠ .yielded := by
    constructor <;> intro he <;> rw [he] at hs <;> cases hs
  cases he : e.step with
  | read =>
    refine .inl ?_
    cases hstreamer : s.streamer with
    | reading => exact absurd hstreamer hloop.1
    | yielded | joining | reporting | finished => simp [playbackStep, he, hstreamer]
  | cancel => exact .inl (by simp [playbackStep, he, hloop.1])
  | next => exact .inl (by simp [playbackStep, he, hloop.2])
  | aclose => exact .inl (by simp [playbackStep, he, hloop.2])
  | joined =>
    simp only [playbackStep, he]
    split
    · next ending' hstreamer hhb =>
      rw [hstreamer] at hs
      cases hs
      exact .inr ⟨by simp [reportStopped, hhb, PlaybackState.rank, hstreamer, Streamer.rank], by
        simp [reportStopped, hhb, Streamer.ending]⟩
    · exact .inl rfl
  | answered ok =>
    simp only [playbackStep, he]
    split
    · next ending' hstreamer =>
      rw [hstreamer] at hs
      cases hs
      exact .inr ⟨by simp [PlaybackState.rank, hstreamer, Streamer.rank], rfl⟩
    · exact .inl rfl
  | beatStarts =>
    simp only [playbackStep, he]
    split
    · next hhb => exact .inr ⟨by simp [reportPlaying, PlaybackState.rank, hhb, Beat.rank], hs⟩
    · exact .inl rfl
  | beatAnswered ok =>
    simp only [playbackStep, he]
    split
    · next hhb => exact .inr ⟨by simp [PlaybackState.rank, hhb, hstopped, Beat.rank], hs⟩
    · exact .inl rfl
  | beatTimesOut =>
    simp only [playbackStep, he]
    split
    · next hhb => exact .inr ⟨by simp [reportPlaying, PlaybackState.rank, hhb, Beat.rank], hs⟩
    · exact .inl rfl
  | beatWakes =>
    simp only [playbackStep, he]
    split
    · next hhb _ => exact .inr ⟨by simp [PlaybackState.rank, hhb, Beat.rank], hs⟩
    · exact .inl rfl

/-- **A clean-up is never stuck**: some step changes something, whatever the clock says. -/
theorem exists_step (h : PlaybackInv p outcomes clock s) {ending : Ending} (hs : s.streamer.ending = some ending)
    (hnot : s.streamer ≠ .finished ending) : ∃ step, ∀ now, playbackStep p s ⟨now, step⟩ ≠ s := by
  have hstopped : s.stopped = true := by rw [h.stopped, hs]; rfl
  obtain ⟨m, hm, -⟩ := h.plays
  have hrank : ∀ s' : PlaybackState, s'.rank ≠ s.rank → s' ≠ s := fun s' hne heq => hne (by rw [heq])
  cases hstreamer : s.streamer with
  | reading | yielded => rw [hstreamer] at hs; cases hs
  | finished ending' =>
    rw [hstreamer] at hs hnot
    cases hs
    exact absurd rfl hnot
  | reporting ending' =>
    refine ⟨.answered true, fun now => hrank _ ?_⟩
    simp [playbackStep, hstreamer, PlaybackState.rank, Streamer.rank]
  | joining ending' =>
    match hhb : s.heartbeat with
    | none => simp [PlaybackState.mode, hstreamer, hhb] at hm
    | some ⟨startedAt, .created⟩ =>
      refine ⟨.beatStarts, fun now => hrank _ ?_⟩
      simp [playbackStep, hhb, reportPlaying, PlaybackState.rank, Beat.rank]
    | some ⟨startedAt, .requesting⟩ =>
      refine ⟨.beatAnswered true, fun now => hrank _ ?_⟩
      simp [playbackStep, hhb, hstopped, PlaybackState.rank, Beat.rank]
    | some ⟨startedAt, .sleeping⟩ =>
      refine ⟨.beatWakes, fun now => hrank _ ?_⟩
      simp [playbackStep, hhb, hstopped, PlaybackState.rank, Beat.rank]
    | some ⟨startedAt, .returned⟩ =>
      refine ⟨.joined, fun now => hrank _ ?_⟩
      simp [playbackStep, hstreamer, hhb, reportStopped, PlaybackState.rank, Streamer.rank]

/-- From any point of a clean-up, steps that end it. -/
theorem cleanup_ends (hp : p.Valid) {ending : Ending} {n : Nat} (h : PlaybackInv p outcomes now s)
    (hs : s.streamer.ending = some ending) (hrank : s.rank ≤ n) :
    ∃ steps : List Step, steps.length ≤ n ∧
      (playbackRun p s (steps.map fun step => ⟨now, step⟩)).streamer = .finished ending := by
  induction n generalizing s with
  | zero =>
    refine ⟨[], le_rfl, ?_⟩
    by_contra hnot
    obtain ⟨step, hstep⟩ := exists_step h hs hnot
    rcases rank_step h hs ⟨now, step⟩ with he | ⟨hlt, -⟩
    · exact hstep now he
    · omega
  | succ n ih =>
    by_cases hnot : s.streamer = .finished ending
    · exact ⟨[], by simp, hnot⟩
    · obtain ⟨step, hstep⟩ := exists_step h hs hnot
      rcases rank_step h hs ⟨now, step⟩ with he | ⟨hlt, hending⟩
      · exact absurd he (hstep now)
      · obtain ⟨steps, hlength, hend⟩ := ih (h.step (e := ⟨now, step⟩) hp le_rfl) hending (by omega)
        exact ⟨step :: steps, by simpa using hlength, hend⟩

end Inv

/-! ## Playback -/

/-- The bytes the consumer got. -/
def played (trace : List Action) : List UInt8 := ((chunks trace).map Subtype.val).flatten

/-- What is asked of a playback, at any time. -/
structure PlaybackOk (p : Playback) (outcomes : List Read) (s : PlaybackState) : Prop where
  protocol : ∃ m, Plays m s.trace
  inOrder : played s.trace <+: body outcomes
  all : s.streamer.ending = some .eof → played s.trace = body outcomes
  silent : chunks s.trace = [] → times s.trace = []
  monotone : (times s.trace).Pairwise (· ≤ ·)
  within : ∀ t ∈ times s.trace, 0 ≤ t ∧ t ≤ p.durationMs
  complete : ∀ ending, s.streamer = .finished ending → Complete s.trace

section Playback
variable {p : Playback} {outcomes : List Read} {clock now : ℚ} {s : PlaybackState}

theorem chunks_ne_nil {trace : List Action} (h : trace.any Action.isYield = true) : chunks trace ≠ [] := by
  obtain ⟨a, ha, hyield⟩ := List.any_eq_true.mp h
  cases a with
  | yield chunk => exact List.ne_nil_of_mem (List.mem_filterMap.mpr ⟨_, ha, rfl⟩)
  | close | timeline => cases hyield

theorem Complete.silent {trace : List Action} (h : Complete trace) (hnone : chunks trace = []) : times trace = [] := by
  rcases h with rfl | ⟨before, after, time, duration, rfl, -, -, hyield, -⟩
  · rfl
  · refine absurd hnone ?_
    simp [chunks_ne_nil hyield]

/-- Nothing is reported of a playback without chunks. -/
theorem Mode.Reads.silent {m : Mode} {trace : List Action} (h : m.Reads trace) (hnone : chunks trace = []) : times trace = [] := by
  cases m with
  | idle => rw [show trace = [] from h]; rfl
  | watching reported => exact absurd hnone (chunks_ne_nil h.2.1)
  | closing reported =>
    obtain ⟨before, after, rfl, -, -, hyield, -⟩ := h
    refine absurd hnone ?_
    simp [chunks_ne_nil hyield]
  | stopped | quiet => exact Complete.silent h hnone

theorem PlaybackInv.ok (h : PlaybackInv p outcomes clock s) (hp : p.Valid) : PlaybackOk p outcomes s where
  protocol := by
    obtain ⟨m, -, hplays⟩ := h.plays
    exact ⟨m, hplays⟩
  inOrder := by
    have heard := h.heard
    have hpre : ∀ rest, outcomes = (chunks s.trace).map .chunk ++ rest → played s.trace <+: body outcomes := by
      intro rest hrest
      rw [hrest, body_append]
      exact List.prefix_append _ _
    simp only [Heard] at heard
    split at heard
    · exact hpre _ heard
    · next ending _ =>
      cases ending <;> obtain ⟨rest, hrest⟩ := heard <;> exact hpre _ hrest
  all heof := by
    have heard := h.heard
    simp only [Heard, heof] at heard
    obtain ⟨rest, hrest⟩ := heard
    simp [hrest, body_append, body, played]
  silent hnone := by
    obtain ⟨m, -, hplays⟩ := h.plays
    exact hplays.reads.silent hnone
  monotone := by
    have timed := h.timed
    simp only [Timed] at timed
    split at timed
    · rw [timed]; exact .nil
    · exact timed.2.1
  within t ht := by
    have timed := h.timed
    simp only [Timed] at timed
    split at timed
    · rw [timed] at ht; cases ht
    · exact ⟨(timed.2.2.1 t ht).1, (timed.2.2.1 t ht).2.trans (positionMs_le hp)⟩
  complete ending hs := by
    obtain ⟨m, hm, hplays⟩ := h.plays
    have hreads := hplays.reads
    simp only [PlaybackState.mode, hs] at hm
    match hhb : s.heartbeat with
    | none =>
      simp only [hhb, Option.some.injEq] at hm
      subst hm
      exact hreads
    | some ⟨startedAt, .returned⟩ =>
      simp only [hhb, Option.some.injEq] at hm
      subst hm
      exact hreads
    | some ⟨startedAt, .created⟩ | some ⟨startedAt, .requesting⟩ | some ⟨startedAt, .sleeping⟩ => simp [hhb] at hm

/-- A run has a last time. -/
theorem exists_last (events : List PlaybackEvent) : ∃ now, ∀ e ∈ events, e.now ≤ now := by
  induction events with
  | nil => exact ⟨0, by simp⟩
  | cons e events ih =>
    obtain ⟨now, hnow⟩ := ih
    exact ⟨max e.now now, List.forall_mem_cons.mpr ⟨le_max_left _ _, fun e' he' => (hnow e' he').trans (le_max_right _ _)⟩⟩

/-- **Playback keeps the protocol**, whatever the upstream does, wherever the
consumer leaves, however the two tasks' steps interleave and Plex answers, by
any clock that does not go back. A clean-up that has begun can always be
ended, within four steps. -/
theorem playback_protocol (hp : p.Valid) (outcomes : List Read) (events : List PlaybackEvent)
    (hclock : (events.map (·.now)).Pairwise (· ≤ ·)) :
    PlaybackOk p outcomes (playbackRun p (playbackStart outcomes) events) ∧
    ∀ ending now, (playbackRun p (playbackStart outcomes) events).streamer.ending = some ending → (∀ e ∈ events, e.now ≤ now) →
      ∃ steps : List Step, steps.length ≤ 4 ∧
        (playbackRun p (playbackStart outcomes) (events ++ steps.map fun step => ⟨now, step⟩)).streamer = .finished ending := by
  have hinv : ∀ now, (∀ e ∈ events, e.now ≤ now) → PlaybackInv p outcomes now (playbackRun p (playbackStart outcomes) events) := by
    intro now hlast
    cases events with
    | nil => exact .start p outcomes now
    | cons e events =>
      have hfrom : ∀ e' ∈ e :: events, e.now ≤ e'.now := by
        intro e' he'
        rcases List.mem_cons.mp he' with rfl | he'
        · exact le_rfl
        · exact (List.pairwise_cons.mp hclock).1 _ (List.mem_map_of_mem he')
      exact (PlaybackInv.start p outcomes e.now).run hp hclock hfrom (hlast e (by simp)) hlast
  constructor
  · obtain ⟨now, hnow⟩ := exists_last events
    exact (hinv now hnow).ok hp
  · intro ending now hs hlast
    obtain ⟨steps, hlength, hend⟩ := cleanup_ends hp (hinv now hlast) hs (PlaybackState.rank_le _)
    refine ⟨steps, hlength, ?_⟩
    rw [playbackRun, List.foldl_append]
    exact hend

/-! ## A playback -/

/-- The second half of a file of 1000 bytes, for a minute. -/
def halfPlayback : Playback := .ofHeaders .ascii (some "bytes 500-999/1000".toList) none 60000

theorem halfPlayback_valid : halfPlayback.Valid := ⟨by decide +kernel, by decide +kernel, by decide +kernel⟩

/-- Two chunks; the heartbeat reports twice, and once more when its wait ends with `stopped` set. -/
def halfEvents : List PlaybackEvent :=
  [⟨100, .read⟩, ⟨100, .beatStarts⟩, ⟨100, .next⟩, ⟨101, .beatAnswered true⟩, ⟨101, .read⟩, ⟨111, .beatTimesOut⟩,
    ⟨111, .beatAnswered false⟩, ⟨112, .next⟩, ⟨121, .read⟩, ⟨121, .beatTimesOut⟩, ⟨122, .beatAnswered true⟩, ⟨122, .joined⟩,
    ⟨123, .answered true⟩]

def halfOutcomes : List Read := [.chunk ⟨[1, 2], by simp⟩, .chunk ⟨[3], by simp⟩, .eof]

theorem playback_protocol_half :
    Complete (playbackRun halfPlayback (playbackStart halfOutcomes) halfEvents).trace ∧
      played (playbackRun halfPlayback (playbackStart halfOutcomes) halfEvents).trace = [1, 2, 3] := by
  obtain ⟨hok, -⟩ := playback_protocol halfPlayback_valid halfOutcomes halfEvents (by decide +kernel)
  exact ⟨hok.complete .eof (by decide +kernel), hok.all (by decide +kernel)⟩

/-- The file starts at half its minute. -/
example : times (playbackRun halfPlayback (playbackStart halfOutcomes) halfEvents).trace =
    [30000, 41000, 51000, 52000] := by decide +kernel

end Playback

end Plexio
