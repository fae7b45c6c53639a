/-
Playback through the proxy (`plex/playback.py`): the generator that passes
the upstream's chunks on, and the heartbeat task beside it that reports the
position to Plex. They share an event, `stopped`. A step is what one of them
does between two awaits; which comes next, what the upstream and Plex answer,
when the consumer leaves and what the clock says are the environment's.
-/
import Mathlib.Algebra.Order.Floor.Ring
import Mathlib.Data.Rat.Floor
import Plexio.Runtime

namespace Plexio

open Py

/-! ## Positions -/

/-- What a playback is reported with. -/
structure Playback where
  total : Option Int
  start : Int
  durationMs : Int

/-- `int(q)`, which rounds towards zero. -/
def truncate (q : ℚ) : Int := if 0 ≤ q then ⌊q⌋ else ⌈q⌉

/-- The full size and the offset the response's headers tell. -/
def totalAndStart (U : Unicode) (contentRange contentLength : Option Str) : Option Int × Int :=
  let fromLength : Option Int × Int :=
    match contentLength with
    | none => (none, 0)
    | some s =>
      match parseInt U.decimal s with
      | none => (none, 0)
      | some length => (if length ≠ 0 then some length else none, 0)
  match contentRange with
  | none => fromLength
  | some cr =>
    if '/' ∉ cr then fromLength
    else
      match partition [' '] cr with
      | (_, [], _) => fromLength
      | (_, _, range) =>
        match split '/' range with
        | [rng, total] =>
          match parseInt U.decimal total, parseInt U.decimal ((split '-' rng).headD []) with
          | some total, some start => (some total, start)
          | _, _ => fromLength
        | _ => fromLength

/-- The playback of a response with these headers. -/
def Playback.ofHeaders (U : Unicode) (contentRange contentLength : Option Str) (durationMs : Int) : Playback :=
  let (total, start) := totalAndStart U contentRange contentLength
  { total, start, durationMs }

def positionMs (p : Playback) (startedAt now : ℚ) : Int :=
  if p.durationMs = 0 then 0
  else
    let initial : Int :=
      match p.total with
      | some total => if total ≠ 0 then truncate (p.start / total * p.durationMs) else 0
      | none => 0
    let elapsed := max (now - startedAt) 0 * 1000
    min (truncate (initial + elapsed)) p.durationMs

/-! ## The two tasks -/

/-- What the upstream sends at once. -/
abbrev Chunk := { bytes : List UInt8 // bytes ≠ [] }

/-- How a read of the upstream ends; a time-out is a failure. -/
inductive Read
  | chunk (bytes : Chunk)
  | eof
  | failed

inductive TimelineState
  | playing
  | stopped
  deriving DecidableEq

/-- What is seen outside: by the consumer, by the upstream, by Plex. -/
inductive Action
  | yield (chunk : Chunk)
  | close
  | timeline (state : TimelineState) (time duration : Int)

/-- Why the generator left its loop. -/
inductive Ending
  | eof
  | failed
  | cancelled
  | closed
  deriving DecidableEq

/-- Where the generator waits. -/
inductive Streamer
  | reading
  | yielded
  /-- For the heartbeat to return. -/
  | joining (ending : Ending)
  /-- For Plex to answer that playback has stopped. -/
  | reporting (ending : Ending)
  | finished (ending : Ending)
  deriving DecidableEq

/-- Where the heartbeat waits. -/
inductive Beat
  | created
  /-- For Plex to answer. -/
  | requesting
  /-- For `stopped`, or the ping interval. -/
  | sleeping
  | returned
  deriving DecidableEq

/-- The heartbeat task, and the time it was created at. -/
structure Heartbeat where
  startedAt : ℚ
  beat : Beat

structure PlaybackState where
  /-- The outcomes of the reads to come. -/
  upstream : List Read
  streamer : Streamer
  heartbeat : Option Heartbeat
  stopped : Bool
  trace : List Action

inductive Step
  /-- The upstream answers a read. -/
  | read
  /-- The consumer is gone while the generator reads. -/
  | cancel
  /-- The consumer asks for the next chunk. -/
  | next
  /-- The consumer closes the generator at a yield. -/
  | aclose
  /-- The heartbeat has returned. -/
  | joined
  /-- Plex answers the last report, or does not. -/
  | answered (ok : Bool)
  | beatStarts
  /-- Plex answers the heartbeat's report, or does not. -/
  | beatAnswered (ok : Bool)
  | beatTimesOut
  | beatWakes

/-- A step, at a time. -/
structure PlaybackEvent where
  now : ℚ
  step : Step

section Tasks
variable (p : Playback)

/-- `_timeline` -/
def timeline (state : TimelineState) (timeMs : Int) : Action := .timeline state (max timeMs 0) (max p.durationMs 0)

/-- The last of the clean-up: a report, if anything was played. -/
def reportStopped (now : ℚ) (ending : Ending) (s : PlaybackState) : PlaybackState :=
  match s.heartbeat with
  | none => { s with streamer := .finished ending }
  | some h =>
    { s with streamer := .reporting ending
             trace := s.trace ++ [timeline p .stopped (positionMs p h.startedAt now)] }

/-- The generator's `finally`, up to its first await. -/
def leave (now : ℚ) (ending : Ending) (s : PlaybackState) : PlaybackState :=
  let s := { s with stopped := true, trace := s.trace ++ [Action.close] }
  match s.heartbeat with
  | some _ => { s with streamer := .joining ending }
  | none => reportStopped p now ending s

/-- A chunk is passed on; the first one starts the heartbeat. -/
def yieldChunk (now : ℚ) (chunk : Chunk) (s : PlaybackState) : PlaybackState :=
  { s with heartbeat := s.heartbeat <|> some ⟨now, .created⟩, streamer := .yielded, trace := s.trace ++ [Action.yield chunk] }

/-- A report of playing at `now`. -/
def reportPlaying (now : ℚ) (h : Heartbeat) (s : PlaybackState) : PlaybackState :=
  { s with heartbeat := some { h with beat := .requesting }
           trace := s.trace ++ [timeline p .playing (positionMs p h.startedAt now)] }

/-- What an event does; one that cannot happen does nothing. -/
def playbackStep (s : PlaybackState) (e : PlaybackEvent) : PlaybackState :=
  match e.step with
  | .read =>
    match s.streamer, s.upstream with
    | .reading, .chunk chunk :: rest => yieldChunk e.now chunk { s with upstream := rest }
    | .reading, .eof :: rest => leave p e.now .eof { s with upstream := rest }
    | .reading, .failed :: rest => leave p e.now .failed { s with upstream := rest }
    | _, _ => s
  | .cancel => if s.streamer = .reading then leave p e.now .cancelled s else s
  | .next => if s.streamer = .yielded then { s with streamer := .reading } else s
  | .aclose => if s.streamer = .yielded then leave p e.now .closed s else s
  | .joined =>
    match s.streamer, s.heartbeat with
    | .joining ending, some ⟨_, .returned⟩ => reportStopped p e.now ending s
    | _, _ => s
  | .answered _ =>
    match s.streamer with
    | .reporting ending => { s with streamer := .finished ending }
    | _ => s
  | .beatStarts =>
    match s.heartbeat with
    | some ⟨startedAt, .created⟩ => reportPlaying p startedAt ⟨startedAt, .created⟩ s
    | _ => s
  | .beatAnswered _ =>
    match s.heartbeat with
    | some ⟨startedAt, .requesting⟩ =>
      { s with heartbeat := some ⟨startedAt, if s.stopped then .returned else .sleeping⟩ }
    | _ => s
  | .beatTimesOut =>
    -- Also once `stopped` is set: the time-out may come first.
    match s.heartbeat with
    | some ⟨startedAt, .sleeping⟩ => reportPlaying p e.now ⟨startedAt, .sleeping⟩ s
    | _ => s
  | .beatWakes =>
    match s.heartbeat, s.stopped with
    | some ⟨startedAt, .sleeping⟩, true => { s with heartbeat := some ⟨startedAt, .returned⟩ }
    | _, _ => s

/-- The generator at its first read. -/
def playbackStart (outcomes : List Read) : PlaybackState where
  upstream := outcomes
  streamer := .reading
  heartbeat := none
  stopped := false
  trace := []

def playbackRun (s : PlaybackState) (events : List PlaybackEvent) : PlaybackState := events.foldl (playbackStep p) s

end Tasks

end Plexio
