/-
What leaves the generator of `proxy_playback` when a report cannot be made.
Neither the heartbeat nor the clean-up guards the position and the text of a
report; only its request is. An exception of the heartbeat ends its task, and
the clean-up, which awaits it, raises it again.

`Follows` says that the chunks do not depend on the reports: while reports can
be made, the machine goes the way of the one in `Playback`, whatever the times.
So `playback_undisturbed_iff` has one condition, `Reportable`.
-/
import Plexio.PlaybackFloats

namespace Plexio

open Py

/-! ## The tasks, with what they raise -/

structure ProxyState extends PlaybackState where
  /-- What the heartbeat's task has ended with. -/
  beatRaised : Option Exc
  /-- What leaves the generator, other than its reads' own error. -/
  raised : Option Exc

section Tasks
variable (p : Playback)

/-- A report of the heartbeat, which an exception ends. -/
def beatReports (startedAt now : ℚ) (s : ProxyState) : ProxyState :=
  match report p .playing startedAt now with
  | .ok action => { s with heartbeat := some ⟨startedAt, .requesting⟩, trace := s.trace ++ [action] }
  | .error e => { s with heartbeat := some ⟨startedAt, .returned⟩, beatRaised := some e }

/-- The clean-up after the heartbeat has ended: `await heartbeat` raises what it raised. -/
def streamerReports (ending : Ending) (startedAt now : ℚ) (s : ProxyState) : ProxyState :=
  match s.beatRaised with
  | some e => { s with streamer := .finished ending, raised := some e }
  | none =>
    match report p .stopped startedAt now with
    | .ok action => { s with streamer := .reporting ending, trace := s.trace ++ [action] }
    | .error e => { s with streamer := .finished ending, raised := some e }

/-- What an event does; all but the reports is as in `playbackStep`. -/
def proxyStep (s : ProxyState) (e : PlaybackEvent) : ProxyState :=
  match e.step with
  | .joined =>
    match s.streamer, s.heartbeat with
    | .joining ending, some ⟨startedAt, .returned⟩ => streamerReports p ending startedAt e.now s
    | _, _ => s
  | .beatStarts =>
    match s.heartbeat with
    | some ⟨startedAt, .created⟩ => beatReports p startedAt startedAt s
    | _ => s
  | .beatTimesOut =>
    match s.heartbeat with
    | some ⟨startedAt, .sleeping⟩ => beatReports p startedAt e.now s
    | _ => s
  | _ => { s with toPlaybackState := playbackStep p s.toPlaybackState e }

/-- The generator at its first read. -/
def proxyStart (outcomes : List Read) : ProxyState where
  toPlaybackState := playbackStart outcomes
  beatRaised := none
  raised := none

def proxyRun (s : ProxyState) (events : List PlaybackEvent) : ProxyState := events.foldl (proxyStep p) s

end Tasks

/-! ## Chunks do not depend on reports -/

/-- The same but for the times and the reports. -/
structure Follows (s t : PlaybackState) : Prop where
  upstream : s.upstream = t.upstream
  streamer : s.streamer = t.streamer
  beat : s.heartbeat.map (·.beat) = t.heartbeat.map (·.beat)
  stopped : s.stopped = t.stopped
  chunks : chunks s.trace = chunks t.trace

namespace Follows
variable {s t r : PlaybackState} {p q : Playback}

theorem refl (s : PlaybackState) : Follows s s := ⟨rfl, rfl, rfl, rfl, rfl⟩

theorem trans (h : Follows s t) (h' : Follows t r) : Follows s r :=
  ⟨h.upstream.trans h'.upstream, h.streamer.trans h'.streamer, h.beat.trans h'.beat, h.stopped.trans h'.stopped,
    h.chunks.trans h'.chunks⟩

/-- Both heartbeats are out, at the same place, or neither is. -/
theorem heartbeats (h : Follows s t) : (s.heartbeat = none ∧ t.heartbeat = none) ∨
    ∃ a b beat, s.heartbeat = some ⟨a, beat⟩ ∧ t.heartbeat = some ⟨b, beat⟩ := by
  have hbeat := h.beat
  cases hs : s.heartbeat with
  | none =>
    cases ht : t.heartbeat with
    | none => exact .inl ⟨rfl, rfl⟩
    | some b => simp [hs, ht] at hbeat
  | some a =>
    cases ht : t.heartbeat with
    | none => simp [hs, ht] at hbeat
    | some b =>
      obtain ⟨a, beat⟩ := a
      obtain ⟨b, beat'⟩ := b
      simp only [hs, ht, Option.map_some, Option.some.injEq] at hbeat
      subst hbeat
      exact .inr ⟨a, b, beat, rfl, rfl⟩

theorem leave (h : Follows s t) (now later : ℚ) (ending : Ending) :
    Follows (Plexio.leave p now ending s) (Plexio.leave q later ending t) := by
  rcases h.heartbeats with ⟨hs, ht⟩ | ⟨a, b, beat, hs, ht⟩
  · simp only [Plexio.leave, hs, ht, reportStopped]
    exact ⟨h.upstream, rfl, rfl, rfl, by simp [h.chunks]⟩
  · simp only [Plexio.leave, hs, ht]
    exact ⟨h.upstream, rfl, rfl, rfl, by simp [h.chunks]⟩

/-- With any playback and at any times, a step does the same to the chunks. -/
theorem step (h : Follows s t) {e e' : PlaybackEvent} (he : e.step = e'.step) :
    Follows (playbackStep p s e) (playbackStep q t e') := by
  have hheartbeats := h.heartbeats
  obtain ⟨now, step⟩ := e
  obtain ⟨later, step'⟩ := e'
  obtain rfl : step = step' := he
  cases step with
  | read =>
    simp only [playbackStep, h.streamer, h.upstream]
    cases t.streamer with
    | reading =>
      cases t.upstream with
      | nil => exact h
      | cons outcome rest =>
        have hrest : Follows { s with upstream := rest } { t with upstream := rest } := { h with upstream := rfl }
        cases outcome with
        | eof => exact hrest.leave now later .eof
        | failed => exact hrest.leave now later .failed
        | chunk chunk =>
          refine ⟨rfl, rfl, ?_, h.stopped, by simp [yieldChunk, h.chunks]⟩
          rcases hheartbeats with ⟨hs, ht⟩ | ⟨a, b, beat, hs, ht⟩ <;> simp [yieldChunk, hs, ht]
    | yielded | joining | reporting | finished => exact h
  | cancel =>
    simp only [playbackStep, h.streamer]
    split
    · exact h.leave now later .cancelled
    · exact h
  | next =>
    simp only [playbackStep, h.streamer]
    split
    · exact { h with streamer := rfl }
    · exact h
  | aclose =>
    simp only [playbackStep, h.streamer]
    split
    · exact h.leave now later .closed
    · exact h
  | joined =>
    simp only [playbackStep, h.streamer]
    rcases hheartbeats with ⟨hs, ht⟩ | ⟨a, b, beat, hs, ht⟩
    · simp only [hs, ht]
      cases t.streamer <;> exact h
    · simp only [hs, ht]
      cases t.streamer with
      | joining ending =>
        cases beat with
        | returned =>
          refine ⟨?_, ?_, ?_, ?_, ?_⟩ <;> simp [reportStopped, hs, ht, h.upstream, h.stopped, h.chunks]
        | created | requesting | sleeping => exact h
      | reading | yielded | reporting | finished => exact h
  | answered ok =>
    simp only [playbackStep, h.streamer]
    cases t.streamer with
    | reporting ending => exact { h with streamer := rfl }
    | reading | yielded | joining | finished => exact h
  | beatStarts =>
    rcases hheartbeats with ⟨hs, ht⟩ | ⟨a, b, beat, hs, ht⟩
    · simpa only [playbackStep, hs, ht] using h
    · simp only [playbackStep, hs, ht]
      cases beat with
      | created => exact ⟨h.upstream, h.streamer, rfl, h.stopped, by simp [reportPlaying, h.chunks]⟩
      | requesting | sleeping | returned => exact h
  | beatAnswered ok =>
    rcases hheartbeats with ⟨hs, ht⟩ | ⟨a, b, beat, hs, ht⟩
    · simpa only [playbackStep, hs, ht] using h
    · simp only [playbackStep, hs, ht]
      cases beat with
      | requesting => exact { h with beat := by simp [h.stopped] }
      | created | sleeping | returned => exact h
  | beatTimesOut =>
    rcases hheartbeats with ⟨hs, ht⟩ | ⟨a, b, beat, hs, ht⟩
    · simpa only [playbackStep, hs, ht] using h
    · simp only [playbackStep, hs, ht]
      cases beat with
      | sleeping => exact ⟨h.upstream, h.streamer, rfl, h.stopped, by simp [reportPlaying, h.chunks]⟩
      | created | requesting | returned => exact h
  | beatWakes =>
    rcases hheartbeats with ⟨hs, ht⟩ | ⟨a, b, beat, hs, ht⟩
    · simpa only [playbackStep, hs, ht] using h
    · simp only [playbackStep, hs, ht, h.stopped]
      cases beat with
      | sleeping =>
        cases t.stopped with
        | true => exact { h with beat := rfl, stopped := rfl }
        | false => exact h
      | created | requesting | returned => exact h

end Follows

/-! ## While reports can be made -/

/-- The protocol's machine, with nothing to report and a clock that stands still. -/
def still : Playback := ⟨none, 0, 0⟩

theorem still_valid : still.Valid where
  unknown _ := rfl
  known total h := by cases h
  duration := le_rfl

/-- Nothing has been raised, and all is as if there were no reports. -/
structure Calm (outcomes : List Read) (s : ProxyState) : Prop where
  beatRaised : s.beatRaised = none
  raised : s.raised = none
  clock : ∀ h ∈ s.heartbeat, OnClock h.startedAt
  follows : ∃ t, PlaybackInv still outcomes 0 t ∧ Follows s.toPlaybackState t

section Calm
variable {p : Playback} {outcomes : List Read} {s : ProxyState}

theorem report_ok (hp : p.Reportable) {startedAt now : ℚ} (hstart : OnClock startedAt) (hnow : OnClock now)
    (state : TimelineState) : ∃ time, report p state startedAt now = .ok (timeline p state time) := by
  obtain ⟨action, haction⟩ := (returns_report hstart hnow state).mpr hp
  obtain ⟨time, -, hwrite⟩ := Json.bind_ok.mp haction
  obtain ⟨_, -, hwrite⟩ := Json.bind_ok.mp hwrite
  obtain ⟨_, -, hwrite⟩ := Json.bind_ok.mp hwrite
  obtain rfl : timeline p state time = action := Except.ok.inj hwrite
  exact ⟨time, haction⟩

/-- A step that makes its report is the protocol's, but for the report. -/
theorem follows_proxyStep (hp : p.Reportable) (hs : Calm outcomes s) {e : PlaybackEvent} (he : OnClock e.now) :
    Follows (proxyStep p s e).toPlaybackState (playbackStep p s.toPlaybackState e) ∧
      (proxyStep p s e).beatRaised = none ∧ (proxyStep p s e).raised = none := by
  have hself : Follows s.toPlaybackState s.toPlaybackState ∧ s.beatRaised = none ∧ s.raised = none :=
    ⟨.refl _, hs.beatRaised, hs.raised⟩
  cases hstep : e.step with
  | read | cancel | next | aclose | answered | beatAnswered | beatWakes =>
    simp only [proxyStep, hstep]
    exact ⟨.refl _, hs.beatRaised, hs.raised⟩
  | joined =>
    cases hstreamer : s.streamer with
    | joining ending =>
      rcases hheartbeat : s.heartbeat with _ | ⟨startedAt, beat⟩
      · simp only [proxyStep, playbackStep, hstep, hstreamer, hheartbeat]
        exact hself
      · cases beat with
        | returned =>
          obtain ⟨time, htime⟩ := report_ok hp (hs.clock _ hheartbeat) he .stopped
          simp only [proxyStep, playbackStep, hstep, hstreamer, hheartbeat, streamerReports, hs.beatRaised, htime,
            reportStopped]
          exact ⟨⟨rfl, rfl, rfl, rfl, by simp⟩, trivial, hs.raised⟩
        | created | requesting | sleeping =>
          simp only [proxyStep, playbackStep, hstep, hstreamer, hheartbeat]
          exact hself
    | reading | yielded | reporting | finished =>
      simp only [proxyStep, playbackStep, hstep, hstreamer]
      exact hself
  | beatStarts =>
    rcases hheartbeat : s.heartbeat with _ | ⟨startedAt, beat⟩
    · simp only [proxyStep, playbackStep, hstep, hheartbeat]
      exact hself
    · cases beat with
      | created =>
        obtain ⟨time, htime⟩ := report_ok hp (hs.clock _ hheartbeat) (hs.clock _ hheartbeat) .playing
        simp only [proxyStep, playbackStep, hstep, hheartbeat, beatReports, htime, reportPlaying]
        exact ⟨⟨rfl, rfl, rfl, rfl, by simp⟩, hs.beatRaised, hs.raised⟩
      | requesting | sleeping | returned =>
        simp only [proxyStep, playbackStep, hstep, hheartbeat]
        exact hself
  | beatTimesOut =>
    rcases hheartbeat : s.heartbeat with _ | ⟨startedAt, beat⟩
    · simp only [proxyStep, playbackStep, hstep, hheartbeat]
      exact hself
    · cases beat with
      | sleeping =>
        obtain ⟨time, htime⟩ := report_ok hp (hs.clock _ hheartbeat) he .playing
        simp only [proxyStep, playbackStep, hstep, hheartbeat, beatReports, htime, reportPlaying]
        exact ⟨⟨rfl, rfl, rfl, rfl, by simp⟩, hs.beatRaised, hs.raised⟩
      | created | requesting | returned =>
        simp only [proxyStep, playbackStep, hstep, hheartbeat]
        exact hself

@[simp] theorem heartbeat_leave (now : ℚ) (ending : Ending) (s : PlaybackState) :
    (leave p now ending s).heartbeat = s.heartbeat := by
  cases h : s.heartbeat <;> simp [leave, reportStopped, h]

@[simp] theorem heartbeat_reportStopped (now : ℚ) (ending : Ending) (s : PlaybackState) :
    (reportStopped p now ending s).heartbeat = s.heartbeat := by
  cases h : s.heartbeat <;> simp [reportStopped, h]

/-- The heartbeat was created before, or is by this step. -/
theorem startedAt_playbackStep {s : PlaybackState} {e : PlaybackEvent} {h' : Heartbeat}
    (hh : (playbackStep p s e).heartbeat = some h') : h'.startedAt = e.now ∨ ∃ h, s.heartbeat = some h ∧ h'.startedAt = h.startedAt := by
  have hsame : s.heartbeat = some h' → h'.startedAt = e.now ∨ ∃ h, s.heartbeat = some h ∧ h'.startedAt = h.startedAt :=
    fun h => .inr ⟨h', h, rfl⟩
  have hbeat : ∀ {startedAt beat beat'}, s.heartbeat = some ⟨startedAt, beat⟩ → some ⟨startedAt, beat'⟩ = some h' →
      h'.startedAt = e.now ∨ ∃ h, s.heartbeat = some h ∧ h'.startedAt = h.startedAt := by
    intro startedAt beat beat' hs heq
    exact .inr ⟨_, hs, by rw [← Option.some.inj heq]⟩
  cases hstep : e.step with
  | read =>
    simp only [playbackStep, hstep] at hh
    split at hh
    · cases hs : s.heartbeat with
      | none =>
        simp only [yieldChunk, hs, Option.orElse_eq_orElse, Option.orElse_none, Option.some.injEq] at hh
        exact .inl (by rw [← hh])
      | some h =>
        simp only [yieldChunk, hs, Option.orElse_eq_orElse, Option.orElse_some, Option.some.injEq] at hh
        exact .inr ⟨h, rfl, by rw [← hh]⟩
    · exact hsame (by simpa using hh)
    · exact hsame (by simpa using hh)
    · exact hsame hh
  | cancel | aclose =>
    simp only [playbackStep, hstep] at hh
    split at hh
    · exact hsame (by simpa using hh)
    · exact hsame hh
  | next =>
    simp only [playbackStep, hstep] at hh
    split at hh <;> exact hsame hh
  | joined | answered =>
    simp only [playbackStep, hstep] at hh
    split at hh
    · exact hsame (by simpa using hh)
    · exact hsame hh
  | beatStarts | beatAnswered | beatTimesOut =>
    simp only [playbackStep, hstep] at hh
    split at hh
    · next hs => exact hbeat hs hh
    · exact hsame hh
  | beatWakes =>
    simp only [playbackStep, hstep] at hh
    split at hh
    · next hs _ => exact hbeat hs hh
    · exact hsame hh

/-- The heartbeat's time is one of the clock. -/
theorem clock_proxyStep (hs : ∀ h ∈ s.heartbeat, OnClock h.startedAt) {e : PlaybackEvent} (he : OnClock e.now) :
    ∀ h ∈ (proxyStep p s e).heartbeat, OnClock h.startedAt := by
  have hbeats : ∀ {startedAt beat now}, s.heartbeat = some ⟨startedAt, beat⟩ →
      ∀ h ∈ (beatReports p startedAt now s).heartbeat, OnClock h.startedAt := by
    intro startedAt beat now hheartbeat h hh
    have hold := hs _ hheartbeat
    unfold beatReports at hh
    split at hh
    · obtain rfl : ⟨startedAt, .requesting⟩ = h := Option.some.inj hh
      exact hold
    · obtain rfl : ⟨startedAt, .returned⟩ = h := Option.some.inj hh
      exact hold
  cases hstep : e.step with
  | read | cancel | next | aclose | answered | beatAnswered | beatWakes =>
    simp only [proxyStep, hstep]
    intro h hh
    rcases startedAt_playbackStep hh with hnow | ⟨old, hold, hsame⟩
    · exact hnow ▸ he
    · exact hsame ▸ hs old hold
  | joined =>
    simp only [proxyStep, hstep]
    split
    · unfold streamerReports
      split
      · exact hs
      split <;> exact hs
    · exact hs
  | beatStarts | beatTimesOut =>
    simp only [proxyStep, hstep]
    split
    · next hheartbeat => exact hbeats hheartbeat
    · exact hs

/-- **The step lemma.** -/
theorem Calm.step (h : Calm outcomes s) (hp : p.Reportable) {e : PlaybackEvent} (he : OnClock e.now) :
    Calm outcomes (proxyStep p s e) := by
  obtain ⟨hfollows, hbeatRaised, hraised⟩ := follows_proxyStep hp h he
  obtain ⟨t, ht, hst⟩ := h.follows
  exact ⟨hbeatRaised, hraised, clock_proxyStep h.clock he, playbackStep still t ⟨0, e.step⟩,
    ht.step (e := ⟨0, e.step⟩) still_valid le_rfl, hfollows.trans (hst.step rfl)⟩

theorem Calm.start (outcomes : List Read) : Calm outcomes (proxyStart outcomes) where
  beatRaised := rfl
  raised := rfl
  clock h hh := by cases hh
  follows := ⟨playbackStart outcomes, .start still outcomes 0, .refl _⟩

/-- **The run lemma.** -/
theorem Calm.run (h : Calm outcomes s) (hp : p.Reportable) {events : List PlaybackEvent} (hevents : ∀ e ∈ events, OnClock e.now) :
    Calm outcomes (proxyRun p s events) := by
  induction events generalizing s with
  | nil => exact h
  | cons e events ih =>
    rw [List.forall_mem_cons] at hevents
    exact ih (h.step hp hevents.1) hevents.2

/-! ## Undisturbed playback -/

/-- What is asked of the generator: it raises nothing of its own, passes on
what is read, all of it if the reads end, and it ends. -/
structure Undisturbed (p : Playback) (outcomes : List Read) (s : ProxyState) : Prop where
  raised : s.raised = none
  inOrder : ∃ rest, outcomes = (chunks s.trace).map .chunk ++ rest
  all : s.streamer.ending = some .eof → ∃ rest, outcomes = (chunks s.trace).map .chunk ++ .eof :: rest
  ends : ∀ ending now, s.streamer.ending = some ending → OnClock now → ∃ steps : List Step, steps.length ≤ 4 ∧
    (proxyRun p s (steps.map fun step => ⟨now, step⟩)).streamer = .finished ending ∧
      (proxyRun p s (steps.map fun step => ⟨now, step⟩)).raised = none

/-- A run goes the protocol's way, by a clock that stands still. -/
theorem Calm.follows_run {q : Playback} (hs : Calm outcomes s) (hp : p.Reportable) {t : PlaybackState}
    (h : Follows s.toPlaybackState t) (now : ℚ) {events : List PlaybackEvent} (hevents : ∀ e ∈ events, OnClock e.now) :
    Follows (proxyRun p s events).toPlaybackState (playbackRun q t (events.map fun e => ⟨now, e.step⟩)) := by
  induction events generalizing s t with
  | nil => exact h
  | cons e events ih =>
    rw [List.forall_mem_cons] at hevents
    exact ih (hs.step hp hevents.1) ((follows_proxyStep hp hs hevents.1).1.trans (h.step rfl)) hevents.2

theorem Calm.undisturbed (h : Calm outcomes s) (hp : p.Reportable) : Undisturbed p outcomes s := by
  obtain ⟨t, ht, hst⟩ := h.follows
  have heard := ht.heard
  simp only [Heard, ← hst.streamer, ← hst.chunks] at heard
  refine ⟨h.raised, ?_, fun heof => ?_, fun ending now hending hnow => ?_⟩
  · cases hending : s.streamer.ending with
    | none => rw [hending] at heard; exact ⟨_, heard⟩
    | some ending =>
      rw [hending] at heard
      cases ending <;> obtain ⟨rest, hrest⟩ := heard <;> exact ⟨_, hrest⟩
  · rw [heof] at heard
    exact heard
  · rw [hst.streamer] at hending
    obtain ⟨steps, hlength, hend⟩ := cleanup_ends still_valid ht hending t.rank_le
    have hevents : ∀ e ∈ steps.map (fun step => (⟨now, step⟩ : PlaybackEvent)), OnClock e.now := by
      intro e he
      obtain ⟨step, -, rfl⟩ := List.mem_map.mp he
      exact hnow
    have hfollows := h.follows_run (q := still) hp hst 0 hevents
    rw [List.map_map] at hfollows
    exact ⟨steps, hlength, hfollows.streamer.trans hend, (h.run hp hevents).raised⟩

end Calm

/-! ## When a report cannot be made -/

/-- One chunk is read, and the heartbeat's first report is due. -/
def firstReport : List PlaybackEvent := [⟨0, .read⟩, ⟨0, .beatStarts⟩, ⟨0, .next⟩, ⟨0, .read⟩, ⟨0, .joined⟩]

def oneChunk : List Read := [.chunk ⟨[0], List.cons_ne_nil _ _⟩, .eof]

/-- The heartbeat's exception ends the generator. -/
theorem raised_firstReport {p : Playback} (hp : ¬ p.Reportable) : (proxyRun p (proxyStart oneChunk) firstReport).raised ≠ none := by
  have hclock : OnClock 0 := by decide +kernel
  have hreturns : ¬ Returns (report p .playing 0 0) := fun h => hp ((returns_report hclock hclock .playing).mp h)
  cases hreport : report p .playing 0 0 with
  | ok action => exact absurd ⟨action, hreport⟩ hreturns
  | error e =>
    simp [proxyRun, firstReport, proxyStart, playbackStart, oneChunk, proxyStep, playbackStep, yieldChunk, beatReports, hreport, leave,
      streamerReports]

/-- **Reports never interrupt playback** exactly when they can be made: the
position is computed within the range of floats, or is none, and the duration
can be written. -/
theorem playback_undisturbed_iff (U : Unicode) (contentRange contentLength : Option Str) (durationMs : Int) :
    (∀ outcomes events, (∀ e ∈ events, OnClock e.now ∧ e.step ≠ .cancel) →
      Undisturbed (.ofHeaders U contentRange contentLength durationMs) outcomes
        (proxyRun (.ofHeaders U contentRange contentLength durationMs) (proxyStart outcomes) events)) ↔
      (Playback.ofHeaders U contentRange contentLength durationMs).Reportable := by
  constructor
  · intro h
    by_contra hp
    exact raised_firstReport hp (h oneChunk firstReport (by simp [firstReport, OnClock])).raised
  · intro hp outcomes events hevents
    exact ((Calm.start outcomes).run hp fun e he => (hevents e he).1).undisturbed hp

/-- A duration past the floats, of a file of 1000 bytes. -/
def endless : Playback := .ofHeaders .ascii none (some "1000".toList) (10 ^ 400)

theorem endless_interrupted : (proxyRun endless (proxyStart oneChunk) firstReport).raised = some .overflow := by
  decide +kernel

end Plexio
