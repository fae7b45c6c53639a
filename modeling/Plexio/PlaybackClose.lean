/-
Who closes the upstream's response. `proxy_playback` opens it; for HEAD it
closes it itself, else it leaves that to the generator's clean-up. A generator
that was never started has none: `upstream_closed_iff` says that a response
that has ended has left nothing open, unless its client was gone before the
first chunk was asked for.
-/
import Plexio.PlaybackErrors

namespace Plexio

open Py

/-! ## The response -/

/-- What `_open_playback_response` gives. -/
structure Upstream where
  status : Int
  header : Str → Option Str
  reads : List Read

/-- Where the response's body is. -/
inductive Body
  /-- Of a response to HEAD. -/
  | empty
  /-- The generator is made, and has not been started. -/
  | waiting
  | running (s : ProxyState)
  /-- The generator is closed without having been started. -/
  | dropped

/-- What `proxy_playback` returns, and what becomes of it. -/
structure Proxied where
  status : Int
  headers : List (Str × Str)
  mediaType : Option Str
  playback : Playback
  reads : List Read
  body : Body
  /-- The handler has closed the upstream's response. -/
  closedByHandler : Bool

def passthroughHeaders : List String :=
  ["Content-Length", "Content-Range", "Accept-Ranges", "Cache-Control", "Content-Disposition", "ETag", "Last-Modified"]

/-- `proxy_playback`, from the upstream's response on. -/
def proxyPlayback (U : Unicode) (method : Str) (upstream : Upstream) (durationMs : Int) : Proxied :=
  let proxied : Proxied := {
    status := upstream.status
    headers := passthroughHeaders.filterMap fun name => (upstream.header name.toList).map fun value => (name.toList, value)
    mediaType := upstream.header "Content-Type".toList
    playback := .ofHeaders U (upstream.header "Content-Range".toList) (upstream.header "Content-Length".toList) durationMs
    reads := upstream.reads
    body := .waiting
    closedByHandler := false }
  if U.upper method = "HEAD".toList then { proxied with body := .empty, closedByHandler := true } else proxied

inductive ResponseEvent
  /-- The first chunk is asked for. -/
  | pull
  /-- The client is gone before that. -/
  | gone
  | body (e : PlaybackEvent)

namespace Proxied

/-- What an event does; one that cannot happen does nothing. -/
def step (r : Proxied) (e : ResponseEvent) : Proxied :=
  match e, r.body with
  | .pull, .waiting => { r with body := .running (proxyStart r.reads) }
  | .gone, .waiting => { r with body := .dropped }
  | .body e, .running s => { r with body := .running (proxyStep r.playback s e) }
  | _, _ => r

def run (r : Proxied) (events : List ResponseEvent) : Proxied := events.foldl step r

/-- The response has ended. -/
def Ended (r : Proxied) : Prop :=
  match r.body with
  | .empty | .dropped => True
  | .waiting => False
  | .running s => ∃ ending, s.streamer = .finished ending

/-- The upstream's response has been closed. -/
def UpstreamClosed (r : Proxied) : Prop :=
  r.closedByHandler = true ∨ ∃ s, r.body = .running s ∧ Action.close ∈ s.trace

end Proxied

/-! ## The clean-up closes -/

/-- A generator that has left its loop has closed the upstream's response. -/
def Closes (s : PlaybackState) : Prop := s.streamer.ending ≠ none → Action.close ∈ s.trace

section Closes
variable {p : Playback}

theorem closes_reportStopped (now : ℚ) (ending : Ending) {s : PlaybackState} (h : Action.close ∈ s.trace) :
    Closes (reportStopped p now ending s) := by
  intro _
  unfold reportStopped
  split
  · exact h
  · exact List.mem_append_left _ h

theorem closes_leave (now : ℚ) (ending : Ending) (s : PlaybackState) : Closes (leave p now ending s) := by
  have hclose : Action.close ∈ s.trace ++ [Action.close] := List.mem_append_right _ List.mem_cons_self
  unfold leave
  dsimp only
  split
  · exact fun _ => hclose
  · exact closes_reportStopped now ending hclose

theorem closes_playbackStep {s : PlaybackState} (h : Closes s) (e : PlaybackEvent) : Closes (playbackStep p s e) := by
  have hmore : ∀ {heartbeat : Option Heartbeat} {actions : List Action},
      Closes { s with heartbeat, trace := s.trace ++ actions } := fun hs => List.mem_append_left _ (h hs)
  cases hstep : e.step with
  | read =>
    simp only [playbackStep, hstep]
    split
    · exact fun hs => absurd rfl hs
    · exact closes_leave _ _ _
    · exact closes_leave _ _ _
    · exact h
  | cancel | aclose =>
    simp only [playbackStep, hstep]
    split
    · exact closes_leave _ _ _
    · exact h
  | next =>
    simp only [playbackStep, hstep]
    split
    · exact fun hs => absurd rfl hs
    · exact h
  | joined =>
    simp only [playbackStep, hstep]
    split
    · next hs _ => exact closes_reportStopped _ _ (h (by simp [hs, Streamer.ending]))
    · exact h
  | answered ok =>
    simp only [playbackStep, hstep]
    split
    · next hs => exact fun _ => h (by simp [hs, Streamer.ending])
    · exact h
  | beatStarts | beatTimesOut =>
    simp only [playbackStep, hstep]
    split
    · exact hmore
    · exact h
  | beatAnswered ok =>
    simp only [playbackStep, hstep]
    split <;> exact h
  | beatWakes =>
    simp only [playbackStep, hstep]
    split <;> exact h

theorem closes_proxyStep {s : ProxyState} (h : Closes s.toPlaybackState) (e : PlaybackEvent) :
    Closes (proxyStep p s e).toPlaybackState := by
  have hbeats : ∀ startedAt now, Closes (beatReports p startedAt now s).toPlaybackState := by
    intro startedAt now
    unfold beatReports
    split
    · exact fun hs => List.mem_append_left _ (h hs)
    · exact h
  cases hstep : e.step with
  | read | cancel | next | aclose | answered | beatAnswered | beatWakes =>
    simp only [proxyStep, hstep]
    exact closes_playbackStep h e
  | joined =>
    simp only [proxyStep, hstep]
    split
    · next ending startedAt hs _ =>
      have hclose : Action.close ∈ s.trace := h (by simp [hs, Streamer.ending])
      unfold streamerReports
      split
      · exact fun _ => hclose
      split
      · exact fun _ => List.mem_append_left _ hclose
      · exact fun _ => hclose
    · exact h
  | beatStarts | beatTimesOut =>
    simp only [proxyStep, hstep]
    split
    · exact hbeats _ _
    · exact h

end Closes

/-! ## Every ending -/

/-- The client is gone before the first chunk is asked for. -/
def GoneFirst (events : List ResponseEvent) : Prop := ∃ before after, events = before ++ .gone :: after ∧ .pull ∉ before

namespace Proxied
variable {r : Proxied}

theorem closedByHandler_step (e : ResponseEvent) : (r.step e).closedByHandler = r.closedByHandler := by
  unfold step
  split <;> rfl

theorem run_cons (r : Proxied) (e : ResponseEvent) (events : List ResponseEvent) :
    r.run (e :: events) = (r.step e).run events := rfl

/-- The handler's part stays as it was. -/
theorem closedByHandler_run (events : List ResponseEvent) : (r.run events).closedByHandler = r.closedByHandler := by
  induction events generalizing r with
  | nil => rfl
  | cons e events ih =>
    rw [run_cons, ih, closedByHandler_step]

/-- A body that was dropped stays so. -/
theorem body_run_dropped (h : r.body = .dropped) (events : List ResponseEvent) : (r.run events).body = .dropped := by
  induction events generalizing r with
  | nil => exact h
  | cons e events ih =>
    rw [run_cons]
    refine ih ?_
    cases e <;> simp [step, h]

/-- A body that was started runs, and its clean-up closes. -/
theorem body_run_running {s : ProxyState} (h : r.body = .running s) (hs : Closes s.toPlaybackState) (events : List ResponseEvent) :
    ∃ s', (r.run events).body = .running s' ∧ Closes s'.toPlaybackState := by
  induction events generalizing r s with
  | nil => exact ⟨s, h, hs⟩
  | cons e events ih =>
    rw [run_cons]
    cases e with
    | pull | gone => exact ih (by simp [step, h]) hs
    | body e => exact ih (by simp only [step, h]) (closes_proxyStep (p := r.playback) hs e)

theorem upstreamClosed_of_running {s : ProxyState} (h : r.body = .running s) (hs : Closes s.toPlaybackState) (hend : r.Ended) :
    r.UpstreamClosed := by
  rw [Ended, h] at hend
  obtain ⟨ending, hfinished⟩ := hend
  exact .inr ⟨s, h, hs (by simp [hfinished, Streamer.ending])⟩

/-- **The step lemma**, from a generator that waits: by which comes first. -/
theorem closed_iff_of_waiting (h : r.body = .waiting) (hopen : r.closedByHandler = false) (events : List ResponseEvent) :
    ((r.run events).Ended → (r.run events).UpstreamClosed) ↔ ¬ GoneFirst events := by
  induction events generalizing r with
  | nil =>
    have hnot : ¬ r.Ended := by rw [Ended, h]; exact id
    refine iff_of_true (fun hend => absurd hend hnot) ?_
    intro hgone
    obtain ⟨before, after, heq, -⟩ := hgone
    cases before <;> cases heq
  | cons e events ih =>
    rw [run_cons]
    cases e with
    | pull =>
      have hstep : (r.step .pull).body = .running (proxyStart r.reads) := by simp only [step, h]
      obtain ⟨s, hs, hcloses⟩ := body_run_running hstep (fun hs => absurd rfl hs) events
      refine iff_of_true (upstreamClosed_of_running hs hcloses) ?_
      intro hgone
      obtain ⟨before, after, heq, hnot⟩ := hgone
      cases before with
      | nil => cases heq
      | cons b before =>
        cases heq
        exact hnot List.mem_cons_self
    | gone =>
      have hstep : (r.step .gone).body = .dropped := by simp only [step, h]
      have hdropped := body_run_dropped hstep events
      have hended : ((r.step .gone).run events).Ended := by rw [Ended, hdropped]; trivial
      refine iff_of_false (fun hclosed => ?_) (fun hnot => hnot ⟨[], events, rfl, List.not_mem_nil⟩)
      rcases hclosed hended with hhandler | ⟨s, hs, -⟩
      · rw [closedByHandler_run, closedByHandler_step, hopen] at hhandler
        cases hhandler
      · rw [hdropped] at hs
        cases hs
    | body e =>
      have hstep : r.step (.body e) = r := by simp only [step, h]
      rw [hstep, ih h hopen, not_iff_not]
      constructor
      · intro hgone
        obtain ⟨before, after, rfl, hnot⟩ := hgone
        exact ⟨.body e :: before, after, rfl, by simpa using hnot⟩
      · intro hgone
        obtain ⟨before, after, heq, hnot⟩ := hgone
        cases before with
        | nil => cases heq
        | cons b before =>
          cases heq
          exact ⟨before, after, rfl, fun hmem => hnot (List.mem_cons_of_mem _ hmem)⟩

end Proxied

/-- **Nothing is left open** by a response that has ended, whichever way it
does, but by a GET whose client was gone before its first chunk was asked for. -/
theorem upstream_closed_iff (U : Unicode) (method : Str) (upstream : Upstream) (durationMs : Int) (events : List ResponseEvent) :
    (((proxyPlayback U method upstream durationMs).run events).Ended →
      ((proxyPlayback U method upstream durationMs).run events).UpstreamClosed) ↔
      U.upper method = "HEAD".toList ∨ ¬ GoneFirst events := by
  by_cases hhead : U.upper method = "HEAD".toList
  · have hclosed : (proxyPlayback U method upstream durationMs).closedByHandler = true := by rw [proxyPlayback, if_pos hhead]
    exact iff_of_true (fun _ => .inl ((Proxied.closedByHandler_run events).trans hclosed)) (.inl hhead)
  · rw [proxyPlayback, if_neg hhead, Proxied.closed_iff_of_waiting rfl rfl, or_iff_right hhead]

/-- A file, of which nothing has been read. -/
def unread : Upstream where
  status := 200
  header name := if name = "Content-Length".toList then some "1000".toList else none
  reads := oneChunk

theorem unread_left_open : ((proxyPlayback .ascii "GET".toList unread 60000).run [.gone]).Ended ∧
    ¬ ((proxyPlayback .ascii "GET".toList unread 60000).run [.gone]).UpstreamClosed := by
  have hbody : ((proxyPlayback .ascii "GET".toList unread 60000).run [.gone]).body = .dropped := rfl
  refine ⟨by rw [Proxied.Ended, hbody]; trivial, ?_⟩
  intro hclosed
  rcases hclosed with hhandler | ⟨s, hs, -⟩
  · exact absurd hhandler (by decide +kernel)
  · rw [hbody] at hs
    cases hs

end Plexio
