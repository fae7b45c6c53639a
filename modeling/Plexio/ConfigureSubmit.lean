/-
Submitting the configure page (`onSubmit`). A submission validates the form,
has a session created, and hands the manifest URL to a promise; its handler
then waits for the promise, for the clipboard too if it is to copy, and shows
the URL or goes to it. Between any two of these steps the form may change and
other buttons may be clicked.

An edit counts up a revision and takes the URL shown away; a submission
compares the revision with the one it started at before it lets a URL out.
`manifest_url_never_stale` says that this is enough.
-/
import Plexio.ConfigurePage

namespace Plexio

open Py

/-! ## A submission -/

/-- How `createSession` ends. -/
inductive SessionAnswer
  | id (sessionId : Str)
  | null
  | error (message : Str)

/-- How far the manifest URL is made. -/
inductive Generation
  | validating
  /-- The session is being created. -/
  | creating
  /-- `createManifestUrl` has returned, or thrown. -/
  | generated (result : Except Str Str)

/-- The promise of the manifest URL. -/
inductive UrlPromise
  | pending
  | resolved (url : Str)
  | rejected (message : Str)

/-- Where the handler of a submission is. -/
inductive Handler
  | awaitingUrl
  | awaitingCopy
  | settled
  deriving DecidableEq

/-- What a submission knows: the form's values when it began, and what the
page was rendered with. -/
structure Submission where
  values : ConfigurationForm
  /-- Without a server selected there is none. -/
  page : Option ConfigurePage
  origin : Str
  legacyUrlsEnabled : Bool
  submittedRevision : Nat
  copying : Bool
  generation : Generation := .validating
  url : UrlPromise := .pending
  /-- What `copyText` returned. -/
  copied : Option Bool := none
  handler : Handler := .awaitingUrl

/-- The rest of `createManifestUrl`, once the session has been asked for. -/
def Submission.createManifestUrl (encode : NormalizedConfiguration → Str) (sub : Submission) (uuid : Str) :
    SessionAnswer → Except Str Str
  | answer =>
    match sub.page with
    | none => .error "Please select a Plex server.".toList
    | some page =>
      match answer with
      | .error message => .error message
      | .id (c :: cs) => .ok (sub.origin ++ '/' :: (c :: cs) ++ "/manifest.json".toList)
      | _ =>
        if sub.legacyUrlsEnabled then
          .ok (sub.origin ++ '/' :: uuid ++ '/' :: encode (page.submitted sub.values) ++ "/manifest.json".toList)
        else
          .error "Plexio could not create a secure install session. Please retry or check the server logs.".toList

/-- `addonUrl.replace(/https?:\/\//, 'stremio://')`: the first one only. -/
def stremioUrl : Str → Str
  | [] => []
  | c :: cs =>
    if startswith (c :: cs) "https://".toList then "stremio://".toList ++ (c :: cs).drop 8
    else if startswith (c :: cs) "http://".toList then "stremio://".toList ++ (c :: cs).drop 7
    else c :: stremioUrl cs

def settingsChanged : Str := "Settings changed. Generate a new manifest URL.".toList

/-! ## The page -/

structure PageState where
  /-- What the form holds. -/
  values : ConfigurationForm
  configurationRevision : Nat
  submitting : Bool
  busy : Bool
  /-- The URL shown, if it is not empty. -/
  manifestUrl : Str
  copyStatus : Str
  submitError : Str
  submissions : List Submission

inductive PageEvent
  /-- The form's values change: the `watch` callback. -/
  | edit (values : ConfigurationForm)
  /-- Install or Copy is clicked, on the page as it is rendered. -/
  | submit (copying : Bool) (page : Option ConfigurePage) (origin : Str) (legacyUrlsEnabled : Bool)
  | validated (i : Nat)
  /-- Validation throws. -/
  | validationFailed (i : Nat) (message : Str)
  /-- The session is answered; `uuid` is for a URL without one. -/
  | created (i : Nat) (answer : SessionAnswer) (uuid : Str)
  /-- What follows `createManifestUrl`. -/
  | generated (i : Nat)
  /-- `copyText` returns. -/
  | copied (i : Nat) (wasCopied : Bool)
  /-- The handler goes on, if what it waits for is there. -/
  | resumed (i : Nat)
  /-- Copying the URL shown has ended. -/
  | shownCopied (copied : Bool)

/-- What others see of a step. -/
inductive PageAction
  /-- The promise of the URL, which the clipboard waits for, is resolved. -/
  | resolve (i : Nat) (url : Str)
  | navigate (url : Str)

namespace PageState
variable (isUrl : Str → Bool) (encode : NormalizedConfiguration → Str) (s : PageState)

/-- The submission `i` becomes `sub`. -/
def put (i : Nat) (sub : Submission) : PageState := { s with submissions := s.submissions.set i sub }

/-- `checkConfiguration` -/
def unchanged (sub : Submission) : Bool := s.configurationRevision == sub.submittedRevision

/-- The handler's `finally`. -/
def finish (i : Nat) (sub : Submission) : PageState :=
  { s.put i { sub with handler := .settled } with submitting := false, busy := false }

/-- The handler's `catch`, then its `finally`. -/
def fail (i : Nat) (sub : Submission) (message : Str) : PageState := { s.finish i sub with submitError := message }

def edit (values : ConfigurationForm) : PageState :=
  { s with values, configurationRevision := s.configurationRevision + 1, manifestUrl := [], copyStatus := [] }

/-- `onSubmit`, up to its first await. -/
def submit (copying : Bool) (page : Option ConfigurePage) (origin : Str) (legacyUrlsEnabled : Bool) : PageState :=
  if s.submitting then s
  else
    { s with
      submitting := true
      busy := true
      manifestUrl := []
      copyStatus := []
      submitError := []
      submissions := s.submissions ++
        [{ values := s.values, page, origin, legacyUrlsEnabled, submittedRevision := s.configurationRevision, copying }] }

/-- The form's schema accepts the values, or not. -/
def validated (i : Nat) (sub : Submission) : PageState :=
  match sub.generation, sub.url with
  | .validating, .pending =>
    if formSchema isUrl sub.values then s.put i { sub with generation := .creating }
    else s.put i { sub with url := .rejected "Please check the highlighted fields.".toList }
  | _, _ => s

def validationFailed (i : Nat) (message : Str) (sub : Submission) : PageState :=
  match sub.generation, sub.url with
  | .validating, .pending => s.put i { sub with url := .rejected message }
  | _, _ => s

def created (i : Nat) (answer : SessionAnswer) (uuid : Str) (sub : Submission) : PageState :=
  match sub.generation with
  | .creating => s.put i { sub with generation := .generated (sub.createManifestUrl encode uuid answer) }
  | _ => s

/-- A URL is let out only when nothing has changed. -/
def generated (i : Nat) (sub : Submission) : PageState × Option PageAction :=
  match sub.generation, sub.url with
  | .generated (.ok url), .pending =>
    if s.unchanged sub then (s.put i { sub with url := .resolved url }, some (.resolve i url))
    else (s.put i { sub with url := .rejected settingsChanged }, none)
  | .generated (.error message), .pending => (s.put i { sub with url := .rejected message }, none)
  | _, _ => (s, none)

def copied (i : Nat) (wasCopied : Bool) (sub : Submission) : PageState :=
  if sub.copying && sub.copied.isNone then s.put i { sub with copied := some wasCopied } else s

def resumed (i : Nat) (sub : Submission) : PageState × Option PageAction :=
  match sub.handler, sub.url, sub.copied with
  | .awaitingUrl, .rejected message, _ => (s.fail i sub message, none)
  | .awaitingUrl, .resolved url, _ =>
    if sub.copying then (s.put i { sub with handler := .awaitingCopy }, none)
    else if s.unchanged sub then (s.finish i sub, some (.navigate (stremioUrl url)))
    else (s.fail i sub settingsChanged, none)
  | .awaitingCopy, .resolved url, some wasCopied =>
    if s.unchanged sub then
      ({ s.finish i sub with
         manifestUrl := url
         copyStatus :=
           if wasCopied then "Manifest URL copied.".toList
           else "Your manifest URL is ready. Click Copy URL or select it to copy manually.".toList }, none)
    else (s.fail i sub settingsChanged, none)
  | _, _, _ => (s, none)

/-- What a step does to the submission `i`, if there is one. -/
def withSubmission (i : Nat) (f : Submission → PageState × Option PageAction) : PageState × Option PageAction :=
  match s.submissions[i]? with
  | some sub => f sub
  | none => (s, none)

def step : PageEvent → PageState × Option PageAction
  | .edit values => (s.edit values, none)
  | .submit copying page origin legacyUrlsEnabled => (s.submit copying page origin legacyUrlsEnabled, none)
  | .validated i => s.withSubmission i fun sub => (s.validated isUrl i sub, none)
  | .validationFailed i message => s.withSubmission i fun sub => (s.validationFailed i message sub, none)
  | .created i answer uuid => s.withSubmission i fun sub => (s.created encode i answer uuid sub, none)
  | .generated i => s.withSubmission i (s.generated i)
  | .copied i wasCopied => s.withSubmission i fun sub => (s.copied i wasCopied sub, none)
  | .resumed i => s.withSubmission i (s.resumed i)
  | .shownCopied copied =>
    ({ s with copyStatus :=
         if copied then "Manifest URL copied.".toList else "Select the manifest URL and copy it manually.".toList }, none)

/-- The page when it is opened. -/
def opened (values : ConfigurationForm) : PageState where
  values
  configurationRevision := 0
  submitting := false
  busy := false
  manifestUrl := []
  copyStatus := []
  submitError := []
  submissions := []

def run (events : List PageEvent) : PageState := events.foldl (fun s e => (s.step isUrl encode e).1) s

/-- The page after these events. -/
def reached (values : ConfigurationForm) (events : List PageEvent) : PageState := (opened values).run isUrl encode events

end PageState

/-! ## What a step can do -/

section Steps
variable (isUrl : Str → Bool) (encode : NormalizedConfiguration → Str)

/-- A submission goes on: who began it and what it has made stay. -/
structure Submission.Keeps (sub sub' : Submission) : Prop where
  same : sub' = { sub with generation := sub'.generation, url := sub'.url, copied := sub'.copied, handler := sub'.handler }
  generation : ∀ result, sub'.generation = .generated result →
    sub.generation = .generated result ∨ ∃ answer uuid, result = sub.createManifestUrl encode uuid answer
  kept : ∀ result, sub.generation = .generated result → sub'.generation = .generated result
  url : ∀ url, sub'.url = .resolved url → sub.generation = .generated (.ok url) ∨ sub.url = .resolved url

namespace PageState

/-- The submission `i` has not settled. -/
def InFlight (s : PageState) (i : Nat) : Prop := ∃ sub, s.submissions[i]? = some sub ∧ sub.handler ≠ .settled

/-- The steps that are not edits, by what they do. -/
inductive Moves (s : PageState) : PageState → Option PageAction → Prop
  | idle (copyStatus : Str) : Moves s { s with copyStatus } none
  | submit (copying : Bool) (page : Option ConfigurePage) (origin : Str) (legacyUrlsEnabled : Bool)
      (ready : s.submitting = false) : Moves s (s.submit copying page origin legacyUrlsEnabled) none
  | advance {i : Nat} {sub sub' : Submission} (hi : s.submissions[i]? = some sub) (keeps : sub.Keeps encode sub')
      (handler : sub'.handler = .settled ↔ sub.handler = .settled) : Moves s (s.put i sub') none
  | resolve {i : Nat} {sub : Submission} {url : Str} (hi : s.submissions[i]? = some sub)
      (made : sub.generation = .generated (.ok url)) (fresh : s.unchanged sub = true) :
      Moves s (s.put i { sub with url := .resolved url }) (some (.resolve i url))
  | fail {i : Nat} {sub : Submission} {message : Str} (hi : s.submissions[i]? = some sub) (running : sub.handler ≠ .settled) :
      Moves s (s.fail i sub message) none
  | navigate {i : Nat} {sub : Submission} {url : Str} (hi : s.submissions[i]? = some sub) (running : sub.handler ≠ .settled)
      (resolved : sub.url = .resolved url) (fresh : s.unchanged sub = true) :
      Moves s (s.finish i sub) (some (.navigate (stremioUrl url)))
  | display {i : Nat} {sub : Submission} {url copyStatus : Str} (hi : s.submissions[i]? = some sub)
      (running : sub.handler ≠ .settled) (resolved : sub.url = .resolved url) (fresh : s.unchanged sub = true) :
      Moves s { s.finish i sub with manifestUrl := url, copyStatus } none

variable {isUrl encode} {s : PageState}

theorem Moves.same : Moves encode s s none := .idle s.copyStatus

theorem validated_moves {i : Nat} {sub : Submission} (hi : s.submissions[i]? = some sub) :
    Moves encode s (s.validated isUrl i sub) none := by
  rw [validated]
  split
  · next hgen hurl =>
    split
    · refine .advance hi ⟨rfl, nofun, fun r h => ?_, fun u h => .inr h⟩ Iff.rfl
      rw [hgen] at h
      cases h
    · exact .advance hi ⟨rfl, fun r h => .inl h, fun r h => h, nofun⟩ Iff.rfl
  · exact .same

theorem validationFailed_moves {i : Nat} {sub : Submission} (hi : s.submissions[i]? = some sub) (message : Str) :
    Moves encode s (s.validationFailed i message sub) none := by
  rw [validationFailed]
  split
  · exact .advance hi ⟨rfl, fun r h => .inl h, fun r h => h, nofun⟩ Iff.rfl
  · exact .same

theorem created_moves {i : Nat} {sub : Submission} (hi : s.submissions[i]? = some sub) (answer : SessionAnswer) (uuid : Str) :
    Moves encode s (s.created encode i answer uuid sub) none := by
  rw [created]
  split
  · next hgen =>
    refine .advance hi ⟨rfl, fun r h => .inr ⟨answer, uuid, ?_⟩, fun r h => ?_, fun u h => .inr h⟩ Iff.rfl
    · cases h
      rfl
    · rw [hgen] at h
      cases h
  · exact .same

theorem generated_moves {i : Nat} {sub : Submission} (hi : s.submissions[i]? = some sub) :
    Moves encode s (s.generated i sub).1 (s.generated i sub).2 := by
  rw [generated]
  split
  · next url hgen hurl =>
    split
    · next hfresh => exact .resolve hi hgen hfresh
    · exact .advance hi ⟨rfl, fun r h => .inl h, fun r h => h, nofun⟩ Iff.rfl
  · exact .advance hi ⟨rfl, fun r h => .inl h, fun r h => h, nofun⟩ Iff.rfl
  · exact .same

theorem copied_moves {i : Nat} {sub : Submission} (hi : s.submissions[i]? = some sub) (wasCopied : Bool) :
    Moves encode s (s.copied i wasCopied sub) none := by
  rw [copied]
  split
  · exact .advance hi ⟨rfl, fun r h => .inl h, fun r h => h, fun u h => .inr h⟩ Iff.rfl
  · exact .same

theorem resumed_moves {i : Nat} {sub : Submission} (hi : s.submissions[i]? = some sub) :
    Moves encode s (s.resumed i sub).1 (s.resumed i sub).2 := by
  rw [resumed]
  split
  · next hhandler _ => exact .fail hi (by rw [hhandler]; nofun)
  · next url hhandler hurl =>
    have hrunning : sub.handler ≠ .settled := by rw [hhandler]; nofun
    split
    · refine .advance hi ⟨rfl, fun r h => .inl h, fun r h => h, fun u h => .inr h⟩ ?_
      simp [hhandler]
    split
    · next hfresh => exact .navigate hi hrunning hurl hfresh
    · exact .fail hi hrunning
  · next url wasCopied hhandler hurl _ =>
    have hrunning : sub.handler ≠ .settled := by rw [hhandler]; nofun
    split
    · next hfresh => exact .display hi hrunning hurl hfresh
    · exact .fail hi hrunning
  · exact .same

/-- **Every step is one of these**, or an edit. -/
theorem moves_step {e : PageEvent} (he : ∀ values, e ≠ .edit values) :
    Moves encode s (s.step isUrl encode e).1 (s.step isUrl encode e).2 := by
  have hone : ∀ i (f : Submission → PageState × Option PageAction),
      (∀ sub, s.submissions[i]? = some sub → Moves encode s (f sub).1 (f sub).2) →
      Moves encode s (s.withSubmission i f).1 (s.withSubmission i f).2 := by
    intro i f h
    rw [withSubmission]
    split
    · next sub hi => exact h sub hi
    · exact .same
  cases e with
  | edit values => exact absurd rfl (he values)
  | submit copying page origin legacyUrlsEnabled =>
    show Moves encode s (s.submit copying page origin legacyUrlsEnabled) none
    by_cases hs : s.submitting = true
    · rw [submit, if_pos hs]; exact .same
    · exact .submit copying page origin legacyUrlsEnabled (by simpa using hs)
  | validated i => exact hone i _ fun sub hi => validated_moves hi
  | validationFailed i message => exact hone i _ fun sub hi => validationFailed_moves hi message
  | created i answer uuid => exact hone i _ fun sub hi => created_moves hi answer uuid
  | generated i => exact hone i _ fun sub hi => generated_moves hi
  | copied i wasCopied => exact hone i _ fun sub hi => copied_moves hi wasCopied
  | resumed i => exact hone i _ fun sub hi => resumed_moves hi
  | shownCopied copied => exact .idle _

/-! ## What every step keeps -/

variable (encode) in
/-- The URL was made of these values. -/
def GeneratedFrom (s : PageState) (url : Str) (values : ConfigurationForm) : Prop :=
  ∃ sub ∈ s.submissions, sub.values = values ∧ sub.generation = .generated (.ok url) ∧
    ∃ answer uuid, sub.createManifestUrl encode uuid answer = .ok url

variable (encode) in
structure Inv (s : PageState) : Prop where
  /-- A submission no edit came after has the form's values. -/
  current : ∀ sub ∈ s.submissions, sub.submittedRevision ≤ s.configurationRevision ∧
    (sub.submittedRevision = s.configurationRevision → sub.values = s.values)
  made : ∀ sub ∈ s.submissions, ∀ result, sub.generation = .generated result →
    ∃ answer uuid, result = sub.createManifestUrl encode uuid answer
  resolved : ∀ sub ∈ s.submissions, ∀ url, sub.url = .resolved url → sub.generation = .generated (.ok url)
  shown : s.manifestUrl ≠ [] → s.GeneratedFrom encode s.manifestUrl s.values
  /-- Only the last submission is in flight, and only while the page submits. -/
  inFlight : ∀ i, s.InFlight i → s.submitting = true ∧ i + 1 = s.submissions.length

theorem inv_opened (values : ConfigurationForm) : (opened values).Inv encode where
  current := by simp [opened]
  made := by simp [opened]
  resolved := by simp [opened]
  shown := by simp [opened]
  inFlight i := by
    rintro ⟨sub, hi, -⟩
    simp [opened] at hi

section Put
variable {i : Nat} {sub sub' : Submission}

theorem mem_put {a : Submission} (h : a ∈ (s.put i sub').submissions) : a = sub' ∨ a ∈ s.submissions :=
  (List.mem_or_eq_of_mem_set h).symm

variable (hi : s.submissions[i]? = some sub) (hkeeps : sub.Keeps encode sub')
include hi hkeeps

/-- What was made stays made. -/
theorem GeneratedFrom.put {url : Str} {values : ConfigurationForm} (h : s.GeneratedFrom encode url values) :
    (s.put i sub').GeneratedFrom encode url values := by
  obtain ⟨a, ha, rfl, hgen, hmade⟩ := h
  obtain ⟨j, hj⟩ := List.mem_iff_getElem?.mp ha
  by_cases hij : i = j
  · subst hij
    obtain rfl : sub = a := Option.some.inj (hi.symm.trans hj)
    refine ⟨sub', List.mem_iff_getElem?.mpr ⟨i, ?_⟩, ?_, hkeeps.kept _ hgen, ?_⟩
    · show (s.submissions.set i sub')[i]? = some sub'
      rw [List.getElem?_set_self (List.getElem?_eq_some_iff.mp hi).1]
    · rw [hkeeps.same]
    · obtain ⟨answer, uuid, hu⟩ := hmade
      refine ⟨answer, uuid, ?_⟩
      rw [hkeeps.same]
      exact hu
  · refine ⟨a, List.mem_iff_getElem?.mpr ⟨j, ?_⟩, rfl, hgen, hmade⟩
    show (s.submissions.set i sub')[j]? = some a
    rw [List.getElem?_set_ne hij, hj]

theorem Inv.put (h : s.Inv encode) (hhandler : sub'.handler ≠ .settled → sub.handler ≠ .settled) :
    (s.put i sub').Inv encode where
  current a ha := by
    rcases mem_put ha with rfl | ha
    · rw [hkeeps.same]
      exact h.current sub (List.mem_of_getElem? hi)
    · exact h.current a ha
  made a ha result hr := by
    rcases mem_put ha with rfl | ha
    · have hmade : ∃ answer uuid, result = sub.createManifestUrl encode uuid answer := by
        rcases hkeeps.generation result hr with hold | hnew
        · exact h.made sub (List.mem_of_getElem? hi) result hold
        · exact hnew
      obtain ⟨answer, uuid, hu⟩ := hmade
      refine ⟨answer, uuid, ?_⟩
      rw [hkeeps.same]
      exact hu
    · exact h.made a ha result hr
  resolved a ha url hu := by
    rcases mem_put ha with rfl | ha
    · refine hkeeps.kept _ ?_
      rcases hkeeps.url url hu with hgen | hold
      · exact hgen
      · exact h.resolved sub (List.mem_of_getElem? hi) url hold
    · exact h.resolved a ha url hu
  shown hne := (h.shown hne).put hi hkeeps
  inFlight j := by
    rintro ⟨a, ha, hrunning⟩
    have hlen : (s.put i sub').submissions.length = s.submissions.length := List.length_set
    rw [hlen]
    refine h.inFlight j ?_
    by_cases hij : i = j
    · subst hij
      refine ⟨sub, hi, hhandler ?_⟩
      have hset : (s.put i sub').submissions[i]? = some sub' := List.getElem?_set_self (List.getElem?_eq_some_iff.mp hi).1
      rw [Option.some.inj (hset.symm.trans ha)]
      exact hrunning
    · have hset : (s.put i sub').submissions[j]? = s.submissions[j]? := List.getElem?_set_ne hij
      exact ⟨a, hset.symm.trans ha, hrunning⟩

end Put

section Finish
variable {i : Nat} {sub : Submission} (hi : s.submissions[i]? = some sub) (hrunning : sub.handler ≠ .settled)
include hi hrunning

/-- Nothing is in flight once the one that was has settled. -/
theorem Inv.not_inFlight_finish (h : s.Inv encode) (j : Nat) : ¬ (s.finish i sub).InFlight j := by
  have hlast := (h.inFlight i ⟨sub, hi, hrunning⟩).2
  rintro ⟨a, ha, ha'⟩
  have hset : (s.finish i sub).submissions = s.submissions.set i { sub with handler := .settled } := rfl
  rw [hset] at ha
  by_cases hij : i = j
  · subst hij
    rw [List.getElem?_set_self (by omega)] at ha
    cases ha
    exact ha' rfl
  · rw [List.getElem?_set_ne hij] at ha
    have := (h.inFlight j ⟨a, ha, ha'⟩).2
    omega

theorem Inv.finish (h : s.Inv encode) {t : PageState} (hsubs : t.submissions = (s.finish i sub).submissions)
    (hrevision : t.configurationRevision = s.configurationRevision) (hvalues : t.values = s.values)
    (hshown : t.manifestUrl ≠ [] → s.GeneratedFrom encode t.manifestUrl s.values) : t.Inv encode := by
  have hkeeps : sub.Keeps encode { sub with handler := .settled } := ⟨rfl, fun r h => .inl h, fun r h => h, fun u h => .inr h⟩
  have hput := h.put hi hkeeps (fun hne => absurd rfl hne)
  exact
    { current := by rw [hsubs, hrevision, hvalues]; exact hput.current
      made := by rw [hsubs]; exact hput.made
      resolved := by rw [hsubs]; exact hput.resolved
      shown := fun hne => by
        obtain ⟨a, ha, rest⟩ := (hshown hne).put hi hkeeps
        exact ⟨a, hsubs ▸ ha, hvalues ▸ rest⟩
      inFlight := fun j => by
        rintro ⟨a, ha, ha'⟩
        exact absurd ⟨a, hsubs ▸ ha, ha'⟩ (h.not_inFlight_finish hi hrunning j) }

end Finish

/-- A URL that is let out was made of the form's values. -/
theorem Inv.generatedFrom (h : s.Inv encode) {sub : Submission} {url : Str} (hsub : sub ∈ s.submissions)
    (hgen : sub.generation = .generated (.ok url)) (hfresh : s.unchanged sub = true) :
    s.GeneratedFrom encode url s.values := by
  have hrevision : sub.submittedRevision = s.configurationRevision := (beq_iff_eq.mp hfresh).symm
  obtain ⟨answer, uuid, hu⟩ := h.made sub hsub _ hgen
  exact ⟨sub, hsub, (h.current sub hsub).2 hrevision, hgen, answer, uuid, hu.symm⟩

theorem Inv.edit (h : s.Inv encode) (values : ConfigurationForm) : (s.edit values).Inv encode := by
  refine ⟨fun a ha => ?_, h.made, h.resolved, fun hne => absurd rfl hne, h.inFlight⟩
  have := (h.current a ha).1
  simp only [PageState.edit]
  exact ⟨by omega, fun heq => by omega⟩

theorem Inv.moves (h : s.Inv encode) {s' : PageState} {action : Option PageAction} (hm : Moves encode s s' action) :
    s'.Inv encode := by
  cases hm with
  | idle copyStatus => exact ⟨h.current, h.made, h.resolved, h.shown, h.inFlight⟩
  | submit copying page origin legacyUrlsEnabled ready =>
    have hnone : ∀ i, ¬ s.InFlight i := fun i hi => by rw [(h.inFlight i hi).1] at ready; cases ready
    rw [PageState.submit, if_neg (by simp [ready])]
    refine ⟨fun a ha => ?_, fun a ha => ?_, fun a ha => ?_, fun hne => absurd rfl hne, ?_⟩
    · rcases List.mem_append.mp ha with ha | ha
      · exact h.current a ha
      · rw [List.mem_singleton.mp ha]
        exact ⟨Nat.le_refl _, fun _ => rfl⟩
    · rcases List.mem_append.mp ha with ha | ha
      · exact h.made a ha
      · rw [List.mem_singleton.mp ha]
        nofun
    · rcases List.mem_append.mp ha with ha | ha
      · exact h.resolved a ha
      · rw [List.mem_singleton.mp ha]
        nofun
    · rintro i ⟨a, ha, hrunning⟩
      refine ⟨rfl, ?_⟩
      obtain ⟨hlt, -⟩ := List.getElem?_eq_some_iff.mp ha
      simp only [List.length_append, List.length_singleton] at hlt ⊢
      by_cases hold : i < s.submissions.length
      · rw [List.getElem?_append_left hold] at ha
        exact absurd ⟨a, ha, hrunning⟩ (hnone i)
      · omega
  | advance hi keeps handler => exact h.put hi keeps fun hne heq => hne (handler.mpr heq)
  | resolve hi made fresh =>
    refine h.put hi ⟨rfl, fun r hr => .inl hr, fun r hr => hr, fun u hu => .inl ?_⟩ id
    cases hu
    exact made
  | fail hi running => exact h.finish hi running rfl rfl rfl h.shown
  | navigate hi running resolved fresh => exact h.finish hi running rfl rfl rfl h.shown
  | display hi running resolved fresh =>
    refine h.finish hi running rfl rfl rfl fun _ => ?_
    exact h.generatedFrom (List.mem_of_getElem? hi) (h.resolved _ (List.mem_of_getElem? hi) _ resolved) fresh

/-! ## Runs -/

variable {values : ConfigurationForm} {events : List PageEvent}

theorem reached_snoc (e : PageEvent) :
    reached isUrl encode values (events ++ [e]) = ((reached isUrl encode values events).step isUrl encode e).1 := by
  simp [reached, run, List.foldl_append]

/-- The edits among these events. -/
def edits (events : List PageEvent) : Nat := events.countP fun | .edit _ => true | _ => false

theorem edits_append (events events' : List PageEvent) : edits (events ++ events') = edits events + edits events' :=
  List.countP_append

theorem edit_not_mem (h : edits events = 0) (v : ConfigurationForm) : PageEvent.edit v ∉ events := fun hmem =>
  absurd rfl (List.countP_eq_zero.mp h _ hmem)

/-- An edit, or a step that is none. -/
theorem edit_or_moves (e : PageEvent) :
    (∃ v, e = .edit v ∧ s.step isUrl encode e = (s.edit v, none)) ∨
      edits [e] = 0 ∧ Moves encode s (s.step isUrl encode e).1 (s.step isUrl encode e).2 := by
  by_cases he : ∃ v, e = .edit v
  · obtain ⟨v, rfl⟩ := he
    exact .inl ⟨v, rfl, rfl⟩
  · refine .inr ⟨?_, moves_step fun v heq => he ⟨v, heq⟩⟩
    cases e with
    | edit v => exact absurd ⟨v, rfl⟩ he
    | _ => rfl

/-- **The step lemma.** -/
theorem Inv.step (h : s.Inv encode) (e : PageEvent) : (s.step isUrl encode e).1.Inv encode := by
  rcases edit_or_moves e with ⟨v, -, heq⟩ | ⟨-, hm⟩
  · rw [heq]
    exact h.edit v
  · exact h.moves hm

/-- **The run lemma.** -/
theorem inv_reached (values : ConfigurationForm) (events : List PageEvent) : (reached isUrl encode values events).Inv encode := by
  induction events using List.reverseRecOn with
  | nil => exact inv_opened values
  | append_singleton events e ih =>
    rw [reached_snoc]
    exact ih.step e

variable (isUrl encode values) in
/-- The submission was begun by a click, at the revision the page had then. -/
def Begun (events : List PageEvent) (i : Nat) (sub : Submission) : Prop :=
  ∃ before click after, events = before ++ click :: after ∧
    (reached isUrl encode values before).submissions.length = i ∧
    (reached isUrl encode values (before ++ [click])).submissions.length = i + 1 ∧
    sub.submittedRevision = edits (before ++ [click])

theorem Begun.snoc {i : Nat} {sub sub' : Submission} (h : Begun isUrl encode values events i sub)
    (hsub : sub'.submittedRevision = sub.submittedRevision) (e : PageEvent) : Begun isUrl encode values (events ++ [e]) i sub' := by
  obtain ⟨before, click, after, rfl, hbefore, hclick, hrevision⟩ := h
  exact ⟨before, click, after ++ [e], by simp, hbefore, hclick, hsub.trans hrevision⟩

/-- A submission after a step is a submission before it, or begun by it. -/
theorem Moves.submissions {s' : PageState} {action : Option PageAction} (h : Moves encode s s' action) :
    s'.configurationRevision = s.configurationRevision ∧
    ∀ i sub', s'.submissions[i]? = some sub' →
      (∃ sub, s.submissions[i]? = some sub ∧ sub'.submittedRevision = sub.submittedRevision) ∨
        i = s.submissions.length ∧ s'.submissions.length = i + 1 ∧ sub'.submittedRevision = s.configurationRevision := by
  have hset : ∀ {i : Nat} {sub new : Submission}, s.submissions[i]? = some sub → new.submittedRevision = sub.submittedRevision →
      ∀ (j : Nat) (sub' : Submission), (s.submissions.set i new)[j]? = some sub' →
        ∃ sub, s.submissions[j]? = some sub ∧ sub'.submittedRevision = sub.submittedRevision := by
    intro i sub new hi hsame j sub' hj
    by_cases hij : i = j
    · subst hij
      rw [List.getElem?_set_self (List.getElem?_eq_some_iff.mp hi).1, Option.some.injEq] at hj
      exact ⟨sub, hi, hj ▸ hsame⟩
    · rw [List.getElem?_set_ne hij] at hj
      exact ⟨sub', hj, rfl⟩
  cases h with
  | idle copyStatus => exact ⟨rfl, fun i sub' hi => .inl ⟨sub', hi, rfl⟩⟩
  | submit copying page origin legacyUrlsEnabled ready =>
    rw [PageState.submit, if_neg (by simp [ready])]
    refine ⟨rfl, fun i sub' hi => ?_⟩
    by_cases hold : i < s.submissions.length
    · rw [List.getElem?_append_left hold] at hi
      exact .inl ⟨sub', hi, rfl⟩
    · obtain ⟨hlt, -⟩ := List.getElem?_eq_some_iff.mp hi
      simp only [List.length_append, List.length_singleton] at hlt
      obtain rfl : i = s.submissions.length := by omega
      rw [List.getElem?_append_right (Nat.le_refl _), Nat.sub_self] at hi
      cases hi
      exact .inr ⟨rfl, by simp, rfl⟩
  | advance hi keeps handler => exact ⟨rfl, fun j sub' hj => .inl (hset hi (by rw [keeps.same]) j sub' hj)⟩
  | resolve hi made fresh => exact ⟨rfl, fun j sub' hj => .inl (hset hi (by rfl) j sub' hj)⟩
  | fail hi running => exact ⟨rfl, fun j sub' hj => .inl (hset hi (by rfl) j sub' hj)⟩
  | navigate hi running resolved fresh => exact ⟨rfl, fun j sub' hj => .inl (hset hi (by rfl) j sub' hj)⟩
  | display hi running resolved fresh => exact ⟨rfl, fun j sub' hj => .inl (hset hi (by rfl) j sub' hj)⟩

/-- The revision counts the edits, and the submissions know theirs. -/
theorem begun_reached (values : ConfigurationForm) (events : List PageEvent) :
    (reached isUrl encode values events).configurationRevision = edits events ∧
    ∀ i sub, (reached isUrl encode values events).submissions[i]? = some sub → Begun isUrl encode values events i sub := by
  induction events using List.reverseRecOn with
  | nil => exact ⟨rfl, fun i sub h => by simp [reached, run, opened] at h⟩
  | append_singleton events e ih =>
    obtain ⟨hrevision, hbegun⟩ := ih
    rw [reached_snoc, edits_append]
    rcases edit_or_moves e with ⟨v, rfl, heq⟩ | ⟨hedits, hm⟩
    · rw [heq]
      exact ⟨congrArg (· + 1) hrevision, fun i sub hi => (hbegun i sub hi).snoc rfl _⟩
    · obtain ⟨hsame, hsubs⟩ := hm.submissions
      refine ⟨by rw [hsame, hrevision, hedits]; rfl, fun i sub' hi => ?_⟩
      rcases hsubs i sub' hi with ⟨sub, hsub, heq⟩ | ⟨rfl, hlen, heq⟩
      · exact (hbegun i sub hsub).snoc heq e
      · refine ⟨events, e, [], rfl, rfl, ?_, ?_⟩
        · rw [reached_snoc, hlen]
        · rw [heq, hrevision, edits_append, hedits]
          rfl

/-- No edit came after a submission whose revision is the page's. -/
theorem no_edit_since {i : Nat} {sub : Submission} (hi : (reached isUrl encode values events).submissions[i]? = some sub)
    (hfresh : (reached isUrl encode values events).unchanged sub = true) :
    ∃ before click after, events = before ++ click :: after ∧
      (reached isUrl encode values before).submissions.length = i ∧
      (reached isUrl encode values (before ++ [click])).submissions.length = i + 1 ∧ ∀ v, PageEvent.edit v ∉ after := by
  obtain ⟨hrevision, hbegun⟩ : (reached isUrl encode values events).configurationRevision = _ ∧ _ := begun_reached values events
  obtain ⟨before, click, after, hevents, hbefore, hclick, hsub⟩ := hbegun i sub hi
  refine ⟨before, click, after, hevents, hbefore, hclick, edit_not_mem ?_⟩
  have heq : edits events = edits (before ++ [click]) := by
    rw [← hrevision, ← hsub]
    exact beq_iff_eq.mp hfresh
  have hsplit : events = (before ++ [click]) ++ after := by simp [hevents]
  rw [hsplit, edits_append] at heq
  omega

theorem Inv.navigated (h : s.Inv encode) {s' : PageState} {target : Str} (hm : Moves encode s s' (some (.navigate target))) :
    ∃ url, target = stremioUrl url ∧ s.GeneratedFrom encode url s.values := by
  cases hm with
  | navigate hi running resolved fresh =>
    have hmem := List.mem_of_getElem? hi
    exact ⟨_, rfl, h.generatedFrom hmem (h.resolved _ hmem _ resolved) fresh⟩

theorem Moves.resolved {s' : PageState} {i : Nat} {url : Str} (hm : Moves encode s s' (some (.resolve i url))) :
    ∃ sub, s.submissions[i]? = some sub ∧ s.unchanged sub = true := by
  cases hm with
  | resolve hi made fresh => exact ⟨_, hi, fresh⟩

theorem inFlight_put {i : Nat} {sub sub' : Submission} (hi : s.submissions[i]? = some sub)
    (hhandler : sub'.handler = .settled ↔ sub.handler = .settled) {j : Nat} (hj : s.InFlight j) : (s.put i sub').InFlight j := by
  obtain ⟨a, ha, hrunning⟩ := hj
  by_cases hij : i = j
  · subst hij
    obtain rfl : sub = a := Option.some.inj (hi.symm.trans ha)
    exact ⟨sub', List.getElem?_set_self (List.getElem?_eq_some_iff.mp hi).1, fun heq => hrunning (hhandler.mp heq)⟩
  · exact ⟨a, (List.getElem?_set_ne hij).trans ha, hrunning⟩

/-- A step that settles a submission leaves the page ready. -/
theorem Inv.settled (h : s.Inv encode) {s' : PageState} {action : Option PageAction} (hm : Moves encode s s' action) {i : Nat}
    (hi : s.InFlight i) (hsettled : ¬ s'.InFlight i) : s'.submitting = false ∧ s'.busy = false := by
  cases hm with
  | idle copyStatus => exact absurd hi hsettled
  | submit copying page origin legacyUrlsEnabled ready =>
    rw [(h.inFlight i hi).1] at ready
    cases ready
  | advance hj keeps handler => exact absurd (inFlight_put hj handler hi) hsettled
  | resolve hj made fresh => exact absurd (inFlight_put hj (by rfl) hi) hsettled
  | fail hj running => exact ⟨rfl, rfl⟩
  | navigate hj running resolved fresh => exact ⟨rfl, rfl⟩
  | display hj running resolved fresh => exact ⟨rfl, rfl⟩

variable (isUrl encode) in
/-- **A stale manifest URL is never installed or shown**, in any order of
edits, clicks and answers: a URL that is shown, or that the page goes to, was
made of the values the form has; the promise gets a URL only when no edit came
after its submission's click; one submission is in flight at most; and when
one settles, the next click begins another. -/
theorem manifest_url_never_stale (values : ConfigurationForm) (events : List PageEvent) :
    ((reached isUrl encode values events).manifestUrl ≠ [] →
      (reached isUrl encode values events).GeneratedFrom encode (reached isUrl encode values events).manifestUrl
        (reached isUrl encode values events).values) ∧
    (∀ e target, ((reached isUrl encode values events).step isUrl encode e).2 = some (.navigate target) →
      ∃ url, target = stremioUrl url ∧
        (reached isUrl encode values events).GeneratedFrom encode url (reached isUrl encode values events).values) ∧
    (∀ e i url, ((reached isUrl encode values events).step isUrl encode e).2 = some (.resolve i url) →
      ∃ before click after, events = before ++ click :: after ∧
        (reached isUrl encode values before).submissions.length = i ∧
        (reached isUrl encode values (before ++ [click])).submissions.length = i + 1 ∧ ∀ v, PageEvent.edit v ∉ after) ∧
    (∀ i j, (reached isUrl encode values events).InFlight i → (reached isUrl encode values events).InFlight j → i = j) ∧
    ∀ e i, (reached isUrl encode values events).InFlight i →
      ¬ (reached isUrl encode values (events ++ [e])).InFlight i →
      (reached isUrl encode values (events ++ [e])).busy = false ∧
      ∀ copying page origin legacyUrlsEnabled,
        ((reached isUrl encode values (events ++ [e])).submit copying page origin legacyUrlsEnabled).submissions.length =
          (reached isUrl encode values (events ++ [e])).submissions.length + 1 := by
  have h : (reached isUrl encode values events).Inv encode := inv_reached values events
  refine ⟨h.shown, ?_, ?_, ?_, ?_⟩
  · intro e target haction
    rcases edit_or_moves e with ⟨v, -, heq⟩ | ⟨-, hm⟩
    · rw [heq] at haction
      cases haction
    · rw [haction] at hm
      exact h.navigated hm
  · intro e i url haction
    rcases edit_or_moves e with ⟨v, -, heq⟩ | ⟨-, hm⟩
    · rw [heq] at haction
      cases haction
    · rw [haction] at hm
      obtain ⟨sub, hi, hfresh⟩ := hm.resolved
      exact no_edit_since hi hfresh
  · intro i j hi hj
    have hilast := (h.inFlight i hi).2
    have hjlast := (h.inFlight j hj).2
    omega
  · intro e i hi hsettled
    rw [reached_snoc] at hsettled ⊢
    rcases edit_or_moves e with ⟨v, -, heq⟩ | ⟨-, hm⟩
    · rw [heq] at hsettled
      exact absurd hi hsettled
    · obtain ⟨hready, hbusy⟩ := h.settled hm hi hsettled
      refine ⟨hbusy, fun copying page origin legacyUrlsEnabled => ?_⟩
      rw [submit, if_neg (by simp [hready])]
      simp

/-- A copy that succeeds shows the URL; an edit takes it away again. -/
example : ([[], [PageEvent.edit oneCollection]].map fun later =>
    (reached isWebUrl (fun _ => []) oneCollection ([.submit true (some (pageWith [])) "https://plexio.example".toList false,
      .validated 0, .created 0 (.id "s1".toList) [], .generated 0, .copied 0 true, .resumed 0, .resumed 0] ++ later)).manifestUrl) =
    ["https://plexio.example/s1/manifest.json".toList, []] := by
  decide +kernel

end PageState

end Steps

end Plexio
