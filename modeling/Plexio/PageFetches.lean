/-
The fetches of the configure page as the source writes them (`usePMSSections`,
`usePMSCollections`): effects that send a request when what they depend on
changes, with the requests answered in any order.

`fetches_current`: event by event, each is the page's abstract `Fetch`; and what
it shows was answered to a request of the inputs of now, never to an older one.
-/
import Plexio.Lib.Effects
import Plexio.ConfigurePage

namespace Plexio

open Py Effects

deriving instance DecidableEq for PlexConnection, PlexServer, PlexCollection

/-- An object, which is compared by where it is. None is changed once it is
made, so two of one address are one. -/
structure Ref (α : Type) where
  address : Nat
  value : α
  deriving DecidableEq

/-! ## What is asked -/

structure PlexConnectionRequest where
  serverUrl : Str
  serverName : Str
  serverToken : Str
  accountToken : Str
  clientIdentifier : Str
  deriving DecidableEq

/-- What `usePMSSections` is called with. -/
structure SectionsInputs where
  serverUrl : Str
  server : Option (Ref PlexServer)
  accountToken : Str
  clientIdentifier : Str
  deriving DecidableEq

/-- The request, unless an input is missing. -/
def SectionsInputs.request (inputs : SectionsInputs) : Option PlexConnectionRequest :=
  match inputs.server with
  | some server =>
    if inputs.serverUrl ≠ [] ∧ inputs.accountToken ≠ [] ∧ inputs.clientIdentifier ≠ [] then
      some ⟨inputs.serverUrl, server.value.name, server.value.accessToken, inputs.accountToken, inputs.clientIdentifier⟩
    else none
  | none => none

/-- What `usePMSCollections` is called with. -/
structure CollectionsInputs extends SectionsInputs where
  sections : List PlexLibrarySection
  enabled : Bool

/-- The code units of a JavaScript string, by which `sort` compares. -/
def utf16Units (s : Str) : List Nat :=
  s.flatMap fun c =>
    if c.toNat < 0x10000 then [c.toNat]
    else [0xD800 + (c.toNat - 0x10000) / 0x400, 0xDC00 + (c.toNat - 0x10000) % 0x400]

/-- `${section.key}:${section.type}` -/
def sectionText (x : PlexLibrarySection) : Str := x.key ++ ':' :: x.type.value

def sectionSignature (sections : List PlexLibrarySection) : Str :=
  [','].intercalate
    ((sections.map sectionText).mergeSort fun a b => !(utf16Units b).lex (utf16Units a) fun x y => decide (x < y))

/-! ## What is answered -/

/-- `getSections`, of a response with or without a list of sections, or of none. -/
def getSections (response : Option (Option (List PlexLibrarySection))) : Option (List PlexLibrarySection) := response.join

/-- An item of a response of `/plex-collections`. -/
structure CollectionItem where
  ratingKey : Str
  title : Str

section Collections
variable (localeCompare : Str → Str → Int)

/-- `a.sectionTitle.localeCompare(b.sectionTitle) || a.title.localeCompare(b.title)` -/
def compareCollections (a b : PlexCollection) : Int :=
  let order := localeCompare a.sectionTitle b.sectionTitle
  if order ≠ 0 then order else localeCompare a.title b.title

/-- `getCollections`: what is answered of each section, unless one of the requests fails. -/
def getCollections (sections : List PlexLibrarySection)
    (respond : Nat → PlexLibrarySection → Option (Option (List CollectionItem))) : Option (List PlexCollection) := do
  let responses ← sections.zipIdx.mapM fun (x, i) => do
    let collections ← respond i x
    pure ((collections.getD []).map fun item => (⟨item.ratingKey, x.key, x.title, item.title, x.type⟩ : PlexCollection))
  pure (responses.flatten.mergeSort fun a b => decide (compareCollections localeCompare a b ≤ 0))

end Collections

/-! ## The hooks -/

structure SectionsShown where
  sections : List PlexLibrarySection
  loading : Bool
  error : Bool

/-- Every input is a dependency. -/
def usePMSSections : Hook SectionsInputs SectionsInputs (List PlexLibrarySection) SectionsShown where
  deps inputs := inputs
  asks inputs := inputs.request.isSome
  start asking _ := ⟨[], asking, false⟩
  handle answer shown :=
    match answer with
    | some items => { shown with sections := items }
    | none => { shown with error := true }
  settle shown := { shown with loading := false }

structure CollectionsShown where
  collections : List PlexCollection
  loading : Bool

/-- The dependencies of `usePMSCollections`: of the sections, their signature. -/
structure CollectionsDeps where
  accountToken : Str
  clientIdentifier : Str
  enabled : Bool
  sectionSignature : Str
  server : Option (Ref PlexServer)
  serverUrl : Str
  deriving DecidableEq

def usePMSCollections : Hook CollectionsInputs CollectionsDeps (List PlexCollection) CollectionsShown where
  deps inputs :=
    ⟨inputs.accountToken, inputs.clientIdentifier, inputs.enabled, sectionSignature inputs.sections, inputs.server,
      inputs.serverUrl⟩
  asks inputs := inputs.enabled && inputs.request.isSome && !inputs.sections.isEmpty
  start asking _ := ⟨[], asking⟩
  handle answer shown :=
    match answer with
    | some items => { shown with collections := items }
    | none => shown
  settle shown := { shown with loading := false }

theorem usePMSSections_resets : usePMSSections.Resets := fun _ _ _ => rfl

theorem usePMSCollections_resets : usePMSCollections.Resets := fun _ _ _ => rfl

/-- What is shown before the first effect. -/
def SectionsShown.initial : SectionsShown := ⟨[], false, false⟩

def CollectionsShown.initial : CollectionsShown := ⟨[], false⟩

/-! ## The abstract fetch -/

section Abstract
variable {δ κ σ β : Type}

/-- Where the abstract fetch is, of a request at a stage or of none. -/
def fetchAt : Option (Stage (List β)) → Fetch β
  | none => .idle
  | some .asked | some (.answered _) => .loading
  | some (.handled (some items)) | some (.settled (some items)) => .loaded items
  | some (.handled none) | some (.settled none) => .failed

def fetchOf (s : State δ κ (List β) σ) : Fetch β := fetchAt (s.active.bind s.stage)

variable [DecidableEq κ] (hook : Hook δ κ (List β) σ)

/-- What the abstract fetch has of an event of the hook. -/
def heard (s : State δ κ (List β) σ) : Event δ (List β) → List (FetchEvent β)
  | .render d => if s.deps = some (hook.deps d) then [] else [.inputs (hook.asks d)]
  | .unmount => [.inputs false]
  | .answer _ _ | .settle _ => []
  | .handle i =>
    match s.stage i with
    | some (.answered (some items)) => if s.active = some i then [.resolved items] else []
    | some (.answered none) => if s.active = some i then [.rejected] else []
    | _ => []

def heardIn : State δ κ (List β) σ → List (Event δ (List β)) → List (FetchEvent β)
  | _, [] => []
  | s, e :: events => heard hook s e ++ heardIn (hook.step s e) events

omit [DecidableEq κ] in
/-- The active request of an advanced state. -/
theorem stage_advance (s : State δ κ (List β) σ) {i : Nat} {stage : Stage (List β)} (hi : s.stage i = some stage)
    (stage' : Stage (List β)) :
    (s.active.bind (s.advance i stage').stage) = if s.active = some i then some stage' else s.active.bind s.stage := by
  cases hactive : s.active with
  | none => rfl
  | some j =>
    rw [Option.bind_some, State.stage, State.getElem?_advance, Option.map_map]
    by_cases hij : i = j
    · subst hij
      rw [State.stage, Option.map_eq_some_iff] at hi
      obtain ⟨r, hr, -⟩ := hi
      simp [hr]
    · rw [if_neg fun hj => hij (Option.some.inj hj).symm, Option.bind_some, State.stage]
      congr 1
      funext r
      simp [hij]

/-- **The abstract fetch takes the steps it hears of.** -/
theorem fetchOf_step (s : State δ κ (List β) σ) (e : Event δ (List β)) :
    fetchOf (hook.step s e) = (heard hook s e).foldl Fetch.step (fetchOf s) := by
  cases e with
  | render d =>
    simp only [Hook.step, heard]
    split
    · rfl
    · cases hook.asks d with
      | true => simp [fetchOf, State.stage, fetchAt, Fetch.step]
      | false => simp [fetchOf, fetchAt, Fetch.step]
  | unmount => simp [Hook.step, heard, fetchOf, fetchAt, Fetch.step]
  | answer i o =>
    simp only [Hook.step, heard, List.foldl_nil]
    split
    · next hi =>
      rw [fetchOf, show (s.advance i (.answered o)).active = s.active from rfl, stage_advance s hi]
      split
      · next hactive => rw [fetchOf, hactive, Option.bind_some, hi]; rfl
      · rfl
    · rfl
  | handle i =>
    simp only [Hook.step, heard]
    split
    · next o hi =>
      have hstage := stage_advance s hi (.handled o)
      rw [show fetchOf (((s.advance i (.handled o)).show i (hook.handle o))) =
        fetchAt (s.active.bind (s.advance i (.handled o)).stage) from rfl, hstage]
      by_cases hactive : s.active = some i
      · have hloading : fetchOf s = .loading := by rw [fetchOf, hactive, Option.bind_some, hi]; rfl
        rw [if_pos hactive, hloading]
        cases o <;> simp [hi, hactive, fetchAt, Fetch.step]
      · rw [if_neg hactive]
        cases o <;> simp [hi, hactive, fetchOf]
    · next hi =>
      split
      · next items h => exact absurd h (hi _)
      · next h => exact absurd h (hi _)
      · rfl
  | settle i =>
    simp only [Hook.step, heard, List.foldl_nil]
    split
    · next o hi =>
      rw [show fetchOf ((s.advance i (.settled o)).show i hook.settle) =
        fetchAt (s.active.bind (s.advance i (.settled o)).stage) from rfl, stage_advance s hi]
      split
      · next hactive =>
        rw [fetchOf, hactive, Option.bind_some, hi]
        cases o <;> rfl
      · rfl
    · rfl

theorem fetchOf_run (events : List (Event δ (List β))) : ∀ s : State δ κ (List β) σ,
    fetchOf (events.foldl hook.step s) = (heardIn hook s events).foldl Fetch.step (fetchOf s) := by
  induction events with
  | nil => exact fun s => rfl
  | cons e events ih =>
    intro s
    rw [List.foldl_cons, ih, heardIn, List.foldl_append, fetchOf_step]

end Abstract

/-! ## What the hooks show -/

/-- What is shown and what the abstract fetch has. -/
theorem usePMSSections_view (stage : Option (Stage (List PlexLibrarySection))) :
    (usePMSSections.viewAt .initial stage).sections = (fetchAt stage).items ∧
      ((usePMSSections.viewAt .initial stage).error = true ↔ fetchAt stage = .failed) := by
  obtain _ | _ | _ | (_ | _) | (_ | _) := stage <;>
    simp [Hook.viewAt, Hook.view, usePMSSections, fetchAt, Fetch.items]

theorem usePMSCollections_view (stage : Option (Stage (List PlexCollection))) :
    (usePMSCollections.viewAt .initial stage).collections = (fetchAt stage).items := by
  obtain _ | _ | _ | (_ | _) | (_ | _) := stage <;>
    simp [Hook.viewAt, Hook.view, usePMSCollections, fetchAt, Fetch.items]

/-- What the abstract fetch has loaded was answered to a request of the dependencies of now. -/
theorem loaded_answered {δ κ σ β : Type} {hook : Hook δ κ (List β) σ} {shown : σ} {s : State δ κ (List β) σ}
    (h : hook.Shows shown s) {items : List β} (hitems : fetchOf s = .loaded items) :
    ∃ r ∈ s.requests, s.deps = some (hook.deps r.inputs) ∧ hook.asks r.inputs = true ∧ r.stage.result = some items := by
  cases hactive : s.active with
  | none =>
    rw [fetchOf, hactive] at hitems
    cases hitems
  | some i =>
    obtain ⟨r, hr, hdeps, hasks, -⟩ := h.asking hactive
    rw [fetchOf, hactive, Option.bind_some, State.stage, hr, Option.map_some] at hitems
    refine ⟨r, List.mem_of_getElem? hr, hdeps, hasks, ?_⟩
    generalize r.stage = stage at hitems ⊢
    obtain _ | _ | (_ | _) | (_ | _) := stage <;> cases hitems <;> rfl

theorem Fetch.loaded_of_items {β : Type} {f : Fetch β} (h : f.items ≠ []) : f = .loaded f.items := by
  cases f with
  | loaded items => rfl
  | idle | loading | failed => exact absurd rfl h

/-- **The page shows what was answered to its inputs of now.** Whatever the
requests before did, and in whatever order: what the hooks show is the abstract
fetch after the events it hears of, and a list that is shown was answered to a
request of the inputs of now; the collections', to one of sections of the same signature. -/
theorem fetches_current :
    (∀ (events : List (Event SectionsInputs (List PlexLibrarySection))) (d : SectionsInputs),
      let s := usePMSSections.run .initial events
      s.deps = some (usePMSSections.deps d) →
        fetchOf s = Fetch.run (heardIn usePMSSections (.initial .initial) events) ∧
        s.shown.sections = (fetchOf s).items ∧ (s.shown.error = true ↔ fetchOf s = .failed) ∧
        (s.shown.sections ≠ [] → ∃ r ∈ s.requests, r.inputs = d ∧ r.stage.result = some s.shown.sections)) ∧
    ∀ (events : List (Event CollectionsInputs (List PlexCollection))) (d : CollectionsInputs),
      let s := usePMSCollections.run .initial events
      s.deps = some (usePMSCollections.deps d) →
        fetchOf s = Fetch.run (heardIn usePMSCollections (.initial .initial) events) ∧
        s.shown.collections = (fetchOf s).items ∧
        (s.shown.collections ≠ [] → ∃ r ∈ s.requests, r.inputs.toSectionsInputs = d.toSectionsInputs ∧
          r.inputs.enabled = d.enabled ∧ sectionSignature r.inputs.sections = sectionSignature d.sections ∧
          r.stage.result = some s.shown.collections) := by
  constructor
  · intro events d s hd
    have hshows : usePMSSections.Shows .initial s := Hook.run_shows usePMSSections_resets events
    obtain ⟨hitems, herror⟩ := usePMSSections_view (s.active.bind s.stage)
    rw [← hshows.viewed (by rw [hd]; exact Option.some_ne_none _)] at hitems herror
    refine ⟨fetchOf_run usePMSSections events (.initial .initial), hitems, herror, fun hne => ?_⟩
    obtain ⟨r, hr, hdeps, -, hresult⟩ := loaded_answered hshows (Fetch.loaded_of_items (hitems ▸ hne))
    exact ⟨r, hr, Option.some.inj (hdeps.symm.trans hd), hresult.trans (congrArg some hitems.symm)⟩
  · intro events d s hd
    have hshows : usePMSCollections.Shows .initial s := Hook.run_shows usePMSCollections_resets events
    have hitems := usePMSCollections_view (s.active.bind s.stage)
    rw [← hshows.viewed (by rw [hd]; exact Option.some_ne_none _)] at hitems
    refine ⟨fetchOf_run usePMSCollections events (.initial .initial), hitems, fun hne => ?_⟩
    obtain ⟨r, hr, hdeps, -, hresult⟩ := loaded_answered hshows (Fetch.loaded_of_items (hitems ▸ hne))
    replace hdeps := Option.some.inj (hdeps.symm.trans hd)
    refine ⟨r, hr, ?_, ?_, ?_, hresult.trans (congrArg some hitems.symm)⟩
    all_goals
      obtain ⟨⟨⟨url, server, token, client⟩, sections, enabled⟩, stage⟩ := r
      obtain ⟨⟨url', server', token', client'⟩, sections', enabled'⟩ := d
      simp only [usePMSCollections, CollectionsDeps.mk.injEq] at hdeps
      obtain ⟨rfl, rfl, rfl, hsignature, rfl, rfl⟩ := hdeps
    · rfl
    · rfl
    · exact hsignature

/-- The server at one of two addresses. -/
def homeAt (url : Str) : SectionsInputs :=
  ⟨url, some ⟨0, ⟨"Home".toList, "t0ken".toList, []⟩⟩, "acc0unt".toList, "client".toList⟩

/-- The second address is asked after the first and answers before it. -/
def lateAnswer : List (Event SectionsInputs (List PlexLibrarySection)) :=
  [.render (homeAt "http://a".toList), .render (homeAt "http://b".toList),
    .answer 1 (some [⟨"1".toList, "Films".toList, .movie⟩]), .handle 1,
    .answer 0 (some [⟨"9".toList, "Old".toList, .movie⟩]), .handle 0, .settle 0]

theorem fetches_current_late :
    (usePMSSections.run .initial lateAnswer).shown.sections = [⟨"1".toList, "Films".toList, .movie⟩] ∧
      (usePMSSections.run .initial lateAnswer).shown.loading = true ∧
      ∃ r ∈ (usePMSSections.run .initial lateAnswer).requests, r.inputs = homeAt "http://b".toList ∧
        r.stage.result = some (usePMSSections.run .initial lateAnswer).shown.sections :=
  ⟨by decide +kernel, by decide +kernel,
    (fetches_current.1 lateAnswer (homeAt "http://b".toList) (by decide +kernel)).2.2.2 (by decide +kernel)⟩

end Plexio
