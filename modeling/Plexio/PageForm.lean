/-
A visit of the configure page: the form's values, its two hooks, and what the
user clicks, with the answers of the backend between any two clicks
(`ConfigurationForm`, `ServerNameField`, `SectionsField`, `CollectionsField`).

A click is rendered, and its effects run, before the next event; when the
page's owner passes it other servers or another account, the effects run later.

Of a server whose libraries do not change, `page_submissions` is what the page
submits at any moment of any visit: its collections are refused only while the
sections of the server are not there.
-/
import Mathlib.Data.List.Nodup
import Plexio.PageFetches

namespace Plexio

open Py Effects

/-! ## The page -/

structure FormPage where
  servers : List (Ref PlexServer)
  accountToken : Str
  clientIdentifier : Str
  values : ConfigurationForm
  sections : State SectionsInputs SectionsInputs (List PlexLibrarySection) SectionsShown
  collections : State CollectionsInputs CollectionsDeps (List PlexCollection) CollectionsShown

/-- What comes back of a request. -/
inductive Arrival (ρ : Type)
  | answer (i : Nat) (response : ρ)
  | handle (i : Nat)
  | settle (i : Nat)

inductive FormEvent
  /-- The page's owner renders it with these. -/
  | props (servers : List (Ref PlexServer)) (accountToken clientIdentifier : Str)
  /-- The effects of the last render run. -/
  | effects
  | chooseServer (serverName : Str)
  | chooseDiscoveryUrl (discoveryUrl : Str)
  | clickSection (item : PlexLibrarySection)
  | switchCollections
  | clickCollection (item : PlexCollection)
  /-- Any other field. -/
  | fill (values : ConfigurationForm)
  | sections (arrival : Arrival (Option (Option (List PlexLibrarySection))))
  | collections (arrival : Arrival (Nat → PlexLibrarySection → Option (Option (List CollectionItem))))

/-- `defaultValues`. A text that is not given is empty here. -/
def defaultValues : ConfigurationForm where
  serverName := []
  discoveryUrl := []
  streamingUrl := []
  sections := []
  includeCollections := false
  collections := []
  includeDirectPlay := true
  includeConnectionFallbacks := false
  includeTranscodeOriginal := false
  includeTranscodeDown := false
  transcodeDownQualities := none
  includePlexTv := false
  reportPlayback := false
  proxyStreams := true

/-- The checkbox of a section. -/
def toggleSection (item : PlexLibrarySection) (sections : List PlexLibrarySection) : List PlexLibrarySection :=
  if sections.any (·.key == item.key) then sections.filter (·.key != item.key) else sections ++ [item]

/-- The checkbox of a collection. -/
def toggleCollection (item : PlexCollection) (collections : List PlexCollectionCatalog) : List PlexCollectionCatalog :=
  if collections.any fun x => x.ratingKey == item.ratingKey && x.sectionKey == item.sectionKey then
    collections.filter fun x => x.ratingKey != item.ratingKey || x.sectionKey != item.sectionKey
  else collections ++ [⟨item.ratingKey, item.sectionKey, item.title, item.type⟩]

namespace FormPage
variable (p : FormPage)

/-- The server of the name chosen. None is chosen while it is empty, which no item of the select is. -/
def server : Option (Ref PlexServer) :=
  if p.values.serverName = [] then none else p.servers.find? (·.value.name == p.values.serverName)

def sectionsInputs : SectionsInputs := ⟨p.values.discoveryUrl, p.server, p.accountToken, p.clientIdentifier⟩

def collectionsInputs : CollectionsInputs :=
  { p.sectionsInputs with sections := p.values.sections, enabled := p.values.includeCollections }

/-- The effects of a render. -/
def runEffects : FormPage :=
  { p with
    sections := usePMSSections.step p.sections (.render p.sectionsInputs)
    collections := usePMSCollections.step p.collections (.render p.collectionsInputs) }

/-- The form's values change, by a click: the page is rendered, and its effects run. -/
def change (values : ConfigurationForm) : FormPage := { p with values }.runEffects

/-- `onValueChange` of `ServerNameField` -/
def chooseServer (serverName : Str) : FormPage :=
  p.change
    { p.values with
      serverName, discoveryUrl := [], streamingUrl := [], sections := [], includeCollections := false, collections := [] }

/-- A section is clicked, if it is there. -/
def clickSection (item : PlexLibrarySection) : FormPage :=
  if p.values.discoveryUrl ≠ [] ∧ p.sections.shown.error = false ∧ item ∈ p.sections.shown.sections then
    p.change { p.values with sections := toggleSection item p.values.sections }
  else p

/-- The checkboxes of the collections are there. -/
def offersCollections : Prop :=
  p.values.discoveryUrl ≠ [] ∧ p.values.includeCollections = true ∧ p.values.sections ≠ [] ∧
    p.collections.shown.loading = false

instance : Decidable p.offersCollections := by unfold offersCollections; infer_instance

def clickCollection (item : PlexCollection) : FormPage :=
  if p.offersCollections ∧ item ∈ p.collections.shown.collections then
    p.change { p.values with collections := toggleCollection item p.values.collections }
  else p

/-- The other fields. -/
def fill (values : ConfigurationForm) : FormPage :=
  p.change
    { values with
      serverName := p.values.serverName
      discoveryUrl := p.values.discoveryUrl
      sections := p.values.sections
      includeCollections := p.values.includeCollections
      collections := p.values.collections }

def sectionsArrival : Arrival (Option (Option (List PlexLibrarySection))) → FormPage
  | .answer i response => { p with sections := usePMSSections.step p.sections (.answer i (getSections response)) }
  | .handle i => { p with sections := usePMSSections.step p.sections (.handle i) }
  | .settle i => { p with sections := usePMSSections.step p.sections (.settle i) }

variable (localeCompare : Str → Str → Int)

/-- The answer is made of the responses for the sections of the request. -/
def collectionsArrival : Arrival (Nat → PlexLibrarySection → Option (Option (List CollectionItem))) → FormPage
  | .answer i respond =>
    match p.collections.requests[i]? with
    | some r =>
      { p with
        collections :=
          usePMSCollections.step p.collections (.answer i (getCollections localeCompare r.inputs.sections respond)) }
    | none => p
  | .handle i => { p with collections := usePMSCollections.step p.collections (.handle i) }
  | .settle i => { p with collections := usePMSCollections.step p.collections (.settle i) }

def step : FormEvent → FormPage
  | .props servers accountToken clientIdentifier => { p with servers, accountToken, clientIdentifier }
  | .effects => p.runEffects
  | .chooseServer serverName => p.chooseServer serverName
  | .chooseDiscoveryUrl discoveryUrl => p.change { p.values with discoveryUrl }
  | .clickSection item => p.clickSection item
  | .switchCollections => p.change { p.values with includeCollections := !p.values.includeCollections }
  | .clickCollection item => p.clickCollection item
  | .fill values => p.fill values
  | .sections arrival => p.sectionsArrival arrival
  | .collections arrival => p.collectionsArrival localeCompare arrival

end FormPage

/-- The page when its first effects have run. -/
def FormPage.opened (servers : List (Ref PlexServer)) (accountToken clientIdentifier : Str) : FormPage :=
  FormPage.runEffects
    { servers, accountToken, clientIdentifier
      values := defaultValues
      sections := .initial .initial
      collections := .initial .initial }

/-! ## The libraries of a server -/

section Library
variable (library : Str → Str → Option PlexMediaType)

/-- An answer lists the libraries of the server asked, by their keys, with their types. -/
def ListsLibrary (inputs : SectionsInputs) (items : List PlexLibrarySection) : Prop :=
  ∀ server, inputs.server = some server →
    (∀ x ∈ items, library server.value.name x.key = some x.type) ∧
      ∀ key type, library server.value.name key = some type → key ∈ items.map (·.key)

/-- The sections asked about are of the server asked. -/
def SectionsOf (inputs : CollectionsInputs) : Prop :=
  ∀ server, inputs.server = some server → ∀ x ∈ inputs.sections, library server.value.name x.key = some x.type

/-- The collections answered are of sections of the server asked, with their types. -/
def CollectionsOf (inputs : CollectionsInputs) (items : List PlexCollection) : Prop :=
  ∀ server, inputs.server = some server → ∀ x ∈ items, library server.value.name x.sectionKey = some x.type

/-- The libraries are the same at each answer. -/
def FormEvent.Truthful (p : FormPage) : FormEvent → Prop
  | .sections (.answer i response) =>
    ∀ r, p.sections.requests[i]? = some r → ∀ items, getSections response = some items → ListsLibrary library r.inputs items
  | _ => True

/-- The pages of a visit. -/
inductive FormPage.Visited (localeCompare : Str → Str → Int) : FormPage → Prop
  | opened (servers : List (Ref PlexServer)) (accountToken clientIdentifier : Str) :
      Visited localeCompare (.opened servers accountToken clientIdentifier)
  | step {p : FormPage} (e : FormEvent) :
      Visited localeCompare p → e.Truthful library p → Visited localeCompare (p.step localeCompare e)

/-! ## What holds during a visit -/

/-- What is known of the requests, of what is shown and of the values. -/
structure FormPage.Held (p : FormPage) : Prop where
  sectionsShow : usePMSSections.Shows .initial p.sections
  collectionsShow : usePMSCollections.Shows .initial p.collections
  sectionsKept : Hook.Kept (fun _ => True) (ListsLibrary library) p.sections
  collectionsKept : Hook.Kept (SectionsOf library) (CollectionsOf library) p.collections
  sections : ∀ x ∈ p.values.sections, library p.values.serverName x.key = some x.type
  collections : ∀ x ∈ p.values.collections, library p.values.serverName x.sectionKey = some x.type
  once : (p.values.collections.map fun x => (x.sectionKey, x.ratingKey)).Nodup

end Library

/-- The last effects were of a server of the name chosen. -/
structure FormPage.Aligned (p : FormPage) : Prop where
  sections : ∃ inputs, p.sections.deps = some inputs ∧
    ∀ server, inputs.server = some server → server.value.name = p.values.serverName
  collections : ∃ deps, p.collections.deps = some deps ∧
    ∀ server, deps.server = some server → server.value.name = p.values.serverName

theorem FormPage.server_name {p : FormPage} {server : Ref PlexServer} (h : p.server = some server) :
    server.value.name = p.values.serverName := by
  rw [FormPage.server] at h
  split at h
  · cases h
  · have hname := List.find?_some h
    exact eq_of_beq hname

/-- A request is of a server. -/
theorem server_of_request {inputs : SectionsInputs} (h : inputs.request.isSome = true) :
    ∃ server, inputs.server = some server := by
  rw [SectionsInputs.request] at h
  split at h
  · next server hserver => exact ⟨server, hserver⟩
  · cases h

/-- Whatever the effects before. -/
theorem FormPage.runEffects_aligned (p : FormPage) : p.runEffects.Aligned :=
  ⟨⟨_, Hook.step_render p.sections p.sectionsInputs, fun _ h => server_name (p := p) h⟩,
    ⟨_, Hook.step_render p.collections p.collectionsInputs, fun _ h => server_name (p := p) h⟩⟩

section Visit
variable {library : Str → Str → Option PlexMediaType} {localeCompare : Str → Str → Int} {p : FormPage}

namespace FormPage

/-- An event of the sections' hook. -/
theorem Held.stepSections (h : p.Held library) (e : Event SectionsInputs (List PlexLibrarySection))
    (hbrings : Hook.Brings usePMSSections (fun _ => True) (ListsLibrary library) p.sections e) :
    ({ p with sections := usePMSSections.step p.sections e } : FormPage).Held library :=
  { h with
    sectionsShow := Hook.step_shows usePMSSections_resets h.sectionsShow e
    sectionsKept := Hook.step_kept h.sectionsKept hbrings }

/-- An event of the collections' hook. -/
theorem Held.stepCollections (h : p.Held library) (e : Event CollectionsInputs (List PlexCollection))
    (hbrings : Hook.Brings usePMSCollections (SectionsOf library) (CollectionsOf library) p.collections e) :
    ({ p with collections := usePMSCollections.step p.collections e } : FormPage).Held library :=
  { h with
    collectionsShow := Hook.step_shows usePMSCollections_resets h.collectionsShow e
    collectionsKept := Hook.step_kept h.collectionsKept hbrings }

theorem Held.runEffects (h : p.Held library) : p.runEffects.Held library := by
  refine Held.stepCollections (h.stepSections (.render p.sectionsInputs) fun _ => trivial) (.render p.collectionsInputs) ?_
  intro _ server hserver x hx
  exact (server_name (p := p) hserver).symm ▸ h.sections x hx

/-- Other values of the form, of which the same is known. -/
theorem Held.change (h : p.Held library) {values : ConfigurationForm}
    (hsections : ∀ x ∈ values.sections, library values.serverName x.key = some x.type)
    (hcollections : ∀ x ∈ values.collections, library values.serverName x.sectionKey = some x.type)
    (honce : (values.collections.map fun x => (x.sectionKey, x.ratingKey)).Nodup) : (p.change values).Held library :=
  Held.runEffects (p := { p with values }) { h with sections := hsections, collections := hcollections, once := honce }

/-- What the abstract fetch has loaded lists the libraries of the server chosen. -/
theorem Held.loaded (h : p.Held library) (ha : p.Aligned) {items : List PlexLibrarySection}
    (hitems : fetchOf p.sections = .loaded items) :
    (∀ x ∈ items, library p.values.serverName x.key = some x.type) ∧
      ∀ key type, library p.values.serverName key = some type → key ∈ items.map (·.key) := by
  obtain ⟨r, hr, hdeps, hasks, hresult⟩ := loaded_answered h.sectionsShow hitems
  obtain ⟨inputs, hinputs, hname⟩ := ha.sections
  obtain rfl : r.inputs = inputs := Option.some.inj (hdeps.symm.trans hinputs)
  obtain ⟨server, hserver⟩ := server_of_request hasks
  rw [← hname server hserver]
  exact (h.sectionsKept r hr).2 items hresult server hserver

/-- The sections shown are libraries of the server chosen. -/
theorem Held.shown_section (h : p.Held library) (ha : p.Aligned) {x : PlexLibrarySection}
    (hx : x ∈ p.sections.shown.sections) : library p.values.serverName x.key = some x.type := by
  obtain ⟨inputs, hinputs, -⟩ := ha.sections
  have hitems := (usePMSSections_view (p.sections.active.bind p.sections.stage)).1
  rw [← h.sectionsShow.viewed (by rw [hinputs]; exact Option.some_ne_none _)] at hitems
  have hne : (fetchOf p.sections).items ≠ [] := List.ne_nil_of_mem (hitems ▸ hx)
  exact (h.loaded ha (Fetch.loaded_of_items hne)).1 x (hitems ▸ hx)

/-- The collections shown are of libraries of the server chosen. -/
theorem Held.shown_collection (h : p.Held library) (ha : p.Aligned) {x : PlexCollection}
    (hx : x ∈ p.collections.shown.collections) : library p.values.serverName x.sectionKey = some x.type := by
  obtain ⟨deps, hdeps, hname⟩ := ha.collections
  have hitems := usePMSCollections_view (p.collections.active.bind p.collections.stage)
  rw [← h.collectionsShow.viewed (by rw [hdeps]; exact Option.some_ne_none _)] at hitems
  have hne : (fetchOf p.collections).items ≠ [] := List.ne_nil_of_mem (hitems ▸ hx)
  obtain ⟨r, hr, hrdeps, hasks, hresult⟩ := loaded_answered h.collectionsShow (Fetch.loaded_of_items hne)
  obtain rfl := Option.some.inj (hrdeps.symm.trans hdeps)
  simp only [usePMSCollections, Bool.and_eq_true] at hasks
  obtain ⟨server, hserver⟩ := server_of_request hasks.1.2
  rw [← hname server hserver]
  exact (h.collectionsKept r hr).2 _ hresult server hserver x (hitems ▸ hx)

/-! ## The steps -/

theorem Held.clickSection (h : p.Held library) (ha : p.Aligned) (item : PlexLibrarySection) :
    (p.clickSection item).Held library := by
  rw [FormPage.clickSection]
  split
  · next hthere =>
    refine h.change (fun x hx => ?_) h.collections h.once
    rw [toggleSection] at hx
    split at hx
    · exact h.sections x (List.mem_filter.mp hx).1
    · obtain hx | hx := List.mem_append.mp hx
      · exact h.sections x hx
      · rw [List.mem_singleton.mp hx]
        exact h.shown_section ha hthere.2.2
  · exact h

theorem toggleCollection_once {item : PlexCollection} {collections : List PlexCollectionCatalog}
    (h : (collections.map fun x => (x.sectionKey, x.ratingKey)).Nodup) :
    ((toggleCollection item collections).map fun x => (x.sectionKey, x.ratingKey)).Nodup := by
  rw [toggleCollection]
  split
  · exact h.sublist (List.filter_sublist.map _)
  · next hnew =>
    rw [List.map_append, List.nodup_append]
    refine ⟨h, List.nodup_singleton _, fun a ha b hb hab => hnew ?_⟩
    obtain ⟨x, hx, rfl⟩ := List.mem_map.mp ha
    rw [List.map_singleton, List.mem_singleton] at hb
    rw [hb, Prod.mk.injEq] at hab
    exact List.any_eq_true.mpr ⟨x, hx, by simp [hab.1, hab.2]⟩

theorem Held.clickCollection (h : p.Held library) (ha : p.Aligned) (item : PlexCollection) :
    (p.clickCollection item).Held library := by
  rw [FormPage.clickCollection]
  split
  · next hthere =>
    refine h.change h.sections (fun x hx => ?_) (toggleCollection_once h.once)
    rw [toggleCollection] at hx
    split at hx
    · exact h.collections x (List.mem_filter.mp hx).1
    · obtain hx | hx := List.mem_append.mp hx
      · exact h.collections x hx
      · rw [List.mem_singleton.mp hx]
        exact h.shown_collection ha hthere.2
  · exact h

theorem mapM_some_mem {α β : Type} {f : α → Option β} {as : List α} {bs : List β} (h : as.mapM f = some bs) {b : β}
    (hb : b ∈ bs) : ∃ a ∈ as, f a = some b := by
  induction as generalizing bs with
  | nil =>
    obtain rfl : bs = [] := by simpa using h.symm
    cases hb
  | cons a as ih =>
    rw [List.mapM_cons] at h
    obtain ⟨b', hb', h⟩ := Option.bind_eq_some_iff.mp h
    obtain ⟨bs', hbs', h⟩ := Option.bind_eq_some_iff.mp h
    obtain rfl : b' :: bs' = bs := Option.some.inj h
    obtain rfl | hb := List.mem_cons.mp hb
    · exact ⟨a, List.mem_cons_self, hb'⟩
    · obtain ⟨x, hx, hfx⟩ := ih hbs' hb
      exact ⟨x, List.mem_cons_of_mem _ hx, hfx⟩

/-- A collection that is answered is of a section asked about. -/
theorem getCollections_section {sections : List PlexLibrarySection}
    {respond : Nat → PlexLibrarySection → Option (Option (List CollectionItem))} {items : List PlexCollection}
    (h : getCollections localeCompare sections respond = some items) {y : PlexCollection} (hy : y ∈ items) :
    ∃ x ∈ sections, y.sectionKey = x.key ∧ y.type = x.type := by
  obtain ⟨responses, hresponses, hitems⟩ := Option.bind_eq_some_iff.mp h
  obtain rfl := Option.some.inj hitems
  obtain ⟨response, hresponse, hy⟩ := List.mem_flatten.mp (List.mem_mergeSort.mp hy)
  obtain ⟨⟨x, i⟩, hx, hmade⟩ := mapM_some_mem hresponses hresponse
  obtain ⟨collections, -, hmade⟩ := Option.bind_eq_some_iff.mp hmade
  obtain rfl := Option.some.inj hmade
  obtain ⟨item, -, rfl⟩ := List.mem_map.mp hy
  obtain ⟨-, hlt, hget⟩ := List.mem_zipIdx hx
  exact ⟨x, hget ▸ List.getElem_mem _, rfl, rfl⟩

theorem Held.sectionsArrival (h : p.Held library)
    {arrival : Arrival (Option (Option (List PlexLibrarySection)))}
    (htruthful : (FormEvent.sections arrival).Truthful library p) : (p.sectionsArrival arrival).Held library := by
  cases arrival with
  | answer i response => exact h.stepSections (.answer i (getSections response)) htruthful
  | handle i => exact h.stepSections (.handle i) trivial
  | settle i => exact h.stepSections (.settle i) trivial

theorem Held.collectionsArrival (h : p.Held library)
    (arrival : Arrival (Nat → PlexLibrarySection → Option (Option (List CollectionItem)))) :
    (p.collectionsArrival localeCompare arrival).Held library := by
  cases arrival with
  | answer i respond =>
    rw [FormPage.collectionsArrival]
    split
    · next r hr =>
      refine h.stepCollections (.answer i _) fun r' hr' items hitems server hserver y hy => ?_
      obtain rfl : r' = r := Option.some.inj (hr'.symm.trans hr)
      obtain ⟨x, hx, hkey, htype⟩ := getCollections_section hitems hy
      rw [hkey, htype]
      exact (h.collectionsKept r' (List.mem_of_getElem? hr')).1 server hserver x hx
    · exact h
  | handle i => exact h.stepCollections (.handle i) trivial
  | settle i => exact h.stepCollections (.settle i) trivial

/-- **A step keeps what is known of the page.** -/
theorem Held.step (h : p.Held library) (ha : p.Aligned) {e : FormEvent} (htruthful : e.Truthful library p) :
    (p.step localeCompare e).Held library := by
  cases e with
  | props => exact { h with }
  | effects => exact h.runEffects
  | chooseServer serverName => exact h.change (fun x hx => by cases hx) (fun x hx => by cases hx) List.nodup_nil
  | chooseDiscoveryUrl | switchCollections | fill => exact h.change h.sections h.collections h.once
  | clickSection item => exact h.clickSection ha item
  | clickCollection item => exact h.clickCollection ha item
  | sections arrival => exact h.sectionsArrival htruthful
  | collections arrival => exact h.collectionsArrival arrival

/-- The page after an event that leaves the effects as they are. -/
theorem Aligned.kept (ha : p.Aligned) {p' : FormPage} (hvalues : p'.values = p.values)
    (hsections : p'.sections.deps = p.sections.deps) (hcollections : p'.collections.deps = p.collections.deps) :
    p'.Aligned := by
  obtain ⟨hs, hc⟩ := ha
  constructor
  · rwa [hvalues, hsections]
  · rwa [hvalues, hcollections]

/-- A step leaves the effects as they are, or runs them. -/
theorem Aligned.step (ha : p.Aligned) (e : FormEvent) : (p.step localeCompare e).Aligned := by
  cases e with
  | props => exact ha.kept rfl rfl rfl
  | effects | chooseServer | chooseDiscoveryUrl | switchCollections | fill => exact runEffects_aligned _
  | clickSection item =>
    rw [FormPage.step, FormPage.clickSection]
    split
    · exact runEffects_aligned _
    · exact ha
  | clickCollection item =>
    rw [FormPage.step, FormPage.clickCollection]
    split
    · exact runEffects_aligned _
    · exact ha
  | sections arrival =>
    cases arrival <;> exact ha.kept rfl (Hook.step_deps _ (fun _ h => by cases h) (fun h => by cases h)) rfl
  | collections arrival =>
    have hkept : ∀ e, (∀ d, e ≠ .render d) → e ≠ .unmount →
        ({ p with collections := usePMSCollections.step p.collections e } : FormPage).Aligned := fun e hrender hunmount =>
      ha.kept rfl rfl (Hook.step_deps _ hrender hunmount)
    cases arrival with
    | answer i respond =>
      rw [FormPage.step, FormPage.collectionsArrival]
      split
      · exact hkept _ (fun _ h => by cases h) (fun h => by cases h)
      · exact ha
    | handle i | settle i => exact hkept _ (fun _ h => by cases h) (fun h => by cases h)

theorem opened_held (servers : List (Ref PlexServer)) (accountToken clientIdentifier : Str) :
    (opened servers accountToken clientIdentifier).Held library := by
  have hnone : ∀ {α : Type} {P : α → Prop}, ∀ x ∈ ([] : List α), P x := fun x hx => absurd hx List.not_mem_nil
  exact Held.runEffects ⟨⟨fun h _ => absurd rfl h, fun h => by cases h⟩, ⟨fun h _ => absurd rfl h, fun h => by cases h⟩,
    hnone, hnone, hnone, hnone, List.nodup_nil⟩

/-- **What is known of every page of a visit.** -/
theorem Visited.held (h : p.Visited library localeCompare) : p.Held library ∧ p.Aligned := by
  induction h with
  | opened servers accountToken clientIdentifier => exact ⟨opened_held _ _ _, runEffects_aligned _⟩
  | step e _ htruthful ih => exact ⟨ih.1.step ih.2 htruthful, ih.2.step e⟩

end FormPage

/-! ## What the page submits -/

/-- The page that a submission is made of, if a server is chosen. -/
def FormPage.submitting (p : FormPage) (version : Str) : Option ConfigurePage :=
  p.server.map fun server => ⟨version, server.value, fetchOf p.sections, fetchOf p.collections⟩

/-- The values of every page of a visit are well selected. -/
theorem FormPage.Held.wellSelected (h : p.Held library) : WellSelected p.values := by
  refine ⟨h.once, fun x hx s hs hkey => ?_⟩
  have hsection := h.sections s hs
  rw [hkey, h.collections x hx] at hsection
  exact (Option.some.inj hsection).symm

/-- **A submission is refused for its collections only while the sections are not there.**
At any moment of a visit, of a server whose libraries do not change, the values
are well selected; and what the page submits of them is valid, as far as its
collections go, exactly when the sections are loaded or no collection is sent. -/
theorem page_submissions (h : p.Visited library localeCompare) {isUrl : Str → Bool}
    (hschema : formSchema isUrl p.values = true) {version : Str} {page : ConfigurePage}
    (hpage : p.submitting version = some page) :
    WellSelected p.values ∧
      (validateCollections (page.submitted p.values).sections [] (page.submitted p.values).collections = .ok () ↔
        (∃ items, fetchOf p.sections = .loaded items) ∨ (page.submitted p.values).collections = []) := by
  obtain ⟨hheld, haligned⟩ := h.held
  have hselected := hheld.wellSelected
  have hsections : page.sections = fetchOf p.sections := by
    obtain ⟨server, -, rfl⟩ := Option.map_eq_some_iff.mp hpage
    rfl
  refine ⟨hselected, ?_⟩
  rw [validateCollections_ok]
  constructor
  · intro hvalid
    obtain ⟨htypes, -, -⟩ := hvalid
    refine or_iff_not_imp_right.mpr fun hsome => ?_
    obtain ⟨x, hx⟩ := List.exists_mem_of_ne_nil _ hsome
    obtain ⟨s, hs, -⟩ := exists_of_sectionType (htypes x hx)
    have hloaded := (mem_submitted_sections.mp hs).2
    rw [hsections] at hloaded
    exact ⟨_, Fetch.loaded_of_items fun hnil => by rw [hnil] at hloaded; cases hloaded⟩
  · intro hvalid
    refine ⟨fun x hx => ?_, submitted_catalogIds_nodup hschema hselected, fun x _ hmem => by cases hmem⟩
    obtain ⟨-, hmem, hsection, -⟩ := mem_submitted_collections.mp hx
    refine sectionType_of_types (fun s hs hkey => hselected.types x hmem s (mem_submitted_sections.mp hs).1 hkey) ?_
    obtain ⟨items, hitems⟩ | hnil := hvalid
    · obtain ⟨s, hs, hkey⟩ := List.mem_map.mp hsection
      have hlisted := (hheld.loaded haligned hitems).2 _ _ (hheld.collections x hmem)
      refine List.mem_map.mpr ⟨s, mem_submitted_sections.mpr ⟨hs, ?_⟩, hkey⟩
      rw [hsections, hitems, hkey]
      exact hlisted
    · rw [hnil] at hx
      cases hx

end Visit

/-! ## A visit -/

/-- A server with one library. -/
def oneLibrary (_serverName key : Str) : Option PlexMediaType := if key = "1".toList then some .movie else none

def compareTexts (a b : Str) : Int := if a = b then 0 else if utf16Units a < utf16Units b then -1 else 1

def oneLibraryUrl : Str := "http://plex.example:32400".toList

/-- The library and its collection are selected as they come. -/
def oneVisit : List FormEvent :=
  [.chooseServer "Home".toList, .fill { defaultValues with streamingUrl := oneLibraryUrl },
    .chooseDiscoveryUrl oneLibraryUrl,
    .sections (.answer 0 (some (some [⟨"1".toList, "Films".toList, .movie⟩]))), .sections (.handle 0),
    .clickSection ⟨"1".toList, "Films".toList, .movie⟩, .switchCollections,
    .collections (.answer 0 fun _ _ => some (some [⟨"7".toList, "Best".toList⟩])), .collections (.handle 0),
    .collections (.settle 0), .clickCollection ⟨"7".toList, "1".toList, "Films".toList, "Best".toList, .movie⟩]

def oneVisited : FormPage :=
  oneVisit.foldl (FormPage.step · compareTexts)
    (.opened [⟨0, ⟨"Home".toList, "t0ken".toList, []⟩⟩] "acc0unt".toList "client".toList)

theorem oneVisited_visited : oneVisited.Visited oneLibrary compareTexts := by
  unfold oneVisited oneVisit
  simp only [List.foldl]
  iterate 7 refine .step _ ?_ trivial
  refine .step _ ?_ fun r _ items hitems server _ => ?_
  · iterate 3 refine .step _ ?_ trivial
    exact .opened _ _ _
  · obtain rfl := Option.some.inj hitems
    refine ⟨fun x hx => by rw [List.mem_singleton.mp hx]; rfl, fun key type hkey => ?_⟩
    rw [oneLibrary] at hkey
    split at hkey
    · next h => exact h ▸ List.mem_singleton_self _
    · cases hkey

/-- The page of its submission. -/
def onePage : ConfigurePage :=
  ⟨"0.4.3".toList, ⟨"Home".toList, "t0ken".toList, []⟩, fetchOf oneVisited.sections, fetchOf oneVisited.collections⟩

theorem page_submissions_oneVisit :
    (onePage.submitted oneVisited.values).collections = [⟨"7".toList, "1".toList, "Best".toList, .movie⟩] ∧
      validateCollections (onePage.submitted oneVisited.values).sections []
        (onePage.submitted oneVisited.values).collections = .ok () := by
  refine ⟨by decide +kernel, ?_⟩
  have hschema : formSchema isWebUrl oneVisited.values = true := by decide +kernel
  have hserver : oneVisited.server = some ⟨0, ⟨"Home".toList, "t0ken".toList, []⟩⟩ := by decide +kernel
  have hpage : oneVisited.submitting "0.4.3".toList = some onePage := by rw [FormPage.submitting, hserver]; rfl
  have hloaded : (fetchOf oneVisited.sections).items ≠ [] := by decide +kernel
  exact (page_submissions oneVisited_visited hschema hpage).2.mpr (.inl ⟨_, Fetch.loaded_of_items hloaded⟩)

end Plexio
