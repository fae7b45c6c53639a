/-
What the configure page submits (`createManifestUrl`): the form's values as
its schema accepts them, with the sections that are loaded and the
collections that are loaded and belong to a selected section.

The backend refuses a collection whose section is not sent with it.
`submitted_collections_valid` says when that happens: the two are filtered by
what two independent fetches have loaded.
-/
import Mathlib.Algebra.GroupWithZero.Nat
import Plexio.Storage

namespace Plexio

open Py

/-! ## Fetches -/

/-- Where a fetch of the page is (`usePMSSections`, `usePMSCollections`). -/
inductive Fetch (α : Type)
  /-- Some input is missing. -/
  | idle
  | loading
  | failed
  | loaded (items : List α)

inductive FetchEvent (α : Type)
  /-- The inputs changed, and are complete or not. -/
  | inputs (complete : Bool)
  | resolved (items : List α)
  | rejected

namespace Fetch
variable {α : Type}

/-- The items the page has. -/
def items : Fetch α → List α
  | loaded xs => xs
  | _ => []

/-- What an event does. An answer for inputs that have changed is ignored. -/
def step : Fetch α → FetchEvent α → Fetch α
  | _, .inputs complete => if complete then loading else idle
  | loading, .resolved xs => loaded xs
  | loading, .rejected => failed
  | s, _ => s

def run (events : List (FetchEvent α)) : Fetch α := events.foldl step idle

end Fetch

/-! ## The form -/

structure PlexConnection where
  uri : Str
  isLocal : Bool
  relay : Bool

structure PlexServer where
  name : Str
  accessToken : Str
  connections : List PlexConnection

/-- A collection as `getCollections` makes it, of an answer and its section. -/
structure PlexCollection where
  ratingKey : Str
  sectionKey : Str
  sectionTitle : Str
  title : Str
  type : PlexMediaType

/-- The form's values. -/
structure ConfigurationForm where
  serverName : Str
  discoveryUrl : Str
  streamingUrl : Str
  sections : List PlexLibrarySection
  includeCollections : Bool
  collections : List PlexCollectionCatalog
  includeDirectPlay : Bool
  includeConnectionFallbacks : Bool
  includeTranscodeOriginal : Bool
  includeTranscodeDown : Bool
  transcodeDownQualities : Option (List Str)
  includePlexTv : Bool
  reportPlayback : Bool
  proxyStreams : Bool

/-- The length of a JavaScript string: UTF-16 code units. -/
def utf16Length (s : Str) : Nat := (s.map fun c => if c.toNat < 0x10000 then 1 else 2).sum

/-- `z.string().min(least).max(most)` -/
def zodString (least most : Nat) (s : Str) : Bool := least ≤ utf16Length s && utf16Length s ≤ most

/-- `z.enum(['movie', 'show'])` -/
def zodType : PlexMediaType → Bool
  | .movie | .tvShow => true
  | .episode => false

/-- What the form accepts; `isUrl` is the browser's idea of a URL. -/
def formSchema (isUrl : Str → Bool) (values : ConfigurationForm) : Bool :=
  zodString 1 255 values.serverName &&
  (isUrl values.discoveryUrl && zodString 0 2048 values.discoveryUrl) &&
  (isUrl values.streamingUrl && zodString 0 2048 values.streamingUrl) &&
  (values.sections.all fun x => zodString 1 128 x.key && zodString 1 255 x.title && zodType x.type) &&
  (values.collections.all fun x =>
    isRatingKeyText x.ratingKey && (isSectionKeyText x.sectionKey && zodString 0 128 x.sectionKey) &&
      zodString 1 255 x.title && zodType x.type) &&
  values.collections.length ≤ 200

/-! ## What is submitted -/

structure NormalizedConfiguration extends ConfigurationForm where
  version : Str
  accessToken : Str
  streamingConnectionKind : PlexConnectionKind
  streamingConnections : List (Str × PlexConnectionKind)

def PlexConnection.kind (connection : PlexConnection) : PlexConnectionKind :=
  if connection.relay then .relay else if connection.isLocal then .localKind else .remote

/-- `${collection.sectionKey}:${collection.ratingKey}` -/
def collectionId (sectionKey ratingKey : Str) : Str := sectionKey ++ ':' :: ratingKey

/-- The body of the request that creates a session, given what the page has
of the server's sections and of the selected sections' collections. -/
def normalizedConfiguration (version : Str) (server : PlexServer) (sections : List PlexLibrarySection)
    (collections : List PlexCollection) (configuration : ConfigurationForm) : NormalizedConfiguration :=
  let includeConnectionFallbacks :=
    configuration.includeDirectPlay && !(configuration.reportPlayback && configuration.proxyStreams) &&
      configuration.includeConnectionFallbacks
  let configuredSectionKeys := configuration.sections.map (·.key)
  let availableCollectionIds := collections.map fun x => collectionId x.sectionKey x.ratingKey
  { configuration with
    includeConnectionFallbacks
    version
    accessToken := server.accessToken
    streamingConnectionKind :=
      match server.connections.find? (·.uri == configuration.streamingUrl) with
      | some selected => selected.kind
      | none => .remote
    streamingConnections :=
      if includeConnectionFallbacks then
        (server.connections.filter (·.uri != configuration.streamingUrl)).map fun x => (x.uri, x.kind)
      else []
    collections :=
      if configuration.includeCollections then
        configuration.collections.filter fun x =>
          decide (x.sectionKey ∈ configuredSectionKeys) && decide (collectionId x.sectionKey x.ratingKey ∈ availableCollectionIds)
      else []
    sections := configuration.sections.filter fun item => sections.any fun x => x.key == item.key }

/-- The page as it is when the form is submitted. -/
structure ConfigurePage where
  version : Str
  server : PlexServer
  sections : Fetch PlexLibrarySection
  collections : Fetch PlexCollection

/-- What this page submits of these values. -/
def ConfigurePage.submitted (page : ConfigurePage) (values : ConfigurationForm) : NormalizedConfiguration :=
  normalizedConfiguration page.version page.server page.sections.items page.collections.items values

/-- Each collection is selected once, and is of the type of its section. -/
structure WellSelected (values : ConfigurationForm) : Prop where
  once : (values.collections.map fun x => (x.sectionKey, x.ratingKey)).Nodup
  types : ∀ x ∈ values.collections, ∀ s ∈ values.sections, s.key = x.sectionKey → s.type = x.type

/-- Every selected collection that is sent has its section among those loaded. -/
def SectionsCover (page : ConfigurePage) (values : ConfigurationForm) : Prop :=
  values.includeCollections = true →
    ∀ x ∈ values.collections, x.sectionKey ∈ values.sections.map (·.key) →
      collectionId x.sectionKey x.ratingKey ∈ (page.collections.items.map fun y => collectionId y.sectionKey y.ratingKey) →
      x.sectionKey ∈ page.sections.items.map (·.key)

/-! ## What the backend makes of it -/

/-- The type of a section, where all of that key have one. -/
theorem sectionType_of_types {sections : List PlexLibrarySection} {key : Str} {type : PlexMediaType}
    (htypes : ∀ s ∈ sections, s.key = key → s.type = type) (hkey : key ∈ sections.map (·.key)) :
    sectionType sections key = some type := by
  obtain ⟨s, hs, rfl⟩ := List.mem_map.mp hkey
  obtain ⟨t, ht⟩ : ∃ t, sections.reverse.find? (·.key == s.key) = some t := by
    rw [← Option.isSome_iff_exists, List.find?_isSome]
    exact ⟨s, List.mem_reverse.mpr hs, beq_self_eq_true _⟩
  rw [sectionType, ht, Option.map_some]
  exact congrArg some (htypes t (List.mem_reverse.mp (List.mem_of_find?_eq_some ht)) (by simpa using List.find?_some ht))

/-- The id of a catalog tells its section and its rating key, which are digits. -/
theorem catalogId_inj {x y : PlexCollectionCatalog} (hx : isRatingKeyText x.ratingKey = true)
    (hy : isRatingKeyText y.ratingKey = true) (h : x.catalogId = y.catalogId) :
    (x.sectionKey, x.ratingKey) = (y.sectionKey, y.ratingKey) := by
  have hdash : ∀ {k : Str}, isRatingKeyText k = true → '-' ∉ k := fun hk hm => by
    rw [isRatingKeyText, Bool.and_eq_true, List.all_eq_true] at hk
    exact absurd (hk.2 _ hm) (by decide)
  unfold PlexCollectionCatalog.catalogId at h
  have hkeys : x.ratingKey = y.ratingKey := by
    have hlast := congrArg (afterLast '-') h
    rwa [afterLast_append _ (hdash hx), afterLast_append _ (hdash hy)] at hlast
  rw [hkeys] at h ⊢
  rw [List.append_cancel_left (List.append_cancel_right h)]

section Submitted
variable {isUrl : Str → Bool} {page : ConfigurePage} {values : ConfigurationForm}

theorem formSchema_ratingKey (h : formSchema isUrl values = true) :
    ∀ x ∈ values.collections, isRatingKeyText x.ratingKey = true := by
  simp only [formSchema, Bool.and_eq_true, List.all_eq_true] at h
  exact fun x hx => (h.1.2 x hx).1.1.1

theorem mem_submitted_collections {x : PlexCollectionCatalog} : x ∈ (page.submitted values).collections ↔
    values.includeCollections = true ∧ x ∈ values.collections ∧ x.sectionKey ∈ values.sections.map (·.key) ∧
      collectionId x.sectionKey x.ratingKey ∈ page.collections.items.map fun y => collectionId y.sectionKey y.ratingKey := by
  simp only [ConfigurePage.submitted, normalizedConfiguration]
  split
  · next h => simp only [List.mem_filter, Bool.and_eq_true, decide_eq_true_eq, h, true_and]
  · next h => simp [h]

theorem mem_submitted_sections {s : PlexLibrarySection} : s ∈ (page.submitted values).sections ↔
    s ∈ values.sections ∧ s.key ∈ page.sections.items.map (·.key) := by
  simp only [ConfigurePage.submitted, normalizedConfiguration, List.mem_filter, List.any_eq_true, beq_iff_eq, List.mem_map]

/-- The catalogs submitted have ids of their own. -/
theorem submitted_catalogIds_nodup (hschema : formSchema isUrl values = true) (hselected : WellSelected values) :
    ((page.submitted values).collections.map (·.catalogId)).Nodup := by
  have hsub : (page.submitted values).collections.Sublist values.collections := by
    simp only [ConfigurePage.submitted, normalizedConfiguration]
    split
    · exact List.filter_sublist
    · exact List.nil_sublist _
  have honce : values.collections.Pairwise fun x y => (x.sectionKey, x.ratingKey) ≠ (y.sectionKey, y.ratingKey) :=
    List.pairwise_map.mp hselected.once
  refine List.pairwise_map.mpr (List.Pairwise.sublist hsub (honce.imp_of_mem fun hx hy hne heq => hne ?_))
  exact catalogId_inj (formSchema_ratingKey hschema _ hx) (formSchema_ratingKey hschema _ hy) heq

/-- **What the page submits is valid** as far as its collections go, exactly
when the loaded sections have those of the collections that are sent. -/
theorem submitted_collections_valid (hschema : formSchema isUrl values = true) (hselected : WellSelected values) :
    validateCollections (page.submitted values).sections [] (page.submitted values).collections = .ok () ↔
      SectionsCover page values := by
  rw [validateCollections_ok]
  constructor
  · rintro ⟨htypes, -, -⟩ hinclude x hx hsection hloaded
    obtain ⟨s, hs, hkey, -⟩ := exists_of_sectionType (htypes x (mem_submitted_collections.mpr ⟨hinclude, hx, hsection, hloaded⟩))
    exact hkey ▸ (mem_submitted_sections.mp hs).2
  · intro hcover
    refine ⟨fun x hx => ?_, submitted_catalogIds_nodup hschema hselected, fun x _ hmem => by cases hmem⟩
    obtain ⟨hinclude, hmem, hsection, hloaded⟩ := mem_submitted_collections.mp hx
    refine sectionType_of_types (fun s hs hkey => ?_) ?_
    · exact hselected.types x hmem s (mem_submitted_sections.mp hs).1 hkey
    · obtain ⟨s, hs, hkey⟩ := List.mem_map.mp hsection
      have hcovered := hcover hinclude x hmem hsection hloaded
      exact List.mem_map.mpr ⟨s, mem_submitted_sections.mpr ⟨hs, hkey ▸ hcovered⟩, hkey⟩

end Submitted

/-! ## A page whose sections are still loading -/

/-- One library and one collection of it are selected. -/
def oneCollection : ConfigurationForm where
  serverName := "Home".toList
  discoveryUrl := "http://plex.example:32400".toList
  streamingUrl := "http://plex.example:32400".toList
  sections := [⟨"1".toList, "Movies".toList, .movie⟩]
  includeCollections := true
  collections := [⟨"7".toList, "1".toList, "Best".toList, .movie⟩]
  includeDirectPlay := true
  includeConnectionFallbacks := false
  includeTranscodeOriginal := false
  includeTranscodeDown := false
  transcodeDownQualities := none
  includePlexTv := false
  reportPlayback := false
  proxyStreams := true

/-- Its collections are there; of its sections, what has arrived. -/
def pageWith (events : List (FetchEvent PlexLibrarySection)) : ConfigurePage where
  version := "0.4.3".toList
  server := ⟨"Home".toList, "t0ken".toList, [⟨"http://plex.example:32400".toList, false, false⟩]⟩
  sections := Fetch.run events
  collections := Fetch.run [.inputs true, .resolved [⟨"7".toList, "1".toList, "Movies".toList, "Best".toList, .movie⟩]]

/-- A text that begins as a web address does. -/
def isWebUrl (s : Str) : Bool := startswith s "http://".toList || startswith s "https://".toList

theorem oneCollection_selected : formSchema isWebUrl oneCollection = true ∧ WellSelected oneCollection :=
  ⟨by decide +kernel, by decide +kernel, by decide +kernel⟩

theorem submitted_collections_valid_loaded :
    validateCollections ((pageWith [.inputs true, .resolved [⟨"1".toList, "Movies".toList, .movie⟩]]).submitted oneCollection).sections
      [] ((pageWith [.inputs true, .resolved [⟨"1".toList, "Movies".toList, .movie⟩]]).submitted oneCollection).collections =
        .ok () := by
  refine (submitted_collections_valid oneCollection_selected.1 oneCollection_selected.2).mpr ?_
  rintro - x hx - -
  rw [List.mem_singleton.mp hx]
  decide +kernel

/-- **A submission that must be refused**: the collections have arrived, the sections have not. -/
theorem loading_sections_refused :
    formSchema isWebUrl oneCollection = true ∧ WellSelected oneCollection ∧
      validateCollections ((pageWith [.inputs true]).submitted oneCollection).sections []
        ((pageWith [.inputs true]).submitted oneCollection).collections =
          Json.fail (.value "Collection must belong to a configured section".toList) :=
  ⟨by decide +kernel, ⟨by decide +kernel, by decide +kernel⟩, by decide +kernel⟩

end Plexio
