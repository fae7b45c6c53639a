/-
The manifest's catalogs, and where a request for one of them goes
(`get_manifest` and `get_catalog` of `routers/addon.py`). Section keys, the
ids made for collections and the fixed ids of the two hubs share one
namespace, which `get_catalog` takes apart by equality and by prefix.

Validation leaves room for two slips: a section may be of a type that the
manifest has no catalog for, and its key may be taken for one of the other
ids. `catalogs_served` says that every advertised catalog is served, from
what it stands for, exactly when neither happens; `advertised_not_served` is
one configuration for each.
-/
import Plexio.LookupCache

namespace Plexio

open Py Json

/-! ## The manifest -/

def sortOptions : List (String × String) :=
  [("Title", "title"), ("Title (desc)", "title:desc"), ("Year", "year"), ("Year (desc)", "year:desc"),
    ("Release Date", "originallyAvailableAt"), ("Release Date (desc)", "originallyAvailableAt:desc"),
    ("Critic Rating", "rating"), ("Critic Rating (desc)", "rating:desc"), ("Audience Rating", "audienceRating"),
    ("Audience Rating (desc)", "audienceRating:desc"), ("Rating", "userRating"), ("Rating (desc)", "userRating:desc"),
    ("Content Rating", "contentRating"), ("Content Rating (desc)", "contentRating:desc"), ("Duration", "duration"),
    ("Duration (desc)", "duration:desc"), ("Progress", "viewOffset"), ("Progress (desc)", "viewOffset:desc"),
    ("Plays", "viewCount"), ("Plays (desc)", "viewCount:desc"), ("Date Added", "addedAt"),
    ("Date Added (desc)", "addedAt:desc"), ("Date Viewed", "lastViewedAt"), ("Date Viewed (desc)", "lastViewedAt:desc"),
    ("ResolutionSelected", "mediaHeight"), ("ResolutionSelected (desc)", "mediaHeight:desc"), ("Bitrate", "mediaBitrate"),
    ("Bitrate (desc)", "mediaBitrate:desc"), ("Randomly", "random")]

structure CatalogExtra where
  name : Str
  isRequired : Option Bool := none
  options : Option (List Str) := none

/-- `StremioCatalogManifest` -/
structure CatalogEntry where
  id : Str
  type : StremioMediaType
  name : Str
  extra : List CatalogExtra

/-- What a `StremioManifest` says of the configuration. -/
structure Manifest where
  name : Str
  description : Str
  catalogs : List CatalogEntry
  configurationRequired : Bool

def onDeckId : Str := "plexio-ondeck".toList
def recentId : Str := "plexio-recent".toList
def collectionPrefix : Str := "plexio-collection-".toList

def skipExtra : CatalogExtra := { name := "skip".toList, isRequired := some false }

section Manifest
variable {Y : Yarl} (c : AddonConfiguration Y)

/-- `any(PLEX_TO_STREMIO_MEDIA_TYPE.get(s.type) == stremio_type for s in configuration.sections)` -/
def hasType (stremioType : StremioMediaType) : Bool :=
  c.sections.any fun s => plexToStremioMediaType s.type == some stremioType

def hubEntry (id : Str) (stremioType : StremioMediaType) (title : String) : CatalogEntry where
  id := id
  type := stremioType
  name := title.toList ++ " | ".toList ++ c.serverName
  extra := [skipExtra]

def sectionEntry (s : PlexLibrarySection) : Except Exc CatalogEntry := do
  let type ← index (plexToStremioMediaType s.type)
  pure { id := s.key, type, name := s.title ++ " | ".toList ++ c.serverName
         extra := [skipExtra, { name := "search".toList, isRequired := some false },
           { name := "sort".toList, options := some (sortOptions.map (·.1.toList)) }] }

/-- `next` finds no section: a `StopIteration`, which a coroutine raises as a `RuntimeError`. -/
def collectionEntry (x : PlexCollectionCatalog) : Except Exc CatalogEntry := do
  let section_ ← match c.sections.find? (·.key == x.sectionKey) with
    | some s => pure s
    | none => .error .runtime
  let type ← index (plexToStremioMediaType x.type)
  pure { id := x.catalogId, type
         name := "Collection: ".toList ++ x.title ++ " (".toList ++ section_.title ++ ") | ".toList ++ c.serverName
         extra := [skipExtra] }

/-- `get_manifest` of a configured add-on: its catalogs. -/
def manifestCatalogs : Except Exc (List CatalogEntry) := do
  let hasMovie := hasType c .movie
  let hasSeries := hasType c .series
  let hubs :=
    (if hasMovie then [hubEntry c onDeckId .movie "Continue Watching - Movies"] else []) ++
      (if hasSeries then [hubEntry c onDeckId .series "Continue Watching - Shows"] else []) ++
      (if hasMovie then [hubEntry c recentId .movie "Recently Added - Movies"] else []) ++
      (if hasSeries then [hubEntry c recentId .series "Recently Added - Shows"] else [])
  let sections ← c.sections.mapM (sectionEntry c)
  let collections ← c.configuredCollections.mapM (collectionEntry c)
  pure (hubs ++ sections ++ collections)

def getManifest (configuration : Option (AddonConfiguration Y)) (installationId sessionId : Option Str) :
    Except Exc Manifest :=
  let name := "Plexio".toList
  let description := "Play movies and series from plex.tv.".toList
  match configuration with
  | none => pure { name, description, catalogs := [], configurationRequired := true }
  | some c => do
    let catalogs ← manifestCatalogs c
    pure { name := name ++ " (".toList ++ c.serverName ++ ")".toList
           description := description ++ " Your installation ID: ".toList ++
             (orStr installationId sessionId).getD "None".toList
           catalogs, configurationRequired := false }

end Manifest

/-! ## Requests for a catalog -/

/-- The extras of a path, the last of a name first. -/
def parseExtras (extra : Str) : List (Str × Str) :=
  (split '&' extra).foldl (fun extras value =>
    match partition ['='] value with
    | (_, [], _) => extras
    | (key, _, item) => (key, item) :: extras) []

/-- What a catalog's content is asked of Plex for. -/
inductive CatalogSource
  | onDeck (type : StremioMediaType)
  | recent (type : StremioMediaType) (skip : Nat)
  | collection (collection : PlexCollectionCatalog) (skip : Nat)
  | library (sectionId search : Str) (skip : Nat) (sort : Str)
  deriving DecidableEq

section Route
variable (U : Unicode)

def skipOf (extras : List (Str × Str)) : Nat :=
  match extras.lookup "skip".toList with
  | none => 0
  | some s => ((parseInt U.decimal s).getD 0).toNat

/-- The collection with the id and the type. -/
def findCollection (catalogId : Str) (stremioType : StremioMediaType) :
    List PlexCollectionCatalog → Except Exc (Option PlexCollectionCatalog)
  | [] => .ok none
  | x :: xs =>
    if x.catalogId = catalogId then do
      let type ← index (plexToStremioMediaType x.type)
      if type = stremioType then pure (some x) else findCollection catalogId stremioType xs
    else findCollection catalogId stremioType xs

/-- `get_catalog` up to what it asks Plex for. -/
def catalogSource {Y : Yarl} (c : AddonConfiguration Y) (stremioType : StremioMediaType) (catalogId extra : Str) :
    Except Exc CatalogSource :=
  let extras := parseExtras extra
  let skip := skipOf U extras
  if catalogId = onDeckId then .ok (.onDeck stremioType)
  else if catalogId = recentId then .ok (.recent stremioType skip)
  else if startswith catalogId collectionPrefix then do
    match ← findCollection catalogId stremioType c.configuredCollections with
    | none => .error httpNotFound
    | some x => pure (.collection x skip)
  else
    .ok (.library catalogId ((extras.lookup "search".toList).getD []) skip
      ((extras.lookup "sort".toList).getD "Title".toList))

end Route

/-! ## What the catalogs stand for -/

/-- A catalog, by what it is of. -/
inductive Catalog
  | onDeck (type : StremioMediaType)
  | recent (type : StremioMediaType)
  | library (librarySection : PlexLibrarySection)
  | collection (collection : PlexCollectionCatalog)

namespace Catalog

def id : Catalog → Str
  | onDeck _ => onDeckId
  | recent _ => recentId
  | library s => s.key
  | collection x => x.catalogId

def type : Catalog → Option StremioMediaType
  | onDeck t | recent t => some t
  | library s => plexToStremioMediaType s.type
  | collection x => plexToStremioMediaType x.type

/-- Where its content comes from. -/
def source (U : Unicode) (extra : Str) : Catalog → CatalogSource
  | onDeck t => .onDeck t
  | recent t => .recent t (skipOf U (parseExtras extra))
  | library s =>
    .library s.key (((parseExtras extra).lookup "search".toList).getD []) (skipOf U (parseExtras extra))
      (((parseExtras extra).lookup "sort".toList).getD "Title".toList)
  | collection x => .collection x (skipOf U (parseExtras extra))

end Catalog

section Served
variable {Y : Yarl} (U : Unicode) (c : AddonConfiguration Y)

/-- The catalogs of a configuration, in the manifest's order. -/
def AddonConfiguration.catalogs : List Catalog :=
  let types := [StremioMediaType.movie, .series].filter (hasType c)
  types.map .onDeck ++ types.map .recent ++ c.sections.map .library ++ c.configuredCollections.map .collection

/-- The entry is the catalog's, and a request for it goes to the catalog's source, whatever its extras. -/
structure Serves (catalog : Catalog) (entry : CatalogEntry) : Prop where
  id : entry.id = catalog.id
  type : some entry.type = catalog.type
  source : ∀ extra, catalogSource U c entry.type entry.id extra = .ok (catalog.source U extra)

/-- The manifest exists, each of its entries serves its catalog, and
collections have ids of their own. -/
structure AllServed : Prop where
  manifest : ∀ installationId sessionId, ∃ m, getManifest (some c) installationId sessionId = .ok m ∧
    List.Forall₂ (Serves U c) c.catalogs m.catalogs
  distinct : (c.configuredCollections.map (·.catalogId)).Nodup
  apart : ∀ x ∈ c.configuredCollections, x.catalogId ≠ onDeckId ∧ x.catalogId ≠ recentId ∧
    ∀ s ∈ c.sections, x.catalogId ≠ s.key

/-- The key is taken for a hub's or a collection's id. -/
def Reserved (key : Str) : Prop := key = onDeckId ∨ key = recentId ∨ collectionPrefix <+: key

end Served

/-! ## Ids -/

theorem prefix_catalogId (x : PlexCollectionCatalog) : collectionPrefix <+: x.catalogId :=
  (List.prefix_append _ _).trans (List.prefix_append (collectionPrefix ++ x.sectionKey) _)

theorem hubs_apart : onDeckId ≠ recentId ∧ ¬ collectionPrefix <+: onDeckId ∧ ¬ collectionPrefix <+: recentId := by
  decide +kernel

/-- A collection's id is no hub's. -/
theorem catalogId_ne_hub (x : PlexCollectionCatalog) : x.catalogId ≠ onDeckId ∧ x.catalogId ≠ recentId :=
  ⟨fun h => hubs_apart.2.1 (h ▸ prefix_catalogId x), fun h => hubs_apart.2.2 (h ▸ prefix_catalogId x)⟩

/-- A collection is found by its id, where no other has it. -/
theorem findCollection_self {xs : List PlexCollectionCatalog} (hnodup : (xs.map (·.catalogId)).Nodup)
    {x : PlexCollectionCatalog} (hx : x ∈ xs) {type : StremioMediaType} (ht : plexToStremioMediaType x.type = some type) :
    findCollection x.catalogId type xs = .ok (some x) := by
  induction xs with
  | nil => cases hx
  | cons y ys ih =>
    obtain ⟨hy, hnodup⟩ := List.nodup_cons.mp hnodup
    rw [findCollection]
    rcases List.mem_cons.mp hx with rfl | hx
    · rw [if_pos rfl, ht]
      exact if_pos rfl
    · rw [if_neg fun heq : y.catalogId = x.catalogId => hy (List.mem_map.mpr ⟨x, hx, heq.symm⟩)]
      exact ih hnodup hx

section Served
variable {Y : Yarl} {U : Unicode} {c : AddonConfiguration Y}

/-! ## Each catalog -/

theorem serves_onDeck (type : StremioMediaType) (title : String) :
    Serves U c (.onDeck type) (hubEntry c onDeckId type title) where
  id := rfl
  type := rfl
  source extra := by simp only [hubEntry, catalogSource, if_true, Catalog.source]

theorem serves_recent (type : StremioMediaType) (title : String) :
    Serves U c (.recent type) (hubEntry c recentId type title) where
  id := rfl
  type := rfl
  source extra := by simp only [hubEntry, catalogSource, hubs_apart.1.symm, if_false, if_true, Catalog.source]

theorem serves_section {s : PlexLibrarySection} (htype : s.type ≠ .episode) (hkey : ¬ Reserved s.key) :
    ∃ entry, sectionEntry c s = .ok entry ∧ Serves U c (.library s) entry := by
  obtain ⟨type, ht⟩ : ∃ type, plexToStremioMediaType s.type = some type := by
    cases hs : s.type with
    | tvShow => exact ⟨_, rfl⟩
    | movie => exact ⟨_, rfl⟩
    | episode => exact absurd hs htype
  simp only [Reserved, not_or] at hkey
  refine ⟨_, by rw [sectionEntry, ht]; rfl, rfl, ht.symm, fun extra => ?_⟩
  simp only [catalogSource, hkey.1, hkey.2.1, startswith_false.mpr hkey.2.2, if_false, Bool.false_eq_true, Catalog.source]

theorem serves_collection {x : PlexCollectionCatalog} (hx : x ∈ c.configuredCollections)
    (hnodup : (c.configuredCollections.map (·.catalogId)).Nodup)
    (hsection : sectionType c.sections x.sectionKey = some x.type) (htype : ∀ s ∈ c.sections, s.type ≠ .episode) :
    ∃ entry, collectionEntry c x = .ok entry ∧ Serves U c (.collection x) entry := by
  obtain ⟨s, hs, hkey, hst⟩ := exists_of_sectionType hsection
  obtain ⟨type, ht⟩ : ∃ type, plexToStremioMediaType x.type = some type := by
    cases hxt : x.type with
    | tvShow => exact ⟨_, rfl⟩
    | movie => exact ⟨_, rfl⟩
    | episode => exact absurd (hst.trans hxt) (htype s hs)
  obtain ⟨first, hfirst⟩ : ∃ first, c.sections.find? (·.key == x.sectionKey) = some first := by
    rw [← Option.isSome_iff_exists, List.find?_isSome]
    exact ⟨s, hs, by simpa using hkey⟩
  refine ⟨_, by rw [collectionEntry, hfirst, ht]; rfl, rfl, ht.symm, fun extra => ?_⟩
  simp only [catalogSource, catalogId_ne_hub, startswith_iff.mpr (prefix_catalogId x), if_false, if_true,
    findCollection_self hnodup hx ht]
  rfl

/-- Entries made one by one, each serving its catalog. -/
theorem exists_entries {α : Type} {xs : List α} {make : α → Except Exc CatalogEntry} (catalog : α → Catalog)
    (h : ∀ x ∈ xs, ∃ entry, make x = .ok entry ∧ Serves U c (catalog x) entry) :
    ∃ entries, xs.mapM make = .ok entries ∧ List.Forall₂ (Serves U c) (xs.map catalog) entries := by
  obtain ⟨entries, hentries⟩ := exists_forall₂ h
  refine ⟨entries, mapM_ok.mpr (hentries.imp fun _ _ h => h.1), ?_⟩
  rw [List.forall₂_map_left_iff]
  exact hentries.imp fun _ _ h => h.2

/-! ## All of them -/

/-- The entries of a configuration whose sections are films or shows, under keys of their own. -/
theorem exists_manifestCatalogs (hc : c.Accepted) (h : ∀ s ∈ c.sections, s.type ≠ .episode ∧ ¬ Reserved s.key) :
    ∃ entries, manifestCatalogs c = .ok entries ∧ List.Forall₂ (Serves U c) c.catalogs entries := by
  obtain ⟨htypes, hnodup, -⟩ := validateCollections_ok.mp hc.unique
  have hsub : c.configuredCollections.Sublist c.collections := by
    rw [AddonConfiguration.configuredCollections]
    split
    · exact List.Sublist.refl _
    · exact List.nil_sublist _
  obtain ⟨sections, hsections, hservesS⟩ := exists_entries (U := U) (c := c) .library
    fun s hs => serves_section (h s hs).1 (h s hs).2
  obtain ⟨collections, hcollections, hservesC⟩ := exists_entries (U := U) (c := c) .collection
    fun x hx => serves_collection hx (hnodup.sublist (hsub.map _)) (htypes x (hsub.subset hx)) fun s hs => (h s hs).1
  refine ⟨_, by rw [manifestCatalogs, hsections, hcollections]; rfl, ?_⟩
  refine List.rel_append (List.rel_append ?_ hservesS) hservesC
  cases hmovie : hasType c .movie <;> cases hseries : hasType c .series <;>
    simp [hmovie, hseries, serves_onDeck, serves_recent]

/-- An advertised section is of a type with catalogs, and its key is its own. -/
theorem section_of_served (h : AllServed U c) : ∀ s ∈ c.sections, s.type ≠ .episode ∧ ¬ Reserved s.key := by
  intro s hs
  obtain ⟨m, hm, hserves⟩ := h.manifest none none
  have hmem : Catalog.library s ∈ c.catalogs := by
    simp only [AddonConfiguration.catalogs, List.mem_append, List.mem_map]
    exact .inl (.inr ⟨s, hs, rfl⟩)
  obtain ⟨entry, -, hentry⟩ := exists_of_forall₂ hserves.flip _ hmem
  refine ⟨fun htype => ?_, fun hreserved => ?_⟩
  · have := hentry.type
    simp [Catalog.type, htype, plexToStremioMediaType] at this
  · -- A request for the entry goes elsewhere.
    have hsource := hentry.source []
    rw [hentry.id] at hsource
    simp only [Catalog.id, catalogSource, Catalog.source] at hsource
    rcases hreserved with hk | hk | hk
    · simp [hk] at hsource
    · simp [hk, hubs_apart.1.symm] at hsource
    · have hne : s.key ≠ onDeckId ∧ s.key ≠ recentId :=
        ⟨fun he => hubs_apart.2.1 (he ▸ hk), fun he => hubs_apart.2.2 (he ▸ hk)⟩
      simp only [hne, if_false, startswith_iff.mpr hk, if_true] at hsource
      obtain ⟨found, -, hfound⟩ := bind_ok.mp hsource
      cases found <;> cases hfound

/-- **Every advertised catalog is served from what it stands for**, exactly
when every section is a library of films or of shows whose key is not taken
for another catalog's id. -/
theorem catalogs_served (U : Unicode) {j : Json} (h : AddonConfiguration.check Y j = .ok c) :
    AllServed U c ↔ ∀ s ∈ c.sections, s.type ≠ .episode ∧ ¬ Reserved s.key := by
  refine ⟨section_of_served, fun hsections => ?_⟩
  have hc := AddonConfiguration.accepted_of_check h
  obtain ⟨-, hnodup, -⟩ := validateCollections_ok.mp hc.unique
  refine ⟨fun installationId sessionId => ?_, ?_, fun x _ => ⟨(catalogId_ne_hub x).1, (catalogId_ne_hub x).2, ?_⟩⟩
  · obtain ⟨entries, hentries, hserves⟩ := exists_manifestCatalogs (U := U) hc hsections
    exact ⟨_, by rw [getManifest, hentries]; rfl, hserves⟩
  · rw [AddonConfiguration.configuredCollections]
    split
    · exact hnodup
    · exact List.nodup_nil
  · intro s hs heq
    exact (hsections s hs).2 (.inr (.inr (heq ▸ prefix_catalogId x)))

/-- The sample's hubs, sections and collection are all served. -/
theorem catalogs_served_sample : AllServed .ascii AddonConfiguration.sample := by
  refine (catalogs_served .ascii AddonConfiguration.check_sample).mpr ?_
  simp only [Reserved]
  decide +kernel

/-- The sample with another section, and without collections. -/
def withSection (s : PlexLibrarySection) : AddonConfiguration Yarl.plain :=
  { AddonConfiguration.sample with sections := [s], collections := [] }

/-- **Not all advertised catalogs are served**: a section of episodes is
accepted, and its manifest raises; a section with a hub's key is accepted, and
its catalog is the hub's. -/
theorem advertised_not_served :
    (∃ c : AddonConfiguration Yarl.plain, AddonConfiguration.check Yarl.plain (.obj c.storageMembers) = .ok c ∧
      ∀ installationId sessionId, ¬ ∃ m, getManifest (some c) installationId sessionId = .ok m) ∧
    ∃ c : AddonConfiguration Yarl.plain, AddonConfiguration.check Yarl.plain (.obj c.storageMembers) = .ok c ∧
      ⟨onDeckId, "Clips".toList, .movie⟩ ∈ c.sections ∧
      catalogSource .ascii c .movie onDeckId [] = .ok (.onDeck .movie) ∧ ¬ AllServed .ascii c := by
  have haccepted : ∀ s : PlexLibrarySection, s.Accepted → (withSection s).Accepted := fun s hs =>
    { AddonConfiguration.sample_accepted with
      sections := ⟨by simp [withSection], List.forall_mem_cons.mpr ⟨hs, by simp⟩⟩
      collections := ⟨by simp [withSection], fun x hx => by cases hx⟩
      unique := rfl }
  refine ⟨⟨withSection ⟨"1".toList, "Clips".toList, .episode⟩, ?_, ?_⟩,
    ⟨withSection ⟨onDeckId, "Clips".toList, .movie⟩, ?_, List.mem_singleton.mpr rfl, rfl, fun hserved => ?_⟩⟩
  · exact AddonConfiguration.check_storage_self (haccepted _ ⟨by decide, by decide⟩) AddonConfiguration.sample_urls
  · rintro installationId sessionId ⟨m, hm⟩
    cases hm
  · exact AddonConfiguration.check_storage_self (haccepted _ ⟨by decide, by decide⟩) AddonConfiguration.sample_urls
  · exact (section_of_served hserved _ (List.mem_singleton.mpr rfl)).2 (.inl rfl)

end Served

end Plexio
