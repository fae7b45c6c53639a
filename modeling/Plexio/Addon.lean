/-
The add-on's configuration (`models/addon.py`): its fields, the checks that
accept one from JSON, and the dict it is stored as.

`Accepted` collects what the checks ensure. What is stored is checked again
when it is loaded, in another form: URLs are written normalised and without
trailing slashes, keys as aliases, enumerations as their values.
-/
import Plexio.Ids

namespace Plexio

open Py Json

inductive PlexMediaType
  | tvShow
  | movie
  | episode
  deriving DecidableEq, Repr

namespace PlexMediaType

def table : List (Str × PlexMediaType) :=
  [("show".toList, tvShow), ("movie".toList, movie), ("episode".toList, episode)]

def value : PlexMediaType → Str
  | tvShow => "show".toList
  | movie => "movie".toList
  | episode => "episode".toList

end PlexMediaType

inductive StremioMediaType
  | series
  | movie
  deriving DecidableEq, Repr

def StremioMediaType.value : StremioMediaType → Str
  | series => "series".toList
  | movie => "movie".toList

/-- `PLEX_TO_STREMIO_MEDIA_TYPE.get`. -/
def plexToStremioMediaType : PlexMediaType → Option StremioMediaType
  | .tvShow => some .series
  | .movie => some .movie
  | .episode => none

/-- `STREMIO_TO_PLEX_MEDIA_TYPE`. -/
def stremioToPlexMediaType : StremioMediaType → PlexMediaType
  | .series => .tvShow
  | .movie => .movie

inductive Resolution
  | r480
  | r720
  | r1080
  deriving DecidableEq, Repr

namespace Resolution

def table : List (Str × Resolution) := [("480p".toList, r480), ("720p".toList, r720), ("1080p".toList, r1080)]

def value : Resolution → Str
  | r480 => "480p".toList
  | r720 => "720p".toList
  | r1080 => "1080p".toList

end Resolution

inductive PlexConnectionKind
  | localKind
  | remote
  | relay
  deriving DecidableEq, Repr

namespace PlexConnectionKind

def table : List (Str × PlexConnectionKind) :=
  [("local".toList, localKind), ("remote".toList, remote), ("relay".toList, relay)]

def value : PlexConnectionKind → Str
  | localKind => "local".toList
  | remote => "remote".toList
  | relay => "relay".toList

end PlexConnectionKind

structure PlexLibrarySection where
  key : Str
  title : Str
  type : PlexMediaType
  deriving DecidableEq

structure PlexCollectionCatalog where
  ratingKey : Str
  sectionKey : Str
  title : Str
  type : PlexMediaType
  deriving DecidableEq

def PlexCollectionCatalog.catalogId (c : PlexCollectionCatalog) : Str :=
  "plexio-collection-".toList ++ c.sectionKey ++ '-' :: c.ratingKey

structure PlexStreamingConnection (Y : Yarl) where
  url : Y.Url
  kind : PlexConnectionKind

structure AddonConfiguration (Y : Yarl) where
  accessToken : Str
  discoveryUrl : Y.Url
  streamingUrl : Y.Url
  streamingConnectionKind : PlexConnectionKind
  streamingConnections : List (PlexStreamingConnection Y)
  serverName : Str
  version : Str
  sections : List PlexLibrarySection
  includeCollections : Bool
  collections : List PlexCollectionCatalog
  includeDirectPlay : Bool
  includeConnectionFallbacks : Bool
  includeTranscodeOriginal : Bool
  includeTranscodeDown : Bool
  transcodeDownQualities : List Resolution
  includePlexTv : Bool
  reportPlayback : Bool
  proxyStreams : Bool

/-! ## Checks -/

def anyText (_ : Str) : Bool := true

/-- `^[0-9]+$` -/
def isRatingKeyText (s : Str) : Bool := !s.isEmpty && s.all Char.isDigit

/-- `^[A-Za-z0-9._-]+$` -/
def isSectionKeyText (s : Str) : Bool :=
  !s.isEmpty && s.all fun c => c.isAlphanum || c == '.' || c == '_' || c == '-'

/-- The text of a URL is measured as it is given, before `yarl` normalises it. -/
def validatePlexUrl (Y : Yarl) : Check Y.Url
  | .str s =>
    if 2048 < s.length then fail (.value "Plex URL is too long".toList)
    else
      match Y.parse s with
      | none => fail (.value "Invalid URL".toList)
      | some url =>
        if Y.isOrigin url then .ok url
        else fail (.value "Plex URL must be an HTTP(S) origin without credentials".toList)
  | _ => fail (.value "Plex URL must be a string".toList)

def PlexLibrarySection.check : Check PlexLibrarySection
  | .obj o => do
    let key ← field id o "key" none (checkStr 1 (some 128) anyText)
    let title ← field id o "title" none (checkStr 1 (some 255) anyText)
    let type ← field id o "type" none (checkEnum PlexMediaType.table)
    pure { key, title, type }
  | _ => fail .wrongType

def PlexCollectionCatalog.fields : List String := ["rating_key", "section_key", "title", "type"]

def PlexCollectionCatalog.check : Check PlexCollectionCatalog
  | .obj o => do
    let ratingKey ← field toCamel o "rating_key" none (checkStr 0 none isRatingKeyText)
    let sectionKey ← field toCamel o "section_key" none (checkStr 0 (some 128) isSectionKeyText)
    let title ← field toCamel o "title" none (checkStr 1 (some 255) anyText)
    let type ← field toCamel o "type" none (checkEnum PlexMediaType.table)
    forbidExtra toCamel o PlexCollectionCatalog.fields
    pure { ratingKey, sectionKey, title, type }
  | _ => fail .wrongType

def PlexStreamingConnection.fields : List String := ["url", "kind"]

def PlexStreamingConnection.check (Y : Yarl) : Check (PlexStreamingConnection Y)
  | .obj o => do
    let url ← field toCamel o "url" none (validatePlexUrl Y)
    let kind ← field toCamel o "kind" (some .remote) (checkEnum PlexConnectionKind.table)
    forbidExtra toCamel o PlexStreamingConnection.fields
    pure { url, kind }
  | _ => fail .wrongType

/-- `{section.key: section.type for section in sections}.get(key)`: the last section with the key. -/
def sectionType (sections : List PlexLibrarySection) (key : Str) : Option PlexMediaType :=
  (sections.reverse.find? (·.key == key)).map (·.type)

/-- The collections belong to configured sections and are unique. -/
def validateCollections (sections : List PlexLibrarySection) : List Str → List PlexCollectionCatalog → Except Json.Error Unit
  | _, [] => .ok ()
  | seen, c :: cs =>
    if sectionType sections c.sectionKey ≠ some c.type then fail (.value "Collection must belong to a configured section".toList)
    else if c.catalogId ∈ seen then fail (.value "Collections must be unique".toList)
    else validateCollections sections (c.catalogId :: seen) cs

def AddonConfiguration.fields : List String :=
  ["access_token", "discovery_url", "streaming_url", "streaming_connection_kind", "streaming_connections", "server_name",
    "version", "sections", "include_collections", "collections", "include_direct_play", "include_connection_fallbacks",
    "include_transcode_original", "include_transcode_down", "transcode_down_qualities", "include_plex_tv",
    "report_playback", "proxy_streams"]

/-- The configuration a JSON value is accepted as, or the first error. -/
def AddonConfiguration.check (Y : Yarl) : Check (AddonConfiguration Y)
  | .obj o => do
    let accessToken ← field toCamel o "access_token" none (checkStr 1 (some 4096) anyText)
    let discoveryUrl ← field toCamel o "discovery_url" none (validatePlexUrl Y)
    let streamingUrl ← field toCamel o "streaming_url" none (validatePlexUrl Y)
    let streamingConnectionKind ←
      field toCamel o "streaming_connection_kind" (some .remote) (checkEnum PlexConnectionKind.table)
    let streamingConnections ←
      field toCamel o "streaming_connections" (some []) (checkList (some 20) (PlexStreamingConnection.check Y))
    let serverName ← field toCamel o "server_name" none (checkStr 1 (some 255) anyText)
    let version ← field toCamel o "version" (some "0.0.1".toList) (checkStr 1 (some 64) anyText)
    let sections ← field toCamel o "sections" (some []) (checkList (some 100) PlexLibrarySection.check)
    let includeCollections ← field toCamel o "include_collections" (some false) checkBool
    let collections ← field toCamel o "collections" (some []) (checkList (some 200) PlexCollectionCatalog.check)
    let includeDirectPlay ← field toCamel o "include_direct_play" (some true) checkBool
    let includeConnectionFallbacks ← field toCamel o "include_connection_fallbacks" (some false) checkBool
    let includeTranscodeOriginal ← field toCamel o "include_transcode_original" (some false) checkBool
    let includeTranscodeDown ← field toCamel o "include_transcode_down" (some false) checkBool
    let transcodeDownQualities ←
      field toCamel o "transcode_down_qualities" (some []) (checkList none (checkEnum Resolution.table))
    let includePlexTv ← field toCamel o "include_plex_tv" (some false) checkBool
    let reportPlayback ← field toCamel o "report_playback" (some false) checkBool
    let proxyStreams ← field toCamel o "proxy_streams" (some true) checkBool
    forbidExtra toCamel o AddonConfiguration.fields
    validateCollections sections [] collections
    pure { accessToken, discoveryUrl, streamingUrl, streamingConnectionKind, streamingConnections, serverName, version,
           sections, includeCollections, collections, includeDirectPlay, includeConnectionFallbacks,
           includeTranscodeOriginal, includeTranscodeDown, transcodeDownQualities, includePlexTv, reportPlayback,
           proxyStreams }
  | _ => fail .wrongType

/-- `AddonConfiguration(**config)`. -/
def AddonConfiguration.load (Y : Yarl) (config : Json.Value) : Except Exc (AddonConfiguration Y) :=
  match config.1 with
  | .obj o =>
    match AddonConfiguration.check Y (.obj o) with
    | .ok c => .ok c
    | .error e => .error (.validation e)
  | _ => .error .type

/-! ## Storage -/

def PlexLibrarySection.members (s : PlexLibrarySection) : List (Str × Json) :=
  [("key".toList, .str s.key), ("title".toList, .str s.title), ("type".toList, .str s.type.value)]

def PlexCollectionCatalog.members (c : PlexCollectionCatalog) : List (Str × Json) :=
  [("ratingKey".toList, .str c.ratingKey), ("sectionKey".toList, .str c.sectionKey), ("title".toList, .str c.title),
    ("type".toList, .str c.type.value)]

def PlexStreamingConnection.members {Y : Yarl} (c : PlexStreamingConnection Y) : List (Str × Json) :=
  [("kind".toList, .str c.kind.value), ("url".toList, .str (Y.origin c.url))]

theorem PlexLibrarySection.members_sorted (s : PlexLibrarySection) :
    (s.members.map Prod.fst).Pairwise (· < ·) ∧ Json.SortedMembers s.members := by
  refine ⟨?_, by simp [members, Json.SortedMembers, Json.Sorted]⟩
  simp only [members, List.map_cons, List.map_nil]
  decide +kernel

theorem PlexCollectionCatalog.members_sorted (c : PlexCollectionCatalog) :
    (c.members.map Prod.fst).Pairwise (· < ·) ∧ Json.SortedMembers c.members := by
  refine ⟨?_, by simp [members, Json.SortedMembers, Json.Sorted]⟩
  simp only [members, List.map_cons, List.map_nil]
  decide +kernel

theorem PlexStreamingConnection.members_sorted {Y : Yarl} (c : PlexStreamingConnection Y) :
    (c.members.map Prod.fst).Pairwise (· < ·) ∧ Json.SortedMembers c.members := by
  refine ⟨?_, by simp [members, Json.SortedMembers, Json.Sorted]⟩
  simp only [members, List.map_cons, List.map_nil]
  decide +kernel

namespace AddonConfiguration
variable {Y : Yarl} (c : AddonConfiguration Y)

def storageMembers : List (Str × Json) :=
  [("accessToken".toList, .str c.accessToken),
    ("collections".toList, .arr (c.collections.map fun x => .obj x.members)),
    ("discoveryUrl".toList, .str (Y.origin c.discoveryUrl)),
    ("includeCollections".toList, .bool c.includeCollections),
    ("includeConnectionFallbacks".toList, .bool c.includeConnectionFallbacks),
    ("includeDirectPlay".toList, .bool c.includeDirectPlay),
    ("includePlexTv".toList, .bool c.includePlexTv),
    ("includeTranscodeDown".toList, .bool c.includeTranscodeDown),
    ("includeTranscodeOriginal".toList, .bool c.includeTranscodeOriginal),
    ("proxyStreams".toList, .bool c.proxyStreams),
    ("reportPlayback".toList, .bool c.reportPlayback),
    ("sections".toList, .arr (c.sections.map fun s => .obj s.members)),
    ("serverName".toList, .str c.serverName),
    ("streamingConnectionKind".toList, .str c.streamingConnectionKind.value),
    ("streamingConnections".toList, .arr (c.streamingConnections.map fun x => .obj x.members)),
    ("streamingUrl".toList, .str (Y.origin c.streamingUrl)),
    ("transcodeDownQualities".toList, .arr (c.transcodeDownQualities.map fun r => .str r.value)),
    ("version".toList, .str c.version)]

theorem storageMembers_sorted : (Json.obj c.storageMembers).Sorted := by
  refine ⟨?_, ?_⟩
  · have : c.storageMembers.map Prod.fst = (["accessToken", "collections", "discoveryUrl", "includeCollections",
        "includeConnectionFallbacks", "includeDirectPlay", "includePlexTv", "includeTranscodeDown",
        "includeTranscodeOriginal", "proxyStreams", "reportPlayback", "sections", "serverName",
        "streamingConnectionKind", "streamingConnections", "streamingUrl", "transcodeDownQualities",
        "version"] : List String).map String.toList := rfl
    rw [this]
    decide +kernel
  · simp only [storageMembers, Json.SortedMembers, Json.Sorted, sortedItems_iff, true_and, and_true, List.mem_map,
      forall_exists_index, and_imp, forall_apply_eq_imp_iff₂]
    refine ⟨fun x _ => x.members_sorted, fun x _ => x.members_sorted, fun x _ => x.members_sorted, fun _ _ => trivial⟩

/-- The dict a configuration is stored as. -/
def toStorageDict : Json.Value := ⟨.obj c.storageMembers, c.storageMembers_sorted⟩

/-! ## Addresses -/

/-- Every URL of the configuration. -/
def configuredUrls : List Y.Url := c.discoveryUrl :: c.streamingUrl :: c.streamingConnections.map (·.url)

/-- The connections in order, each origin once. -/
def deduplicate : List Str → List (Y.Url × PlexConnectionKind) → Except Exc (List (Y.Url × PlexConnectionKind))
  | _, [] => .ok []
  | seen, (url, kind) :: rest =>
    let key := Y.origin url
    if key ∈ seen then deduplicate seen rest
    else
      match Y.parse key with
      | none => .error (.value "Invalid URL".toList)
      | some u => do
        let us ← deduplicate (key :: seen) rest
        pure ((u, kind) :: us)

def directPlayConnections : Except Exc (List (Y.Url × PlexConnectionKind)) :=
  deduplicate [] ((c.streamingUrl, c.streamingConnectionKind) ::
    if c.includeConnectionFallbacks then c.streamingConnections.map fun x => (x.url, x.kind) else [])

def configuredCollections : List PlexCollectionCatalog := if c.includeCollections then c.collections else []

end AddonConfiguration

end Plexio
