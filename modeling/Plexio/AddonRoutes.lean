/-
The routes of the application (`routers/addon.py`, `routers/configuration.py`,
`routers/plex_proxy.py`) and the addresses Stremio makes of an install's. The
path arrives decoded, so a slash of an id or of a search divides it.

`addresses_routed_iff` says that every address leads to its own handler, with
the install and the arguments it was made of, exactly when what stands between
two slashes has none; `slash_lost` is a title with one.
-/
import Plexio.CatalogExtras
import Plexio.Lib.Routes
import Plexio.PlayRoute

namespace Plexio

open Py Routes

/-! ## The table -/

/-- What answers. -/
inductive Endpoint
  | manifest
  | catalog
  | item
  | stream
  | play
  | testConnection
  | plexSections
  | plexCollections
  | publicConfig
  | health
  | healthBackend
  | sessions
  | plexToken
  | plexResources
  deriving DecidableEq

namespace Paths

def sessionId : Piece := .param "session_id".toList
def installation : Template := [.param "installation_id".toList, .param "base64_cfg".toList]
def stremioType : Piece := .param "stremio_type".toList
def lit (text : String) : Piece := .lit text.toList
def json (name : String) : Piece := .suffixed name.toList ".json".toList
def pathJson (name : String) : Piece := .rest name.toList ".json".toList

def playPieces : Template := [lit "play", .param "rating_key".toList, .param "duration".toList, .param "part_b64".toList]

/-- A route of the configuration or the proxy API. -/
def api (pieces : Template) : Template := lit "api" :: lit "v1" :: pieces

/-- The routes that answer `GET`, as they are registered: of the paths written
over one handler, the last comes first. -/
def getRoutes : List (Route Endpoint) :=
  [⟨installation ++ [lit "manifest.json"], .manifest⟩,
    ⟨[sessionId, lit "manifest.json"], .manifest⟩,
    ⟨[lit "manifest.json"], .manifest⟩,
    ⟨installation ++ [lit "catalog", stremioType, .param "catalog_id".toList, json "extra"], .catalog⟩,
    ⟨installation ++ [lit "catalog", stremioType, json "catalog_id"], .catalog⟩,
    ⟨[sessionId, lit "catalog", stremioType, .param "catalog_id".toList, json "extra"], .catalog⟩,
    ⟨[sessionId, lit "catalog", stremioType, json "catalog_id"], .catalog⟩,
    ⟨installation ++ [lit "meta", stremioType, pathJson "plex_id"], .item⟩,
    ⟨[sessionId, lit "meta", stremioType, pathJson "plex_id"], .item⟩,
    ⟨installation ++ [lit "stream", stremioType, pathJson "media_id"], .stream⟩,
    ⟨[sessionId, lit "stream", stremioType, pathJson "media_id"], .stream⟩,
    ⟨installation ++ playPieces, .play⟩,
    ⟨sessionId :: playPieces, .play⟩,
    ⟨api [lit "test-connection"], .testConnection⟩,
    ⟨api [lit "plex-sections"], .plexSections⟩,
    ⟨api [lit "plex-collections"], .plexCollections⟩,
    ⟨api [lit "public-config"], .publicConfig⟩,
    ⟨api [lit "health"], .health⟩,
    ⟨api [lit "health", sessionId], .healthBackend⟩,
    ⟨api [lit "sessions"], .sessions⟩,
    ⟨api [lit "plex-token", .param "pin_id".toList], .plexToken⟩,
    ⟨api [lit "plex-resources"], .plexResources⟩]

end Paths

open Paths

/-- The parameters of the play route, by their places. -/
def playParams : Params → Option PlayParams
  | [(_, sessionId), (_, ratingKey), (_, duration), (_, partB64)] => some { sessionId, ratingKey, duration, partB64 }
  | _ => none

/-- The play route alone is what the proxied playback is matched by. -/
theorem sessionPlayRoute_eq (path : Str) :
    sessionPlayRoute path = (Template.match? (sessionId :: playPieces) path).bind playParams := by
  rw [sessionPlayRoute, Template.match?]
  rcases split '/' path with _ | ⟨_ | ⟨c, cs⟩, _ | ⟨id, _ | ⟨play, _ | ⟨ratingKey, _ | ⟨duration, _ | ⟨part, _ | ⟨more, rest⟩⟩⟩⟩⟩⟩⟩
  all_goals simp [matchPieces, sessionId, playPieces, lit]
  -- A path of five segments is left.
  by_cases hid : id = []
  · simp [hid]
  by_cases hplay : play = "play".toList
  · by_cases hratingKey : ratingKey = []
    · simp [hid, hplay, hratingKey]
    by_cases hduration : duration = []
    · simp [hid, hplay, hratingKey, hduration]
    by_cases hpart : part = []
    · simp [hid, hplay, hratingKey, hduration, hpart]
    · simp [hid, hplay, hratingKey, hduration, hpart, playParams]
  · simp at hplay
    simp [hid, hplay]

/-! ## Addresses -/

/-- What an install's addresses begin with. -/
inductive Install
  | session (id : Str)
  | legacy (installationId base64Cfg : Str)

def Install.segments : Install → List Str
  | session id => [id]
  | legacy installationId base64Cfg => [installationId, base64Cfg]

def Install.params : Install → Params
  | session id => [("session_id".toList, id)]
  | legacy installationId base64Cfg => [("installation_id".toList, installationId), ("base64_cfg".toList, base64Cfg)]

/-- What Stremio asks of an install. -/
inductive AddonAddress
  | manifest
  | catalog (type : StremioMediaType) (catalogId : Str)
  | catalogPage (type : StremioMediaType) (catalogId : Str) (extra : ExtraArgs)
  | item (type : StremioMediaType) (plexId : Str)
  | stream (type : StremioMediaType) (mediaId : Str)
  | play (ratingKey duration partB64 : Str)

namespace AddonAddress

def endpoint : AddonAddress → Endpoint
  | manifest => .manifest
  | catalog .. | catalogPage .. => .catalog
  | item .. => .item
  | stream .. => .stream
  | play .. => .play

/-- What stands between the install's part and the last one. -/
def segments : AddonAddress → List Str
  | manifest => []
  | catalog type _ => ["catalog".toList, type.value]
  | catalogPage type catalogId _ => ["catalog".toList, type.value, catalogId]
  | item type _ => ["meta".toList, type.value]
  | stream type _ => ["stream".toList, type.value]
  | play ratingKey duration _ => ["play".toList, ratingKey, duration]

/-- The last part, as the route receives it. -/
def last : AddonAddress → Str
  | manifest => "manifest.json".toList
  | catalog _ id | item _ id | stream _ id => id ++ ".json".toList
  | catalogPage _ _ extra => extra.text ++ ".json".toList
  | play _ _ partB64 => partB64

/-- The last part, as a client writes it. -/
def lastWritten : AddonAddress → Str
  | manifest => "manifest.json".toList
  | catalog _ id | item _ id | stream _ id => encodeURIComponent id ++ ".json".toList
  | catalogPage _ _ extra => extra.path ++ ".json".toList
  | play _ _ partB64 => encodeURIComponent partB64

def params : AddonAddress → Params
  | manifest => []
  | catalog type catalogId => [("stremio_type".toList, type.value), ("catalog_id".toList, catalogId)]
  | catalogPage type catalogId extra =>
    [("stremio_type".toList, type.value), ("catalog_id".toList, catalogId), ("extra".toList, extra.text)]
  | item type plexId => [("stremio_type".toList, type.value), ("plex_id".toList, plexId)]
  | stream type mediaId => [("stremio_type".toList, type.value), ("media_id".toList, mediaId)]
  | play ratingKey duration partB64 =>
    [("rating_key".toList, ratingKey), ("duration".toList, duration), ("part_b64".toList, partB64)]

variable (i : Install) (a : AddonAddress)

/-- The path the application receives. -/
def path : Str := pathOf (i.segments ++ a.segments) a.last

/-- The path a client requests. -/
def written : Str := pathOf ((i.segments ++ a.segments).map encodeURIComponent) a.lastWritten

end AddonAddress

theorem decodes_component (s : Str) : Decodes (encodeURIComponent s) s := Decodes.percentEncode (by decide) s

theorem decodes_pathOf {last written : Str} (h : Decodes written last) (segments : List Str) :
    Decodes (pathOf (segments.map encodeURIComponent) written) (pathOf segments last) := by
  induction segments with
  | nil => exact (Decodes.char (c := '/') (by decide)).append h
  | cons s segments ih => exact (Decodes.char (c := '/') (by decide)).append ((decodes_component s).append ih)

theorem decodes_json {written s : Str} (h : Decodes written s) : Decodes (written ++ ".json".toList) (s ++ ".json".toList) :=
  h.append (decodes_component ".json".toList)

namespace AddonAddress

/-- What is requested is received. -/
theorem unquote?_written (i : Install) (a : AddonAddress) : unquote? (a.written i) = some (a.path i) := by
  have hlast : Decodes a.lastWritten a.last := by
    cases a with
    | manifest => exact decodes_component "manifest.json".toList
    | catalog _ id | item _ id | stream _ id => exact decodes_json (decodes_component id)
    | catalogPage _ _ extra => exact decodes_json extra.decodes_path
    | play _ _ partB64 => exact decodes_component partB64
  exact (decodes_pathOf hlast _).unquote?

end AddonAddress

/-! ## Routed back -/

/-- A segment of its own. -/
def Segment (s : Str) : Prop := s ≠ [] ∧ '/' ∉ s

instance (s : Str) : Decidable (Segment s) := by unfold Segment; infer_instance

def Install.Routable : Install → Prop
  | session id => Segment id
  | legacy installationId base64Cfg => Segment installationId ∧ Segment base64Cfg

/-- What stands between two slashes has none; the ids of items and streams may
have slashes, but no line feed. -/
def AddonAddress.Routable : AddonAddress → Prop
  | manifest => True
  | catalog _ catalogId => Segment catalogId
  | catalogPage _ catalogId extra => Segment catalogId ∧ Segment extra.text
  | item _ id | stream _ id => '\n' ∉ id
  | play ratingKey duration partB64 => Segment ratingKey ∧ Segment duration ∧ Segment partB64

def routeWords : List Str := ["catalog".toList, "meta".toList, "stream".toList, "play".toList]

/-- A configuration or a rating key is no word of a route. -/
def Install.Proper : Install → Prop
  | session _ => True
  | legacy _ base64Cfg => base64Cfg ∉ routeWords

def AddonAddress.Proper : AddonAddress → Prop
  | play ratingKey _ _ => ratingKey ∉ routeWords
  | _ => True

/-- The place of the address's route in the table. -/
def routeIndex : Install → AddonAddress → Nat
  | .legacy .., .manifest => 0
  | .session _, .manifest => 1
  | .legacy .., .catalogPage .. => 3
  | .legacy .., .catalog .. => 4
  | .session _, .catalogPage .. => 5
  | .session _, .catalog .. => 6
  | .legacy .., .item .. => 7
  | .session _, .item .. => 8
  | .legacy .., .stream .. => 9
  | .session _, .stream .. => 10
  | .legacy .., .play .. => 11
  | .session _, .play .. => 12

theorem routeIndex_lt (i : Install) (a : AddonAddress) : routeIndex i a < getRoutes.length := by
  cases i <;> cases a <;> exact Nat.le_of_ble_eq_true rfl

/-- The address's own route. -/
def ownRoute (i : Install) (a : AddonAddress) : Route Endpoint := getRoutes.get ⟨routeIndex i a, routeIndex_lt i a⟩

/-- Routes of one handler differ in the names of their parameters. -/
theorem getRoutes_distinct : ∀ r ∈ getRoutes, ∀ r' ∈ getRoutes, r.endpoint = r'.endpoint →
    names r.template = names r'.template → r.template = r'.template := by
  decide +kernel

theorem ownRoute_endpoint (i : Install) (a : AddonAddress) : (ownRoute i a).endpoint = a.endpoint := by
  cases i <;> cases a <;> rfl

theorem ownRoute_names (i : Install) (a : AddonAddress) : names (ownRoute i a).template = (i.params ++ a.params).map Prod.fst := by
  cases i <;> cases a <;> rfl

/-! ## What an address is made of -/

def Install.pieces : Install → Template
  | session _ => [sessionId]
  | legacy .. => installation

def AddonAddress.pieces : AddonAddress → Template
  | manifest => [lit "manifest.json"]
  | catalog .. => [lit "catalog", stremioType, json "catalog_id"]
  | catalogPage .. => [lit "catalog", stremioType, .param "catalog_id".toList, json "extra"]
  | item .. => [lit "meta", stremioType, pathJson "plex_id"]
  | stream .. => [lit "stream", stremioType, pathJson "media_id"]
  | play .. => playPieces

theorem ownRoute_template (i : Install) (a : AddonAddress) : (ownRoute i a).template = i.pieces ++ a.pieces := by
  cases i <;> cases a <;> rfl

theorem StremioMediaType.segment (type : StremioMediaType) : Segment type.value := by
  cases type <;> decide

theorem segment_append {s suffix : Str} (h : Segment s) (hsuffix : '/' ∉ suffix) : '/' ∉ s ++ suffix := by
  rw [List.mem_append, not_or]
  exact ⟨h.2, hsuffix⟩

theorem endsPlain_json : EndsPlain ".json".toList := ⟨by decide, by decide⟩

theorem Install.filled {i : Install} (h : i.Routable) {pieces : Template} {segments : List Str} {params : Params}
    (hrest : Filled pieces segments params) : Filled (i.pieces ++ pieces) (i.segments ++ segments) (i.params ++ params) := by
  cases i with
  | session id => exact .param h.1 hrest
  | legacy installationId base64Cfg => exact .param h.1.1 (.param h.2.1 hrest)

/-- The last part may have slashes. -/
def AddonAddress.more : AddonAddress → Bool
  | item .. | stream .. => true
  | _ => false

theorem AddonAddress.split_last {a : AddonAddress} (h : a.Routable) (hmore : a.more = false) : split '/' a.last = [a.last] := by
  refine split_of_not_mem ?_
  cases a with
  | manifest => decide
  | catalog type catalogId => exact segment_append h (by decide)
  | catalogPage type catalogId extra => exact segment_append h.2 (by decide)
  | item | stream => cases hmore
  | play ratingKey duration partB64 => exact h.2.2.2

theorem AddonAddress.filled {a : AddonAddress} (h : a.Routable) : Filled a.pieces (a.segments ++ split '/' a.last) a.params := by
  cases a with
  | manifest =>
    rw [AddonAddress.split_last h rfl]
    exact .lit (by decide) .nil
  | catalog type catalogId =>
    rw [AddonAddress.split_last h rfl]
    exact .lit (by decide) (.param type.segment.1 (.suffixed h.1 endsPlain_json .nil))
  | catalogPage type catalogId extra =>
    rw [AddonAddress.split_last h rfl]
    exact .lit (by decide) (.param type.segment.1 (.param h.1.1 (.suffixed h.2.1 endsPlain_json .nil)))
  | item type id | stream type id => exact .lit (by decide) (.param type.segment.1 (.rest h endsPlain_json))
  | play ratingKey duration partB64 =>
    rw [AddonAddress.split_last h rfl]
    exact .lit (by decide) (.param h.1.1 (.param h.2.1.1 (.param h.2.2.1 .nil)))

/-! ## What rules the others out -/

def Install.known : Install → List Known
  | session _ => [.noneOf []]
  | legacy .. => [.noneOf [], .noneOf routeWords]

def AddonAddress.known : AddonAddress → List Known
  | manifest => [.exactly "manifest.json".toList]
  | catalog type _ => [.exactly "catalog".toList, .exactly type.value, .noneOf []]
  | catalogPage type _ _ => [.exactly "catalog".toList, .exactly type.value, .noneOf [], .noneOf []]
  | item type _ => [.exactly "meta".toList, .exactly type.value]
  | stream type _ => [.exactly "stream".toList, .exactly type.value]
  | play .. => [.exactly "play".toList, .noneOf routeWords, .noneOf [], .noneOf []]

theorem clash_before (i : Install) (a : AddonAddress) :
    (getRoutes.take (routeIndex i a)).all (fun r => clash r.template (i.known ++ a.known) a.more) = true := by
  cases i <;> cases a with
  | manifest => rfl
  | play => rfl
  | catalog type | catalogPage type | item type | stream type => cases type <;> rfl

theorem Install.known_holds {i : Install} (h : i.Proper) : List.Forall₂ Known.Holds i.known i.segments := by
  cases i with
  | session id => exact .cons List.not_mem_nil .nil
  | legacy installationId base64Cfg => exact .cons List.not_mem_nil (.cons h .nil)

/-- The segments of the path, those that are known first. -/
theorem AddonAddress.known_holds {a : AddonAddress} (hproper : a.Proper) (h : a.Routable) :
    ∃ front back, a.segments ++ split '/' a.last = front ++ back ∧ List.Forall₂ Known.Holds a.known front ∧
      (a.more = false → back = []) := by
  cases hmore : a.more with
  | true =>
    refine ⟨a.segments, split '/' a.last, rfl, ?_, fun hfalse => by cases hfalse⟩
    cases a with
    | item type id | stream type id => exact .cons rfl (.cons rfl .nil)
    | manifest | catalog | catalogPage | play => cases hmore
  | false =>
    refine ⟨a.segments ++ [a.last], [], by rw [a.split_last h hmore, List.append_nil], ?_, fun _ => rfl⟩
    cases a with
    | manifest => exact .cons rfl .nil
    | catalog type catalogId => exact .cons rfl (.cons rfl (.cons List.not_mem_nil .nil))
    | catalogPage type catalogId extra =>
      exact .cons rfl (.cons rfl (.cons List.not_mem_nil (.cons List.not_mem_nil .nil)))
    | item | stream => cases hmore
    | play ratingKey duration partB64 =>
      exact .cons rfl (.cons hproper (.cons List.not_mem_nil (.cons List.not_mem_nil .nil)))

/-! ## The theorem -/

theorem ownRoute_mem (i : Install) (a : AddonAddress) : ownRoute i a ∈ getRoutes := List.get_mem _ _

theorem Install.segments_plain {i : Install} (h : i.Routable) : ∀ s ∈ i.segments, '/' ∉ s := by
  cases i with
  | session id => exact List.forall_mem_singleton.mpr h.2
  | legacy installationId base64Cfg => exact List.forall_mem_cons.mpr ⟨h.1.2, List.forall_mem_singleton.mpr h.2.2⟩

theorem AddonAddress.segments_plain {a : AddonAddress} (h : a.Routable) : ∀ s ∈ a.segments, '/' ∉ s := by
  cases a with
  | manifest => exact fun s hs => by cases hs
  | catalog type catalogId | item type id | stream type id =>
    exact List.forall_mem_cons.mpr ⟨by decide, List.forall_mem_singleton.mpr type.segment.2⟩
  | catalogPage type catalogId extra =>
    exact List.forall_mem_cons.mpr ⟨by decide, List.forall_mem_cons.mpr ⟨type.segment.2, List.forall_mem_singleton.mpr h.1.2⟩⟩
  | play ratingKey duration partB64 =>
    exact List.forall_mem_cons.mpr ⟨by decide, List.forall_mem_cons.mpr ⟨h.1.2, List.forall_mem_singleton.mpr h.2.1.2⟩⟩

/-- The address's route has it. -/
theorem route_path {i : Install} {a : AddonAddress} (hi : i.Proper) (ha : a.Proper) (hri : i.Routable) (hra : a.Routable) :
    route getRoutes (a.path i) = some (a.endpoint, i.params ++ a.params) := by
  have hslash : ∀ s ∈ i.segments ++ a.segments, '/' ∉ s :=
    List.forall_mem_append.mpr ⟨Install.segments_plain hri, AddonAddress.segments_plain hra⟩
  have hmatch : ∀ t : Template, t.match? (a.path i) = matchPieces t (i.segments ++ (a.segments ++ split '/' a.last)) := by
    intro t
    rw [AddonAddress.path, match?_pathOf t hslash, List.append_assoc]
  rw [← ownRoute_endpoint i a]
  refine route_eq (i := routeIndex i a) (List.getElem?_eq_getElem (routeIndex_lt i a)) (fun r hr => ?_) ?_
  · have hclash := List.all_eq_true.mp (clash_before i a) r hr
    obtain ⟨front, back, hsegments, hfront, hback⟩ := a.known_holds ha hra
    rw [hmatch, hsegments, ← List.append_assoc]
    exact matchPieces_of_clash hclash (List.rel_append (Install.known_holds hi) hfront) hback
  · have htemplate := ownRoute_template i a
    rw [hmatch]
    exact (htemplate ▸ Install.filled hri (AddonAddress.filled hra)).matchPieces

theorem Install.routable_of_paramsOk {i : Install} {pieces : Template} {params : Params}
    (h : ParamsOk (i.pieces ++ pieces) (i.params ++ params)) : i.Routable ∧ ParamsOk pieces params := by
  cases i with
  | session id => exact ParamsOk.param h
  | legacy installationId base64Cfg =>
    obtain ⟨hinstallation, h⟩ := ParamsOk.param h
    obtain ⟨hconfig, h⟩ := ParamsOk.param h
    exact ⟨⟨hinstallation, hconfig⟩, h⟩

theorem AddonAddress.routable_of_paramsOk {a : AddonAddress} (h : ParamsOk a.pieces a.params) : a.Routable := by
  cases a with
  | manifest => trivial
  | catalog type catalogId => exact (ParamsOk.suffixed (ParamsOk.param h).2).1
  | catalogPage type catalogId extra =>
    obtain ⟨hcatalog, h⟩ := ParamsOk.param (ParamsOk.param h).2
    exact ⟨hcatalog, (ParamsOk.suffixed h).1⟩
  | item type id | stream type id => exact ParamsOk.rest (ParamsOk.param h).2
  | play ratingKey duration partB64 =>
    obtain ⟨hratingKey, h⟩ := ParamsOk.param h
    obtain ⟨hduration, h⟩ := ParamsOk.param h
    exact ⟨hratingKey, hduration, (ParamsOk.param h).1⟩

/-- **Addresses are routed back.** The path that is requested of an install is
received, and it leads to the handler it was made for, with the install and
the arguments it was made of, exactly if what stands between two slashes has
none. -/
theorem addresses_routed_iff (i : Install) (a : AddonAddress) (hi : i.Proper) (ha : a.Proper) :
    unquote? (a.written i) = some (a.path i) ∧
      (route getRoutes (a.path i) = some (a.endpoint, i.params ++ a.params) ↔ i.Routable ∧ a.Routable) := by
  refine ⟨a.unquote?_written i, fun h => ?_, fun h => route_path hi ha h.1 h.2⟩
  obtain ⟨r, hr, hendpoint, hmatch⟩ := exists_of_route h
  have hparams : ParamsOk r.template (i.params ++ a.params) := by
    unfold Template.match? at hmatch
    split at hmatch
    · next segments hsplit =>
      refine paramsOk_of_matchPieces (fun s hs => ?_) hmatch
      exact not_mem_of_mem_split (hsplit ▸ List.mem_cons_of_mem _ hs)
    · cases hmatch
  have htemplate : r.template = i.pieces ++ a.pieces := by
    rw [← ownRoute_template i a]
    refine getRoutes_distinct r hr _ (ownRoute_mem i a) (hendpoint.trans (ownRoute_endpoint i a).symm) ?_
    rw [← hparams.names, ownRoute_names]
  obtain ⟨hinstall, hrest⟩ := Install.routable_of_paramsOk (htemplate ▸ hparams)
  exact ⟨hinstall, AddonAddress.routable_of_paramsOk hrest⟩

/-! ## A title with a slash -/

def acdc : ExtraArgs where
  args := ⟨[("search".toList, "AC/DC".toList)], by decide⟩
  known := by decide

/-- A page that is asked for arrives. -/
theorem addresses_routed_page : route getRoutes "/s1/catalog/movie/1/search=Tom & Jerry&skip=100.json".toList =
    some (.catalog, [("session_id".toList, "s1".toList), ("stremio_type".toList, "movie".toList),
      ("catalog_id".toList, "1".toList), ("extra".toList, "search=Tom & Jerry&skip=100".toList)]) := by
  have hroutable : Install.Routable (.session "s1".toList) ∧
      AddonAddress.Routable (.catalogPage .movie "1".toList tomAndJerry) := by
    unfold Install.Routable AddonAddress.Routable
    decide +kernel
  exact (addresses_routed_iff (.session "s1".toList) (.catalogPage .movie "1".toList tomAndJerry) trivial trivial).2.mpr
    hroutable

/-- **A search with a slash in it is lost**: no route has its path. -/
theorem slash_lost : unquote? (AddonAddress.written (.session "s1".toList) (.catalogPage .movie "1".toList acdc)) =
      some "/s1/catalog/movie/1/search=AC/DC.json".toList ∧
    route getRoutes "/s1/catalog/movie/1/search=AC/DC.json".toList = none :=
  ⟨AddonAddress.unquote?_written _ _, by decide +kernel⟩

end Plexio
