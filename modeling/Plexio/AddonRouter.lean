/-
The requests Stremio makes (`routers/addon.py`): which Plex lookup an id
leads to, an item's metadata, and its streams, with the response cache in
front of them.
-/
import Plexio.MediaServer

namespace Plexio

open Py CacheProg

def httpNotFound : Exc := .http 404 "Not Found".toList

/-- What a handler reads of a request. -/
structure Request where
  path : Str
  scheme : Str
  netloc : Option Str
  authority : Option Str
  forwardedProto : Option Str
  forwardedHost : Option Str

/-- `value.split(',', 1)[0].strip()` -/
def firstOfList (value : Str) : Str := strip (value.takeWhile (· != ','))

/-- The address a playback link is made from, before it is checked. -/
def publicCandidate (S : Settings) (request : Request) : Str :=
  if Yarl.truthy S.baseUrl then S.baseUrl.getD []
  else
    let forwardedProto := if S.trustProxyHeaders then request.forwardedProto else none
    let forwardedHost := if S.trustProxyHeaders then request.forwardedHost else none
    let scheme := if Yarl.truthy forwardedProto then firstOfList (forwardedProto.getD []) else request.scheme
    let host := if Yarl.truthy forwardedHost then firstOfList (forwardedHost.getD [])
      else (orStr request.netloc request.authority).getD "None".toList
    scheme ++ "://".toList ++ host

def publicBaseUrl (S : Settings) (Y : Yarl) (request : Request) : Except Exc Str :=
  let unknown := Exc.http 500 "Unable to determine the public Plexio URL".toList
  match Y.parse (publicCandidate S request) with
  | none => .error unknown
  | some url =>
    if (Y.scheme url == "http".toList || Y.scheme url == "https".toList) && Yarl.truthy (Y.host url) &&
        (Y.user url).isNone && (Y.queryString url).isEmpty && (Y.fragment url).isEmpty then .ok (Y.origin url)
    else .error unknown

def usesPlaybackProxy (S : Settings) {Y : Yarl} (c : AddonConfiguration Y) : Bool :=
  c.reportPlayback && c.proxyStreams && !S.disableStreamProxy

section Router
variable (D : Deployment) (c : AddonConfiguration D.yarl)

/-! ## The item an id names -/

/-- `plexio_id_to_guid`, with a `ValueError` answered by 404. -/
def guidOr404 (plexioId : Str) : Except Exc Str :=
  match plexioIdToGuid plexioId with
  | .ok guid => .ok guid
  | .error e => if e.isValueError then .error httpNotFound else .error e

/-- The lookup of `get_meta`, which is not cached. -/
def metaMedia (plexId : Str) : Prog plexSig (List PlexMediaMeta) :=
  if !startswith plexId "plexio:".toList then .throw httpNotFound
  else if isRatingKeyPlexioId plexId then do
    let ratingKey ← Prog.lift (plexioIdToRatingKey plexId)
    getMediaByRatingKey D c.discoveryUrl c.accessToken ratingKey false none
  else do
    let guid ← Prog.lift (guidOr404 plexId)
    getMedia D c.discoveryUrl c.accessToken guid true false none

/-- The item `get_meta` describes, and for a series its episodes. -/
def getMeta (stremioType : StremioMediaType) (plexId : Str) :
    Prog plexSig (PlexMediaMeta × Option (List PlexEpisodeMeta)) := do
  let media ← metaMedia D c plexId
  match media with
  | [] => .throw httpNotFound
  | item :: _ =>
    if stremioType = .series then do
      let episodes ← getAllEpisodes D c.discoveryUrl c.accessToken item.key false none
      pure (item, some episodes)
    else pure (item, none)

variable (ns : Str)

/-- The item of a rating key, or of a season and an episode of a series' rating key. -/
def resolveRatingKeyStreamMedia (stremioType : StremioMediaType) (ratingKeyValue : Str) : Prog plexSig (List PlexMediaMeta) :=
  let byRatingKey (ratingKey : Str) := getMediaByRatingKey D c.discoveryUrl c.accessToken ratingKey true (some ns)
  match stremioType, split ':' ratingKeyValue with
  | .series, [showRatingKey, season, episode] => do
    let shows ← byRatingKey showRatingKey
    match shows with
    | [] => pure []
    | item :: _ =>
      let episodes ← getAllEpisodes D c.discoveryUrl c.accessToken item.key true (some ns)
      match (episodes.find? (isEpisode season episode)).bind (·.ratingKey) with
      | some (k :: ks) => byRatingKey (k :: ks)
      | _ => pure []
  | _, _ => byRatingKey ratingKeyValue

def resolveStreamMedia (stremioType : StremioMediaType) (mediaId : Str) : Prog plexSig (List PlexMediaMeta) :=
  let byGuid (guid : Str) := getMedia D c.discoveryUrl c.accessToken guid false true (some ns)
  if startswith mediaId "tt".toList then do
    let plexId ← stremioToPlexId D c.discoveryUrl c.accessToken mediaId (stremioToPlexMediaType stremioType) (some ns)
    if Yarl.truthy plexId then byGuid (plexId.getD []) else pure []
  else if isRatingKeyPlexioId mediaId then do
    let ratingKeyValue ← Prog.lift (plexioIdToRatingKey mediaId)
    resolveRatingKeyStreamMedia D c ns stremioType ratingKeyValue
  else if startswith mediaId "plexio:".toList then do
    let guid ← Prog.lift (guidOr404 mediaId)
    byGuid guid
  else byGuid mediaId

/-! ## Streams -/

/-- The part of the path before the request proper: it names the install. -/
def configPath (request : Request) : Str :=
  if usesPlaybackProxy D.settings c then (partition "/stream/".toList request.path).1 else []

/-- What a stream response is stored under. -/
def streamIdentity (request : Request) (stremioType : StremioMediaType) (mediaId : Str) : Str :=
  stremioType.value ++ ':' :: mediaId ++ ':' :: configPath D c request

/-- Where playback links of this request lead, when they go through the proxy. -/
def playPrefix (request : Request) : Except Exc (Option Str) :=
  if usesPlaybackProxy D.settings c then do
    let base ← publicBaseUrl D.settings D.yarl request
    pure (some (base ++ configPath D c request ++ "/play".toList))
  else pure none

/-- The streams of all items, from the one numbered `n` on; what raises while
they are listed is a validation error of the response. -/
def streamsResponse (make : PlexMediaMeta → Except Exc (List StremioStream)) :
    Nat → List PlexMediaMeta → Except Exc (List StremioStream)
  | _, [] => .ok []
  | n, item :: items =>
    match make item with
    | .error _ => .error (.validation ⟨["streams".toList, strInt n], .value "Error iterating over object".toList⟩)
    | .ok streams => do
      let rest ← streamsResponse make (n + streams.length) items
      pure (streams ++ rest)

/-- The streams of the items found, for this request. -/
def buildStreams (request : Request) (media : List PlexMediaMeta) : Except Exc (List StremioStream) := do
  let playPrefix ← playPrefix D c request
  streamsResponse (fun item => item.getStremioStreams D.unicode c playPrefix) 0 media

/-- A stream response, and its `X-Plexio-Cache` header. -/
structure StreamReply where
  streams : List StremioStream
  hit : Bool
  deriving DecidableEq

/-- `get_stream` with its lookup. -/
def getStreamWith (lookup : Prog plexSig (List PlexMediaMeta)) (request : Request) (stremioType : StremioMediaType)
    (mediaId : Str) : Prog plexSig StreamReply := do
  let ttl := D.settings.streamCacheTtl
  let streamKey := resourceCacheKey D.sha256 (configurationCacheNamespace D c) .stream (streamIdentity D c request stremioType mediaId)
  let cached ← (if ttl ≠ 0 then cacheGet true streamKey else pure none : Prog plexSig (Option Str))
  match cached.bind fun text => deserializeStreamResponse D text c.accessToken with
  | some streams => pure { streams, hit := true }
  | none => do
    let media ← lookup
    let streams ← Prog.lift (buildStreams D c request media)
    cacheSet true streamKey (serializeStreamResponse D streams c.accessToken) ttl
    pure { streams, hit := false }

def getStream (request : Request) (stremioType : StremioMediaType) (mediaId : Str) : Prog plexSig StreamReply :=
  getStreamWith D c (resolveStreamMedia D c (configurationCacheNamespace D c) stremioType mediaId) request stremioType mediaId

end Router

end Plexio
