/-
Lookups on a Plex server (`plex/media_server_api.py`), through the shared
cache: items by rating key or by GUID, a show's episodes, and the Plex item
an IMDb id stands for.

`asyncio.gather` is taken in list order.
-/
import Plexio.StreamCache

namespace Plexio

open Py CacheProg

def getJson (url : Str) (params : List (Str × Str)) : Prog plexSig (Option MediaContainer) := .ask ⟨url, params⟩ fun answer => Prog.lift answer

/-- `json['MediaContainer'].get('Metadata', [])` -/
def metadataOf (json : Option MediaContainer) : Except Exc (List Metadata) := do
  let container ← index json
  pure (container.metadata.getD [])

/-- `item.get('type') in ('show', 'movie', 'episode')` -/
def isMedia (item : Metadata) : Bool := (item.type.bind fun type => PlexMediaType.table.lookup type).isSome

def imdbAgentGuid (imdbId : Str) : Str := "com.plexapp.agents.imdb://".toList ++ imdbId ++ "?lang=en".toList

section Server
variable (D : Deployment) (url : D.yarl.Url) (token : Str)

def serverCacheNamespace : Str := D.sha256.hexdigest (D.yarl.str url ++ '\x00' :: token)

/-- `cache_namespace or _server_cache_namespace(url, token)` -/
def namespaceOr (cacheNamespace : Option Str) : Str :=
  match cacheNamespace with
  | some (c :: cs) => c :: cs
  | _ => serverCacheNamespace D url token

def fetchMediaByRatingKey (ratingKey : Str) : Prog plexSig (List PlexMediaMeta) := do
  let library ← Prog.lift (divide url "library/metadata".toList)
  let item ← Prog.lift (divide library ratingKey)
  let json ← getJson (D.yarl.str item)
    (tokenParam token ++ [("includeElements".toList, "Stream".toList), ("includeGuids".toList, "1".toList)])
  let metadata ← Prog.lift (metadataOf json)
  Prog.lift ((metadata.filter isMedia).mapM PlexMediaMeta.validate)

def getMediaByRatingKey (ratingKey : Str) (cache : Bool) (cacheNamespace : Option Str) : Prog plexSig (List PlexMediaMeta) :=
  let ns := namespaceOr D url token cacheNamespace
  Prod.fst <$> cachedModelList cache (resourceCacheKey D.sha256 ns .mediaRatingKey ratingKey) D.media
    (fetchMediaByRatingKey D url token ratingKey) D.settings.plexMetadataCacheTtl

/-- The `load` of `get_media`. -/
def fetchMedia (guid : Str) (getOnlyFirst : Bool) : Prog plexSig (List PlexMediaMeta) := do
  let library ← Prog.lift (divide url "library/all".toList)
  let json ← getJson (D.yarl.str library) (("guid".toList, guid) :: tokenParam token)
  let metadata ← Prog.lift (metadataOf json)
  let sections := metadata.filter isMedia
  let sections := if getOnlyFirst then sections.take 1 else sections
  let ratingKeys ← Prog.lift (sections.mapM fun item => index item.ratingKey)
  let groups ← ratingKeys.mapM (fetchMediaByRatingKey D url token)
  pure groups.flatten

def getMedia (guid : Str) (getOnlyFirst : Bool) (cache : Bool) (cacheNamespace : Option Str) :
    Prog plexSig (List PlexMediaMeta) :=
  let ns := namespaceOr D url token cacheNamespace
  let resource := if getOnlyFirst then .mediaGuidFirst else .mediaGuid
  Prod.fst <$> cachedModelList cache (resourceCacheKey D.sha256 ns resource guid) D.media
    (fetchMedia D url token guid getOnlyFirst) D.settings.plexMetadataCacheTtl

/-- The `load` of `get_all_episodes`. -/
def fetchAllEpisodes (key : Str) : Prog plexSig (List PlexEpisodeMeta) := do
  let children ← Prog.lift (divide url (key.drop 1))
  let json ← getJson (replace "/children".toList "/allLeaves".toList (D.yarl.str children)) (tokenParam token)
  let metadata ← Prog.lift (metadataOf json)
  Prog.lift (metadata.zipIdx.mapM fun (item, i) => PlexEpisodeMeta.validate i item)

/-- `None` has no `encode`. -/
def getAllEpisodes (key : Option Str) (cache : Bool) (cacheNamespace : Option Str) : Prog plexSig (List PlexEpisodeMeta) :=
  match key with
  | none => .throw .attribute
  | some key =>
    let ns := namespaceOr D url token cacheNamespace
    Prod.fst <$> cachedModelList cache (resourceCacheKey D.sha256 ns .episodes key) D.episodes
      (fetchAllEpisodes D url token key) D.settings.plexMetadataCacheTtl

/-- `media_container['Metadata'][0]['guid']` -/
def firstGuid (container : MediaContainer) : Except Exc Str := do
  let metadata ← index container.metadata
  match metadata with
  | [] => .error .index
  | item :: _ => index item.guid

/-- What Plex's cloud matcher takes the id for; nothing when it refuses the token. -/
def imdbToPlexId (imdbId : Str) (mediaType : PlexMediaType) : Prog plexSig (Option Str) :=
  let token := (orStr D.settings.plexMatchingToken (some token)).getD []
  .ask ⟨"https://metadata.provider.plex.tv/library/metadata/matches".toList,
      tokenParam token ++ [("type".toList, (if mediaType = .movie then "1" else "2").toList),
        ("title".toList, "imdb-".toList ++ imdbId), ("guid".toList, imdbAgentGuid imdbId)]⟩ fun
    | .error .plexUnauthorized => .ret none
    | .error e => .throw e
    | .ok json => Prog.lift do
      let container ← index json
      let totalSize ← index container.totalSize
      if totalSize ≠ 0 then some <$> firstGuid container else pure none

def resolveImdbGuidFromLibrary (imdbId : Str) (cache : Bool) (cacheNamespace : Option Str) : Prog plexSig (Option Str) := do
  let candidate := imdbAgentGuid imdbId
  let media ← getMedia D url token candidate true cache cacheNamespace
  pure (if media.isEmpty then none else some candidate)

/-- `str(item.parent_index) == season and str(item.index) == episode` -/
def isEpisode (season episode : Str) (item : PlexEpisodeMeta) : Bool :=
  strInt item.parentIndex == season && strInt item.index == episode

def getEpisodeGuid (showGuid : Option Str) (season episode : Str) (cache : Bool) (cacheNamespace : Option Str) :
    Prog plexSig (Option Str) := do
  let allEpisodes ← getAllEpisodes D url token showGuid cache cacheNamespace
  pure ((allEpisodes.find? (isEpisode season episode)).map (·.guid))

/-- The episode in the first of the shows that has it. -/
def firstEpisodeGuid (season episode : Str) (cache : Bool) (cacheNamespace : Option Str) :
    List PlexMediaMeta → Prog plexSig (Option Str)
  | [] => pure none
  | item :: rest => do
    let plexId ← getEpisodeGuid D url token item.key season episode cache cacheNamespace
    if Yarl.truthy plexId then pure plexId else firstEpisodeGuid season episode cache cacheNamespace rest

/-- The IMDb id, and the episode, that a Stremio id names; `none` for a
series id without its two numbers. -/
def parseStremioId (mediaType : PlexMediaType) (stremioId : Str) : Option (Str × Option (Str × Str)) :=
  if mediaType = .tvShow then
    match split ':' stremioId with
    | [imdbId, season, episode] => some (imdbId, some (season, episode))
    | _ => none
  else some (stremioId, none)

/-- `stremio_to_plex_id` past its cache: the matcher, else the library, then the episode. -/
def matchStremioId (stremioId : Str) (mediaType : PlexMediaType) (cache : Bool) (cacheNamespace : Option Str) :
    Prog plexSig (Option Str) :=
  match parseStremioId mediaType stremioId with
  | none => pure none
  | some (imdbId, numbers) => do
    let matched ← imdbToPlexId D token imdbId mediaType
    let plexId ← (if Yarl.truthy matched then pure matched
      else resolveImdbGuidFromLibrary D url token imdbId cache cacheNamespace : Prog plexSig (Option Str))
    if Yarl.truthy plexId then
      match numbers with
      | none => pure plexId
      | some (season, episode) => do
        let media ← getMedia D url token (plexId.getD []) false cache cacheNamespace
        firstEpisodeGuid D url token season episode cache cacheNamespace media
    else pure none

/-- Its own reads and writes of the cache are not guarded. -/
def stremioToPlexId (stremioId : Str) (mediaType : PlexMediaType) (cacheNamespace : Option Str) : Prog plexSig (Option Str) :=
  let ns := namespaceOr D url token cacheNamespace
  let matchKey := resourceCacheKey D.sha256 ns .matched stremioId
  .get matchKey fun
    | .error e => .throw e
    | .ok cachedPlexId =>
      if Yarl.truthy cachedPlexId then .ret cachedPlexId
      else do
        let plexId ← matchStremioId D url token stremioId mediaType true (some ns)
        match plexId with
        | some (c :: cs) => .set matchKey (c :: cs) D.settings.plexMatchCacheTtl fun
          | .error e => .throw e
          | .ok () => .ret (some (c :: cs))
        | _ => pure plexId

end Server

end Plexio
