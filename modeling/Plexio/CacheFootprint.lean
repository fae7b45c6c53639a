/-
Which cache entries a stream request touches, and which of its operations a
failing cache can stop. Every key lies under the configuration's namespace;
reads and writes are guarded, but for those of the match cache
(`touches_getStream`). The demand on each operation is a parameter
(`Footprint`): isolation of installs asks about the key, tolerance of
failures about what follows one.
-/
import Plexio.LookupCache

namespace Plexio

open Py CacheProg

/-- A demand that what a request for `mediaId` does with the cache meets. -/
structure Footprint (D : Deployment) (c : AddonConfiguration D.yarl) (mediaId : Str) (P : Str → Prop → Prop) : Prop where
  lenient : Prog.Lenient P
  guarded : ∀ resource identity, P (resourceCacheKey D.sha256 (configurationCacheNamespace D c) resource identity) True
  /-- An IMDb id's match is read and written without a guard. -/
  bare : startswith mediaId "tt".toList = true →
    P (resourceCacheKey D.sha256 (configurationCacheNamespace D c) .matched mediaId) False

section Fetch
variable {D : Deployment} {P : Str → Prop → Prop} (url : D.yarl.Url) (token : Str)

theorem touches_getJson (url : Str) (params : List (Str × Str)) : (getJson url params).Touches P := fun _ => Prog.Touches.lift _

variable (hP : Prog.Lenient P)
include hP

theorem touches_fetchMediaByRatingKey (ratingKey : Str) : (fetchMediaByRatingKey D url token ratingKey).Touches P := by
  refine (Prog.Touches.lift _).bind hP fun library => ?_
  refine (Prog.Touches.lift _).bind hP fun item => ?_
  refine (touches_getJson _ _).bind hP fun json => ?_
  exact (Prog.Touches.lift _).bind hP fun metadata => Prog.Touches.lift _

theorem touches_fetchMedia (guid : Str) (getOnlyFirst : Bool) : (fetchMedia D url token guid getOnlyFirst).Touches P := by
  refine (Prog.Touches.lift _).bind hP fun library => ?_
  refine (touches_getJson _ _).bind hP fun json => ?_
  refine (Prog.Touches.lift _).bind hP fun metadata => ?_
  refine (Prog.Touches.lift _).bind hP fun ratingKeys => ?_
  refine (Prog.Touches.mapM hP fun ratingKey _ => ?_).bind hP fun groups => Prog.Touches.ret _
  exact touches_fetchMediaByRatingKey _ _ hP _

theorem touches_fetchAllEpisodes (key : Str) : (fetchAllEpisodes D url token key).Touches P := by
  refine (Prog.Touches.lift _).bind hP fun children => ?_
  refine (touches_getJson _ _).bind hP fun json => ?_
  exact (Prog.Touches.lift _).bind hP fun metadata => Prog.Touches.lift _

omit hP in
theorem touches_imdbToPlexId (imdbId : Str) (mediaType : PlexMediaType) : (imdbToPlexId D token imdbId mediaType).Touches P := by
  intro answer
  beta_reduce
  split
  · trivial
  · trivial
  · exact Prog.Touches.lift _

end Fetch

/-! ## Lookups -/

section Lookups
variable {D : Deployment} {c : AddonConfiguration D.yarl} {mediaId : Str} {P : Str → Prop → Prop} (h : Footprint D c mediaId P)
include h

theorem touches_getMediaByRatingKey (ratingKey : Str) (cache : Bool) :
    (getMediaByRatingKey D c.discoveryUrl c.accessToken ratingKey cache
      (some (configurationCacheNamespace D c))).Touches P := by
  simp only [getMediaByRatingKey, configurationCacheNamespace, Sha256.hexdigest_namespaceOr]
  exact touches_cachedModelList h.lenient (h.guarded _ _) (touches_fetchMediaByRatingKey _ _ h.lenient _)

theorem touches_getMedia (guid : Str) (getOnlyFirst cache : Bool) :
    (getMedia D c.discoveryUrl c.accessToken guid getOnlyFirst cache (some (configurationCacheNamespace D c))).Touches P := by
  simp only [getMedia, configurationCacheNamespace, Sha256.hexdigest_namespaceOr]
  exact touches_cachedModelList h.lenient (h.guarded _ _) (touches_fetchMedia _ _ h.lenient _ _)

theorem touches_getAllEpisodes (key : Option Str) (cache : Bool) :
    (getAllEpisodes D c.discoveryUrl c.accessToken key cache (some (configurationCacheNamespace D c))).Touches P := by
  cases key with
  | none => trivial
  | some key =>
    simp only [getAllEpisodes, configurationCacheNamespace, Sha256.hexdigest_namespaceOr]
    exact touches_cachedModelList h.lenient (h.guarded _ _) (touches_fetchAllEpisodes _ _ h.lenient _)

theorem touches_firstEpisodeGuid (season episode : Str) (media : List PlexMediaMeta) :
    (firstEpisodeGuid D c.discoveryUrl c.accessToken season episode true (some (configurationCacheNamespace D c))
      media).Touches P := by
  induction media with
  | nil => trivial
  | cons item rest ih =>
    refine Prog.Touches.bind h.lenient ?_ fun plexId => ?_
    · exact (touches_getAllEpisodes h item.key true).bind h.lenient fun _ => Prog.Touches.ret _
    · split
      · trivial
      · exact ih

theorem touches_matchOf (mediaType : PlexMediaType) (stremioId : Str) : (matchOf D c mediaType stremioId).Touches P := by
  simp only [matchOf, matchStremioId]
  split
  · trivial
  next imdbId numbers _ =>
  refine (touches_imdbToPlexId _ _ _).bind h.lenient fun matched => ?_
  refine Prog.Touches.bind h.lenient ?_ fun plexId => ?_
  · split
    · trivial
    · exact (touches_getMedia h _ true true).bind h.lenient fun _ => Prog.Touches.ret _
  · split
    · split
      · trivial
      · exact (touches_getMedia h _ false true).bind h.lenient fun media => touches_firstEpisodeGuid h _ _ media
    · trivial

/-- The match cache's own entry, unguarded. -/
theorem touches_stremioToPlexId (htt : startswith mediaId "tt".toList = true) (mediaType : PlexMediaType) :
    (stremioToPlexId D c.discoveryUrl c.accessToken mediaId mediaType (some (configurationCacheNamespace D c))).Touches P := by
  have hbare (p : Prop) : P (resourceCacheKey D.sha256 (configurationCacheNamespace D c) .matched mediaId) p :=
    h.lenient _ _ _ False.elim (h.bare htt)
  simp only [stremioToPlexId, configurationCacheNamespace, Sha256.hexdigest_namespaceOr]
  refine ⟨hbare _, fun o => ?_⟩
  beta_reduce
  split
  · trivial
  · split
    · trivial
    · refine (touches_matchOf h mediaType mediaId).bind h.lenient fun plexId => ?_
      split
      · refine ⟨hbare _, fun stored => ?_⟩
        cases stored <;> trivial
      · trivial

theorem touches_resolveRatingKeyStreamMedia (stremioType : StremioMediaType) (value : Str) :
    (resolveRatingKeyStreamMedia D c (configurationCacheNamespace D c) stremioType value).Touches P := by
  unfold resolveRatingKeyStreamMedia
  split
  · refine (touches_getMediaByRatingKey h _ true).bind h.lenient fun shows => ?_
    split
    · trivial
    · refine (touches_getAllEpisodes h _ true).bind h.lenient fun episodes => ?_
      split
      · exact touches_getMediaByRatingKey h _ true
      · trivial
  · exact touches_getMediaByRatingKey h _ true

theorem touches_resolveStreamMedia (stremioType : StremioMediaType) :
    (resolveStreamMedia D c (configurationCacheNamespace D c) stremioType mediaId).Touches P := by
  unfold resolveStreamMedia
  split
  · next htt =>
    refine (touches_stremioToPlexId h htt _).bind h.lenient fun plexId => ?_
    split
    · exact touches_getMedia h _ false true
    · trivial
  · split
    · exact (Prog.Touches.lift _).bind h.lenient fun value => touches_resolveRatingKeyStreamMedia h stremioType value
    · split
      · exact (Prog.Touches.lift _).bind h.lenient fun guid => touches_getMedia h guid false true
      · exact touches_getMedia h _ false true

/-- What follows the lookup: the streams are built and stored. -/
theorem touches_respond (request : Request) (stremioType : StremioMediaType) (media : List PlexMediaMeta) :
    (do
      let streams ← Prog.lift (buildStreams D c request media)
      cacheSet true (resourceCacheKey D.sha256 (configurationCacheNamespace D c) .stream
          (streamIdentity D c request stremioType mediaId))
        (serializeStreamResponse D streams c.accessToken) D.settings.streamCacheTtl
      pure { streams, hit := false } : Prog plexSig StreamReply).Touches P :=
  (Prog.Touches.lift _).bind h.lenient fun _ =>
    (touches_cacheSet (h.guarded _ _) h.lenient).bind h.lenient fun _ => Prog.Touches.ret _

/-- **What a stream request touches** meets the demand. -/
theorem touches_getStream (request : Request) (stremioType : StremioMediaType) :
    (getStream D c request stremioType mediaId).Touches P := by
  rw [getStream, getStreamWith]
  refine Prog.Touches.bind h.lenient ?_ fun cached => ?_
  · split
    · exact touches_cacheGet (h.guarded _ _) h.lenient
    · trivial
  · split
    · trivial
    · exact (touches_resolveStreamMedia h stremioType).bind h.lenient fun media =>
        touches_respond h request stremioType media

end Lookups

end Plexio
