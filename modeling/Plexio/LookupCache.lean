/-
The lookup caches change no answer. Against a Plex whose answers are fixed,
every entry of the shared cache is what the lookup behind it gives
(`Entries`), so a lookup gives the same with the cache as without.

There is one exception, and the result carries it as a condition: what an
IMDb id is matched to depends on whether a movie or a series is asked for,
and the match cache's key does not. `lookups_transparent` holds of runs in
which no such id is asked for as both; `match_cache_confuses_types` is a run
in which one is.
-/
import Plexio.IdRouting

namespace Plexio

open Py CacheProg

theorem Sha256.hexdigest_namespaceOr {D : Deployment} {url : D.yarl.Url} {token : Str} (s : Str) :
    namespaceOr D url token (some (D.sha256.hexdigest s)) = D.sha256.hexdigest s := by
  have hne := D.sha256.nonempty s
  generalize D.sha256.hexdigest s = ns at hne ⊢
  cases ns with
  | nil => exact absurd rfl hne
  | cons => rfl

section Lookups
variable (D : Deployment) (c : AddonConfiguration D.yarl) (serve : ∀ q, plexSig.Answer q)

/-- A match of an IMDb id, looked up without its own cache. -/
abbrev matchOf (mediaType : PlexMediaType) (stremioId : Str) : Prog plexSig (Option Str) :=
  matchStremioId D c.discoveryUrl c.accessToken stremioId mediaType true (some (configurationCacheNamespace D c))

/-- What an entry must be, given the types each IMDb id is asked for as. -/
def Entry (asked : PlexMediaType → Str → Prop) (resource : Resource) (identity value : Str) : Prop :=
  match resource with
  | .mediaRatingKey => ∀ items, D.media.load value = some items →
      (fetchMediaByRatingKey D c.discoveryUrl c.accessToken identity).alone serve = .ok items
  | .mediaGuid => ∀ items, D.media.load value = some items →
      (fetchMedia D c.discoveryUrl c.accessToken identity false).alone serve = .ok items
  | .mediaGuidFirst => ∀ items, D.media.load value = some items →
      (fetchMedia D c.discoveryUrl c.accessToken identity true).alone serve = .ok items
  | .episodes => ∀ items, D.episodes.load value = some items →
      (fetchAllEpisodes D c.discoveryUrl c.accessToken identity).alone serve = .ok items
  | .matched => ∀ mediaType, asked mediaType identity → value ≠ [] →
      (matchOf D c mediaType identity).alone serve = .ok (some value)
  | .stream => True

/-- Every entry under the configuration's namespace is what it must be. -/
def Entries (asked : PlexMediaType → Str → Prop) (key value : Str) : Prop :=
  ∀ resource identity, key = resourceCacheKey D.sha256 (configurationCacheNamespace D c) resource identity →
    Entry D c serve asked resource identity value

variable {D c serve} {asked : PlexMediaType → Str → Prop} {fails : Prop}

theorem Entry.entries {resource : Resource} {identity value : Str} (h : Entry D c serve asked resource identity value) :
    Entries D c serve asked (resourceCacheKey D.sha256 (configurationCacheNamespace D c) resource identity) value := by
  intro r i hk
  obtain ⟨-, rfl, rfl⟩ := resourceCacheKey_inj (D.sha256.colon _) (D.sha256.colon _) hk
  exact h

/-! ## Lookups without a cache -/

theorem steady_getJson {I : Str → Str → Prop} (url : Str) (params : List (Str × Str)) :
    (getJson url params).Steady I fails serve := Prog.Steady.ask (Prog.Steady.lift _)

theorem steady_fetchMediaByRatingKey {I : Str → Str → Prop} (url : D.yarl.Url) (token ratingKey : Str) :
    (fetchMediaByRatingKey D url token ratingKey).Steady I fails serve :=
  (Prog.Steady.lift _).bind fun _ _ => (Prog.Steady.lift _).bind fun _ _ => (steady_getJson _ _).bind fun _ _ =>
    (Prog.Steady.lift _).bind fun _ _ => Prog.Steady.lift _

theorem steady_fetchMedia {I : Str → Str → Prop} (url : D.yarl.Url) (token guid : Str) (getOnlyFirst : Bool) :
    (fetchMedia D url token guid getOnlyFirst).Steady I fails serve :=
  (Prog.Steady.lift _).bind fun _ _ => (steady_getJson _ _).bind fun _ _ => (Prog.Steady.lift _).bind fun _ _ =>
    (Prog.Steady.lift _).bind fun _ _ =>
      (Prog.Steady.mapM fun _ _ => steady_fetchMediaByRatingKey _ _ _).bind fun _ _ => Prog.Steady.ret _

theorem steady_fetchAllEpisodes {I : Str → Str → Prop} (url : D.yarl.Url) (token key : Str) :
    (fetchAllEpisodes D url token key).Steady I fails serve :=
  (Prog.Steady.lift _).bind fun _ _ => (steady_getJson _ _).bind fun _ _ => (Prog.Steady.lift _).bind fun _ _ =>
    Prog.Steady.lift _

theorem steady_imdbToPlexId {I : Str → Str → Prop} (token imdbId : Str) (mediaType : PlexMediaType) :
    (imdbToPlexId D token imdbId mediaType).Steady I fails serve := by
  refine Prog.Steady.ask ?_
  split
  · exact Prog.Steady.ret _
  · exact Prog.Steady.throw _
  · exact Prog.Steady.lift _

/-! ## Lookups through the cache -/

theorem steady_cached {α : Type} {resource : Resource} {identity : Str} {cache : Bool} {codec : Codec (List α)}
    {loader : Prog plexSig (List α)} {ttl : Nat} (hload : loader.Steady (Entries D c serve asked) fails serve)
    (hentry : ∀ value, Entry D c serve asked resource identity value ↔
      ∀ items, codec.load value = some items → loader.alone serve = .ok items) :
    (Prod.fst <$> cachedModelList cache (resourceCacheKey D.sha256 (configurationCacheNamespace D c) resource identity) codec
      loader ttl).Steady (Entries D c serve asked) fails serve := by
  refine (sound_cachedModelList hload (fun v hv => (hentry v).mp (hv _ _ rfl)) fun items hitems => ?_).steady
  refine Entry.entries ((hentry _).mpr fun items' hload' => ?_)
  rw [codec.load_dump, Option.some.injEq] at hload'
  exact hload' ▸ hitems

variable (fails)

theorem steady_getMediaByRatingKey (ratingKey : Str) (cache : Bool) :
    (getMediaByRatingKey D c.discoveryUrl c.accessToken ratingKey cache (some (configurationCacheNamespace D c))).Steady
      (Entries D c serve asked) fails serve := by
  simp only [getMediaByRatingKey, configurationCacheNamespace, Sha256.hexdigest_namespaceOr]
  exact steady_cached (steady_fetchMediaByRatingKey _ _ _) fun _ => Iff.rfl

theorem steady_getMedia (guid : Str) (getOnlyFirst cache : Bool) :
    (getMedia D c.discoveryUrl c.accessToken guid getOnlyFirst cache (some (configurationCacheNamespace D c))).Steady
      (Entries D c serve asked) fails serve := by
  simp only [getMedia, configurationCacheNamespace, Sha256.hexdigest_namespaceOr]
  cases getOnlyFirst with
  | false => exact steady_cached (steady_fetchMedia _ _ _ _) fun _ => Iff.rfl
  | true => exact steady_cached (steady_fetchMedia _ _ _ _) fun _ => Iff.rfl

theorem steady_getAllEpisodes (key : Option Str) (cache : Bool) :
    (getAllEpisodes D c.discoveryUrl c.accessToken key cache (some (configurationCacheNamespace D c))).Steady
      (Entries D c serve asked) fails serve := by
  cases key with
  | none => exact Prog.Steady.throw _
  | some key =>
    simp only [getAllEpisodes, configurationCacheNamespace, Sha256.hexdigest_namespaceOr]
    exact steady_cached (steady_fetchAllEpisodes _ _ _) fun _ => Iff.rfl

theorem steady_firstEpisodeGuid (season episode : Str) (media : List PlexMediaMeta) :
    (firstEpisodeGuid D c.discoveryUrl c.accessToken season episode true (some (configurationCacheNamespace D c)) media).Steady
      (Entries D c serve asked) fails serve := by
  induction media with
  | nil => exact Prog.Steady.ret _
  | cons item rest ih =>
    refine ((steady_getAllEpisodes fails item.key true).bind fun _ _ => Prog.Steady.ret _).bind fun plexId _ => ?_
    split
    · exact Prog.Steady.ret _
    · exact ih

theorem steady_matchOf (mediaType : PlexMediaType) (stremioId : Str) :
    (matchOf D c mediaType stremioId).Steady (Entries D c serve asked) fails serve := by
  simp only [matchOf, matchStremioId]
  split
  · exact Prog.Steady.ret _
  next imdbId numbers _ =>
  refine (steady_imdbToPlexId _ _ _).bind fun matched _ => ?_
  refine Prog.Steady.bind ?_ fun plexId _ => ?_
  · split
    · exact Prog.Steady.ret _
    · exact (steady_getMedia fails _ true true).bind fun _ _ => Prog.Steady.ret _
  · split
    · split
      · exact Prog.Steady.ret _
      · exact (steady_getMedia fails _ false true).bind fun media _ => steady_firstEpisodeGuid fails _ _ media
    · exact Prog.Steady.ret _

variable {fails}

/-- **The match cache**, where every id is asked for as one type. -/
theorem steady_stremioToPlexId {mediaType : PlexMediaType} {stremioId : Str} (hasked : asked mediaType stremioId)
    (hone : ∀ t, asked t stremioId → t = mediaType) :
    (stremioToPlexId D c.discoveryUrl c.accessToken stremioId mediaType (some (configurationCacheNamespace D c))).Steady
      (Entries D c serve asked) False serve := by
  have hresult : ((matchOf D c mediaType stremioId).alone serve >>= fun plexId => Except.ok plexId) =
      (matchOf D c mediaType stremioId).alone serve := by
    cases (matchOf D c mediaType stremioId).alone serve <;> rfl
  refine Prog.Sound.steady (r := (matchOf D c mediaType stremioId).alone serve) ?_
  simp only [stremioToPlexId, configurationCacheNamespace, Sha256.hexdigest_namespaceOr]
  refine ⟨fun o ho => ?_, fun h => h.elim⟩
  dsimp only
  split
  · next htruthy =>
    obtain ⟨x, xs, rfl⟩ := Yarl.truthy_iff.mp htruthy
    exact ho _ rfl _ _ rfl mediaType hasked (by simp)
  · refine Prog.Sound.of_eq (Prog.Sound.bind (steady_matchOf False mediaType stremioId) fun plexId hplexId => ?_) hresult
    split
    · next x xs =>
      -- What is stored is what a lookup of the id, as its one type, gives.
      refine ⟨Entry.entries fun t ht _ => ?_, rfl, fun h => h.elim⟩
      rw [hone t ht]
      exact hplexId
    · rfl

theorem steady_resolveRatingKeyStreamMedia (stremioType : StremioMediaType) (value : Str) :
    (resolveRatingKeyStreamMedia D c (configurationCacheNamespace D c) stremioType value).Steady
      (Entries D c serve asked) fails serve := by
  rw [resolveRatingKeyStreamMedia.eq_def]
  split
  · refine (steady_getMediaByRatingKey fails _ true).bind fun shows _ => ?_
    split
    · exact Prog.Steady.ret _
    · refine (steady_getAllEpisodes fails _ true).bind fun episodes _ => ?_
      split
      · exact steady_getMediaByRatingKey fails _ true
      · exact Prog.Steady.ret _
  · exact steady_getMediaByRatingKey fails _ true

/-- **A lookup gives what it gives without the cache.** -/
theorem steady_resolveStreamMedia {stremioType : StremioMediaType} {mediaId : Str}
    (hasked : asked (stremioToPlexMediaType stremioType) mediaId)
    (hone : startswith mediaId "tt".toList = true → ∀ t, asked t mediaId → t = stremioToPlexMediaType stremioType) :
    (resolveStreamMedia D c (configurationCacheNamespace D c) stremioType mediaId).Steady (Entries D c serve asked) False
      serve := by
  simp only [resolveStreamMedia]
  split
  · next htt =>
    refine (steady_stremioToPlexId hasked (hone htt)).bind fun plexId _ => ?_
    split
    · exact steady_getMedia False _ false true
    · exact Prog.Steady.ret _
  · split
    · exact (Prog.Steady.lift _).bind fun value _ => steady_resolveRatingKeyStreamMedia stremioType value
    · split
      · exact (Prog.Steady.lift _).bind fun guid _ => steady_getMedia False guid false true
      · exact steady_getMedia False _ false true

end Lookups

/-! ## Runs -/

section Runs
variable {ι : Type} [DecidableEq ι] (D : Deployment) (c : AddonConfiguration D.yarl)

/-- The lookups of a run: a type and an id each. -/
abbrev lookupOf (calls : ι → StremioMediaType × Str) (i : ι) : Prog plexSig (List PlexMediaMeta) :=
  resolveStreamMedia D c (configurationCacheNamespace D c) (calls i).1 (calls i).2

/-- **The lookup caches are transparent**: any number of lookups that share
one cache, in any interleaving, each give what they would with an empty
cache, if no IMDb id is looked up both as a movie and as a series. -/
theorem lookups_transparent {serve : ∀ q, plexSig.Answer q} (calls : ι → StremioMediaType × Str)
    (hone : ∀ i j, (calls i).2 = (calls j).2 → startswith (calls i).2 "tt".toList = true → (calls i).1 = (calls j).1)
    {evs : List (Event plexSig ι)} (hev : ∀ ev ∈ evs, ev.Fixed False serve) {i : ι} {result : Except Exc (List PlexMediaMeta)}
    (hresult : (((System.start (lookupOf D c calls)).run evs).progs i).outcome = some result) (clock : ℕ → ℚ) (n : ℕ) :
    result = ((lookupOf D c calls i).exec serve clock n Cache.empty).1 := by
  let asked (t : PlexMediaType) (id : Str) : Prop := ∃ j, stremioToPlexMediaType (calls j).1 = t ∧ (calls j).2 = id
  have hsteady : ∀ j, (lookupOf D c calls j).Steady (Entries D c serve asked) False serve := by
    intro j
    refine steady_resolveStreamMedia ⟨j, rfl, rfl⟩ fun htt t ht => ?_
    obtain ⟨k, rfl, hk⟩ := ht
    rw [hone k j hk (hk ▸ htt)]
  have hrun : ((System.start (lookupOf D c calls)).run evs).Sound (Entries D c serve asked) False serve _ :=
    run_sound hev ⟨Cache.Holds.empty _, hsteady⟩
  exact ((hrun.progs i).outcome hresult).trans ((hsteady i).exec (Cache.Holds.empty _)).symm

/-! ## A film asked for twice -/

def film : PlexMediaMeta where
  guid := "plex://movie/1".toList
  type := .movie
  title := "Film".toList
  ratingKey := some "1".toList
  key := some "/library/metadata/1".toList
  librarySectionTitle := none
  duration := none
  media := []

/-- A Plex that answers with the film. -/
def oneFilm (_ : PlexGet) : Except Exc (Option MediaContainer) :=
  .ok (some {
    totalSize := some 1
    metadata := some [{ type := some "movie".toList, guid := some film.guid, title := some film.title,
                        ratingKey := film.ratingKey, key := film.key }] })

def plainDeployment : Deployment := Deployment.plain .default

/-- The first call's operations, then the second's. -/
def oneThenOther : List (Event plexSig Bool) :=
  List.replicate 7 ⟨true, 0, oneFilm, .works⟩ ++ List.replicate 4 ⟨false, 0, oneFilm, .works⟩

/-- By its IMDb id, then by its rating key. -/
def twoIds : Bool → StremioMediaType × Str
  | true => (.movie, "tt1".toList)
  | false => (.movie, "plexio:rk-1".toList)

/-- By its IMDb id as a movie, then as a series without season and episode. -/
def bothTypes : Bool → StremioMediaType × Str
  | true => (.movie, "tt1".toList)
  | false => (.series, "tt1".toList)

theorem oneThenOther_fixed : ∀ ev ∈ oneThenOther, ev.Fixed False oneFilm := by
  intro ev hev
  rcases List.mem_append.mp hev with hev | hev
  · rw [List.eq_of_mem_replicate hev]; exact ⟨rfl, fun ⟨_, h⟩ => by cases h⟩
  · rw [List.eq_of_mem_replicate hev]; exact ⟨rfl, fun ⟨_, h⟩ => by cases h⟩

theorem lookups_transparent_twoIds :
    .ok [film] = ((lookupOf plainDeployment AddonConfiguration.sample twoIds false).exec oneFilm (fun _ => 0) 0
      Cache.empty).1 := by
  refine lookups_transparent plainDeployment AddonConfiguration.sample twoIds (by decide) oneThenOther_fixed ?_ _ _
  decide +kernel

/-- **The match cache confuses the types**: once the film is found as a
movie, its id leads to it also as a series, which alone is nothing. -/
theorem match_cache_confuses_types :
    (((System.start (lookupOf plainDeployment AddonConfiguration.sample bothTypes)).run oneThenOther).progs false).outcome =
      some (.ok [film]) ∧
    ((lookupOf plainDeployment AddonConfiguration.sample bothTypes false).exec oneFilm (fun _ => 0) 0 Cache.empty).1 =
      .ok [] := by
  constructor
  · decide +kernel
  · decide +kernel

end Runs

end Plexio
