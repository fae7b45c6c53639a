/-
A cache that fails. Whatever its reads and writes do, a stream request goes
as it does with a cache that always misses, but for the match of an IMDb id:
that entry is read and written without a guard (`stremioToPlexId`), so a
failure there is the request's (`cache_failures_absorbed`).
-/
import Plexio.CacheFootprint

namespace Plexio

open Py CacheProg

section Failures
variable {D : Deployment} {c : AddonConfiguration D.yarl} {serve : ∀ q, plexSig.Answer q} {clock : ℕ → ℚ}
  {faults : ℕ → Str → Fault plexSig}

/-- However the first read of an empty cache goes, it finds nothing. -/
theorem execFaulty_read {on : Prop} [Decidable on] {α : Type} (key : Str) (f : Option Str → Prog plexSig α) :
    ∃ n, ((if on then cacheGet true key else pure none : Prog plexSig (Option Str)) >>= f).execFaulty serve clock faults 0
      Cache.empty = (f none).execFaulty serve clock faults n Cache.empty := by
  split
  · refine ⟨1, ?_⟩
    simp only [cacheGet, if_true, Prog.get_bind, Prog.execFaulty]
    cases faults 0 key <;> rfl
  · exact ⟨0, rfl⟩

/-- What `get_stream` does when nothing is stored for it. -/
abbrev lookupAndBuild (D : Deployment) (c : AddonConfiguration D.yarl) (request : Request) (stremioType : StremioMediaType)
    (mediaId : Str) : Prog plexSig StreamReply := do
  let media ← resolveStreamMedia D c (configurationCacheNamespace D c) stremioType mediaId
  let streams ← Prog.lift (buildStreams D c request media)
  cacheSet true (resourceCacheKey D.sha256 (configurationCacheNamespace D c) .stream
      (streamIdentity D c request stremioType mediaId))
    (serializeStreamResponse D streams c.accessToken) D.settings.streamCacheTtl
  pure { streams, hit := false }

variable (request : Request) (stremioType : StremioMediaType) (mediaId : Str)

theorem execFaulty_getStream : ∃ n, (getStream D c request stremioType mediaId).execFaulty serve clock faults 0 Cache.empty =
    (lookupAndBuild D c request stremioType mediaId).execFaulty serve clock faults n Cache.empty := by
  rw [getStream, getStreamWith]
  exact execFaulty_read _ _

theorem alone_getStream : (getStream D c request stremioType mediaId).alone serve =
    (lookupAndBuild D c request stremioType mediaId).alone serve := by
  rw [getStream, getStreamWith]
  dsimp only
  split <;> rfl

/-- Its result is the same whatever valid entries it finds. -/
theorem steady_lookupAndBuild :
    (lookupAndBuild D c request stremioType mediaId).Steady
      (Entries D c serve fun t i => t = stremioToPlexMediaType stremioType ∧ i = mediaId) False serve := by
  refine (steady_resolveStreamMedia ⟨rfl, rfl⟩ fun _ _ ht => ht.1).bind fun media _ => ?_
  refine (Prog.Steady.lift _).bind fun streams _ => ?_
  refine (sound_cacheSet ?_).steady.bind fun _ _ => Prog.Steady.ret _
  have hentry : ∀ value, Entry D c serve (fun t i => t = stremioToPlexMediaType stremioType ∧ i = mediaId) .stream
      (streamIdentity D c request stremioType mediaId) value := fun _ => trivial
  exact (hentry _).entries

theorem touches_lookupAndBuild {P : Str → Prop → Prop} (h : Footprint D c mediaId P) :
    (lookupAndBuild D c request stremioType mediaId).Touches P :=
  (touches_resolveStreamMedia h stremioType).bind h.lenient fun media => touches_respond h request stremioType media

/-- A failure of the match entry's read is the request's. -/
theorem execFaulty_matchFails (htt : startswith mediaId "tt".toList = true) {e : Exc}
    (hfails : ∀ n, faults n (resourceCacheKey D.sha256 (configurationCacheNamespace D c) .matched mediaId) = .raises e) :
    (getStream D c request stremioType mediaId).execFaulty serve clock faults 0 Cache.empty = .error e := by
  obtain ⟨n, hn⟩ : ∃ n, (getStream D c request stremioType mediaId).execFaulty serve clock faults 0 Cache.empty = _ :=
    execFaulty_getStream request stremioType mediaId
  rw [hn]
  simp only [lookupAndBuild, resolveStreamMedia, htt, if_true, stremioToPlexId, configurationCacheNamespace,
    Sha256.hexdigest_namespaceOr, Prog.get_bind, Prog.execFaulty]
  simp only [configurationCacheNamespace] at hfails
  rw [hfails]
  rfl

variable (D c serve clock)

/-- **Failures of the cache are absorbed**, as long as it does not fail on
the match of the request's IMDb id; where it may fail there, it can end the
request. `may` tells on which keys the cache may raise. -/
theorem cache_failures_absorbed (may : Str → Prop) :
    (∀ faults : ℕ → Str → Fault plexSig, (∀ n key e, faults n key = .raises e → may key) →
      (getStream D c request stremioType mediaId).execFaulty serve clock faults 0 Cache.empty =
        (getStream D c request stremioType mediaId).alone serve) ↔
    (startswith mediaId "tt".toList = true →
      ¬ may (resourceCacheKey D.sha256 (configurationCacheNamespace D c) .matched mediaId)) := by
  constructor
  · intro habsorbed htt hmay
    -- The backend raises what the request alone does not.
    obtain ⟨e, he⟩ : ∃ e : Exc, (getStream D c request stremioType mediaId).alone serve ≠ .error e := by
      by_cases hb : (getStream D c request stremioType mediaId).alone serve = .error .backend
      · exact ⟨.runtime, by rw [hb]; simp⟩
      · exact ⟨.backend, hb⟩
    let key := resourceCacheKey D.sha256 (configurationCacheNamespace D c) .matched mediaId
    let faults : ℕ → Str → Fault plexSig := fun _ k => if k = key then .raises e else .works
    have hraises : ∀ n k e', faults n k = .raises e' → may k := by
      intro n k e' hk
      by_cases hkey : k = key
      · rw [hkey]; exact hmay
      · simp [faults, hkey] at hk
    have hfails : (getStream D c request stremioType mediaId).execFaulty serve clock faults 0 Cache.empty = .error e :=
      execFaulty_matchFails request stremioType mediaId htt fun n => if_pos rfl
    exact he ((habsorbed faults hraises).symm.trans hfails)
  · intro hmay faults hraises
    obtain ⟨n, hn⟩ : ∃ n, (getStream D c request stremioType mediaId).execFaulty serve clock faults 0 Cache.empty = _ :=
      execFaulty_getStream request stremioType mediaId
    rw [hn, alone_getStream]
    refine (steady_lookupAndBuild request stremioType mediaId).execFaulty (touches_lookupAndBuild _ _ _ ?_) (Cache.Holds.empty _)
    exact
      { lenient := fun _ _ _ hpq hp hk => hpq (hp hk)
        guarded := fun _ _ _ => trivial
        bare := fun htt ⟨n, e, hk⟩ => hmay htt (hraises n _ e hk) }

end Failures

/-! ## A backend that is down -/

/-- A request for a film by its IMDb id. -/
def filmRequest : Request where
  path := "/s1/stream/movie/tt1.json".toList
  scheme := "https".toList
  netloc := some "a.example".toList
  authority := none
  forwardedProto := none
  forwardedHost := none

/-- **A cache that is down fails the request**, which without it is answered. -/
theorem failing_cache_fails_request :
    (getStream plainDeployment AddonConfiguration.sample filmRequest .movie "tt1".toList).execFaulty oneFilm (fun _ => 0)
      (fun _ _ => .raises Exc.backend) 0 Cache.empty = .error .backend ∧
    (getStream plainDeployment AddonConfiguration.sample filmRequest .movie "tt1".toList).alone oneFilm =
      .ok ⟨[], false⟩ := by
  constructor
  · decide +kernel
  · decide +kernel

end Plexio
