/-
The cache of stream responses. A response is stored under its type, its id
and the path that names the install, and is made of these and of one thing
more: the address the request came to, when playback goes through the proxy
and no public address is set. `responses_transparent` says that what the
cache answers is what the request would have been answered without it, as
long as requests stored alike came to one address;
`response_cache_confuses_hosts` is a run in which they do not.
-/
import Plexio.LookupCache

namespace Plexio

open Py CacheProg

/-- The deployment with no response cache. -/
abbrev Deployment.withoutResponseCache (D : Deployment) : Deployment :=
  { D with settings := { D.settings with streamCacheTtl := 0 } }

/-- One request for streams. -/
structure StreamCall where
  request : Request
  stremioType : StremioMediaType
  mediaId : Str

section Responses
variable (D : Deployment) (c : AddonConfiguration D.yarl)
  (lookup : StremioMediaType → Str → Except Exc (List PlexMediaMeta))

/-- `get_stream`, where looking up an id of a type gives what `lookup` says. -/
abbrev replyTo (call : StreamCall) : Prog plexSig StreamReply :=
  getStreamWith D c (Prog.lift (lookup call.stremioType call.mediaId)) call.request call.stremioType call.mediaId

/-- The same with the response cache disabled. -/
def uncachedReply (call : StreamCall) : Prog plexSig StreamReply :=
  getStreamWith D.withoutResponseCache c (Prog.lift (lookup call.stremioType call.mediaId)) call.request call.stremioType
    call.mediaId

/-- The streams of a call, built for it. -/
def streamsFor (call : StreamCall) : Except Exc (List StremioStream) :=
  lookup call.stremioType call.mediaId >>= buildStreams D c call.request

/-- What the call's response is stored under. -/
def StreamCall.identity (call : StreamCall) : Str := streamIdentity D c call.request call.stremioType call.mediaId

variable {D c lookup} {serve : ∀ q, plexSig.Answer q}

/-- Alone, `get_stream` looks up and builds. -/
theorem alone_getStreamWith (D : Deployment) (c : AddonConfiguration D.yarl) (find : Prog plexSig (List PlexMediaMeta))
    (request : Request) (stremioType : StremioMediaType) (mediaId : Str) :
    (getStreamWith D c find request stremioType mediaId).alone serve =
      (fun streams => ⟨streams, false⟩) <$> (find.alone serve >>= buildStreams D c request) := by
  have hread : ∀ key, (if D.settings.streamCacheTtl ≠ 0 then cacheGet true key else pure none : Prog plexSig (Option Str)).alone
      serve = .ok none := by
    intro key
    split <;> rfl
  have hwrite : ∀ key value ttl, (cacheSet true key value ttl).alone serve = .ok () := by
    intro key value ttl
    rw [cacheSet]
    split <;> rfl
  rw [getStreamWith, Prog.alone_bind, hread]
  show (find >>= _ : Prog plexSig StreamReply).alone serve = _
  rw [Prog.alone_bind]
  cases find.alone serve with
  | error e => rfl
  | ok media =>
    show (Prog.lift (buildStreams D c request media) >>= _ : Prog plexSig StreamReply).alone serve =
      (fun streams => ⟨streams, false⟩) <$> buildStreams D c request media
    rw [Prog.alone_bind, Prog.alone_lift]
    cases buildStreams D c request media with
    | error e => rfl
    | ok streams =>
      show (cacheSet true _ _ _ >>= _ : Prog plexSig StreamReply).alone serve = .ok ⟨streams, false⟩
      rw [Prog.alone_bind, hwrite]
      rfl

theorem alone_uncachedReply (call : StreamCall) :
    (uncachedReply D c lookup call).alone serve = (fun streams => ⟨streams, false⟩) <$> streamsFor D c lookup call := by
  refine (alone_getStreamWith D.withoutResponseCache c _ _ _ _).trans ?_
  rw [Prog.alone_lift]
  rfl

/-! ## What is stored -/

/-- A stored response is that of every call it is stored for. -/
def Responses (D : Deployment) (c : AddonConfiguration D.yarl)
    (lookup : StremioMediaType → Str → Except Exc (List PlexMediaMeta)) (calls : StreamCall → Prop) (key value : Str) : Prop :=
  ∀ call, calls call → key = resourceCacheKey D.sha256 (configurationCacheNamespace D c) .stream (call.identity D c) →
    ∀ streams, deserializeStreamResponse D value c.accessToken = some streams → streamsFor D c lookup call = .ok streams

/-- The two requests see one address. -/
def SameAddress (D : Deployment) (a b : StreamCall) : Prop :=
  publicBaseUrl D.settings D.yarl a.request = publicBaseUrl D.settings D.yarl b.request

theorem colon_value (t : StremioMediaType) : ':' ∉ t.value := by cases t <;> decide +kernel

theorem StremioMediaType.value_inj : ∀ {s t : StremioMediaType}, s.value = t.value → s = t
  | .series, .series, _ | .movie, .movie, _ => rfl
  | .series, .movie, h | .movie, .series, h => absurd h (by decide +kernel)

/-- The parts of an identity, given its id. -/
theorem identity_inj {a b : StreamCall} (h : a.identity D c = b.identity D c) (hid : a.mediaId = b.mediaId) :
    a.stremioType = b.stremioType ∧ configPath D c a.request = configPath D c b.request := by
  simp only [StreamCall.identity, streamIdentity, List.append_assoc, List.cons_append] at h
  have htake := congrArg (List.takeWhile (· != ':')) h
  have hvalue : ∀ (t : StremioMediaType) (rest : Str), (t.value ++ ':' :: rest).takeWhile (· != ':') = t.value := by
    intro t rest
    rw [List.takeWhile_append_of_pos]
    · simp
    · intro x hx
      simp only [bne_iff_ne, ne_eq]
      rintro rfl
      exact colon_value t hx
  rw [hvalue, hvalue] at htake
  have htype := StremioMediaType.value_inj htake
  rw [htype, hid] at h
  exact ⟨htype, by simpa using h⟩

/-- **Calls stored alike have the same streams.** -/
theorem streamsFor_congr {a b : StreamCall} (h : a.identity D c = b.identity D c) (hid : a.mediaId = b.mediaId)
    (hsame : usesPlaybackProxy D.settings c = true → SameAddress D a b) :
    streamsFor D c lookup a = streamsFor D c lookup b := by
  obtain ⟨htype, hpath⟩ := identity_inj h hid
  have hpre : playPrefix D c a.request = playPrefix D c b.request := by
    simp only [playPrefix]
    split
    · next hp => rw [hsame hp, hpath]
    · rfl
  have hbuild : buildStreams D c a.request = buildStreams D c b.request := by
    funext media
    simp only [buildStreams, hpre]
  rw [streamsFor, streamsFor, htype, hid, hbuild]

/-- Without the proxy, an identity tells the id. -/
theorem mediaId_of_identity {a b : StreamCall} (h : a.identity D c = b.identity D c)
    (hp : usesPlaybackProxy D.settings c = false) : a.mediaId = b.mediaId := by
  have hpath : ∀ request, configPath D c request = [] := fun request => by rw [configPath, hp]; rfl
  simp only [StreamCall.identity, streamIdentity, hpath, List.append_assoc, List.cons_append] at h
  have hlast : ∀ call : StreamCall, (call.stremioType.value ++ ':' :: (call.mediaId ++ [':'])).dropWhile (· != ':') =
      ':' :: (call.mediaId ++ [':']) := by
    intro call
    rw [List.dropWhile_append_of_pos, List.dropWhile_cons_of_neg (by simp)]
    intro x hx
    simp only [bne_iff_ne, ne_eq]
    rintro rfl
    exact colon_value _ hx
  have hdrop := congrArg (List.dropWhile (· != ':')) h
  rw [hlast, hlast] at hdrop
  simpa using hdrop

variable (D c) in
/-- Calls stored alike are of one id, and came to one address. -/
def StoredApart (calls : StreamCall → Prop) : Prop :=
  ∀ a b, calls a → calls b → a.identity D c = b.identity D c → a.mediaId = b.mediaId ∧ SameAddress D a b

variable (D) in
/-- The text of a response keeps clear of the placeholders. -/
def FreeOfMarks (streams : List StremioStream) : Prop :=
  ¬ tokenMark <:+: D.streams.dump streams ∧ ¬ encodedTokenMark <:+: D.streams.dump streams

theorem Responses.of_build {calls : StreamCall → Prop} {call : StreamCall} {streams : List StremioStream}
    (hcall : calls call) (hkey : usesPlaybackProxy D.settings c = true → StoredApart D c calls)
    (hstreams : streamsFor D c lookup call = .ok streams) (hmarks : FreeOfMarks D streams) :
    Responses D c lookup calls
      (resourceCacheKey D.sha256 (configurationCacheNamespace D c) .stream (call.identity D c))
      (serializeStreamResponse D streams c.accessToken) := by
  intro other hother hk streams' hload
  rw [deserialize_serialize c.accessToken hmarks.1 hmarks.2, Option.some.injEq] at hload
  obtain ⟨-, -, hidentity⟩ := resourceCacheKey_inj (D.sha256.colon _) (D.sha256.colon _) hk
  rw [← hload, ← hstreams]
  cases hp : usesPlaybackProxy D.settings c with
  | false =>
    refine (streamsFor_congr hidentity (mediaId_of_identity hidentity hp) fun h => ?_).symm
    rw [hp] at h; cases h
  | true =>
    obtain ⟨hid, hsame⟩ := hkey hp call other hcall hother hidentity
    exact (streamsFor_congr hidentity hid fun _ => hsame).symm

/-- **A response is the one built for the request**, from the cache or not. -/
theorem sound_replyTo {calls : StreamCall → Prop} {call : StreamCall} (hcall : calls call)
    (hkey : usesPlaybackProxy D.settings c = true → StoredApart D c calls)
    (hmarks : ∀ streams, streamsFor D c lookup call = .ok streams → FreeOfMarks D streams) :
    (StreamReply.streams <$> replyTo D c lookup call).Sound (Responses D c lookup calls) True serve
      (streamsFor D c lookup call) := by
  rw [replyTo, getStreamWith, map_bind]
  refine sound_cacheGet_if fun o ho => ?_
  cases hl : o.bind fun text => deserializeStreamResponse D text c.accessToken with
  | some streams =>
    obtain ⟨v, rfl, hv⟩ := Option.bind_eq_some_iff.mp hl
    rw [ho v rfl call hcall rfl streams hv]
    rfl
  | none =>
    simp only [map_bind]
    refine Prog.Sound.bind (Prog.Sound.lift _) fun media hmedia => ?_
    have hresult : (buildStreams D c call.request media >>= fun streams => (Except.ok () >>= fun _ => Except.ok streams)) =
        buildStreams D c call.request media := by
      cases buildStreams D c call.request media <;> rfl
    refine Prog.Sound.of_eq (Prog.Sound.bind (Prog.Sound.lift _) fun streams hstreams => ?_) hresult
    have hfor : streamsFor D c lookup call = .ok streams := by rw [streamsFor, hmedia]; exact hstreams
    exact Prog.Sound.bind (sound_cacheSet (Responses.of_build hcall hkey hfor (hmarks streams hfor))) fun _ _ => rfl

end Responses

/-! ## Runs -/

section Runs
variable {ι : Type} [DecidableEq ι] (D : Deployment) (c : AddonConfiguration D.yarl)
  (lookup : StremioMediaType → Str → Except Exc (List PlexMediaMeta))

/-- **The response cache is transparent**: in any interleaving of any number
of requests, at any times, with the cache failing or not, what is answered
from it is what the request is answered with the response cache disabled. It
takes that requests stored alike are of one id and came to one address, when
playback goes through the proxy. -/
theorem responses_transparent {serve : ∀ q, plexSig.Answer q} (calls : ι → StreamCall)
    (hkey : usesPlaybackProxy D.settings c = true → StoredApart D c (Set.range calls))
    (hmarks : ∀ i streams, streamsFor D c lookup (calls i) = .ok streams → FreeOfMarks D streams)
    {evs : List (Event plexSig ι)} (hev : ∀ ev ∈ evs, ev.Fixed True serve) {i : ι} {streams : List StremioStream}
    (hhit : (((System.start fun i => replyTo D c lookup (calls i)).run evs).progs i).outcome = some (.ok ⟨streams, true⟩)) :
    (uncachedReply D c lookup (calls i)).alone serve = .ok ⟨streams, false⟩ := by
  let s := (System.start fun i => replyTo D c lookup (calls i)).run evs
  have hmap : System.run { cache := Cache.empty, progs := fun i => StreamReply.streams <$> replyTo D c lookup (calls i) } evs =
      { cache := s.cache, progs := fun i => StreamReply.streams <$> s.progs i } :=
    run_map StreamReply.streams evs (System.start fun i => replyTo D c lookup (calls i))
  have hsound : System.Sound { cache := s.cache, progs := fun i => StreamReply.streams <$> s.progs i }
      (Responses D c lookup (Set.range calls)) True serve fun i => streamsFor D c lookup (calls i) :=
    hmap ▸ run_sound hev ⟨Cache.Holds.empty _, fun i => sound_replyTo ⟨i, rfl⟩ hkey (hmarks i)⟩
  have hout : (StreamReply.streams <$> s.progs i).outcome = some (.ok streams) := by
    rw [Prog.outcome_map, hhit]
    rfl
  rw [alone_uncachedReply, ← (hsound.progs i).outcome hout]
  rfl

/-! ## One film, two addresses -/

/-- The sample configuration, with playback through the proxy. -/
def AddonConfiguration.reporting : AddonConfiguration Yarl.plain := { AddonConfiguration.sample with reportPlayback := true }

/-- A Plex in which every id is the film, in one version. -/
def findsFilm (_ : StremioMediaType) (_ : Str) : Except Exc (List PlexMediaMeta) :=
  .ok [{ film with
    media := [{ part := some [{ key := some "/library/parts/1/film.mkv".toList, file := some "film.mkv".toList }] }] }]

/-- A request for the film, made to `host`. -/
def callTo (host : String) : StreamCall where
  request := { path := "/s1/stream/movie/tt1.json".toList, scheme := "https".toList, netloc := some host.toList,
               authority := none, forwardedProto := none, forwardedHost := none }
  stremioType := .movie
  mediaId := "tt1".toList

abbrev streamsAt (host : String) : Except Exc (List StremioStream) :=
  streamsFor plainDeployment .reporting findsFilm (callTo host)

/-- The first request looks up, builds and stores; the second reads. -/
def buildThenRead : List (Event plexSig Bool) :=
  List.replicate 2 ⟨true, 0, oneFilm, .works⟩ ++ [⟨false, 0, oneFilm, .works⟩]

theorem buildThenRead_fixed : ∀ ev ∈ buildThenRead, ev.Fixed True oneFilm := by
  intro ev hev
  rcases List.mem_append.mp hev with hev | hev
  · rw [List.eq_of_mem_replicate hev]; exact ⟨rfl, fun _ => trivial⟩
  · rw [List.mem_singleton.mp hev]; exact ⟨rfl, fun _ => trivial⟩

theorem streamsAt_freeOfMarks : ∀ host ∈ ["a.example", "b.example"], ∀ streams ∈ (streamsAt host).toOption,
    FreeOfMarks plainDeployment streams := by
  unfold FreeOfMarks
  decide +kernel

theorem responses_transparent_oneHost :
    (uncachedReply plainDeployment .reporting findsFilm (callTo "a.example")).alone oneFilm =
      .ok ⟨(streamsAt "a.example").toOption.getD [], false⟩ := by
  refine responses_transparent plainDeployment .reporting findsFilm (fun _ : Bool => callTo "a.example") ?_ ?_
    buildThenRead_fixed (i := false) ?_
  · rintro - a b ⟨-, rfl⟩ ⟨-, rfl⟩ -
    exact ⟨rfl, rfl⟩
  · rintro - streams hstreams
    exact streamsAt_freeOfMarks "a.example" (by simp) streams (by rw [streamsAt, hstreams]; rfl)
  · decide +kernel

/-- **The response cache confuses the hosts**: the second request, which came
to another address, is answered with links to the first one's. -/
theorem response_cache_confuses_hosts :
    AddonConfiguration.check Yarl.plain (.obj AddonConfiguration.reporting.storageMembers) = .ok .reporting ∧
    (∀ host ∈ ["a.example", "b.example"], ∀ streams ∈ (streamsAt host).toOption, FreeOfMarks plainDeployment streams) ∧
    ∃ streams : List StremioStream,
      (((System.start fun first => replyTo plainDeployment .reporting findsFilm
        (callTo (if first then "a.example" else "b.example"))).run buildThenRead).progs false).outcome =
          some (.ok ⟨streams, true⟩) ∧
      (uncachedReply plainDeployment .reporting findsFilm (callTo "b.example")).alone oneFilm ≠ .ok ⟨streams, false⟩ := by
  refine ⟨AddonConfiguration.check_storage_self { AddonConfiguration.sample_accepted with } AddonConfiguration.sample_urls,
    streamsAt_freeOfMarks, (streamsAt "a.example").toOption.getD [], ?_, ?_⟩
  · decide +kernel
  · decide +kernel

end Runs

end Plexio
