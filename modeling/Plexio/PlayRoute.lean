/-
The way a proxied playback takes (`get_play`, `proxy_playback`): the play
link of a stream is matched by a route, its last part is Base64 of the part
key, and the file is opened at the configured address. `play_link_opens_file`
says that this is the file that Direct Play names.
-/
import Plexio.ResponseCache
import Plexio.StreamFields

namespace Plexio

open Py Json

/-! ## The route -/

/-- The parameters of `/{session_id}/play/{rating_key}/{duration}/{part_b64}`. -/
structure PlayParams where
  sessionId : Str
  ratingKey : Str
  duration : Str
  partB64 : Str
  deriving DecidableEq

/-- A path matches when no parameter is empty; none contains a slash. -/
def sessionPlayRoute (path : Str) : Option PlayParams :=
  match split '/' path with
  | [[], sessionId, play, ratingKey, duration, partB64] =>
    if play = "play".toList ∧ sessionId ≠ [] ∧ ratingKey ≠ [] ∧ duration ≠ [] ∧ partB64 ≠ [] then
      some { sessionId, ratingKey, duration, partB64 }
    else none
  | _ => none

/-- A number without its decimal part, if that is zeros only. -/
def dropDecimalZeros (s : Str) : Str :=
  if ((s.dropWhile (· != '.')).drop 1).all (· == '0') then s.takeWhile (· != '.') else s

/-- An integer parameter, as it is validated; otherwise the answer is 422. -/
def intParam (s : Str) : Except Exc Int :=
  match parseInt Unicode.ascii.decimal (dropDecimalZeros (strip s)) with
  | some n => .ok n
  | none => .error (.http 422 "Unprocessable Entity".toList)

def b64decodePath (token : Str) : Except Exc Str :=
  match urlsafeB64decode false (repad token) with
  | .error .nonAscii => .error (.value "string argument should contain only ASCII characters".toList)
  | .error .binascii => .error (.value "invalid base64".toList)
  | .ok bytes =>
    match decode? bytes with
    | some s => .ok s
    | none => .error (.value "invalid UTF-8".toList)

/-- What `proxy_playback` is called with. -/
structure ProxyCall where
  ratingKey : Str
  durationMs : Int
  partKey : Str
  identifier : Str
  deriving DecidableEq

/-- `get_play`, by the session route. -/
def getPlay (S : Settings) {Y : Yarl} (configuration : Option (AddonConfiguration Y)) (params : PlayParams) :
    Except Exc ProxyCall := do
  let durationMs ← intParam params.duration
  match configuration with
  | none => .error httpNotFound
  | some c =>
    if usesPlaybackProxy S c then do
      let partKey ← b64decodePath params.partB64
      pure { ratingKey := params.ratingKey, durationMs, partKey, identifier := params.sessionId }
    else .error httpNotFound

section Proxy
variable {Y : Yarl}

/-- The address `_open_playback_response` requests. -/
def upstream (streamBase : Y.Url) (partKey accessToken : Str) : Except Exc Y.Url := do
  let url ← divide streamBase (partKey.drop 1)
  pure (Y.mod url (tokenParam accessToken))

/-- The address `proxy_playback` opens: the configured one, never an alternate. -/
def ProxyCall.upstream (call : ProxyCall) (c : AddonConfiguration Y) : Except Exc Y.Url :=
  Plexio.upstream c.streamingUrl call.partKey c.accessToken

/-- A path is matched by the route, and answered by this call. -/
def RoutesTo (S : Settings) (c : AddonConfiguration Y) (path : Str) (call : ProxyCall) : Prop :=
  ∃ params, sessionPlayRoute path = some params ∧ getPlay S (some c) params = .ok call

end Proxy

/-! ## What survives it -/

/-- **A part key comes back**, whatever its length and its characters. -/
theorem b64decodePath_encode (partKey : Str) : b64decodePath (rstrip '=' (urlsafeB64encode (encode partKey))) = .ok partKey := by
  simp only [b64decodePath, urlsafeB64decode_repad, decode?_encode]

theorem slash_not_mem_b64 (bs : Bytes) : '/' ∉ rstrip '=' (urlsafeB64encode bs) := by
  intro h
  exact absurd (isUrlsafe_of_mem h) (by decide)

/-- **A duration comes back.** -/
theorem intParam_formatInt {n : Int} (hn : 0 ≤ n) {s : Str} (h : formatInt n = .ok s) : intParam s = .ok n := by
  rw [formatInt] at h
  split at h
  · cases h
  next hlen =>
  cases h
  obtain ⟨k, rfl⟩ := Int.eq_ofNat_of_zero_le hn
  have hdigits : strInt (k : Int) = Nat.toDigits 10 k := by rw [strInt_eq, if_pos hn]; rfl
  have hd : ∀ c ∈ Nat.toDigits 10 k, c.isDigit = true := fun c hc => Nat.isDigit_of_mem_toDigits (by decide) (by decide) hc
  have hpoint : ∀ c ∈ Nat.toDigits 10 k, (c != '.') = true := fun c hc => by simp [(isDigit_plain (hd c hc)).2.2.2.1]
  have hzeros : dropDecimalZeros (Nat.toDigits 10 k) = Nat.toDigits 10 k := by
    have htake : (Nat.toDigits 10 k).takeWhile (· != '.') = Nat.toDigits 10 k := List.takeWhile_eq_self_iff.mpr hpoint
    rw [dropDecimalZeros, htake, ite_self]
  simp only [Int.natAbs_natCast, hdigits] at hlen
  rw [intParam, hdigits, strip_eq_self fun c hc => (isDigit_plain (hd c hc)).1, hzeros,
    parseInt_digits Unicode.ascii_readsDigits Nat.toDigits_ne_nil hd (by omega), Nat.ofDigitChars_toDigits (by decide) (by decide)]

/-- What an integer is written with: never a slash. -/
theorem formatInt_segment {n : Int} {s : Str} (h : formatInt n = .ok s) : s ≠ [] ∧ '/' ∉ s := by
  rw [formatInt] at h
  split at h
  · cases h
  cases h
  refine ⟨?_, not_mem_strInt (by decide) (by decide) n⟩
  rw [strInt_eq]
  split
  · exact Nat.toDigits_ne_nil
  · exact List.cons_ne_nil _ _

/-- **A play link matches the route**, with what it was made of. -/
theorem sessionPlayRoute_link {params : PlayParams}
    (h : ∀ p ∈ [params.sessionId, params.ratingKey, params.duration, params.partB64], p ≠ [] ∧ '/' ∉ p) :
    sessionPlayRoute ('/' :: params.sessionId ++ "/play".toList ++ '/' :: params.ratingKey ++ '/' :: params.duration ++
      '/' :: params.partB64) = some params := by
  simp only [List.mem_cons, List.not_mem_nil, or_false, forall_eq_or_imp, forall_eq] at h
  obtain ⟨⟨hs, hs'⟩, ⟨hr, hr'⟩, ⟨hd, hd'⟩, hp, hp'⟩ := h
  have hjoin : '/' :: params.sessionId ++ "/play".toList ++ '/' :: params.ratingKey ++ '/' :: params.duration ++
      '/' :: params.partB64 = ['/'].intercalate
        [[], params.sessionId, "play".toList, params.ratingKey, params.duration, params.partB64] := by
    simp [List.intercalate]
  have hsplit : split '/' (['/'].intercalate
      [[], params.sessionId, "play".toList, params.ratingKey, params.duration, params.partB64]) = _ :=
    split_join (by simp [hs', hr', hd', hp']) (by simp)
  rw [sessionPlayRoute, hjoin, hsplit]
  simp [hs, hr, hd, hp]

/-! ## The link of a request -/

/-- A session's id: the text of a `uuid4`. -/
def IsSessionId (sessionId : Str) : Prop := sessionId ≠ [] ∧ ∀ c ∈ sessionId, c ∈ "0123456789abcdef-".toList

theorem IsSessionId.segment {sessionId : Str} (h : IsSessionId sessionId) : sessionId ≠ [] ∧ '/' ∉ sessionId :=
  ⟨h.1, fun hc => absurd (h.2 _ hc) (by decide)⟩

theorem partition_stream {before : Str} (h : '/' ∉ before) (rest : Str) :
    partition "/stream/".toList (before ++ "/stream/".toList ++ rest) = (before, "/stream/".toList, rest) := by
  induction before with
  | nil => rfl
  | cons c cs ih =>
    obtain ⟨hc, hcs⟩ := not_or.mp (List.mem_cons.not.mp h)
    have hhead : "/stream/".toList.isPrefixOf (c :: (cs ++ "/stream/".toList ++ rest)) = false := by
      have : "/stream/".toList = '/' :: "stream/".toList := rfl
      rw [this, List.isPrefixOf_cons_cons, beq_false_of_ne hc, Bool.false_and]
    rw [List.cons_append, List.cons_append, partition, hhead, ih hcs]
    rfl

/-- A session's requests are told by its id. -/
theorem partition_session {sessionId : Str} (h : IsSessionId sessionId) (rest : Str) :
    partition "/stream/".toList ('/' :: sessionId ++ "/stream/".toList ++ rest) = ('/' :: sessionId, "/stream/".toList, rest) := by
  obtain ⟨c, cs, rfl⟩ := List.exists_cons_of_ne_nil h.1
  have hc : 's' ≠ c := by
    rintro rfl
    exact absurd (h.2 _ List.mem_cons_self) (by decide)
  have hhead : "/stream/".toList.isPrefixOf ('/' :: (c :: cs ++ "/stream/".toList ++ rest)) = false := by
    have : "/stream/".toList = '/' :: 's' :: "tream/".toList := rfl
    rw [this, List.cons_append, List.cons_append, List.isPrefixOf_cons_cons, List.isPrefixOf_cons_cons, beq_false_of_ne hc]
    simp
  rw [List.cons_append, List.cons_append, partition, hhead, partition_stream h.segment.2]
  rfl

section Prefix
variable {D : Deployment} {c : AddonConfiguration D.yarl} {request : Request} {pre : Str}

/-- Where the links of a session's request lead. -/
theorem playPrefix_session {sessionId rest : Str} (hid : IsSessionId sessionId)
    (hpath : request.path = '/' :: sessionId ++ "/stream/".toList ++ rest)
    (h : playPrefix D c request = .ok (some pre)) :
    usesPlaybackProxy D.settings c = true ∧ ∃ base, publicBaseUrl D.settings D.yarl request = .ok base ∧
      pre = base ++ '/' :: sessionId ++ "/play".toList := by
  rw [playPrefix] at h
  split at h
  · next huses =>
    obtain ⟨base, hbase, hpre⟩ := bind_ok.mp h
    cases hpre
    refine ⟨huses, base, hbase, ?_⟩
    rw [configPath, if_pos huses, hpath, partition_session hid]
  · cases h

end Prefix

/-! ## The streams of a version -/

section Streams
variable {Y : Yarl} {U : Unicode} {c : AddonConfiguration Y} {item : PlexMediaMeta} {playPrefix : Option Str}

/-- A version's streams are among the item's. -/
theorem PlexMediaMeta.versionStreams_of_streams {streams : List StremioStream}
    (h : item.getStremioStreams U c playPrefix = .ok streams) {media : Version} {i : Nat} (hi : (media, i) ∈ item.media.zipIdx) :
    ∃ vs, item.versionStreams U c playPrefix media i = .ok vs ∧ vs ⊆ streams := by
  obtain ⟨keyed, hkeyed, h⟩ := bind_ok.mp h
  obtain ⟨groups, hgroups, hs⟩ := bind_ok.mp h
  cases hs
  rw [← (keyed_ok hkeyed).1] at hi
  obtain ⟨⟨priority, media, i⟩, hmem, hk⟩ := List.mem_map.mp hi
  cases hk
  have hmem' := (List.perm_insertionSort (fun a b : Priority × Version × Nat => a.1 ≤ b.1) _).mem_iff.mpr hmem
  obtain ⟨vs, hvs, hmake⟩ := exists_of_forall₂ (mapM_ok.mp hgroups).flip _ hmem'
  exact ⟨vs, hmake, fun s hs => List.mem_flatten.mpr ⟨vs, hvs, hs⟩⟩

theorem PlexMediaMeta.source_part {media : Version} {part : Part} {parts : List Part}
    (hparts : media.part = some (part :: parts)) {source : Source} (h : item.source U c media = .ok source) :
    source.part = part := by
  obtain ⟨_, _, hparts', hsame, -⟩ := PlexMediaMeta.source_ok h
  cases hparts.symm.trans hparts'
  exact hsame

/-- Among them are those of Direct Play, when it is offered. -/
theorem PlexMediaMeta.directPlay_of_streams (hdirect : c.includeDirectPlay = true) {streams : List StremioStream}
    (h : item.getStremioStreams U c playPrefix = .ok streams) {media : Version} {i : Nat} (hi : (media, i) ∈ item.media.zipIdx) :
    ∃ source direct, item.source U c media = .ok source ∧ item.directPlayStreams c playPrefix media source = .ok direct ∧
      direct ⊆ streams := by
  obtain ⟨vs, hvs, hsub⟩ := versionStreams_of_streams h hi
  obtain ⟨source, direct, url, original, down, hsource, hdir, -, -, -, rfl⟩ := versionStreams_ok hvs
  rw [hdirect] at hdir
  refine ⟨source, direct, hsource, hdir, fun s hs => hsub ?_⟩
  exact List.mem_append_left _ (List.mem_append_left _ (List.mem_append_left _ hs))

theorem Source.stream_url {source : Source} {quality url : Str} {base : Y.Url} {s : StremioStream}
    (h : source.stream c quality url base = .ok s) : s.url = some url := by
  obtain ⟨_, -, h⟩ := bind_ok.mp h
  obtain ⟨_, -, hs⟩ := bind_ok.mp h
  cases hs
  rfl

/-- The first of the streams of Direct Play is the primary connection's. -/
theorem PlexMediaMeta.directPlayStreams_head {connections : List (Y.Url × PlexConnectionKind)} {primary : Y.Url}
    {kind : PlexConnectionKind} (hc : c.directPlayConnections = .ok ((primary, kind) :: connections)) {media : Version}
    {source : Source} {direct : List StremioStream} (h : item.directPlayStreams c playPrefix media source = .ok direct) :
    ∃ s rest url label, direct = s :: rest ∧ s.url = some url ∧
      item.directPlayUrl c playPrefix media source.part 0 primary (capitalize kind.value) = .ok (url, label) ∧
      (Yarl.truthy playPrefix = true → rest = []) := by
  rw [directPlayStreams, hc, ok_bind] at h
  have hhead : (if Yarl.truthy playPrefix then ((primary, kind) :: connections).take 1 else (primary, kind) :: connections) =
      (primary, kind) :: if Yarl.truthy playPrefix then [] else connections := by
    split <;> rfl
  dsimp only at h
  rw [hhead, List.zipIdx_cons, mapM_ok] at h
  obtain ⟨s, rest, hs, hrest, rfl⟩ := List.forall₂_cons_left_iff.mp h
  obtain ⟨⟨url, label⟩, hurl, hstream⟩ := bind_ok.mp hs
  refine ⟨s, rest, url, label, rfl, Source.stream_url hstream, hurl, fun htruthy => ?_⟩
  rw [htruthy] at hrest
  exact List.forall₂_nil_left_iff.mp hrest

/-- A play link, from what it tells. -/
theorem PlexMediaMeta.directPlayUrl_proxied {before rk pre partKey : Str} (hkey : item.key = some (before ++ '/' :: rk))
    (hrk : '/' ∉ rk) (hpre : pre ≠ []) {media : Version} {part : Part} (hpart : part.key = some partKey) {n : Nat}
    {base : Y.Url} {kind url label : Str}
    (h : item.directPlayUrl c (some pre) media part n base kind = .ok (url, label)) :
    ∃ duration, formatInt ((orInt item.duration media.duration).getD 0) = .ok duration ∧
      url = pre ++ '/' :: rk ++ '/' :: duration ++ '/' :: rstrip '=' (urlsafeB64encode (encode partKey)) := by
  obtain ⟨ch, rest, rfl⟩ := List.exists_cons_of_ne_nil hpre
  have htruthy : Yarl.truthy (some (ch :: rest)) = true := rfl
  simp only [directPlayUrl, htruthy, if_true, hkey, hpart, index, ok_bind, bind_ok] at h
  obtain ⟨_, hafter, duration, hduration, hurl⟩ := h
  cases hafter
  cases hurl
  refine ⟨duration, hduration, ?_⟩
  rw [afterLast_append _ hrk]
  rfl

/-- A direct link. -/
theorem PlexMediaMeta.directPlayUrl_direct {partKey : Str} {media : Version} {part : Part} (hpart : part.key = some partKey)
    {n : Nat} {base : Y.Url} {kind url label : Str} (h : item.directPlayUrl c none media part n base kind = .ok (url, label)) :
    ∃ u, upstream base partKey c.accessToken = .ok u ∧ url = Y.str u := by
  rw [directPlayUrl, if_neg (by simp [Yarl.truthy]), hpart] at h
  simp only [index, ok_bind, bind_ok] at h
  obtain ⟨u, hu, hurl⟩ := h
  cases hurl
  refine ⟨_, ?_, rfl⟩
  rw [upstream, hu]
  rfl

end Streams

/-! ## What the store loads -/

section Loaded
variable (D : Deployment) (F : Fernet) (maxSessions : Nat)

/-- A configuration that was accepted, stored, and loaded again. -/
def LoadedFromStore (c : AddonConfiguration D.yarl) : Prop :=
  ∃ j d, AddonConfiguration.check D.yarl j = .ok d ∧ (D.sessions F maxSessions).reload d.toStorageDict = .ok c

variable {D F maxSessions} {c : AddonConfiguration D.yarl}

/-- Whatever `get_config` loads of a created session is one. -/
theorem loadedFromStore_of_run {ι : Type} [DecidableEq ι] {j : Json} {d : AddonConfiguration D.yarl}
    (hcheck : AddonConfiguration.check D.yarl j = .ok d) {label : Option Str} {rows : List Row} {ops : ι → Op Json.Value}
    (hrows : (D.sessions F maxSessions).RowsInv rows) {evs : List (Linearize.Event ι (D.sessions F maxSessions).Choice)}
    (hf : Linearize.AllAllowed ((D.sessions F maxSessions).Fresh ops (rows.map (·.sessionId))) evs) {i k : ι} {id : Str}
    (hi : ops i = .create d.toStorageDict label) (hk : ops k = .getConfig id)
    (hcreated : (((D.sessions F maxSessions).begin rows).run (D.sessions F maxSessions).machine ops evs).phase i =
      .done (.created (.ok id)))
    (hloaded : (((D.sessions F maxSessions).begin rows).run (D.sessions F maxSessions).machine ops evs).phase k =
      .done (.config (.ok (some c)))) : LoadedFromStore D F maxSessions c :=
  ⟨j, d, hcheck, (SessionStore.reload_eq _ _).trans (SessionStore.loaded_of_created hrows hf hi hk hcreated hloaded)⟩

/-- The primary connection of a loaded configuration is its streaming URL, as it is. -/
theorem LoadedFromStore.primary (hY : D.yarl.Lawful) (h : LoadedFromStore D F maxSessions c) :
    ∃ rest, c.directPlayConnections = .ok ((c.streamingUrl, c.streamingConnectionKind) :: rest) := by
  obtain ⟨j, d, hcheck, hreload⟩ := h
  have hd := AddonConfiguration.accepted_of_check hcheck
  have hload : AddonConfiguration.load D.yarl d.toStorageDict = .ok c := (SessionStore.reload_eq _ _).symm.trans hreload
  have hsame := (AddonConfiguration.load_storage hY hd hload).1.streamingUrl
  have hparse : D.yarl.parse (D.yarl.origin d.streamingUrl) = some c.streamingUrl := by
    rw [AddonConfiguration.load_storage_iff, AddonConfiguration.check_storage hd] at hload
    simp only [bind_ok, within_ok] at hload
    obtain ⟨_, -, u, hu, _, -, hc⟩ := hload
    cases hc
    obtain ⟨s, hs, -, hp, -⟩ := validatePlexUrl_ok.mp hu
    cases hs
    exact hp
  obtain ⟨l, hl, -, -⟩ := directPlayConnections_ok hY (accepted_of_load hload)
  have hfirst := hl
  simp only [AddonConfiguration.directPlayConnections, AddonConfiguration.deduplicate, List.not_mem_nil, if_false,
    hsame, hparse] at hfirst
  obtain ⟨rest, -, hrest⟩ := bind_ok.mp hfirst
  cases hrest
  exact ⟨rest, hl⟩

/-- The path of a play link is matched and understood. -/
theorem plays_link (huses : usesPlaybackProxy D.settings c = true) {sessionId rk duration partKey : Str} {n : Int}
    (hid : IsSessionId sessionId) (hrk : isAsciiDigits rk = true) (hn : 0 ≤ n) (hduration : formatInt n = .ok duration)
    (hpart : partKey ≠ []) :
    RoutesTo D.settings c ('/' :: sessionId ++ "/play".toList ++ '/' :: rk ++ '/' :: duration ++
        '/' :: rstrip '=' (urlsafeB64encode (encode partKey)))
      { ratingKey := rk, durationMs := n, partKey, identifier := sessionId } := by
  have hslash : '/' ∉ rk := not_mem_of_isAsciiDigits hrk (by decide)
  let params : PlayParams := ⟨sessionId, rk, duration, rstrip '=' (urlsafeB64encode (encode partKey))⟩
  have hsegments : ∀ p ∈ [params.sessionId, params.ratingKey, params.duration, params.partB64], p ≠ [] ∧ '/' ∉ p := by
    simp only [List.mem_cons, List.not_mem_nil, or_false, forall_eq_or_imp, forall_eq]
    exact ⟨hid.segment, ⟨(isAsciiDigits_iff.mp hrk).1, hslash⟩, formatInt_segment hduration,
      rstrip_urlsafe_ne_nil hpart, slash_not_mem_b64 _⟩
  refine ⟨params, sessionPlayRoute_link hsegments, ?_⟩
  simp only [params, getPlay, intParam_formatInt hn hduration, huses, if_true, b64decodePath_encode, ok_bind]
  rfl

/-- **The proxy opens the file that Direct Play names.** For a configuration
the session store loads, the link of a version that goes through the proxy
matches the session route; `get_play` has of it the rating key, the duration
and the part key; and the address opened is that of the version's primary
Direct Play stream. -/
theorem play_link_opens_file (hY : D.yarl.Lawful) (hc : LoadedFromStore D F maxSessions c) (hdirect : c.includeDirectPlay = true)
    {request : Request} {sessionId rest pre : Str} (hid : IsSessionId sessionId)
    (hpath : request.path = '/' :: sessionId ++ "/stream/".toList ++ rest)
    (hpre : playPrefix D c request = .ok (some pre)) {item : PlexMediaMeta} {before rk : Str}
    (hkey : item.key = some (before ++ '/' :: rk)) (hrk : isAsciiDigits rk = true) {media : Version} {i : Nat}
    (hi : (media, i) ∈ item.media.zipIdx) {part : Part} {parts : List Part} {name : Str}
    (hparts : media.part = some (part :: parts)) (hpart : part.key = some ('/' :: name))
    (hduration : 0 ≤ (orInt item.duration media.duration).getD 0) {streams : List StremioStream}
    (hstreams : item.getStremioStreams D.unicode c (some pre) = .ok streams) :
    ∃ source stream base path call, item.source D.unicode c media = .ok source ∧
      item.directPlayStreams c (some pre) media source = .ok [stream] ∧ stream ∈ streams ∧
      publicBaseUrl D.settings D.yarl request = .ok base ∧ stream.url = some (base ++ path) ∧
      RoutesTo D.settings c path call ∧
      call = { ratingKey := rk, durationMs := (orInt item.duration media.duration).getD 0, partKey := '/' :: name,
               identifier := sessionId } ∧
      ∀ directStreams, item.getStremioStreams D.unicode c none = .ok directStreams →
        ∃ primary alternates url, item.directPlayStreams c none media source = .ok (primary :: alternates) ∧
          primary ∈ directStreams ∧ call.upstream c = .ok url ∧ primary.url = some (D.yarl.str url) := by
  obtain ⟨alternates, hconn⟩ := hc.primary hY
  obtain ⟨huses, base, hbase, rfl⟩ := playPrefix_session hid hpath hpre
  have hslash : '/' ∉ rk := not_mem_of_isAsciiDigits hrk (by decide)
  obtain ⟨source, proxied, hsource, hproxied, hsub⟩ := PlexMediaMeta.directPlay_of_streams hdirect hstreams hi
  have hkeys : source.part.key = some ('/' :: name) := by rw [PlexMediaMeta.source_part hparts hsource, hpart]
  obtain ⟨stream, others, url, label, rfl, hurl, hlink, honly⟩ := PlexMediaMeta.directPlayStreams_head hconn hproxied
  have hpreNil : base ++ '/' :: sessionId ++ "/play".toList ≠ [] := by simp
  obtain ⟨ch, chs, hcons⟩ := List.exists_cons_of_ne_nil hpreNil
  obtain rfl : others = [] := honly (by rw [hcons]; rfl)
  obtain ⟨duration, hformat, rfl⟩ := PlexMediaMeta.directPlayUrl_proxied hkey hslash hpreNil hkeys hlink
  refine ⟨source, stream, base, _, _, hsource, hproxied, hsub List.mem_cons_self, hbase, ?_,
    plays_link huses hid hrk hduration hformat (List.cons_ne_nil '/' name), rfl, ?_⟩
  · rw [hurl]
    simp only [List.append_assoc, List.cons_append]
  · intro directStreams hdirectStreams
    obtain ⟨source', direct, hsource', hdirectPlay, hsub'⟩ := PlexMediaMeta.directPlay_of_streams hdirect hdirectStreams hi
    rw [hsource, Except.ok.injEq] at hsource'
    subst hsource'
    obtain ⟨primary, rest', url', label', rfl, hurl', hlink', -⟩ := PlexMediaMeta.directPlayStreams_head hconn hdirectPlay
    obtain ⟨u, hu, rfl⟩ := PlexMediaMeta.directPlayUrl_direct hkeys hlink'
    exact ⟨primary, rest', u, hdirectPlay, hsub' List.mem_cons_self, hu, hurl'⟩

end Loaded

/-! ## A film's file -/

/-- The film in one version, whose part key is not ASCII. -/
def playedVersion : Version where
  duration := some 5400000
  part := some [{ key := some "/library/parts/1/é.mkv".toList, file := some "film.mkv".toList }]

def playedFilm : PlexMediaMeta := { film with media := [playedVersion] }

/-- A request of the session `4`. -/
def sessionRequest : Request := { (callTo "a.example").request with path := "/4/stream/movie/tt1.json".toList }

/-- The film's streams, as they are made with and without the proxy. -/
abbrev playedStreams (playPrefix : Option Str) : Except Exc (List StremioStream) :=
  playedFilm.getStremioStreams plainDeployment.unicode AddonConfiguration.reporting playPrefix

theorem play_link_opens_film : ∃ path, ∃ primary ∈ (playedStreams none).toOption.getD [], ∃ url,
    RoutesTo plainDeployment.settings AddonConfiguration.reporting path
      ⟨"1".toList, 5400000, "/library/parts/1/é.mkv".toList, "4".toList⟩ ∧
    upstream AddonConfiguration.reporting.streamingUrl "/library/parts/1/é.mkv".toList "t0ken".toList = .ok url ∧
    primary.url = some (Yarl.plain.str url) := by
  have hloaded : LoadedFromStore plainDeployment .marked 1000 AddonConfiguration.reporting := by
    have hcheck : AddonConfiguration.check Yarl.plain (.obj AddonConfiguration.reporting.storageMembers) = .ok .reporting :=
      AddonConfiguration.check_storage_self { AddonConfiguration.sample_accepted with } AddonConfiguration.sample_urls
    exact ⟨_, _, hcheck, (SessionStore.reload_eq _ _).trans (AddonConfiguration.load_storage_iff.mpr hcheck)⟩
  have hid : IsSessionId "4".toList := by
    have hall : "4".toList.all (fun c => "0123456789abcdef-".toList.contains c) = true := by decide +kernel
    exact ⟨by decide, fun c hc => List.contains_iff_mem.mp (List.all_eq_true.mp hall c hc)⟩
  have hpath : sessionRequest.path = '/' :: "4".toList ++ "/stream/".toList ++ "movie/tt1.json".toList := by decide
  have hpre : playPrefix plainDeployment .reporting sessionRequest = .ok (some "https://a.example/4/play".toList) := by
    decide +kernel
  have hkey : playedFilm.key = some ("/library/metadata".toList ++ '/' :: "1".toList) := rfl
  have hversion : (playedVersion, 0) ∈ playedFilm.media.zipIdx := by decide
  have hkept : playedStreams (some "https://a.example/4/play".toList) =
      .ok ((playedStreams (some "https://a.example/4/play".toList)).toOption.getD []) := by decide +kernel
  obtain ⟨source, stream, base, path, call, -, -, -, -, -, hplays, rfl, hopens⟩ :=
    play_link_opens_file Yarl.plain_lawful hloaded rfl hid hpath hpre hkey (by decide) hversion rfl rfl (by decide) hkept
  obtain ⟨primary, _, url, -, hmem, hurl, heq⟩ := hopens ((playedStreams none).toOption.getD []) (by decide +kernel)
  exact ⟨path, primary, hmem, url, hplays, hurl, heq⟩

end Plexio
