/-
Which Plex addresses an install may use. `create_session` takes a
configuration only if each of its URLs is a connection of the account's
server, named as configured (`is_authorized_connection`); the addresses used
later are those of the configuration the store loads.

`sessions_authorized` says that these, then, are such connections too, and in
which order they are used.
-/
import Plexio.SessionMeaning
import Plexio.SessionUnique
import Plexio.StorageRounds

namespace Plexio

open Py Linearize

/-! ## The account's resources -/

/-- A connection of a resource: its `uri`, or the empty text; `none` is no text. -/
structure ResourceConnection where
  uri : Option Str

/-- A resource of a Plex account (`/api/v2/resources`). -/
structure PlexResource where
  name : Option Str
  provides : Option Str
  accessToken : Option Str
  connections : List ResourceConnection

section Authorized
variable (Y : Yarl) (resources : List PlexResource) (serverName : Str) (url : Y.Url) (serverToken : Str)

def isAuthorizedConnection : Bool :=
  let requested := Y.origin url
  resources.any fun resource =>
    if resource.name ≠ some serverName || "server".toList ∉ split ',' (resource.provides.getD []) then false
    else if Yarl.truthy resource.accessToken && resource.accessToken ≠ some serverToken then false
    else
      resource.connections.any fun connection =>
        match connection.uri.bind Y.parse with
        | none => false
        | some candidate => Y.origin candidate == requested

/-- The account has a server of this name and for this token that is reached at the URL. -/
structure AuthorizedBy (resource : PlexResource) : Prop where
  name : resource.name = some serverName
  server : "server".toList ∈ split ',' (resource.provides.getD [])
  token : Yarl.truthy resource.accessToken = false ∨ resource.accessToken = some serverToken
  connection : ∃ connection ∈ resource.connections, ∃ uri, connection.uri = some uri ∧
    ∃ candidate, Y.parse uri = some candidate ∧ Y.origin candidate = Y.origin url

def Authorized : Prop := ∃ resource ∈ resources, AuthorizedBy Y serverName url serverToken resource

variable {Y resources serverName url serverToken}

/-- **The check is the check.** -/
theorem isAuthorizedConnection_iff :
    isAuthorizedConnection Y resources serverName url serverToken = true ↔
      Authorized Y resources serverName url serverToken := by
  simp only [isAuthorizedConnection, List.any_eq_true, Authorized]
  refine exists_congr fun resource => and_congr_right fun _ => ?_
  have hconnection : (resource.connections.any fun connection =>
        match connection.uri.bind Y.parse with
        | none => false
        | some candidate => Y.origin candidate == Y.origin url) = true ↔
      ∃ connection ∈ resource.connections, ∃ uri, connection.uri = some uri ∧
        ∃ candidate, Y.parse uri = some candidate ∧ Y.origin candidate = Y.origin url := by
    rw [List.any_eq_true]
    refine exists_congr fun connection => and_congr_right fun _ => ?_
    cases connection.uri with
    | none => simp
    | some uri => cases hp : Y.parse uri <;> simp [hp]
  constructor
  · intro h
    split at h
    · cases h
    next hname =>
    split at h
    · cases h
    next htoken =>
    simp only [ne_eq, Bool.or_eq_true, decide_eq_true_eq, not_or, not_not] at hname
    simp only [ne_eq, Bool.and_eq_true, decide_eq_true_eq, not_and, not_not] at htoken
    refine ⟨hname.1, hname.2, ?_, hconnection.mp h⟩
    cases ht : Yarl.truthy resource.accessToken with
    | false => exact .inl rfl
    | true => exact .inr (htoken ht)
  · rintro ⟨hname, hserver, htoken, hconn⟩
    have htoken' : (Yarl.truthy resource.accessToken && decide (resource.accessToken ≠ some serverToken)) = false := by
      rcases htoken with ht | ht <;> simp [ht]
    simp only [hname, hserver, htoken', ne_eq, not_true_eq_false, decide_false, Bool.or_self, Bool.false_eq_true, if_false]
    exact hconnection.mpr hconn

/-- Authorization does not see trailing slashes. -/
theorem Authorized.of_origin {url' : Y.Url} (h : Authorized Y resources serverName url serverToken)
    (ho : Y.origin url' = Y.origin url) : Authorized Y resources serverName url' serverToken := by
  obtain ⟨resource, hr, ha⟩ := h
  refine ⟨resource, hr, ha.name, ha.server, ha.token, ?_⟩
  rw [ho]
  exact ha.connection

end Authorized

/-! ## The order of connections -/

section Direct
variable {Y : Yarl}

/-- A connection as it is compared. -/
def originOf (x : Y.Url × PlexConnectionKind) : Str × PlexConnectionKind := (Y.origin x.1, x.2)

/-- What is configured, each address once, where it first stands. -/
structure EachOnce (seen : List Str) (configured used : List (Str × PlexConnectionKind)) : Prop where
  order : used.Sublist configured
  once : (used.map Prod.fst).Nodup
  every : ∀ s, s ∈ used.map Prod.fst ↔ s ∈ configured.map Prod.fst ∧ s ∉ seen

theorem deduplicate_ok (hY : Y.Lawful) {xs : List (Y.Url × PlexConnectionKind)} (hxs : ∀ x ∈ xs, AcceptedUrl x.1)
    (seen : List Str) :
    ∃ l, AddonConfiguration.deduplicate seen xs = .ok l ∧ EachOnce seen (xs.map originOf) (l.map originOf) := by
  induction xs generalizing seen with
  | nil => exact ⟨[], rfl, .slnil, List.nodup_nil, by simp⟩
  | cons x xs ih =>
    obtain ⟨url, kind⟩ := x
    obtain ⟨⟨t, hp, ho⟩, hrest⟩ := List.forall_mem_cons.mp hxs
    obtain ⟨v, hv, -, heq⟩ := hY.again t url hp ho
    by_cases hseen : Y.origin url ∈ seen
    · obtain ⟨l, hl, h⟩ := ih hrest seen
      refine ⟨l, by simp only [AddonConfiguration.deduplicate, hseen, if_true, hl], h.order.cons _, h.once, fun s => ?_⟩
      rw [h.every]
      simp only [List.map_cons, originOf, List.mem_cons]
      constructor
      · exact fun hs => ⟨.inr hs.1, hs.2⟩
      · rintro ⟨rfl | hs, hns⟩
        · exact absurd hseen hns
        · exact ⟨hs, hns⟩
    · obtain ⟨l, hl, h⟩ := ih hrest (Y.origin url :: seen)
      have hfirst : originOf (v, kind) = originOf (url, kind) := by simp only [originOf, heq]
      refine ⟨(v, kind) :: l, ?_, ?_, ?_, fun s => ?_⟩
      · simp only [AddonConfiguration.deduplicate, hseen, if_false, hv, hl]
        rfl
      · rw [List.map_cons, List.map_cons, hfirst]
        exact h.order.cons_cons _
      · rw [List.map_cons, List.map_cons, List.nodup_cons, hfirst]
        exact ⟨fun hmem => ((h.every _).mp hmem).2 List.mem_cons_self, h.once⟩
      · simp only [List.map_cons, List.mem_cons, hfirst, h.every, not_or]
        constructor
        · rintro (rfl | hs)
          · exact ⟨.inl rfl, hseen⟩
          · exact ⟨.inr hs.1, hs.2.2⟩
        · rintro ⟨rfl | hs, hns⟩
          · exact .inl rfl
          · by_cases hse : s = Y.origin url
            · exact .inl hse
            · exact .inr ⟨hs, hse, hns⟩

/-- The connections in the order they are to be tried. -/
def AddonConfiguration.toTry (c : AddonConfiguration Y) : List (Y.Url × PlexConnectionKind) :=
  (c.streamingUrl, c.streamingConnectionKind) ::
    if c.includeConnectionFallbacks then c.streamingConnections.map fun x => (x.url, x.kind) else []

/-- **The primary connection first, then every fallback once.** -/
theorem directPlayConnections_ok (hY : Y.Lawful) {c : AddonConfiguration Y} (hc : c.Accepted) :
    ∃ l, c.directPlayConnections = .ok l ∧ EachOnce [] (c.toTry.map originOf) (l.map originOf) ∧
      (l.map originOf).head? = some (Y.origin c.streamingUrl, c.streamingConnectionKind) := by
  have hurls : ∀ x ∈ c.toTry, AcceptedUrl x.1 := by
    refine List.forall_mem_cons.mpr ⟨hc.urls _ (by simp [AddonConfiguration.configuredUrls]), fun x hx => ?_⟩
    split at hx
    · obtain ⟨y, hy, rfl⟩ := List.mem_map.mp hx
      exact hc.connection hy
    · cases hx
  obtain ⟨l, hl, h⟩ := deduplicate_ok hY hurls []
  refine ⟨l, hl, h, ?_⟩
  simp only [AddonConfiguration.toTry, AddonConfiguration.deduplicate, List.not_mem_nil, if_false] at hl
  obtain ⟨t, hp, ho⟩ := hc.urls c.streamingUrl (by simp [AddonConfiguration.configuredUrls])
  obtain ⟨v, hv, -, heq⟩ := hY.again t _ hp ho
  rw [hv] at hl
  obtain ⟨us, -, hus⟩ := Json.bind_ok.mp hl
  cases hus
  simp only [List.map_cons, originOf, heq, List.head?_cons]

end Direct

/-! ## Creating a session -/

section Create
variable {Y : Yarl}

/-- What `create_session` checks before it stores. -/
def authorizeSession (resources : List PlexResource) (c : AddonConfiguration Y) : Except Exc Unit :=
  if c.configuredUrls.all fun url => isAuthorizedConnection Y resources c.serverName url c.accessToken then .ok ()
  else .error (.http 403 "Configuration contains an unauthorized Plex connection".toList)

/-- `create_session`, given the account's resources. -/
def createSession (P : SessionStore Json.Value (AddonConfiguration Y)) (first last : P.Choice)
    (resources : List PlexResource) (c : AddonConfiguration Y) (label : Option Str) (rows : List Row) :
    Except Exc Str × List Row :=
  match authorizeSession resources c with
  | .error e => (.error e, rows)
  | .ok () =>
    match P.create first last c.toStorageDict label rows with
    | (.error .sessionCapacity, rows') =>
      (.error (.http 429 "Session capacity reached; revoke an unused session and retry".toList), rows')
    | r => r

variable {resources : List PlexResource} {c d : AddonConfiguration Y}

theorem authorizeSession_ok : authorizeSession resources c = .ok () ↔
    ∀ u ∈ c.configuredUrls, Authorized Y resources c.serverName u c.accessToken := by
  simp only [authorizeSession]
  split
  · next h => simpa [isAuthorizedConnection_iff] using h
  · next h => simpa [isAuthorizedConnection_iff] using h

/-- The addresses of a reloaded configuration are those that were checked. -/
theorem SameUpToSlashes.authorized (h : SameUpToSlashes c d)
    (hc : ∀ u ∈ c.configuredUrls, Authorized Y resources c.serverName u c.accessToken) :
    ∀ u ∈ d.configuredUrls, Authorized Y resources c.serverName u c.accessToken := by
  intro u hu
  have hmem : Y.origin u ∈ c.configuredUrls.map Y.origin := h.origins ▸ List.mem_map_of_mem hu
  obtain ⟨v, hv, hvu⟩ := List.mem_map.mp hmem
  exact (hc v hv).of_origin hvu.symm

/-- **No address outside the account is used.** Whatever else is called, in
any interleaving, before, between or after: what `get_config` loads of a
session that `create_session` made has only addresses that are connections of
the account's server, and they are tried with the primary one first and each
fallback once. With any other address `create_session` answers 403 and leaves
the table alone. -/
theorem sessions_authorized (ι : Type) [DecidableEq ι] (T : Json.Text Json.Value) (S : Sha256) (F : Fernet) (maxSessions : Nat)
    (hY : Y.Lawful) {j : Json} (hcheck : AddonConfiguration.check Y j = .ok c) (resources : List PlexResource)
    (label : Option Str) :
    (∀ (rows : List Row) (ops : ι → Op Json.Value) (evs : List (Event ι (addonStore Y T S F maxSessions).Choice))
      (i k : ι) (id : Str) (d : AddonConfiguration Y),
      (addonStore Y T S F maxSessions).RowsInv rows →
      AllAllowed ((addonStore Y T S F maxSessions).Fresh ops (rows.map (·.sessionId))) evs →
      authorizeSession resources c = .ok () → ops i = .create c.toStorageDict label → ops k = .getConfig id →
      (((addonStore Y T S F maxSessions).begin rows).run (addonStore Y T S F maxSessions).machine ops evs).phase i =
        .done (.created (.ok id)) →
      (((addonStore Y T S F maxSessions).begin rows).run (addonStore Y T S F maxSessions).machine ops evs).phase k =
        .done (.config (.ok (some d))) →
      SameUpToSlashes c d ∧ (∀ u ∈ d.configuredUrls, Authorized Y resources c.serverName u c.accessToken) ∧
      ∃ l, d.directPlayConnections = .ok l ∧ EachOnce [] (d.toTry.map originOf) (l.map originOf) ∧
        (l.map originOf).head? = some (Y.origin d.streamingUrl, d.streamingConnectionKind)) ∧
    ((∃ u ∈ c.configuredUrls, ¬ Authorized Y resources c.serverName u c.accessToken) →
      ∀ (first last : (addonStore Y T S F maxSessions).Choice) (rows : List Row),
        createSession (addonStore Y T S F maxSessions) first last resources c label rows =
          (.error (.http 403 "Configuration contains an unauthorized Plex connection".toList), rows)) := by
  constructor
  · intro rows ops evs i k id d hrows hf hauth hi hk hcreated hloaded
    have hload : AddonConfiguration.load Y c.toStorageDict = .ok d :=
      SessionStore.loaded_of_created hrows hf hi hk hcreated hloaded
    have hsame := (AddonConfiguration.load_storage hY (AddonConfiguration.accepted_of_check hcheck) hload).1
    exact ⟨hsame, hsame.authorized (authorizeSession_ok.mp hauth), directPlayConnections_ok hY (accepted_of_load hload)⟩
  · rintro ⟨u, hu, hnot⟩ first last rows
    have hforbidden : authorizeSession resources c =
        .error (.http 403 "Configuration contains an unauthorized Plex connection".toList) := by
      rw [authorizeSession, if_neg]
      exact fun hall => hnot (isAuthorizedConnection_iff.mp (List.all_eq_true.mp hall u hu))
    rw [createSession, hforbidden]

/-! ## An account -/

/-- A server that has the sample's connections, and another one that has none. -/
def sampleResources : List PlexResource :=
  [⟨some "Other".toList, some "server".toList, none, []⟩,
    ⟨some "Home".toList, some "client,server".toList, some "t0ken".toList,
      [⟨some "http://10.0.0.2:32400".toList⟩, ⟨none⟩, ⟨some "http://plex.example:32400/".toList⟩]⟩]

/-- The sample is created, then loaded. -/
def createdThenLoaded : Bool → Op Json.Value
  | true => .create AddonConfiguration.sample.toStorageDict none
  | false => .getConfig "4".toList

open SessionStore in
theorem run_createdThenLoaded :
    ((plainStore.begin []).run plainStore.machine createdThenLoaded oneByOne).phase true = .done (.created (.ok "4".toList)) ∧
    ((plainStore.begin []).run plainStore.machine createdThenLoaded oneByOne).phase false =
      .done (.config (.ok (some AddonConfiguration.sample))) := by
  have hload : plainStore.reload AddonConfiguration.sample.toStorageDict = .ok AddonConfiguration.sample :=
    (reload_eq _ _).trans (AddonConfiguration.load_storage_iff.mpr AddonConfiguration.check_sample)
  have hget : (plainStore.call (draw "5") (draw "8") (createdThenLoaded false)
      (plainStore.call (draw "1") (draw "4") (createdThenLoaded true) []).2).1 =
      .config (.ok (some AddonConfiguration.sample)) := by
    refine congrArg Outcome.config ((plainStore.getConfig_newRow (draw "1") (draw "4") (draw "5") _ none ?_).trans ?_)
    · simp
    · rw [hload]; rfl
  have hfirst : (plainStore.begin []).run plainStore.machine createdThenLoaded
      (.invoke true :: [draw "1", draw "2", draw "3", draw "4"].map (Event.act true)) = _ := run_call rfl rfl _ _ _ _
  rw [oneByOne, System.run_append, hfirst, run_call rfl (by simp [begin, System.start])]
  constructor
  · simp only [ne_eq, Bool.true_eq_false, not_false_eq_true, Function.update_of_ne, Function.update_self]
    rfl
  · simp only [Function.update_self, hget]

/-- Both addresses of the sample are the account's, and tried in their order. -/
theorem sessions_authorized_sample :
    (∀ u ∈ AddonConfiguration.sample.configuredUrls,
      Authorized Yarl.plain sampleResources AddonConfiguration.sample.serverName u AddonConfiguration.sample.accessToken) ∧
    createSession plainStore (SessionStore.draw "1") (SessionStore.draw "2") [] AddonConfiguration.sample none [] =
      (.error (.http 403 "Configuration contains an unauthorized Plex connection".toList), []) := by
  have hrows : plainStore.RowsInv [] := ⟨List.nodup_nil, by simp⟩
  have hfresh : AllAllowed (plainStore.Fresh createdThenLoaded (([] : List Row).map (·.sessionId))) SessionStore.oneByOne := by
    have hfrom : plainStore.FreshFrom createdThenLoaded (plainStore.seen createdThenLoaded [] []) SessionStore.oneByOne := by
      simp only [SessionStore.oneByOne, List.map_cons, List.map_nil, List.cons_append, List.nil_append,
        SessionStore.FreshFrom, SessionStore.seen, createdThenLoaded, SessionStore.opIds, List.flatMap_nil, List.append_nil]
      decide +kernel
    exact fun pre e post heq => by
      have := hfrom.allowed pre e post heq
      rwa [List.nil_append] at this
  refine ⟨?_, ?_⟩
  · exact ((sessions_authorized Bool Json.Text.python Sha256.plain .marked 1000 Yarl.plain_lawful
      AddonConfiguration.check_sample sampleResources none).1 [] createdThenLoaded SessionStore.oneByOne true false "4".toList _
      hrows hfresh (by decide +kernel) rfl rfl run_createdThenLoaded.1 run_createdThenLoaded.2).2.1
  · refine (sessions_authorized Bool Json.Text.python Sha256.plain .marked 1000 Yarl.plain_lawful
      AddonConfiguration.check_sample [] none).2 ⟨AddonConfiguration.sample.discoveryUrl, ?_, ?_⟩ _ _ _
    · simp [AddonConfiguration.configuredUrls]
    · rintro ⟨r, hr, -⟩
      cases hr

end Create

end Plexio
