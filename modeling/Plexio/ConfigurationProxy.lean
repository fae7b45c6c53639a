/-
What the configuration page asks Plex through the backend (`plex/plex_tv.py`,
`routers/plex_proxy.py`, `routers/configuration.py`): the account's resources
and PINs of plex.tv, and of a server, whether it is reached, its sections and
its collections.

The page names the address of the server. `tokens_guarded` says where tokens
go: the account's to plex.tv only, and the server's to an address only after
plex.tv has answered, for this account, that the address is a connection of
the server; no redirect is followed with either.
-/
import Plexio.Connections
import Plexio.Lib.Guarded
import Plexio.PlexRequests

namespace Plexio

open Py Json CacheProg

/-! ## The network -/

inductive Method
  | get
  | post

structure NetRequest where
  method : Method
  url : Str
  headers : List (Str × Str)
  params : List (Str × Str)
  /-- `allow_redirects` -/
  redirects : Bool

/-- A JSON body, by what the code tells apart: a list, of resources, an object, or another value. -/
inductive Payload
  | resources (resources : List PlexResource)
  | dict (members : List (Str × Json))
  | other

/-- Why a body is not read: its text is no JSON, or the connection fails. -/
inductive ReadFailure
  | decode
  | timeout
  | client

inductive NetAnswer
  /-- `isJson` tells whether the content type is JSON's. -/
  | response (status : Nat) (isJson : Bool) (body : Except ReadFailure Payload)
  | timeout
  /-- `ClientConnectorError` -/
  | connector
  /-- Another `aiohttp.ClientError`. -/
  | client

inductive NetExc
  | exc (e : Exc)
  | client

abbrev netSig : Sig where
  Key := Empty
  Val := Empty
  Ask := NetRequest
  Answer _ := NetAnswer
  Err := NetExc

def httpError {α : Type} (status : Nat) (detail : Str) : Prog netSig α := .throw (.exc (.http status detail))

/-- What the code raises elsewhere. -/
def liftExc {α : Type} (x : Except Exc α) : Prog netSig α := Prog.lift (x.mapError .exc)

def tokenName : Str := "X-Plex-Token".toList
def clientName : Str := "X-Plex-Client-Identifier".toList

/-! ## plex.tv -/

def plexApiUrl : Str := "https://plex.tv/api/v2".toList

def plexHeaders : List (Str × Str) :=
  [("Accept".toList, "application/json".toList), ("X-Plex-Product".toList, "Plexio".toList),
    ("X-Plex-Version".toList, "1.0.0".toList)]

/-- The error of a body's text is not caught. -/
def plexRequest (method : Method) (path : Str) (headers params : List (Str × Str)) : Prog netSig Payload :=
  let unreachable : Prog netSig Payload := httpError 502 "Unable to reach the Plex API".toList
  .ask ⟨method, plexApiUrl ++ path, plexHeaders ++ headers, params, false⟩ fun
    | .response status isJson body =>
      if 400 ≤ status then httpError 502 ("Plex API returned HTTP ".toList ++ strInt status)
      else if !isJson then unreachable
      else
        match body with
        | .ok payload => .ret payload
        | .error .decode => .throw (.exc (.value "Expecting value".toList))
        | .error .timeout | .error .client => unreachable
    | .timeout | .connector | .client => unreachable

def resourcesHeaders (token clientIdentifier : Str) : List (Str × Str) :=
  [(clientName, clientIdentifier), (tokenName, token)]

def resourcesParams (includeHttps includeRelay : Nat) : List (Str × Str) :=
  [("includeHttps".toList, strInt includeHttps), ("includeRelay".toList, strInt includeRelay)]

def fetchPlexResources (token clientIdentifier : Str) : Prog netSig (List PlexResource) := do
  let payload ← plexRequest .get "/resources".toList (resourcesHeaders token clientIdentifier) (resourcesParams 1 1)
  match payload with
  | .resources resources => pure resources
  | .dict _ | .other => pure []

/-! ## The server -/

section Server
variable {Y : Yarl}

/-- What is asked about a server: its address and name, and the tokens. -/
structure ConnectionQuery where
  url : Str
  serverName : Str
  token : Str
  accountToken : Str
  clientIdentifier : Str

/-- A parameter of some length; otherwise the answer is 422. -/
def sized (least most : Nat) (s : Str) : Except Exc Unit :=
  if least ≤ s.length ∧ s.length ≤ most then .ok () else .error (.http 422 "Unprocessable Entity".toList)

def ConnectionQuery.check (q : ConnectionQuery) : Except Exc Unit := do
  sized 8 2048 q.url
  sized 1 255 q.serverName
  sized 1 4096 q.token
  sized 1 4096 q.accountToken
  sized 1 255 q.clientIdentifier

/-- `str(exc)` of a refused URL. -/
def refusal (e : Json.Error) : Str :=
  match e.fault with
  | .value message => message
  | _ => []

def authorizedServerUrl (q : ConnectionQuery) : Prog netSig Y.Url :=
  match validatePlexUrl Y (.str q.url) with
  | .error e => httpError 422 (refusal e)
  | .ok candidate => do
    let resources ← fetchPlexResources q.accountToken q.clientIdentifier
    if isAuthorizedConnection Y resources q.serverName candidate q.token then pure candidate
    else httpError 403 "URL is not an authorized connection for this Plex server".toList

def getServerJson (url : Y.Url) (serverToken : Str) : Prog netSig (List (Str × Json)) :=
  let invalid : Prog netSig (List (Str × Json)) := httpError 502 "Plex server returned an invalid response".toList
  let timedOut : Prog netSig (List (Str × Json)) := httpError 504 "Plex server request timed out".toList
  let unreachable : Prog netSig (List (Str × Json)) := httpError 502 "Unable to reach the selected Plex connection".toList
  .ask ⟨.get, Y.str url, [(tokenName, serverToken)], [], false⟩ fun
    | .response status _ body =>
      if status = 401 ∨ status = 403 then httpError 502 "Plex rejected the selected connection credentials".toList
      else if 400 ≤ status then httpError 502 ("Plex server returned HTTP ".toList ++ strInt status)
      else
        match body with
        | .ok (.dict members) => .ret members
        | .ok (.resources _) | .ok .other | .error .decode => invalid
        | .error .timeout => timedOut
        | .error .client => unreachable
    | .timeout => timedOut
    | .connector | .client => unreachable

def checkServerConnection (url : Y.Url) (token : Str) : Prog netSig Bool :=
  .ask ⟨.get, Y.str url, [], tokenParam token, false⟩ fun
    | .response status _ _ => .ret (status = 200)
    | .timeout | .connector => .ret false
    | .client => .throw .client

end Server

/-! ## What is made of the server's answers -/

/-- Truthiness. -/
def truthyJson : Json → Bool
  | .null => false
  | .bool b => b
  | .num n => n ≠ 0
  | .str s => !s.isEmpty
  | .arr items => !items.isEmpty
  | .obj members => !members.isEmpty

/-- `str(value)`; `repr` is that of a list or a dictionary. -/
def strJson (repr : Json → Str) : Json → Str
  | .null => "None".toList
  | .bool b => if b then "True".toList else "False".toList
  | .num n => strInt n
  | .str s => s
  | j => repr j

/-- `container.get(name, []) if isinstance(container, dict) else []`, to be iterated over. -/
def itemsOf (name : String) (payload : List (Str × Json)) : Except Exc (List Json) :=
  match payload.lookup "MediaContainer".toList with
  | some (.obj container) =>
    match container.lookup name.toList with
    | none => pure []
    | some (.arr items) => pure items
    | some (.obj members) => pure (members.map fun m => .str m.1)
    | some (.str s) => pure (s.map fun c => .str [c])
    | some .null | some (.bool _) | some (.num _) => .error .type
  | _ => pure []

/-- A member of an item, if it is one and not empty. -/
def memberOf (name : String) (members : List (Str × Json)) : Option Json := (members.lookup name.toList).filter truthyJson

structure ServerSection where
  key : Str
  title : Str
  type : Str
  deriving DecidableEq

structure ServerCollection where
  ratingKey : Str
  title : Str
  deriving DecidableEq

/-- `item.get('type') in {'movie', 'show'}`; a list or a dictionary has no hash. -/
def titleType : Option Json → Except Exc (Option Str)
  | some (.arr _) | some (.obj _) => .error .type
  | some (.str s) => pure (if s = "movie".toList ∨ s = "show".toList then some s else none)
  | _ => pure none

def sectionOf (repr : Json → Str) : Json → Except Exc (Option ServerSection)
  | .obj members =>
    match memberOf "key" members, memberOf "title" members with
    | some key, some title => do
      let type ← titleType (members.lookup "type".toList)
      pure (type.map fun type => { key := strJson repr key, title := strJson repr title, type })
    | _, _ => pure none
  | _ => pure none

def collectionOf (repr : Json → Str) : Json → Option ServerCollection
  | .obj members =>
    match memberOf "ratingKey" members, memberOf "title" members with
    | some ratingKey, some title => some { ratingKey := strJson repr ratingKey, title := strJson repr title }
    | _, _ => none
  | _ => none

/-! ## The routes -/

inductive ConfigRequest (Y : Yarl)
  | testConnection (q : ConnectionQuery)
  | plexSections (q : ConnectionQuery)
  | plexCollections (q : ConnectionQuery) (sectionKey : Str)
  /-- `create_session`, up to what it stores. -/
  | authorize (config : AddonConfiguration Y) (accountToken clientIdentifier : Str)
  /-- The origin is what `_request_origin` makes of the request's headers. -/
  | plexPin (clientIdentifier : Str) (origin : Except Exc Str)
  | plexToken (clientIdentifier : Str) (pinId : Nat) (code : Str)
  | plexResources (clientIdentifier token : Str) (includeHttps includeRelay : Nat)
  /-- The configuration is what `get_addon_configuration` loads of the session. -/
  | healthBackend (config : AddonConfiguration Y)

inductive ConfigReply
  | success (success : Bool)
  | sections (sections : List ServerSection)
  | collections (collections : List ServerCollection)
  | authorized
  | payload (payload : Payload)
  | backendReachable (reachable : Bool)

def isSectionKeyChar (c : Char) : Bool := c.isAlphanum || "._-".toList.contains c

section Routes
variable {Y : Yarl} (repr : Json → Str)

def testConnection (q : ConnectionQuery) : Prog netSig ConfigReply := do
  liftExc q.check
  let candidate ← authorizedServerUrl (Y := Y) q
  let success ← checkServerConnection candidate q.token
  pure (.success success)

def getPlexSections (q : ConnectionQuery) : Prog netSig ConfigReply := do
  liftExc q.check
  let candidate ← authorizedServerUrl (Y := Y) q
  let url ← liftExc (divide candidate "library/sections".toList)
  let payload ← getServerJson url q.token
  let items ← liftExc (itemsOf "Directory" payload)
  let sections ← liftExc (items.mapM (sectionOf repr))
  pure (.sections (sections.filterMap id))

def getPlexCollections (q : ConnectionQuery) (sectionKey : Str) : Prog netSig ConfigReply := do
  liftExc q.check
  liftExc (sized 1 128 sectionKey)
  if !sectionKey.all isSectionKeyChar then httpError 422 "Unprocessable Entity".toList
  else do
    let candidate ← authorizedServerUrl (Y := Y) q
    let sections ← liftExc (divide candidate "library/sections".toList)
    let librarySection ← liftExc (divide sections sectionKey)
    let url ← liftExc (divide librarySection "collections".toList)
    let payload ← getServerJson url q.token
    let items ← liftExc (itemsOf "Metadata" payload)
    pure (.collections (items.filterMap (collectionOf repr)))

def authorizeConfig (config : AddonConfiguration Y) (accountToken clientIdentifier : Str) : Prog netSig ConfigReply := do
  liftExc (sized 1 4096 accountToken)
  liftExc (sized 1 255 clientIdentifier)
  let resources ← fetchPlexResources accountToken clientIdentifier
  liftExc (authorizeSession resources config)
  pure .authorized

def createPlexPin (clientIdentifier : Str) (origin : Except Exc Str) : Prog netSig ConfigReply := do
  liftExc (sized 1 255 clientIdentifier)
  let origin ← liftExc origin
  let payload ← plexRequest .post "/pins".toList [(clientName, clientIdentifier), ("Origin".toList, origin)]
    [("strong".toList, "true".toList)]
  pure (.payload payload)

def getPlexToken (clientIdentifier : Str) (pinId : Nat) (code : Str) : Prog netSig ConfigReply := do
  liftExc (sized 1 255 clientIdentifier)
  liftExc (sized 1 255 code)
  if pinId = 0 then httpError 422 "Unprocessable Entity".toList
  else do
    let payload ← plexRequest .get ("/pins/".toList ++ strInt pinId) [(clientName, clientIdentifier)] [("code".toList, code)]
    pure (.payload payload)

def getPlexResources (clientIdentifier token : Str) (includeHttps includeRelay : Nat) : Prog netSig ConfigReply := do
  liftExc (sized 1 255 clientIdentifier)
  liftExc (sized 1 4096 token)
  if 1 < includeHttps ∨ 1 < includeRelay then httpError 422 "Unprocessable Entity".toList
  else if includeHttps = 1 ∧ includeRelay = 1 then do
    let resources ← fetchPlexResources token clientIdentifier
    pure (.payload (.resources resources))
  else do
    let payload ← plexRequest .get "/resources".toList (resourcesHeaders token clientIdentifier)
      (resourcesParams includeHttps includeRelay)
    pure (.payload payload)

def healthBackend (config : AddonConfiguration Y) : Prog netSig ConfigReply := do
  let reachable ← checkServerConnection config.discoveryUrl config.accessToken
  pure (.backendReachable reachable)

def answerConfig : ConfigRequest Y → Prog netSig ConfigReply
  | .testConnection q => testConnection (Y := Y) q
  | .plexSections q => getPlexSections (Y := Y) repr q
  | .plexCollections q sectionKey => getPlexCollections (Y := Y) repr q sectionKey
  | .authorize config accountToken clientIdentifier => authorizeConfig config accountToken clientIdentifier
  | .plexPin clientIdentifier origin => createPlexPin clientIdentifier origin
  | .plexToken clientIdentifier pinId code => getPlexToken clientIdentifier pinId code
  | .plexResources clientIdentifier token includeHttps includeRelay =>
    getPlexResources clientIdentifier token includeHttps includeRelay
  | .healthBackend config => healthBackend config

end Routes

/-! ## Where tokens go -/

section Tokens
variable {Y : Yarl}

def NetRequest.TokensAre (q : NetRequest) (token : Str) : Prop := Plexio.TokensAre token (q.headers ++ q.params)

/-- Plex.tv has said that these are the account's resources. -/
def Told (past : List (Exchange netSig)) (accountToken clientIdentifier : Str) (resources : List PlexResource) : Prop :=
  ∃ status < 400, (⟨⟨.get, plexApiUrl ++ "/resources".toList, plexHeaders ++ resourcesHeaders accountToken clientIdentifier,
    resourcesParams 1 1, false⟩, .response status true (.ok (.resources resources))⟩ : Exchange netSig) ∈ past

/-- The address is valid, and plex.tv has named it as a connection of the server. -/
structure Granted (Y : Yarl) (past : List (Exchange netSig)) (query : ConnectionQuery) (candidate : Y.Url) : Prop where
  valid : validatePlexUrl Y (.str query.url) = .ok candidate
  named : ∃ resources, Told past query.accountToken query.clientIdentifier resources ∧
    Authorized Y resources query.serverName candidate query.token

/-- What a route may ask of a server: below the address, with the server's token. -/
structure ToServer (Y : Yarl) (url : Y.Url) (token : Str) (q : NetRequest) : Prop where
  below : ∃ u, Below Y url u ∧ q.url = Y.str u
  tokens : q.TokensAre token

/-- If there is a token, it is this one. -/
def TokenIsOf (token : Option Str) (params : List (Str × Str)) : Prop := ∀ p ∈ params, p.1 = tokenName → token = some p.2

theorem TokenIsOf.append {token : Option Str} {ps qs : List (Str × Str)} (hp : TokenIsOf token ps) (hq : TokenIsOf token qs) :
    TokenIsOf token (ps ++ qs) := List.forall_mem_append.mpr ⟨hp, hq⟩

theorem TokenIsOf.cons {token : Option Str} {name value : Str} {params : List (Str × Str)} (hname : name ≠ tokenName)
    (h : TokenIsOf token params) : TokenIsOf token ((name, value) :: params) :=
  List.forall_mem_cons.mpr ⟨fun heq => absurd heq hname, h⟩

theorem TokenIsOf.nil {token : Option Str} : TokenIsOf token [] := fun _ h => by cases h

theorem tokenIsOf_resources (token clientIdentifier : Str) (includeHttps includeRelay : Nat) :
    TokenIsOf (some token) (resourcesHeaders token clientIdentifier ++ resourcesParams includeHttps includeRelay) := by
  refine .append (.cons (by decide) ?_) (.cons (by decide) (.cons (by decide) .nil))
  exact List.forall_mem_singleton.mpr fun _ => rfl

/-- What a route may ask plex.tv: with the account's token, or with none. -/
structure ToPlexTv (token : Option Str) (q : NetRequest) : Prop where
  below : plexApiUrl ++ "/".toList <+: q.url
  tokens : TokenIsOf token (q.headers ++ q.params)

def ConfigRequest.query : ConfigRequest Y → Option ConnectionQuery
  | .testConnection q | .plexSections q | .plexCollections q _ => some q
  | _ => none

def ConfigRequest.accountToken : ConfigRequest Y → Option Str
  | .testConnection q | .plexSections q | .plexCollections q _ => some q.accountToken
  | .authorize _ token _ | .plexResources _ token _ _ => some token
  | _ => none

/-- After these exchanges, the request may be sent. -/
def Sendable (r : ConfigRequest Y) (past : List (Exchange netSig)) (q : NetRequest) : Prop :=
  q.redirects = false ∧
    (ToPlexTv r.accountToken q ∨
      (∃ query candidate, r.query = some query ∧ Granted Y past query candidate ∧ ToServer Y candidate query.token q) ∨
      ∃ config, r = .healthBackend config ∧ ToServer Y config.discoveryUrl config.accessToken q)

variable {r : ConfigRequest Y} {past : List (Exchange netSig)}

theorem liftExc_guarded {Q : List (Exchange netSig) → NetRequest → Prop} {α β : Type} {P : List (Exchange netSig) → β → Prop}
    {x : Except Exc α} {f : α → Prog netSig β} (h : ∀ a, x = .ok a → (f a).Guarded Q P past) :
    (liftExc x >>= f).Guarded Q P past := by
  cases x with
  | ok a => exact h a rfl
  | error e => trivial

/-- What plex.tv is asked is asked there, and what is returned is its answer. -/
theorem plexRequest_guarded {P : List (Exchange netSig) → Payload → Prop} {method : Method} {path : Str}
    {headers params : List (Str × Str)} (hpath : path.head? = some '/')
    (htokens : TokenIsOf r.accountToken (headers ++ params))
    (hP : ∀ status < 400, ∀ payload, P (past ++ [⟨⟨method, plexApiUrl ++ path, plexHeaders ++ headers, params, false⟩,
      .response status true (.ok payload)⟩]) payload) :
    (plexRequest method path headers params).Guarded (Sendable r) P past := by
  obtain ⟨rest, rfl⟩ := List.head?_eq_some_iff.mp hpath
  refine ⟨⟨rfl, .inl ⟨(List.prefix_append_right_inj _).mpr ⟨rest, rfl⟩, ?_⟩⟩, fun answer => ?_⟩
  · have hfixed : TokenIsOf r.accountToken plexHeaders := .cons (by decide) (.cons (by decide) (.cons (by decide) .nil))
    simpa only [List.append_assoc] using hfixed.append htokens
  · cases answer with
    | response status isJson body =>
      dsimp only
      split
      · trivial
      next hstatus =>
      cases isJson with
      | false => trivial
      | true =>
        cases body with
        | ok payload => exact hP status (by omega) payload
        | error e => cases e <;> trivial
    | timeout | connector | client => trivial

/-- The account's resources are what plex.tv says they are, or none. -/
theorem fetchPlexResources_guarded {token clientIdentifier : Str} (htoken : r.accountToken = some token) :
    (fetchPlexResources token clientIdentifier).Guarded (Sendable r)
      (fun past resources => Told past token clientIdentifier resources ∨ resources = []) past := by
  refine Prog.Guarded.bind (P := fun past payload => ∀ resources, payload = .resources resources →
    Told past token clientIdentifier resources) ?_ fun past' payload hpayload => ?_
  · refine plexRequest_guarded rfl (htoken ▸ tokenIsOf_resources token clientIdentifier 1 1) ?_
    · intro status hstatus payload resources heq
      cases heq
      exact ⟨status, hstatus, by simp⟩
  · cases payload with
    | resources resources => exact .inl (hpayload resources rfl)
    | dict | other => exact .inr rfl

theorem authorizedServerUrl_guarded {query : ConnectionQuery} (htoken : r.accountToken = some query.accountToken) :
    (authorizedServerUrl (Y := Y) query).Guarded (Sendable r) (fun past candidate => Granted Y past query candidate) past := by
  unfold authorizedServerUrl
  split
  · trivial
  next candidate hvalid =>
  refine (fetchPlexResources_guarded htoken).bind fun past' resources htold => ?_
  split
  next hauthorized =>
    have hnamed := isAuthorizedConnection_iff.mp hauthorized
    rcases htold with htold | rfl
    · exact ⟨hvalid, resources, htold, hnamed⟩
    · obtain ⟨resource, hmem, -⟩ := hnamed
      cases hmem
  · trivial

/-- What a route asks of a server, by its URL. -/
theorem getServerJson_guarded {url u : Y.Url} {token : Str} (hu : Below Y url u)
    (h : ∀ q, q.redirects = false → ToServer Y url token q → Sendable r past q) :
    (getServerJson u token).Guarded (Sendable r) (fun _ _ => True) past := by
  refine ⟨h _ rfl ⟨⟨u, hu, rfl⟩, tokensAre_tokenParam token⟩, fun answer => ?_⟩
  cases answer with
  | response status isJson body =>
    dsimp only
    split
    · trivial
    split
    · trivial
    cases body with
    | ok payload => cases payload <;> trivial
    | error e => cases e <;> trivial
  | timeout | connector | client => trivial

theorem checkServerConnection_guarded {url : Y.Url} {token : Str}
    (h : ∀ q, q.redirects = false → ToServer Y url token q → Sendable r past q) :
    (checkServerConnection url token).Guarded (Sendable r) (fun _ _ => True) past := by
  refine ⟨h _ rfl ⟨⟨url, .self, rfl⟩, tokensAre_tokenParam token⟩, fun answer => ?_⟩
  cases answer <;> trivial

/-- Leave to ask the server of the query. -/
theorem Granted.sendable {query : ConnectionQuery} {candidate : Y.Url} (hr : r.query = some query)
    (h : Granted Y past query candidate) (q : NetRequest) (hq : q.redirects = false)
    (hto : ToServer Y candidate query.token q) : Sendable r past q :=
  ⟨hq, .inr (.inl ⟨query, candidate, hr, h, hto⟩)⟩

theorem answerConfig_guarded (repr : Json → Str) (r : ConfigRequest Y) :
    (answerConfig repr r).Guarded (Sendable r) (fun _ _ => True) [] := by
  cases r with
  | testConnection q =>
    refine liftExc_guarded fun _ _ => (authorizedServerUrl_guarded rfl).bind fun past candidate hgranted => ?_
    exact (checkServerConnection_guarded (hgranted.sendable rfl)).bind fun _ _ _ => trivial
  | plexSections q =>
    refine liftExc_guarded fun _ _ => (authorizedServerUrl_guarded rfl).bind fun past candidate hgranted => ?_
    refine liftExc_guarded fun url hurl => ?_
    refine (getServerJson_guarded (.divide .self hurl) (hgranted.sendable rfl)).bind fun _ payload _ => ?_
    exact liftExc_guarded fun _ _ => liftExc_guarded fun _ _ => trivial
  | plexCollections q sectionKey =>
    refine liftExc_guarded fun _ _ => liftExc_guarded fun _ _ => ?_
    split
    · trivial
    refine (authorizedServerUrl_guarded rfl).bind fun past candidate hgranted => ?_
    refine liftExc_guarded fun sections hsections => liftExc_guarded fun librarySection hsection => liftExc_guarded fun url hurl => ?_
    have hbelow : Below Y candidate url := .divide (.divide (.divide .self hsections) hsection) hurl
    refine (getServerJson_guarded hbelow (hgranted.sendable rfl)).bind fun _ payload _ => ?_
    exact liftExc_guarded fun _ _ => trivial
  | authorize config accountToken clientIdentifier =>
    refine liftExc_guarded fun _ _ => liftExc_guarded fun _ _ => ?_
    refine (fetchPlexResources_guarded rfl).bind fun _ resources _ => ?_
    exact liftExc_guarded fun _ _ => trivial
  | plexPin clientIdentifier origin =>
    refine liftExc_guarded fun _ _ => liftExc_guarded fun origin _ => ?_
    refine (plexRequest_guarded (P := fun _ _ => True) rfl ?_ fun _ _ _ => trivial).bind fun _ _ _ => trivial
    exact .cons (by decide) (.cons (by decide) (.cons (by decide) .nil))
  | plexToken clientIdentifier pinId code =>
    refine liftExc_guarded fun _ _ => liftExc_guarded fun _ _ => ?_
    split
    · trivial
    refine (plexRequest_guarded (P := fun _ _ => True) rfl ?_ fun _ _ _ => trivial).bind fun _ _ _ => trivial
    exact .cons (by decide) (.cons (by decide) .nil)
  | plexResources clientIdentifier token includeHttps includeRelay =>
    refine liftExc_guarded fun _ _ => liftExc_guarded fun _ _ => ?_
    split
    · trivial
    split
    · exact (fetchPlexResources_guarded rfl).bind fun _ _ _ => trivial
    · refine (plexRequest_guarded (P := fun _ _ => True) rfl ?_ fun _ _ _ => trivial).bind fun _ _ _ => trivial
      exact tokenIsOf_resources token clientIdentifier includeHttps includeRelay
  | healthBackend config =>
    refine (checkServerConnection_guarded fun q hq hto => ?_).bind fun _ _ _ => trivial
    exact ⟨hq, .inr (.inr ⟨config, rfl, hto⟩)⟩

end Tokens

/-- **Tokens are guarded.** Whatever is answered, a route follows no redirect
and asks one of two places. One is plex.tv, with the account's token or none.
The other is a server, with the server's token: it is that of the session, or
plex.tv has, to this account, named a connection of the server that is the
address. -/
theorem tokens_guarded (Y : Yarl) (repr : Json → Str) (r : ConfigRequest Y) {past : List (Exchange netSig)}
    {p : Prog netSig ConfigReply} (hpast : (answerConfig repr r).Reaches past p) {q : NetRequest} (hq : p.asking = some q) :
    Sendable r past q :=
  (answerConfig_guarded repr r).asks hpast hq

/-! ## A server of the account -/

def ConnectionQuery.sample : ConnectionQuery where
  url := "http://10.0.0.2:32400".toList
  serverName := "Home".toList
  token := "t0ken".toList
  accountToken := "acc0unt".toList
  clientIdentifier := "page".toList

/-- What plex.tv is asked for the sample, and its answer. -/
def toldSample : Exchange netSig :=
  ⟨⟨.get, plexApiUrl ++ "/resources".toList, plexHeaders ++ resourcesHeaders "acc0unt".toList "page".toList, resourcesParams 1 1, false⟩,
    .response 200 true (.ok (.resources sampleResources))⟩

/-- The server's sections, which the page asks for. -/
def sampleSections : NetRequest :=
  ⟨.get, "http://10.0.0.2:32400/library/sections".toList, [(tokenName, "t0ken".toList)], [], false⟩

theorem tokens_guarded_sections :
    Sendable (Y := Yarl.plain) (.plexSections .sample) [toldSample] sampleSections := by
  refine tokens_guarded Yarl.plain (fun _ => []) (.plexSections .sample) (.ask _ .start) ?_
  rfl

end Plexio
