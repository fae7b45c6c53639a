/-
The routes over the session store: creating, listing and revoking sessions
(`routers/configuration.py`), and every route under a session's id, which
begins by loading it (`get_addon_configuration` of `dependencies.py`). A
request awaits between its gate, Plex's answers and the store's statements;
there, any other request may run.

Without the admin key no session is listed or deleted, and a request for it
is as good as not made (`admin_gated`). What is revoked stays revoked: no
request begun after the deletion was answered is served under the id, told
of it, or makes Plexio contact the Plex server (`revoked_everywhere`).
-/
import Plexio.Connections
import Plexio.Lib.Inert
import Plexio.SessionLinear

namespace Plexio

open Py Linearize

/-! ## The routes -/

/-- `verify_admin_key` -/
def verifyAdminKey (adminKey xAdminKey : Option Str) : Except Exc Unit :=
  if !Yarl.truthy adminKey then .error (.http 403 "Session administration is disabled (ADMIN_KEY unset)".toList)
  else if xAdminKey ≠ adminKey then .error (.http 401 "Invalid or missing admin key".toList)
  else .ok ()

inductive ApiRequest (Y : Yarl)
  /-- `POST /api/v1/sessions` -/
  | createSession (config : AddonConfiguration Y) (label : Option Str)
  /-- `GET /api/v1/sessions` -/
  | listSessions (xAdminKey : Option Str)
  /-- `DELETE /api/v1/sessions/...` -/
  | deleteSession (xAdminKey : Option Str) (sessionId : Str)
  /-- A route of the add-on under a session's id. -/
  | useSession (sessionId : Str)
  /-- `GET /api/v1/health/...` -/
  | healthBackend (sessionId : Str)

inductive ApiResponse (Y : Yarl)
  | created (sessionId : Str)
  | sessions (infos : List SessionInfo)
  | deleted (sessionId : Str)
  /-- The add-on's route goes on with the configuration. -/
  | configured (config : AddonConfiguration Y)
  | backend (sessionId : Str) (reachable : Bool)
  | error (e : Exc)

/-- Where a request stands. -/
inductive ApiPc (Y : Yarl)
  | gate (req : ApiRequest Y)
  /-- `create_session`, before the account's resources are fetched. -/
  | fetch (config : AddonConfiguration Y) (label : Option Str)
  | store (req : ApiRequest Y) (pc : Pc Json.Value)
  /-- `health_backend`, before the Plex server is asked. -/
  | probe (sessionId : Str) (config : AddonConfiguration Y)

/-- What the routes work with. -/
structure SessionApi (Y : Yarl) where
  store : SessionStore Json.Value (AddonConfiguration Y)
  /-- There is a `request.state.sessions`. -/
  enabled : Bool
  adminKey : Option Str

section Requests
variable {Y : Yarl}

/-- The id in the path, if the route has one. -/
def ApiRequest.sessionId : ApiRequest Y → Str
  | .deleteSession _ id | .useSession id | .healthBackend id => id
  | .createSession .. | .listSessions _ => []

/-- The store's call. -/
def ApiRequest.op : ApiRequest Y → Op Json.Value
  | .createSession config label => .create config.toStorageDict label
  | .listSessions _ => .list
  | .deleteSession _ id => .delete id
  | .useSession id | .healthBackend id => .getConfig id

/-- The admin key does not let the request pass. -/
def ApiRequest.refusal (adminKey : Option Str) : ApiRequest Y → Option Exc
  | .listSessions xAdminKey | .deleteSession xAdminKey _ =>
    match verifyAdminKey adminKey xAdminKey with
    | .ok () => none
    | .error e => some e
  | .createSession .. | .useSession _ | .healthBackend _ => none

end Requests

namespace SessionApi
variable {Y : Yarl} (A : SessionApi Y)

/-- What a step may draw: the store's draws, the rate limiter's word, and what Plex answers. -/
structure Choice where
  draw : A.store.Choice
  allowed : Bool
  /-- `fetch_plex_resources` -/
  resources : Except Exc (List PlexResource)
  /-- `check_server_connection` -/
  reachable : Except Exc Bool

def sessionsEnabled : Except Exc Unit :=
  if A.enabled then .ok () else .error (.http 404 "Sessions are not enabled".toList)

/-- What is checked before anything is awaited. -/
def gate (c : A.Choice) (req : ApiRequest Y) : Except Exc Unit :=
  match req.refusal A.adminKey with
  | some e => .error e
  | none =>
    match req with
    | .createSession .. =>
      if c.allowed then A.sessionsEnabled else .error (.http 429 "Too many requests; retry in one minute".toList)
    | _ => A.sessionsEnabled

/-- What a route makes of the store's answer. -/
def answer (req : ApiRequest Y) : Outcome (AddonConfiguration Y) → ApiPc Y ⊕ ApiResponse Y
  | .created (.ok id) => .inr (.created id)
  | .created (.error .sessionCapacity) =>
    .inr (.error (.http 429 "Session capacity reached; revoke an unused session and retry".toList))
  | .created (.error e) => .inr (.error e)
  | .sessions infos => .inr (.sessions infos)
  | .deleted true => .inr (.deleted req.sessionId)
  | .deleted false => .inr (.error (.http 404 "Session not found".toList))
  | .config (.ok none) => .inr (.error (.http 404 "Session not found".toList))
  | .config (.ok (some config)) =>
    match req with
    | .healthBackend id => .inl (.probe id config)
    | _ => .inr (.configured config)
  | .config (.error e) => .inr (.error e)

/-- Up to the next `await`. -/
def step (c : A.Choice) (db : Db) : ApiPc Y → Db × (ApiPc Y ⊕ ApiResponse Y)
  | .gate req =>
    match A.gate c req with
    | .error e => (db, .inr (.error e))
    | .ok () =>
      match req with
      | .createSession config label => (db, .inl (.fetch config label))
      | req => (db, .inl (.store req (SessionStore.start req.op)))
  | .fetch config label =>
    match c.resources >>= fun resources => authorizeSession resources config with
    | .error e => (db, .inr (.error e))
    | .ok () =>
      (db, .inl (.store (.createSession config label) (SessionStore.start (.create config.toStorageDict label))))
  | .store req pc =>
    match A.store.step c.draw db pc with
    | (db', .inl pc') => (db', .inl (.store req pc'))
    | (db', .inr outcome) => (db', answer req outcome)
  | .probe id _ =>
    match c.reachable with
    | .ok reachable => (db, .inr (.backend id reachable))
    | .error e => (db, .inr (.error e))

/-- The routes as calls that share the store. -/
def machine : Machine (ApiRequest Y) (ApiResponse Y) (ApiPc Y) Db A.Choice where
  start := .gate
  step := A.step

/-- The routes at work. -/
abbrev Sys (_ : SessionApi Y) (ι : Type) := System Db (ApiPc Y) (ApiResponse Y) ι

/-- The server with these rows, and no request made. -/
def begin (A : SessionApi Y) {ι : Type} (rows : List Row) : A.Sys ι := System.start ⟨rows, false⟩

/-- The server after these events. -/
def after {ι : Type} [DecidableEq ι] (reqs : ι → ApiRequest Y) (rows : List Row) (evs : List (Event ι A.Choice)) : A.Sys ι :=
  (A.begin rows).run A.machine reqs evs

end SessionApi

/-! ## A call of the store -/

/-- The statement is one of the call's. -/
def Pc.For {γ : Type} (op : Op γ) : Pc γ → Prop
  | .createLock config label | .createSelect config label _ | .createCount config label _ | .createInsert config label _ =>
    op = .create config label
  | .createTouch _ _ => ∃ config label, op = .create config label
  | .getSelect id | .getUpdate id _ _ _ _ => op = .getConfig id
  | .listSelect => op = .list
  | .deleteRow id => op = .delete id

/-- The outcome is of the call's kind. -/
def Outcome.For {γ α : Type} (op : Op γ) : Outcome α → Prop
  | .created _ => ∃ config label, op = .create config label
  | .config _ => ∃ id, op = .getConfig id
  | .sessions _ => op = .list
  | .deleted _ => ∃ id, op = .delete id

/-- The call carries nothing it has read under the id. -/
def Pc.Unaware {γ : Type} (id : Str) : Pc γ → Prop
  | .createTouch read _ | .getUpdate read _ _ _ _ => read ≠ id
  | _ => True

namespace SessionStore
variable {γ α : Type} {P : SessionStore γ α}

theorem start_for (op : Op γ) : (start op).For op := by
  cases op <;> exact rfl

theorem start_unaware (op : Op γ) (id : Str) : (start op).Unaware id := by
  cases op <;> trivial

/-- A call keeps to its statements and returns its outcome. -/
theorem step_for (ch : P.Choice) (db : Db) {op : Op γ} {pc : Pc γ} (h : pc.For op) :
    (∀ pc', (P.step ch db pc).2 = .inl pc' → pc'.For op) ∧ ∀ o, (P.step ch db pc).2 = .inr o → o.For op := by
  cases pc with
  | createLock config label =>
    simp only [step]
    split <;> exact ⟨fun pc' heq => by cases heq; exact h, fun o heq => by cases heq⟩
  | createSelect config label now =>
    simp only [step]
    split
    · exact ⟨fun pc' heq => by cases heq; exact ⟨config, label, h⟩, fun o heq => by cases heq⟩
    · exact ⟨fun pc' heq => by cases heq; exact h, fun o heq => by cases heq⟩
  | createCount config label now =>
    simp only [step]
    split
    · exact ⟨fun pc' heq => (by cases heq), fun o heq => by cases heq; exact ⟨config, label, h⟩⟩
    · exact ⟨fun pc' heq => by cases heq; exact h, fun o heq => by cases heq⟩
  | createInsert config label now =>
    simp only [step]
    split <;> exact ⟨fun pc' heq => (by cases heq), fun o heq => by cases heq; exact ⟨config, label, h⟩⟩
  | getSelect id =>
    simp only [step]
    cases selectConfig db.rows id with
    | none => exact ⟨fun pc' heq => (by cases heq), fun o heq => by cases heq; exact ⟨id, h⟩⟩
    | some stored =>
      simp only
      cases P.text.loads (P.readStored ch.nonce stored.1).1 with
      | none => exact ⟨fun pc' heq => (by cases heq), fun o heq => by cases heq; exact ⟨id, h⟩⟩
      | some config => exact ⟨fun pc' heq => by cases heq; exact h, fun o heq => by cases heq⟩
  | createTouch id now => exact ⟨fun pc' heq => (by cases heq), fun o heq => by cases heq; exact h⟩
  | getUpdate id => exact ⟨fun pc' heq => (by cases heq), fun o heq => by cases heq; exact ⟨id, h⟩⟩
  | listSelect => exact ⟨fun pc' heq => (by cases heq), fun o heq => by cases heq; exact h⟩
  | deleteRow id => exact ⟨fun pc' heq => (by cases heq), fun o heq => by cases heq; exact ⟨id, h⟩⟩

/-- The ids of the table: a statement leaves them, adds the one drawn, or deletes its own. -/
theorem step_sessionIds (ch : P.Choice) (db : Db) (pc : Pc γ) :
    (P.step ch db pc).1.rows.map (·.sessionId) = db.rows.map (·.sessionId) ∨
    (P.step ch db pc).1.rows.map (·.sessionId) = db.rows.map (·.sessionId) ++ [ch.uuid] ∨
    ∃ id, pc = .deleteRow id ∧ (P.step ch db pc).1.rows = Plexio.deleteRow id db.rows := by
  have hmap : ∀ f : Row → Row, (∀ r, (f r).sessionId = r.sessionId) →
      (db.rows.map f).map (·.sessionId) = db.rows.map (·.sessionId) := fun f hf => by simp [hf]
  cases pc with
  | createLock | createSelect | createCount =>
    simp only [step]
    split <;> exact .inl rfl
  | createTouch id now => exact .inl (hmap _ fun r => by split <;> rfl)
  | createInsert config label now =>
    simp only [step]
    split
    · exact .inl rfl
    · exact .inr (.inl (by simp [newRow]))
  | getSelect id =>
    simp only [step]
    split
    · exact .inl rfl
    · split <;> exact .inl rfl
  | getUpdate id config reencrypted now hash => exact .inl (hmap _ fun r => by split <;> rfl)
  | listSelect => exact .inl rfl
  | deleteRow id => exact .inr (.inr ⟨id, rfl, rfl⟩)

/-- No row has the id. -/
def Absent (id : Str) (rows : List Row) : Prop := id ∉ rows.map (·.sessionId)

theorem absent_deleteRow (id : Str) (rows : List Row) : Absent id (Plexio.deleteRow id rows) := by
  intro hmem
  obtain ⟨r, hr, hid⟩ := List.mem_map.mp hmem
  simpa [hid] using (List.mem_filter.mp hr).2

/-- An id that is not drawn does not come back. -/
theorem Absent.step {id : Str} {db : Db} (h : Absent id db.rows) {ch : P.Choice} (hch : ch.uuid ≠ id) (pc : Pc γ) :
    Absent id (P.step ch db pc).1.rows := by
  rcases step_sessionIds ch db pc with heq | heq | ⟨id', -, heq⟩
  · rw [Absent, heq]
    exact h
  · rw [Absent, heq, List.mem_append, List.mem_singleton]
    exact fun hmem => hmem.elim h fun he => hch he.symm
  · rw [heq]
    exact fun hmem => h ((List.filter_sublist.map _).subset hmem)

/-- Only a deletion takes an id away. -/
theorem mem_sessionIds_step {id : Str} {db : Db} (h : id ∈ db.rows.map (·.sessionId)) (ch : P.Choice) (pc : Pc γ) :
    id ∈ (P.step ch db pc).1.rows.map (·.sessionId) ∨ pc = .deleteRow id := by
  rcases step_sessionIds ch db pc with heq | heq | ⟨id', rfl, heq⟩
  · rw [heq]
    exact .inl h
  · rw [heq]
    exact .inl (List.mem_append_left _ h)
  · by_cases hid : id = id'
    · rw [hid]
      exact .inr rfl
    · rw [heq]
      obtain ⟨r, hr, rfl⟩ := List.mem_map.mp h
      exact .inl (List.mem_map_of_mem (List.mem_filter.mpr ⟨hr, by simpa using hid⟩))

/-- **What is not in the table is not told of**, by a call that has not read it before. -/
theorem step_unaware {id : Str} {ch : P.Choice} {db : Db} {op : Op γ} {pc : Pc γ} (habsent : Absent id db.rows)
    (hch : ch.uuid ≠ id) (hfor : pc.For op) (hpc : pc.Unaware id) :
    (∀ pc', (P.step ch db pc).2 = .inl pc' → pc'.Unaware id) ∧ ∀ o, (P.step ch db pc).2 = .inr o → ¬ o.Mentions id op := by
  have hnone : ∀ r ∈ db.rows, r.sessionId ≠ id := fun r hr he => habsent (he ▸ List.mem_map_of_mem hr)
  cases pc with
  | createLock config label =>
    simp only [step]
    split <;> exact ⟨fun pc' heq => by cases heq; trivial, fun o heq => by cases heq⟩
  | createSelect config label now =>
    simp only [step]
    cases hs : selectByHash db.rows (P.configHash config) with
    | none => exact ⟨fun pc' heq => by cases heq; trivial, fun o heq => by cases heq⟩
    | some found =>
      refine ⟨fun pc' heq => ?_, fun o heq => by cases heq⟩
      cases heq
      obtain ⟨r, hr, -, rfl⟩ := selectByHash_some hs
      exact hnone r hr
  | createCount config label now =>
    simp only [step]
    split
    · exact ⟨fun pc' heq => (by cases heq), fun o heq hm => by cases heq; cases hm⟩
    · exact ⟨fun pc' heq => by cases heq; trivial, fun o heq => by cases heq⟩
  | createInsert config label now =>
    simp only [step]
    split
    · exact ⟨fun pc' heq => (by cases heq), fun o heq hm => by cases heq; cases hm⟩
    · refine ⟨fun pc' heq => (by cases heq), fun o heq hm => ?_⟩
      cases heq
      exact hch (Except.ok.inj hm)
  | getSelect id' =>
    simp only [step]
    cases hs : selectConfig db.rows id' with
    | none => exact ⟨fun pc' heq => (by cases heq), fun o heq hm => by cases heq; exact hm.2 rfl⟩
    | some stored =>
      obtain ⟨r, hr, hid, -⟩ := selectConfig_some hs
      have hne : id' ≠ id := hid ▸ hnone r hr
      simp only
      cases P.text.loads (P.readStored ch.nonce stored.1).1 with
      | none =>
        refine ⟨fun pc' heq => (by cases heq), fun o heq hm => ?_⟩
        cases heq
        have hop : op = .getConfig id' := hfor
        rw [hop] at hm
        cases hm.1
        exact hne rfl
      | some config => exact ⟨fun pc' heq => by cases heq; exact hne, fun o heq => by cases heq⟩
  | createTouch id' now =>
    refine ⟨fun pc' heq => (by cases heq), fun o heq hm => ?_⟩
    cases heq
    exact hpc (Except.ok.inj hm)
  | getUpdate id' config reencrypted now hash =>
    refine ⟨fun pc' heq => (by cases heq), fun o heq hm => ?_⟩
    cases heq
    have hop : op = .getConfig id' := hfor
    rw [hop] at hm
    cases hm.1
    exact hpc rfl
  | listSelect =>
    refine ⟨fun pc' heq => (by cases heq), fun o heq hm => ?_⟩
    cases heq
    obtain ⟨x, hx, hid⟩ := hm
    obtain ⟨r, hr, rfl⟩ := List.mem_map.mp hx
    exact hnone r ((List.mergeSort_perm _ _).mem_iff.mp hr) hid
  | deleteRow id' =>
    refine ⟨fun pc' heq => (by cases heq), fun o heq hm => ?_⟩
    cases heq
    have hop : op = .delete id' := hfor
    obtain ⟨hm, hfound⟩ := hm
    rw [hop] at hm
    cases hm
    obtain ⟨r, hr, hid⟩ := List.any_eq_true.mp hfound
    exact hnone r hr (beq_iff_eq.mp hid)

end SessionStore

/-! ## A request -/

section Keyless
variable {Y : Yarl}

/-- A request to list or delete sessions without the admin key; with none configured, every such request. -/
def ApiRequest.keyless (adminKey : Option Str) : ApiRequest Y → Bool
  | .listSessions xAdminKey | .deleteSession xAdminKey _ => !Yarl.truthy adminKey || decide (xAdminKey ≠ adminKey)
  | .createSession .. | .useSession _ | .healthBackend _ => false

theorem verifyAdminKey_cases (adminKey xAdminKey : Option Str) :
    (verifyAdminKey adminKey xAdminKey = .ok () ∧ Yarl.truthy adminKey = true ∧ xAdminKey = adminKey) ∨
    ((!Yarl.truthy adminKey || decide (xAdminKey ≠ adminKey)) = true ∧
      ∃ status detail, (status = 401 ∨ status = 403) ∧ verifyAdminKey adminKey xAdminKey = .error (.http status detail)) := by
  unfold verifyAdminKey
  cases hkey : Yarl.truthy adminKey with
  | false => exact .inr ⟨rfl, 403, _, .inr rfl, rfl⟩
  | true =>
    by_cases heq : xAdminKey = adminKey
    · exact .inl ⟨by simp [heq], rfl, heq⟩
    · exact .inr ⟨by simp [heq], 401, "Invalid or missing admin key".toList, .inl rfl, by simp [heq]⟩

/-- Keyless requests are the refused ones, with 401 or 403. -/
theorem ApiRequest.refusal_keyless {adminKey : Option Str} {req : ApiRequest Y} (h : req.keyless adminKey = true) :
    ∃ status detail, (status = 401 ∨ status = 403) ∧ req.refusal adminKey = some (.http status detail) := by
  cases req with
  | listSessions xAdminKey | deleteSession xAdminKey =>
    rcases verifyAdminKey_cases adminKey xAdminKey with ⟨-, hkey, rfl⟩ | ⟨-, status, detail, hstatus, hverify⟩
    · simp [keyless, hkey] at h
    · exact ⟨status, detail, hstatus, by simp only [refusal, hverify]⟩
  | createSession | useSession | healthBackend => cases h

/-- A deletion that is not refused has the key. -/
theorem ApiRequest.key_of_delete {adminKey : Option Str} {req : ApiRequest Y} {id : Str}
    (h : req.refusal adminKey = none) (hop : req.op = .delete id) :
    req = .deleteSession adminKey id ∧ Yarl.truthy adminKey = true := by
  cases req with
  | deleteSession xAdminKey id' =>
    cases hop
    rcases verifyAdminKey_cases adminKey xAdminKey with ⟨-, hkey, rfl⟩ | ⟨-, status, detail, -, hverify⟩
    · exact ⟨rfl, hkey⟩
    · simp only [refusal, hverify] at h
      cases h
  | createSession | listSessions | useSession | healthBackend => cases hop

end Keyless

namespace SessionApi
variable {Y : Yarl} {A : SessionApi Y}

variable (A) in
/-- The place is one of the request's. -/
def Stands (req : ApiRequest Y) : ApiPc Y → Prop
  | .gate req' => req' = req
  | .fetch config label => req = .createSession config label
  | .store req' pc => req' = req ∧ req.refusal A.adminKey = none ∧ pc.For req.op
  | .probe id _ => req = .healthBackend id

/-- What the gate lets pass has the key. -/
theorem refusal_of_gate {c : A.Choice} {req : ApiRequest Y} (h : A.gate c req = .ok ()) : req.refusal A.adminKey = none := by
  unfold gate at h
  cases hr : req.refusal A.adminKey with
  | none => rfl
  | some e => rw [hr] at h; cases h

/-- A route goes on after the store only to ask the Plex server. -/
theorem answer_inl {req : ApiRequest Y} {o : Outcome (AddonConfiguration Y)} {l : ApiPc Y} (h : answer req o = .inl l) :
    ∃ id config, req = .healthBackend id ∧ o = .config (.ok (some config)) ∧ l = .probe id config := by
  match o with
  | .created (.ok id) => cases h
  | .created (.error e) => cases e <;> cases h
  | .sessions infos => cases h
  | .deleted found => cases found <;> cases h
  | .config (.error e) => cases h
  | .config (.ok none) => cases h
  | .config (.ok (some config)) =>
    cases req with
    | healthBackend id => exact ⟨id, config, rfl, rfl, (Sum.inl.inj h).symm⟩
    | createSession | listSessions | deleteSession | useSession => cases h

/-- **One step**: a request stays at its own places. -/
theorem step_stands (c : A.Choice) (db : Db) {req : ApiRequest Y} {l l' : ApiPc Y} (h : A.Stands req l)
    (hl' : (A.step c db l).2 = .inl l') : A.Stands req l' := by
  cases l with
  | gate req' =>
    obtain rfl : req' = req := h
    simp only [step] at hl'
    cases hgate : A.gate c req' with
    | error e => rw [hgate] at hl'; cases hl'
    | ok =>
      rw [hgate] at hl'
      have hkey := refusal_of_gate hgate
      cases req' with
      | createSession config label => cases hl'; rfl
      | listSessions | deleteSession | useSession | healthBackend =>
        cases hl'
        exact ⟨rfl, hkey, SessionStore.start_for _⟩
  | fetch config label =>
    obtain rfl : req = .createSession config label := h
    simp only [step] at hl'
    split at hl'
    · cases hl'
    · cases hl'
      exact ⟨rfl, rfl, SessionStore.start_for _⟩
  | store req' pc =>
    obtain ⟨rfl, hkey, hfor⟩ := h
    have hnext := (SessionStore.step_for c.draw db hfor).1
    simp only [step] at hl'
    rcases hs : A.store.step c.draw db pc with ⟨db', pc' | o⟩
    · rw [hs] at hl' hnext
      cases hl'
      exact ⟨rfl, hkey, hnext pc' rfl⟩
    · rw [hs] at hl'
      obtain ⟨id, config, rfl, -, rfl⟩ := answer_inl hl'
      rfl
  | probe id config =>
    simp only [step] at hl'
    split at hl' <;> cases hl'

/-- What a step does to the table is what a statement of the store's call does. -/
theorem step_db (c : A.Choice) (db : Db) (l : ApiPc Y) :
    (A.step c db l).1 = db ∨ ∃ req pc, l = .store req pc ∧ (A.step c db l).1 = (A.store.step c.draw db pc).1 := by
  cases l with
  | gate req =>
    refine .inl ?_
    simp only [step]
    cases A.gate c req with
    | error e => rfl
    | ok => cases req <;> rfl
  | fetch config label =>
    refine .inl ?_
    simp only [step]
    split <;> rfl
  | store req pc =>
    refine .inr ⟨req, pc, rfl, ?_⟩
    simp only [step]
    rcases A.store.step c.draw db pc with ⟨db', pc' | o⟩ <;> rfl
  | probe id config =>
    refine .inl ?_
    simp only [step]
    split <;> rfl

/-! ## Runs -/

section Runs
variable {ι : Type} [DecidableEq ι] {reqs : ι → ApiRequest Y} {rows : List Row}

variable (A) in
/-- Every request stands at its own places. -/
def Placed (reqs : ι → ApiRequest Y) (s : A.Sys ι) : Prop := ∀ i l, s.phase i = .running l → A.Stands (reqs i) l

theorem Placed.step {s : A.Sys ι} (h : A.Placed reqs s) (e : Event ι A.Choice) : A.Placed reqs (s.step A.machine reqs e) := by
  intro j l' hl'
  rcases System.step_cases A.machine reqs s e with heq | ⟨i, rfl, -, heq⟩ | ⟨i, c, l, rfl, hl, heq⟩
  · exact h j l' (heq ▸ hl')
  · by_cases hji : j = i
    · subst hji
      simp only [heq, Function.update_self] at hl'
      cases hl'
      exact rfl
    · exact h j l' (by rwa [System.step_other _ _ _ _ hji] at hl')
  · by_cases hji : j = i
    · subst hji
      simp only [heq, Function.update_self] at hl'
      refine step_stands c s.shared (h j l hl) ?_
      cases hs : (A.machine.step c s.shared l).2 with
      | inl next =>
        rw [hs] at hl'
        cases hl'
        exact hs
      | inr r => rw [hs] at hl'; cases hl'
    · exact h j l' (by rwa [System.step_other _ _ _ _ hji] at hl')

theorem Placed.run (evs : List (Event ι A.Choice)) : A.Placed reqs (A.after reqs rows evs) :=
  System.run_invariant A.machine reqs (fun _ s => A.Placed reqs s) [] (s := A.begin rows) (fun i l hl => by cases hl) evs
    fun pre e post s _ h => h.step e

/-- A refused request stands nowhere but at the gate, and ends there. -/
theorem refused_ends {i : ι} {e : Exc} (he : (reqs i).refusal A.adminKey = some e) (evs : List (Event ι A.Choice)) :
    ∀ r, (A.after reqs rows evs).phase i = .done r → r = .error e := by
  refine (System.run_invariant A.machine reqs (fun _ s => A.Placed reqs s ∧ ∀ r, s.phase i = .done r → r = .error e)
    [] (s := A.begin rows) ⟨fun i l hl => (by cases hl), fun r hr => (by cases hr)⟩ evs ?_).2
  intro pre ev post s _ h
  refine ⟨h.1.step ev, fun r hr => ?_⟩
  rcases System.step_cases A.machine reqs s ev with heq | ⟨k, rfl, -, heq⟩ | ⟨k, c, l, rfl, hl, heq⟩
  · exact h.2 r (heq ▸ hr)
  · by_cases hik : i = k
    · subst hik
      simp only [heq, Function.update_self] at hr
      cases hr
    · exact h.2 r (by rwa [System.step_other _ _ _ _ hik] at hr)
  · by_cases hik : i = k
    · subst hik
      simp only [heq, Function.update_self] at hr
      have hstands := h.1 i l hl
      cases l with
      | gate req =>
        cases hstands
        have hgate : A.gate c (reqs i) = .error e := by simp only [gate, he]
        simp only [machine, step, hgate, Phase.after_inr] at hr
        cases hr
        rfl
      | fetch config label => rw [hstands] at he; cases he
      | store req pc => rw [hstands.2.1] at he; cases he
      | probe id config => rw [hstands] at he; cases he
    · exact h.2 r (by rwa [System.step_other _ _ _ _ hik] at hr)

/-- At the gate, a refused request changes nothing. -/
theorem inert_refused : Inert A.machine fun l => ∃ req e, l = .gate req ∧ req.refusal A.adminKey = some e where
  shared c db l h := by
    obtain ⟨req, e, rfl, he⟩ := h
    simp only [machine, step, gate, he]
  stays c db l l' h hl' := by
    obtain ⟨req, e, rfl, he⟩ := h
    simp only [machine, step, gate, he] at hl'
    cases hl'

/-- **A session stays till someone with the key deletes it.** -/
theorem stays_or_deleted (pre : List (Event ι A.Choice)) {r : Row} (hr : r ∈ (A.after reqs rows pre).shared.rows)
    (post : List (Event ι A.Choice)) :
    r.sessionId ∈ (A.after reqs rows (pre ++ post)).shared.rows.map (·.sessionId) ∨
      ∃ j, reqs j = .deleteSession A.adminKey r.sessionId ∧ Yarl.truthy A.adminKey = true ∧
        (A.after reqs rows (pre ++ post)).phase j ≠ .idle := by
  have hrun : A.after reqs rows (pre ++ post) = (A.after reqs rows pre).run A.machine reqs post := System.run_append _ _ _ _ _
  rw [hrun]
  refine (System.run_invariant A.machine reqs (fun _ s => A.Placed reqs s ∧ (r.sessionId ∈ s.shared.rows.map (·.sessionId) ∨
      ∃ j, reqs j = .deleteSession A.adminKey r.sessionId ∧ Yarl.truthy A.adminKey = true ∧ s.phase j ≠ .idle))
    [] (s := A.after reqs rows pre) ⟨Placed.run pre, .inl (List.mem_map_of_mem hr)⟩ post
    fun pre' e post' s _ h => ⟨h.1.step e, ?_⟩).2
  -- A request that has begun stays begun.
  have hbegun : ∀ j, s.phase j ≠ .idle → (s.step A.machine reqs e).phase j ≠ .idle := by
    intro j hj
    rcases System.step_cases A.machine reqs s e with heq | ⟨k, rfl, hk, heq⟩ | ⟨k, c, l, rfl, hl, heq⟩
    · rwa [heq]
    · have hjk : j ≠ k := fun he => hj (he ▸ hk)
      rwa [System.step_other _ _ _ _ hjk]
    · by_cases hjk : j = k
      · simp only [heq, hjk, Function.update_self]
        cases (A.machine.step c s.shared l).2 <;> simp
      · rwa [System.step_other _ _ _ _ hjk]
  rcases h.2 with hmem | ⟨j, hj, hkey, hphase⟩
  · rcases System.step_cases A.machine reqs s e with heq | ⟨k, rfl, -, heq⟩ | ⟨k, c, l, rfl, hl, heq⟩
    · rw [heq]
      exact .inl hmem
    · rw [heq]
      exact .inl hmem
    · rcases step_db c s.shared l with hdb | ⟨req, pc, rfl, hdb⟩
      · rw [heq]
        exact .inl (by rw [show (A.machine.step c s.shared l).1 = s.shared from hdb]; exact hmem)
      · rcases SessionStore.mem_sessionIds_step hmem c.draw pc with hstay | rfl
        · rw [heq]
          exact .inl (by rw [show (A.machine.step c s.shared (.store req pc)).1 = _ from hdb]; exact hstay)
        · -- The statement is the deletion: its request passed the gate.
          obtain ⟨rfl, hpassed, hfor⟩ := h.1 k _ hl
          obtain ⟨hreq, hkey⟩ := ApiRequest.key_of_delete hpassed hfor
          exact .inr ⟨k, hreq, hkey, hbegun k (by simp [hl])⟩
  · exact .inr ⟨j, hj, hkey, hbegun j hphase⟩

variable (A) in
/-- The run without the keyless requests. -/
def keyed (reqs : ι → ApiRequest Y) (evs : List (Event ι A.Choice)) : List (Event ι A.Choice) :=
  evs.filter fun e => !(reqs e.who).keyless A.adminKey

/-- **Without the admin key, no session is listed or deleted.** Whatever the
requests and however they interleave: a keyless one is answered 401 or 403,
and is as good as not made, for the table and for everyone else. A session in
the table stays there until a request with the key deletes it; with no key
configured, for good. -/
theorem admin_gated (A : SessionApi Y) (reqs : ι → ApiRequest Y) (rows : List Row) (evs : List (Event ι A.Choice)) :
    (∀ i r, (reqs i).keyless A.adminKey = true → (A.after reqs rows evs).phase i = .done r →
      ∃ status detail, (status = 401 ∨ status = 403) ∧ r = .error (.http status detail)) ∧
    (A.after reqs rows evs).shared = (A.after reqs rows (A.keyed reqs evs)).shared ∧
    (∀ i, (reqs i).keyless A.adminKey = false →
      (A.after reqs rows evs).phase i = (A.after reqs rows (A.keyed reqs evs)).phase i) ∧
    ∀ pre post, evs = pre ++ post → ∀ r ∈ (A.after reqs rows pre).shared.rows,
      r.sessionId ∈ (A.after reqs rows evs).shared.rows.map (·.sessionId) ∨
        ∃ j, reqs j = .deleteSession A.adminKey r.sessionId ∧ Yarl.truthy A.adminKey = true ∧
          (A.after reqs rows evs).phase j ≠ .idle := by
  have halike : Alike _ _ (A.after reqs rows evs) (A.after reqs rows (A.keyed reqs evs)) :=
    run_without (inert_refused (A := A)) (fun i => (reqs i).keyless A.adminKey) (fun i hi => by
      obtain ⟨status, detail, -, he⟩ := ApiRequest.refusal_keyless hi
      exact ⟨reqs i, _, rfl, he⟩) (⟨rows, false⟩ : Db) evs
  refine ⟨fun i r hkeyless hr => ?_, halike.shared, halike.others, fun pre post hevs r hr => ?_⟩
  · obtain ⟨status, detail, hstatus, he⟩ := ApiRequest.refusal_keyless hkeyless
    exact ⟨status, detail, hstatus, refused_ends he evs r hr⟩
  · subst hevs
    exact stays_or_deleted pre hr post

end Runs

/-! ## Revocation -/

/-- Nothing in the place was read under the id. -/
def Unaware (id : Str) : ApiPc Y → Prop
  | .gate _ | .fetch _ _ => True
  | .store _ pc => pc.Unaware id
  | .probe read _ => read ≠ id

theorem unaware_start {id : Str} (req : ApiRequest Y) (op : Op Json.Value) : Unaware id (.store req (SessionStore.start op)) :=
  SessionStore.start_unaware op id

/-- The answer to the request tells nothing of the id, and serves nothing under it. -/
structure Silent (id : Str) (req : ApiRequest Y) (q : ApiResponse Y) : Prop where
  used : req = .useSession id ∨ req = .healthBackend id → ∃ detail, q = .error (.http 404 detail)
  listed : ∀ infos, q = .sessions infos → ∀ x ∈ infos, x.sessionId ≠ id
  created : q ≠ .created id
  deleted : q ≠ .deleted id

/-- An error that is not met under the id. -/
theorem Silent.error {id : Str} {req : ApiRequest Y} {e : Exc}
    (h : req = .useSession id ∨ req = .healthBackend id → ∃ detail, e = .http 404 detail) : Silent id req (.error e) where
  used hreq := by
    obtain ⟨detail, rfl⟩ := h hreq
    exact ⟨detail, rfl⟩
  listed infos hq := by cases hq
  created hq := by cases hq
  deleted hq := by cases hq

theorem op_of_used {id : Str} {req : ApiRequest Y} (h : req = .useSession id ∨ req = .healthBackend id) : req.op = .getConfig id := by
  rcases h with rfl | rfl <;> rfl

/-- A store's outcome that does not mention the id is answered so. -/
theorem answer_silent {id : Str} {req : ApiRequest Y} {o : Outcome (AddonConfiguration Y)} {q : ApiResponse Y}
    (hfor : o.For req.op) (hno : ¬ o.Mentions id req.op) (h : answer req o = .inr q) : Silent id req q := by
  match o with
  | .created (.ok id') =>
    cases h
    obtain ⟨config, label, hop⟩ := hfor
    refine ⟨fun hreq => ?_, fun infos hq => (by cases hq), fun hq => ?_, fun hq => (by cases hq)⟩
    · rw [op_of_used hreq] at hop
      cases hop
    · cases hq
      exact hno rfl
  | .created (.error e) =>
    obtain ⟨config, label, hop⟩ := hfor
    have hunused : ¬ (req = .useSession id ∨ req = .healthBackend id) := by
      intro hreq
      rw [op_of_used hreq] at hop
      cases hop
    cases e <;> cases h <;> exact .error fun hreq => absurd hreq hunused
  | .sessions infos =>
    cases h
    refine ⟨fun hreq => ?_, fun infos' hq x hx hid => ?_, fun hq => (by cases hq), fun hq => (by cases hq)⟩
    · rw [op_of_used hreq] at hfor
      cases hfor
    · cases hq
      exact hno ⟨x, hx, hid⟩
  | .deleted true =>
    cases h
    obtain ⟨id', hop⟩ := hfor
    refine ⟨fun hreq => ?_, fun infos hq => (by cases hq), fun hq => (by cases hq), fun hq => ?_⟩
    · rw [op_of_used hreq] at hop
      cases hop
    · cases req with
      | deleteSession key id'' =>
        cases hq
        exact hno ⟨rfl, rfl⟩
      | createSession | listSessions | useSession | healthBackend => cases hop
  | .deleted false => cases h; exact .error fun _ => ⟨_, rfl⟩
  | .config (.ok none) => cases h; exact .error fun _ => ⟨_, rfl⟩
  | .config (.error e) =>
    cases h
    exact .error fun hreq => absurd ⟨op_of_used hreq, by simp⟩ hno
  | .config (.ok (some config)) =>
    have hunused : ¬ (req = .useSession id ∨ req = .healthBackend id) := fun hreq => hno ⟨op_of_used hreq, by simp⟩
    cases req with
    | healthBackend id' => cases h
    | createSession | listSessions | deleteSession | useSession =>
      cases h
      exact ⟨fun hreq => absurd hreq hunused, fun infos hq => (by cases hq), fun hq => (by cases hq), fun hq => (by cases hq)⟩

/-- **One step** of a request that has read nothing under the id, when there is no row under it. -/
theorem step_silent {id : Str} {c : A.Choice} {db : Db} {req : ApiRequest Y} {l : ApiPc Y} (habsent : SessionStore.Absent id db.rows)
    (hdraw : c.draw.uuid ≠ id) (hstands : A.Stands req l) (hl : Unaware id l) :
    (∀ l', (A.step c db l).2 = .inl l' → Unaware id l') ∧ ∀ q, (A.step c db l).2 = .inr q → Silent id req q := by
  cases l with
  | gate req' =>
    obtain rfl : req' = req := hstands
    simp only [step]
    cases hgate : A.gate c req' with
    | error e =>
      refine ⟨fun l' hl' => (by cases hl'), fun q hq => ?_⟩
      cases hq
      refine .error fun hreq => ?_
      rcases hreq with rfl | rfl
      all_goals
        simp only [gate, ApiRequest.refusal, sessionsEnabled] at hgate
        split at hgate
        · cases hgate
        · exact ⟨_, (Except.error.inj hgate).symm⟩
    | ok =>
      cases req' with
      | createSession => exact ⟨fun l' hl' => by cases hl'; trivial, fun q hq => by cases hq⟩
      | listSessions | deleteSession | useSession | healthBackend =>
        exact ⟨fun l' hl' => by cases hl'; exact unaware_start _ _, fun q hq => by cases hq⟩
  | fetch config label =>
    obtain rfl : req = .createSession config label := hstands
    simp only [step]
    split
    · refine ⟨fun l' hl' => (by cases hl'), fun q hq => ?_⟩
      cases hq
      exact .error fun hreq => by rcases hreq with hreq | hreq <;> cases hreq
    · exact ⟨fun l' hl' => by cases hl'; exact unaware_start _ _, fun q hq => by cases hq⟩
  | store req' pc =>
    obtain ⟨rfl, -, hfor⟩ := hstands
    have houtcome := (SessionStore.step_for c.draw db hfor).2
    obtain ⟨hnext, hend⟩ := SessionStore.step_unaware habsent hdraw hfor hl
    simp only [step]
    rcases hs : A.store.step c.draw db pc with ⟨db', pc' | o⟩
    · rw [hs] at hnext
      exact ⟨fun l' hl' => by cases hl'; exact hnext pc' rfl, fun q hq => by cases hq⟩
    · rw [hs] at hend houtcome
      refine ⟨fun l' hl' => ?_, fun q hq => answer_silent (houtcome o rfl) (hend o rfl) hq⟩
      obtain ⟨id', config, rfl, rfl, rfl⟩ := answer_inl hl'
      rintro rfl
      exact hend _ rfl ⟨rfl, by simp⟩
  | probe id' config =>
    simp only [step]
    obtain rfl : req = .healthBackend id' := hstands
    have hunused : ¬ ((.healthBackend id' : ApiRequest Y) = .useSession id ∨ (.healthBackend id' : ApiRequest Y) = .healthBackend id) := by
      rintro (h | h)
      · cases h
      · cases h
        exact hl rfl
    split
    · refine ⟨fun l' hl' => (by cases hl'), fun q hq => ?_⟩
      cases hq
      exact ⟨fun hreq => absurd hreq hunused, fun infos hq => (by cases hq), fun hq => (by cases hq), fun hq => (by cases hq)⟩
    · refine ⟨fun l' hl' => (by cases hl'), fun q hq => ?_⟩
      cases hq
      exact .error fun hreq => absurd hreq hunused

section Revoked
variable {ι : Type} [DecidableEq ι] {reqs : ι → ApiRequest Y} {rows : List Row}

/-- What an event draws for the store. -/
def drawn : Event ι A.Choice → Event ι A.store.Choice
  | .invoke i => .invoke i
  | .act i c => .act i c.draw

variable (A) in
/-- The ids that have come up. -/
def named (reqs : ι → ApiRequest Y) (past : List (Event ι A.Choice)) : List Str :=
  A.store.seen (fun i => (reqs i).op) [] (past.map drawn)

variable (A) in
/-- `uuid4` draws an id that has not come up. -/
def Fresh (reqs : ι → ApiRequest Y) (past : List (Event ι A.Choice)) (e : Event ι A.Choice) : Prop :=
  A.store.Fresh (fun i => (reqs i).op) [] (past.map drawn) (drawn e)

omit [DecidableEq ι] in
theorem named_snoc (past : List (Event ι A.Choice)) (e : Event ι A.Choice) :
    A.named reqs (past ++ [e]) = A.named reqs past ++ A.store.mentions (fun i => (reqs i).op) (drawn e) := by
  rw [named, List.map_append, List.map_singleton, SessionStore.seen_snoc]
  rfl

/-- The deletion is answered by the statement that made it. -/
theorem deleted_of_step {c : A.Choice} {db : Db} {req : ApiRequest Y} {l : ApiPc Y} (hstands : A.Stands req l) {id : Str}
    (h : (A.step c db l).2 = .inr (.deleted id)) :
    req.op = .delete id ∧ SessionStore.Absent id (A.step c db l).1.rows := by
  cases l with
  | gate req' =>
    simp only [step] at h
    cases hgate : A.gate c req' with
    | error e => rw [hgate] at h; cases h
    | ok => rw [hgate] at h; cases req' <;> cases h
  | fetch config label =>
    simp only [step] at h
    split at h <;> cases h
  | probe id' config =>
    simp only [step] at h
    split at h <;> cases h
  | store req' pc =>
    obtain ⟨rfl, -, hfor⟩ := hstands
    obtain ⟨-, houtcome⟩ := SessionStore.step_for c.draw db hfor
    simp only [step] at h ⊢
    rcases hs : A.store.step c.draw db pc with ⟨db', pc' | o⟩
    · rw [hs] at h
      cases h
    · rw [hs] at h houtcome
      dsimp only at h ⊢
      match o with
      | .created (.ok id') => cases h
      | .created (.error e) => cases e <;> cases h
      | .sessions infos => cases h
      | .deleted false => cases h
      | .config (.ok none) => cases h
      | .config (.error e) => cases h
      | .config (.ok (some config)) => cases req' <;> cases h
      | .deleted true =>
        obtain ⟨id', hop⟩ := houtcome _ rfl
        have hid : id' = id := by
          cases req' with
          | deleteSession key id'' => cases h; cases hop; rfl
          | createSession | listSessions | useSession | healthBackend => cases hop
        subst hid
        -- A statement of a deletion is the one.
        rw [hop] at hfor
        cases pc with
        | deleteRow id'' =>
          cases hfor
          obtain rfl : _ = db' := congrArg Prod.fst hs
          exact ⟨hop, SessionStore.absent_deleteRow _ _⟩
        | createTouch => obtain ⟨_, _, heq⟩ := hfor; cases heq
        | createLock | createSelect | createCount | createInsert | getSelect | getUpdate | listSelect => cases hfor

/-- What an event does to the table keeps an id out of it that has come up before. -/
theorem absent_step {past : List (Event ι A.Choice)} {s : A.Sys ι} {e : Event ι A.Choice} (hf : A.Fresh reqs past e) {id : Str}
    (hid : id ∈ A.named reqs past) (h : SessionStore.Absent id s.shared.rows) :
    SessionStore.Absent id (s.step A.machine reqs e).shared.rows := by
  rcases System.step_cases A.machine reqs s e with heq | ⟨k, rfl, -, heq⟩ | ⟨k, c, l, rfl, hl, heq⟩
  · rwa [heq]
  · rwa [heq]
  · rw [heq]
    rcases step_db c s.shared l with hdb | ⟨req, pc, rfl, hdb⟩
    · rwa [show (A.machine.step c s.shared l).1 = s.shared from hdb]
    · rw [show (A.machine.step c s.shared (.store req pc)).1 = _ from hdb]
      exact h.step (fun he => hf (he ▸ hid)) pc

variable (A) in
/-- What a deletion that was answered leaves. -/
structure Deletes (reqs : ι → ApiRequest Y) (past : List (Event ι A.Choice)) (s : A.Sys ι) : Prop where
  placed : A.Placed reqs s
  begun : ∀ i, s.phase i ≠ .idle → ∀ id ∈ SessionStore.opIds (reqs i).op, id ∈ A.named reqs past
  gone : ∀ i id, s.phase i = .done (.deleted id) → SessionStore.Absent id s.shared.rows ∧ (reqs i).op = .delete id

/-- **The step lemma.** -/
theorem Deletes.step {past : List (Event ι A.Choice)} {s : A.Sys ι} (h : A.Deletes reqs past s) {e : Event ι A.Choice}
    (hf : A.Fresh reqs past e) : A.Deletes reqs (past ++ [e]) (s.step A.machine reqs e) := by
  have hpast : ∀ {id}, id ∈ A.named reqs past → id ∈ A.named reqs (past ++ [e]) := by
    intro id hid
    rw [named_snoc]
    exact List.mem_append_left _ hid
  have hold : ∀ i id, s.phase i = .done (.deleted id) →
      SessionStore.Absent id (s.step A.machine reqs e).shared.rows ∧ (reqs i).op = .delete id := by
    intro i id hi
    obtain ⟨habsent, hop⟩ := h.gone i id hi
    exact ⟨absent_step hf (h.begun i (by simp [hi]) id (by simp [hop, SessionStore.opIds])) habsent, hop⟩
  refine ⟨h.placed.step e, fun j hj id hid => ?_, fun j id hj => ?_⟩
  · rcases System.step_cases A.machine reqs s e with heq | ⟨k, rfl, -, heq⟩ | ⟨k, c, l, rfl, hl, heq⟩
    · exact hpast (h.begun j (heq ▸ hj) id hid)
    · by_cases hjk : j = k
      · subst hjk
        rw [named_snoc]
        exact List.mem_append_right _ hid
      · rw [System.step_other _ _ _ _ hjk] at hj
        exact hpast (h.begun j hj id hid)
    · by_cases hjk : j = k
      · exact hpast (h.begun j (by simp [hjk, hl]) id hid)
      · rw [System.step_other _ _ _ _ hjk] at hj
        exact hpast (h.begun j hj id hid)
  · by_cases hjw : j = e.who
    · rcases System.step_cases A.machine reqs s e with heq | ⟨k, rfl, -, heq⟩ | ⟨k, c, l, rfl, hl, heq⟩
      · exact hold j id (heq ▸ hj)
      · rw [show j = k from hjw] at hj
        simp only [heq, Function.update_self] at hj
        cases hj
      · obtain rfl : j = k := hjw
        simp only [heq, Function.update_self] at hj ⊢
        cases hs : (A.machine.step c s.shared l).2 with
        | inl next => rw [hs] at hj; cases hj
        | inr r =>
          rw [hs] at hj
          cases hj
          exact (deleted_of_step (h.placed j l hl) hs).symm
    · rw [System.step_other _ _ _ _ hjw] at hj
      exact hold j id hj

theorem Deletes.run (rows : List Row) {evs : List (Event ι A.Choice)} (hf : AllAllowed (A.Fresh reqs) evs) :
    A.Deletes reqs evs (A.after reqs rows evs) := by
  refine System.run_invariant A.machine reqs (A.Deletes reqs) [] (s := A.begin rows)
    ⟨fun i l hl => (by cases hl), fun i hi => absurd rfl hi, fun i id hi => (by cases hi)⟩ evs fun pre e post s heq h => ?_
  exact h.step (hf pre e post heq)

/-- **What is revoked stays revoked.** Once a deletion was answered, a request
that has not begun is never served under the id: a route of the add-on and
the deep health check answer 404 and do not contact the Plex server, no
listing shows the id, no creation returns it, and no deletion finds it again,
whatever else goes on. -/
theorem revoked_everywhere {pre post : List (Event ι A.Choice)} (hf : AllAllowed (A.Fresh reqs) (pre ++ post)) {i j : ι} {id : Str}
    (hrevoked : (A.after reqs rows pre).phase i = .done (.deleted id)) (hidle : (A.after reqs rows pre).phase j = .idle) :
    (∀ config, (A.after reqs rows (pre ++ post)).phase j ≠ .running (.probe id config)) ∧
      ∀ q, (A.after reqs rows (pre ++ post)).phase j = .done q → Silent id (reqs j) q := by
  have hdeletes := Deletes.run rows hf.left
  obtain ⟨habsent, hop⟩ := hdeletes.gone i id hrevoked
  have hid : id ∈ A.named reqs pre :=
    hdeletes.begun i (by simp [hrevoked]) id (by simp [hop, SessionStore.opIds])
  have hrun : A.after reqs rows (pre ++ post) = (A.after reqs rows pre).run A.machine reqs post := System.run_append _ _ _ _ _
  rw [hrun]
  have hquiet := System.run_invariant A.machine reqs (fun past s => id ∈ A.named reqs past ∧ A.Placed reqs s ∧
      SessionStore.Absent id s.shared.rows ∧ (∀ l, s.phase j = .running l → Unaware id l) ∧
      ∀ q, s.phase j = .done q → Silent id (reqs j) q)
    pre (s := A.after reqs rows pre) ⟨hid, hdeletes.placed, habsent, by simp [hidle], by simp [hidle]⟩ post
    fun pre' e post' s heq h => ?_
  · exact ⟨fun config hc => hquiet.2.2.2.1 _ hc rfl, hquiet.2.2.2.2⟩
  obtain ⟨hid, hplaced, habsent, hrunning, hdone⟩ := h
  have hfresh : A.Fresh reqs (pre ++ pre') e := hf (pre ++ pre') e post' (by rw [heq, List.append_assoc])
  refine ⟨?_, hplaced.step e, absent_step hfresh hid habsent, ?_⟩
  · rw [named_snoc]
    exact List.mem_append_left _ hid
  rcases System.step_cases A.machine reqs s e with heq | ⟨k, rfl, -, heq⟩ | ⟨k, c, l, rfl, hl, heq⟩
  · rw [heq]
    exact ⟨hrunning, hdone⟩
  · by_cases hjk : j = k
    · subst hjk
      simp only [heq, Function.update_self]
      exact ⟨fun l hl => by cases hl; trivial, fun q hq => by cases hq⟩
    · rw [System.step_other _ _ _ _ hjk]
      exact ⟨hrunning, hdone⟩
  · by_cases hjk : j = k
    · subst hjk
      obtain ⟨hnext, hend⟩ := step_silent habsent (fun he => hfresh (he ▸ hid)) (hplaced j l hl) (hrunning l hl)
      simp only [heq, Function.update_self]
      cases hs : (A.machine.step c s.shared l).2 with
      | inl next => exact ⟨fun l' hl' => by cases hl'; exact hnext _ hs, fun q hq => by cases hq⟩
      | inr r => exact ⟨fun l' hl' => (by cases hl'), fun q hq => by cases hq; exact hend _ hs⟩
    · rw [System.step_other _ _ _ _ hjk]
      exact ⟨hrunning, hdone⟩

/-! ## A session revoked -/

def guarded : SessionApi Yarl.plain := { store := plainStore, enabled := true, adminKey := some "s3cret".toList }

/-- The session is revoked, then asked for. -/
def revokedThenUsed : Bool → ApiRequest Yarl.plain
  | true => .deleteSession (some "s3cret".toList) "old".toList
  | false => .healthBackend "old".toList

/-- The request's two steps, with these draws. -/
def madeBy (i : Bool) (first second : String) : List (Event Bool guarded.Choice) :=
  .invoke i :: [first, second].map fun uuid => .act i ⟨SessionStore.draw uuid, true, .ok [], .ok true⟩

theorem madeBy_fresh : AllAllowed (guarded.Fresh revokedThenUsed) (madeBy true "1" "2" ++ madeBy false "3" "4") := by
  intro pre e post heq
  have hfrom : guarded.store.FreshFrom (fun i => (revokedThenUsed i).op) []
      ((madeBy true "1" "2" ++ madeBy false "3" "4").map drawn) := by
    simp only [madeBy, List.map_cons, List.map_nil, List.cons_append, List.nil_append, drawn, SessionStore.FreshFrom,
      revokedThenUsed, ApiRequest.op, SessionStore.opIds]
    decide +kernel
  have hallowed : ∀ pre e post, _ → guarded.store.Fresh _ [] ([] ++ pre) e := hfrom.allowed
  exact hallowed (pre.map drawn) (drawn e) (post.map drawn) (by simp [heq])

theorem revoked_everywhere_old :
    Silent "old".toList (revokedThenUsed false) (.error (.http 404 "Session not found".toList)) := by
  have hdeleted : (guarded.after revokedThenUsed [SessionStore.legacyRow] (madeBy true "1" "2")).phase true =
    .done (.deleted "old".toList) := rfl
  exact (revoked_everywhere madeBy_fresh hdeleted (j := false) rfl).2 _ rfl

end Revoked

end SessionApi

end Plexio
