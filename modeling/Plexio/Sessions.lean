/-
The session store (`sessions.py`): one SQLite table of encrypted
configurations, and the calls on it. A call's steps are its SQL statements;
between two of them any other call may run. `create` holds a lock from its
first statement to its last, the other calls do not.

The store is generic in the configuration: `γ` is a JSON dict, `α` what it
is loaded as. `addonStore` is the store of `AddonConfiguration`s.
-/
import Mathlib.Data.String.Basic
import Plexio.Lib.JsonText
import Plexio.Lib.Linearize
import Plexio.Storage

namespace Plexio

open Py

/-- `cryptography.fernet.Fernet` under one key; a token carries a nonce. -/
structure Fernet where
  Nonce : Type
  encrypt : Nonce → Str → Str
  /-- `none` is `InvalidToken`. -/
  decrypt : Str → Option Str
  decrypt_encrypt : ∀ n s, decrypt (encrypt n s) = some s

/-- A Fernet that marks a token and leaves the text readable. -/
def Fernet.marked : Fernet where
  Nonce := Unit
  encrypt _ s := "gAAAAA".toList ++ s
  decrypt s := if startswith s "gAAAAA".toList then some (s.drop 6) else none
  decrypt_encrypt _ s := by simp [startswith]

/-- A row of the `sessions` table. -/
structure Row where
  sessionId : Str
  configJson : Str
  label : Option Str
  serverName : Option Str
  createdAt : Str
  lastUsedAt : Option Str
  configHash : Option Str
  deriving DecidableEq

/-- What the store works with. -/
structure SessionStore (γ α : Type) where
  text : Json.Text γ
  sha256 : Sha256
  fernet : Fernet
  /-- `config.get('serverName') or config.get('server_name')`. -/
  serverName : γ → Option Str
  /-- `AddonConfiguration(**config)`. -/
  load : γ → Except Exc α
  maxSessions : Nat

/-- `config.get('serverName') or config.get('server_name')`, on the texts a stored configuration has there. -/
def storedServerName (config : Json.Value) : Option Str :=
  let get (key : String) : Option Str :=
    match config.1 with
    | .obj o =>
      match o.lookup key.toList with
      | some (.str (c :: cs)) => some (c :: cs)
      | _ => none
    | _ => none
  get "serverName" <|> get "server_name"

/-- The store of the add-on's configurations. -/
def addonStore (Y : Yarl) (T : Json.Text Json.Value) (S : Sha256) (F : Fernet) (maxSessions : Nat) :
    SessionStore Json.Value (AddonConfiguration Y) where
  text := T
  sha256 := S
  fernet := F
  serverName := storedServerName
  load := AddonConfiguration.load Y
  maxSessions := maxSessions

/-- A store to compute with. -/
def plainStore : SessionStore Json.Value (AddonConfiguration Yarl.plain) :=
  addonStore Yarl.plain Json.Text.python Sha256.plain Fernet.marked 1000

/-- Truthiness of the hash column. -/
def hashOr (stored : Option Str) (hash : Str) : Str :=
  match stored with
  | some (c :: cs) => c :: cs
  | _ => hash

/-! ## The statements -/

/-- `SELECT session_id FROM sessions WHERE config_hash = ?` -/
def selectByHash (rows : List Row) (hash : Str) : Option Str :=
  (rows.find? fun r => r.configHash == some hash).map (·.sessionId)

/-- `UPDATE sessions SET last_used_at = ? WHERE session_id = ?` -/
def touch (now id : Str) (rows : List Row) : List Row :=
  rows.map fun r => if r.sessionId = id then { r with lastUsedAt := some now } else r

/-- `SELECT config_json, config_hash FROM sessions WHERE session_id = ?` -/
def selectConfig (rows : List Row) (id : Str) : Option (Str × Option Str) :=
  (rows.find? fun r => r.sessionId == id).map fun r => (r.configJson, r.configHash)

theorem selectByHash_some {rows : List Row} {hash id : Str} (h : selectByHash rows hash = some id) :
    ∃ r ∈ rows, r.configHash = some hash ∧ r.sessionId = id := by
  obtain ⟨r, hr, hid⟩ := Option.map_eq_some_iff.mp h
  exact ⟨r, List.mem_of_find?_eq_some hr, by simpa using List.find?_some hr, hid⟩

theorem selectByHash_none {rows : List Row} {hash : Str} (h : selectByHash rows hash = none) :
    ∀ r ∈ rows, r.configHash ≠ some hash := by
  rw [selectByHash, Option.map_eq_none_iff, List.find?_eq_none] at h
  exact fun r hr heq => h r hr (by simpa using heq)

theorem selectConfig_some {rows : List Row} {id : Str} {stored : Str × Option Str} (h : selectConfig rows id = some stored) :
    ∃ r ∈ rows, r.sessionId = id ∧ (r.configJson, r.configHash) = stored := by
  obtain ⟨r, hr, hstored⟩ := Option.map_eq_some_iff.mp h
  exact ⟨r, List.mem_of_find?_eq_some hr, by simpa using List.find?_some hr, hstored⟩

theorem selectConfig_none {rows : List Row} {id : Str} (h : selectConfig rows id = none) : ∀ r ∈ rows, r.sessionId ≠ id := by
  rw [selectConfig, Option.map_eq_none_iff, List.find?_eq_none] at h
  exact fun r hr heq => h r hr (by simpa using heq)

/-- `UPDATE sessions SET [config_json = ?,] last_used_at = ?, config_hash = ? WHERE session_id = ?` -/
def update (reencrypted : Option Str) (now hash id : Str) (rows : List Row) : List Row :=
  rows.map fun r =>
    if r.sessionId = id then
      { r with configJson := reencrypted.getD r.configJson, lastUsedAt := some now, configHash := some hash }
    else r

/-- What `list` tells about a session. -/
structure SessionInfo where
  sessionId : Str
  label : Option Str
  serverName : Option Str
  createdAt : Str
  lastUsedAt : Option Str
  deriving DecidableEq

def Row.info (r : Row) : SessionInfo :=
  { sessionId := r.sessionId, label := r.label, serverName := r.serverName, createdAt := r.createdAt,
    lastUsedAt := r.lastUsedAt }

/-- `SELECT ... FROM sessions ORDER BY created_at DESC` -/
def selectAll (rows : List Row) : List SessionInfo :=
  (rows.mergeSort fun a b => decide (b.createdAt ≤ a.createdAt)).map Row.info

/-- `DELETE FROM sessions WHERE session_id = ?` -/
def deleteRow (id : Str) (rows : List Row) : List Row := rows.filter fun r => r.sessionId ≠ id

/-! ## The calls -/

inductive Op (γ : Type)
  | create (config : γ) (label : Option Str)
  | getConfig (id : Str)
  | list
  | delete (id : Str)

inductive Outcome (α : Type)
  | created (r : Except Exc Str)
  | config (r : Except Exc (Option α))
  | sessions (infos : List SessionInfo)
  | deleted (found : Bool)

/-- Where a call stands: its next statement, and what it carries to it. -/
inductive Pc (γ : Type)
  | createLock (config : γ) (label : Option Str)
  | createSelect (config : γ) (label : Option Str) (now : Str)
  | createTouch (id now : Str)
  | createCount (config : γ) (label : Option Str) (now : Str)
  | createInsert (config : γ) (label : Option Str) (now : Str)
  | getSelect (id : Str)
  | getUpdate (id : Str) (config : γ) (reencrypted : Option Str) (now hash : Str)
  | listSelect
  | deleteRow (id : Str)

/-- The statements `create` executes under its lock. -/
def Pc.critical {γ : Type} : Pc γ → Bool
  | .createSelect .. | .createTouch .. | .createCount .. | .createInsert .. => true
  | _ => false

/-- The connection: the table, and whether `create`'s lock is held. -/
structure Db where
  rows : List Row
  locked : Bool

namespace SessionStore
variable {γ α : Type} (P : SessionStore γ α)

/-- What a step may draw: the time, an id, an encryption nonce. -/
structure Choice where
  now : Str
  uuid : Str
  nonce : P.fernet.Nonce

/-- `_config_hash` -/
def configHash (config : γ) : Str := P.sha256.hexdigest (P.text.canonical config)

def start : Op γ → Pc γ
  | .create config label => .createLock config label
  | .getConfig id => .getSelect id
  | .list => .listSelect
  | .delete id => .deleteRow id

/-- The row `create` inserts. -/
def newRow (ch : P.Choice) (config : γ) (label : Option Str) (now : Str) : Row where
  sessionId := ch.uuid
  configJson := P.fernet.encrypt ch.nonce (P.text.dumps config)
  label := label
  serverName := P.serverName config
  createdAt := now
  lastUsedAt := some now
  configHash := some (P.configHash config)

/-- The plain text of a stored one, and its encryption when it was stored plain. -/
def readStored (nonce : P.fernet.Nonce) (stored : Str) : Str × Option Str :=
  match P.fernet.decrypt stored with
  | some plain => (plain, none)
  | none => (stored, some (P.fernet.encrypt nonce stored))

/-- One statement of a call, with the computation up to the next. -/
def step (ch : P.Choice) (db : Db) : Pc γ → Db × (Pc γ ⊕ Outcome α)
  | .createLock config label =>
    if db.locked then (db, .inl (.createLock config label))
    else ({ db with locked := true }, .inl (.createSelect config label ch.now))
  | .createSelect config label now =>
    match selectByHash db.rows (P.configHash config) with
    | some id => (db, .inl (.createTouch id now))
    | none => (db, .inl (.createCount config label now))
  | .createTouch id now => ({ rows := touch now id db.rows, locked := false }, .inr (.created (.ok id)))
  | .createCount config label now =>
    if P.maxSessions ≤ db.rows.length then ({ db with locked := false }, .inr (.created (.error .sessionCapacity)))
    else (db, .inl (.createInsert config label now))
  | .createInsert config label now =>
    if db.rows.any (·.sessionId == ch.uuid) then ({ db with locked := false }, .inr (.created (.error .integrity)))
    else ({ rows := db.rows ++ [P.newRow ch config label now], locked := false }, .inr (.created (.ok ch.uuid)))
  | .getSelect id =>
    match selectConfig db.rows id with
    | none => (db, .inr (.config (.ok none)))
    | some (stored, storedHash) =>
      let (plain, reencrypted) := P.readStored ch.nonce stored
      match P.text.loads plain with
      | none => (db, .inr (.config (.error (.value "invalid JSON".toList))))
      | some config => (db, .inl (.getUpdate id config reencrypted ch.now (hashOr storedHash (P.configHash config))))
  | .getUpdate id config reencrypted now hash =>
    ({ db with rows := update reencrypted now hash id db.rows }, .inr (.config (some <$> P.load config)))
  | .listSelect => (db, .inr (.sessions (selectAll db.rows)))
  | .deleteRow id =>
    ({ db with rows := Plexio.deleteRow id db.rows }, .inr (.deleted (db.rows.any (·.sessionId == id))))

/-- The store as an object that calls share. -/
def machine : Linearize.Machine (Op γ) (Outcome α) (Pc γ) Db P.Choice where
  start := start
  step := P.step

/-! ## One call at a time -/

/-- `create`, with the time it reads first and the id and nonce it draws last. -/
def create (first last : P.Choice) (config : γ) (label : Option Str) (rows : List Row) : Except Exc Str × List Row :=
  match selectByHash rows (P.configHash config) with
  | some id => (.ok id, touch first.now id rows)
  | none =>
    if P.maxSessions ≤ rows.length then (.error .sessionCapacity, rows)
    else if rows.any (·.sessionId == last.uuid) then (.error .integrity, rows)
    else (.ok last.uuid, rows ++ [P.newRow last config label first.now])

def getConfig (ch : P.Choice) (id : Str) (rows : List Row) : Except Exc (Option α) × List Row :=
  match selectConfig rows id with
  | none => (.ok none, rows)
  | some (stored, storedHash) =>
    let (plain, reencrypted) := P.readStored ch.nonce stored
    match P.text.loads plain with
    | none => (.error (.value "invalid JSON".toList), rows)
    | some config =>
      (some <$> P.load config, update reencrypted ch.now (hashOr storedHash (P.configHash config)) id rows)

/-- A call as one operation on the table. -/
def call (first last : P.Choice) (op : Op γ) (rows : List Row) : Outcome α × List Row :=
  match op with
  | .create config label => let r := P.create first last config label rows; (.created r.1, r.2)
  | .getConfig id => let r := P.getConfig first id rows; (.config r.1, r.2)
  | .list => (.sessions (selectAll rows), rows)
  | .delete id => (.deleted (rows.any (·.sessionId == id)), Plexio.deleteRow id rows)

/-- The statements of a call from `pc` on, with no other call between them. -/
def runAlone : List P.Choice → Db → Pc γ → Option (Outcome α × Db)
  | [], _, _ => none
  | ch :: chs, db, pc =>
    match P.step ch db pc with
    | (db', .inl pc') => runAlone chs db' pc'
    | (db', .inr r) => some (r, db')

/-- **The statements of a call, run without interruption, are the call.** -/
theorem runAlone_call (c₀ c₁ c₂ c₃ : P.Choice) (op : Op γ) (rows : List Row) :
    P.runAlone [c₀, c₁, c₂, c₃] ⟨rows, false⟩ (start op) =
      some ((P.call c₀ c₃ op rows).1, ⟨(P.call c₀ c₃ op rows).2, false⟩) := by
  cases op with
  | create config label =>
    simp only [start, runAlone, step, Bool.false_eq_true, if_false, call, create]
    cases selectByHash rows (P.configHash config) with
    | some id => rfl
    | none =>
      by_cases hcap : P.maxSessions ≤ rows.length
      · simp only [hcap, if_true]
      · by_cases hdup : (rows.any (·.sessionId == c₃.uuid)) = true
        · simp only [hcap, hdup, if_true, if_false]
        · simp only [hcap, hdup, if_false, Bool.false_eq_true]
  | getConfig id =>
    simp only [start, runAlone, step, call, getConfig]
    cases selectConfig rows id with
    | none => rfl
    | some stored =>
      simp only
      cases P.text.loads (P.readStored c₀.nonce stored.1).1 <;> rfl
  | list => rfl
  | delete id => rfl

section Sequence
open Linearize
variable {P} {ι : Type} [DecidableEq ι] {ops : ι → Op γ} {i : ι}

/-- A call that has returned takes no more steps. -/
theorem run_done {s : System Db (Pc γ) (Outcome α) ι} {r : Outcome α} (h : s.phase i = .done r) (chs : List P.Choice) :
    s.run P.machine ops (chs.map (Event.act i)) = s := by
  induction chs with
  | nil => rfl
  | cons ch chs ih =>
    have : s.step P.machine ops (.act i ch) = s := by
      simp only [System.step, stepCall, Event.who, h]
      rw [← h, Function.update_eq_self]
    rw [List.map_cons, System.run, List.foldl_cons, this]
    exact ih

/-- In a run, a call that goes on without interruption. -/
theorem run_alone {chs : List P.Choice} {s : System Db (Pc γ) (Outcome α) ι} {pc : Pc γ} {r : Outcome α} {db : Db}
    (hp : s.phase i = .running pc) (h : P.runAlone chs s.shared pc = some (r, db)) :
    s.run P.machine ops (chs.map (Event.act i)) = ⟨db, Function.update s.phase i (.done r)⟩ := by
  induction chs generalizing s pc with
  | nil => simp [runAlone] at h
  | cons ch chs ih =>
    rw [List.map_cons, System.run, List.foldl_cons]
    simp only [runAlone] at h
    split at h
    · next db' pc' hs =>
      have hstep : s.step P.machine ops (.act i ch) = ⟨db', Function.update s.phase i (.running pc')⟩ := by
        simp only [System.step, stepCall, Event.who, hp, machine, hs]
      rw [hstep]
      refine (ih (Function.update_self ..) h).trans ?_
      simp
    · next hs =>
      cases h
      have hstep : s.step P.machine ops (.act i ch) = ⟨db, Function.update s.phase i (.done r)⟩ := by
        simp only [System.step, stepCall, Event.who, hp, machine, hs]
      rw [hstep]
      exact run_done (r := r) (by simp) chs

/-- **A call invoked and run to its end before the next one begins** does what it does as one operation. -/
theorem run_call {rows : List Row} {s : System Db (Pc γ) (Outcome α) ι} (hs : s.shared = ⟨rows, false⟩)
    (hi : s.phase i = .idle) (c₀ c₁ c₂ c₃ : P.Choice) :
    s.run P.machine ops (.invoke i :: [c₀, c₁, c₂, c₃].map (Event.act i)) =
      ⟨⟨(P.call c₀ c₃ (ops i) rows).2, false⟩, Function.update s.phase i (.done (P.call c₀ c₃ (ops i) rows).1)⟩ := by
  have hinv : s.step P.machine ops (.invoke i) = ⟨⟨rows, false⟩, Function.update s.phase i (.running (start (ops i)))⟩ := by
    simp only [System.step, stepCall, Event.who, hi, machine, hs]
  rw [System.run, List.foldl_cons, hinv]
  refine (run_alone (Function.update_self ..) (P.runAlone_call c₀ c₁ c₂ c₃ (ops i) rows)).trans ?_
  simp

end Sequence

end SessionStore

end Plexio
