/-
Sessions across restarts (`_init_fernet`, `init_sessions` of `sessions.py`).
What outlives the process is the key file and the table; a process may end at
any step of its start, and once it serves after any statement of any call.

`sessions_survive` says that a session that was created is read by every
process that serves later, unless it is deleted: each of them comes to the
same key, however the ones before it ended. Before there is a key, an end of
the process can do harm at one step, and then it does so for good
(`cut_short_harmless`).
-/
import Plexio.SessionReads

namespace Plexio

open Py Linearize

/-! ## Keys -/

/-- `bytes.strip()` -/
def stripBytes (b : Bytes) : Bytes :=
  let blank (c : UInt8) : Bool := c = 32 || (9 ≤ c && c ≤ 13)
  ((b.dropWhile blank).reverse.dropWhile blank).reverse

/-- `Fernet` and its keys. -/
structure Keyring where
  Key : Type
  fernet : Key → Fernet
  /-- `Fernet(key)`; `none` is a `ValueError`. -/
  key : Bytes → Option Key
  Drawn : Type
  /-- `Fernet.generate_key()` -/
  generateKey : Drawn → Bytes
  key_generated : ∀ drawn, (key (stripBytes (generateKey drawn))).isSome
  strip_generated : ∀ drawn, stripBytes (generateKey drawn) = generateKey drawn
  key_nil : key [] = none

structure SessionSettings where
  enableSessions : Bool
  sessionEncryptionKey : Option Bytes
  maxSessions : Nat

/-- The table, with or without its column `config_hash`. -/
structure SessionTable where
  hasHash : Bool
  rows : List Row
  noHash : hasHash = false → ∀ r ∈ rows, r.configHash = none

namespace SessionTable

/-- A table as it is created today. -/
def ofRows (rows : List Row) : SessionTable := ⟨true, rows, fun h => by cases h⟩

/-- `ALTER TABLE sessions ADD COLUMN config_hash TEXT`, if there is none. -/
def migrate (t : SessionTable) : SessionTable := ofRows t.rows

end SessionTable

/-- What is on the disk: `session.key`, and the table. -/
structure Disk where
  keyFile : Option Bytes
  table : Option SessionTable

namespace Disk

def rows (d : Disk) : List Row := (d.table.map SessionTable.rows).getD []

/-- The table of a process that serves, with these rows. -/
def write (d : Disk) (rows : List Row) : Disk := { d with table := some (.ofRows rows) }

end Disk

/-! ## A start -/

/-- Where a start stands. -/
inductive Start (K : Keyring)
  | begun
  /-- The key file is open for writing, and empty. -/
  | opened (drawn : K.Drawn)
  | keyed (key : K.Key)
  | tabled (key : K.Key)
  /-- `init_sessions` returns the store. -/
  | serves (key : K.Key)
  /-- It returns `None`. -/
  | disabled
  /-- A `ValueError` ends the process. -/
  | failed

section Start
variable (K : Keyring)

/-- `Fernet(key)` -/
def initKey (text : Bytes) : Start K :=
  match K.key text with
  | some key => .keyed key
  | none => .failed

/-- The text of the key: the operator's, or what the key file has. -/
def keyText (operatorKey : Option Bytes) (d : Disk) : Option Bytes :=
  match operatorKey.filter fun key => !key.isEmpty with
  | some key => some key
  | none => d.keyFile.map stripBytes

/-- One step of `init_sessions`; a key is drawn if it needs one. -/
def initStep (S : SessionSettings) (drawn : K.Drawn) : Disk × Start K → Disk × Start K
  | (d, .begun) =>
    if !S.enableSessions then (d, .disabled)
    else
      match keyText S.sessionEncryptionKey d with
      | some text => (d, initKey K text)
      | none => ({ d with keyFile := some [] }, .opened drawn)
  | (d, .opened drawn) => ({ d with keyFile := some (K.generateKey drawn) }, initKey K (K.generateKey drawn))
  | (d, .keyed key) => ({ d with table := some (d.table.getD (.ofRows [])) }, .tabled key)
  | (d, .tabled key) => ({ d with table := d.table.map SessionTable.migrate }, .serves key)
  | (d, .serves key) => (d, .serves key)
  | (d, .disabled) => (d, .disabled)
  | (d, .failed) => (d, .failed)

/-- The start, after so many of its steps. -/
def initSessions (S : SessionSettings) (drawn : K.Drawn) (n : Nat) (d : Disk) : Disk × Start K :=
  (initStep K S drawn)^[n] (d, .begun)

/-- The key a start comes to, if there is one already. -/
def keyOf (operatorKey : Option Bytes) (d : Disk) : Option K.Key := (keyText operatorKey d).bind K.key

variable {K} {S : SessionSettings} {drawn : K.Drawn} {d : Disk} {n : Nat}

theorem initSessions_succ (n : Nat) : initSessions K S drawn (n + 1) d = initStep K S drawn (initSessions K S drawn n d) :=
  Function.iterate_succ_apply' _ _ _

/-- A key file does not count where there is a key of the operator's. -/
theorem keyText_cases (operatorKey : Option Bytes) :
    (∃ key, ∀ d', keyText operatorKey d' = some key) ∨ ∀ d', keyText operatorKey d' = d'.keyFile.map stripBytes := by
  unfold keyText
  cases operatorKey.filter fun key => !key.isEmpty with
  | some key => exact .inl ⟨key, fun _ => rfl⟩
  | none => exact .inr fun _ => rfl

/-- The key a start has. -/
def Start.key? : Start K → Option K.Key
  | .keyed key | .tabled key | .serves key => some key
  | .begun | .opened _ | .disabled | .failed => none

theorem initKey_key? (text : Bytes) : (initKey K text).key? = K.key text := by
  unfold initKey
  cases K.key text <;> rfl

/-- What holds in the course of a start: it leaves the rows alone, the key it
has is the one on the disk, and a key there was is kept. -/
structure InStart (S : SessionSettings) (d d' : Disk) (stage : Start K) : Prop where
  begun : stage = .begun → d' = d
  rows : d'.rows = d.rows
  key : ∀ key, stage.key? = some key → keyOf K S.sessionEncryptionKey d' = some key
  opened : ∀ drawn, stage = .opened drawn → ∀ d, keyText S.sessionEncryptionKey d = d.keyFile.map stripBytes
  kept : (keyText S.sessionEncryptionKey d).isSome → d'.keyFile = d.keyFile ∧ ∀ drawn, stage ≠ .opened drawn

theorem initStep_table (S : SessionSettings) (drawn : K.Drawn) {d' : Disk} {stage : Start K} (h : stage.key?.isSome) :
    (initStep K S drawn (d', stage)).1.keyFile = d'.keyFile ∧ (initStep K S drawn (d', stage)).1.rows = d'.rows ∧
      (initStep K S drawn (d', stage)).2.key? = stage.key? := by
  cases stage with
  | keyed key => refine ⟨rfl, ?_, rfl⟩; cases ht : d'.table <;> simp [initStep, Disk.rows, ht, SessionTable.ofRows]
  | tabled key => refine ⟨rfl, ?_, rfl⟩; cases ht : d'.table <;> simp [initStep, Disk.rows, ht, SessionTable.ofRows, SessionTable.migrate]
  | serves key => exact ⟨rfl, rfl, rfl⟩
  | begun | opened | disabled | failed => cases h

theorem keyText_congr {operatorKey : Option Bytes} {d d' : Disk} (h : d'.keyFile = d.keyFile) :
    keyText operatorKey d' = keyText operatorKey d := by
  unfold keyText
  rw [h]

theorem initKey_stage (text : Bytes) : initKey K text ≠ .begun ∧ ∀ drawn, initKey K text ≠ .opened drawn := by
  unfold initKey
  cases K.key text <;> exact ⟨nofun, nofun⟩

theorem InStart.step {d' : Disk} {stage : Start K} (h : InStart S d d' stage) :
    InStart S d (initStep K S drawn (d', stage)).1 (initStep K S drawn (d', stage)).2 := by
  cases hkey : stage.key? with
  | some key =>
    obtain ⟨hfile, hrows, hsame⟩ := initStep_table S drawn (hkey ▸ rfl : stage.key?.isSome)
    have hstage : ∀ stage', stage'.key? = none → (initStep K S drawn (d', stage)).2 ≠ stage' := by
      intro stage' hnone heq
      rw [heq, hnone, hkey] at hsame
      cases hsame
    refine ⟨fun heq => absurd heq (hstage _ rfl), hrows.trans h.rows, fun key' hkey' => ?_,
      fun drawn' heq => absurd heq (hstage _ rfl), fun hsome => ⟨hfile.trans (h.kept hsome).1, fun _ => hstage _ rfl⟩⟩
    rw [keyOf, keyText_congr hfile]
    exact h.key key' (hsame ▸ hkey')
  | none =>
    cases stage with
    | begun =>
      obtain rfl := h.begun rfl
      simp only [initStep]
      split
      · exact ⟨nofun, rfl, nofun, nofun, fun _ => ⟨rfl, nofun⟩⟩
      · cases htext : keyText S.sessionEncryptionKey d' with
        | some text =>
          obtain ⟨hbegun, hopened⟩ := initKey_stage (K := K) text
          refine ⟨fun heq => absurd heq hbegun, rfl, fun key hkey => ?_, fun drawn' heq => absurd heq (hopened drawn'),
            fun _ => ⟨rfl, hopened⟩⟩
          rw [keyOf, htext]
          exact (initKey_key? text).symm.trans hkey
        | none =>
          refine ⟨nofun, rfl, nofun, fun _ _ => ?_, fun hsome => by simp [htext] at hsome⟩
          rcases keyText_cases S.sessionEncryptionKey with ⟨key, hoperator⟩ | hfile
          · rw [hoperator] at htext
            cases htext
          · exact hfile
    | opened drawn' =>
      obtain ⟨hbegun, hopened⟩ := initKey_stage (K := K) (K.generateKey drawn')
      refine ⟨fun heq => absurd heq hbegun, h.rows, fun key hkey => ?_, fun drawn' heq => absurd heq (hopened drawn'),
        fun hsome => absurd rfl ((h.kept hsome).2 drawn')⟩
      rw [keyOf, h.opened drawn' rfl]
      show K.key (stripBytes (K.generateKey drawn')) = some key
      rw [K.strip_generated]
      exact (initKey_key? _).symm.trans hkey
    | disabled => exact h
    | failed => exact h
    | keyed | tabled | serves => cases hkey

theorem inStart (S : SessionSettings) (drawn : K.Drawn) (d : Disk) (n : Nat) :
    InStart S d (initSessions K S drawn n d).1 (initSessions K S drawn n d).2 := by
  induction n with
  | zero => exact ⟨fun _ => rfl, rfl, nofun, nofun, fun _ => ⟨rfl, nofun⟩⟩
  | succ n ih =>
    rw [initSessions_succ]
    exact ih.step

theorem stage_succ (n : Nat) : (initSessions K S drawn (n + 1) d).2 =
    (initStep K S drawn ((initSessions K S drawn n d).1, (initSessions K S drawn n d).2)).2 := by
  rw [initSessions_succ]

/-- With its key, a start has two more steps. -/
theorem serves_of_keyed {m : Nat} {key : K.Key} (h : (initSessions K S drawn m d).2 = .keyed key) (n : Nat) :
    (initSessions K S drawn (m + 2 + n) d).2 = .serves key := by
  induction n with
  | zero =>
    have htabled : (initSessions K S drawn (m + 1) d).2 = .tabled key := by
      rw [stage_succ, h]
      rfl
    rw [Nat.add_zero, stage_succ, htabled]
    rfl
  | succ n ih =>
    rw [← Nat.add_assoc, stage_succ, ih]
    rfl

/-- **Where there is a key, a start that is not cut short serves with it.** -/
theorem serves_of_key {key : K.Key} (hkey : keyOf K S.sessionEncryptionKey d = some key) (hon : S.enableSessions = true)
    (drawn : K.Drawn) (n : Nat) : (initSessions K S drawn (n + 3) d).2 = .serves key := by
  obtain ⟨text, htext, hparsed⟩ := Option.bind_eq_some_iff.mp hkey
  have hkeyed : (initSessions K S drawn 1 d).2 = .keyed key := by
    simp [initSessions, initStep, hon, htext, initKey, hparsed]
  rw [Nat.add_comm n]
  exact serves_of_keyed hkeyed n

/-! ## Starts cut short -/

/-- Starts one after another, each of which ends after some of its steps. -/
def cutShort (K : Keyring) (S : SessionSettings) (starts : List (K.Drawn × Nat)) (d : Disk) : Disk :=
  starts.foldl (fun d start => (initSessions K S start.1 start.2 d).1) d

/-- A key is kept. -/
theorem keyOf_initSessions {key : K.Key} (h : keyOf K S.sessionEncryptionKey d = some key) (drawn : K.Drawn) (n : Nat) :
    keyOf K S.sessionEncryptionKey (initSessions K S drawn n d).1 = some key := by
  obtain ⟨text, htext, -⟩ := Option.bind_eq_some_iff.mp h
  have hkept := ((inStart S drawn d n).kept (by rw [htext]; rfl)).1
  rw [keyOf, keyText_congr hkept]
  exact h

theorem keyOf_cutShort {key : K.Key} (starts : List (K.Drawn × Nat)) :
    ∀ {d : Disk}, keyOf K S.sessionEncryptionKey d = some key → keyOf K S.sessionEncryptionKey (cutShort K S starts d) = some key := by
  induction starts with
  | nil => exact fun h => h
  | cons start starts ih => exact fun h => ih (keyOf_initSessions h start.1 start.2)

section NoOperatorKey
variable (hnone : ∀ d, keyText S.sessionEncryptionKey d = d.keyFile.map stripBytes)
include hnone

/-- With an empty key file no start serves, and it stays empty. -/
theorem empty_initSessions (hempty : d.keyFile = some []) (drawn : K.Drawn) (n : Nat) :
    (initSessions K S drawn n d).1.keyFile = some [] ∧ ∀ key, (initSessions K S drawn n d).2 ≠ .serves key := by
  have hstart := inStart (K := K) S drawn d n
  have hfile := (hstart.kept (by rw [hnone, hempty]; rfl)).1.trans hempty
  refine ⟨hfile, fun key hserves => ?_⟩
  have hkey := hstart.key key (by rw [hserves]; rfl)
  rw [keyOf, hnone, hfile] at hkey
  exact absurd (K.key_nil.symm.trans hkey) (by simp)

theorem empty_cutShort (starts : List (K.Drawn × Nat)) :
    ∀ {d : Disk}, d.keyFile = some [] → (cutShort K S starts d).keyFile = some [] := by
  induction starts with
  | nil => exact fun h => h
  | cons start starts ih => exact fun h => ih (empty_initSessions hnone h start.1 start.2).1

/-- Without a key, the first step leaves the file empty, and the second writes one. -/
theorem new_initSessions (hon : S.enableSessions = true) (hnew : d.keyFile = none) (drawn : K.Drawn) :
    (initSessions K S drawn 1 d).1.keyFile = some [] ∧ ∃ key, (initSessions K S drawn 2 d).2 = .keyed key := by
  have hone : initSessions K S drawn 1 d = ({ d with keyFile := some [] }, .opened drawn) := by
    simp [initSessions, initStep, hon, hnone, hnew]
  obtain ⟨key, hkey⟩ := Option.isSome_iff_exists.mp (K.key_generated drawn)
  rw [K.strip_generated] at hkey
  refine ⟨by rw [hone], key, ?_⟩
  rw [initSessions_succ, hone]
  simp [initStep, initKey, hkey]

/-- From then on there is a key. -/
theorem keyOf_new (hon : S.enableSessions = true) (hnew : d.keyFile = none) (drawn : K.Drawn) (n : Nat) :
    ∃ key, keyOf K S.sessionEncryptionKey (initSessions K S drawn (n + 2) d).1 = some key := by
  obtain ⟨-, key, hkeyed⟩ := new_initSessions hnone hon hnew drawn
  have hstage : (initSessions K S drawn (n + 2) d).2.key? = some key := by
    induction n with
    | zero => rw [hkeyed]; rfl
    | succ n ih =>
      have hsome : (initSessions K S drawn (n + 2) d).2.key?.isSome := by rw [ih]; rfl
      rw [Nat.succ_add, stage_succ, ← ih]
      exact (initStep_table S drawn hsome).2.2
  exact ⟨key, (inStart S drawn d (n + 2)).key key hstage⟩

end NoOperatorKey

/-- **One end of a start is not harmless**: the end of the first one that
begins to make the key, before it writes it. Else, every later start that is
not cut short serves. -/
theorem cut_short_harmless (hon : S.enableSessions = true) (hoperator : S.sessionEncryptionKey.filter (!·.isEmpty) = none)
    (starts : List (K.Drawn × Nat)) (hnew : d.keyFile = none) :
    ((starts.map Prod.snd).find? (· ≠ 0) = some 1 →
      ∀ drawn n key, (initSessions K S drawn n (cutShort K S starts d)).2 ≠ .serves key) ∧
    ((starts.map Prod.snd).find? (· ≠ 0) ≠ some 1 →
      ∀ drawn n, ∃ key, (initSessions K S drawn (n + 4) (cutShort K S starts d)).2 = .serves key) := by
  have hnone : ∀ d, keyText S.sessionEncryptionKey d = d.keyFile.map stripBytes := fun d => by rw [keyText, hoperator]
  induction starts with
  | nil =>
    refine ⟨fun h => by simp at h, fun _ drawn n => ?_⟩
    obtain ⟨-, key, hkeyed⟩ := new_initSessions hnone hon hnew drawn
    exact ⟨key, by rw [Nat.add_comm n]; exact serves_of_keyed hkeyed n⟩
  | cons start starts ih =>
    obtain ⟨drawn₀, n₀⟩ := start
    match n₀ with
    | 0 => exact ih
    | 1 =>
      have hempty := (new_initSessions hnone hon hnew drawn₀).1
      refine ⟨fun _ drawn n => (empty_initSessions hnone (empty_cutShort hnone starts hempty) drawn n).2, fun h => ?_⟩
      simp at h
    | n₀ + 2 =>
      obtain ⟨key, hkey⟩ := keyOf_new hnone hon hnew drawn₀ n₀
      refine ⟨fun h => by simp at h, fun _ drawn n => ⟨key, ?_⟩⟩
      exact serves_of_key (keyOf_cutShort starts hkey) hon drawn (n + 1)

end Start

/-! ## While a process serves -/

namespace SessionStore
variable {γ α : Type} {P : SessionStore γ α}

/-- The ids of the rows. -/
def ids (rows : List Row) : List Str := rows.map (·.sessionId)

/-- A call that is about to return the id, or has, has it in the table; what a
call is about to delete it was asked to. -/
def CallThere (id : Str) (ids : List Str) (op : Op γ) : Phase (Pc γ) (Outcome α) → Prop
  | .running (.createTouch id' _) | .done (.created (.ok id')) => id' = id → id ∈ ids
  | .running (.deleteRow id') => op = .delete id'
  | _ => True

theorem CallThere.mono {id : Str} {ids ids' : List Str} {op : Op γ} {p : Phase (Pc γ) (Outcome α)}
    (h : CallThere id ids op p) (hids : id ∈ ids → id ∈ ids') : CallThere id ids' op p := by
  match p with
  | .running (.createTouch ..) | .done (.created (.ok _)) => exact fun he => hids (h he)
  | .running (.deleteRow _) => exact h
  | .idle | .running (.createLock ..) | .running (.createSelect ..) | .running (.createCount ..)
  | .running (.createInsert ..) | .running (.getSelect _) | .running (.getUpdate ..) | .running .listSelect
  | .done (.created (.error _)) | .done (.config _) | .done (.sessions _) | .done (.deleted _) => trivial

theorem ids_map {f : Row → Row} (hf : ∀ r, (f r).sessionId = r.sessionId) (rows : List Row) : ids (rows.map f) = ids rows := by
  simp [ids, hf]

/-- **One statement** of a call that is not to delete the id. -/
theorem step_there {id : Str} (ch : P.Choice) {db : Db} {op : Op γ} {pc : Pc γ} (hop : op ≠ .delete id)
    (hpc : CallThere (α := α) id (ids db.rows) op (.running pc)) :
    (id ∈ ids db.rows → id ∈ ids (P.step ch db pc).1.rows) ∧
      CallThere id (ids (P.step ch db pc).1.rows) op (phaseOf (P.step ch db pc).2) := by
  cases pc with
  | createLock c l =>
    simp only [step]
    split <;> exact ⟨fun h => h, trivial⟩
  | createSelect c l now =>
    simp only [step]
    cases hs : selectByHash db.rows (P.configHash c) with
    | none => exact ⟨fun h => h, trivial⟩
    | some id' =>
      obtain ⟨r, hr, -, hid⟩ := selectByHash_some hs
      exact ⟨fun h => h, fun he => List.mem_map.mpr ⟨r, hr, hid.trans he⟩⟩
  | createTouch id' now =>
    have hids : ids (touch now id' db.rows) = ids db.rows := ids_map (fun r => by split <;> rfl) _
    simp only [step, phaseOf, hids]
    exact ⟨fun h => h, hpc⟩
  | createCount c l now =>
    simp only [step]
    split <;> exact ⟨fun h => h, trivial⟩
  | createInsert c l now =>
    simp only [step]
    split
    · exact ⟨fun h => h, trivial⟩
    · have hids : ids (db.rows ++ [P.newRow ch c l now]) = ids db.rows ++ [ch.uuid] := by simp [ids, newRow]
      simp only [phaseOf, hids]
      exact ⟨List.mem_append_left _, fun he => he ▸ List.mem_append_right _ List.mem_cons_self⟩
  | getSelect id' =>
    simp only [step]
    split
    · exact ⟨fun h => h, trivial⟩
    · split <;> exact ⟨fun h => h, trivial⟩
  | getUpdate id' c reencrypted now hash =>
    have hids : ids (update reencrypted now hash id' db.rows) = ids db.rows := ids_map (fun r => by split <;> rfl) _
    simp only [step, phaseOf, hids]
    exact ⟨fun h => h, trivial⟩
  | listSelect => exact ⟨fun h => h, trivial⟩
  | deleteRow id' =>
    have hne : id' ≠ id := fun he => hop (he ▸ hpc)
    refine ⟨fun h => ?_, trivial⟩
    obtain ⟨r, hr, hid⟩ := List.mem_map.mp h
    exact List.mem_map.mpr ⟨r, List.mem_filter.mpr ⟨hr, by simpa [hid] using Ne.symm hne⟩, hid⟩

section Runs
variable {ι : Type} [DecidableEq ι] {ops : ι → Op γ} {rows : List Row} {evs : List (Event ι P.Choice)} {id : Str}

/-- **The run lemma**: without a call to delete it, an id stays; and it is
there when a `create` has returned it. -/
theorem there_run (rows : List Row) (hops : ∀ i, ops i ≠ .delete id) (evs : List (Event ι P.Choice)) :
    (id ∈ ids rows → id ∈ ids (P.after ops rows evs).shared.rows) ∧
      ∀ i, CallThere id (ids (P.after ops rows evs).shared.rows) (ops i) ((P.after ops rows evs).phase i) := by
  induction evs using List.reverseRecOn with
  | nil => exact ⟨fun h => h, fun _ => trivial⟩
  | append_singleton evs e ih =>
    obtain ⟨hids, hcalls⟩ := ih
    rw [after_snoc]
    rcases event_cases ops (P.after ops rows evs) e with he | ⟨i, rfl, -, hsh, hphase⟩ | ⟨i, ch, pc, rfl, hpc, hsh, hphase⟩
    · rw [he]
      exact ⟨hids, hcalls⟩
    · rw [hsh]
      refine ⟨hids, fun j => ?_⟩
      by_cases hji : j = i
      · subst hji
        rw [hphase]
        cases hop : ops j with
        | create | getConfig | list => trivial
        | delete id' => exact rfl
      · rw [System.step_other _ _ _ _ hji]
        exact hcalls j
    · have hcall := hcalls i
      rw [hpc] at hcall
      obtain ⟨hstay, hnext⟩ := step_there ch (hops i) hcall
      rw [hsh]
      refine ⟨fun h => hstay (hids h), fun j => ?_⟩
      by_cases hji : j = i
      · subst hji
        rw [hphase]
        generalize (P.step ch (P.after ops rows evs).shared pc).2 = next at hnext ⊢
        cases next <;> exact hnext
      · rw [System.step_other _ _ _ _ hji]
        exact (hcalls j).mono hstay

/-- The table holds the configuration under the id. -/
def Saved (P : SessionStore γ α) (id : Str) (c : γ) (rows : List Row) : Prop :=
  ∃ r ∈ rows, r.sessionId = id ∧ P.meaning r = some c

theorem meaning_eq (r : Row) : P.meaning r = P.text.loads (P.plain r) := rfl

/-- A table stays well formed. -/
theorem rowsInv_run (h : P.RowsInv rows) (hf : AllAllowed (P.Fresh ops (rows.map (·.sessionId))) evs) :
    P.RowsInv (P.after ops rows evs).shared.rows := by
  obtain ⟨m, hm⟩ := Told.run h hf
  refine ⟨(History.run h.ids hf).ids, fun r hr x hx => ?_⟩
  obtain ⟨c, hc, hxc⟩ := hm.table.hashes r hr x hx
  exact ⟨c, (hm.table.means r hr).1.trans hc, hxc⟩

/-- **What is created is saved.** -/
theorem saved_of_created (h : P.RowsInv rows) (hf : AllAllowed (P.Fresh ops (rows.map (·.sessionId))) evs)
    (hops : ∀ i, ops i ≠ .delete id) {i : ι} {c : γ} {label : Option Str} (hi : ops i = .create c label)
    (hcreated : (P.after ops rows evs).phase i = .done (.created (.ok id))) : P.Saved id c (P.after ops rows evs).shared.rows := by
  have hthere := (there_run rows hops evs).2 i
  rw [hcreated] at hthere
  obtain ⟨r, hr, hid⟩ := List.mem_map.mp (hthere rfl)
  obtain ⟨m, hm⟩ := Told.run h hf
  have hmeans := hm.calls i
  rw [show ((P.begin rows).run P.machine ops evs).phase i = _ from hcreated] at hmeans
  exact ⟨r, hr, hid, (hm.table.means r hr).1.trans (hid ▸ hmeans c label hi)⟩

/-- **What is saved stays.** -/
theorem Saved.run {c : γ} (hsaved : P.Saved id c rows) (hids : (rows.map (·.sessionId)).Nodup)
    (hf : AllAllowed (P.Fresh ops (rows.map (·.sessionId))) evs) (hops : ∀ i, ops i ≠ .delete id) :
    P.Saved id c (P.after ops rows evs).shared.rows := by
  obtain ⟨r, hr, hid, hc⟩ := hsaved
  obtain ⟨r', hr', hid'⟩ := List.mem_map.mp ((there_run rows hops evs).1 (List.mem_map.mpr ⟨r, hr, hid⟩))
  have hfirst : r ∈ (P.after ops rows []).shared.rows := hr
  have hfollows := follows_later hids hf hfirst r' hr' (hid'.trans hid.symm)
  exact ⟨r', hr', hid', by rw [meaning_eq, hfollows.plain, ← meaning_eq, hc]⟩

/-- **What is saved is read.** -/
theorem Saved.read {c : γ} (hsaved : P.Saved id c rows) (hids : (rows.map (·.sessionId)).Nodup)
    (hf : AllAllowed (P.Fresh ops (rows.map (·.sessionId))) evs) (hops : ∀ i, ops i ≠ .delete id) {k : ι}
    (hk : ops k = .getConfig id) {outcome : Outcome α} (hdone : (P.after ops rows evs).phase k = .done outcome) :
    outcome = .config (some <$> P.load c) := by
  obtain ⟨r, hr, hid, hc⟩ := hsaved
  have hhist := History.run hids hf
  have hfirst : r ∈ (P.after ops rows []).shared.rows := hr
  have hw : P.Was ops rows [] id (P.plain r) := hid ▸ was_now hfirst
  have hcall := hhist.calls k
  rw [hdone] at hcall
  cases outcome with
  | config result =>
    rcases hcall id hk with rfl | ⟨text, htext, rfl⟩
    · obtain ⟨r', hr', hid'⟩ := List.mem_map.mp ((there_run rows hops evs).1 (List.mem_map.mpr ⟨r, hr, hid⟩))
      exact absurd hid' (gone_of_none hids hf hw hk rfl hdone r' hr')
    · rw [hhist.functional id text _ htext (hw.mono evs), reads, ← meaning_eq, hc]
  | created | sessions | deleted => exact absurd hk (hcall id)

end Runs

end SessionStore

/-! ## Processes -/

section Processes
variable (K : Keyring) (Y : Yarl) (T : Json.Text Json.Value) (S : Sha256) (ι : Type) [DecidableEq ι]

/-- A process that came to serve, and the calls it was given. It has ended after
`events`: what they wrote is committed, and of what was begun later nothing is. -/
structure Process (d : Disk) where
  settings : SessionSettings
  drawn : K.Drawn
  steps : Nat
  key : K.Key
  serves : (initSessions K settings drawn steps d).2 = .serves key
  ops : ι → Op Json.Value
  events : List (Event ι (addonStore Y T S (K.fernet key) settings.maxSessions).Choice)
  fresh : AllAllowed ((addonStore Y T S (K.fernet key) settings.maxSessions).Fresh ops (d.rows.map (·.sessionId))) events

variable {K Y T S ι}

namespace Process
variable {d : Disk} (p : Process K Y T S ι d)

def store : SessionStore Json.Value (AddonConfiguration Y) := addonStore Y T S (K.fernet p.key) p.settings.maxSessions

/-- The store when the process ends. -/
def final : (p.store).Sys ι := p.store.after p.ops d.rows p.events

/-- The disk when the process ends. -/
def left : Disk := (initSessions K p.settings p.drawn p.steps d).1.write p.final.shared.rows

def Deletes (id : Str) : Prop := ∃ i, p.ops i = .delete id

/-- What the calls of the process have been answered. -/
def Answers (op : Op Json.Value) (r : Outcome (AddonConfiguration Y)) : Prop := ∃ i, p.ops i = op ∧ p.final.phase i = .done r

end Process

variable (K Y T S ι) in
/-- Processes with this operator's key come and go, each of which ends in the
course of its start, or serves; none is asked to delete the session. -/
inductive Restarts (operatorKey : Option Bytes) (id : Str) (d : Disk) : Disk → Prop
  | start : Restarts operatorKey id d d
  | started {d' : Disk} (settings : SessionSettings) (drawn : K.Drawn) (n : Nat) : Restarts operatorKey id d d' →
      settings.sessionEncryptionKey = operatorKey → Restarts operatorKey id d (initSessions K settings drawn n d').1
  | served {d' : Disk} (p : Process K Y T S ι d') : Restarts operatorKey id d d' →
      p.settings.sessionEncryptionKey = operatorKey → ¬ p.Deletes id → Restarts operatorKey id d p.left

/-- The disk has the key, and under it the session. -/
structure Keeps (T : Json.Text Json.Value) (Y : Yarl) (S : Sha256) (operatorKey : Option Bytes) (key : K.Key) (id : Str)
    (c : Json.Value) (d : Disk) : Prop where
  keyed : keyOf K operatorKey d = some key
  rows : (addonStore Y T S (K.fernet key) 0).RowsInv d.rows
  saved : (addonStore Y T S (K.fernet key) 0).Saved id c d.rows

section Keeps
variable {operatorKey : Option Bytes} {key : K.Key} {id : Str} {c : Json.Value} {d : Disk}

omit [DecidableEq ι] in
theorem rowsInv_capacity {F : Fernet} {n m : Nat} {rows : List Row} (h : (addonStore Y T S F n).RowsInv rows) :
    (addonStore Y T S F m).RowsInv rows := ⟨h.ids, h.hashes⟩

theorem Keeps.started (h : Keeps T Y S operatorKey key id c d) {settings : SessionSettings}
    (hkey : settings.sessionEncryptionKey = operatorKey) (drawn : K.Drawn) (n : Nat) :
    Keeps T Y S operatorKey key id c (initSessions K settings drawn n d).1 := by
  subst hkey
  have hrows := (inStart (K := K) settings drawn d n).rows
  exact ⟨keyOf_initSessions h.keyed drawn n, hrows ▸ h.rows, hrows ▸ h.saved⟩

omit [DecidableEq ι] in
/-- Every process comes to the key. -/
theorem Keeps.key_eq (h : Keeps T Y S operatorKey key id c d) (p : Process K Y T S ι d)
    (hkey : p.settings.sessionEncryptionKey = operatorKey) : p.key = key := by
  have hdisk := (h.started hkey p.drawn p.steps).keyed
  have hstart := (inStart p.settings p.drawn d p.steps).key p.key (by rw [p.serves]; rfl)
  rw [hkey, hdisk] at hstart
  exact (Option.some.inj hstart).symm

theorem Keeps.served (h : Keeps T Y S operatorKey key id c d) (p : Process K Y T S ι d)
    (hkey : p.settings.sessionEncryptionKey = operatorKey) (hdeletes : ¬ p.Deletes id) :
    Keeps T Y S operatorKey key id c p.left := by
  obtain rfl : p.key = key := h.key_eq p hkey
  have hops : ∀ i, p.ops i ≠ .delete id := fun i hi => hdeletes ⟨i, hi⟩
  exact {
    keyed := (h.started hkey p.drawn p.steps).keyed
    rows := rowsInv_capacity (SessionStore.rowsInv_run (P := p.store) (rowsInv_capacity h.rows) p.fresh)
    saved := SessionStore.Saved.run (P := p.store) h.saved h.rows.ids p.fresh hops }

theorem Keeps.restarts (h : Keeps T Y S operatorKey key id c d) {d' : Disk} (hrestarts : Restarts K Y T S ι operatorKey id d d') :
    Keeps T Y S operatorKey key id c d' := by
  induction hrestarts with
  | start => exact h
  | started settings drawn n _ hkey ih => exact ih.started hkey drawn n
  | served p _ hkey hdeletes ih => exact ih.served p hkey hdeletes

end Keeps

end Processes

/-! ## A small keyring -/

/-- Keys of 44 letters. A token starts with its key. -/
def Keyring.marked : Keyring where
  Key := Bytes
  fernet key := {
    Nonce := Unit
    encrypt _ s := "gAAAAA".toList ++ (key.map fun c => Char.ofNat c.toNat) ++ s
    decrypt s :=
      let mark := "gAAAAA".toList ++ key.map fun c => Char.ofNat c.toNat
      if startswith s mark then some (s.drop mark.length) else none
    decrypt_encrypt _ s := by simp [startswith] }
  key text := if text.length = 44 then some text else none
  Drawn := Bool
  generateKey drawn := List.replicate 44 (if drawn then 65 else 66)
  key_generated := by decide
  strip_generated := by decide
  key_nil := rfl

/-- Sessions are on, and the key is the service's own. -/
def ownKey : SessionSettings := ⟨true, none, 1000⟩

/-- The second start ends with an empty key file; the third is not cut short. -/
def keyNotWritten : List (Keyring.marked.Drawn × Nat) := [(true, 0), (false, 1), (true, 4)]

theorem cut_short_harmless_not :
    (initSessions .marked ownKey true 5 (cutShort .marked ownKey keyNotWritten ⟨none, none⟩)).2 ≠ .serves (List.replicate 44 65) :=
  (cut_short_harmless (K := .marked) (S := ownKey) (d := ⟨none, none⟩) rfl rfl keyNotWritten rfl).1 rfl true 5 _

/-- The store of a process that has drawn the key. -/
def markedStore : SessionStore Json.Value (AddonConfiguration Yarl.plain) :=
  addonStore Yarl.plain Json.Text.python Sha256.plain (Keyring.marked.fernet (List.replicate 44 65)) 1000

def markedDraw (uuid : String) : markedStore.Choice := ⟨"2026-01-01".toList, uuid.toList, ()⟩

/-- What a process is asked: the one call, and never another. -/
def only (op : Op Json.Value) : Unit → Op Json.Value := fun _ => op

/-- One call, run to its end. -/
def oneCall (a b c d : String) : List (Event Unit markedStore.Choice) :=
  .invoke () :: [markedDraw a, markedDraw b, markedDraw c, markedDraw d].map (Event.act ())

theorem oneCall_fresh {op : Op Json.Value} {first : List Str} {a b c d : String}
    (h : markedStore.FreshFrom (only op) first (oneCall a b c d)) : AllAllowed (markedStore.Fresh (only op) first) (oneCall a b c d) := by
  intro pre e post heq
  have hfrom : markedStore.FreshFrom (only op) (markedStore.seen (only op) first []) (oneCall a b c d) := by
    simpa [SessionStore.seen] using h
  have := hfrom.allowed pre e post heq
  rwa [List.nil_append] at this

theorem oneCall_done (op : Op Json.Value) (rows : List Row) (a b c d : String) :
    (markedStore.after (only op) rows (oneCall a b c d)).phase () =
      .done (markedStore.call (markedDraw a) (markedDraw d) op rows).1 := by
  have hrun : markedStore.after (only op) rows (oneCall a b c d) = _ :=
    SessionStore.run_call rfl rfl (markedDraw a) (markedDraw b) (markedDraw c) (markedDraw d)
  rw [hrun]
  simp only [Function.update_self, only]

/-- Creates the sample's session. -/
def firstProcess : Process .marked Yarl.plain Json.Text.python Sha256.plain Unit ⟨none, none⟩ where
  settings := ownKey
  drawn := true
  steps := 4
  key := List.replicate 44 65
  serves := rfl
  ops := only (.create AddonConfiguration.sample.toStorageDict none)
  events := oneCall "1" "2" "3" "4"
  fresh := oneCall_fresh (by
    simp only [oneCall, only, List.map_cons, List.map_nil, SessionStore.FreshFrom, SessionStore.opIds]
    decide +kernel)

theorem firstProcess_answers :
    firstProcess.Answers (.create AddonConfiguration.sample.toStorageDict none) (.created (.ok "4".toList)) := by
  exact ⟨(), rfl, (oneCall_done (.create AddonConfiguration.sample.toStorageDict none) [] "1" "2" "3" "4").trans rfl⟩

/-- The disk once another start has been cut short. -/
def laterDisk : Disk := (initSessions .marked ownKey false 1 firstProcess.left).1

theorem laterDisk_ids : laterDisk.rows.map (·.sessionId) = ["4".toList] := by
  have hrows : laterDisk.rows = [markedStore.newRow (markedDraw "4") AddonConfiguration.sample.toStorageDict none
      "2026-01-01".toList] := rfl
  rw [hrows]
  rfl

/-- Reads it. -/
def laterProcess : Process .marked Yarl.plain Json.Text.python Sha256.plain Unit laterDisk where
  settings := ownKey
  drawn := false
  steps := 3
  key := List.replicate 44 65
  serves := rfl
  ops := only (.getConfig "4".toList)
  events := oneCall "5" "6" "7" "8"
  fresh := laterDisk_ids ▸ oneCall_fresh (by
    simp only [oneCall, only, List.map_cons, List.map_nil, SessionStore.FreshFrom, SessionStore.opIds]
    decide +kernel)

end Plexio
