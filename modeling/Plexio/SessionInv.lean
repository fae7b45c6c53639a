/-
The invariant of the session store, over every interleaving of statements.

A row means a configuration: what its text decrypts to, or the text itself
(`meaning`). Ids are unique, a row's hash is the hash of what it means, and
no two rows mean the same (`TableInv`). What a call carries from one
statement to the next still holds of the table when it gets there (`PcInv`):
a `create` past its lookup meets no row of its configuration, a `get_config`
past its read finds the row, if it is still there, meaning what it meant.

The invariant survives every step but one: a `create` that looks up the
configuration of a row whose hash is still NULL does not find it (`Misses`).
-/
import Mathlib.Data.List.Nodup
import Plexio.Sessions

namespace Plexio

open Py Linearize

namespace SessionStore
variable {γ α : Type} (P : SessionStore γ α)

/-- What a stored text means. -/
def meaningOf (stored : Str) : Option γ := P.text.loads ((P.fernet.decrypt stored).getD stored)

/-- What a row means. -/
def meaning (r : Row) : Option γ := P.meaningOf r.configJson

theorem meaningOf_encrypt (n : P.fernet.Nonce) (s : Str) : P.meaningOf (P.fernet.encrypt n s) = P.text.loads s := by
  rw [meaningOf, P.fernet.decrypt_encrypt]; rfl

theorem loads_readStored (n : P.fernet.Nonce) (stored : Str) :
    P.text.loads (P.readStored n stored).1 = P.meaningOf stored := by
  simp only [readStored, meaningOf]
  cases P.fernet.decrypt stored <;> rfl

/-- Encrypting a plain row keeps its meaning. -/
theorem meaningOf_reencrypted {n : P.fernet.Nonce} {stored t : Str} (h : (P.readStored n stored).2 = some t) :
    P.meaningOf t = P.meaningOf stored := by
  simp only [readStored] at h
  cases hd : P.fernet.decrypt stored with
  | some plain => simp [hd] at h
  | none =>
    simp only [hd, Option.some.injEq] at h
    rw [← h, P.meaningOf_encrypt, meaningOf, hd]; rfl

theorem meaning_newRow (ch : P.Choice) (config : γ) (label : Option Str) (now : Str) :
    P.meaning (P.newRow ch config label now) = some config := by
  rw [meaning, newRow, P.meaningOf_encrypt, P.text.loads_dumps]

theorem configHash_inj {c d : γ} (h : P.configHash c = P.configHash d) : c = d :=
  P.text.canonical_inj (P.sha256.injective h)

theorem hashOr_configHash {stored : Option Str} {c : γ} (h : ∀ x, stored = some x → x = P.configHash c) :
    hashOr stored (P.configHash c) = P.configHash c := by
  simp only [hashOr]
  split
  · exact h _ rfl
  · rfl

/-! ## The table -/

/-- An id is a primary key, and a hash the hash of what its row means. -/
structure RowsInv (rows : List Row) : Prop where
  ids : (rows.map (·.sessionId)).Nodup
  hashes : ∀ r ∈ rows, ∀ x, r.configHash = some x → ∃ c, P.meaning r = some c ∧ x = P.configHash c

structure TableInv (rows : List Row) : Prop extends P.RowsInv rows where
  distinct : rows.Pairwise fun a b => ∀ c, P.meaning a = some c → P.meaning b ≠ some c

variable {P}

/-- No two rows share a hash. -/
theorem TableInv.hash_unique {rows : List Row} (h : P.TableInv rows) :
    rows.Pairwise fun a b => ∀ x, a.configHash = some x → b.configHash ≠ some x := by
  refine h.distinct.imp_of_mem fun {a b} ha hb hab x hax hbx => ?_
  obtain ⟨c, hc, rfl⟩ := h.hashes a ha x hax
  obtain ⟨d, hd, hx⟩ := h.hashes b hb _ hbx
  exact hab c hc (by rw [hd, P.configHash_inj hx])

/-- Rows changed in place, keeping ids and meanings. -/
theorem TableInv.map {rows : List Row} (h : P.TableInv rows) {f : Row → Row} (hid : ∀ r, (f r).sessionId = r.sessionId)
    (hm : ∀ r ∈ rows, P.meaning (f r) = P.meaning r)
    (hh : ∀ r ∈ rows, ∀ x, (f r).configHash = some x → ∃ c, P.meaning r = some c ∧ x = P.configHash c) :
    P.TableInv (rows.map f) where
  ids := by
    have : (rows.map f).map (·.sessionId) = rows.map (·.sessionId) := by simp [hid]
    rw [this]; exact h.ids
  hashes r hr x hx := by
    obtain ⟨s, hs, rfl⟩ := List.mem_map.mp hr
    obtain ⟨c, hc, hxc⟩ := hh s hs x hx
    exact ⟨c, by rw [hm s hs, hc], hxc⟩
  distinct := by
    rw [List.pairwise_map]
    refine h.distinct.imp_of_mem fun {a b} ha hb hab c hac => ?_
    rw [hm b hb]
    exact hab c (by rw [← hm a ha, hac])

theorem meaning_touch (now id : Str) (r : Row) :
    P.meaning (if r.sessionId = id then { r with lastUsedAt := some now } else r) = P.meaning r := by
  split <;> rfl

theorem TableInv.touch {rows : List Row} (h : P.TableInv rows) (now id : Str) : P.TableInv (touch now id rows) :=
  h.map (fun r => by split <;> rfl) (fun r _ => meaning_touch now id r)
    (fun r hr x hx => h.hashes r hr x (by revert hx; split <;> exact fun hx => hx))

/-- What `get_config` writes back keeps the row's meaning and hash right. -/
theorem TableInv.update {rows : List Row} (h : P.TableInv rows) {reencrypted : Option Str} {now id : Str} {c : γ}
    (hr : ∀ t, reencrypted = some t → P.meaningOf t = some c)
    (hid : ∀ r ∈ rows, r.sessionId = id → P.meaning r = some c) :
    P.TableInv (update reencrypted now (P.configHash c) id rows) := by
  refine h.map (fun r => by split <;> rfl) (fun r hmem => ?_) (fun r hmem x hx => ?_)
  · split
    · next he =>
      rw [hid r hmem he]
      cases hre : reencrypted with
      | none => exact hid r hmem he
      | some t => exact hr t hre
    · rfl
  · revert hx
    split
    · next he =>
      intro hx
      exact ⟨c, hid r hmem he, (Option.some.inj hx).symm⟩
    · exact h.hashes r hmem x

theorem TableInv.insert {rows : List Row} (h : P.TableInv rows) {ch : P.Choice} {c : γ} (label : Option Str) (now : Str)
    (hid : ∀ r ∈ rows, r.sessionId ≠ ch.uuid) (hnew : ∀ r ∈ rows, P.meaning r ≠ some c) :
    P.TableInv (rows ++ [P.newRow ch c label now]) where
  ids := by
    rw [List.map_append, List.nodup_append]
    refine ⟨h.ids, by simp, ?_⟩
    intro a ha b hb
    obtain ⟨r, hr, rfl⟩ := List.mem_map.mp ha
    simp only [List.map_cons, List.map_nil, List.mem_singleton, newRow] at hb
    exact hb ▸ hid r hr
  hashes r hr x hx := by
    rcases List.mem_append.mp hr with hr | hr
    · exact h.hashes r hr x hx
    · rw [List.mem_singleton.mp hr] at hx ⊢
      exact ⟨c, P.meaning_newRow ch c label now, (Option.some.inj hx).symm⟩
  distinct := by
    rw [List.pairwise_append]
    refine ⟨h.distinct, by simp, ?_⟩
    intro a ha b hb d hd
    rw [List.mem_singleton.mp hb, P.meaning_newRow]
    rintro he
    cases he
    exact hnew a ha hd

theorem TableInv.delete {rows : List Row} (h : P.TableInv rows) (id : Str) : P.TableInv (deleteRow id rows) where
  ids := h.ids.sublist (List.filter_sublist.map _)
  hashes r hr := h.hashes r (List.mem_of_mem_filter hr)
  distinct := h.distinct.sublist List.filter_sublist

/-! ## What a step does to the rows -/

variable (P)

/-- Every row but a new one was there, under its id, meaning what it means. -/
def Evolves (new : Option Row) (rows rows' : List Row) : Prop :=
  ∀ r' ∈ rows', (∃ r ∈ rows, r.sessionId = r'.sessionId ∧ P.meaning r = P.meaning r') ∨ new = some r'

variable {P}

theorem Evolves.refl (new : Option Row) (rows : List Row) : P.Evolves new rows rows :=
  fun r hr => .inl ⟨r, hr, rfl, rfl⟩

theorem Evolves.map {rows : List Row} {f : Row → Row} (hid : ∀ r, (f r).sessionId = r.sessionId)
    (hm : ∀ r ∈ rows, P.meaning (f r) = P.meaning r) : P.Evolves none rows (rows.map f) := by
  intro r' hr'
  obtain ⟨r, hr, rfl⟩ := List.mem_map.mp hr'
  exact .inl ⟨r, hr, (hid r).symm, (hm r hr).symm⟩

theorem Evolves.insert (rows : List Row) (r : Row) : P.Evolves (some r) rows (rows ++ [r]) := by
  intro r' hr'
  rcases List.mem_append.mp hr' with hr' | hr'
  · exact .inl ⟨r', hr', rfl, rfl⟩
  · exact .inr (by rw [List.mem_singleton.mp hr'])

theorem Evolves.delete (id : Str) (rows : List Row) : P.Evolves none rows (deleteRow id rows) :=
  fun r hr => .inl ⟨r, List.mem_of_mem_filter hr, rfl, rfl⟩

/-! ## What a call carries -/

/-- What must hold of the rows for a call to go on from `pc`; `seen` are the
ids in use so far. -/
def PcInv (P : SessionStore γ α) (seen : List Str) (rows : List Row) : Pc γ → Prop
  | .createCount config _ _ | .createInsert config _ _ => ∀ r ∈ rows, P.meaning r ≠ some config
  | .getSelect id => id ∈ seen
  | .getUpdate id config reencrypted _ hash => id ∈ seen ∧ hash = P.configHash config ∧
      (∀ t, reencrypted = some t → P.meaningOf t = some config) ∧
      ∀ r ∈ rows, r.sessionId = id → P.meaning r = some config
  | _ => True

/-- **A call's facts survive the others' steps**, also an insertion, as long
as the call is not itself in the locked part. -/
theorem PcInv.evolves {seen seen' : List Str} {rows rows' : List Row} {pc : Pc γ} {new : Option Row}
    (h : P.PcInv seen rows pc) (he : P.Evolves new rows rows') (hsub : seen ⊆ seen')
    (hnew : ∀ r, new = some r → r.sessionId ∉ seen ∧ pc.critical = false) : P.PcInv seen' rows' pc := by
  cases pc with
  | createCount config _ _ | createInsert config _ _ =>
    intro r' hr'
    rcases he r' hr' with ⟨r, hr, -, hm⟩ | hn
    · rw [← hm]; exact h r hr
    · exact absurd (hnew r' hn).2 (by simp [Pc.critical])
  | getSelect id => exact hsub h
  | getUpdate id config _ _ hash =>
    refine ⟨hsub h.1, h.2.1, h.2.2.1, fun r' hr' hid => ?_⟩
    rcases he r' hr' with ⟨r, hr, hrid, hm⟩ | hn
    · rw [← hm]; exact h.2.2.2 r hr (hrid.trans hid)
    · exact absurd (hid ▸ h.1) (hnew r' hn).1
  | createLock | createSelect | createTouch | listSelect | deleteRow => trivial

/-- The lookup of `create` misses: a row of this configuration is stored, its hash not filled in. -/
def Misses (P : SessionStore γ α) (rows : List Row) : Pc γ → Prop
  | .createSelect config _ _ => ∃ r ∈ rows, r.configHash = none ∧ P.meaning r = some config
  | _ => False

/-- What one statement does: to the rows, to the call's facts, and which row is new. -/
theorem step_inv {ch : P.Choice} {db : Db} {pc : Pc γ} {seen : List Str} (ht : P.TableInv db.rows)
    (hids : ∀ r ∈ db.rows, r.sessionId ∈ seen) (hpc : P.PcInv seen db.rows pc) (hfresh : ch.uuid ∉ seen)
    (hmiss : ¬ P.Misses db.rows pc) :
    P.TableInv (P.step ch db pc).1.rows ∧
      (∃ new, P.Evolves new db.rows (P.step ch db pc).1.rows ∧
        ∀ r, new = some r → r.sessionId = ch.uuid ∧ pc.critical = true) ∧
      ∀ pc', (P.step ch db pc).2 = .inl pc' → P.PcInv seen (P.step ch db pc).1.rows pc' := by
  have hfree : ∀ r ∈ db.rows, r.sessionId ≠ ch.uuid := fun r hr he => hfresh (he ▸ hids r hr)
  cases pc with
  | createLock config label =>
    simp only [step]
    split <;> exact ⟨ht, ⟨none, .refl _ _, by simp⟩, fun pc' h => by cases h; trivial⟩
  | createSelect config label now =>
    simp only [step]
    cases hs : selectByHash db.rows (P.configHash config) with
    | some id => exact ⟨ht, ⟨none, .refl _ _, by simp⟩, fun pc' h => by cases h; trivial⟩
    | none =>
      refine ⟨ht, ⟨none, .refl _ _, by simp⟩, fun pc' h => ?_⟩
      cases h
      -- No row has the hash, and none means the configuration without it.
      intro r hr hm
      cases hh : r.configHash with
      | none => exact hmiss ⟨r, hr, hh, hm⟩
      | some x =>
        obtain ⟨d, hd, rfl⟩ := ht.hashes r hr x hh
        rw [hm, Option.some.injEq] at hd
        exact selectByHash_none hs r hr (hd ▸ hh)
  | createTouch id now =>
    exact ⟨ht.touch now id, ⟨none, .map (fun r => by split <;> rfl) fun r _ => meaning_touch now id r, by simp⟩,
      fun pc' h => by cases h⟩
  | createCount config label now =>
    simp only [step]
    split
    · exact ⟨ht, ⟨none, .refl _ _, by simp⟩, fun pc' h => by cases h⟩
    · exact ⟨ht, ⟨none, .refl _ _, by simp⟩, fun pc' h => by cases h; exact hpc⟩
  | createInsert config label now =>
    simp only [step]
    split
    · exact ⟨ht, ⟨none, .refl _ _, by simp⟩, fun pc' h => by cases h⟩
    · exact ⟨ht.insert label now hfree hpc,
        ⟨_, .insert _ _, fun r hr => by cases hr; exact ⟨rfl, rfl⟩⟩, fun pc' h => by cases h⟩
  | getSelect id =>
    simp only [step]
    cases hs : selectConfig db.rows id with
    | none => exact ⟨ht, ⟨none, .refl _ _, by simp⟩, fun pc' h => by cases h⟩
    | some stored =>
      simp only
      cases hl : P.text.loads (P.readStored ch.nonce stored.1).1 with
      | none => exact ⟨ht, ⟨none, .refl _ _, by simp⟩, fun pc' h => by cases h⟩
      | some config =>
        refine ⟨ht, ⟨none, .refl _ _, by simp⟩, fun pc' h => ?_⟩
        cases h
        rw [P.loads_readStored] at hl
        obtain ⟨r, hmem, hrid, rfl⟩ := selectConfig_some hs
        refine ⟨hpc, P.hashOr_configHash fun x hx => ?_, fun t ht => (P.meaningOf_reencrypted ht).trans hl, ?_⟩
        · obtain ⟨d, hd, rfl⟩ := ht.hashes r hmem x hx
          rw [meaning, hl, Option.some.injEq] at hd
          rw [hd]
        · -- The id is unique, so any row under it is the one read.
          intro s hs hsid
          have : s = r := List.inj_on_of_nodup_map ht.ids hs hmem (hsid.trans hrid.symm)
          rw [this]; exact hl
  | getUpdate id config reencrypted now hash =>
    obtain ⟨-, rfl, hre, hid⟩ := hpc
    have hm : ∀ r ∈ db.rows, P.meaning (if r.sessionId = id then
        { r with configJson := reencrypted.getD r.configJson, lastUsedAt := some now,
                 configHash := some (P.configHash config) } else r) = P.meaning r := by
      intro r hr
      split
      · next he =>
        rw [hid r hr he]
        cases hre' : reencrypted with
        | none => exact hid r hr he
        | some t => exact hre t hre'
      · rfl
    exact ⟨ht.update hre hid, ⟨none, .map (fun r => by split <;> rfl) hm, by simp⟩, fun pc' h => by cases h⟩
  | listSelect => exact ⟨ht, ⟨none, .refl _ _, by simp⟩, fun pc' h => by cases h⟩
  | deleteRow id => exact ⟨ht.delete id, ⟨none, .delete id _, by simp⟩, fun pc' h => by cases h⟩

/-! ## The lock -/

/-- Only the holder of the lock is in the locked part, and only it lets go. -/
theorem step_lock (ch : P.Choice) {db : Db} {pc : Pc γ} (hl : pc.critical = true → db.locked = true) :
    (∀ pc', (P.step ch db pc).2 = .inl pc' → pc'.critical = true →
      (P.step ch db pc).1.locked = true ∧ (pc.critical = true ∨ db.locked = false)) ∧
      (db.locked = true → pc.critical = false → (P.step ch db pc).1.locked = true) := by
  cases pc with
  | createLock config label =>
    cases hdb : db.locked with
    | true => simp [step, hdb, Pc.critical]
    | false => simp [step, hdb]
  | createSelect config label now =>
    have := hl rfl
    simp only [step]
    split <;> simp [Pc.critical, this]
  | createCount config label now =>
    have := hl rfl
    simp only [step]
    split <;> simp [Pc.critical, this]
  | createInsert config label now =>
    simp only [step]
    split <;> simp [Pc.critical]
  | getSelect id =>
    simp only [step]
    cases selectConfig db.rows id with
    | none => simp [Pc.critical]
    | some stored => simp only; cases P.text.loads (P.readStored ch.nonce stored.1).1 <;> simp [Pc.critical]
  | createTouch | getUpdate | listSelect | deleteRow => simp [step, Pc.critical]

/-! ## Runs -/

section Runs
variable {ι : Type}

/-- The ids a call names. -/
def opIds : Op γ → List Str
  | .getConfig id | .delete id => [id]
  | _ => []

variable (P)

/-- The ids an event brings up. -/
def mentions (ops : ι → Op γ) : Event ι P.Choice → List Str
  | .invoke i => opIds (ops i)
  | .act _ ch => [ch.uuid]

/-- The ids in use: those of the first rows, those drawn and those asked for. -/
def seen (ops : ι → Op γ) (first : List Str) (past : List (Event ι P.Choice)) : List Str :=
  first ++ past.flatMap (P.mentions ops)

/-- `uuid4` draws an id that is not in use. -/
def Fresh (ops : ι → Op γ) (first : List Str) (past : List (Event ι P.Choice)) : Event ι P.Choice → Prop
  | .invoke _ => True
  | .act _ ch => ch.uuid ∉ P.seen ops first past

/-- Every draw of a run is fresh, read off the run one event at a time. -/
def FreshFrom (ops : ι → Op γ) : List Str → List (Event ι P.Choice) → Prop
  | _, [] => True
  | seen, .invoke i :: es => FreshFrom ops (seen ++ opIds (ops i)) es
  | seen, .act _ ch :: es => ch.uuid ∉ seen ∧ FreshFrom ops (seen ++ [ch.uuid]) es

variable {P} in
theorem FreshFrom.allowed {ops : ι → Op γ} {first : List Str} {evs : List (Event ι P.Choice)} :
    ∀ {past : List (Event ι P.Choice)}, P.FreshFrom ops (P.seen ops first past) evs →
      ∀ pre e post, evs = pre ++ e :: post → P.Fresh ops first (past ++ pre) e := by
  induction evs with
  | nil => intro past _ pre e post h; simp at h
  | cons e' evs ih =>
    intro past h pre e post heq
    have hnext : P.FreshFrom ops (P.seen ops first (past ++ [e'])) evs := by
      have hseen : P.seen ops first (past ++ [e']) = P.seen ops first past ++ P.mentions ops e' := by simp [seen]
      rw [hseen]
      cases e' with
      | invoke i => exact h
      | act i ch => exact h.2
    cases pre with
    | nil =>
      cases heq
      rw [List.append_nil]
      cases e' with
      | invoke i => trivial
      | act i ch => exact h.1
    | cons _ pre =>
      cases heq
      have := ih hnext pre e post rfl
      rwa [List.append_assoc] at this

/-- The store at work. -/
abbrev Sys (_ : SessionStore γ α) (ι : Type) := System Db (Pc γ) (Outcome α) ι

/-- The store with these rows and no call begun. -/
def begin (P : SessionStore γ α) (rows : List Row) : P.Sys ι := System.start ⟨rows, false⟩

structure Inv (ops : ι → Op γ) (first : List Str) (past : List (Event ι P.Choice)) (s : P.Sys ι) : Prop where
  table : P.TableInv s.shared.rows
  ids : ∀ r ∈ s.shared.rows, r.sessionId ∈ P.seen ops first past
  locked : ∀ i pc, s.phase i = .running pc → pc.critical = true → s.shared.locked = true
  alone : ∀ i j pi pj, s.phase i = .running pi → s.phase j = .running pj → pi.critical = true → pj.critical = true → i = j
  calls : ∀ i pc, s.phase i = .running pc → P.PcInv (P.seen ops first past) s.shared.rows pc

/-- The event makes a `create` miss a row. -/
def MissesAt (s : P.Sys ι) : Event ι P.Choice → Prop
  | .invoke _ => False
  | .act i _ => ∃ pc, s.phase i = .running pc ∧ P.Misses s.shared.rows pc

variable {P} {ops : ι → Op γ} {first : List Str} {past : List (Event ι P.Choice)} {s : P.Sys ι}

theorem seen_snoc (e : Event ι P.Choice) : P.seen ops first (past ++ [e]) = P.seen ops first past ++ P.mentions ops e := by
  simp [seen]

theorem Inv.start {rows : List Row} (h : P.TableInv rows) : P.Inv ops (rows.map (·.sessionId)) [] (P.begin rows) where
  table := h
  ids r hr := List.mem_append_left _ (List.mem_map_of_mem hr)
  locked i pc hi := by cases hi
  alone i j pi pj hi := by cases hi
  calls i pc hi := by cases hi

/-- The call an invocation starts carries nothing but its id. -/
theorem pcInv_start (op : Op γ) {seen : List Str} (h : opIds op ⊆ seen) (rows : List Row) :
    P.PcInv seen rows (start op) := by
  cases op with
  | getConfig id => exact h (by simp [opIds])
  | create | list | delete => trivial

theorem start_not_critical (op : Op γ) : (start op).critical = false := by cases op <;> rfl

variable [DecidableEq ι]

/-- What an event does at its call: nothing, a start, or a statement. -/
theorem event_cases (ops : ι → Op γ) (s : P.Sys ι) (e : Event ι P.Choice) :
    (s.step P.machine ops e = s) ∨
    (∃ i, e = .invoke i ∧ s.phase i = .idle ∧ (s.step P.machine ops e).shared = s.shared ∧
      (s.step P.machine ops e).phase i = .running (start (ops i))) ∨
    (∃ i ch pc, e = .act i ch ∧ s.phase i = .running pc ∧
      (s.step P.machine ops e).shared = (P.step ch s.shared pc).1 ∧
      (s.step P.machine ops e).phase i = match (P.step ch s.shared pc).2 with
        | .inl pc' => .running pc'
        | .inr r => .done r) := by
  cases e with
  | invoke i =>
    cases hp : s.phase i with
    | idle => exact .inr (.inl ⟨i, rfl, hp, by simp [System.step, stepCall, Event.who, hp],
        by simp [System.step, stepCall, Event.who, hp, machine]⟩)
    | running l | done r =>
      refine .inl ?_
      simp only [System.step, stepCall, Event.who, hp]
      rw [← hp, Function.update_eq_self]
  | act i ch =>
    cases hp : s.phase i with
    | running pc =>
      refine .inr (.inr ⟨i, ch, pc, rfl, hp, ?_, ?_⟩)
      · simp only [System.step, stepCall, Event.who, hp, machine]
        rcases P.step ch s.shared pc with ⟨db, pc' | r⟩ <;> rfl
      · simp only [System.step, stepCall, Event.who, hp, machine, Function.update_self]
        rcases P.step ch s.shared pc with ⟨db, pc' | r⟩ <;> rfl
    | idle | done r =>
      refine .inl ?_
      simp only [System.step, stepCall, Event.who, hp]
      rw [← hp, Function.update_eq_self]

/-- **The step lemma.** -/
theorem Inv.step (h : P.Inv ops first past s) {e : Event ι P.Choice} (hf : P.Fresh ops first past e)
    (hm : ¬ P.MissesAt s e) : P.Inv ops first (past ++ [e]) (s.step P.machine ops e) := by
  have hsub : P.seen ops first past ⊆ P.seen ops first (past ++ [e]) := by
    rw [seen_snoc]; exact List.subset_append_left _ _
  rcases event_cases ops s e with he | ⟨i, rfl, -, hsh, hphase⟩ | ⟨i, ch, pc, rfl, hpc, hsh, hphase⟩
  · rw [he]
    exact ⟨h.table, fun r hr => hsub (h.ids r hr), h.locked, h.alone,
      fun i pc hi => (h.calls i pc hi).evolves (.refl none _) hsub (by simp)⟩
  · -- An invocation leaves the table alone.
    have hother : ∀ j, j ≠ i → (s.step P.machine ops (.invoke i)).phase j = s.phase j := fun j hj =>
      System.step_other _ _ _ _ hj
    have hin : opIds (ops i) ⊆ P.seen ops first (past ++ [.invoke i]) := by
      rw [seen_snoc]; exact List.subset_append_right _ _
    have hnot : ∀ pj, (s.step P.machine ops (.invoke i)).phase i = .running pj → pj.critical = false := by
      intro pj hj
      rw [hphase] at hj
      cases hj
      exact start_not_critical _
    have hback : ∀ j pj, (s.step P.machine ops (.invoke i)).phase j = .running pj → pj.critical = true →
        s.phase j = .running pj := by
      intro j pj hj hc
      by_cases hji : j = i
      · subst hji; rw [hnot pj hj] at hc; cases hc
      · rw [hother j hji] at hj; exact hj
    refine ⟨hsh ▸ h.table, fun r hr => hsub (h.ids r (hsh ▸ hr)), ?_, ?_, ?_⟩
    · intro j pj hj hc
      rw [hsh]; exact h.locked j pj (hback j pj hj hc) hc
    · intro j k pj pk hj hk hcj hck
      exact h.alone j k pj pk (hback j pj hj hcj) (hback k pk hk hck) hcj hck
    · intro j pj hj
      rw [hsh]
      by_cases hji : j = i
      · subst hji
        rw [hphase] at hj
        cases hj
        exact pcInv_start _ hin _
      · rw [hother j hji] at hj
        exact (h.calls j pj hj).evolves (.refl none _) hsub (by simp)
  · -- A statement: its call's facts from `step_inv`, the others' because rows only evolve.
    have hother : ∀ j, j ≠ i → (s.step P.machine ops (.act i ch)).phase j = s.phase j := fun j hj =>
      System.step_other _ _ _ _ hj
    obtain ⟨htable, ⟨new, hev, hnew⟩, hnext⟩ := step_inv h.table h.ids (h.calls i pc hpc) hf
      fun hmiss => hm ⟨pc, hpc, hmiss⟩
    obtain ⟨hin, hout⟩ := step_lock ch (h.locked i pc hpc)
    have huuid : ch.uuid ∈ P.seen ops first (past ++ [.act i ch]) := by
      rw [seen_snoc]; exact List.mem_append_right _ (by simp [mentions])
    have hself : ∀ pj, (s.step P.machine ops (.act i ch)).phase i = .running pj → (P.step ch s.shared pc).2 = .inl pj := by
      intro pj hj
      rw [hphase] at hj
      split at hj
      · next pc' hs => cases hj; exact hs
      · cases hj
    refine ⟨hsh ▸ htable, ?_, ?_, ?_, ?_⟩
    · intro r hr
      rw [hsh] at hr
      rcases hev r hr with ⟨r₀, hr₀, hid, -⟩ | hn
      · exact hid ▸ hsub (h.ids r₀ hr₀)
      · exact (hnew r hn).1 ▸ huuid
    · intro j pj hj hc
      rw [hsh]
      by_cases hji : j = i
      · subst hji; exact (hin pj (hself pj hj) hc).1
      · rw [hother j hji] at hj
        cases hpcc : pc.critical with
        | true => exact absurd (h.alone j i pj pc hj hpc hc hpcc) hji
        | false => exact hout (h.locked j pj hj hc) hpcc
    · have key : ∀ j pj, j ≠ i → s.phase j = .running pj → pj.critical = true →
          ∀ pi, (P.step ch s.shared pc).2 = .inl pi → pi.critical = true → False := by
        intro j pj hji hj hcj pi hi hci
        rcases (hin pi hi hci).2 with hpcc | hfree
        · exact hji (h.alone j i pj pc hj hpc hcj hpcc)
        · rw [h.locked j pj hj hcj] at hfree; cases hfree
      intro j k pj pk hj hk hcj hck
      by_cases hji : j = i
      · by_cases hki : k = i
        · rw [hji, hki]
        · subst hji
          rw [hother k hki] at hk
          exact (key k pk hki hk hck pj (hself pj hj) hcj).elim
      · rw [hother j hji] at hj
        by_cases hki : k = i
        · subst hki
          exact (key j pj hji hj hcj pk (hself pk hk) hck).elim
        · rw [hother k hki] at hk
          exact h.alone j k pj pk hj hk hcj hck
    · intro j pj hj
      rw [hsh]
      by_cases hji : j = i
      · subst hji
        exact (hnext pj (hself pj hj)).evolves (.refl none _) hsub (by simp)
      · rw [hother j hji] at hj
        refine (h.calls j pj hj).evolves hev hsub fun r hr => ?_
        obtain ⟨hrid, hpcc⟩ := hnew r hr
        refine ⟨hrid ▸ hf, ?_⟩
        cases hpj : pj.critical with
        | false => rfl
        | true => exact absurd (h.alone j i pj pc hj hpc hpj hpcc) hji

/-- No `create` of the run misses a row. -/
def NoneMisses (P : SessionStore γ α) (ops : ι → Op γ) (s : P.Sys ι) (evs : List (Event ι P.Choice)) : Prop :=
  ∀ pre e post, evs = pre ++ e :: post → ¬ P.MissesAt (s.run P.machine ops pre) e

/-- **The run lemma.** -/
theorem Inv.run {rows : List Row} (h : P.TableInv rows) {evs : List (Event ι P.Choice)}
    (hf : AllAllowed (P.Fresh ops (rows.map (·.sessionId))) evs) (hm : P.NoneMisses ops (P.begin rows) evs) :
    P.Inv ops (rows.map (·.sessionId)) evs ((P.begin rows).run P.machine ops evs) := by
  induction evs using List.reverseRecOn with
  | nil => exact .start h
  | append_singleton evs e ih =>
    rw [System.run_snoc]
    refine Inv.step (ih hf.left ?_) hf.last (hm evs e [] (by simp))
    exact fun pre e' post he => hm pre e' (post ++ [e]) (by rw [he]; simp)

end Runs

end SessionStore

end Plexio
