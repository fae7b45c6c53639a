/-
Reading a session does not damage it.

A row's text is what it decrypts to, or the stored text itself (`plain`); no
statement but an insertion under a new id changes the text of an id. So the
ids and texts that rows have had in the course of a run (`Was`) are a
function, and what a `get_config` carries from its read to its write is the
text of the row it writes, whoever wrote it meanwhile: `get_config` writes
what it read, encrypted, and only after it could parse it (`reads_safely`).
-/
import Plexio.SessionMeaning
import Plexio.SessionUnique

namespace Plexio

open Py Linearize

namespace SessionStore
variable {γ α : Type} (P : SessionStore γ α)

/-! ## The text of a row -/

/-- What a stored text decrypts to, or itself. -/
def plainOf (stored : Str) : Str := (P.fernet.decrypt stored).getD stored

def plain (r : Row) : Str := P.plainOf r.configJson

/-- What `get_config` makes of a row's text. -/
def reads (text : Str) : Except Exc α :=
  match P.text.loads text with
  | none => .error (.value "invalid JSON".toList)
  | some config => P.load config

/-- Stored encrypted under the current key. -/
def Encrypted (r : Row) : Prop := (P.fernet.decrypt r.configJson).isSome

theorem readStored_fst (n : P.fernet.Nonce) (stored : Str) : (P.readStored n stored).1 = P.plainOf stored := by
  unfold readStored plainOf
  cases P.fernet.decrypt stored <;> rfl

/-- What is written back decrypts to what was read. -/
theorem decrypt_readStored {n : P.fernet.Nonce} {stored t : Str} (h : (P.readStored n stored).2 = some t) :
    P.fernet.decrypt t = some (P.plainOf stored) := by
  unfold readStored at h
  unfold plainOf
  cases hd : P.fernet.decrypt stored with
  | some plain => simp [hd] at h
  | none =>
    simp only [hd, Option.some.injEq] at h
    rw [← h, P.fernet.decrypt_encrypt]
    rfl

/-- The row after a statement: its id and its text are kept, and it stays encrypted. -/
structure Follows (r r' : Row) : Prop where
  id : r'.sessionId = r.sessionId
  plain : P.plain r' = P.plain r
  encrypted : P.Encrypted r → P.Encrypted r'

/-- The row after a statement of `get_config`: one whose text is no JSON is not touched. -/
structure Kept (r r' : Row) : Prop extends P.Follows r r' where
  identical : P.text.loads (P.plain r) = none → r' = r

variable {P}

theorem Follows.refl (r : Row) : P.Follows r r := ⟨rfl, rfl, fun h => h⟩

theorem Kept.refl (r : Row) : P.Kept r r := ⟨.refl r, fun _ => rfl⟩

/-! ## A statement -/

/-- What a call carries, where `W id text` says that a row with the id had the text. -/
def CallKept (P : SessionStore γ α) (W : Str → Str → Prop) (op : Op γ) : Phase (Pc γ) (Outcome α) → Prop
  | .idle => True
  | .running (.getSelect id) => op = .getConfig id
  | .running (.getUpdate id config reencrypted _ _) => op = .getConfig id ∧ ∃ text, W id text ∧
      P.text.loads text = some config ∧ ∀ t, reencrypted = some t → P.fernet.decrypt t = some text
  | .running _ => ∀ id, op ≠ .getConfig id
  | .done (.config r) => ∀ id, op = .getConfig id → r = .ok none ∨ ∃ text, W id text ∧ r = some <$> P.reads text
  | .done _ => ∀ id, op ≠ .getConfig id

theorem CallKept.mono {W W' : Str → Str → Prop} {op : Op γ} {p : Phase (Pc γ) (Outcome α)} (h : CallKept P W op p)
    (hW : ∀ id text, W id text → W' id text) : CallKept P W' op p := by
  match p with
  | .idle => trivial
  | .running (.getUpdate ..) =>
    obtain ⟨hop, text, hw, hrest⟩ := h
    exact ⟨hop, text, hW _ _ hw, hrest⟩
  | .running (.createLock ..) | .running (.createSelect ..) | .running (.createTouch ..) | .running (.createCount ..)
  | .running (.createInsert ..) | .running (.getSelect _) | .running .listSelect | .running (.deleteRow _) => exact h
  | .done (.config r) =>
    intro id hop
    rcases h id hop with hnone | ⟨text, hw, hr⟩
    · exact .inl hnone
    · exact .inr ⟨text, hW _ _ hw, hr⟩
  | .done (.created _) | .done (.sessions _) | .done (.deleted _) => exact h

/-- Whatever writes the row meanwhile, the write of `get_config` keeps its text. -/
theorem kept_update {W : Str → Str → Prop} {rows : List Row} (hrows : ∀ r ∈ rows, ∀ text, W r.sessionId text → P.plain r = text)
    {id now hash text : Str} {config : γ} {reencrypted : Option Str} (hw : W id text) (hl : P.text.loads text = some config)
    (hre : ∀ t, reencrypted = some t → P.fernet.decrypt t = some text) :
    List.Forall₂ P.Kept rows (update reencrypted now hash id rows) := by
  unfold update
  rw [List.forall₂_map_right_iff, List.forall₂_same]
  intro r hr
  split
  · next hid =>
    have hplain : P.plain r = text := hrows r hr text (hid ▸ hw)
    have hjson : P.text.loads (P.plain r) ≠ none := by rw [hplain, hl]; exact nofun
    refine ⟨⟨rfl, ?_, fun henc => ?_⟩, fun hnone => absurd hnone hjson⟩
    · show P.plainOf (reencrypted.getD r.configJson) = P.plainOf r.configJson
      cases hcase : reencrypted with
      | none => rfl
      | some t =>
        rw [Option.getD_some, plainOf, hre t hcase]
        exact hplain.symm
    · show (P.fernet.decrypt (reencrypted.getD r.configJson)).isSome
      cases hcase : reencrypted with
      | none => exact henc
      | some t =>
        rw [Option.getD_some, hre t hcase]
        rfl
  · exact .refl r

theorem follows_touch (now id : Str) (r : Row) :
    P.Follows r (if r.sessionId = id then { r with lastUsedAt := some now } else r) := by
  split
  · exact ⟨rfl, rfl, fun h => h⟩
  · exact .refl r

/-- **One statement**: a row of the new table follows one of the old, or is one inserted under the id drawn; a
statement of `get_config` keeps all rows; and the call's facts hold after it. -/
theorem step_kept {W W' : Str → Str → Prop} {ch : P.Choice} {db : Db} {op : Op γ} {pc : Pc γ}
    (hrows : ∀ r ∈ db.rows, ∀ text, W r.sessionId text → P.plain r = text) (hnow : ∀ r ∈ db.rows, W r.sessionId (P.plain r))
    (hW : ∀ id text, W id text → W' id text) (hpc : CallKept P W op (.running pc)) :
    (∃ new : Option Row, (∀ r, new = some r → r.sessionId = ch.uuid) ∧
      ∀ r' ∈ (P.step ch db pc).1.rows, (∃ r ∈ db.rows, P.Follows r r') ∨ new = some r') ∧
      (∀ id, op = .getConfig id → List.Forall₂ P.Kept db.rows (P.step ch db pc).1.rows) ∧
      CallKept P W' op (phaseOf (P.step ch db pc).2) := by
  have hsame : ∃ new : Option Row, (∀ r, new = some r → r.sessionId = ch.uuid) ∧
      ∀ r' ∈ db.rows, (∃ r ∈ db.rows, P.Follows r r') ∨ new = some r' :=
    ⟨none, by simp, fun r hr => .inl ⟨r, hr, .refl r⟩⟩
  cases pc with
  | createLock config label =>
    simp only [step]
    split <;> exact ⟨hsame, fun id hop => absurd hop (hpc id), hpc⟩
  | createSelect config label now =>
    simp only [step]
    split <;> exact ⟨hsame, fun id hop => absurd hop (hpc id), hpc⟩
  | createTouch id now =>
    refine ⟨⟨none, by simp, fun r' hr' => ?_⟩, fun id hop => absurd hop (hpc id), hpc⟩
    obtain ⟨r, hr, rfl⟩ := List.mem_map.mp hr'
    exact .inl ⟨r, hr, follows_touch now id r⟩
  | createCount config label now =>
    simp only [step]
    split <;> exact ⟨hsame, fun id hop => absurd hop (hpc id), hpc⟩
  | createInsert config label now =>
    simp only [step]
    split
    · exact ⟨hsame, fun id hop => absurd hop (hpc id), hpc⟩
    · refine ⟨⟨some (P.newRow ch config label now), fun r hr => ?_, fun r' hr' => ?_⟩, fun id hop => absurd hop (hpc id),
        hpc⟩
      · exact Option.some.inj hr ▸ rfl
      · rcases List.mem_append.mp hr' with hr' | hr'
        · exact .inl ⟨r', hr', .refl r'⟩
        · exact .inr (congrArg some (List.mem_singleton.mp hr').symm)
  | getSelect id =>
    have hkept : List.Forall₂ P.Kept db.rows db.rows := List.forall₂_same.mpr fun r _ => .refl r
    simp only [step]
    cases hs : selectConfig db.rows id with
    | none => exact ⟨hsame, fun _ _ => hkept, fun _ _ => .inl rfl⟩
    | some stored =>
      obtain ⟨r, hr, hrid, rfl⟩ := selectConfig_some hs
      have hw : W' id (P.plain r) := hrid ▸ hW _ _ (hnow r hr)
      simp only [readStored_fst]
      cases hl : P.text.loads (P.plainOf r.configJson) with
      | none =>
        refine ⟨hsame, fun _ _ => hkept, fun id' hop => .inr ⟨P.plain r, ?_, ?_⟩⟩
        · have hid : id = id' := Op.getConfig.inj (hpc.symm.trans hop)
          exact hid ▸ hw
        · rw [reads, plain, hl]
          rfl
      | some config => exact ⟨hsame, fun _ _ => hkept, hpc, P.plain r, hw, hl, fun t ht => P.decrypt_readStored ht⟩
  | getUpdate id config reencrypted now hash =>
    obtain ⟨hop, text, hw, hl, hre⟩ := hpc
    have hkept : List.Forall₂ P.Kept db.rows (update reencrypted now hash id db.rows) := kept_update hrows hw hl hre
    refine ⟨⟨none, by simp, fun r' hr' => ?_⟩, fun _ _ => hkept, fun id' hop' => .inr ⟨text, ?_, ?_⟩⟩
    · obtain ⟨r, hr, hrr'⟩ := Json.exists_of_forall₂ hkept r' hr'
      exact .inl ⟨r, hr, hrr'.toFollows⟩
    · have hid : id = id' := Op.getConfig.inj (hop.symm.trans hop')
      exact hid ▸ hW _ _ hw
    · rw [reads, hl]
  | listSelect => exact ⟨hsame, fun id hop => absurd hop (hpc id), hpc⟩
  | deleteRow id =>
    refine ⟨⟨none, by simp, fun r' hr' => .inl ⟨r', List.mem_of_mem_filter hr', .refl r'⟩⟩,
      fun id hop => absurd hop (hpc id), hpc⟩

/-- Ids stay unique: an insertion looks first. -/
theorem step_ids (ch : P.Choice) {db : Db} (pc : Pc γ) (h : (db.rows.map (·.sessionId)).Nodup) :
    ((P.step ch db pc).1.rows.map (·.sessionId)).Nodup := by
  have hmap : ∀ f : Row → Row, (∀ r, (f r).sessionId = r.sessionId) → ((db.rows.map f).map (·.sessionId)).Nodup := by
    intro f hf
    have : (db.rows.map f).map (·.sessionId) = db.rows.map (·.sessionId) := by simp [hf]
    rw [this]
    exact h
  cases pc with
  | createLock config label =>
    simp only [step]
    split <;> exact h
  | createSelect config label now =>
    simp only [step]
    split <;> exact h
  | createTouch id now => exact hmap _ fun r => by split <;> rfl
  | createCount config label now =>
    simp only [step]
    split <;> exact h
  | createInsert config label now =>
    simp only [step]
    split
    · exact h
    · next hany =>
      rw [List.map_append, List.nodup_append]
      refine ⟨h, by simp, fun id hid id' hid' => ?_⟩
      obtain ⟨r, hr, rfl⟩ := List.mem_map.mp hid
      have : id' = ch.uuid := List.mem_singleton.mp hid'
      rw [this]
      rintro heq
      exact hany (List.any_eq_true.mpr ⟨r, hr, by simpa using heq⟩)
  | getSelect id =>
    simp only [step]
    split
    · exact h
    · split <;> exact h
  | getUpdate id config reencrypted now hash => exact hmap _ fun r => by split <;> rfl
  | listSelect => exact h
  | deleteRow id => exact h.sublist (List.filter_sublist.map _)

/-! ## Runs -/

section Runs
variable {ι : Type} [DecidableEq ι]

variable (P) in
/-- The store after these events, from a table of these rows. -/
def after (ops : ι → Op γ) (rows : List Row) (evs : List (Event ι P.Choice)) : P.Sys ι := (P.begin rows).run P.machine ops evs

theorem after_snoc (ops : ι → Op γ) (rows : List Row) (evs : List (Event ι P.Choice)) (e : Event ι P.Choice) :
    P.after ops rows (evs ++ [e]) = (P.after ops rows evs).step P.machine ops e := System.run_snoc _ _ _ _ _

variable (P) in
/-- In the course of the run a row under this id had this text. -/
def Was (ops : ι → Op γ) (rows : List Row) (evs : List (Event ι P.Choice)) (id text : Str) : Prop :=
  ∃ past rest, evs = past ++ rest ∧
    ∃ r ∈ (P.after ops rows past).shared.rows, r.sessionId = id ∧ P.plain r = text

variable {ops : ι → Op γ} {rows : List Row} {evs : List (Event ι P.Choice)}

theorem was_now {r : Row} (hr : r ∈ (P.after ops rows evs).shared.rows) :
    P.Was ops rows evs r.sessionId (P.plain r) := ⟨evs, [], (List.append_nil _).symm, r, hr, rfl, rfl⟩

theorem Was.mono {id text : Str} (h : P.Was ops rows evs id text) (more : List (Event ι P.Choice)) :
    P.Was ops rows (evs ++ more) id text := by
  obtain ⟨past, rest, rfl, hr⟩ := h
  exact ⟨past, rest ++ more, by rw [List.append_assoc], hr⟩

theorem was_snoc {e : Event ι P.Choice} {id text : Str} (h : P.Was ops rows (evs ++ [e]) id text) :
    P.Was ops rows evs id text ∨
      ∃ r ∈ (P.after ops rows (evs ++ [e])).shared.rows, r.sessionId = id ∧ P.plain r = text := by
  obtain ⟨past, rest, heq, hr⟩ := h
  rcases List.eq_nil_or_concat rest with rfl | ⟨rest, e', rfl⟩
  · rw [List.append_nil] at heq
    exact .inr (heq ▸ hr)
  · rw [List.concat_eq_append, ← List.append_assoc] at heq
    exact .inl ⟨past, rest, (List.append_inj' heq rfl).1, hr⟩

variable (P) in
/-- What holds after every run: an id has one text, and calls carry what was. -/
structure History (ops : ι → Op γ) (rows : List Row) (evs : List (Event ι P.Choice)) : Prop where
  ids : ((P.after ops rows evs).shared.rows.map (·.sessionId)).Nodup
  functional : ∀ id t u, P.Was ops rows evs id t → P.Was ops rows evs id u → t = u
  used : ∀ id t, P.Was ops rows evs id t → id ∈ P.seen ops (rows.map (·.sessionId)) evs
  calls : ∀ i, CallKept P (P.Was ops rows evs) (ops i) ((P.after ops rows evs).phase i)

omit [DecidableEq ι] in
theorem inj_of_ids {rows : List Row} (h : (rows.map (·.sessionId)).Nodup) {r s : Row} (hr : r ∈ rows) (hs : s ∈ rows)
    (he : r.sessionId = s.sessionId) : r = s := List.inj_on_of_nodup_map h hr hs he

theorem History.start (hids : (rows.map (·.sessionId)).Nodup) : P.History ops rows [] where
  ids := hids
  functional id t u ht hu := by
    obtain ⟨past, rest, heq, r, hr, rfl, rfl⟩ := ht
    obtain ⟨past', rest', heq', s, hs, hid, rfl⟩ := hu
    obtain ⟨rfl, rfl⟩ := List.append_eq_nil_iff.mp heq.symm
    obtain ⟨rfl, rfl⟩ := List.append_eq_nil_iff.mp heq'.symm
    rw [inj_of_ids hids hs hr hid]
  used id t ht := by
    obtain ⟨past, rest, heq, r, hr, rfl, -⟩ := ht
    obtain ⟨rfl, rfl⟩ := List.append_eq_nil_iff.mp heq.symm
    exact List.mem_append_left _ (List.mem_map_of_mem hr)
  calls i := trivial

/-- A run goes on: its texts are the ones there were, and those of a row inserted under a fresh id. -/
theorem History.extend (h : P.History ops rows evs) {e : Event ι P.Choice} {new : Option Row}
    (hrows : ∀ r' ∈ (P.after ops rows (evs ++ [e])).shared.rows,
      (∃ r ∈ (P.after ops rows evs).shared.rows, P.Follows r r') ∨ new = some r')
    (hnew : ∀ r, new = some r → r.sessionId ∉ P.seen ops (rows.map (·.sessionId)) evs ∧ r.sessionId ∈ P.mentions ops e) :
    (∀ id t u, P.Was ops rows (evs ++ [e]) id t → P.Was ops rows (evs ++ [e]) id u → t = u) ∧
      ∀ id t, P.Was ops rows (evs ++ [e]) id t → id ∈ P.seen ops (rows.map (·.sessionId)) (evs ++ [e]) := by
  have hcases : ∀ id t, P.Was ops rows (evs ++ [e]) id t →
      P.Was ops rows evs id t ∨ ∃ r, new = some r ∧ r.sessionId = id ∧ P.plain r = t := by
    intro id t ht
    rcases was_snoc ht with ht | ⟨r', hr', rfl, rfl⟩
    · exact .inl ht
    · rcases hrows r' hr' with ⟨r, hr, hfollows⟩ | hr'new
      · rw [hfollows.id, hfollows.plain]
        exact .inl (was_now hr)
      · exact .inr ⟨r', hr'new, rfl, rfl⟩
  have hfresh : ∀ id t, P.Was ops rows evs id t → ∀ r, new = some r → r.sessionId ≠ id :=
    fun id t ht r hr he => (hnew r hr).1 (he ▸ h.used id t ht)
  constructor
  · intro id t u ht hu
    rcases hcases id t ht with ht | ⟨r, hr, hid, rfl⟩
    · rcases hcases id u hu with hu | ⟨s, hs, hid, -⟩
      · exact h.functional id t u ht hu
      · exact absurd hid (hfresh id t ht s hs)
    · rcases hcases id u hu with hu | ⟨s, hs, -, rfl⟩
      · exact absurd hid (hfresh id u hu r hr)
      · rw [Option.some.inj (hr.symm.trans hs)]
  · intro id t ht
    rw [seen_snoc]
    rcases hcases id t ht with ht | ⟨r, hr, rfl, -⟩
    · exact List.mem_append_left _ (h.used id t ht)
    · exact List.mem_append_right _ (hnew r hr).2

/-- What an event does to the rows, and at which call. -/
theorem History.event (h : P.History ops rows evs) {e : Event ι P.Choice}
    (hf : P.Fresh ops (rows.map (·.sessionId)) evs e) :
    (∃ new : Option Row, (∀ r, new = some r → r.sessionId ∉ P.seen ops (rows.map (·.sessionId)) evs ∧
        r.sessionId ∈ P.mentions ops e) ∧
      ∀ r' ∈ (P.after ops rows (evs ++ [e])).shared.rows,
        (∃ r ∈ (P.after ops rows evs).shared.rows, P.Follows r r') ∨ new = some r') ∧
      (∀ id, ops e.who = .getConfig id → List.Forall₂ P.Kept (P.after ops rows evs).shared.rows
        (P.after ops rows (evs ++ [e])).shared.rows) ∧
      CallKept P (P.Was ops rows (evs ++ [e])) (ops e.who) ((P.after ops rows (evs ++ [e])).phase e.who) ∧
      ((P.after ops rows (evs ++ [e])).shared.rows.map (·.sessionId)).Nodup := by
  have hmono : ∀ id text, P.Was ops rows evs id text → P.Was ops rows (evs ++ [e]) id text := fun _ _ hw => hw.mono [e]
  have hstep := after_snoc ops rows evs e
  have hcall := h.calls e.who
  rcases event_cases ops (P.after ops rows evs) e with he | ⟨i, rfl, -, hsh, hphase⟩ |
    ⟨i, ch, pc, rfl, hpc, hsh, hphase⟩
  · rw [he] at hstep
    rw [hstep]
    exact ⟨⟨none, by simp, fun r hr => .inl ⟨r, hr, .refl r⟩⟩, fun _ _ => List.forall₂_same.mpr fun r _ => .refl r,
      hcall.mono hmono, h.ids⟩
  · rw [hstep, hsh]
    refine ⟨⟨none, by simp, fun r hr => .inl ⟨r, hr, .refl r⟩⟩, fun _ _ => List.forall₂_same.mpr fun r _ => .refl r, ?_,
      h.ids⟩
    show CallKept P _ (ops i) (System.phase _ i)
    rw [hphase]
    cases ops i with
    | getConfig id => exact rfl
    | create | list | delete => exact nofun
  · have hcall : CallKept P _ (ops i) (System.phase _ i) := hcall
    rw [hpc] at hcall
    rw [hstep, hsh]
    obtain ⟨⟨new, hnew, hrows⟩, hkept, hnext⟩ : (∃ new : Option Row, (∀ r, new = some r → r.sessionId = ch.uuid) ∧ _) ∧ _ ∧ _ :=
      step_kept (fun r hr text hw => h.functional _ _ _ (was_now hr) hw) (fun r hr => was_now hr) hmono hcall
    refine ⟨⟨new, fun r hr => ?_, hrows⟩, hkept, ?_, step_ids ch pc h.ids⟩
    · rw [hnew r hr]
      exact ⟨hf, by simp [mentions]⟩
    · show CallKept P _ (ops i) (System.phase _ i)
      rw [hphase]
      generalize (P.step ch (P.after ops rows evs).shared pc).2 = next at hnext ⊢
      cases next <;> exact hnext

/-- **The step lemma.** -/
theorem History.step (h : P.History ops rows evs) {e : Event ι P.Choice}
    (hf : P.Fresh ops (rows.map (·.sessionId)) evs e) : P.History ops rows (evs ++ [e]) := by
  obtain ⟨⟨new, hnew, hrows⟩, -, hcall, hids⟩ := h.event hf
  obtain ⟨hfunctional, hused⟩ := h.extend hrows hnew
  refine ⟨hids, hfunctional, hused, fun i => ?_⟩
  by_cases hi : i = e.who
  · rw [hi]
    exact hcall
  · rw [after_snoc, System.step_other _ _ _ _ hi]
    exact (h.calls i).mono fun _ _ hw => hw.mono [e]

/-- **The run lemma.** -/
theorem History.run (hids : (rows.map (·.sessionId)).Nodup) {evs : List (Event ι P.Choice)}
    (hf : AllAllowed (P.Fresh ops (rows.map (·.sessionId))) evs) : P.History ops rows evs := by
  induction evs using List.reverseRecOn with
  | nil => exact .start hids
  | append_singleton evs e ih => exact (ih hf.left).step hf.last

/-! ## Reading is safe -/

/-- A row under the same id later in the run follows the row. -/
theorem follows_later {past rest : List (Event ι P.Choice)} (hids : (rows.map (·.sessionId)).Nodup)
    (hf : AllAllowed (P.Fresh ops (rows.map (·.sessionId))) (past ++ rest)) {r : Row}
    (hr : r ∈ (P.after ops rows past).shared.rows) :
    ∀ r' ∈ (P.after ops rows (past ++ rest)).shared.rows, r'.sessionId = r.sessionId → P.Follows r r' := by
  induction rest using List.reverseRecOn with
  | nil =>
    rw [List.append_nil] at hf ⊢
    intro r' hr' hid
    rw [inj_of_ids (History.run hids hf).ids hr' hr hid]
    exact .refl r
  | append_singleton rest e ih =>
    rw [← List.append_assoc] at hf ⊢
    intro r' hr' hid
    have hhist := History.run hids hf.left
    obtain ⟨⟨new, hnew, hrows⟩, -⟩ := hhist.event hf.last
    rcases hrows r' hr' with ⟨s, hs, hfollows⟩ | hr'new
    · have hrs := ih hf.left s hs (hfollows.id.symm.trans hid)
      exact ⟨hid, hfollows.plain.trans hrs.plain, fun h => hfollows.encrypted (hrs.encrypted h)⟩
    · exact absurd (hhist.used _ _ ((was_now hr).mono rest)) (hid ▸ (hnew r' hr'new).1)

/-- Once an id has been in use, a later `get_config` that finds no row under it leaves none: the row is gone for good. -/
theorem gone_of_none {past rest : List (Event ι P.Choice)} (hids : (rows.map (·.sessionId)).Nodup)
    (hf : AllAllowed (P.Fresh ops (rows.map (·.sessionId))) (past ++ rest)) {id text : Str} {k : ι}
    (hw : P.Was ops rows past id text) (hk : ops k = .getConfig id) (hidle : (P.after ops rows past).phase k = .idle) :
    (P.after ops rows (past ++ rest)).phase k = .done (.config (.ok none)) →
      ∀ r ∈ (P.after ops rows (past ++ rest)).shared.rows, r.sessionId ≠ id := by
  induction rest using List.reverseRecOn with
  | nil =>
    rw [List.append_nil, hidle]
    exact nofun
  | append_singleton rest e ih =>
    rw [← List.append_assoc] at hf ⊢
    have hhist := History.run hids hf.left
    obtain ⟨⟨new, hnew, hrows⟩, -⟩ := hhist.event hf.last
    -- What is not there before the event is not there after it: a new row's id is fresh.
    have hstay : (∀ r ∈ (P.after ops rows (past ++ rest)).shared.rows, r.sessionId ≠ id) →
        ∀ r ∈ (P.after ops rows (past ++ rest ++ [e])).shared.rows, r.sessionId ≠ id := by
      intro habsent r hr hid
      rcases hrows r hr with ⟨s, hs, hfollows⟩ | hrnew
      · exact habsent s hs (hfollows.id.symm.trans hid)
      · exact (hnew r hrnew).1 (hid ▸ hhist.used _ _ (hw.mono rest))
    intro hdone
    by_cases hke : k = e.who
    · have hcall := hhist.calls k
      rw [hk] at hcall
      rw [after_snoc] at hdone
      rcases event_cases ops (P.after ops rows (past ++ rest)) e with he | ⟨i, rfl, -, -, hphase⟩ |
        ⟨i, ch, pc, rfl, hpc, -, hphase⟩
      · rw [he] at hdone
        exact hstay (ih hf.left hdone)
      · rw [show k = i from hke, hphase] at hdone
        cases hdone
      · obtain rfl : k = i := hke
        rw [hphase] at hdone
        rw [hpc] at hcall
        refine hstay ?_
        cases pc with
        | getSelect id' =>
          cases hcall
          simp only [step] at hdone
          cases hs : selectConfig (P.after ops rows (past ++ rest)).shared.rows id with
          | none =>
            exact selectConfig_none hs
          | some stored =>
            rw [hs] at hdone
            dsimp only at hdone
            split at hdone
            · cases hdone
            · next hout =>
              split at hout
              · cases hout; cases hdone
              · cases hout
        | getUpdate id' config reencrypted now hash =>
          simp only [step] at hdone
          cases hl : P.load config with
          | error e => rw [hl] at hdone; cases hdone
          | ok d => rw [hl] at hdone; cases hdone
        | createLock | createSelect | createTouch | createCount | createInsert | listSelect | deleteRow =>
          exact absurd rfl (hcall id)
    · rw [after_snoc, System.step_other _ _ _ _ hke] at hdone
      exact hstay (ih hf.left hdone)

variable (P) in
/-- What reading does to the table and what it returns, in a run. -/
structure ReadsSafely (ops : ι → Op γ) (rows : List Row) (evs : List (Event ι P.Choice)) : Prop where
  /-- A statement of `get_config` leaves every row there with its text, and untouched if that is no JSON. -/
  kept : ∀ past i ch rest id, evs = past ++ .act i ch :: rest → ops i = .getConfig id →
    List.Forall₂ P.Kept (P.after ops rows past).shared.rows (P.after ops rows (past ++ [.act i ch])).shared.rows
  /-- What it returns or raises is what the one text of the id makes it, unless it found no row. -/
  result : ∀ i id r, ops i = .getConfig id → (P.after ops rows evs).phase i = .done (.config r) →
    r = .ok none ∨ ∃ text, P.Was ops rows evs id text ∧ (∀ u, P.Was ops rows evs id u → u = text) ∧ r = some <$> P.reads text
  /-- It finds a row that is there from before its start to its end. -/
  found : ∀ past rest k id row o, evs = past ++ rest → ops k = .getConfig id →
    row ∈ (P.after ops rows past).shared.rows → row.sessionId = id → (P.after ops rows past).phase k = .idle →
    (∃ row' ∈ (P.after ops rows evs).shared.rows, row'.sessionId = id) → (P.after ops rows evs).phase k = .done o →
    o = .config (some <$> P.reads (P.plain row))
  /-- What one returned, a later one returns, while the row exists. -/
  again : ∀ past rest i k id d o, evs = past ++ rest → ops i = .getConfig id → ops k = .getConfig id →
    (P.after ops rows past).phase i = .done (.config (.ok (some d))) → (P.after ops rows past).phase k = .idle →
    (∃ row ∈ (P.after ops rows evs).shared.rows, row.sessionId = id) → (P.after ops rows evs).phase k = .done o →
    o = .config (.ok (some d))
  /-- An encrypted row stays encrypted, whatever the calls. -/
  encrypted : ∀ past rest, evs = past ++ rest → ∀ r ∈ (P.after ops rows past).shared.rows, P.Encrypted r →
    ∀ r' ∈ (P.after ops rows evs).shared.rows, r'.sessionId = r.sessionId → P.Encrypted r'

/-- A later call that ends while the row exists has the result that its text makes it. -/
theorem result_of_was {past rest : List (Event ι P.Choice)} (hids : (rows.map (·.sessionId)).Nodup)
    (hf : AllAllowed (P.Fresh ops (rows.map (·.sessionId))) (past ++ rest)) {id text : Str} {k : ι} {o : Outcome α}
    (hw : P.Was ops rows past id text) (hk : ops k = .getConfig id) (hidle : (P.after ops rows past).phase k = .idle)
    (hthere : ∃ row ∈ (P.after ops rows (past ++ rest)).shared.rows, row.sessionId = id)
    (ho : (P.after ops rows (past ++ rest)).phase k = .done o) : o = .config (some <$> P.reads text) := by
  have hhist := History.run hids hf
  have hcall := hhist.calls k
  rw [ho, hk] at hcall
  cases o with
  | created | sessions | deleted => exact absurd rfl (hcall id)
  | config r =>
    rcases hcall id rfl with rfl | ⟨u, hu, rfl⟩
    · obtain ⟨row, hrow, hid⟩ := hthere
      exact absurd hid (gone_of_none hids hf hw hk hidle ho row hrow)
    · rw [hhist.functional id u text hu (hw.mono rest)]

/-- **Reading a session never damages it**: from any table with ids of its
own, encrypted, plain or neither, whatever calls interleave. -/
theorem reads_safely (ops : ι → Op γ) {rows : List Row} (hids : (rows.map (·.sessionId)).Nodup)
    {evs : List (Event ι P.Choice)} (hf : AllAllowed (P.Fresh ops (rows.map (·.sessionId))) evs) :
    P.ReadsSafely ops rows evs where
  kept past i ch rest id heq hop := by
    have hprefix : AllAllowed (P.Fresh ops (rows.map (·.sessionId))) (past ++ [.act i ch]) := by
      have hwhole : AllAllowed (P.Fresh ops (rows.map (·.sessionId))) ((past ++ [.act i ch]) ++ rest) := by
        rw [List.append_assoc]
        exact heq ▸ hf
      exact hwhole.left
    exact ((History.run hids hprefix.left).event hprefix.last).2.1 id hop
  result i id r hop hdone := by
    have hhist := History.run hids hf
    have hcall := hhist.calls i
    rw [hdone] at hcall
    rcases hcall id hop with hnone | ⟨text, hw, hr⟩
    · exact .inl hnone
    · exact .inr ⟨text, hw, fun u hu => hhist.functional id u text hu hw, hr⟩
  found past rest k id row o heq hk hrow hid hidle hthere ho := by
    subst heq hid
    exact result_of_was hids hf (was_now hrow) hk hidle hthere ho
  again past rest i k id d o heq hi hk hdone hidle hthere ho := by
    subst heq
    have hcall := (History.run hids hf.left).calls i
    rw [hdone] at hcall
    rcases hcall id hi with hnone | ⟨text, hw, hr⟩
    · cases hnone
    · rw [result_of_was hids hf hw hk hidle hthere ho, hr]
  encrypted past rest heq r hr henc r' hr' hid := by
    subst heq
    exact (follows_later hids hf hr r' hr' hid).encrypted henc

end Runs

/-! ## Two readers of an old row -/

def bothRead (_ : Bool) : Op Json.Value := .getConfig "old".toList

/-- Both read the plain row, then both write it. -/
def bothMigrate : List (Event Bool plainStore.Choice) :=
  [.invoke true, .invoke false, .act true (draw "1"), .act false (draw "2"), .act true (draw "3"), .act false (draw "4")]

theorem bothMigrate_fresh : AllAllowed (plainStore.Fresh bothRead ["old".toList]) bothMigrate := by
  have hfresh : plainStore.FreshFrom bothRead (plainStore.seen bothRead ["old".toList] []) bothMigrate := by
    simp only [bothMigrate, FreshFrom, seen, bothRead, opIds, List.flatMap_nil, List.append_nil]
    decide +kernel
  intro past e rest heq
  have := hfresh.allowed past e rest heq
  rwa [List.nil_append] at this

theorem reads_safely_legacy : plainStore.ReadsSafely bothRead [legacyRow] bothMigrate :=
  reads_safely bothRead (by simp) bothMigrate_fresh

end SessionStore

end Plexio
