/-
The session store is linearizable. The specification is a map from ids to
configurations (`SessionMap`), on which a call is one operation: `create`
returns the id of an equal configuration, or refuses when the map is full,
or adds one under an id never heard of.

A call's result is settled at one statement: `create`'s lookup when it finds
a row, its count when there is no room, its insertion otherwise; the one
SELECT of `get_config` and `list`; the DELETE. What comes after that
statement writes back what the table says already.
-/
import Plexio.SessionInv

namespace Plexio

open Py Linearize

/-- The specification's state: the map, and every id named so far. -/
structure SessionMap (γ : Type) where
  entries : List (Str × γ)
  named : List Str

/-- The id has been named, and is no entry's: it is not given again. -/
def SessionMap.Gone {γ : Type} (id : Str) (a : SessionMap γ) : Prop := id ∈ a.named ∧ ∀ e ∈ a.entries, e.1 ≠ id

/-- The call tells of the id: it returns it, or its session. -/
def Outcome.Mentions {γ α : Type} (id : Str) (op : Op γ) : Outcome α → Prop
  | .created r => r = .ok id
  | .config r => op = .getConfig id ∧ r ≠ .ok none
  | .sessions infos => ∃ x ∈ infos, x.sessionId = id
  | .deleted found => op = .delete id ∧ found = true

namespace SessionStore
variable {γ α : Type} (P : SessionStore γ α)

/-- One call on the map. -/
inductive SpecStep (a : SessionMap γ) : Op γ → Outcome α → SessionMap γ → Prop
  | existing {id : Str} {c : γ} {label : Option Str} (h : (id, c) ∈ a.entries) :
      SpecStep a (.create c label) (.created (.ok id)) a
  | full {c : γ} {label : Option Str} (hnew : ∀ e ∈ a.entries, e.2 ≠ c) (hfull : P.maxSessions ≤ a.entries.length) :
      SpecStep a (.create c label) (.created (.error .sessionCapacity)) a
  | added {id : Str} {c : γ} {label : Option Str} (hnew : ∀ e ∈ a.entries, e.2 ≠ c)
      (hroom : a.entries.length < P.maxSessions) (hid : id ∉ a.named) :
      SpecStep a (.create c label) (.created (.ok id)) ⟨a.entries ++ [(id, c)], id :: a.named⟩
  | found {id : Str} {c : γ} (h : (id, c) ∈ a.entries) :
      SpecStep a (.getConfig id) (.config (some <$> P.load c)) ⟨a.entries, id :: a.named⟩
  | absent {id : Str} (h : ∀ e ∈ a.entries, e.1 ≠ id) :
      SpecStep a (.getConfig id) (.config (.ok none)) ⟨a.entries, id :: a.named⟩
  | listed {infos : List SessionInfo}
      (h : (infos.map fun x => (x.sessionId, x.serverName)).Perm (a.entries.map fun e => (e.1, P.serverName e.2))) :
      SpecStep a .list (.sessions infos) a
  | deleted {id : Str} : SpecStep a (.delete id) (.deleted (a.entries.any (·.1 == id)))
      ⟨a.entries.filter (·.1 ≠ id), id :: a.named⟩

/-- The session store as it is meant: a map from ids to configurations. -/
def spec : Spec (Op γ) (Outcome α) where
  State := SessionMap γ
  init := ⟨[], []⟩
  Step := P.SpecStep

/-- A row holds an entry of the map. -/
structure Holds (r : Row) (e : Str × γ) : Prop where
  id : r.sessionId = e.1
  meaning : P.meaning r = some e.2
  hash : r.configHash = some (P.configHash e.2)
  serverName : r.serverName = P.serverName e.2

/-! ## The statements on the map -/

section Statements
variable {P} {rows : List Row} {es : List (Str × γ)}

theorem Holds.map (h : List.Forall₂ P.Holds rows es) {f : Row → Row} (hf : ∀ r ∈ rows, ∀ e, P.Holds r e → P.Holds (f r) e) :
    List.Forall₂ P.Holds (rows.map f) es := by
  rw [List.forall₂_map_left_iff]
  exact ((List.forall₂_and_left _ _).mpr ⟨fun r hr => hf r hr, h⟩).imp fun r e hre => hre.1 e hre.2

/-- The row of an entry, and the entry of a row. -/
theorem Holds.mem_left (h : List.Forall₂ P.Holds rows es) {r : Row} (hr : r ∈ rows) : ∃ e ∈ es, P.Holds r e := by
  induction h with
  | nil => cases hr
  | cons hre _ ih =>
    rcases List.mem_cons.mp hr with rfl | hr
    · exact ⟨_, by simp, hre⟩
    · obtain ⟨e, he, hre⟩ := ih hr
      exact ⟨e, by simp [he], hre⟩

theorem Holds.mem_right (h : List.Forall₂ P.Holds rows es) {e : Str × γ} (he : e ∈ es) : ∃ r ∈ rows, P.Holds r e := by
  induction h with
  | nil => cases he
  | cons hre _ ih =>
    rcases List.mem_cons.mp he with rfl | he
    · exact ⟨_, by simp, hre⟩
    · obtain ⟨r, hr, hre⟩ := ih he
      exact ⟨r, by simp [hr], hre⟩

theorem Holds.touch (h : List.Forall₂ P.Holds rows es) (now id : Str) : List.Forall₂ P.Holds (touch now id rows) es :=
  Holds.map h fun r _ e hre => by
    split
    · exact ⟨hre.id, hre.meaning, hre.hash, hre.serverName⟩
    · exact hre

theorem Holds.update (h : List.Forall₂ P.Holds rows es) {reencrypted : Option Str} {now id : Str} {c : γ}
    (hre : ∀ t, reencrypted = some t → P.meaningOf t = some c) (hid : ∀ r ∈ rows, r.sessionId = id → P.meaning r = some c) :
    List.Forall₂ P.Holds (update reencrypted now (P.configHash c) id rows) es :=
  Holds.map h fun r hr e hre' => by
    split
    · next he =>
      have hm := hid r hr he
      have hc : c = e.2 := by rw [hre'.meaning] at hm; exact (Option.some.inj hm).symm
      refine ⟨hre'.id, ?_, by rw [hc], hre'.serverName⟩
      cases hr' : reencrypted with
      | none => exact hre'.meaning
      | some t => exact hc ▸ hre t hr'
    · exact hre'

theorem Holds.insert (h : List.Forall₂ P.Holds rows es) (ch : P.Choice) (c : γ) (label : Option Str) (now : Str) :
    List.Forall₂ P.Holds (rows ++ [P.newRow ch c label now]) (es ++ [(ch.uuid, c)]) :=
  List.rel_append h (.cons ⟨rfl, P.meaning_newRow ch c label now, rfl, rfl⟩ .nil)

theorem Holds.delete (h : List.Forall₂ P.Holds rows es) (id : Str) :
    List.Forall₂ P.Holds (deleteRow id rows) (es.filter (·.1 ≠ id)) := by
  induction h with
  | nil => exact .nil
  | @cons r e rows es hre _ ih =>
    by_cases hid : e.1 = id
    · simpa [deleteRow, hre.id, hid] using ih
    · simpa [deleteRow, hre.id, hid] using List.Forall₂.cons hre ih

theorem Holds.any_id (h : List.Forall₂ P.Holds rows es) (id : Str) :
    (rows.any (·.sessionId == id)) = es.any (·.1 == id) := by
  induction h with
  | nil => rfl
  | cons hre _ ih => simp only [List.any_cons, ih, hre.id]

/-- `list` tells each entry's id and server name. -/
theorem Holds.listed (h : List.Forall₂ P.Holds rows es) :
    ((selectAll rows).map fun x => (x.sessionId, x.serverName)).Perm (es.map fun e => (e.1, P.serverName e.2)) := by
  have hmap : rows.map (fun r => (r.sessionId, r.serverName)) = es.map fun e => (e.1, P.serverName e.2) := by
    rw [← List.forall₂_eq_eq_eq, List.forall₂_map_left_iff, List.forall₂_map_right_iff]
    exact h.imp fun r e hre => by rw [hre.id, hre.serverName]
  rw [← hmap, selectAll, List.map_map]
  exact (List.mergeSort_perm rows _).map _

/-- A lookup by hash finds the entry of the configuration. -/
theorem Holds.lookup (h : List.Forall₂ P.Holds rows es) {c : γ} {id : Str}
    (hs : selectByHash rows (P.configHash c) = some id) : (id, c) ∈ es := by
  obtain ⟨r, hr, hx, rfl⟩ := selectByHash_some hs
  obtain ⟨e, he, hre⟩ := Holds.mem_left h hr
  rw [hre.hash, Option.some.injEq] at hx
  have : e = (r.sessionId, c) := Prod.ext hre.id.symm (P.configHash_inj hx)
  exact this ▸ he

end Statements

/-! ## The simulation -/

section Simulation
variable {ι : Type}

/-- The result a call is certain to have from `pc` on. -/
def committed : Pc γ → Option (Outcome α)
  | .createTouch id _ => some (.created (.ok id))
  | .getUpdate _ config _ _ _ => some (.config (some <$> P.load config))
  | _ => none

/-- `pc` belongs to a call of `op`, and an insertion has room. -/
def Serves (op : Op γ) (size : Nat) : Pc γ → Prop
  | .createLock c l | .createSelect c l _ | .createCount c l _ => op = .create c l
  | .createInsert c l _ => op = .create c l ∧ size < P.maxSessions
  | .createTouch _ _ => ∃ c l, op = .create c l
  | .getSelect id | .getUpdate id _ _ _ _ => op = .getConfig id
  | .listSelect => op = .list
  | .deleteRow id => op = .delete id

theorem serves_start (op : Op γ) (n : Nat) : P.Serves op n (start op) := by
  cases op with
  | create | getConfig | list | delete => rfl

variable {P}

theorem Serves.of_le {op : Op γ} {m n : Nat} {pc : Pc γ} (h : P.Serves op m pc) (hle : n ≤ m) : P.Serves op n pc := by
  cases pc with
  | createInsert c l now => exact ⟨h.1, hle.trans_lt h.2⟩
  | _ => exact h

theorem Serves.of_not_critical {op : Op γ} {m : Nat} {pc : Pc γ} (h : P.Serves op m pc) (hc : pc.critical = false) (n : Nat) :
    P.Serves op n pc := by
  cases pc with
  | createInsert c l now => cases hc
  | _ => exact h

/-- What one statement of a call of `op` does on the map: it settles the
call's result as a step from `a` to `b`, or leaves the map alone. -/
structure Advances (op : Op γ) (ch : P.Choice) (db : Db) (pc : Pc γ) (a b : SessionMap γ) : Prop where
  rows : List.Forall₂ P.Holds (P.step ch db pc).1.rows b.entries
  room : b.entries.length ≤ P.maxSessions
  smaller : pc.critical = false → b.entries.length ≤ a.entries.length
  named : b.named ⊆ ch.uuid :: opIds op ++ a.named
  ids : ∀ e ∈ b.entries, e.1 ∈ b.named
  serves : ∀ pc', (P.step ch db pc).2 = .inl pc' → P.Serves op b.entries.length pc'
  settles : match P.committed pc, (P.step ch db pc).2 with
    | some r, next => next = .inr r ∧ b = a
    | none, .inr r => P.SpecStep a op r b
    | none, .inl pc' => match P.committed pc' with
      | some r => P.SpecStep a op r b
      | none => b = a

/-- A statement that settles nothing new, or settles it on the map as it is. -/
theorem Advances.still {op : Op γ} {ch : P.Choice} {db : Db} {pc : Pc γ} {a : SessionMap γ}
    (hroom : a.entries.length ≤ P.maxSessions) (hids : ∀ e ∈ a.entries, e.1 ∈ a.named)
    (hrows : List.Forall₂ P.Holds (P.step ch db pc).1.rows a.entries)
    (hserves : ∀ pc', (P.step ch db pc).2 = .inl pc' → P.Serves op a.entries.length pc')
    (hsettles : match P.committed pc, (P.step ch db pc).2 with
      | some r, next => next = .inr r
      | none, .inr r => P.SpecStep a op r a
      | none, .inl pc' => ∀ r, P.committed pc' = some r → P.SpecStep a op r a) : P.Advances op ch db pc a a where
  rows := hrows
  room := hroom
  smaller _ := le_rfl
  named := List.subset_append_right _ _
  ids := hids
  serves := hserves
  settles := by
    split <;> simp_all
    split <;> simp_all

/-- **One statement on the map.** -/
theorem step_advances {op : Op γ} {ch : P.Choice} {db : Db} {pc : Pc γ} {a : SessionMap γ} {seen : List Str}
    (hrows : List.Forall₂ P.Holds db.rows a.entries) (hroom : a.entries.length ≤ P.maxSessions)
    (hids : ∀ e ∈ a.entries, e.1 ∈ a.named) (hserves : P.Serves op a.entries.length pc) (hpc : P.PcInv seen db.rows pc)
    (hfresh : ch.uuid ∉ a.named) : ∃ b, P.Advances op ch db pc a b := by
  have hlength : db.rows.length = a.entries.length := hrows.length_eq
  have hnew : ∀ c, (∀ r ∈ db.rows, P.meaning r ≠ some c) → ∀ e ∈ a.entries, e.2 ≠ c := by
    intro c hc e he hec
    obtain ⟨r, hr, hre⟩ := Holds.mem_right hrows he
    exact hc r hr (hec ▸ hre.meaning)
  cases pc with
  | createLock c l =>
    have hop : op = .create c l := hserves
    cases hl : db.locked with
    | true => exact ⟨a, .still hroom hids (by simpa [step, hl] using hrows) (by simp [step, hl, Serves, hop])
        (by simp [step, hl, committed])⟩
    | false => exact ⟨a, .still hroom hids (by simpa [step, hl] using hrows) (by simp [step, hl, Serves, hop])
        (by simp [step, hl, committed])⟩
  | createSelect c l now =>
    have hop : op = .create c l := hserves
    cases hs : selectByHash db.rows (P.configHash c) with
    | some id =>
      refine ⟨a, .still hroom hids (by simpa [step, hs] using hrows) (by simp [step, hs, Serves, hop]) ?_⟩
      simpa [step, hs, committed, hop] using SpecStep.existing (Holds.lookup hrows hs)
    | none => exact ⟨a, .still hroom hids (by simpa [step, hs] using hrows) (by simp [step, hs, Serves, hop])
        (by simp [step, hs, committed])⟩
  | createTouch id now =>
    exact ⟨a, .still hroom hids (Holds.touch hrows now id) (by simp [step]) (by simp [step, committed])⟩
  | createCount c l now =>
    have hop : op = .create c l := hserves
    by_cases hfull : P.maxSessions ≤ db.rows.length
    · refine ⟨a, .still hroom hids (by simpa [step, hfull] using hrows) (by simp [step, hfull]) ?_⟩
      simpa [step, hfull, committed, hop] using SpecStep.full (hnew c hpc) (hlength ▸ hfull)
    · have hless : a.entries.length < P.maxSessions := by omega
      exact ⟨a, .still hroom hids (by simpa [step, hfull] using hrows) (by simp [step, hfull, Serves, hop, hless])
        (by simp [step, hfull, committed])⟩
  | createInsert c l now =>
    obtain ⟨hop, hless⟩ := hserves
    have hdup : db.rows.any (·.sessionId == ch.uuid) = false := by
      rw [Holds.any_id hrows, List.any_eq_false]
      intro e he heq
      exact hfresh (by rw [← beq_iff_eq.mp heq]; exact hids e he)
    refine ⟨⟨a.entries ++ [(ch.uuid, c)], ch.uuid :: a.named⟩, ?_, ?_, by simp [Pc.critical], ?_, ?_, ?_, ?_⟩
    · simpa [step, hdup] using Holds.insert hrows ch c l now
    · simpa [Nat.succ_le_iff] using hless
    · simp
    · intro e he
      rcases List.mem_append.mp he with he | he
      · exact List.mem_cons_of_mem _ (hids e he)
      · simp [List.mem_singleton.mp he]
    · intro pc' h
      simp [step, hdup] at h
    · simpa [step, hdup, committed, hop] using SpecStep.added (hnew c hpc) hless hfresh
  | getSelect id =>
    have hop : op = .getConfig id := hserves
    cases hs : selectConfig db.rows id with
    | none =>
      refine ⟨⟨a.entries, id :: a.named⟩, by simpa [step, hs] using hrows, hroom, fun _ => le_rfl, by simp [hop, opIds],
        fun e he => List.mem_cons_of_mem _ (hids e he), by simp [step, hs], ?_⟩
      simp only [step, hs, committed, hop]
      refine .absent fun e he heq => ?_
      obtain ⟨r, hr, hre⟩ := Holds.mem_right hrows he
      exact selectConfig_none hs r hr (hre.id.trans heq)
    | some stored =>
      obtain ⟨r, hr, hrid, rfl⟩ := selectConfig_some hs
      obtain ⟨e, he, hre⟩ := Holds.mem_left hrows hr
      have hloads : P.text.loads (P.readStored ch.nonce r.configJson).1 = some e.2 :=
        (P.loads_readStored ch.nonce r.configJson).trans hre.meaning
      have hmem : (id, e.2) ∈ a.entries := by rw [← hrid, hre.id]; exact he
      refine ⟨⟨a.entries, id :: a.named⟩, by simpa [step, hs, hloads] using hrows, hroom, fun _ => le_rfl,
        by simp [hop, opIds], fun e he => List.mem_cons_of_mem _ (hids e he), by simp [step, hs, hloads, Serves, hop], ?_⟩
      simpa [step, hs, hloads, committed, hop] using SpecStep.found hmem
  | getUpdate id c reencrypted now hash =>
    obtain ⟨-, rfl, hre, hid⟩ := hpc
    exact ⟨a, .still hroom hids (Holds.update hrows hre hid) (by simp [step]) (by simp [step, committed])⟩
  | listSelect =>
    have hop : op = .list := hserves
    refine ⟨a, .still hroom hids hrows (by simp [step]) ?_⟩
    simpa [step, committed, hop] using SpecStep.listed (Holds.listed hrows)
  | deleteRow id =>
    have hop : op = .delete id := hserves
    refine ⟨⟨a.entries.filter (·.1 ≠ id), id :: a.named⟩, Holds.delete hrows id,
      (List.length_filter_le ..).trans hroom, fun _ => List.length_filter_le .., by simp [hop, opIds],
      fun e he => List.mem_cons_of_mem _ (hids e (List.mem_of_mem_filter he)), by simp [step], ?_⟩
    simp only [step, committed, hop, Holds.any_id hrows]
    exact .deleted

/-! ## The simulation -/

/-- What relates a run of the store to the map. -/
structure Rel (ops : ι → Op γ) (past : List (Event ι P.Choice)) (s : P.Sys ι) (a : SessionMap γ) : Prop where
  inv : P.Inv ops [] past s
  rows : List.Forall₂ P.Holds s.shared.rows a.entries
  room : a.entries.length ≤ P.maxSessions
  named : a.named ⊆ P.seen ops [] past
  ids : ∀ e ∈ a.entries, e.1 ∈ a.named
  asked : ∀ i, s.phase i ≠ .idle → opIds (ops i) ⊆ P.seen ops [] past
  serves : ∀ i pc, s.phase i = .running pc → P.Serves (ops i) a.entries.length pc

variable {ops : ι → Op γ} {past : List (Event ι P.Choice)} {s : P.Sys ι} {a : SessionMap γ}

theorem TableInv.nil : P.TableInv [] where
  ids := by simp
  hashes r hr := by cases hr
  distinct := .nil

theorem Rel.start : P.Rel ops [] (P.begin []) ⟨[], []⟩ where
  inv := .start .nil
  rows := .nil
  room := Nat.zero_le _
  named := List.nil_subset _
  ids := by simp
  asked i h := (h rfl).elim
  serves i pc h := by cases h

/-- Every row has its hash, so no lookup misses. -/
theorem Rel.not_missesAt (h : P.Rel ops past s a) (e : Event ι P.Choice) : ¬ P.MissesAt s e := by
  cases e with
  | invoke i => exact id
  | act i ch =>
    rintro ⟨pc, -, hm⟩
    cases pc with
    | createSelect config label now =>
      obtain ⟨r, hr, hnone, -⟩ := hm
      obtain ⟨e, -, hre⟩ := Holds.mem_left h.rows hr
      rw [hre.hash] at hnone
      cases hnone
    | _ => exact hm

variable [DecidableEq ι]

/-- **The step lemma**: an event that settles its call's result is a step of
the map, any other leaves the map alone. -/
theorem Rel.step (h : P.Rel ops past s a) {e : Event ι P.Choice} (hf : P.Fresh ops [] past e) :
    ∃ b, P.Rel ops (past ++ [e]) (s.step P.machine ops e) b ∧
      match settled P.committed (s.phase e.who), settled P.committed ((s.step P.machine ops e).phase e.who) with
      | some r, next => next = some r ∧ b = a
      | none, some r => P.SpecStep a (ops e.who) r b
      | none, none => b = a := by
  have hinv := h.inv.step hf (h.not_missesAt e)
  have hsub : P.seen ops [] past ⊆ P.seen ops [] (past ++ [e]) := by
    rw [seen_snoc]; exact List.subset_append_left _ _
  have hnew : P.mentions ops e ⊆ P.seen ops [] (past ++ [e]) := by
    rw [seen_snoc]; exact List.subset_append_right _ _
  have hother : ∀ j, j ≠ e.who → (s.step P.machine ops e).phase j = s.phase j := fun j hj =>
    System.step_other _ _ _ _ hj
  have hasked : s.phase e.who ≠ .idle → ∀ j, (s.step P.machine ops e).phase j ≠ .idle →
      opIds (ops j) ⊆ P.seen ops [] (past ++ [e]) := by
    intro he j hj
    by_cases hje : j = e.who
    · rw [hje]; exact List.Subset.trans (h.asked _ he) hsub
    · rw [hother j hje] at hj
      exact List.Subset.trans (h.asked j hj) hsub
  rcases event_cases ops s e with he | ⟨i, rfl, hidle, hsh, hphase⟩ | ⟨i, ch, pc, rfl, hpc, hsh, hphase⟩
  · rw [he] at hinv ⊢
    refine ⟨a, ⟨hinv, h.rows, h.room, List.Subset.trans h.named hsub, h.ids,
      fun j hj => List.Subset.trans (h.asked j hj) hsub, h.serves⟩, ?_⟩
    cases settled P.committed (s.phase e.who) with
    | none => rfl
    | some r => exact ⟨rfl, rfl⟩
  · refine ⟨a, ⟨hinv, hsh ▸ h.rows, h.room, List.Subset.trans h.named hsub, h.ids, ?_, ?_⟩, ?_⟩
    · intro j hj
      by_cases hji : j = i
      · rw [hji]; exact hnew
      · rw [hother j hji] at hj
        exact List.Subset.trans (h.asked j hj) hsub
    · intro j pj hj
      by_cases hji : j = i
      · subst hji
        rw [hphase] at hj
        cases hj
        exact P.serves_start _ _
      · rw [hother j hji] at hj
        exact h.serves j pj hj
    · have hstart : P.committed (SessionStore.start (ops i)) = none := by cases ops i <;> rfl
      simp only [Event.who, hidle, hphase, settled, hstart]
  · obtain ⟨b, hb⟩ := step_advances h.rows h.room h.ids (h.serves i pc hpc) (h.inv.calls i pc hpc) fun hm => hf (h.named hm)
    refine ⟨b, ⟨hinv, hsh ▸ hb.rows, hb.room, ?_, hb.ids, hasked (by simp [Event.who, hpc]), ?_⟩, ?_⟩
    · have hask : opIds (ops i) ⊆ P.seen ops [] past := h.asked i (by simp [hpc])
      intro id hid
      rcases List.mem_append.mp (hb.named hid) with hid | hid
      · rcases List.mem_cons.mp hid with rfl | hid
        · exact hnew (by simp [mentions])
        · exact hsub (hask hid)
      · exact hsub (h.named hid)
    · intro j pj hj
      by_cases hji : j = i
      · subst hji
        rw [hphase] at hj
        split at hj
        · next pc' hs => cases hj; exact hb.serves _ hs
        · cases hj
      · rw [hother j hji] at hj
        cases hpcc : pc.critical with
        | false => exact (h.serves j pj hj).of_le (hb.smaller hpcc)
        | true =>
          -- Only the lock's holder counts on room.
          refine (h.serves j pj hj).of_not_critical ?_ _
          cases hpj : pj.critical with
          | false => rfl
          | true => exact absurd (h.inv.alone j i pj pc hj hpc hpj hpcc) hji
    · have hset := hb.settles
      simp only [Event.who, hpc, hphase, settled]
      cases hc : P.committed pc with
      | some r =>
        rw [hc] at hset
        simp only [hset.1, hset.2, and_self]
      | none =>
        rw [hc] at hset
        cases hs : (P.step ch s.shared pc).2 with
        | inr r => rw [hs] at hset; exact hset
        | inl pc' =>
          rw [hs] at hset
          simp only at hset ⊢
          cases hc' : P.committed pc' with
          | some r => rw [hc'] at hset; exact hset
          | none => rw [hc'] at hset; exact hset

variable (P) in
/-- The store simulates the map. -/
def simulation (ops : ι → Op γ) : Simulation P.machine P.spec ops (P.Fresh ops []) (P.begin []) where
  committed := P.committed
  Rel := P.Rel ops
  init := .start
  idle _ := rfl
  stable past s a e r h hf hs := by
    obtain ⟨b, hrel, hstep⟩ := h.step hf
    rw [hs] at hstep
    exact ⟨hstep.1, hstep.2 ▸ hrel⟩
  advance past s a e h hf hs := by
    obtain ⟨b, hrel, hstep⟩ := h.step hf
    rw [hs] at hstep
    cases hn : settled P.committed ((s.step P.machine ops e).phase e.who) with
    | none => rw [hn] at hstep; exact hstep ▸ hrel
    | some r => rw [hn] at hstep; exact ⟨b, hstep, hrel⟩

end Simulation

/-! ## Revocation -/

section Revocation
variable {P} {ι : Type} {ops : ι → Op γ} {a b : SessionMap γ} {op : Op γ} {r q : Outcome α} {id : Str}

theorem SpecStep.gone (h : P.SpecStep a op r b) (hid : a.Gone id) : b.Gone id := by
  obtain ⟨hnamed, hent⟩ := hid
  cases h with
  | existing | full | listed => exact ⟨hnamed, hent⟩
  | found | absent => exact ⟨List.mem_cons_of_mem _ hnamed, hent⟩
  | added _ _ hnew =>
    refine ⟨List.mem_cons_of_mem _ hnamed, fun e he => ?_⟩
    rcases List.mem_append.mp he with he | he
    · exact hent e he
    · rintro rfl
      rw [List.mem_singleton.mp he] at hnamed
      exact hnew hnamed
  | deleted => exact ⟨List.mem_cons_of_mem _ hnamed, fun e he => hent e (List.mem_of_mem_filter he)⟩

theorem SpecStep.gone_delete (h : P.SpecStep a (.delete id) r b) : b.Gone id := by
  cases h with
  | deleted => exact ⟨List.mem_cons_self, fun e he => by simpa using (List.mem_filter.mp he).2⟩

/-- A deleted session is told of no more. -/
theorem SpecStep.not_mentions (h : P.SpecStep a op r b) (hid : a.Gone id) : ¬ r.Mentions id op := by
  obtain ⟨hnamed, hent⟩ := hid
  intro hm
  cases h with
  | existing he => cases hm; exact hent _ he rfl
  | full => cases hm
  | added _ _ hnew => cases hm; exact hnew hnamed
  | found he => cases hm.1; exact hent _ he rfl
  | absent => exact hm.2 rfl
  | listed hperm =>
    obtain ⟨x, hx, rfl⟩ := hm
    have hmem := hperm.subset (List.mem_map_of_mem hx)
    obtain ⟨e, he, heq⟩ := List.mem_map.mp hmem
    exact hent e he (Prod.mk.inj heq).1
  | @deleted id' =>
    cases hm.1
    obtain ⟨e, he, heq⟩ := List.any_eq_true.mp hm.2
    exact hent e he (beq_iff_eq.mp heq)

/-- After a deletion in a sequential run, the id is gone. -/
theorem run_gone {order : List (ι × Outcome α)} {a : P.spec.State} (h : P.spec.Run ops order a) {i : ι} (hi : (i, r) ∈ order)
    (hop : ops i = .delete id) : SessionMap.Gone id a := by
  induction h with
  | nil => cases hi
  | @snoc order a b k p _ hs ih =>
    rcases List.mem_append.mp hi with hi | hi
    · exact SpecStep.gone hs (ih hi)
    · cases List.mem_singleton.mp hi
      rw [hop] at hs
      exact SpecStep.gone_delete hs

/-- **Deletion is final**: no call after it tells of the id. -/
theorem run_revoked {order : List (ι × Outcome α)} {a : P.spec.State} (h : P.spec.Run ops order a) {i j : ι}
    (hij : List.Sublist [(i, r), (j, q)] order) (hop : ops i = .delete id) : ¬ q.Mentions id (ops j) := by
  induction h with
  | nil => cases hij
  | @snoc order a b k p hrun hs ih =>
    obtain ⟨l₁, l₂, heq, h₁, h₂⟩ := List.sublist_append_iff.mp hij
    rcases List.sublist_singleton.mp h₂ with rfl | rfl
    · rw [List.append_nil] at heq
      exact ih (heq ▸ h₁)
    · have hpair : [(i, r)] ++ [(j, q)] = l₁ ++ [(k, p)] := heq
      obtain ⟨rfl, hlast⟩ := List.append_inj' hpair rfl
      cases hlast
      exact SpecStep.not_mentions hs (run_gone hrun (List.singleton_sublist.mp h₁) hop)

end Revocation

/-! ## Linearizability -/

section Linearizable
variable {P} {ι : Type} [DecidableEq ι]

/-- **The session store is linearizable**, whatever the calls and however
their statements interleave: in some order consistent with real time, a map
from ids to configurations gives every returned call its result, and ends
with an entry for each row. The rows are at most `maxSessions`, no two mean
the same, and once a `delete` has returned no later call tells of its id. -/
theorem store_linearizable (ops : ι → Op γ) (evs : List (Event ι P.Choice)) (hf : AllAllowed (P.Fresh ops []) evs) :
    ∃ order a, Linearization P.machine P.spec ops (P.begin []) evs order a ∧
      List.Forall₂ P.Holds ((P.begin []).run P.machine ops evs).shared.rows a.entries ∧
      ((P.begin []).run P.machine ops evs).shared.rows.length ≤ P.maxSessions ∧
      (((P.begin []).run P.machine ops evs).shared.rows.Pairwise fun r s => P.meaning r ≠ P.meaning s) ∧
      ∀ pre post, evs = pre ++ post → ∀ i j id r q, ops i = .delete id →
        ((P.begin []).run P.machine ops pre).phase i = .done r →
        ((P.begin []).run P.machine ops pre).phase j = .idle →
        ((P.begin []).run P.machine ops evs).phase j = .done q → ¬ q.Mentions id (ops j) := by
  obtain ⟨a, hlin, hrel⟩ := (P.simulation ops).linearizable hf
  have hrows : List.Forall₂ P.Holds _ a.entries := Rel.rows hrel
  refine ⟨_, a, hlin, hrows, hrows.length_eq ▸ Rel.room hrel, ?_, ?_⟩
  · refine (Rel.inv hrel).table.distinct.imp_of_mem fun {r s} hr _ hrs => ?_
    obtain ⟨e, -, he⟩ := Holds.mem_left hrows hr
    exact fun h => hrs e.2 he.meaning (h ▸ he.meaning)
  · intro pre post hevs i j id r q hop hi hj hq
    exact run_revoked hlin.sequential (hlin.realTime pre post hevs i r hi j q hj (hlin.results j q hq)) hop

/-- Two `create`s of one configuration overlap, then its session is deleted. -/
def overlapping : Fin 3 → Op Json.Value
  | 0 | 1 => .create AddonConfiguration.sample.toStorageDict none
  | 2 => .delete "a".toList

def overlap : List (Event (Fin 3) plainStore.Choice) :=
  let draw (uuid : String) : plainStore.Choice := ⟨"2026-01-01".toList, uuid.toList, ()⟩
  [.invoke 0, .invoke 1, .act 0 (draw "1"), .act 1 (draw "2"), .act 0 (draw "3"), .act 0 (draw "4"), .act 0 (draw "a"),
    .act 1 (draw "5"), .invoke 2, .act 1 (draw "6"), .act 2 (draw "7"), .act 1 (draw "8")]

/-- The overlapping calls have an order. -/
theorem store_linearizable_overlap :
    ∃ order a, Linearization plainStore.machine plainStore.spec overlapping (plainStore.begin []) overlap order a := by
  obtain ⟨order, a, h, -⟩ := store_linearizable overlapping overlap fun pre e post heq => by
    have hfresh : plainStore.FreshFrom overlapping (plainStore.seen overlapping [] []) overlap := by
      simp only [overlap, FreshFrom, seen, overlapping, opIds, List.flatMap_nil, List.append_nil, List.nil_append]
      decide
    have := hfresh.allowed pre e post heq
    rwa [List.nil_append] at this
  exact ⟨order, a, h⟩

end Linearizable

end SessionStore

end Plexio
