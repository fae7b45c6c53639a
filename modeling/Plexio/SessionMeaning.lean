/-
What an id means does not change. Whatever the calls, from any table of
readable or unreadable rows, encrypted or not, hashed or not, there is one
assignment of configurations to ids (`Told`) that all rows and all results
agree with: a `create` that returned an id was of the configuration the id
is assigned, and a `get_config` of the id loads that configuration
(`loaded_of_created`).
-/
import Plexio.SessionInv

namespace Plexio

open Py Linearize

namespace SessionStore
variable {γ α ι : Type} (P : SessionStore γ α)

/-- What a call knows agrees with what ids mean. -/
def CallTold (m : Str → Option γ) (seen : List Str) (op : Op γ) : Phase (Pc γ) (Outcome α) → Prop
  | .idle => True
  | .running (.createLock c l) | .running (.createSelect c l _) | .running (.createCount c l _)
  | .running (.createInsert c l _) => op = .create c l
  | .running (.createTouch id _) => ∀ c l, op = .create c l → m id = some c
  | .running (.getSelect id) => op = .getConfig id ∧ id ∈ seen
  | .running (.getUpdate id c reencrypted _ hash) => op = .getConfig id ∧ m id = some c ∧ hash = P.configHash c ∧
      ∀ t, reencrypted = some t → P.meaningOf t = some c
  | .done (.created (.ok id)) => ∀ c l, op = .create c l → m id = some c
  | .done (.config (.ok (some d))) => ∀ id, op = .getConfig id → ∃ c, m id = some c ∧ P.load c = .ok d
  | _ => True

/-- The rows agree with what ids mean, and an id not in use means nothing yet. -/
structure RowsTold (m : Str → Option γ) (seen : List Str) (rows : List Row) : Prop where
  means : ∀ r ∈ rows, P.meaning r = m r.sessionId ∧ r.sessionId ∈ seen
  hashes : ∀ r ∈ rows, ∀ x, r.configHash = some x → ∃ c, m r.sessionId = some c ∧ x = P.configHash c
  unused : ∀ id, id ∉ seen → m id = none

structure Told (m : Str → Option γ) (seen : List Str) (ops : ι → Op γ) (s : P.Sys ι) : Prop where
  table : P.RowsTold m seen s.shared.rows
  calls : ∀ i, P.CallTold m seen (ops i) (s.phase i)

variable {P} {m m' : Str → Option γ} {seen seen' : List Str} {rows : List Row}

/-- More ids may come to mean something. -/
theorem CallTold.mono {op : Op γ} {p : Phase (Pc γ) (Outcome α)} (h : P.CallTold m seen op p)
    (hm : ∀ id c, m id = some c → m' id = some c) (hseen : seen ⊆ seen') : P.CallTold m' seen' op p := by
  cases p with
  | idle => trivial
  | running pc =>
    cases pc with
    | createLock | createSelect | createCount | createInsert | listSelect | deleteRow => exact h
    | createTouch id now => exact fun c l hop => hm _ _ (h c l hop)
    | getSelect id => exact ⟨h.1, hseen h.2⟩
    | getUpdate id c reencrypted now hash => exact ⟨h.1, hm _ _ h.2.1, h.2.2⟩
  | done r =>
    match r with
    | .created (.ok id) => exact fun c l hop => hm _ _ (h c l hop)
    | .config (.ok (some d)) =>
      intro id hop
      obtain ⟨c, hc, hd⟩ := h id hop
      exact ⟨c, hm _ _ hc, hd⟩
    | .created (.error _) | .config (.error _) | .config (.ok none) | .sessions _ | .deleted _ => trivial

namespace RowsTold

theorem mono (h : P.RowsTold m seen rows) (hseen : seen ⊆ seen') : P.RowsTold m seen' rows where
  means r hr := ⟨(h.means r hr).1, hseen (h.means r hr).2⟩
  hashes := h.hashes
  unused id hid := h.unused id fun hmem => hid (hseen hmem)

theorem touch (h : P.RowsTold m seen rows) (now id : Str) : P.RowsTold m seen (touch now id rows) where
  means r hr := by
    obtain ⟨r₀, hr₀, rfl⟩ := List.mem_map.mp hr
    rw [meaning_touch]
    split <;> exact h.means r₀ hr₀
  hashes r hr := by
    obtain ⟨r₀, hr₀, rfl⟩ := List.mem_map.mp hr
    split <;> exact h.hashes r₀ hr₀
  unused := h.unused

/-- What `get_config` writes back is what the id means. -/
theorem update (h : P.RowsTold m seen rows) {reencrypted : Option Str} {now id : Str} {c : γ} (hc : m id = some c)
    (hr : ∀ t, reencrypted = some t → P.meaningOf t = some c) :
    P.RowsTold m seen (update reencrypted now (P.configHash c) id rows) where
  means r hr' := by
    obtain ⟨r₀, hr₀, rfl⟩ := List.mem_map.mp hr'
    split
    · next hid =>
      refine ⟨?_, (h.means r₀ hr₀).2⟩
      show P.meaningOf (reencrypted.getD r₀.configJson) = m r₀.sessionId
      cases reencrypted with
      | none => exact (h.means r₀ hr₀).1
      | some t => rw [hid, hc]; exact hr t rfl
    · exact h.means r₀ hr₀
  hashes r hr' x hx := by
    obtain ⟨r₀, hr₀, rfl⟩ := List.mem_map.mp hr'
    revert hx
    split
    · next hid =>
      intro hx
      exact ⟨c, by rw [← hid] at hc; exact hc, (Option.some.inj hx).symm⟩
    · exact h.hashes r₀ hr₀ x
  unused := h.unused

theorem insert (h : P.RowsTold m seen rows) {ch : P.Choice} (hfresh : ch.uuid ∉ seen) (c : γ) (label : Option Str)
    (now : Str) :
    P.RowsTold (Function.update m ch.uuid (some c)) (seen ++ [ch.uuid]) (rows ++ [P.newRow ch c label now]) where
  means r hr := by
    rcases List.mem_append.mp hr with hr | hr
    · have hne : r.sessionId ≠ ch.uuid := fun he => hfresh (he ▸ (h.means r hr).2)
      rw [Function.update_of_ne hne]
      exact ⟨(h.means r hr).1, List.mem_append_left _ (h.means r hr).2⟩
    · rw [List.mem_singleton.mp hr]
      exact ⟨(P.meaning_newRow ch c label now).trans (by simp [newRow]), List.mem_append_right _ (by simp [newRow])⟩
  hashes r hr x hx := by
    rcases List.mem_append.mp hr with hr | hr
    · have hne : r.sessionId ≠ ch.uuid := fun he => hfresh (he ▸ (h.means r hr).2)
      rw [Function.update_of_ne hne]
      exact h.hashes r hr x hx
    · rw [List.mem_singleton.mp hr] at hx ⊢
      exact ⟨c, by simp [newRow], (Option.some.inj hx).symm⟩
  unused id hid := by
    simp only [List.mem_append, List.mem_singleton, not_or] at hid
    rw [Function.update_of_ne hid.2]
    exact h.unused id hid.1

theorem delete (h : P.RowsTold m seen rows) (id : Str) : P.RowsTold m seen (deleteRow id rows) where
  means r hr := h.means r (List.mem_of_mem_filter hr)
  hashes r hr := h.hashes r (List.mem_of_mem_filter hr)
  unused := h.unused

end RowsTold

/-- Where a statement leaves its call. -/
def phaseOf : Pc γ ⊕ Outcome α → Phase (Pc γ) (Outcome α)
  | .inl pc => .running pc
  | .inr r => .done r

/-- **One statement**: what ids mean is kept, and a new row's id comes to mean its configuration. -/
theorem step_told {ch : P.Choice} {db : Db} {op : Op γ} {pc : Pc γ} (h : P.RowsTold m seen db.rows)
    (hpc : P.CallTold m seen op (.running pc)) (hfresh : ch.uuid ∉ seen) :
    ∃ m', (∀ id c, m id = some c → m' id = some c) ∧ P.RowsTold m' (seen ++ [ch.uuid]) (P.step ch db pc).1.rows ∧
      P.CallTold m' (seen ++ [ch.uuid]) op (phaseOf (P.step ch db pc).2) := by
  have hstay : P.RowsTold m (seen ++ [ch.uuid]) db.rows := h.mono (List.subset_append_left _ _)
  cases pc with
  | createLock c l =>
    refine ⟨m, fun _ _ hid => hid, ?_⟩
    simp only [step]
    split <;> exact ⟨hstay, hpc⟩
  | createSelect c l now =>
    refine ⟨m, fun _ _ hid => hid, ?_⟩
    simp only [step]
    cases hs : selectByHash db.rows (P.configHash c) with
    | none => exact ⟨hstay, hpc⟩
    | some id =>
      refine ⟨hstay, fun c' l' hop => ?_⟩
      -- The row found has the configuration's hash, so its id means the configuration.
      obtain ⟨r, hr, hhash, rfl⟩ := selectByHash_some hs
      obtain ⟨d, hd, hx⟩ := h.hashes r hr _ hhash
      rw [show op = .create c l from hpc] at hop
      cases hop
      rw [hd, P.configHash_inj hx]
  | createTouch id now => exact ⟨m, fun _ _ hid => hid, hstay.touch now id, hpc⟩
  | createCount c l now =>
    refine ⟨m, fun _ _ hid => hid, ?_⟩
    simp only [step]
    split
    · exact ⟨hstay, trivial⟩
    · exact ⟨hstay, hpc⟩
  | createInsert c l now =>
    simp only [step]
    split
    · exact ⟨m, fun _ _ hid => hid, hstay, trivial⟩
    · refine ⟨Function.update m ch.uuid (some c), fun id d hid => ?_, h.insert hfresh c l now, fun c' l' hop => ?_⟩
      · have hne : id ≠ ch.uuid := by
          rintro rfl
          rw [h.unused _ hfresh] at hid
          cases hid
        rw [Function.update_of_ne hne, hid]
      · rw [show op = .create c l from hpc] at hop
        cases hop
        exact Function.update_self ..
  | getSelect id =>
    refine ⟨m, fun _ _ hid => hid, ?_⟩
    simp only [step]
    cases hs : selectConfig db.rows id with
    | none => exact ⟨hstay, trivial⟩
    | some stored =>
      simp only
      cases hl : P.text.loads (P.readStored ch.nonce stored.1).1 with
      | none => exact ⟨hstay, trivial⟩
      | some config =>
        rw [P.loads_readStored] at hl
        obtain ⟨r, hmem, hrid, rfl⟩ := selectConfig_some hs
        have hm : m id = some config := by rw [← hrid, ← (h.means r hmem).1]; exact hl
        refine ⟨hstay, hpc.1, hm, P.hashOr_configHash fun x hx => ?_, fun t ht => (P.meaningOf_reencrypted ht).trans hl⟩
        obtain ⟨d, hd, rfl⟩ := h.hashes r hmem x hx
        rw [hrid, hm, Option.some.injEq] at hd
        rw [hd]
  | getUpdate id c reencrypted now hash =>
    obtain ⟨hop, hm, rfl, hre⟩ := hpc
    refine ⟨m, fun _ _ hid => hid, hstay.update hm hre, ?_⟩
    simp only [step, phaseOf]
    cases hl : P.load c with
    | error e => trivial
    | ok d =>
      intro id' hop'
      rw [hop] at hop'
      cases hop'
      exact ⟨c, hm, hl⟩
  | listSelect => exact ⟨m, fun _ _ hid => hid, hstay, trivial⟩
  | deleteRow id => exact ⟨m, fun _ _ hid => hid, hstay.delete id, trivial⟩

/-! ## Runs -/

variable [DecidableEq ι] {ops : ι → Op γ} {first : List Str} {past : List (Event ι P.Choice)} {s : P.Sys ι}

/-- **The step lemma.** -/
theorem Told.step (h : P.Told m (P.seen ops first past) ops s) {e : Event ι P.Choice} (hf : P.Fresh ops first past e) :
    ∃ m', P.Told m' (P.seen ops first (past ++ [e])) ops (s.step P.machine ops e) := by
  have hsub : P.seen ops first past ⊆ P.seen ops first (past ++ [e]) := by
    rw [seen_snoc]; exact List.subset_append_left _ _
  have hother : ∀ j, j ≠ e.who → (s.step P.machine ops e).phase j = s.phase j := fun j hj =>
    System.step_other _ _ _ _ hj
  rcases event_cases ops s e with he | ⟨i, rfl, -, hsh, hphase⟩ | ⟨i, ch, pc, rfl, hpc, hsh, hphase⟩
  · rw [he]
    exact ⟨m, h.table.mono hsub, fun j => (h.calls j).mono (fun _ _ hm => hm) hsub⟩
  · refine ⟨m, hsh ▸ h.table.mono hsub, fun j => ?_⟩
    by_cases hji : j = i
    · subst hji
      rw [hphase]
      cases hop : ops j with
      | create c l => exact rfl
      | getConfig id =>
        refine ⟨rfl, ?_⟩
        rw [seen_snoc]
        exact List.mem_append_right _ (by simp [mentions, hop, opIds])
      | list | delete => trivial
    · rw [hother j hji]
      exact (h.calls j).mono (fun _ _ hm => hm) hsub
  · have hcall := h.calls i
    rw [hpc] at hcall
    obtain ⟨m', hm, htable, hnext⟩ := step_told h.table hcall hf
    have hseen : P.seen ops first (past ++ [.act i ch]) = P.seen ops first past ++ [ch.uuid] := seen_snoc _
    refine ⟨m', by rw [hseen, hsh]; exact htable, fun j => ?_⟩
    by_cases hji : j = i
    · subst hji
      rw [hphase, hseen]
      generalize (P.step ch s.shared pc).2 = next at hnext ⊢
      cases next <;> exact hnext
    · rw [hother j hji]
      exact (h.calls j).mono hm hsub

omit [DecidableEq ι] in
theorem Told.start (h : P.RowsInv rows) (ops : ι → Op γ) :
    P.Told (fun id => (rows.find? (·.sessionId == id)).bind P.meaning) (P.seen ops (rows.map (·.sessionId)) []) ops
      (P.begin rows) := by
  have hfind : ∀ r ∈ rows, rows.find? (·.sessionId == r.sessionId) = some r := by
    intro r hr
    cases hf : rows.find? (·.sessionId == r.sessionId) with
    | none => simpa using List.find?_eq_none.mp hf r hr
    | some r' =>
      have hid : r'.sessionId = r.sessionId := by simpa using List.find?_some hf
      rw [List.inj_on_of_nodup_map h.ids (List.mem_of_find?_eq_some hf) hr hid]
  refine ⟨⟨fun r hr => ⟨?_, ?_⟩, fun r hr x hx => ?_, fun id hid => ?_⟩, fun i => trivial⟩
  · rw [hfind r hr]; rfl
  · exact List.mem_append_left _ (List.mem_map_of_mem hr)
  · rw [hfind r hr]
    exact h.hashes r hr x hx
  · have hnone : rows.find? (·.sessionId == id) = none := by
      refine List.find?_eq_none.mpr fun r hr he => hid ?_
      exact List.mem_append_left _ (beq_iff_eq.mp he ▸ List.mem_map_of_mem hr)
    rw [hnone]; rfl

/-- **The run lemma.** -/
theorem Told.run (h : P.RowsInv rows) {evs : List (Event ι P.Choice)}
    (hf : AllAllowed (P.Fresh ops (rows.map (·.sessionId))) evs) :
    ∃ m, P.Told m (P.seen ops (rows.map (·.sessionId)) evs) ops ((P.begin rows).run P.machine ops evs) := by
  induction evs using List.reverseRecOn with
  | nil => exact ⟨_, .start h ops⟩
  | append_singleton evs e ih =>
    obtain ⟨m, hm⟩ := ih hf.left
    rw [System.run_snoc]
    exact hm.step hf.last

/-- **What is loaded is what was created**: a `get_config` of an id that a
`create` returned loads the configuration that was created. -/
theorem loaded_of_created (h : P.RowsInv rows) {evs : List (Event ι P.Choice)}
    (hf : AllAllowed (P.Fresh ops (rows.map (·.sessionId))) evs) {i k : ι} {c : γ} {label : Option Str} {id : Str} {d : α}
    (hi : ops i = .create c label) (hk : ops k = .getConfig id)
    (hcreated : ((P.begin rows).run P.machine ops evs).phase i = .done (.created (.ok id)))
    (hloaded : ((P.begin rows).run P.machine ops evs).phase k = .done (.config (.ok (some d)))) : P.load c = .ok d := by
  obtain ⟨m, hm⟩ : ∃ m, P.Told m (P.seen ops (rows.map (·.sessionId)) evs) ops ((P.begin rows).run P.machine ops evs) :=
    Told.run h hf
  have hci := hm.calls i
  have hck := hm.calls k
  rw [hcreated] at hci
  rw [hloaded] at hck
  obtain ⟨c', hc', hd⟩ := hck id hk
  rw [hci c label hi, Option.some.injEq] at hc'
  rw [hc', hd]

end SessionStore

end Plexio
