/-
One session for each configuration, from any table.

Two calls write a row's hash: `create` inserts it, `get_config` fills it in
for a row from before the column existed. Only `create` looks for the hash
first. As long as no `create` looks up the configuration of a row whose hash
is still missing, no hash comes twice (`hashes_unique`). A `create` that does
so inserts a second row of that configuration, and the first row's next
`get_config` gives both the same hash (`legacy_row_duplicated`).
-/
import Plexio.SessionInv

namespace Plexio

open Py Linearize

namespace SessionStore

section Unique
variable {γ α ι : Type} [DecidableEq ι] {P : SessionStore γ α}

/-- No two rows have the same hash. -/
def HashesUnique (rows : List Row) : Prop := rows.Pairwise fun a b => ∀ x, a.configHash = some x → b.configHash ≠ some x

/-- **One session for each configuration**, in every state of every run from
any table whose rows mean different things, encrypted or not, hashed or not,
as long as no `create` looks up the configuration of a row without its hash. -/
theorem hashes_unique (ops : ι → Op γ) {rows : List Row} (h : P.TableInv rows) {evs : List (Event ι P.Choice)}
    (hf : AllAllowed (P.Fresh ops (rows.map (·.sessionId))) evs) (hm : P.NoneMisses ops (P.begin rows) evs) :
    HashesUnique ((P.begin rows).run P.machine ops evs).shared.rows :=
  (Inv.run h hf hm).table.hash_unique

/-! ## Runs without a miss -/

/-- Every row without its hash means what such a row of the first table did. -/
def HashlessFrom (P : SessionStore γ α) (first rows : List Row) : Prop :=
  ∀ r ∈ rows, r.configHash = none → ∃ r₀ ∈ first, r₀.configHash = none ∧ P.meaning r₀ = P.meaning r

/-- A `create` that has not looked yet is of its call's configuration. -/
def Looks (op : Op γ) : Pc γ → Prop
  | .createLock c l | .createSelect c l _ => op = .create c l
  | _ => True

theorem HashlessFrom.step {first : List Row} {db : Db} (h : P.HashlessFrom first db.rows) (ch : P.Choice) (pc : Pc γ) :
    P.HashlessFrom first (P.step ch db pc).1.rows := by
  cases pc with
  | createLock c l => simp only [SessionStore.step]; split <;> exact h
  | createSelect c l now => simp only [SessionStore.step]; split <;> exact h
  | createTouch id now =>
    intro r hr hnone
    obtain ⟨r₁, hr₁, rfl⟩ := List.mem_map.mp hr
    rw [meaning_touch]
    exact h r₁ hr₁ (by revert hnone; split <;> exact fun h => h)
  | createCount c l now => simp only [SessionStore.step]; split <;> exact h
  | createInsert c l now =>
    simp only [SessionStore.step]
    split
    · exact h
    · intro r hr hnone
      rcases List.mem_append.mp hr with hr | hr
      · exact h r hr hnone
      · rw [List.mem_singleton.mp hr] at hnone
        cases hnone
  | getSelect id =>
    simp only [SessionStore.step]
    split
    · exact h
    · split <;> exact h
  | getUpdate id c reencrypted now hash =>
    intro r hr hnone
    obtain ⟨r₁, hr₁, rfl⟩ := List.mem_map.mp hr
    split at hnone
    · cases hnone
    · next hid => rw [if_neg hid]; exact h r₁ hr₁ hnone
  | listSelect => exact h
  | deleteRow id => exact fun r hr => h r (List.mem_of_mem_filter hr)

theorem Looks.step {op : Op γ} {db : Db} {ch : P.Choice} {pc pc' : Pc γ} (h : Looks op pc)
    (hs : (P.step ch db pc).2 = .inl pc') : Looks op pc' := by
  cases pc with
  | createLock c l =>
    simp only [SessionStore.step] at hs
    split at hs <;> cases hs <;> exact h
  | createSelect c l now =>
    simp only [SessionStore.step] at hs
    split at hs <;> cases hs <;> trivial
  | createCount c l now =>
    simp only [SessionStore.step] at hs
    split at hs <;> cases hs
    trivial
  | createInsert c l now =>
    simp only [SessionStore.step] at hs
    split at hs <;> cases hs
  | getSelect id =>
    simp only [SessionStore.step] at hs
    split at hs
    · cases hs
    · split at hs <;> cases hs
      trivial
  | createTouch | getUpdate | listSelect | deleteRow => cases hs

variable {ops : ι → Op γ}

theorem run_hashless {rows : List Row} (evs : List (Event ι P.Choice)) :
    P.HashlessFrom rows ((P.begin rows).run P.machine ops evs).shared.rows ∧
      ∀ i pc, ((P.begin rows).run P.machine ops evs).phase i = .running pc → Looks (ops i) pc := by
  induction evs using List.reverseRecOn with
  | nil => exact ⟨fun r hr hnone => ⟨r, hr, hnone, rfl⟩, fun i pc h => by cases h⟩
  | append_singleton evs e ih =>
    rw [System.run_snoc]
    generalize (P.begin rows).run P.machine ops evs = s at ih ⊢
    obtain ⟨hrows, hlooks⟩ := ih
    have hother : ∀ j, j ≠ e.who → (s.step P.machine ops e).phase j = s.phase j := fun j hj =>
      System.step_other _ _ _ _ hj
    rcases event_cases ops s e with he | ⟨i, rfl, -, hsh, hphase⟩ | ⟨i, ch, pc, rfl, hpc, hsh, hphase⟩
    · rw [he]; exact ⟨hrows, hlooks⟩
    · refine ⟨hsh ▸ hrows, fun j pj hj => ?_⟩
      by_cases hji : j = i
      · subst hji
        rw [hphase] at hj
        cases hj
        cases ops j with
        | create | getConfig | list | delete => trivial
      · rw [hother j hji] at hj
        exact hlooks j pj hj
    · refine ⟨hsh ▸ hrows.step ch pc, fun j pj hj => ?_⟩
      by_cases hji : j = i
      · subst hji
        rw [hphase] at hj
        split at hj
        · next pc' hs => cases hj; exact (hlooks j pc hpc).step hs
        · cases hj
      · rw [hother j hji] at hj
        exact hlooks j pj hj

/-- No `create` of the run is of a configuration that a row without its hash
holds at the start: none misses. -/
theorem noneMisses_of_ops {rows : List Row}
    (h : ∀ i c l, ops i = .create c l → ∀ r ∈ rows, r.configHash = none → P.meaning r ≠ some c)
    (evs : List (Event ι P.Choice)) : P.NoneMisses ops (P.begin rows) evs := by
  intro pre e post _ hmiss
  cases e with
  | invoke i => exact hmiss
  | act i ch =>
    obtain ⟨pc, hpc, hm⟩ := hmiss
    have hrun : P.HashlessFrom rows ((P.begin rows).run P.machine ops pre).shared.rows ∧ _ := run_hashless pre
    obtain ⟨hrows, hlooks⟩ := hrun
    cases pc with
    | createSelect c l now =>
      obtain ⟨r, hr, hnone, hc⟩ := hm
      obtain ⟨r₀, hr₀, hnone₀, hm₀⟩ := hrows r hr hnone
      exact h i c l (hlooks i _ hpc) r₀ hr₀ hnone₀ (hm₀.trans hc)
    | _ => exact hm

end Unique

/-! ## A row from before the hash -/

section Legacy

/-- A plain row without its hash, of the sample configuration. -/
def legacyRow : Row where
  sessionId := "old".toList
  configJson := plainStore.text.dumps AddonConfiguration.sample.toStorageDict
  label := none
  serverName := none
  createdAt := "2025-01-01".toList
  lastUsedAt := none
  configHash := none

theorem meaning_legacyRow : plainStore.meaning legacyRow = some AddonConfiguration.sample.toStorageDict := by
  have hplain : plainStore.fernet.decrypt legacyRow.configJson = none := rfl
  rw [meaning, meaningOf, hplain]
  exact plainStore.text.loads_dumps _

theorem legacyRow_tableInv : plainStore.TableInv [legacyRow] where
  ids := by simp
  hashes r hr x hx := by rw [List.mem_singleton.mp hr] at hx; cases hx
  distinct := by simp

/-- Another configuration is submitted while the old row is read. -/
def otherSubmitted : Bool → Op Json.Value
  | true => .create { AddonConfiguration.sample with reportPlayback := true }.toStorageDict none
  | false => .getConfig "old".toList

/-- The same configuration is submitted, then the old row is read. -/
def sameSubmitted : Bool → Op Json.Value
  | true => .create AddonConfiguration.sample.toStorageDict none
  | false => .getConfig "old".toList

def draw (uuid : String) : plainStore.Choice := ⟨"2026-01-01".toList, uuid.toList, ()⟩

/-- One call after the other, each run to its end. -/
def oneByOne : List (Event Bool plainStore.Choice) :=
  (.invoke true :: [draw "1", draw "2", draw "3", draw "4"].map (Event.act true)) ++
    (.invoke false :: [draw "5", draw "6", draw "7", draw "8"].map (Event.act false))

theorem run_oneByOne (ops : Bool → Op Json.Value) (rows : List Row) :
    ((plainStore.begin rows).run plainStore.machine ops oneByOne).shared.rows =
      (plainStore.call (draw "5") (draw "8") (ops false)
        (plainStore.call (draw "1") (draw "4") (ops true) rows).2).2 := by
  have hfirst : (plainStore.begin rows).run plainStore.machine ops
      (.invoke true :: [draw "1", draw "2", draw "3", draw "4"].map (Event.act true)) = _ := run_call rfl rfl _ _ _ _
  rw [oneByOne, System.run_append, hfirst]
  rw [run_call rfl (by simp [begin, System.start])]

theorem oneByOne_fresh {ops : Bool → Op Json.Value} (hcreate : opIds (ops true) = []) (hget : opIds (ops false) = ["old".toList]) :
    AllAllowed (plainStore.Fresh ops ["old".toList]) oneByOne := by
  have hfresh : plainStore.FreshFrom ops (plainStore.seen ops ["old".toList] []) oneByOne := by
    simp only [oneByOne, List.map_cons, List.map_nil, List.cons_append, List.nil_append, FreshFrom, seen, hcreate, hget,
      List.flatMap_nil, List.append_nil]
    decide +kernel
  exact fun pre e post heq => by
    have := hfresh.allowed pre e post heq
    rwa [List.nil_append] at this

/-- Reading the old row while another configuration is submitted. -/
theorem hashes_unique_other :
    HashesUnique ((plainStore.begin [legacyRow]).run plainStore.machine otherSubmitted oneByOne).shared.rows := by
  refine hashes_unique otherSubmitted legacyRow_tableInv (oneByOne_fresh rfl rfl) (noneMisses_of_ops ?_ _)
  intro i c l hop r hr _ hm
  rw [List.mem_singleton.mp hr, meaning_legacyRow] at hm
  cases i with
  | true =>
    cases hop
    have := congrArg Subtype.val (Option.some.inj hm)
    simp [AddonConfiguration.toStorageDict, AddonConfiguration.storageMembers, AddonConfiguration.sample] at this
  | false => cases hop

/-- **The old row is duplicated**: the configuration it holds is submitted
before it is read, so `create` inserts a second row, and reading the old one
then gives both the same hash. -/
theorem legacy_row_duplicated :
    plainStore.TableInv [legacyRow] ∧ AllAllowed (plainStore.Fresh sameSubmitted ([legacyRow].map (·.sessionId))) oneByOne ∧
      ¬ HashesUnique ((plainStore.begin [legacyRow]).run plainStore.machine sameSubmitted oneByOne).shared.rows := by
  refine ⟨legacyRow_tableInv, oneByOne_fresh rfl rfl, ?_⟩
  rw [run_oneByOne]
  have hcreate : (plainStore.call (draw "1") (draw "4") (sameSubmitted true) [legacyRow]).2 =
      [legacyRow, plainStore.newRow (draw "4") AddonConfiguration.sample.toStorageDict none "2026-01-01".toList] := rfl
  have hloads : plainStore.text.loads (plainStore.readStored (draw "5").nonce legacyRow.configJson).1 =
      some AddonConfiguration.sample.toStorageDict :=
    (plainStore.loads_readStored _ _).trans meaning_legacyRow
  have hselect : selectConfig [legacyRow, plainStore.newRow (draw "4") AddonConfiguration.sample.toStorageDict none
      "2026-01-01".toList] "old".toList = some (legacyRow.configJson, none) := rfl
  rw [hcreate]
  simp only [sameSubmitted, call, getConfig, hselect, hloads]
  intro h
  obtain ⟨hdiff, -⟩ := List.pairwise_cons.mp h
  exact hdiff _ (List.mem_singleton.mpr rfl) _ rfl rfl

end Legacy

end SessionStore

end Plexio
