/-
Storing a configuration and loading it, any number of times. Validation
limits the text of a URL as it is given, and storage writes it normalised,
which may be longer: percent-encoding makes three characters of a byte.
`storage_rounds` says that this is all that can go wrong: a configuration
survives storage exactly when the stored text of each of its URLs is within
the limit. `long_url_lost` is one that was accepted and does not.
-/
import Plexio.LookupCache
import Plexio.Sessions

namespace Plexio

open Py

/-! ## One round -/

namespace SessionStore
variable {γ α : Type} (P : SessionStore γ α)

/-- What is loaded from the text a configuration is stored as. -/
def reload (config : γ) : Except Exc α :=
  match P.text.loads (P.text.dumps config) with
  | none => .error (.value "invalid JSON".toList)
  | some config => P.load config

theorem reload_eq (config : γ) : P.reload config = P.load config := by
  rw [reload, P.text.loads_dumps]

/-- The store reloads what it created. -/
theorem getConfig_newRow (first last ch : P.Choice) (config : γ) (label : Option Str) {rows : List Row}
    (hid : ∀ r ∈ rows, r.sessionId ≠ last.uuid) :
    (P.getConfig ch last.uuid (rows ++ [P.newRow last config label first.now])).1 = some <$> P.reload config := by
  have hselect : selectConfig (rows ++ [P.newRow last config label first.now]) last.uuid =
      some (P.fernet.encrypt last.nonce (P.text.dumps config), some (P.configHash config)) := by
    have hnone : rows.find? (fun r => r.sessionId == last.uuid) = none :=
      List.find?_eq_none.mpr fun r hr => by simpa using hid r hr
    simp [selectConfig, List.find?_append, hnone, newRow]
  simp only [getConfig, hselect, readStored, P.fernet.decrypt_encrypt, P.text.loads_dumps, reload_eq]

end SessionStore

/-! ## Any number of rounds -/

section Rounds
variable {Y : Yarl} (P : SessionStore Json.Value (AddonConfiguration Y))

/-- A configuration stored and loaded `n` times. -/
def storageRounds : Nat → AddonConfiguration Y → Except Exc (AddonConfiguration Y)
  | 0, c => .ok c
  | n + 1, c => do
    let d ← P.reload c.toStorageDict
    storageRounds n d

variable {P} {c d e : AddonConfiguration Y}

theorem sameConnections_iff {xs ys : List (PlexStreamingConnection Y)} :
    List.Forall₂ (fun x y => Y.origin y.url = Y.origin x.url ∧ y.kind = x.kind) xs ys ↔
      xs.map (fun x => (Y.origin x.url, x.kind)) = ys.map fun x => (Y.origin x.url, x.kind) := by
  rw [← List.forall₂_eq_eq_eq (α := Str × PlexConnectionKind), List.forall₂_map_left_iff, List.forall₂_map_right_iff]
  simp only [Prod.mk.injEq, eq_comm]

theorem SameUpToSlashes.trans (h : SameUpToSlashes c d) (h' : SameUpToSlashes d e) : SameUpToSlashes c e where
  discoveryUrl := h'.discoveryUrl.trans h.discoveryUrl
  streamingUrl := h'.streamingUrl.trans h.streamingUrl
  connections :=
    sameConnections_iff.mpr ((sameConnections_iff.mp h.connections).trans (sameConnections_iff.mp h'.connections))
  rest := by rw [h'.rest, h.rest]

/-- The lengths of the stored URLs do not change. -/
theorem SameUpToSlashes.lengths (h : SameUpToSlashes c d) (hlen : ∀ u ∈ c.configuredUrls, (Y.origin u).length ≤ 2048) :
    ∀ u ∈ d.configuredUrls, (Y.origin u).length ≤ 2048 := by
  have hmap : ∀ s ∈ c.configuredUrls.map Y.origin, s.length ≤ 2048 := List.forall_mem_map.mpr hlen
  rw [← h.origins] at hmap
  exact List.forall_mem_map.mp hmap

/-- What is loaded was accepted. -/
theorem accepted_of_load {config : Json.Value} (h : AddonConfiguration.load Y config = .ok c) : c.Accepted := by
  simp only [AddonConfiguration.load] at h
  split at h
  · split at h
    · next hcheck => cases h; exact AddonConfiguration.accepted_of_check hcheck
    · cases h
  · cases h

end Rounds

section Storage
variable (D : Deployment) (F : Fernet) (maxSessions : Nat)

/-- The session store of a deployment. -/
abbrev Deployment.sessions : SessionStore Json.Value (AddonConfiguration D.yarl) :=
  addonStore D.yarl D.text D.sha256 F maxSessions

variable {D F maxSessions} {c d : AddonConfiguration D.yarl}

/-- One round: the configuration comes back, and can go again. -/
theorem reload_ok (hY : D.yarl.Lawful) (hc : c.Accepted) (hlen : ∀ u ∈ c.configuredUrls, (D.yarl.origin u).length ≤ 2048) :
    ∃ d, (D.sessions F maxSessions).reload c.toStorageDict = .ok d ∧ SameUpToSlashes c d ∧ d.Accepted := by
  obtain ⟨d, hd⟩ := AddonConfiguration.exists_load_storage hY hc hlen
  exact ⟨d, (SessionStore.reload_eq _ _).trans hd, (AddonConfiguration.load_storage hY hc hd).1, accepted_of_load hd⟩

theorem storageRounds_ok (hY : D.yarl.Lawful) (hc : c.Accepted)
    (hlen : ∀ u ∈ c.configuredUrls, (D.yarl.origin u).length ≤ 2048) (n : Nat) :
    ∃ d, storageRounds (D.sessions F maxSessions) n c = .ok d ∧ SameUpToSlashes c d := by
  induction n generalizing c with
  | zero => exact ⟨c, rfl, .refl c⟩
  | succ n ih =>
    obtain ⟨d, hd, hcd, hacc⟩ := reload_ok hY hc hlen
    obtain ⟨e, he, hde⟩ := ih hacc (hcd.lengths hlen)
    refine ⟨e, ?_, hcd.trans hde⟩
    rw [storageRounds, hd]
    exact he

variable (D F maxSessions) in
/-- **Accepted configurations survive storage** when their normalised URLs
are short: any number of rounds give the configuration back up to trailing
slashes, under the same hash and the same cache namespace. Otherwise not. -/
theorem storage_rounds (hY : D.yarl.Lawful) {j : Json} (h : AddonConfiguration.check D.yarl j = .ok c) :
    (∀ n, ∃ d, storageRounds (D.sessions F maxSessions) n c = .ok d ∧ SameUpToSlashes c d ∧
      d.toStorageDict = c.toStorageDict ∧
      (D.sessions F maxSessions).configHash d.toStorageDict = (D.sessions F maxSessions).configHash c.toStorageDict ∧
      configurationCacheNamespace D d = configurationCacheNamespace D c) ↔
    ∀ u ∈ c.configuredUrls, (D.yarl.origin u).length ≤ 2048 := by
  have hc := AddonConfiguration.accepted_of_check h
  constructor
  · intro hrounds
    obtain ⟨d, hd, -⟩ := hrounds 1
    obtain ⟨e, he, -⟩ := Json.bind_ok.mp hd
    exact (AddonConfiguration.load_storage hY hc ((SessionStore.reload_eq _ _).symm.trans he)).2
  · intro hlen n
    obtain ⟨d, hd, hsame⟩ := storageRounds_ok hY hc hlen n
    have hdict := hsame.toStorageDict
    exact ⟨d, hd, hsame, hdict, by rw [hdict], by rw [configurationCacheNamespace, hdict, configurationCacheNamespace]⟩

theorem storage_rounds_sample : ∃ d, storageRounds (plainDeployment.sessions .marked 1000) 3 AddonConfiguration.sample = .ok d ∧
    SameUpToSlashes AddonConfiguration.sample d := by
  obtain ⟨d, hd, hsame, -⟩ := (storage_rounds plainDeployment .marked 1000 Yarl.plain_lawful
    AddonConfiguration.check_sample).mpr (by decide +kernel) 3
  exact ⟨d, hd, hsame⟩

/-- What is sent for the sample with a discovery URL of 371 characters, 350 of them not ASCII. -/
def longUrlMembers : List (Str × Json) :=
  AddonConfiguration.sample.storageMembers.map fun m =>
    if m.1 = "discoveryUrl".toList then (m.1, .str ("http://10.0.0.2:32400/".toList ++ List.replicate 350 'é')) else m

/-- **A configuration that is lost**: it is accepted, stored, and never loaded. -/
theorem long_url_lost : ∃ c : AddonConfiguration Yarl.plain,
    AddonConfiguration.check Yarl.plain (.obj longUrlMembers) = .ok c ∧ ∀ d, plainStore.reload c.toStorageDict ≠ .ok d := by
  have hlong : ∀ c ∈ (AddonConfiguration.check Yarl.plain (.obj longUrlMembers)).toOption,
      2048 < (Yarl.plain.origin c.discoveryUrl).length := by decide +kernel
  have hsome : (AddonConfiguration.check Yarl.plain (.obj longUrlMembers)).toOption.isSome = true := by decide +kernel
  cases hcheck : AddonConfiguration.check Yarl.plain (.obj longUrlMembers) with
  | error e => rw [hcheck] at hsome; cases hsome
  | ok c =>
    refine ⟨c, rfl, fun d hd => ?_⟩
    have hshort := (AddonConfiguration.load_storage Yarl.plain_lawful (AddonConfiguration.accepted_of_check hcheck)
      ((SessionStore.reload_eq _ _).symm.trans hd)).2 c.discoveryUrl (by simp [AddonConfiguration.configuredUrls])
    have := hlong c (by rw [hcheck]; rfl)
    omega

end Storage

end Plexio
