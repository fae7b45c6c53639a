/-
Installs do not see each other's cached data. Everything a stream request
reads from the shared cache or writes to it lies under its configuration's
namespace (`within_getStream`), and configurations stored differently have
different namespaces, so the requests of one install go as they would without
the others' (`installs_isolated`).
-/
import Plexio.CacheFootprint
import Plexio.ResponseCache

namespace Plexio

open Py CacheProg

section Within
variable (D : Deployment) (c : AddonConfiguration D.yarl)

/-- The keys of a configuration. -/
def Under (key : Str) : Prop :=
  ∃ resource identity, key = resourceCacheKey D.sha256 (configurationCacheNamespace D c) resource identity

variable {D c}

/-- A key is one configuration's. -/
theorem Under.toStorageDict {d : AddonConfiguration D.yarl} {key : Str} (hc : Under D c key) (hd : Under D d key) :
    c.toStorageDict = d.toStorageDict := by
  obtain ⟨r, i, rfl⟩ := hc
  obtain ⟨s, j, h⟩ := hd
  obtain ⟨hns, -, -⟩ := resourceCacheKey_inj (D.sha256.colon _) (D.sha256.colon _) h
  exact D.text.canonical_inj (D.sha256.injective hns)

/-- **A stream request keeps to its configuration's keys.** -/
theorem within_getStream (request : Request) (stremioType : StremioMediaType) (mediaId : Str) :
    (getStream D c request stremioType mediaId).Within (Under D c) := by
  refine Prog.Touches.within (touches_getStream ?_ request stremioType)
  exact { lenient := fun _ _ _ _ hkey => hkey, guarded := fun _ _ => ⟨_, _, rfl⟩, bare := fun _ => ⟨_, _, rfl⟩ }

end Within

/-! ## Runs -/

section Runs
variable {ι : Type} (D : Deployment) (config : ι → AddonConfiguration D.yarl) (calls : ι → StreamCall)

/-- The stream requests, each made with its own configuration. -/
def requestsOf (i : ι) : Prog plexSig StreamReply :=
  getStream D (config i) (calls i).request (calls i).stremioType (calls i).mediaId

variable {D config} {mine : ι → Prop}

/-- The keys of a group's configurations. -/
def UnderMine (D : Deployment) (config : ι → AddonConfiguration D.yarl) (mine : ι → Prop) (key : Str) : Prop :=
  ∃ i, mine i ∧ Under D (config i) key

/-- Before anything ran, the group's requests keep to its keys and the others keep out of them. -/
theorem alike_requestsOf (hdiff : ∀ i j, mine i → ¬ mine j → (config i).toStorageDict ≠ (config j).toStorageDict)
    (cache : Cache plexSig) :
    Alike (UnderMine D config mine) mine { cache, progs := requestsOf D config calls }
      { cache, progs := requestsOf D config calls } where
  cache _ _ := rfl
  progs _ _ := rfl
  inside i hi := (within_getStream _ _ _).mono fun _ hkey => ⟨i, hi, hkey⟩
  outside j hj := (within_getStream _ _ _).mono fun _ hkey ⟨i, hi, hmine⟩ => hdiff i j hi hj (hmine.toStorageDict hkey)

/-- **Installs are isolated**: in any interleaving of stream requests on one
cache, whatever it held and whatever Plex answers at each operation, those
made with a group of configurations go as they do with all other requests
removed, when none of the others is stored as one of the group is. -/
theorem installs_isolated [DecidableEq ι] [DecidablePred mine]
    (hdiff : ∀ i j, mine i → ¬ mine j → (config i).toStorageDict ≠ (config j).toStorageDict)
    (cache : Cache plexSig) (evs : List (Event plexSig ι)) {i : ι} (hi : mine i) :
    (System.run { cache, progs := requestsOf D config calls } evs).progs i =
      (System.run { cache, progs := requestsOf D config calls } (evs.filter fun ev => mine ev.who)).progs i :=
  (run_isolated (alike_requestsOf calls hdiff cache) evs).progs i hi

end Runs

theorem sample_ne_reporting : AddonConfiguration.reporting.toStorageDict ≠ AddonConfiguration.sample.toStorageDict := by
  intro h
  simp [AddonConfiguration.toStorageDict, AddonConfiguration.storageMembers, AddonConfiguration.reporting,
    AddonConfiguration.sample] at h

/-- Two installs ask for the film at one address, in turn: the second still
builds its own answer. -/
theorem installs_isolated_twoInstalls :
    ((System.run { cache := Cache.empty,
                   progs := requestsOf plainDeployment (fun first : Bool => if first then .sample else .reporting)
                     fun _ => callTo "a.example" } oneThenOther).progs false) =
      (System.run { cache := Cache.empty,
                    progs := requestsOf plainDeployment (fun first : Bool => if first then .sample else .reporting)
                      fun _ => callTo "a.example" } (oneThenOther.filter fun ev => ev.who = false)).progs false := by
  refine installs_isolated (fun _ => callTo "a.example") ?_ Cache.empty oneThenOther rfl
  intro i j hi hj
  have hj : j = true := by simpa using hj
  subst hi hj
  exact sample_ne_reporting

end Plexio
