/-
Whether season and episode numbers tell the episode. `get_meta` reports a
show's leaves with Plex's numbers; one without an index is given its place in
the whole list (`setdefault`). Both ways back from the numbers to the episode
take the first that matches, so they find it as long as no two have the same
(`find?_iff_nodup`), which is as long as no place is another's number.
-/
import Mathlib.Data.List.Sigma
import Plexio.LookupCache

namespace Plexio

open Py Json CacheProg

/-! ## The first that matches -/

section First
variable {α κ γ : Type} [DecidableEq κ] {key : α → κ} {name : α → γ}

theorem find?_of_nodup : ∀ {as : List α}, (as.map key).Nodup → ∀ a ∈ as, as.find? (fun b => key b = key a) = some a
  | [], _, a, ha => absurd ha List.not_mem_nil
  | b :: bs, h, a, ha => by
    rw [List.map_cons, List.nodup_cons] at h
    rcases List.mem_cons.mp ha with rfl | ha
    · exact List.find?_cons_of_pos (by simp)
    · have hne : key b ≠ key a := fun heq => h.1 (heq ▸ List.mem_map_of_mem ha)
      rw [List.find?_cons_of_neg (by simpa using hne)]
      exact find?_of_nodup h.2 a ha

/-- Each item is found by its key exactly if no two keys are the same. -/
theorem find?_iff_nodup : ∀ {as : List α}, (as.map name).Nodup →
    ((∀ a ∈ as, (as.find? fun b => key b = key a).map name = some (name a)) ↔ (as.map key).Nodup)
  | [], _ => by simp
  | b :: bs, hnames => by
    rw [List.map_cons, List.nodup_cons] at hnames
    constructor
    · intro h
      have hfirst : key b ∉ bs.map key := by
        intro hmem
        obtain ⟨a, ha, heq⟩ := List.mem_map.mp hmem
        have hfound := h a (List.mem_cons_of_mem b ha)
        rw [List.find?_cons_of_pos (by simpa using heq.symm), Option.map_some, Option.some.injEq] at hfound
        exact hnames.1 (hfound ▸ List.mem_map_of_mem ha)
      refine List.nodup_cons.mpr ⟨hfirst, (find?_iff_nodup hnames.2).mp fun a ha => ?_⟩
      have hne : key b ≠ key a := fun heq => hfirst (heq ▸ List.mem_map_of_mem ha)
      have hfound := h a (List.mem_cons_of_mem b ha)
      rwa [List.find?_cons_of_neg (by simpa using hne)] at hfound
    · intro h a ha
      rw [find?_of_nodup h a ha, Option.map_some]

end First

/-! ## Numbers -/

theorem strInt_inj {m n : Int} (h : strInt m = strInt n) : m = n := by
  have hstops : Stops [] := by intro c hc; cases hc
  have hm := readInt_strInt m hstops
  rw [h, readInt_strInt n hstops, Option.some.injEq] at hm
  exact (congrArg Prod.fst hm).symm

/-- The season and the episode number `get_meta` reports. -/
def PlexEpisodeMeta.numbers (episode : PlexEpisodeMeta) : Int × Int := (episode.parentIndex, episode.index)

/-- The same of a leaf, at its place in the list. -/
def Metadata.numbersAt (leaf : Metadata) (i : Nat) : Int × Int := (leaf.parentIndex.getD 0, leaf.index.getD i)

theorem isEpisode_eq (episode : PlexEpisodeMeta) :
    isEpisode (strInt episode.parentIndex) (strInt episode.index) =
      fun other => decide (other.numbers = episode.numbers) := by
  funext other
  rw [isEpisode, Bool.eq_iff_iff]
  simp only [Bool.and_eq_true, beq_iff_eq, decide_eq_true_eq, PlexEpisodeMeta.numbers, Prod.mk.injEq]
  exact ⟨fun h => ⟨strInt_inj h.1, strInt_inj h.2⟩, fun h => ⟨congrArg strInt h.1, congrArg strInt h.2⟩⟩

theorem required_some {name : String} {o : Option Str} {s : Str} (h : required name o = .ok s) : o = some s := by
  cases o with
  | none => cases h
  | some t => cases h; rfl

/-- The episodes made of a list of leaves. -/
def episodesOf (leaves : List Metadata) : Except Exc (List PlexEpisodeMeta) :=
  leaves.zipIdx.mapM fun (item, i) => PlexEpisodeMeta.validate i item

theorem episodesOf_ok {leaves : List Metadata} {episodes : List PlexEpisodeMeta} (h : episodesOf leaves = .ok episodes) :
    episodes.map PlexEpisodeMeta.numbers = leaves.zipIdx.map (fun x => x.1.numbersAt x.2) ∧
      episodes.map (some ·.guid) = leaves.map (·.guid) ∧ episodes.map (·.ratingKey) = leaves.map (·.ratingKey) := by
  have hall := mapM_ok.mp h
  clear h
  have hleaves : leaves = leaves.zipIdx.map Prod.fst := (List.zipIdx_map_fst 0 leaves).symm
  rw [congrArg (List.map (·.guid)) hleaves, congrArg (List.map (·.ratingKey)) hleaves]
  generalize leaves.zipIdx = numbered at hall
  induction hall with
  | nil => exact ⟨rfl, rfl, rfl⟩
  | cons hx _ ih =>
    obtain ⟨guid, hguid, hx⟩ := bind_ok.mp hx
    obtain ⟨title, -, hx⟩ := bind_ok.mp hx
    cases hx
    simp only [List.map_cons, ih.1, ih.2.1, ih.2.2, required_some hguid, Metadata.numbersAt, PlexEpisodeMeta.numbers,
      and_self]

/-! ## The show's leaves -/

/-- The leaves that carry an index are told apart by their numbers. -/
def Numbered (leaves : List Metadata) : Prop :=
  ∀ x ∈ leaves.zipIdx, ∀ y ∈ leaves.zipIdx, x.1.index.isSome → y.1.index.isSome →
    x.1.numbersAt x.2 = y.1.numbersAt y.2 → x = y

/-- No leaf's number is the place of one of the season without an index. -/
def PlacesFree (leaves : List Metadata) : Prop :=
  ∀ x ∈ leaves.zipIdx, x.1.index = none → ∀ y ∈ leaves, y.index = some (x.2 : Int) → y.parentIndex.getD 0 ≠ x.1.parentIndex.getD 0

instance (leaves : List Metadata) : Decidable (Numbered leaves) := by unfold Numbered; infer_instance

instance (leaves : List Metadata) : Decidable (PlacesFree leaves) := by unfold PlacesFree; infer_instance

theorem nodup_numbers_iff {leaves : List Metadata} (h : Numbered leaves) :
    (leaves.zipIdx.map fun x => x.1.numbersAt x.2).Nodup ↔ PlacesFree leaves := by
  rw [List.nodup_map_iff_inj_on (List.nodup_zipIdx_map_snd leaves).of_map]
  constructor
  · intro hinj x hx hnone y hy hindex hseason
    obtain ⟨j, hj⟩ := List.mem_iff_getElem?.mp hy
    have hyj : (y, j) ∈ leaves.zipIdx := List.mem_zipIdx_iff_getElem?.mpr hj
    have hsame : x.1.numbersAt x.2 = y.numbersAt j := by
      simp only [Metadata.numbersAt, hnone, hindex, hseason, Option.getD_none, Option.getD_some]
    rw [hinj x hx (y, j) hyj hsame, hindex] at hnone
    cases hnone
  · intro hfree x hx y hy hsame
    obtain ⟨hseason, hnumber⟩ := Prod.mk.inj hsame
    cases hxi : x.1.index <;> cases hyi : y.1.index <;> rw [hxi, hyi] at hnumber
    · -- Two places are the same only for the same leaf.
      have hplace : x.2 = y.2 := by simpa using hnumber
      obtain ⟨leaf, i⟩ := x
      obtain ⟨leaf', j⟩ := y
      rw [List.mem_zipIdx_iff_getElem?] at hx hy
      dsimp only at hplace hx hy
      rw [hplace, hy, Option.some.injEq] at hx
      rw [hx, hplace]
    · refine absurd hseason.symm (hfree x hx hxi y.1 (List.fst_mem_of_mem_zipIdx hy) ?_)
      rw [hyi]
      exact congrArg some hnumber.symm
    · refine absurd hseason (hfree y hy hyi x.1 (List.fst_mem_of_mem_zipIdx hx) ?_)
      rw [hxi]
      exact congrArg some hnumber
    · exact h x hx y hy (by simp [hxi]) (by simp [hyi]) hsame

/-! ## Lookups of an episode -/

section Lookups
variable (D : Deployment) (c : AddonConfiguration D.yarl) (serve : ∀ q, plexSig.Answer q)

/-- These are the leaves Plex returns for a show. -/
def LeavesServed (key : Str) (leaves : List Metadata) : Prop :=
  ∃ children json, divide c.discoveryUrl (key.drop 1) = .ok children ∧
    serve ⟨replace "/children".toList "/allLeaves".toList (D.yarl.str children), tokenParam c.accessToken⟩ = .ok json ∧
    metadataOf json = .ok leaves

variable {D c serve}

theorem alone_cachedModelList {α : Type} {cache : Bool} {key : Str} {codec : Codec (List α)} {loader : Prog plexSig (List α)}
    {ttl : Nat} : (Prod.fst <$> cachedModelList cache key codec loader ttl).alone serve = loader.alone serve := by
  have hget : (if 0 < ttl then cacheGet cache key else pure none : Prog plexSig (Option Str)).alone serve = .ok none := by
    split
    · cases cache <;> rfl
    · rfl
  have hset : ∀ value, (cacheSet cache key value ttl).alone serve = .ok () := by
    intro value
    unfold cacheSet
    split <;> rfl
  rw [map_eq_pure_bind, Prog.alone_bind, cachedModelList, Prog.alone_bind, hget, ok_bind]
  dsimp only [Option.bind_none]
  rw [Prog.alone_bind]
  cases loader.alone serve with
  | error e => rfl
  | ok items =>
    rw [ok_bind, Prog.alone_bind, hset]
    rfl

theorem alone_getMediaByRatingKey (ratingKey : Str) (cache : Bool) (ns : Option Str) :
    (getMediaByRatingKey D c.discoveryUrl c.accessToken ratingKey cache ns).alone serve =
      (fetchMediaByRatingKey D c.discoveryUrl c.accessToken ratingKey).alone serve := alone_cachedModelList

/-- A show's episodes are those of its leaves. -/
theorem LeavesServed.alone {key : Str} {leaves : List Metadata} (h : LeavesServed D c serve key leaves) (cache : Bool)
    (ns : Option Str) :
    (getAllEpisodes D c.discoveryUrl c.accessToken (some key) cache ns).alone serve = episodesOf leaves := by
  obtain ⟨children, json, hchildren, hjson, hleaves⟩ := h
  rw [getAllEpisodes, alone_cachedModelList, fetchAllEpisodes, hchildren, Prog.lift_ok, Prog.ret_bind, getJson]
  show (Prog.lift (serve _) >>= _).alone serve = _
  rw [hjson, Prog.lift_ok, Prog.ret_bind, hleaves, Prog.lift_ok, Prog.ret_bind, Prog.alone_lift]
  rfl

/-- What `get_meta` reports of a series. -/
theorem getMeta_series {showRatingKey : Str} (hrk : isAsciiDigits showRatingKey = true) {item : PlexMediaMeta}
    {episodes : List PlexEpisodeMeta}
    (h : (getMeta D c .series (plexioRatingKeyPrefix ++ showRatingKey)).alone serve = .ok (item, some episodes)) :
    (∃ others, (fetchMediaByRatingKey D c.discoveryUrl c.accessToken showRatingKey).alone serve = .ok (item :: others)) ∧
      (getAllEpisodes D c.discoveryUrl c.accessToken item.key false none).alone serve = .ok episodes := by
  rw [getMeta, metaMedia_ratingKey D c (.single hrk), Prog.alone_bind, bind_ok] at h
  obtain ⟨media, hmedia, h⟩ := h
  rw [alone_getMediaByRatingKey] at hmedia
  cases media with
  | nil => cases h
  | cons first others =>
    dsimp only at h
    rw [if_pos rfl, Prog.alone_bind, bind_ok] at h
    obtain ⟨found, hfound, h⟩ := h
    cases h
    exact ⟨⟨others, hmedia⟩, hfound⟩

/-- A composite id is taken apart again, and its episode's rating key looked up. -/
theorem alone_resolveEpisode (ns : Str) {showRatingKey key : Str} (hrk : isAsciiDigits showRatingKey = true)
    {item : PlexMediaMeta} {others : List PlexMediaMeta} (hkey : item.key = some key)
    (hshow : (fetchMediaByRatingKey D c.discoveryUrl c.accessToken showRatingKey).alone serve = .ok (item :: others))
    {leaves : List Metadata} (hleaves : LeavesServed D c serve key leaves) {episodes : List PlexEpisodeMeta}
    (hepisodes : episodesOf leaves = .ok episodes) {season episode : Int} {k : Char} {ks : Str}
    (hfind : (episodes.find? (isEpisode (strInt season) (strInt episode))).bind (·.ratingKey) = some (k :: ks)) :
    (resolveRatingKeyStreamMedia D c ns .series (showRatingKey ++ ':' :: strInt season ++ ':' :: strInt episode)).alone serve =
      (getMediaByRatingKey D c.discoveryUrl c.accessToken (k :: ks) true (some ns)).alone serve := by
  have hsplit : split ':' (showRatingKey ++ ':' :: strInt season ++ ':' :: strInt episode) =
      [showRatingKey, strInt season, strInt episode] := by
    have hjoin : showRatingKey ++ ':' :: strInt season ++ ':' :: strInt episode =
        [':'].intercalate [showRatingKey, strInt season, strInt episode] := by simp [List.intercalate]
    rw [hjoin]
    refine split_join ?_ (by simp)
    simp only [List.mem_cons, List.not_mem_nil, or_false, forall_eq_or_imp, forall_eq]
    exact ⟨colon_not_mem hrk, not_mem_strInt (by decide) (by decide) season,
      not_mem_strInt (by decide) (by decide) episode⟩
  simp only [resolveRatingKeyStreamMedia, hsplit]
  rw [Prog.alone_bind, alone_getMediaByRatingKey, hshow, ok_bind]
  dsimp only
  rw [hkey, Prog.alone_bind, hleaves.alone, hepisodes, ok_bind, hfind]

/-- **Numbers identify the episode**: exactly when no leaf's number is the
place of one without an index, in one season; and every rating key is one. -/
theorem episode_numbers_iff (ns : Str) {showRatingKey key : Str} (hrk : isAsciiDigits showRatingKey = true)
    {item : PlexMediaMeta} (hkey : item.key = some key) {episodes : List PlexEpisodeMeta}
    (hmeta : (getMeta D c .series (plexioRatingKeyPrefix ++ showRatingKey)).alone serve = .ok (item, some episodes))
    {leaves : List Metadata} (hleaves : LeavesServed D c serve key leaves) (hnumbered : Numbered leaves)
    (hguids : (leaves.map (·.guid)).Nodup) (hkeys : ∀ leaf ∈ leaves, leaf.ratingKey.isSome) :
    (∀ e ∈ episodes,
      (getEpisodeGuid D c.discoveryUrl c.accessToken (some key) (strInt e.parentIndex) (strInt e.index) true (some ns)).alone
        serve = .ok (some e.guid) ∧
      ∃ ratingKey, e.ratingKey = some ratingKey ∧ ratingKey ≠ [] ∧
        (resolveRatingKeyStreamMedia D c ns .series
          (showRatingKey ++ ':' :: strInt e.parentIndex ++ ':' :: strInt e.index)).alone serve =
          (getMediaByRatingKey D c.discoveryUrl c.accessToken ratingKey true (some ns)).alone serve) ↔
      PlacesFree leaves ∧ ∀ leaf ∈ leaves, leaf.ratingKey ≠ some [] := by
  obtain ⟨⟨others, hshow⟩, hall⟩ := getMeta_series hrk hmeta
  rw [hkey, hleaves.alone] at hall
  obtain ⟨hnumbers, hnames, hratings⟩ := episodesOf_ok hall
  have hguid : ∀ e : PlexEpisodeMeta, (getEpisodeGuid D c.discoveryUrl c.accessToken (some key) (strInt e.parentIndex)
      (strInt e.index) true (some ns)).alone serve =
        .ok ((episodes.find? fun b => b.numbers = e.numbers).map (·.guid)) := by
    intro e
    rw [getEpisodeGuid, Prog.alone_bind, hleaves.alone, hall, ok_bind, isEpisode_eq]
    rfl
  have hnodup : (episodes.map (·.guid)).Nodup := by
    have hsome : episodes.map (some ·.guid) = (episodes.map (·.guid)).map some := by rw [List.map_map]; rfl
    rw [← hnames, hsome] at hguids
    exact hguids.of_map _
  rw [← nodup_numbers_iff hnumbered, ← hnumbers, ← find?_iff_nodup hnodup]
  constructor
  · intro h
    refine ⟨fun e he => ?_, fun leaf hleaf hempty => ?_⟩
    · have hfound := (h e he).1
      rw [hguid] at hfound
      exact Except.ok.inj hfound
    · have hmem : some [] ∈ episodes.map (·.ratingKey) := by
        rw [hratings, ← hempty]
        exact List.mem_map_of_mem hleaf
      obtain ⟨e, he, hnone⟩ := List.mem_map.mp hmem
      obtain ⟨ratingKey, hkey', hne, -⟩ := (h e he).2
      exact hne (Option.some.inj (hkey'.symm.trans hnone))
  · intro hcondition e he
    obtain ⟨hfound, hnonempty⟩ := hcondition
    have hself : episodes.find? (fun b => b.numbers = e.numbers) = some e :=
      find?_of_nodup ((find?_iff_nodup hnodup).mp hfound) e he
    refine ⟨by rw [hguid, hself, Option.map_some], ?_⟩
    have hmem : e.ratingKey ∈ leaves.map (·.ratingKey) := hratings ▸ List.mem_map_of_mem he
    obtain ⟨leaf, hleaf, hsame⟩ := List.mem_map.mp hmem
    obtain ⟨ratingKey, hrating⟩ := Option.isSome_iff_exists.mp (hkeys leaf hleaf)
    obtain ⟨k, ks, rfl⟩ : ∃ k ks, ratingKey = k :: ks := by
      refine List.exists_cons_of_ne_nil ?_
      rintro rfl
      exact hnonempty leaf hleaf hrating
    refine ⟨k :: ks, hsame.symm.trans hrating, List.cons_ne_nil _ _, ?_⟩
    refine alone_resolveEpisode ns hrk hkey hshow hleaves hall ?_
    rw [isEpisode_eq, hself, Option.bind_some, ← hsame, hrating]

end Lookups

/-! ## A show with a special -/

/-- An episode as Plex lists it; `index` is absent for some. -/
def leaf (ratingKey : String) (index : Option Int) : Metadata where
  guid := some ("plex://episode/".toList ++ ratingKey.toList)
  title := some "Episode".toList
  ratingKey := some ratingKey.toList
  parentIndex := some 1
  index := index

/-- A Plex with one show, which has these leaves. -/
def oneShow (leaves : List Metadata) (q : PlexGet) : Except Exc (Option MediaContainer) :=
  if "/allLeaves".toList <:+ q.url then .ok (some { totalSize := none, metadata := some leaves })
  else .ok (some {
    totalSize := none
    metadata := some [{ type := some "show".toList, guid := some "plex://show/1".toList, title := some "Show".toList,
                        ratingKey := some "1".toList, key := some "/library/metadata/1/children".toList }] })

/-- A special without an index, before the first episode. -/
def specialFirst : List Metadata := [leaf "10" none, leaf "11" (some 1)]

/-- One after it: its place is the episode's number. -/
def specialLast : List Metadata := [leaf "11" (some 1), leaf "12" none]

/-- The show, as `get_meta` reads it. -/
def theShow : PlexMediaMeta where
  guid := "plex://show/1".toList
  type := .tvShow
  title := "Show".toList
  ratingKey := some "1".toList
  key := some "/library/metadata/1/children".toList
  librarySectionTitle := none
  duration := none
  media := []

theorem oneShow_served (leaves : List Metadata) :
    LeavesServed plainDeployment AddonConfiguration.sample (oneShow leaves) "/library/metadata/1/children".toList leaves := by
  let children : PlainUrl := { PlainUrl.http "10.0.0.2:32400" with path := "/library/metadata/1/children".toList }
  refine ⟨children, some { totalSize := none, metadata := some leaves }, rfl, ?_, rfl⟩
  exact if_pos (by decide +kernel)

/-- The episodes made of a season's leaves `leaf`. -/
def theEpisode (ratingKey : String) (index : Int) : PlexEpisodeMeta where
  guid := "plex://episode/".toList ++ ratingKey.toList
  title := "Episode".toList
  index := index
  parentIndex := 1
  ratingKey := some ratingKey.toList

theorem special_first_identified :
    (getEpisodeGuid plainDeployment AddonConfiguration.sample.discoveryUrl "t0ken".toList theShow.key "1".toList "0".toList
      true (some "ns".toList)).alone (oneShow specialFirst) = .ok (some (theEpisode "10" 0).guid) ∧
    (getEpisodeGuid plainDeployment AddonConfiguration.sample.discoveryUrl "t0ken".toList theShow.key "1".toList "1".toList
      true (some "ns".toList)).alone (oneShow specialFirst) = .ok (some (theEpisode "11" 1).guid) := by
  have hmeta : (getMeta plainDeployment AddonConfiguration.sample .series (plexioRatingKeyPrefix ++ "1".toList)).alone
      (oneShow specialFirst) = .ok (theShow, some [theEpisode "10" 0, theEpisode "11" 1]) := by decide +kernel
  have hkey : theShow.key = some "/library/metadata/1/children".toList := rfl
  have hfound := (episode_numbers_iff "ns".toList (by decide) hkey hmeta (oneShow_served specialFirst) (by decide)
    (by decide +kernel) (by decide)).mpr ⟨by decide, by decide⟩
  exact ⟨(hfound (theEpisode "10" 0) (by simp)).1, (hfound (theEpisode "11" 1) (by simp)).1⟩

/-- After the first episode, the special's place is that episode's number. -/
theorem special_last_confused :
    Numbered specialLast ∧ (specialLast.map (·.guid)).Nodup ∧ (specialLast.map (·.ratingKey)).Nodup ∧
      (getMeta plainDeployment AddonConfiguration.sample .series (plexioRatingKeyPrefix ++ "1".toList)).alone
        (oneShow specialLast) = .ok (theShow, some [theEpisode "11" 1, theEpisode "12" 1]) ∧
      (getEpisodeGuid plainDeployment AddonConfiguration.sample.discoveryUrl "t0ken".toList theShow.key
        (strInt (theEpisode "12" 1).parentIndex) (strInt (theEpisode "12" 1).index) true (some "ns".toList)).alone
          (oneShow specialLast) = .ok (some (theEpisode "11" 1).guid) ∧
      (theEpisode "11" 1).guid ≠ (theEpisode "12" 1).guid := by
  refine ⟨by decide, by decide +kernel, by decide +kernel, by decide +kernel, by decide +kernel, by decide⟩

end Plexio
