/-
From what a client is shown to what it plays: the catalogs show an item under
an id (`to_stremio_meta_review`), `get_meta` lists a show's episodes under
theirs (`to_stremio_meta`, `to_stremio_video_meta`), and another add-on's
metadata names an episode by the show's IMDb id and two numbers.

`clicks_lead_back`: of a Plex server that has a fixed library, any ids so shown
are looked up in any interleaving over one cache, with outages in between; a
lookup that ends finds the item its id was shown for, or has met an outage.
-/
import Plexio.EpisodeNumbers
import Plexio.Outages
import Plexio.RecentlyAdded

namespace Plexio

open Py Json CacheProg

/-! ## The answer of `get_meta` -/

/-- Of a video, what is made of the fields an episode has here. -/
structure StremioVideoMeta where
  id : Str
  title : Str
  episode : Int
  season : Int
  deriving DecidableEq

/-- Without the background: of `art`, which nothing here reads. -/
structure StremioMeta where
  id : Str
  type : StremioMediaType
  name : Str
  releaseInfo : Str
  imdbRating : Option Int
  description : Str
  poster : Option Str
  genres : List Str
  videos : Option (List StremioVideoMeta) := none
  deriving DecidableEq

/-- The id of Plexio's own: of the rating key, else of the GUID. -/
def nativeId (ratingKey : Option Str) (guid : Str) : Except Exc Str :=
  if Yarl.truthy ratingKey then ratingKeyToPlexioId (ratingKey.getD []) else pure (guidToPlexioId guid)

def PlexEpisodeMeta.toStremioVideoMeta (self : PlexEpisodeMeta) : Except Exc StremioVideoMeta := do
  let id ← nativeId self.ratingKey self.guid
  pure { id, title := self.title, episode := self.index, season := self.parentIndex }

section Meta
variable (localYear : Int → Except Exc Str)

/-- `localYear` is the year of a timestamp, where the server is. -/
def PlexMediaMeta.getYear (self : PlexMediaMeta) : Except Exc Str :=
  match self.year with
  | some year => if year ≠ 0 then formatInt year else localYear self.addedAt
  | none => localYear self.addedAt

def PlexMediaMeta.toStremioMeta {Y : Yarl} (self : PlexMediaMeta) (c : AddonConfiguration Y) : Except Exc StremioMeta := do
  let id ← nativeId self.ratingKey self.guid
  let type ← index (plexToStremioMediaType self.type)
  let releaseInfo ← self.getYear localYear
  let poster ← self.poster c
  let genres ← self.genre.mapM index
  pure { id, type, name := self.title, releaseInfo, imdbRating := self.audienceRating, description := self.summary,
         poster, genres }

variable (D : Deployment) (c : AddonConfiguration D.yarl)

/-- `get_meta`, with its answer. -/
def getMetaReply (stremioType : StremioMediaType) (plexId : Str) : Prog plexSig StremioMeta := do
  let media ← metaMedia D c plexId
  match media with
  | [] => .throw httpNotFound
  | item :: _ => do
    let answer ← Prog.lift (item.toStremioMeta localYear c)
    if stremioType = .series then do
      let episodes ← getAllEpisodes D c.discoveryUrl c.accessToken item.key false none
      let videos ← Prog.lift (episodes.mapM PlexEpisodeMeta.toStremioVideoMeta)
      pure { answer with videos := some videos }
    else pure answer

end Meta

/-! ## A Plex server and its library -/

/-- What a server has: each item in full, and the leaves it lists for a show's key. -/
structure Shelf where
  items : List Metadata
  leaves : Str → List Metadata

/-- An item of the shelf, as the add-on reads it. -/
def Shelf.Has (shelf : Shelf) (m : PlexMediaMeta) : Prop := ∃ item ∈ shelf.items, PlexMediaMeta.validate item = .ok m

/-- A leaf is listed for an episode. -/
def LeafOf (leaf : Metadata) (m : PlexMediaMeta) : Prop := leaf.ratingKey = m.ratingKey ∧ leaf.guid = some m.guid

/-- What a library keeps to: rating keys are numbers, an item's GUID tells what
type it is, and IMDb ids look like those. -/
structure Shelf.Kept (shelf : Shelf) : Prop where
  valid : ∀ item ∈ shelf.items, ∃ m, PlexMediaMeta.validate item = .ok m
  keyed : ∀ m, shelf.Has m → ∃ k, m.ratingKey = some k ∧ isAsciiDigits k = true
  named : ∀ m, shelf.Has m → m.guid ≠ []
  types : ∀ m m', shelf.Has m → shelf.Has m' → m.guid = m'.guid → m.type = m'.type
  imdb : ∀ m, shelf.Has m → ∀ id, m.imdbId = some id → id ≠ [] → startswith id "tt".toList = true ∧ ':' ∉ id
  leaves : ∀ m, shelf.Has m → m.type = .tvShow → ∃ key episodes, m.key = some key ∧
    episodesOf (shelf.leaves key) = .ok episodes ∧ ∀ leaf ∈ shelf.leaves key, ∃ m', shelf.Has m' ∧ LeafOf leaf m'

section Served
variable (D : Deployment) (c : AddonConfiguration D.yarl) (serve : ∀ q, plexSig.Answer q)

/-- What Plex answers for a rating key. -/
def Described (ratingKey : Str) (item : Metadata) : Prop :=
  ∃ library url json, divide c.discoveryUrl "library/metadata".toList = .ok library ∧ divide library ratingKey = .ok url ∧
    serve ⟨D.yarl.str url,
      tokenParam c.accessToken ++ [("includeElements".toList, "Stream".toList), ("includeGuids".toList, "1".toList)]⟩ = .ok json ∧
    metadataOf json = .ok [item]

/-- What Plex lists for a GUID. -/
def ListedUnder (guid : Str) (items : List Metadata) : Prop :=
  ∃ url json, divide c.discoveryUrl "library/all".toList = .ok url ∧
    serve ⟨D.yarl.str url, ("guid".toList, guid) :: tokenParam c.accessToken⟩ = .ok json ∧ metadataOf json = .ok items

/-- What a listing tells of an item. -/
def Metadata.entry (item : Metadata) : Option Str × Option Str := (item.ratingKey, item.type)

/-- **Plex serves the library**, and its matcher knows films and shows by their IMDb ids. -/
structure ServesShelf (shelf : Shelf) : Prop where
  described : ∀ item ∈ shelf.items, ∀ k, item.ratingKey = some k → Described D c serve k item
  listed : ∀ guid, ∃ items, ListedUnder D c serve guid items ∧
    items.map Metadata.entry = (shelf.items.filter (·.guid == some guid)).map Metadata.entry
  leaves : ∀ m, shelf.Has m → m.type = .tvShow → ∀ key, m.key = some key → LeavesServed D c serve key (shelf.leaves key)
  matched : ∀ m, shelf.Has m → m.type ≠ .episode → ∀ id, m.imdbId = some id → id ≠ [] →
    (imdbToPlexId D c.accessToken id m.type).alone serve = .ok (some m.guid)

end Served

/-! ## What a client is shown -/

/-- An item as a catalog lists it. -/
structure ListedAs (listing m : PlexMediaMeta) : Prop where
  ratingKey : listing.ratingKey = m.ratingKey
  guid : listing.guid = m.guid
  type : listing.type = m.type
  imdbId : listing.imdbId = m.imdbId

section Shown
variable (localYear : Int → Except Exc Str) (D : Deployment) (c : AddonConfiguration D.yarl) (serve : ∀ q, plexSig.Answer q)

/-- What is shown for an item: to ask for its streams by a type and an id. -/
inductive Shown (shelf : Shelf) : StremioMediaType × Str → PlexMediaMeta → Prop
  /-- A film of a catalog. -/
  | film {m listing : PlexMediaMeta} {preview : StremioMetaPreview} (has : shelf.Has m) (type : m.type = .movie)
      (lists : ListedAs listing m) (shown : listing.toStremioMetaReview c = .ok preview) :
      Shown shelf (preview.type, preview.id) m
  /-- A video of the metadata of a show of a catalog. -/
  | video {series listing m : PlexMediaMeta} {preview : StremioMetaPreview} {reply : StremioMeta}
      {videos : List StremioVideoMeta} {key : Str} {i : Nat} {video : StremioVideoMeta} {leaf : Metadata}
      (has : shelf.Has series) (type : series.type = .tvShow) (lists : ListedAs listing series)
      (shown : listing.toStremioMetaReview c = .ok preview)
      (replied : (getMetaReply localYear D c preview.type preview.id).alone serve = .ok reply)
      (listed : reply.videos = some videos) (there : videos[i]? = some video)
      (keyed : series.key = some key) (leafAt : (shelf.leaves key)[i]? = some leaf)
      (hasLeaf : shelf.Has m) (leafOf : LeafOf leaf m) : Shown shelf (reply.type, video.id) m
  /-- An episode of a show that has an IMDb id, by its numbers; every copy of the show has it under these. -/
  | episode {series m : PlexMediaMeta} {id key : Str} {i : Nat} {leaf : Metadata} {season episode : Int}
      (has : shelf.Has series) (type : series.type = .tvShow) (imdb : series.imdbId = some id) (nonempty : id ≠ [])
      (keyed : series.key = some key) (leafAt : (shelf.leaves key)[i]? = some leaf)
      (numbers : leaf.numbersAt i = (season, episode)) (hasLeaf : shelf.Has m) (leafOf : LeafOf leaf m)
      (copies : ∀ m', shelf.Has m' → m'.guid = series.guid → ∀ key', m'.key = some key' →
        ∀ j (leaf' : Metadata), (shelf.leaves key')[j]? = some leaf' → leaf'.numbersAt j = (season, episode) → leaf'.guid = leaf.guid) :
      Shown shelf (.series, id ++ ':' :: strInt season ++ ':' :: strInt episode) m

end Shown

/-! ## Lookups in the library -/

/-- An item that is valid is of a known type, and is read as it is. -/
theorem validate_ok {item : Metadata} {m : PlexMediaMeta} (h : PlexMediaMeta.validate item = .ok m) :
    isMedia item = true ∧ item.guid = some m.guid ∧ item.ratingKey = m.ratingKey ∧ item.key = m.key := by
  obtain ⟨guid, hguid, h⟩ := bind_ok.mp h
  cases htype : item.type with
  | none => simp only [htype] at h; cases h
  | some t =>
    cases hlookup : PlexMediaType.table.lookup t with
    | none => simp only [htype, hlookup] at h; cases h
    | some type =>
      simp only [htype, hlookup] at h
      obtain ⟨type, -, h⟩ := bind_ok.mp h
      obtain ⟨title, -, h⟩ := bind_ok.mp h
      cases h
      exact ⟨by rw [isMedia, htype, Option.bind_some, hlookup]; rfl, required_some hguid, rfl, rfl⟩

section Lookups
variable {D : Deployment} {c : AddonConfiguration D.yarl} {serve : ∀ q, plexSig.Answer q} {shelf : Shelf}

/-- The item of a rating key. -/
theorem ServesShelf.alone_fetch (hserved : ServesShelf D c serve shelf) {item : Metadata} (hitem : item ∈ shelf.items)
    {m : PlexMediaMeta} (hm : PlexMediaMeta.validate item = .ok m) {k : Str} (hk : m.ratingKey = some k) :
    (fetchMediaByRatingKey D c.discoveryUrl c.accessToken k).alone serve = .ok [m] := by
  obtain ⟨library, url, json, hlibrary, hurl, hjson, hmetadata⟩ :=
    hserved.described item hitem k ((validate_ok hm).2.2.1.trans hk)
  rw [fetchMediaByRatingKey, hlibrary, Prog.lift_ok, Prog.ret_bind, hurl, Prog.lift_ok, Prog.ret_bind, getJson]
  show (Prog.lift (serve _) >>= _).alone serve = _
  rw [hjson, Prog.lift_ok, Prog.ret_bind, hmetadata, Prog.lift_ok, Prog.ret_bind, Prog.alone_lift,
    List.filter_cons_of_pos (validate_ok hm).1]
  show (PlexMediaMeta.validate item >>= _) = _
  rw [hm]
  rfl

theorem ServesShelf.alone_ratingKey (hserved : ServesShelf D c serve shelf) {m : PlexMediaMeta} (hm : shelf.Has m) {k : Str}
    (hk : m.ratingKey = some k) (cache : Bool) (ns : Option Str) :
    (getMediaByRatingKey D c.discoveryUrl c.accessToken k cache ns).alone serve = .ok [m] := by
  obtain ⟨item, hitem, hvalid⟩ := hm
  rw [alone_getMediaByRatingKey]
  exact hserved.alone_fetch hitem hvalid hk

/-- The rating keys a listing of items gives. -/
theorem Shelf.Kept.listedKeys (hkept : shelf.Kept) {items : List Metadata} : ∀ {own : List Metadata},
    items.map Metadata.entry = own.map Metadata.entry → (∀ item ∈ own, item ∈ shelf.items) →
      ∃ keys, (items.filter isMedia).mapM (fun item => index item.ratingKey) = .ok keys ∧
        keys.map some = own.map (·.ratingKey) := by
  induction items with
  | nil =>
    intro own hentries _
    rw [List.map_eq_nil_iff.mp hentries.symm]
    exact ⟨[], rfl, rfl⟩
  | cons listed items ih =>
    intro own hentries hown
    cases own with
    | nil => cases hentries
    | cons item own =>
      obtain ⟨hentry, hentries⟩ := List.cons.inj hentries
      obtain ⟨hratingKey, htype⟩ := Prod.mk.inj hentry
      obtain ⟨keys, hkeys, hsome⟩ := ih hentries fun x hx => hown x (List.mem_cons_of_mem _ hx)
      obtain ⟨m, hm⟩ := hkept.valid item (hown item List.mem_cons_self)
      obtain ⟨k, hk, -⟩ := hkept.keyed m ⟨item, hown item List.mem_cons_self, hm⟩
      obtain ⟨hmedia, -, hitem, -⟩ := validate_ok hm
      have hlisted : isMedia listed = true := by rw [isMedia, htype]; exact hmedia
      rw [hitem, hk] at hratingKey
      refine ⟨k :: keys, ?_, by rw [List.map_cons, List.map_cons, hsome, hitem, hk]⟩
      rw [List.filter_cons_of_pos hlisted, List.mapM_cons, hratingKey, hkeys]
      rfl

/-- The items of rating keys. -/
theorem ServesShelf.alone_groups (hserved : ServesShelf D c serve shelf) (hkept : shelf.Kept) {keys : List Str} :
    ∀ {own : List Metadata}, keys.map some = own.map (·.ratingKey) → (∀ item ∈ own, item ∈ shelf.items) →
      ∃ groups, (keys.mapM fun k => (fetchMediaByRatingKey D c.discoveryUrl c.accessToken k).alone serve) = .ok groups ∧
        ∀ m, m ∈ groups.flatten ↔ ∃ item ∈ own, PlexMediaMeta.validate item = .ok m := by
  induction keys with
  | nil =>
    intro own hkeys _
    rw [List.map_eq_nil_iff.mp hkeys.symm]
    exact ⟨[], rfl, by simp⟩
  | cons k keys ih =>
    intro own hkeys hown
    cases own with
    | nil => cases hkeys
    | cons item own =>
      obtain ⟨hk, hkeys⟩ := List.cons.inj hkeys
      obtain ⟨groups, hgroups, hmem⟩ := ih hkeys fun x hx => hown x (List.mem_cons_of_mem _ hx)
      obtain ⟨m, hm⟩ := hkept.valid item (hown item List.mem_cons_self)
      have hfetch := hserved.alone_fetch (hown item List.mem_cons_self) hm ((validate_ok hm).2.2.1.symm.trans hk.symm)
      refine ⟨[m] :: groups, by rw [List.mapM_cons, hfetch, hgroups]; rfl, fun m' => ?_⟩
      rw [List.flatten_cons, List.mem_append, List.mem_singleton, hmem]
      constructor
      · intro h
        obtain rfl | ⟨x, hx, hxm⟩ := h
        · exact ⟨item, List.mem_cons_self, hm⟩
        · exact ⟨x, List.mem_cons_of_mem _ hx, hxm⟩
      · intro h
        obtain ⟨x, hx, hxm⟩ := h
        obtain rfl | hx := List.mem_cons.mp hx
        · exact .inl (Except.ok.inj (hxm.symm.trans hm))
        · exact .inr ⟨x, hx, hxm⟩

/-- The items of a GUID. -/
theorem ServesShelf.alone_getMedia (hserved : ServesShelf D c serve shelf) (hkept : shelf.Kept) (guid : Str) (cache : Bool)
    (ns : Option Str) : ∃ found, (getMedia D c.discoveryUrl c.accessToken guid false cache ns).alone serve = .ok found ∧
      ∀ m, m ∈ found ↔ shelf.Has m ∧ m.guid = guid := by
  obtain ⟨items, ⟨url, json, hurl, hjson, hmetadata⟩, hentries⟩ := hserved.listed guid
  have hown : ∀ item ∈ shelf.items.filter (·.guid == some guid), item ∈ shelf.items := fun item hitem =>
    (List.mem_filter.mp hitem).1
  obtain ⟨keys, hkeys, hsome⟩ := hkept.listedKeys hentries hown
  obtain ⟨groups, hgroups, hmem⟩ := hserved.alone_groups hkept hsome hown
  refine ⟨groups.flatten, ?_, fun m => ?_⟩
  · rw [getMedia, alone_cachedModelList, fetchMedia, hurl, Prog.lift_ok, Prog.ret_bind, getJson]
    show (Prog.lift (serve _) >>= _).alone serve = _
    rw [hjson, Prog.lift_ok, Prog.ret_bind, hmetadata, Prog.lift_ok, Prog.ret_bind]
    simp only [Bool.false_eq_true, if_false, hkeys]
    rw [Prog.lift_ok, Prog.ret_bind, Prog.alone_bind, Prog.alone_mapM, hgroups]
    rfl
  · rw [hmem]
    constructor
    · intro h
      obtain ⟨item, hitem, hm⟩ := h
      obtain ⟨hitem, hguid⟩ := List.mem_filter.mp hitem
      have hguid' := (validate_ok hm).2.1.symm.trans (eq_of_beq hguid)
      exact ⟨⟨item, hitem, hm⟩, Option.some.inj hguid'⟩
    · intro h
      obtain ⟨⟨item, hitem, hm⟩, rfl⟩ := h
      exact ⟨item, List.mem_filter.mpr ⟨hitem, by rw [(validate_ok hm).2.1]; exact beq_self_eq_true _⟩, hm⟩

/-! ## What the ids lead to -/

/-- A lookup's result for an item: the item, and what shares its rating key or GUID. -/
def Finds (m : PlexMediaMeta) (found : List PlexMediaMeta) : Prop :=
  m ∈ found ∧ ∀ x ∈ found, x.ratingKey = m.ratingKey ∨ x.guid = m.guid

/-- The stream lookup of an id, alone, finds the item. -/
def LeadsTo (D : Deployment) (c : AddonConfiguration D.yarl) (serve : ∀ q, plexSig.Answer q) (click : StremioMediaType × Str)
    (m : PlexMediaMeta) : Prop :=
  ∃ found, (resolveStreamMedia D c (configurationCacheNamespace D c) click.1 click.2).alone serve = .ok found ∧ Finds m found

theorem ServesShelf.leadsTo_ratingKey (hserved : ServesShelf D c serve shelf) {m : PlexMediaMeta} (hm : shelf.Has m) {k : Str}
    (hk : m.ratingKey = some k) (hdigits : isAsciiDigits k = true) (stremioType : StremioMediaType) :
    LeadsTo D c serve (stremioType, plexioRatingKeyPrefix ++ k) m := by
  refine ⟨[m], ?_, List.mem_singleton_self m, fun x hx => .inl (by rw [List.mem_singleton.mp hx])⟩
  rw [resolveStreamMedia_ratingKeyValue D c _ _ (.single hdigits), resolveRatingKeyStreamMedia_single D c _ _ hdigits]
  exact hserved.alone_ratingKey hm hk true _

theorem truthy_some {s : Str} (h : s ≠ []) : Yarl.truthy (some s) = true := by
  obtain ⟨ch, chs, rfl⟩ := List.exists_cons_of_ne_nil h
  rfl

/-- A GUID that an IMDb id is matched to. -/
theorem ServesShelf.leadsTo_matched (hserved : ServesShelf D c serve shelf) (hkept : shelf.Kept) {m : PlexMediaMeta}
    (hm : shelf.Has m) {stremioType : StremioMediaType} {id : Str} (htt : startswith id "tt".toList = true)
    (hmatched : (stremioToPlexId D c.discoveryUrl c.accessToken id (stremioToPlexMediaType stremioType)
      (some (configurationCacheNamespace D c))).alone serve = .ok (some m.guid)) :
    LeadsTo D c serve (stremioType, id) m := by
  obtain ⟨found, hfound, hmem⟩ := hserved.alone_getMedia hkept m.guid true (some (configurationCacheNamespace D c))
  refine ⟨found, ?_, (hmem m).mpr ⟨hm, rfl⟩, fun x hx => .inr ((hmem x).mp hx).2⟩
  simp only [resolveStreamMedia, htt, if_true]
  rw [Prog.alone_bind, hmatched, ok_bind, if_pos (truthy_some (hkept.named m hm))]
  exact hfound

/-! ### IMDb ids -/

/-- With nothing cached, an id is matched. -/
theorem alone_stremioToPlexId {id guid : Str} {mediaType : PlexMediaType} (hguid : guid ≠ [])
    (h : ∀ ns, (matchStremioId D c.discoveryUrl c.accessToken id mediaType true ns).alone serve = .ok (some guid)) (ns : Str) :
    (stremioToPlexId D c.discoveryUrl c.accessToken id mediaType (some ns)).alone serve = .ok (some guid) := by
  rw [stremioToPlexId]
  show (matchStremioId D c.discoveryUrl c.accessToken id mediaType true _ >>= _).alone serve = _
  rw [Prog.alone_bind, h, ok_bind]
  obtain ⟨ch, chs, rfl⟩ := List.exists_cons_of_ne_nil hguid
  rfl

/-- A film's IMDb id. -/
theorem ServesShelf.matched_film (hserved : ServesShelf D c serve shelf) (hkept : shelf.Kept) {m : PlexMediaMeta}
    (hm : shelf.Has m) (htype : m.type = .movie) {id : Str} (hid : m.imdbId = some id) (hne : id ≠ []) (ns : Option Str) :
    (matchStremioId D c.discoveryUrl c.accessToken id .movie true ns).alone serve = .ok (some m.guid) := by
  have hmatched := hserved.matched m hm (by rw [htype]; decide) id hid hne
  rw [htype] at hmatched
  rw [matchStremioId, show parseStremioId .movie id = some (id, none) from rfl]
  dsimp only
  rw [Prog.alone_bind, hmatched, ok_bind, if_pos (truthy_some (hkept.named m hm))]
  rw [Prog.pure_eq, Prog.ret_bind, if_pos (truthy_some (hkept.named m hm))]
  rfl

/-! ### Episodes -/

/-- An episode and its leaf. -/
theorem episode_leaf {leaves : List Metadata} {episodes : List PlexEpisodeMeta} (h : episodesOf leaves = .ok episodes)
    {j : Nat} {leaf : Metadata} {e : PlexEpisodeMeta} (hleaf : leaves[j]? = some leaf) (he : episodes[j]? = some e) :
    e.numbers = leaf.numbersAt j ∧ leaf.guid = some e.guid ∧ e.ratingKey = leaf.ratingKey := by
  obtain ⟨hnumbers, hguids, hkeys⟩ := episodesOf_ok h
  have hn := congrArg (·[j]?) hnumbers
  have hg := congrArg (·[j]?) hguids
  have hk := congrArg (·[j]?) hkeys
  simp only [List.getElem?_map, List.getElem?_zipIdx, hleaf, he, Option.map_some, Option.some.injEq, Nat.zero_add] at hn hg hk
  exact ⟨hn, hg.symm, hk⟩

theorem episodes_length {leaves : List Metadata} {episodes : List PlexEpisodeMeta} (h : episodesOf leaves = .ok episodes) :
    episodes.length = leaves.length := by
  have hlength := congrArg List.length (episodesOf_ok h).2.2
  simpa using hlength

theorem isEpisode_numbers (season episode : Int) (e : PlexEpisodeMeta) :
    isEpisode (strInt season) (strInt episode) e = decide (e.numbers = (season, episode)) := by
  have hself := congrFun (isEpisode_eq { e with parentIndex := season, index := episode }) e
  exact hself

/-- The episode of these numbers, in the first of a show's copies that has it. -/
theorem ServesShelf.alone_firstEpisodeGuid (hserved : ServesShelf D c serve shelf) (hkept : shelf.Kept) {guid : Str}
    (hne : guid ≠ []) {season episode : Int} {copies : List PlexMediaMeta}
    (hshows : ∀ x ∈ copies, shelf.Has x ∧ x.type = .tvShow)
    (hsame : ∀ x ∈ copies, ∀ key, x.key = some key → ∀ j (leaf : Metadata), (shelf.leaves key)[j]? = some leaf →
      leaf.numbersAt j = (season, episode) → leaf.guid = some guid)
    (hthere : ∃ x ∈ copies, ∃ key, x.key = some key ∧ ∃ j, ∃ leaf : Metadata, (shelf.leaves key)[j]? = some leaf ∧
      leaf.numbersAt j = (season, episode)) (cache : Bool) (ns : Option Str) :
    (firstEpisodeGuid D c.discoveryUrl c.accessToken (strInt season) (strInt episode) cache ns copies).alone serve =
      .ok (some guid) := by
  induction copies with
  | nil =>
    obtain ⟨x, hx, -⟩ := hthere
    cases hx
  | cons x rest ih =>
    obtain ⟨hx, htype⟩ := hshows x List.mem_cons_self
    obtain ⟨key, episodes, hkey, hepisodes, -⟩ := hkept.leaves x hx htype
    have hepisode : (getEpisodeGuid D c.discoveryUrl c.accessToken x.key (strInt season) (strInt episode) cache ns).alone serve =
        .ok ((episodes.find? (isEpisode (strInt season) (strInt episode))).map (·.guid)) := by
      rw [getEpisodeGuid, hkey, Prog.alone_bind, (hserved.leaves x hx htype key hkey).alone, hepisodes, ok_bind]
      rfl
    rw [firstEpisodeGuid, Prog.alone_bind, hepisode, ok_bind]
    cases hfind : episodes.find? (isEpisode (strInt season) (strInt episode)) with
    | some e =>
      have hnumbers := List.find?_some hfind
      rw [isEpisode_numbers, decide_eq_true_eq] at hnumbers
      obtain ⟨j, hj⟩ := List.mem_iff_getElem?.mp (List.mem_of_find?_eq_some hfind)
      obtain ⟨leaf, hleaf⟩ : ∃ leaf, (shelf.leaves key)[j]? = some leaf := by
        have hlt := (List.getElem?_eq_some_iff.mp hj).1
        rw [episodes_length hepisodes] at hlt
        exact ⟨_, List.getElem?_eq_getElem hlt⟩
      obtain ⟨hn, hguid, -⟩ := episode_leaf hepisodes hleaf hj
      have hsameGuid := hsame x List.mem_cons_self key hkey j leaf hleaf (hn.symm.trans hnumbers)
      rw [hguid, Option.some.injEq] at hsameGuid
      rw [Option.map_some, hsameGuid, if_pos (truthy_some hne)]
      rfl
    | none =>
      rw [Option.map_none, if_neg (by decide)]
      refine ih (fun y hy => hshows y (List.mem_cons_of_mem _ hy)) (fun y hy => hsame y (List.mem_cons_of_mem _ hy)) ?_
      obtain ⟨y, hy, hhas⟩ := hthere
      obtain rfl | hy := List.mem_cons.mp hy
      · exfalso
        obtain ⟨key', hkey', j, leaf, hleaf, hnumbers⟩ := hhas
        obtain rfl : key' = key := Option.some.inj (hkey'.symm.trans hkey)
        have hlt := (List.getElem?_eq_some_iff.mp hleaf).1
        rw [← episodes_length hepisodes] at hlt
        have he := List.getElem?_eq_getElem hlt
        have hnone := List.find?_eq_none.mp hfind _ (List.mem_of_getElem? he)
        rw [isEpisode_numbers, (episode_leaf hepisodes hleaf he).1, hnumbers] at hnone
        exact hnone (decide_eq_true rfl)
      · exact ⟨y, hy, hhas⟩

theorem split_numbers {id : Str} (h : ':' ∉ id) (season episode : Int) :
    split ':' (id ++ ':' :: strInt season ++ ':' :: strInt episode) = [id, strInt season, strInt episode] := by
  have hjoin : id ++ ':' :: strInt season ++ ':' :: strInt episode = [':'].intercalate [id, strInt season, strInt episode] := by
    simp [List.intercalate]
  rw [hjoin]
  refine split_join ?_ (by simp)
  simp only [List.mem_cons, List.not_mem_nil, or_false, forall_eq_or_imp, forall_eq]
  exact ⟨h, not_mem_strInt (by decide) (by decide) season, not_mem_strInt (by decide) (by decide) episode⟩

/-- An episode's numbers, under its show's IMDb id. -/
theorem ServesShelf.matched_episode (hserved : ServesShelf D c serve shelf) (hkept : shelf.Kept) {series m : PlexMediaMeta}
    (hseries : shelf.Has series) (htype : series.type = .tvShow) {id key : Str} (hid : series.imdbId = some id) (hne : id ≠ [])
    (hm : shelf.Has m) {season episode : Int} {i : Nat} {leaf : Metadata} (hkey : series.key = some key)
    (hleaf : (shelf.leaves key)[i]? = some leaf) (hnumbers : leaf.numbersAt i = (season, episode)) (hof : LeafOf leaf m)
    (hcopies : ∀ m', shelf.Has m' → m'.guid = series.guid → ∀ key', m'.key = some key' →
      ∀ j (leaf' : Metadata), (shelf.leaves key')[j]? = some leaf' → leaf'.numbersAt j = (season, episode) →
        leaf'.guid = leaf.guid) (ns : Option Str) :
    (matchStremioId D c.discoveryUrl c.accessToken (id ++ ':' :: strInt season ++ ':' :: strInt episode) .tvShow true ns).alone
      serve = .ok (some m.guid) := by
  have hparse : parseStremioId .tvShow (id ++ ':' :: strInt season ++ ':' :: strInt episode) =
      some (id, some (strInt season, strInt episode)) := by
    rw [parseStremioId, if_pos rfl, split_numbers (hkept.imdb series hseries id hid hne).2]
  have hmatched := hserved.matched series hseries (by rw [htype]; decide) id hid hne
  rw [htype] at hmatched
  have htruthy := truthy_some (hkept.named series hseries)
  obtain ⟨found, hfound, hmem⟩ := hserved.alone_getMedia hkept series.guid true ns
  rw [matchStremioId, hparse]
  dsimp only
  rw [Prog.alone_bind, hmatched, ok_bind, if_pos htruthy]
  rw [Prog.pure_eq, Prog.ret_bind, if_pos htruthy, Prog.alone_bind]
  have hfound' : (getMedia D c.discoveryUrl c.accessToken ((some series.guid).getD []) false true ns).alone serve =
      .ok found := hfound
  rw [hfound', ok_bind]
  refine hserved.alone_firstEpisodeGuid hkept (hkept.named m hm) (fun x hx => ?_) (fun x hx key' hkey' j leaf' hleaf' hn => ?_) ?_
    true ns
  · obtain ⟨hx, hguid⟩ := (hmem x).mp hx
    exact ⟨hx, (hkept.types x series hx hseries hguid).trans htype⟩
  · obtain ⟨hx, hguid⟩ := (hmem x).mp hx
    exact (hcopies x hx hguid key' hkey' j leaf' hleaf' hn).trans hof.2
  · exact ⟨series, (hmem series).mpr ⟨hseries, rfl⟩, key, hkey, i, leaf, hleaf, hnumbers⟩

/-! ## What is shown leads back -/

theorem review_ok {listing : PlexMediaMeta} {preview : StremioMetaPreview} (h : listing.toStremioMetaReview c = .ok preview) :
    listing.stremioId = .ok preview.id ∧ plexToStremioMediaType listing.type = some preview.type := by
  obtain ⟨id, hid, h⟩ := bind_ok.mp h
  cases hyear : listing.year
  all_goals
    simp only [hyear] at h
    obtain ⟨releaseInfo, -, h⟩ := bind_ok.mp h
    obtain ⟨poster, -, h⟩ := bind_ok.mp h
    obtain ⟨type, htype, h⟩ := bind_ok.mp h
    obtain ⟨genres, -, h⟩ := bind_ok.mp h
    cases h
    exact ⟨hid, index_ok.mp htype⟩

/-- An item is shown under its IMDb id, or under its rating key. -/
theorem Shelf.Kept.shownId (hkept : shelf.Kept) {m listing : PlexMediaMeta} (hm : shelf.Has m) (hlists : ListedAs listing m)
    {id : Str} (hid : listing.stremioId = .ok id) :
    (m.imdbId = some id ∧ id ≠ []) ∨
      ∃ k, m.ratingKey = some k ∧ isAsciiDigits k = true ∧ id = plexioRatingKeyPrefix ++ k := by
  obtain ⟨k, hk, hdigits⟩ := hkept.keyed m hm
  rw [PlexMediaMeta.stremioId, hlists.imdbId, hlists.ratingKey, hk] at hid
  split at hid
  · next htruthy =>
    obtain ⟨ch, chs, himdb⟩ := Yarl.truthy_iff.mp htruthy
    rw [himdb] at hid
    cases hid
    exact .inl ⟨himdb, List.cons_ne_nil ch chs⟩
  · rw [if_pos (truthy_some (isAsciiDigits_iff.mp hdigits).1), Option.getD_some, ratingKeyToPlexioId_ok hdigits] at hid
    exact .inr ⟨k, hk, hdigits, (Except.ok.inj hid).symm⟩

theorem toStremioMeta_ok {localYear : Int → Except Exc Str} {item : PlexMediaMeta} {answer : StremioMeta}
    (h : item.toStremioMeta localYear c = .ok answer) :
    nativeId item.ratingKey item.guid = .ok answer.id ∧ plexToStremioMediaType item.type = some answer.type ∧
      answer.name = item.title := by
  obtain ⟨id, hid, h⟩ := bind_ok.mp h
  obtain ⟨type, htype, h⟩ := bind_ok.mp h
  obtain ⟨releaseInfo, -, h⟩ := bind_ok.mp h
  obtain ⟨poster, -, h⟩ := bind_ok.mp h
  obtain ⟨genres, -, h⟩ := bind_ok.mp h
  cases h
  exact ⟨hid, index_ok.mp htype, rfl⟩

/-- What `get_meta` answers of a show. -/
theorem ServesShelf.replied (hserved : ServesShelf D c serve shelf) {localYear : Int → Except Exc Str}
    {series : PlexMediaMeta} (hseries : shelf.Has series) (htype : series.type = .tvShow) {key k : Str}
    (hkey : series.key = some key) (hk : series.ratingKey = some k) (hdigits : isAsciiDigits k = true) {reply : StremioMeta}
    (h : (getMetaReply localYear D c .series (plexioRatingKeyPrefix ++ k)).alone serve = .ok reply) :
    reply.id = plexioRatingKeyPrefix ++ k ∧ reply.name = series.title ∧ reply.type = .series ∧
      ∃ episodes videos, episodesOf (shelf.leaves key) = .ok episodes ∧
        episodes.mapM PlexEpisodeMeta.toStremioVideoMeta = .ok videos ∧ reply.videos = some videos := by
  rw [getMetaReply, metaMedia_ratingKey D c (.single hdigits), Prog.alone_bind, hserved.alone_ratingKey hseries hk, ok_bind] at h
  dsimp only at h
  rw [Prog.alone_bind, Prog.alone_lift, bind_ok] at h
  obtain ⟨answer, hanswer, h⟩ := h
  obtain ⟨hid, hanswerType, hname⟩ := toStremioMeta_ok hanswer
  rw [if_pos rfl, Prog.alone_bind, hkey, (hserved.leaves series hseries htype key hkey).alone, bind_ok] at h
  obtain ⟨episodes, hepisodes, h⟩ := h
  rw [Prog.alone_bind, Prog.alone_lift, bind_ok] at h
  obtain ⟨videos, hvideos, h⟩ := h
  cases h
  rw [nativeId, hk, if_pos (truthy_some (isAsciiDigits_iff.mp hdigits).1), Option.getD_some, ratingKeyToPlexioId_ok hdigits] at hid
  rw [htype] at hanswerType
  exact ⟨(Except.ok.inj hid).symm, hname, (Option.some.inj hanswerType).symm, episodes, videos, hepisodes, hvideos, rfl⟩

theorem not_plexio_of_tt {id : Str} (h : startswith id "tt".toList = true) : startswith id "plexio:".toList = false := by
  obtain ⟨rest, rfl⟩ := startswith_iff.mp h
  rfl

/-- What an element was made of. -/
theorem mapM_getElem? {α β : Type} {f : α → Except Exc β} {as : List α} {bs : List β} (h : as.mapM f = .ok bs) {i : Nat} {b : β}
    (hb : bs[i]? = some b) : ∃ a, as[i]? = some a ∧ f a = .ok b := by
  obtain ⟨hlength, hget⟩ := List.forall₂_iff_get.mp (mapM_ok.mp h)
  obtain ⟨hlt, rfl⟩ := List.getElem?_eq_some_iff.mp hb
  have hlt' : i < as.length := hlength ▸ hlt
  exact ⟨as[i], List.getElem?_eq_getElem hlt', hget i hlt' hlt⟩

/-- An id that is shown is of a rating key, or is an IMDb id, alone for a film
and with numbers for an episode, that is matched to the item's GUID. -/
theorem ServesShelf.shown_cases (hserved : ServesShelf D c serve shelf) (hkept : shelf.Kept) {localYear : Int → Except Exc Str}
    {click : StremioMediaType × Str} {m : PlexMediaMeta} (hshown : Shown localYear D c serve shelf click m) :
    shelf.Has m ∧
      ((∃ k, m.ratingKey = some k ∧ isAsciiDigits k = true ∧ click.2 = plexioRatingKeyPrefix ++ k) ∨
        (startswith click.2 "tt".toList = true ∧ (click.1 = .movie ↔ ':' ∉ click.2) ∧
          ∀ ns, (matchStremioId D c.discoveryUrl c.accessToken click.2 (stremioToPlexMediaType click.1) true ns).alone serve =
            .ok (some m.guid))) := by
  cases hshown with
  | film has type lists shown =>
    obtain ⟨hid, htype⟩ := review_ok shown
    rw [lists.type, type] at htype
    rw [← Option.some.inj htype]
    refine ⟨has, ?_⟩
    obtain ⟨himdb, hne⟩ | ⟨k, hk, hdigits, hshown⟩ := hkept.shownId has lists hid
    · obtain ⟨htt, hcolon⟩ := hkept.imdb _ has _ himdb hne
      exact .inr ⟨htt, iff_of_true rfl hcolon, hserved.matched_film hkept has type himdb hne⟩
    · exact .inl ⟨k, hk, hdigits, hshown⟩
  | @video series listing _ preview reply videos key i video leaf has type lists shown replied listed there keyed leafAt hasLeaf leafOf =>
    refine ⟨hasLeaf, .inl ?_⟩
    obtain ⟨hid, htype⟩ := review_ok shown
    rw [lists.type, type] at htype
    rw [← Option.some.inj htype] at replied
    obtain ⟨himdb, hne⟩ | ⟨k, hk, hdigits, hshown⟩ := hkept.shownId has lists hid
    · -- An IMDb id is none that `get_meta` answers.
      have hplexio : startswith preview.id "plexio:".toList = false := not_plexio_of_tt (hkept.imdb _ has _ himdb hne).1
      rw [getMetaReply, metaMedia, hplexio] at replied
      cases replied
    · rw [hshown] at replied
      obtain ⟨-, -, -, episodes, videos', hepisodes, hvideos, hreply⟩ := hserved.replied has type keyed hk hdigits replied
      obtain rfl : videos' = videos := Option.some.inj (hreply.symm.trans listed)
      obtain ⟨k', hk', hdigits'⟩ := hkept.keyed m hasLeaf
      obtain ⟨e, he, hvideo⟩ := mapM_getElem? hvideos there
      obtain ⟨-, -, hrating⟩ := episode_leaf hepisodes leafAt he
      obtain ⟨id, hid, hvideo⟩ := bind_ok.mp hvideo
      cases hvideo
      rw [nativeId, hrating, leafOf.1, hk', if_pos (truthy_some (isAsciiDigits_iff.mp hdigits').1), Option.getD_some,
        ratingKeyToPlexioId_ok hdigits'] at hid
      exact ⟨k', hk', hdigits', (Except.ok.inj hid).symm⟩
  | @episode series _ id key i leaf season episode has type imdb nonempty keyed leafAt numbers hasLeaf leafOf copies =>
    refine ⟨hasLeaf, .inr ⟨?_, iff_of_false (fun h => by cases h) (fun h => h ?_), ?_⟩⟩
    · rw [List.append_assoc]
      exact startswith_iff.mpr ((startswith_iff.mp (hkept.imdb _ has _ imdb nonempty).1).trans (List.prefix_append _ _))
    · simp
    · exact hserved.matched_episode hkept has type imdb nonempty hasLeaf keyed leafAt numbers leafOf copies

/-- **Every id that is shown leads to what it was shown for.** -/
theorem ServesShelf.leadsTo (hserved : ServesShelf D c serve shelf) (hkept : shelf.Kept) {localYear : Int → Except Exc Str}
    {click : StremioMediaType × Str} {m : PlexMediaMeta} (hshown : Shown localYear D c serve shelf click m) :
    LeadsTo D c serve click m := by
  obtain ⟨type, id⟩ := click
  obtain ⟨hm, ⟨k, hk, hdigits, rfl⟩ | ⟨htt, -, hmatched⟩⟩ := hserved.shown_cases hkept hshown
  · exact hserved.leadsTo_ratingKey hm hk hdigits type
  · exact hserved.leadsTo_matched hkept hm htt (alone_stremioToPlexId (hkept.named m hm) hmatched _)

/-- No IMDb id is shown for both types. -/
theorem ServesShelf.shown_oneType (hserved : ServesShelf D c serve shelf) (hkept : shelf.Kept) {localYear : Int → Except Exc Str}
    {click click' : StremioMediaType × Str} {m m' : PlexMediaMeta} (hshown : Shown localYear D c serve shelf click m)
    (hshown' : Shown localYear D c serve shelf click' m') (hid : click.2 = click'.2)
    (htt : startswith click.2 "tt".toList = true) : click.1 = click'.1 := by
  have htype : ∀ {click : StremioMediaType × Str} {m : PlexMediaMeta}, Shown localYear D c serve shelf click m →
      startswith click.2 "tt".toList = true → (click.1 = .movie ↔ ':' ∉ click.2) := by
    intro click m hshown htt
    obtain ⟨-, ⟨k, -, -, hk⟩ | ⟨-, htype, -⟩⟩ := hserved.shown_cases hkept hshown
    · rw [hk, ratingKeyId_eq, not_startswith_tt] at htt
      cases htt
    · exact htype
  have hother := htype hshown' (hid ▸ htt)
  rw [← hid] at hother
  have hsame := (htype hshown htt).trans hother.symm
  cases h : click.1 <;> cases h' : click'.1 <;> simp_all

end Lookups

/-! ## Clicks -/

section Clicks
variable {ι : Type} [DecidableEq ι] {localYear : Int → Except Exc Str} {D : Deployment} {c : AddonConfiguration D.yarl}
  {serve : ∀ q, plexSig.Answer q} {shelf : Shelf}

/-- **A click leads back.** A Plex server has a fixed library. Streams are asked
for by ids that clients have been shown: films of a catalog, videos of a show's
metadata, episodes under a show's IMDb id. The lookups share one cache, in any
interleaving, with outages of Plex in between. A lookup that ends has met an
outage at a question of its own, or has found the item its id was shown for,
and nothing but copies of it. -/
theorem clicks_lead_back (hkept : shelf.Kept) (hserved : ServesShelf D c serve shelf) (calls : ι → StremioMediaType × Str)
    (targets : ι → PlexMediaMeta) (hshown : ∀ i, Shown localYear D c serve shelf (calls i) (targets i))
    {evs : List (Event plexSig ι)} (hev : ∀ ev ∈ evs, ev.Unreliable outage False serve) {i : ι}
    {result : Except Exc (List PlexMediaMeta)}
    (hresult : (((System.start (lookupOf D c calls)).run evs).progs i).outcome = some result) :
    (∃ e, Met evs i e ∧ result = .error e) ∨ ∃ found, result = .ok found ∧ Finds (targets i) found := by
  have hone : ∀ i j, (calls i).2 = (calls j).2 → startswith (calls i).2 "tt".toList = true → (calls i).1 = (calls j).1 :=
    fun i j => hserved.shown_oneType hkept (hshown i) (hshown j)
  obtain ⟨-, hprogs⟩ := run_outages hev (s := System.start (lookupOf D c calls)) (Cache.Holds.empty _)
    (soundUnless_lookupOf D c calls hone)
  obtain ⟨hcases, -⟩ := outcome_cases ((hprogs i).outcome hresult)
  obtain halone | hfailed := hcases
  · obtain ⟨found, hfound, hfinds⟩ := hserved.leadsTo hkept (hshown i)
    exact .inr ⟨found, halone.trans hfound, hfinds⟩
  · exact .inl hfailed

end Clicks

/-! ## A library of a film and a show -/

/-- A film with an IMDb id. -/
def shelvedFilm : Metadata where
  type := some "movie".toList
  guid := some "plex://movie/1".toList
  title := some "Film".toList
  ratingKey := some "1".toList
  guids := [some "imdb://tt1".toList]

def shelvedShow : Metadata where
  type := some "show".toList
  guid := some "plex://show/2".toList
  title := some "Show".toList
  ratingKey := some "2".toList
  key := some "/library/metadata/2/children".toList

def shelvedEpisode : Metadata where
  type := some "episode".toList
  guid := some "plex://episode/3".toList
  title := some "Pilot".toList
  ratingKey := some "3".toList
  parentIndex := some 1
  index := some 1

def filmAndShow : Shelf := ⟨[shelvedFilm, shelvedShow, shelvedEpisode], fun _ => [shelvedEpisode]⟩

/-- A Plex that has these. -/
def serveFilmAndShow (q : PlexGet) : Except Exc (Option MediaContainer) :=
  let found : List Metadata :=
    if "/library/metadata/1".toList <:+ q.url then [shelvedFilm]
    else if "/library/metadata/2".toList <:+ q.url then [shelvedShow]
    else if "/library/metadata/3".toList <:+ q.url then [shelvedEpisode]
    else if "/allLeaves".toList <:+ q.url then [shelvedEpisode]
    else if "/matches".toList <:+ q.url then [shelvedFilm]
    else filmAndShow.items.filter (·.guid == q.params.lookup "guid".toList)
  .ok (some { totalSize := some 1, metadata := some found })

/-- The film, as the add-on reads it. -/
def theirFilm : PlexMediaMeta where
  guid := "plex://movie/1".toList
  type := .movie
  title := "Film".toList
  ratingKey := some "1".toList
  key := none
  librarySectionTitle := none
  duration := none
  media := []
  guids := [some "imdb://tt1".toList]

def theirShow : PlexMediaMeta where
  guid := "plex://show/2".toList
  type := .tvShow
  title := "Show".toList
  ratingKey := some "2".toList
  key := some "/library/metadata/2/children".toList
  librarySectionTitle := none
  duration := none
  media := []

def theirEpisode : PlexMediaMeta where
  guid := "plex://episode/3".toList
  type := .episode
  title := "Pilot".toList
  ratingKey := some "3".toList
  key := none
  librarySectionTitle := none
  duration := none
  media := []

theorem filmAndShow_has {m : PlexMediaMeta} : filmAndShow.Has m ↔ m ∈ [theirFilm, theirShow, theirEpisode] := by
  have hfilm : PlexMediaMeta.validate shelvedFilm = .ok theirFilm := by decide +kernel
  have hshow : PlexMediaMeta.validate shelvedShow = .ok theirShow := by decide +kernel
  have hepisode : PlexMediaMeta.validate shelvedEpisode = .ok theirEpisode := by decide +kernel
  simp [Shelf.Has, filmAndShow, hfilm, hshow, hepisode, eq_comm]

theorem filmAndShow_show {m : PlexMediaMeta} (hm : filmAndShow.Has m) (htype : m.type = .tvShow) : m = theirShow := by
  have h : ∀ m ∈ [theirFilm, theirShow, theirEpisode], m.type = .tvShow → m = theirShow := by decide
  exact h m (filmAndShow_has.mp hm) htype

theorem filmAndShow_imdb {m : PlexMediaMeta} (hm : filmAndShow.Has m) {id : Str} (hid : m.imdbId = some id) :
    m = theirFilm ∧ id = "tt1".toList := by
  have h : ∀ m ∈ [theirFilm, theirShow, theirEpisode], m.imdbId = none ∨ m = theirFilm := by decide
  have hfilm : theirFilm.imdbId = some "tt1".toList := by decide
  obtain hnone | rfl := h m (filmAndShow_has.mp hm)
  · rw [hnone] at hid
    cases hid
  · exact ⟨rfl, Option.some.inj (hid.symm.trans hfilm)⟩

theorem filmAndShow_kept : filmAndShow.Kept where
  valid item hitem := by
    have h : ∀ item ∈ filmAndShow.items, ∃ m ∈ [theirFilm, theirShow, theirEpisode], PlexMediaMeta.validate item = .ok m := by
      decide +kernel
    obtain ⟨m, -, hm⟩ := h item hitem
    exact ⟨m, hm⟩
  keyed m hm := by
    have h : ∀ m ∈ [theirFilm, theirShow, theirEpisode], ∃ k ∈ ["1".toList, "2".toList, "3".toList],
      m.ratingKey = some k ∧ isAsciiDigits k = true := by decide
    obtain ⟨k, -, hk⟩ := h m (filmAndShow_has.mp hm)
    exact ⟨k, hk⟩
  named m hm := by
    have h : ∀ m ∈ [theirFilm, theirShow, theirEpisode], m.guid ≠ [] := by decide
    exact h m (filmAndShow_has.mp hm)
  types m m' hm hm' := by
    have h : ∀ m ∈ [theirFilm, theirShow, theirEpisode], ∀ m' ∈ [theirFilm, theirShow, theirEpisode],
      m.guid = m'.guid → m.type = m'.type := by decide
    exact h m (filmAndShow_has.mp hm) m' (filmAndShow_has.mp hm')
  imdb m hm id hid _ := by
    obtain ⟨-, rfl⟩ := filmAndShow_imdb hm hid
    decide
  leaves m hm htype := by
    obtain rfl := filmAndShow_show hm htype
    let episode : PlexEpisodeMeta := ⟨"plex://episode/3".toList, "Pilot".toList, 1, 1, some "3".toList⟩
    refine ⟨_, [episode], rfl, by decide +kernel, fun leaf hleaf => ?_⟩
    obtain rfl := List.mem_singleton.mp hleaf
    exact ⟨theirEpisode, filmAndShow_has.mpr (by simp), rfl, rfl⟩

theorem filmAndShow_served : ServesShelf plainDeployment AddonConfiguration.sample serveFilmAndShow filmAndShow where
  described item hitem k hk := by
    simp only [filmAndShow, List.mem_cons, List.not_mem_nil, or_false] at hitem
    rcases hitem with rfl | rfl | rfl
    all_goals
      cases hk
      exact ⟨_, _, _, rfl, rfl, rfl, by decide +kernel⟩
  listed guid := by
    let own := filmAndShow.items.filter (·.guid == some guid)
    exact ⟨own, ⟨_, some { totalSize := some 1, metadata := some own }, rfl, rfl, rfl⟩, rfl⟩
  leaves m hm htype key hkey := by
    obtain rfl := filmAndShow_show hm htype
    cases hkey
    let children : PlainUrl := { PlainUrl.http "10.0.0.2:32400" with path := "/library/metadata/2/children".toList }
    exact ⟨children, _, rfl, rfl, by decide +kernel⟩
  matched m hm _ id hid _ := by
    obtain ⟨rfl, rfl⟩ := filmAndShow_imdb hm hid
    decide +kernel

/-- What a catalog shows of each. -/
def theirPreview (id : String) (type : StremioMediaType) (name : String) : StremioMetaPreview where
  id := id.toList
  type := type
  name := name.toList
  poster := none
  genres := []
  imdbRating := none
  releaseInfo := "None".toList
  description := []

def theirVideo : StremioVideoMeta := ⟨"plexio:rk-3".toList, "Pilot".toList, 1, 1⟩

/-- The metadata of the show. -/
def theirReply : StremioMeta where
  id := "plexio:rk-2".toList
  type := .series
  name := "Show".toList
  releaseInfo := "2024".toList
  imdbRating := none
  description := []
  poster := none
  genres := []
  videos := some [theirVideo]

/-- The film of a catalog, and the episode of the show's metadata. -/
def theirIds : Bool → StremioMediaType × Str
  | true => (.movie, "tt1".toList)
  | false => (.series, "plexio:rk-3".toList)

def theirItems : Bool → PlexMediaMeta
  | true => theirFilm
  | false => theirEpisode

def in2024 (_ : Int) : Except Exc Str := .ok "2024".toList

theorem theirIds_shown (i : Bool) :
    Shown in2024 plainDeployment AddonConfiguration.sample serveFilmAndShow filmAndShow (theirIds i) (theirItems i) := by
  have has : ∀ m ∈ [theirFilm, theirShow, theirEpisode], filmAndShow.Has m := fun m => filmAndShow_has.mpr
  cases i with
  | true =>
    have hshown : theirFilm.toStremioMetaReview AddonConfiguration.sample = .ok (theirPreview "tt1" .movie "Film") := by
      decide +kernel
    exact .film (has theirFilm (by simp)) rfl ⟨rfl, rfl, rfl, rfl⟩ hshown
  | false =>
    have hshown : theirShow.toStremioMetaReview AddonConfiguration.sample = .ok (theirPreview "plexio:rk-2" .series "Show") := by
      decide +kernel
    have hreplied : (getMetaReply in2024 plainDeployment AddonConfiguration.sample .series "plexio:rk-2".toList).alone
        serveFilmAndShow = .ok theirReply := by decide +kernel
    have hthere : [theirVideo][0]? = some theirVideo := rfl
    exact .video (has theirShow (by simp)) rfl ⟨rfl, rfl, rfl, rfl⟩ hshown hreplied rfl hthere rfl rfl
      (has theirEpisode (by simp)) ⟨rfl, rfl⟩

/-- While the film is looked up, Plex is down for the episode. -/
def downForEpisode : List (Event plexSig Bool) :=
  List.replicate 2 ⟨true, 0, serveFilmAndShow, .works⟩ ++ List.replicate 2 ⟨false, 0, plexDown, .works⟩ ++
    List.replicate 5 ⟨true, 0, serveFilmAndShow, .works⟩

theorem downForEpisode_unreliable : ∀ ev ∈ downForEpisode, ev.Unreliable outage False serveFilmAndShow := by
  intro ev hev
  simp only [downForEpisode, List.mem_append, List.mem_replicate] at hev
  rcases hev with (⟨-, rfl⟩ | ⟨-, rfl⟩) | ⟨-, rfl⟩
  · exact ⟨fun q => .inl rfl, fun ⟨_, h⟩ => by cases h⟩
  · exact ⟨fun q => .inr ⟨_, rfl, by simp⟩, fun ⟨_, h⟩ => by cases h⟩
  · exact ⟨fun q => .inl rfl, fun ⟨_, h⟩ => by cases h⟩

theorem clicks_lead_back_filmAndShow :
    ∃ found, (((System.start (lookupOf plainDeployment AddonConfiguration.sample theirIds)).run downForEpisode).progs
      true).outcome = some (.ok found) ∧ Finds theirFilm found := by
  have hresult : (((System.start (lookupOf plainDeployment AddonConfiguration.sample theirIds)).run downForEpisode).progs
      true).outcome = some (.ok [theirFilm]) := by decide +kernel
  obtain ⟨_, _, h⟩ | ⟨found, h, hfinds⟩ := clicks_lead_back filmAndShow_kept filmAndShow_served theirIds theirItems
    theirIds_shown downForEpisode_unreliable hresult
  · cases h
  · exact ⟨found, by rw [hresult, h], hfinds⟩

end Plexio
