/-
The catalog of recently added items (`_recently_added` of `routers/addon.py`):
each section of the type is asked for its newest items from the offset on, at
most 100, and the newest 100 of all answers are shown.

Stremio reads a catalog page by page, moving the offset by 100. The offset is
applied to every section alone, so what a page cuts off is on none of the
others. `recentlyAdded_paginates` says when the pages list every item once,
newest first: when nothing is ever cut. `sixty_and_sixty` are two sections for
which it is.
-/
import Plexio.Catalogs
import Plexio.Lib.Pages

namespace Plexio

open Py Json CacheProg Pages

/-! ## An item's preview -/

structure StremioMetaPreview where
  id : Str
  type : StremioMediaType
  name : Str
  poster : Option Str
  genres : List Str
  imdbRating : Option Int
  releaseInfo : Str
  description : Str
  deriving DecidableEq

namespace PlexMediaMeta
variable (self : PlexMediaMeta)

/-- What follows `imdb://` in the first GUID of that kind. -/
def imdbId : Option Str :=
  (self.guids.find? fun guid => startswith (guid.getD []) "imdb://".toList).map fun guid => sliceFrom 7 (guid.getD [])

/-- The IMDb id, else the Plex-native one. -/
def stremioId : Except Exc Str :=
  if Yarl.truthy self.imdbId then pure (self.imdbId.getD [])
  else if Yarl.truthy self.ratingKey then ratingKeyToPlexioId (self.ratingKey.getD [])
  else if mentions self.guid "://" then pure (guidToPlexioId self.guid)
  else pure self.guid

variable {Y : Yarl} (c : AddonConfiguration Y)

def poster : Except Exc (Option Str) :=
  if Yarl.truthy self.thumb then do
    let url ← divide c.streamingUrl ((self.thumb.getD []).drop 1)
    pure (some (Y.str (Y.mod url (tokenParam c.accessToken))))
  else pure none

def toStremioMetaReview : Except Exc StremioMetaPreview := do
  let id ← self.stremioId
  let releaseInfo ← match self.year with
    | none => pure "None".toList
    | some year => formatInt year
  let poster ← self.poster c
  let type ← index (plexToStremioMediaType self.type)
  let genres ← self.genre.mapM index
  pure { id, type, name := self.title, poster, genres, imdbRating := self.audienceRating, releaseInfo,
         description := self.summary }

end PlexMediaMeta

/-! ## The catalog -/

def recentSort : Str := "Date Added (desc)".toList

section Server
variable (D : Deployment) (url : D.yarl.Url) (token : Str)

def sectionUrl (sectionId : Str) : Except Exc D.yarl.Url := do
  let sections ← divide url "library/sections".toList
  let library ← divide sections sectionId
  divide library "all".toList

/-- What `get_section_media` asks for. -/
def sectionRequest (sectionId : Str) (skip : Nat) (search sort : Str) : Except Exc PlexGet := do
  let order ← (if sort.isEmpty then pure [] else do
    let value ← index (aliasOf sortOptions sort)
    pure [("sort".toList, value)] : Except Exc (List (Str × Str)))
  let url ← sectionUrl D url sectionId
  pure { url := D.yarl.str url
         params := [("includeGuids".toList, "1".toList), ("X-Plex-Container-Start".toList, strInt skip),
             ("X-Plex-Container-Size".toList, "100".toList)] ++ tokenParam token ++
           (if search.isEmpty then [] else [("title".toList, search)]) ++ order }

def getSectionMedia (sectionId : Str) (skip : Nat) (search sort : Str) : Prog plexSig (List PlexMediaMeta) := do
  let request ← Prog.lift (sectionRequest D url token sectionId skip search sort)
  let json ← getJson request.url request.params
  let metadata ← Prog.lift (metadataOf json)
  Prog.lift (metadata.mapM PlexMediaMeta.validate)

end Server

/-- `_sections_of_type` -/
def sectionsOfType {Y : Yarl} (c : AddonConfiguration Y) (stremioType : StremioMediaType) : List PlexLibrarySection :=
  c.sections.filter fun s => plexToStremioMediaType s.type == some stremioType

/-- The newest first. -/
def Newer (a b : PlexMediaMeta) : Prop := b.addedAt ≤ a.addedAt

instance : DecidableRel Newer := fun a b => inferInstanceAs (Decidable (b.addedAt ≤ a.addedAt))

/-- A sort that keeps the order of items of one date. -/
def recentlyAdded (D : Deployment) (c : AddonConfiguration D.yarl) (stremioType : StremioMediaType) (skip : Nat) :
    Prog plexSig (List StremioMetaPreview) := do
  let results ← (sectionsOfType c stremioType).mapM fun s =>
    getSectionMedia D c.discoveryUrl c.accessToken s.key skip [] recentSort
  Prog.lift (((results.flatten.insertionSort Newer).take 100).mapM fun m => m.toStremioMetaReview c)

/-! ## What its pages should be -/

section Paginates
variable (D : Deployment) (serve : ∀ q, plexSig.Answer q) (c : AddonConfiguration D.yarl)
  (stremioType : StremioMediaType) (content : Str → List PlexMediaMeta)

/-- The keys of the type's sections, as the configuration lists them. -/
def sectionKeys : List Str := (sectionsOfType c stremioType).map (·.key)

/-- Plex holds `content key` in the section, newest first, and answers a
request for it from an offset on with the next 100. -/
structure SectionsServed : Prop where
  sorted : ∀ key ∈ sectionKeys D c stremioType, (content key).Pairwise Newer
  answer : ∀ key ∈ sectionKeys D c stremioType, ∀ skip request,
    sectionRequest D c.discoveryUrl c.accessToken key skip [] recentSort = .ok request →
    ∃ json metadata, serve request = .ok json ∧ metadataOf json = .ok metadata ∧
      metadata.mapM PlexMediaMeta.validate = .ok (((content key).drop skip).take 100)

/-- `items` are all items of the sections, each once, newest first; the pages
from offset 0, 100, 200 and so on list their previews. -/
structure Lists (items : List PlexMediaMeta) (pages : Nat → List StremioMetaPreview) : Prop where
  all : items.Perm ((sectionKeys D c stremioType).dedup.flatMap content)
  newestFirst : items.Pairwise Newer
  page : ∀ k, (recentlyAdded D c stremioType (100 * k)).alone serve = .ok (pages k)
  concat : ∃ n, ∀ m, n ≤ m → items.mapM (fun item => item.toStremioMetaReview c) = .ok ((List.range m).flatMap pages)

def Paginates : Prop := ∃ items pages, Lists D serve c stremioType content items pages

/-- The keys of the sections that have items, as the configuration lists them. -/
def stockedKeys : List Str := (sectionKeys D c stremioType).filter fun key => !(content key).isEmpty

/-- Every section can be asked and every item shown; no section with items is
listed twice; and only one has items, or all have 100 together at most. -/
structure NothingCut : Prop where
  reached : ∀ key ∈ sectionKeys D c stremioType, ∃ url, sectionUrl D c.discoveryUrl key = .ok url
  shown : ∀ key ∈ sectionKeys D c stremioType, ∀ item ∈ content key, ∃ preview, item.toStremioMetaReview c = .ok preview
  distinct : (stockedKeys D c stremioType content).Nodup
  fits : (stockedKeys D c stremioType content).length ≤ 1 ∨
    ((sectionKeys D c stremioType).map fun key => (content key).length).sum ≤ 100

end Paginates

section Paginates
variable {D : Deployment} {serve : ∀ q, plexSig.Answer q} {c : AddonConfiguration D.yarl}
  {stremioType : StremioMediaType} {content : Str → List PlexMediaMeta}

instance : Std.Total Newer := ⟨fun a b => le_total b.addedAt a.addedAt⟩

instance : IsTrans PlexMediaMeta Newer := ⟨fun _ _ _ hab hbc => le_trans hbc hab⟩

/-! ## One page -/

/-- A section that can be asked can be asked at every offset. -/
theorem exists_sectionRequest {key : Str} {u : D.yarl.Url} (h : sectionUrl D c.discoveryUrl key = .ok u) (skip : Nat) :
    ∃ request, sectionRequest D c.discoveryUrl c.accessToken key skip [] recentSort = .ok request := by
  have hsort : aliasOf sortOptions recentSort = some "addedAt:desc".toList := by decide +kernel
  unfold sectionRequest
  rw [hsort, h]
  exact ⟨_, rfl⟩

theorem exists_sectionUrl {key : Str} {skip : Nat} {request : PlexGet}
    (h : sectionRequest D c.discoveryUrl c.accessToken key skip [] recentSort = .ok request) :
    ∃ u, sectionUrl D c.discoveryUrl key = .ok u := by
  unfold sectionRequest at h
  obtain ⟨_, -, h⟩ := bind_ok.mp h
  obtain ⟨u, hu, -⟩ := bind_ok.mp h
  exact ⟨u, hu⟩

theorem SectionsServed.alone_getSectionMedia (h : SectionsServed D serve c stremioType content) {key : Str}
    (hkey : key ∈ sectionKeys D c stremioType) (hurl : ∃ u, sectionUrl D c.discoveryUrl key = .ok u) (k : Nat) :
    (getSectionMedia D c.discoveryUrl c.accessToken key (100 * k) [] recentSort).alone serve =
      .ok (page 100 k (content key)) := by
  obtain ⟨u, hu⟩ := hurl
  obtain ⟨request, hrequest⟩ := exists_sectionRequest hu (100 * k)
  obtain ⟨json, metadata, hjson, hmetadata, hvalid⟩ := h.answer key hkey (100 * k) request hrequest
  rw [getSectionMedia, hrequest, Prog.lift_ok, Prog.ret_bind, getJson, Prog.ask_bind]
  show (Prog.lift (serve request) >>= _).alone serve = _
  rw [hjson, Prog.lift_ok, Prog.ret_bind, hmetadata, Prog.lift_ok, Prog.ret_bind, Prog.alone_lift, hvalid]
  rfl

/-- A page of the catalog is a page of the sections' merge. -/
theorem SectionsServed.alone_recentlyAdded (h : SectionsServed D serve c stremioType content)
    (hreached : ∀ key ∈ sectionKeys D c stremioType, ∃ u, sectionUrl D c.discoveryUrl key = .ok u) (k : Nat) :
    (recentlyAdded D c stremioType (100 * k)).alone serve =
      (mergedPage Newer 100 k ((sectionKeys D c stremioType).map content)).mapM fun m => m.toStremioMetaReview c := by
  have hmedia : ((sectionsOfType c stremioType).mapM fun s =>
      getSectionMedia D c.discoveryUrl c.accessToken s.key (100 * k) [] recentSort).alone serve =
      .ok ((sectionsOfType c stremioType).map fun s => page 100 k (content s.key)) := by
    rw [Prog.alone_mapM, mapM_ok, List.forall₂_map_right_iff, List.forall₂_same]
    intro s hs
    have hkey : s.key ∈ sectionKeys D c stremioType := List.mem_map_of_mem hs
    exact h.alone_getSectionMedia hkey (hreached s.key hkey) k
  rw [recentlyAdded, Prog.alone_bind, hmedia]
  show (Prog.lift _ : Prog plexSig _).alone serve = _
  rw [Prog.alone_lift, mergedPage, sectionKeys, List.map_map, List.flatMap_map]
  rfl

/-! ## All pages -/

theorem map_stocked (keys : List Str) :
    (keys.map content).filter (fun xs => !xs.isEmpty) = (keys.filter fun key => !(content key).isEmpty).map content := by
  rw [List.filter_map]
  rfl

theorem fits_iff : Fits 100 ((sectionKeys D c stremioType).map content) ↔
    (stockedKeys D c stremioType content).length ≤ 1 ∨
      ((sectionKeys D c stremioType).map fun key => (content key).length).sum ≤ 100 := by
  unfold Fits stockedKeys
  rw [map_stocked, List.length_map, List.length_flatten, List.map_map]
  rfl

/-- Sections without items add nothing. -/
theorem flatMap_stocked (keys : List Str) :
    (keys.filter fun key => !(content key).isEmpty).flatMap content = keys.flatMap content := by
  induction keys with
  | nil => rfl
  | cons key keys ih =>
    rw [List.filter_cons]
    split
    · rw [List.flatMap_cons, List.flatMap_cons, ih]
    · next hempty =>
      have : content key = [] := by simpa using hempty
      rw [List.flatMap_cons, this, ih, List.nil_append]

/-- Listing a section twice matters only if it has items. -/
theorem perm_flatMap_dedup {keys : List Str} (h : (keys.filter fun key => !(content key).isEmpty).Nodup) :
    (keys.flatMap content).Perm (keys.dedup.flatMap content) := by
  rw [← flatMap_stocked keys, ← flatMap_stocked keys.dedup]
  refine List.Perm.flatMap_right content ((List.perm_ext_iff_of_nodup h (keys.nodup_dedup.filter _)).mpr fun key => ?_)
  simp only [List.mem_filter, List.mem_dedup]

/-- What is shown one by one is shown in pages. -/
theorem mapM_page {items : List PlexMediaMeta} {previews : List StremioMetaPreview}
    (h : items.mapM (fun item => item.toStremioMetaReview c) = .ok previews) (k : Nat) :
    (page 100 k items).mapM (fun item => item.toStremioMetaReview c) = .ok (page 100 k previews) :=
  mapM_ok.mpr (List.forall₂_take 100 (List.forall₂_drop (100 * k) (mapM_ok.mp h)))

theorem NothingCut.paginates (h : SectionsServed D serve c stremioType content)
    (hcut : NothingCut D c stremioType content) : Paginates D serve c stremioType content := by
  have hsorted : ∀ xs ∈ (sectionKeys D c stremioType).map content, xs.Pairwise Newer := by
    simpa only [List.forall_mem_map] using h.sorted
  have hfits := fits_iff.mpr hcut.fits
  let items := ((sectionKeys D c stremioType).map content).flatten.insertionSort Newer
  have hperm : items.Perm ((sectionKeys D c stremioType).flatMap content) := List.perm_insertionSort _ _
  have hshown : ∀ item ∈ items, ∃ preview, item.toStremioMetaReview c = .ok preview := by
    intro item hitem
    obtain ⟨key, hkey, hitem⟩ := List.mem_flatMap.mp (hperm.subset hitem)
    exact hcut.shown key hkey item hitem
  obtain ⟨previews, hpreviews⟩ := exists_forall₂ hshown
  have hpreviews := mapM_ok.mpr hpreviews
  refine ⟨items, fun k => page 100 k previews, ?_, List.pairwise_insertionSort _ _, fun k => ?_, ?_⟩
  · exact hperm.trans (perm_flatMap_dedup hcut.distinct)
  · rw [h.alone_recentlyAdded hcut.reached, mergedPage_eq hsorted hfits]
    exact mapM_page hpreviews k
  · refine ⟨previews.length, fun m hm => ?_⟩
    rw [flatMap_page, List.take_of_length_le (by omega)]
    exact hpreviews

/-! ## What is needed for them -/

/-- Of a first page that is answered, every section was. -/
theorem Lists.reached {items : List PlexMediaMeta} {pages : Nat → List StremioMetaPreview}
    (h : Lists D serve c stremioType content items pages) :
    ∀ key ∈ sectionKeys D c stremioType, ∃ u, sectionUrl D c.discoveryUrl key = .ok u := by
  have hpage := h.page 0
  rw [recentlyAdded, Prog.alone_bind] at hpage
  obtain ⟨results, hresults, -⟩ := bind_ok.mp hpage
  rw [Prog.alone_mapM, mapM_ok] at hresults
  rw [sectionKeys, List.forall_mem_map]
  intro s hs
  obtain ⟨media, -, hmedia⟩ := exists_of_forall₂ hresults.flip s hs
  rw [getSectionMedia, Prog.alone_bind, Prog.alone_lift] at hmedia
  obtain ⟨request, hrequest, -⟩ := bind_ok.mp hmedia
  exact exists_sectionUrl hrequest

theorem Lists.shown {items : List PlexMediaMeta} {pages : Nat → List StremioMetaPreview}
    (h : Lists D serve c stremioType content items pages) :
    ∀ key ∈ sectionKeys D c stremioType, ∀ item ∈ content key, ∃ preview, item.toStremioMetaReview c = .ok preview := by
  intro key hkey item hitem
  obtain ⟨n, hn⟩ := h.concat
  have hmem : item ∈ items := h.all.symm.subset (List.mem_flatMap.mpr ⟨key, List.mem_dedup.mpr hkey, hitem⟩)
  obtain ⟨preview, -, hpreview⟩ := exists_of_forall₂ (mapM_ok.mp (hn n le_rfl)).flip item hmem
  exact ⟨preview, hpreview⟩

/-- Pages that list everything have nothing cut from them: what they show is
counted. -/
theorem Lists.nothingCut (hserved : SectionsServed D serve c stremioType content)
    (hdistinct : (stockedKeys D c stremioType content).Nodup) {items : List PlexMediaMeta}
    {pages : Nat → List StremioMetaPreview} (h : Lists D serve c stremioType content items pages) :
    NothingCut D c stremioType content := by
  refine ⟨h.reached, h.shown, hdistinct, ?_⟩
  obtain ⟨n, hn⟩ := h.concat
  have hlength := (mapM_ok.mp (hn (n + 1) (by omega))).length_eq
  have hpage : ∀ k, (pages k).length = (mergedPage Newer 100 k ((sectionKeys D c stremioType).map content)).length := by
    intro k
    have := h.page k
    rw [hserved.alone_recentlyAdded h.reached] at this
    exact (mapM_ok.mp this).length_eq.symm
  rw [h.all.length_eq, ← (perm_flatMap_dedup hdistinct).length_eq, List.length_flatMap] at hlength
  refine fits_iff.mp (fits_of_length (r := Newer) (by decide) (Nat.succ_pos n) ?_)
  rw [List.length_flatMap, ← List.map_congr_left fun k _ => hpage k, ← List.length_flatMap, ← hlength,
    List.length_flatten, List.map_map]
  rfl

/-- **The catalog's pages list every item once, newest first, when nothing is
cut**, and only then, unless a section with items is listed twice. -/
theorem recentlyAdded_paginates (h : SectionsServed D serve c stremioType content) :
    (NothingCut D c stremioType content → Paginates D serve c stremioType content) ∧
    ((stockedKeys D c stremioType content).Nodup →
      Paginates D serve c stremioType content → NothingCut D c stremioType content) := by
  refine ⟨fun hcut => hcut.paginates h, fun hdistinct hpages => ?_⟩
  obtain ⟨items, pages, hlists⟩ := hpages
  exact hlists.nothingCut h hdistinct

end Paginates

/-! ## Sections of sixty -/

/-- The film's number in its section is what it is newer by. -/
def rawFilm (key : Str) (i : Nat) : Metadata where
  type := some "movie".toList
  guid := some (key ++ ':' :: strInt i)
  title := some "Film".toList
  addedAt := some (60 - i)
  guids := [some ("imdb://tt".toList ++ strInt i)]

def filmOf (key : Str) (i : Nat) : PlexMediaMeta where
  guid := key ++ ':' :: strInt i
  type := .movie
  title := "Film".toList
  addedAt := 60 - i
  ratingKey := none
  key := none
  librarySectionTitle := none
  duration := none
  media := []
  guids := [some ("imdb://tt".toList ++ strInt i)]

def sixty (key : Str) : List PlexMediaMeta := (List.range 60).map (filmOf key)

def sectionAll (key : Str) : Str := "http://10.0.0.2:32400/library/sections/".toList ++ key ++ "/all".toList

/-- A server with sixty films in each of two sections. -/
def serveSixty (q : PlexGet) : Except Exc (Option MediaContainer) :=
  let key := if q.url = sectionAll "1".toList then "1".toList else "2".toList
  let skip := Nat.ofDigitChars 10 ((q.params.lookup "X-Plex-Container-Start".toList).getD []) 0
  .ok (some { metadata := some ((((List.range 60).map (rawFilm key)).drop skip).take 100) })

/-- The sample with these sections, of films. -/
def filmSections (keys : List Str) : AddonConfiguration Yarl.plain :=
  { AddonConfiguration.sample with sections := keys.map fun key => ⟨key, "Films".toList, .movie⟩, collections := [] }

def oneSection : List Str := ["1".toList]
def twoSections : List Str := ["1".toList, "2".toList]

theorem sectionKeys_films (keys : List Str) : sectionKeys plainDeployment (filmSections keys) .movie = keys := by
  have hall : sectionsOfType (filmSections keys) .movie = (filmSections keys).sections := by
    refine List.filter_eq_self.mpr fun s hs => ?_
    obtain ⟨key, -, rfl⟩ := List.mem_map.mp hs
    rfl
  refine (congrArg (List.map (·.key)) hall).trans ?_
  rw [filmSections, List.map_map]
  exact List.map_id keys

theorem sixty_newestFirst (key : Str) : (sixty key).Pairwise Newer := by
  refine List.pairwise_map.mpr (List.pairwise_lt_range.imp fun {i j} hij => ?_)
  show (60 - j : Int) ≤ 60 - i
  omega

theorem serveSixty_served {keys : List Str} (hkeys : keys.Sublist twoSections) :
    SectionsServed plainDeployment serveSixty (filmSections keys) .movie sixty where
  sorted key _ := sixty_newestFirst key
  answer key hkey skip request hrequest := by
    rw [sectionKeys_films] at hkey
    obtain ⟨hurl, hparams⟩ : request.url = sectionAll key ∧
        request.params.lookup "X-Plex-Container-Start".toList = some (strInt skip) := by
      have hsort : aliasOf sortOptions recentSort = some "addedAt:desc".toList := by decide +kernel
      unfold sectionRequest at hrequest
      rw [hsort] at hrequest
      rcases List.mem_pair.mp (hkeys.subset hkey) with rfl | rfl
      · cases hrequest; exact ⟨rfl, rfl⟩
      · cases hrequest; exact ⟨rfl, rfl⟩
    have hskip : Nat.ofDigitChars 10 (strInt (skip : Int)) 0 = skip := by
      have hdigits : strInt (skip : Int) = Nat.toDigits 10 skip := by rw [strInt_eq, if_pos (by omega)]; rfl
      rw [hdigits, Nat.ofDigitChars_toDigits (by decide) (by decide)]
    have hkeyOf : (if request.url = sectionAll "1".toList then "1".toList else "2".toList) = key := by
      rw [hurl]
      rcases List.mem_pair.mp (hkeys.subset hkey) with rfl | rfl <;> decide +kernel
    refine ⟨_, _, rfl, rfl, ?_⟩
    simp only [hparams, Option.getD_some, hskip, hkeyOf]
    rw [mapM_ok]
    refine List.forall₂_take 100 (List.forall₂_drop skip ?_)
    rw [sixty, List.forall₂_map_left_iff, List.forall₂_map_right_iff, List.forall₂_same]
    exact fun i _ => rfl

theorem stockedKeys_films (keys : List Str) : stockedKeys plainDeployment (filmSections keys) .movie sixty = keys := by
  unfold stockedKeys
  rw [sectionKeys_films]
  exact List.filter_eq_self.mpr fun key _ => rfl

/-- The sixty films of one section are listed. -/
theorem recentlyAdded_paginates_films : Paginates plainDeployment serveSixty (filmSections oneSection) .movie sixty := by
  refine (recentlyAdded_paginates (serveSixty_served (by decide))).1 ⟨?_, ?_, ?_, .inl ?_⟩
  · rw [sectionKeys_films]
    exact List.forall_mem_singleton.mpr ⟨_, rfl⟩
  · rintro key - item hitem
    obtain ⟨i, -, rfl⟩ := List.mem_map.mp hitem
    exact ⟨_, rfl⟩
  · rw [stockedKeys_films]
    decide
  · rw [stockedKeys_films]
    decide

/-- **Twenty films are lost**: two sections of sixty, and no page shows all. -/
theorem sixty_and_sixty :
    AddonConfiguration.check Yarl.plain (.obj (filmSections twoSections).storageMembers) = .ok (filmSections twoSections) ∧
    SectionsServed plainDeployment serveSixty (filmSections twoSections) .movie sixty ∧
    ¬ Paginates plainDeployment serveSixty (filmSections twoSections) .movie sixty := by
  have hserved : SectionsServed plainDeployment serveSixty (filmSections twoSections) .movie sixty :=
    serveSixty_served (List.Sublist.refl _)
  refine ⟨?_, hserved, ?_⟩
  · refine AddonConfiguration.check_storage_self
      { AddonConfiguration.sample_accepted with
        sections := ⟨by decide, ?_⟩
        collections := ⟨by decide, fun x hx => by cases hx⟩
        unique := rfl } AddonConfiguration.sample_urls
    exact List.forall_mem_cons.mpr ⟨⟨by decide, by decide⟩, List.forall_mem_cons.mpr
      ⟨⟨by decide, by decide⟩, fun s hs => by cases hs⟩⟩
  · rintro ⟨items, pages, hlists⟩
    have hcut := hlists.nothingCut hserved (by rw [stockedKeys_films]; decide)
    have hfits := hcut.fits
    rw [stockedKeys_films, sectionKeys_films] at hfits
    revert hfits
    decide +kernel

end Plexio
