/-
A catalog request from its id to its previews (`get_catalog` of
`routers/addon.py`), and what a client sees that reads a catalog to its end,
page by page.

A section's pages are those of the whole section (`library_paginates`). A
collection's items are told apart by rating key or GUID within a page, so its
pages list each once exactly when none stands on two of them
(`collection_paginates`).
-/
import Plexio.CatalogExtras
import Plexio.Lib.Firsts
import Plexio.OnDeck

namespace Plexio

open Py Json CacheProg Pages Firsts

/-! ## What Plex is asked -/

/-- `item.get('type') in {'movie', 'show'}` -/
def Metadata.isTitle (item : Metadata) : Bool := item.type == some "movie".toList || item.type == some "show".toList

/-- `str(item.get('ratingKey') or item.get('guid') or '')` -/
def Metadata.identity (item : Metadata) : Str := (orStr item.ratingKey item.guid).getD []

section Server
variable (D : Deployment) (url : D.yarl.Url) (token : Str)

def getOnDeck : Prog plexSig (List Metadata) := do
  let onDeck ← Prog.lift (divide url "library/onDeck".toList)
  let json ← getJson (D.yarl.str onDeck) (("includeGuids".toList, "1".toList) :: tokenParam token)
  Prog.lift (metadataOf json)

def collectionUrl (ratingKey : Str) : Except Exc D.yarl.Url := do
  let collections ← divide url "library/collections".toList
  let collection ← divide collections ratingKey
  divide collection "items".toList

/-- What `get_collection_media` asks for. -/
def collectionRequest (ratingKey : Str) (skip : Nat) : Except Exc PlexGet := do
  let items ← collectionUrl D url ratingKey
  pure { url := D.yarl.str items
         params := [("includeGuids".toList, "1".toList), ("X-Plex-Container-Start".toList, strInt skip),
             ("X-Plex-Container-Size".toList, "100".toList)] ++ tokenParam token }

/-- The loop over the items; `seen` are the identities so far. -/
def collectionItems : List Str → List Metadata → Except Exc (List PlexMediaMeta)
  | _, [] => pure []
  | seen, item :: rest =>
    if !item.isTitle then collectionItems seen rest
    else if item.identity = [] ∨ item.identity ∈ seen then collectionItems seen rest
    else do
      let media ← PlexMediaMeta.validate item
      let others ← collectionItems (item.identity :: seen) rest
      pure (media :: others)

def getCollectionMedia (ratingKey : Str) (skip : Nat) : Prog plexSig (List PlexMediaMeta) := do
  let request ← Prog.lift (collectionRequest D url token ratingKey skip)
  let json ← getJson request.url request.params
  let metadata ← Prog.lift (metadataOf json)
  Prog.lift (collectionItems [] metadata)

end Server

section Router
variable (D : Deployment) (c : AddonConfiguration D.yarl)

/-- The previews of what is asked for. -/
def catalogOf : CatalogSource → Prog plexSig (List StremioMetaPreview)
  | .onDeck stremioType => do
    let items ← getOnDeck D c.discoveryUrl c.accessToken
    mapOnDeck D c stremioType items
  | .recent stremioType skip => recentlyAdded D c stremioType skip
  | .collection collection skip => do
    let media ← getCollectionMedia D c.discoveryUrl c.accessToken collection.ratingKey skip
    Prog.lift (media.mapM fun item => item.toStremioMetaReview c)
  | .library sectionId search skip sort => do
    let media ← getSectionMedia D c.discoveryUrl c.accessToken sectionId skip search sort
    Prog.lift (media.mapM fun item => item.toStremioMetaReview c)

def getCatalog (stremioType : StremioMediaType) (catalogId extra : Str) : Prog plexSig (List StremioMetaPreview) := do
  let source ← Prog.lift (catalogSource D.unicode c stremioType catalogId extra)
  catalogOf D c source

end Router

/-! ## A client that reads on -/

/-- Requests for one page after the other, of a search and in an order; the
first page may go without its offset. -/
structure Reader where
  args : Nat → ExtraArgs
  search : Option Str
  sort : Option Str
  plain : ∀ k, (args k).Plain
  skips : ∀ k, (args k).args.get? "skip".toList = some (strInt (100 * k : Nat)) ∨
    k = 0 ∧ (args k).args.get? "skip".toList = none
  searches : ∀ k, (args k).args.get? "search".toList = search
  sorts : ∀ k, (args k).args.get? "sort".toList = sort

/-- The offsets of the first pages have no more digits than Python reads. -/
def Readable (n : Nat) : Prop := ∀ k < n, (strInt (100 * k : Nat)).length ≤ 4300

namespace Reader
variable (R : Reader)

/-- The extras of page `k` as the route receives them. -/
def extra (k : Nat) : Str := (R.args k).text

theorem unquote?_path (k : Nat) : unquote? (R.args k).path = some (R.extra k) := (R.args k).unquote?_path

theorem lookup (k : Nat) (name : Str) : (parseExtras (R.extra k)).lookup name = (R.args k).args.get? name :=
  ExtraArgs.same_iff (R.args k) |>.mpr (R.plain k) name

theorem skipOf {U : Unicode} (hU : ReadsDigits U.decimal) {k n : Nat} (hk : k < n) (hn : Readable n) :
    skipOf U (parseExtras (R.extra k)) = 100 * k := by
  rw [Plexio.skipOf, R.lookup]
  rcases R.skips k with hskip | ⟨rfl, hskip⟩
  · have hdigits : strInt ((100 * k : Nat) : Int) = Nat.toDigits 10 (100 * k) := by
      rw [strInt_eq, if_pos (Int.natCast_nonneg _)]
      rfl
    have hlength : (Nat.toDigits 10 (100 * k)).length ≤ 4300 := hdigits ▸ hn k hk
    have hread : parseInt U.decimal (strInt ((100 * k : Nat) : Int)) = some ((100 * k : Nat) : Int) := by
      rw [hdigits, parseInt_digits hU Nat.toDigits_ne_nil
        (fun c hc => Nat.isDigit_of_mem_toDigits (by decide) (by decide) hc) hlength,
        Nat.ofDigitChars_toDigits (by decide) (by decide)]
    rw [hskip]
    dsimp only
    rw [hread, Option.getD_some, Int.toNat_natCast]
  · rw [hskip]

variable (D : Deployment) (serve : ∀ q, plexSig.Answer q) (c : AddonConfiguration D.yarl)

/-- What the client has after `n` pages of a catalog. -/
def read (entry : CatalogEntry) (n : Nat) : Except Exc (List StremioMetaPreview) := do
  let pages ← (List.range n).mapM fun k => (getCatalog D c entry.type entry.id (R.extra k)).alone serve
  pure pages.flatten

/-- The order is one that the entry offers, or none is given. -/
def Offered (entry : CatalogEntry) : Prop :=
  ∀ sort, R.sort = some sort → ∃ extra ∈ entry.extra, extra.name = "sort".toList ∧
    ∃ options, extra.options = some options ∧ sort ∈ options

end Reader

namespace Reader
variable {R : Reader} {D : Deployment} {serve : ∀ q, plexSig.Answer q} {c : AddonConfiguration D.yarl}

/-- Pages that are answered are put together. -/
theorem read_of {entry : CatalogEntry} {n : Nat} {pages : Nat → List StremioMetaPreview}
    (h : ∀ k < n, (getCatalog D c entry.type entry.id (R.extra k)).alone serve = .ok (pages k)) :
    R.read D serve c entry n = .ok ((List.range n).flatMap pages) := by
  have hpages : ((List.range n).mapM fun k => (getCatalog D c entry.type entry.id (R.extra k)).alone serve) =
      .ok ((List.range n).map pages) := by
    rw [mapM_ok, List.forall₂_map_right_iff, List.forall₂_same]
    exact fun k hk => h k (List.mem_range.mp hk)
  rw [read, hpages]
  rfl

/-- A request goes where its entry's catalog comes from. -/
theorem alone_getCatalog {catalog : Catalog} {entry : CatalogEntry} (h : Plexio.Serves D.unicode c catalog entry) (k : Nat) :
    (getCatalog D c entry.type entry.id (R.extra k)).alone serve =
      (catalogOf D c (catalog.source D.unicode (R.extra k))).alone serve := by
  rw [getCatalog, h.source, Prog.lift_ok, Prog.ret_bind]

end Reader

/-! ## The pages of a section -/

section Library
variable (D : Deployment) (serve : ∀ q, plexSig.Answer q) (c : AddonConfiguration D.yarl)

/-- Plex has these items in the section for the search, in the order asked
for, and answers a request from an offset on with the next 100. -/
structure LibraryServed (sectionId search sort : Str) (content : List PlexMediaMeta) : Prop where
  reached : ∃ url, sectionUrl D c.discoveryUrl sectionId = .ok url
  answer : ∀ skip request, sectionRequest D c.discoveryUrl c.accessToken sectionId skip search sort = .ok request →
    ∃ json metadata, serve request = .ok json ∧ metadataOf json = .ok metadata ∧
      metadata.mapM PlexMediaMeta.validate = .ok ((content.drop skip).take 100)

end Library

section Library
variable {D : Deployment} {serve : ∀ q, plexSig.Answer q} {c : AddonConfiguration D.yarl}

/-- Every order that is offered is known. -/
theorem exists_alias {sort : Str} (h : sort ∈ sortOptions.map (·.1.toList)) :
    ∃ value, aliasOf sortOptions sort = some value := by
  obtain ⟨option, hoption, rfl⟩ := List.mem_map.mp h
  have hfound : (sortOptions.find? (·.1.toList == option.1.toList)).isSome = true :=
    List.find?_isSome.mpr ⟨option, hoption, beq_self_eq_true _⟩
  obtain ⟨found, hfound⟩ := Option.isSome_iff_exists.mp hfound
  exact ⟨_, congrArg (Option.map _) hfound⟩

/-- The entry of a section offers every order. -/
theorem Reader.Offered.known {R : Reader} {s : PlexLibrarySection} {entry : CatalogEntry} (hentry : sectionEntry c s = .ok entry)
    (h : R.Offered entry) : ∃ value, aliasOf sortOptions (R.sort.getD "Title".toList) = some value := by
  cases hsort : R.sort with
  | none => exact exists_alias (by decide +kernel)
  | some sort =>
    obtain ⟨extra, hextra, hname, options, hoptions, hmem⟩ := h sort hsort
    obtain ⟨type, -, hentry⟩ := bind_ok.mp hentry
    cases hentry
    refine exists_alias ?_
    simp only [List.mem_cons, List.not_mem_nil, or_false] at hextra
    rcases hextra with rfl | rfl | rfl
    · cases hoptions
    · cases hoptions
    · cases hoptions
      exact hmem

theorem LibraryServed.alone_getSectionMedia {sectionId search sort : Str} {content : List PlexMediaMeta}
    (h : LibraryServed D serve c sectionId search sort content) {value : Str} (hsort : aliasOf sortOptions sort = some value)
    (skip : Nat) : (getSectionMedia D c.discoveryUrl c.accessToken sectionId skip search sort).alone serve =
      .ok ((content.drop skip).take 100) := by
  obtain ⟨url, hurl⟩ := h.reached
  obtain ⟨request, hrequest⟩ : ∃ request,
      sectionRequest D c.discoveryUrl c.accessToken sectionId skip search sort = .ok request := by
    unfold sectionRequest
    rw [hsort, hurl]
    split
    · exact ⟨_, rfl⟩
    · exact ⟨_, rfl⟩
  obtain ⟨json, metadata, hjson, hmetadata, hvalid⟩ := h.answer skip request hrequest
  rw [getSectionMedia, hrequest, Prog.lift_ok, Prog.ret_bind, getJson, Prog.ask_bind]
  show (Prog.lift (serve request) >>= _).alone serve = _
  rw [hjson, Prog.lift_ok, Prog.ret_bind, hmetadata, Prog.lift_ok, Prog.ret_bind, Prog.alone_lift, hvalid]

end Library

/-! ## The pages of a collection -/

/-- A title with an identity. -/
def Metadata.listed (item : Metadata) : Bool := item.isTitle && !item.identity.isEmpty

/-- What a title is shown as. -/
def Metadata.preview {Y : Yarl} (c : AddonConfiguration Y) (item : Metadata) : Except Exc StremioMetaPreview := do
  let media ← PlexMediaMeta.validate item
  media.toStremioMetaReview c

section Collection
variable (D : Deployment) (serve : ∀ q, plexSig.Answer q) (c : AddonConfiguration D.yarl)

/-- Plex has these items in the collection, all of whose titles can be shown,
and answers a request from an offset on with the next 100. -/
structure CollectionServed (ratingKey : Str) (content : List Metadata) : Prop where
  reached : ∃ url, collectionUrl D c.discoveryUrl ratingKey = .ok url
  answer : ∀ skip request, collectionRequest D c.discoveryUrl c.accessToken ratingKey skip = .ok request →
    ∃ json, serve request = .ok json ∧ metadataOf json = .ok ((content.drop skip).take 100)
  shown : ∀ item ∈ content, item.listed → ∃ preview, item.preview c = .ok preview

/-- The titles of each of the first pages, as Plex answers. -/
def titlesOfPages (content : List Metadata) (n : Nat) : List (List Metadata) :=
  (List.range n).map fun k => (page 100 k content).filter Metadata.listed

/-- The previews are those of the titles. -/
def Previews (titles : List Metadata) (previews : List StremioMetaPreview) : Prop :=
  titles.mapM (Metadata.preview c) = .ok previews

end Collection

section Collection
variable {D : Deployment} {serve : ∀ q, plexSig.Answer q} {c : AddonConfiguration D.yarl}

/-- The loop takes the titles whose identity it has not seen. -/
theorem collectionItems_eq (seen : List Str) (items : List Metadata) :
    collectionItems seen items = (firsts Metadata.identity seen (items.filter Metadata.listed)).mapM PlexMediaMeta.validate := by
  induction items generalizing seen with
  | nil => rfl
  | cons item items ih =>
    rw [collectionItems]
    cases htitle : item.isTitle with
    | false =>
      have hlisted : ¬ item.listed = true := by simp [Metadata.listed, htitle]
      rw [List.filter_cons_of_neg hlisted, ← ih]
      rfl
    | true =>
      by_cases hempty : item.identity = []
      · have hlisted : ¬ item.listed = true := by simp [Metadata.listed, hempty]
        rw [List.filter_cons_of_neg hlisted, ← ih]
        simp [hempty]
      · have hlisted : item.listed = true := by simp [Metadata.listed, htitle, hempty]
        rw [List.filter_cons_of_pos hlisted, firsts]
        by_cases hseen : item.identity ∈ seen
        · rw [if_pos hseen, ← ih]
          simp [hseen]
        · rw [if_neg hseen, List.mapM_cons, ← ih]
          simp [hempty, hseen]

/-- What can be shown one by one is validated first and shown then. -/
theorem mapM_preview {items : List Metadata} {previews : List StremioMetaPreview}
    (h : items.mapM (Metadata.preview c) = .ok previews) :
    (items.mapM PlexMediaMeta.validate >>= fun media => media.mapM fun item => item.toStremioMetaReview c) = .ok previews := by
  have hboth : ∃ media, List.Forall₂ (fun item m => PlexMediaMeta.validate item = .ok m) items media ∧
      List.Forall₂ (fun (m : PlexMediaMeta) p => m.toStremioMetaReview c = .ok p) media previews := by
    induction mapM_ok.mp h with
    | nil => exact ⟨[], .nil, .nil⟩
    | cons hitem hitems ih =>
      obtain ⟨m, hm, hp⟩ := bind_ok.mp hitem
      obtain ⟨media, hmedia, hpreviews⟩ := ih (mapM_ok.mpr hitems)
      exact ⟨m :: media, .cons hm hmedia, .cons hp hpreviews⟩
  obtain ⟨media, hmedia, hpreviews⟩ := hboth
  rw [mapM_ok.mpr hmedia]
  exact mapM_ok.mpr hpreviews

theorem CollectionServed.alone_getCollectionMedia {ratingKey : Str} {content : List Metadata}
    (h : CollectionServed D serve c ratingKey content) (k : Nat) :
    (getCollectionMedia D c.discoveryUrl c.accessToken ratingKey (100 * k)).alone serve =
      (firsts Metadata.identity [] ((page 100 k content).filter Metadata.listed)).mapM PlexMediaMeta.validate := by
  obtain ⟨url, hurl⟩ := h.reached
  obtain ⟨request, hrequest⟩ : ∃ request,
      collectionRequest D c.discoveryUrl c.accessToken ratingKey (100 * k) = .ok request := by
    unfold collectionRequest
    rw [hurl]
    exact ⟨_, rfl⟩
  obtain ⟨json, hjson, hmetadata⟩ := h.answer (100 * k) request hrequest
  rw [getCollectionMedia, hrequest, Prog.lift_ok, Prog.ret_bind, getJson, Prog.ask_bind]
  show (Prog.lift (serve request) >>= _).alone serve = _
  rw [hjson, Prog.lift_ok, Prog.ret_bind, hmetadata, Prog.lift_ok, Prog.ret_bind, Prog.alone_lift, collectionItems_eq]
  rfl

/-- All titles of a page can be shown. -/
theorem CollectionServed.exists_previews {ratingKey : Str} {content : List Metadata}
    (h : CollectionServed D serve c ratingKey content) (k : Nat) :
    ∃ previews, Previews D c (firsts Metadata.identity [] ((page 100 k content).filter Metadata.listed)) previews := by
  have hshown : ∀ item ∈ firsts Metadata.identity [] ((page 100 k content).filter Metadata.listed),
      ∃ preview, item.preview c = .ok preview := by
    intro item hitem
    have hmem := (firsts_sublist [] _).subset hitem
    exact h.shown item ((page_sublist 100 k content).subset (List.mem_of_mem_filter hmem)) (List.of_mem_filter hmem)
  obtain ⟨previews, hpreviews⟩ := exists_forall₂ hshown
  exact ⟨previews, mapM_ok.mpr hpreviews⟩

theorem flatten_titlesOfPages (content : List Metadata) (n : Nat) :
    (titlesOfPages content n).flatten = (content.take (100 * n)).filter Metadata.listed := by
  rw [titlesOfPages, ← List.flatMap_def, ← flatMap_page, List.filter_flatMap]

/-- The previews of parts, one after the other. -/
theorem Previews.flatMap {titles : Nat → List Metadata} {previews : Nat → List StremioMetaPreview}
    (h : ∀ k, Previews D c (titles k) (previews k)) (ks : List Nat) :
    Previews D c (ks.flatMap titles) (ks.flatMap previews) := by
  induction ks with
  | nil => rfl
  | cons k ks ih =>
    rw [List.flatMap_cons, List.flatMap_cons]
    exact mapM_ok.mpr (List.rel_append (mapM_ok.mp (h k)) (mapM_ok.mp ih))

theorem serves_collectionEntry {j : Json} (hcheck : AddonConfiguration.check D.yarl j = .ok c) {x : PlexCollectionCatalog}
    (hx : x ∈ c.configuredCollections) {entry : CatalogEntry} (hentry : collectionEntry c x = .ok entry) :
    Plexio.Serves D.unicode c (.collection x) entry := by
  have hc := AddonConfiguration.accepted_of_check hcheck
  obtain ⟨-, hnodup, -⟩ := validateCollections_ok.mp hc.unique
  have hsub : c.configuredCollections.Sublist c.collections := by
    rw [AddonConfiguration.configuredCollections]
    split
    · exact List.Sublist.refl _
    · exact List.nil_sublist _
  obtain ⟨type, htype, hid, htypeOf⟩ : ∃ type, plexToStremioMediaType x.type = some type ∧ entry.id = x.catalogId ∧
      entry.type = type := by
    unfold collectionEntry at hentry
    split at hentry
    · obtain ⟨_, -, hentry⟩ := bind_ok.mp hentry
      obtain ⟨type, htype, hentry⟩ := bind_ok.mp hentry
      cases hentry
      exact ⟨type, index_ok.mp htype, rfl, rfl⟩
    · cases hentry
  refine ⟨hid, htypeOf ▸ htype.symm, fun extra => ?_⟩
  simp only [hid, htypeOf, catalogSource, catalogId_ne_hub, startswith_iff.mpr (prefix_catalogId x), if_false, if_true,
    findCollection_self (hnodup.sublist (hsub.map _)) hx htype]
  rfl

/-- **A collection is read to its end**: page by page, the catalog that the
manifest lists for it shows titles of every identity that Plex has there, and
each identity once exactly if none stands on two of Plex's pages. -/
theorem collection_paginates (hU : ReadsDigits D.unicode.decimal) {j : Json}
    (hcheck : AddonConfiguration.check D.yarl j = .ok c) {x : PlexCollectionCatalog} (hx : x ∈ c.configuredCollections)
    {entry : CatalogEntry} (hentry : collectionEntry c x = .ok entry) (R : Reader) {content : List Metadata}
    (hserved : CollectionServed D serve c x.ratingKey content) {n : Nat} (hn : Readable n) :
    ∃ shown previews, R.read D serve c entry n = .ok previews ∧ Previews D c shown previews ∧
      (∀ identity, identity ∈ shown.map Metadata.identity ↔
        identity ∈ ((content.take (100 * n)).filter Metadata.listed).map Metadata.identity) ∧
      ((shown.map Metadata.identity).Nodup ↔ Firsts.Apart Metadata.identity (titlesOfPages content n)) ∧
      (Firsts.Apart Metadata.identity (titlesOfPages content n) →
        shown = firsts Metadata.identity [] ((content.take (100 * n)).filter Metadata.listed)) := by
  have hserves := serves_collectionEntry hcheck hx hentry
  choose pages hpages using hserved.exists_previews
  have hshown : ((List.range n).flatMap fun k => firsts Metadata.identity [] ((page 100 k content).filter Metadata.listed)) =
      (titlesOfPages content n).flatMap (firsts Metadata.identity []) := by
    rw [titlesOfPages, List.flatMap_map]
  rw [← flatten_titlesOfPages]
  refine ⟨(titlesOfPages content n).flatMap (firsts Metadata.identity []), (List.range n).flatMap pages,
    Reader.read_of fun k hk => ?_, hshown ▸ Previews.flatMap hpages _, fun _ => mem_firsts_blocks,
    firsts_blocks (titlesOfPages content n)⟩
  rw [Reader.alone_getCatalog hserves, Catalog.source, R.skipOf hU hk hn, catalogOf, Prog.alone_bind,
    hserved.alone_getCollectionMedia]
  have halone : ∀ media : List PlexMediaMeta, (Prog.lift (media.mapM fun item => item.toStremioMetaReview c) :
      Prog plexSig (List StremioMetaPreview)).alone serve = media.mapM fun item => item.toStremioMetaReview c :=
    fun media => Prog.alone_lift serve _
  simp only [halone]
  exact mapM_preview (hpages k)

end Collection

/-! ## Three pages of films -/

/-- A server that answers every request from one list, 100 items at a time. -/
def serveList (items : List Metadata) (q : PlexGet) : Except Exc (Option MediaContainer) :=
  let skip := Nat.ofDigitChars 10 ((q.params.lookup "X-Plex-Container-Start".toList).getD []) 0
  .ok (some { metadata := some ((items.drop skip).take 100) })

theorem serveList_ok (items : List Metadata) {q : PlexGet} {skip : Nat}
    (h : q.params.lookup "X-Plex-Container-Start".toList = some (strInt skip)) :
    ∃ json, serveList items q = .ok json ∧ metadataOf json = .ok ((items.drop skip).take 100) := by
  have hdigits : strInt (skip : Int) = Nat.toDigits 10 skip := by
    rw [strInt_eq, if_pos (Int.natCast_nonneg _)]
    rfl
  refine ⟨_, rfl, ?_⟩
  rw [h, Option.getD_some, hdigits, Nat.ofDigitChars_toDigits (by decide) (by decide)]
  rfl

def manyFilms : List Metadata := (List.range 250).map (rawFilm "1".toList)

/-- Every page with its offset, of everything, in the default order. -/
def inOrder : Reader where
  args k := { args := ⟨[("skip".toList, strInt (100 * k : Nat))], List.nodup_singleton _⟩
              known := List.forall_mem_singleton.mpr (show "skip".toList ∈ extraNames by decide) }
  search := none
  sort := none
  plain k := List.forall_mem_singleton.mpr (not_mem_strInt (by decide) (by decide) _)
  skips k := .inl rfl
  searches k := rfl
  sorts k := rfl

theorem readable_three : Readable 3 := by
  intro k hk
  have hshort : ∀ k < 3, (strInt (100 * k : Nat)).length ≤ 3 := by decide +kernel
  exact (hshort k hk).trans (by omega)

/-- A collection of them has each film once. -/
theorem collection_paginates_films : ∃ entry previews,
    collectionEntry AddonConfiguration.sample ⟨"7".toList, "1".toList, "Best".toList, .movie⟩ = .ok entry ∧
    inOrder.read plainDeployment (serveList manyFilms) AddonConfiguration.sample entry 3 = .ok previews ∧
    previews.length = 250 := by
  have hserved : CollectionServed plainDeployment (serveList manyFilms) AddonConfiguration.sample "7".toList manyFilms := by
    refine ⟨⟨_, rfl⟩, fun skip request hrequest => ?_, fun item hitem _ => ?_⟩
    · cases hrequest
      exact serveList_ok manyFilms rfl
    · obtain ⟨i, -, rfl⟩ := List.mem_map.mp hitem
      exact ⟨_, rfl⟩
  obtain ⟨shown, previews, hread, hpreviews, hkeys, honce, -⟩ := collection_paginates Unicode.ascii_readsDigits
    AddonConfiguration.check_sample (x := ⟨"7".toList, "1".toList, "Best".toList, .movie⟩) List.mem_cons_self rfl inOrder
    hserved readable_three
  have hlisted : (manyFilms.take (100 * 3)).filter Metadata.listed = manyFilms := by
    rw [List.take_of_length_le (by simp [manyFilms]), List.filter_eq_self]
    intro item hitem
    obtain ⟨i, -, rfl⟩ := List.mem_map.mp hitem
    rfl
  have hnodup : (manyFilms.map Metadata.identity).Nodup := by
    rw [manyFilms, List.map_map]
    refine List.nodup_range.map fun i j hij => ?_
    have hsame : "1:".toList ++ strInt i = "1:".toList ++ strInt j := hij
    exact Int.ofNat.inj (strInt_inj (List.append_cancel_left hsame))
  rw [hlisted] at hkeys
  have hshown := honce.mpr (Firsts.Apart.of_nodup (by rw [flatten_titlesOfPages, hlisted]; exact hnodup))
  refine ⟨_, previews, rfl, hread, ?_⟩
  rw [← (mapM_ok.mp hpreviews).length_eq, ← List.length_map (f := Metadata.identity),
    ((List.perm_ext_iff_of_nodup hshown hnodup).mpr hkeys).length_eq]
  simp [manyFilms]

end Plexio
