/-
The catalog of items to continue (`_map_on_deck` of `routers/addon.py`):
Plex's On Deck items of the configured sections, a movie as itself, an
episode as its parent show, each show once.

The section is checked of the item. The show is looked up by its GUID, and
the first copy that Plex lists is taken, whatever section it is in.
`mapOnDeck_iff` says when all entries are of the configured sections: when
the first copies are. `first_copy_elsewhere` is a show whose is not.
-/
import Plexio.EpisodeNumbers
import Plexio.RecentlyAdded

namespace Plexio

open Py Json CacheProg

/-! ## The loop -/

/-- `str(item.get('librarySectionID', ''))` -/
def Metadata.sectionId (item : Metadata) : Str := item.librarySectionID.getD []

/-- `item.get('grandparentGuid')`, empty if there is none. -/
def Metadata.showGuid (item : Metadata) : Str := item.grandparentGuid.getD []

/-- The show an episode describes, when no copy of it is found. -/
def parentShow (item : Metadata) : Metadata where
  guid := some item.showGuid
  type := some "show".toList
  title := some (item.grandparentTitle.getD [])
  thumb := item.grandparentThumb
  librarySectionID := some item.sectionId
  addedAt := some (item.addedAt.getD 0)

/-- An entry of the catalog, with the item it comes from, the item's place,
and the media it is the preview of. -/
structure OnDeckEntry where
  item : Metadata
  place : Nat
  media : PlexMediaMeta
  preview : StremioMetaPreview
  deriving DecidableEq

section Server
variable (D : Deployment) (c : AddonConfiguration D.yarl) (stremioType : StremioMediaType)

/-- `resolved[0]`, or the show as the episode describes it. -/
def resolveShow (item : Metadata) : Prog plexSig PlexMediaMeta := do
  let resolved ← getMedia D c.discoveryUrl c.accessToken item.showGuid true false none
  match resolved with
  | media :: _ => pure media
  | [] => Prog.lift (PlexMediaMeta.validate (parentShow item))

/-- The loop over the items with their places; `seen` are the shows so far. -/
def mapItems : List Str → List (Metadata × Nat) → Prog plexSig (List OnDeckEntry)
  | _, [] => pure []
  | seen, (item, place) :: rest =>
    if sectionKeys D c stremioType ≠ [] ∧ item.sectionId ∉ sectionKeys D c stremioType then mapItems seen rest
    else if stremioType = .movie ∧ item.type = some "movie".toList then
      if Yarl.truthy item.guid then do
        let media ← Prog.lift (PlexMediaMeta.validate item)
        let preview ← Prog.lift (media.toStremioMetaReview c)
        let entries ← mapItems seen rest
        pure (⟨item, place, media, preview⟩ :: entries)
      else mapItems seen rest
    else if stremioType = .series ∧ item.type = some "episode".toList then
      if item.showGuid = [] ∨ item.showGuid ∈ seen then mapItems seen rest
      else do
        let media ← resolveShow D c item
        let preview ← Prog.lift (media.toStremioMetaReview c)
        let entries ← mapItems (item.showGuid :: seen) rest
        pure (⟨item, place, media, preview⟩ :: entries)
    else mapItems seen rest

/-- `_map_on_deck`, with what each entry comes from. -/
def onDeckEntries (items : List Metadata) : Prog plexSig (List OnDeckEntry) := mapItems D c stremioType [] items.zipIdx

def mapOnDeck (items : List Metadata) : Prog plexSig (List StremioMetaPreview) :=
  List.map (·.preview) <$> onDeckEntries D c stremioType items

end Server

/-! ## What its entries should be -/

section Entries
variable (D : Deployment) (serve : ∀ q, plexSig.Answer q) (c : AddonConfiguration D.yarl)
  (stremioType : StremioMediaType)

/-- The copies of a show that Plex lists, in its order, of any section. -/
def listedCopies (guid : Str) : Prog plexSig (List Metadata) := do
  let library ← Prog.lift (divide c.discoveryUrl "library/all".toList)
  let json ← getJson (D.yarl.str library) (("guid".toList, guid) :: tokenParam c.accessToken)
  let metadata ← Prog.lift (metadataOf json)
  pure (metadata.filter isMedia)

/-- `media` is what Plex answers first about the listed copy. -/
def LookedUp (listed : Metadata) (media : PlexMediaMeta) : Prop :=
  ∃ key others, listed.ratingKey = some key ∧
    (fetchMediaByRatingKey D c.discoveryUrl c.accessToken key).alone serve = .ok (media :: others)

/-- The record an entry shows: the movie, a listed copy of the episode's show,
or the show as the episode describes it. -/
inductive OnDeckEntry.Shows (e : OnDeckEntry) : Metadata → Prop
  | movie : e.item.type = some "movie".toList → PlexMediaMeta.validate e.item = .ok e.media → e.Shows e.item
  | copy {copies : List Metadata} {listed : Metadata} : e.item.type = some "episode".toList →
      (listedCopies D c e.item.showGuid).alone serve = .ok copies → listed ∈ copies →
      LookedUp D serve c listed e.media → e.Shows listed
  | described : e.item.type = some "episode".toList → PlexMediaMeta.validate (parentShow e.item) = .ok e.media →
      e.Shows (parentShow e.item)

/-- The item is of a configured section and stands for an entry. -/
structure Eligible (item : Metadata) : Prop where
  configured : item.sectionId ∈ sectionKeys D c stremioType
  movie : stremioType = .movie → item.type = some "movie".toList ∧ Yarl.truthy item.guid = true
  series : stremioType = .series → item.type = some "episode".toList ∧ item.showGuid ≠ []

/-- Every entry shows a record of a configured section, in the order of the
items; one of a show comes from its first item, and no two are of one show. -/
structure FromSections (items : List Metadata) (entries : List OnDeckEntry) : Prop where
  configured : ∀ e ∈ entries, e.media.toStremioMetaReview c = .ok e.preview ∧
    ∃ record, e.Shows D serve c record ∧ record.sectionId ∈ sectionKeys D c stremioType
  ordered : (entries.map fun e => (e.item, e.place)).Sublist items.zipIdx
  first : stremioType = .series → ∀ e ∈ entries, ∀ x ∈ items.zipIdx, x.2 < e.place → Eligible D c stremioType x.1 →
    x.1.showGuid ≠ e.item.showGuid
  once : stremioType = .series → (entries.map fun e => e.item.showGuid).Nodup

/-- Plex tells copies by their rating keys: those it lists have different
ones, and asked for one of them, it answers with items of that key. -/
structure RatingKeysTell : Prop where
  distinct : ∀ guid copies, (listedCopies D c guid).alone serve = .ok copies → (copies.map (·.ratingKey)).Nodup
  answer : ∀ guid copies, (listedCopies D c guid).alone serve = .ok copies → ∀ listed ∈ copies, ∀ media,
    LookedUp D serve c listed media → media.ratingKey = listed.ratingKey

/-- The first copy that Plex lists of each show, if it answers about it, is in
a configured section. -/
def FirstCopiesConfigured (items : List Metadata) : Prop :=
  stremioType = .series → ∀ item ∈ items, Eligible D c stremioType item → ∀ listed others,
    (listedCopies D c item.showGuid).alone serve = .ok (listed :: others) → ∀ media, LookedUp D serve c listed media →
      listed.sectionId ∈ sectionKeys D c stremioType

end Entries

section Entries
variable {D : Deployment} {serve : ∀ q, plexSig.Answer q} {c : AddonConfiguration D.yarl}
  {stremioType : StremioMediaType}

/-! ## Looking a show up -/

theorem fetchMedia_first (guid : Str) :
    fetchMedia D c.discoveryUrl c.accessToken guid true = (do
      let copies ← listedCopies D c guid
      let ratingKeys ← Prog.lift ((copies.take 1).mapM fun item => index item.ratingKey)
      let groups ← ratingKeys.mapM (fetchMediaByRatingKey D c.discoveryUrl c.accessToken)
      pure groups.flatten) := by
  simp only [fetchMedia, listedCopies, bind_assoc, pure_bind, if_true]

/-- A show found is the first listed copy; the item describes the one that is not. -/
theorem resolveShow_ok {item : Metadata} {media : PlexMediaMeta} (h : (resolveShow D c item).alone serve = .ok media) :
    (∃ listed others, (listedCopies D c item.showGuid).alone serve = .ok (listed :: others) ∧
      LookedUp D serve c listed media) ∨
    (∀ listed others, (listedCopies D c item.showGuid).alone serve = .ok (listed :: others) →
      ∀ other, ¬ LookedUp D serve c listed other) ∧ PlexMediaMeta.validate (parentShow item) = .ok media := by
  rw [resolveShow, Prog.alone_bind, getMedia, alone_cachedModelList, fetchMedia_first, Prog.alone_bind] at h
  obtain ⟨resolved, hresolved, h⟩ := bind_ok.mp h
  obtain ⟨copies, hcopies, hresolved⟩ := bind_ok.mp hresolved
  rw [Prog.alone_bind, Prog.alone_lift] at hresolved
  obtain ⟨keys, hkeys, hresolved⟩ := bind_ok.mp hresolved
  rw [Prog.alone_bind, Prog.alone_mapM] at hresolved
  obtain ⟨groups, hgroups, hresolved⟩ := bind_ok.mp hresolved
  rw [mapM_ok] at hkeys hgroups
  rw [hcopies]
  cases copies with
  | nil =>
    cases hkeys
    cases hgroups
    cases hresolved
    refine .inr ⟨fun _ _ heq => (List.cons_ne_nil _ _ (Except.ok.inj heq).symm).elim, ?_⟩
    rwa [List.flatten_nil, Prog.alone_lift] at h
  | cons listed others =>
    obtain ⟨key, _, hkey, hnil, rfl⟩ := List.forall₂_cons_left_iff.mp hkeys
    cases hnil
    obtain ⟨group, _, hgroup, hnil, rfl⟩ := List.forall₂_cons_left_iff.mp hgroups
    cases hnil
    cases hresolved
    rw [List.flatten_singleton] at h
    cases group with
    | nil =>
      refine .inr ⟨fun listed' others' heq other hlookup => ?_, ?_⟩
      · cases heq
        obtain ⟨key', rest, hkey', hfetch⟩ := hlookup
        rw [index_ok.mp hkey, Option.some.injEq] at hkey'
        rw [← hkey', hgroup] at hfetch
        cases hfetch
      · rwa [Prog.alone_lift] at h
    | cons first rest =>
      cases h
      exact .inl ⟨listed, others, rfl, key, rest, index_ok.mp hkey, hgroup⟩

/-! ## The loop's invariant -/

section Invariant
variable (D serve c stremioType)

/-- An eligible item, with what the loop makes of it. -/
structure OnDeckEntry.Made (e : OnDeckEntry) : Prop where
  eligible : Eligible D c stremioType e.item
  movie : stremioType = .movie → PlexMediaMeta.validate e.item = .ok e.media
  series : stremioType = .series → (resolveShow D c e.item).alone serve = .ok e.media
  preview : e.media.toStremioMetaReview c = .ok e.preview

/-- What the loop makes of items with their places, the shows `seen` done. -/
structure Mapped (seen : List Str) (items : List (Metadata × Nat)) (entries : List OnDeckEntry) : Prop where
  made : ∀ e ∈ entries, e.Made D serve c stremioType
  ordered : (entries.map fun e => (e.item, e.place)).Sublist items
  fresh : stremioType = .series → ∀ e ∈ entries, e.item.showGuid ∉ seen
  once : stremioType = .series → (entries.map fun e => e.item.showGuid).Nodup
  first : stremioType = .series → ∀ e ∈ entries, ∀ x ∈ items, x.2 < e.place → Eligible D c stremioType x.1 →
    x.1.showGuid ≠ e.item.showGuid
  all : stremioType = .series → ∀ x ∈ items, Eligible D c stremioType x.1 → x.1.showGuid ∉ seen →
    ∃ e ∈ entries, e.item.showGuid = x.1.showGuid

end Invariant

variable {seen : List Str} {item : Metadata} {place : Nat} {rest : List (Metadata × Nat)} {entries : List OnDeckEntry}

theorem Mapped.nil : Mapped D serve c stremioType seen [] [] where
  made := by simp
  ordered := List.Sublist.refl _
  fresh := by simp
  once := by simp
  first := by simp
  all := by simp

/-- An item that adds nothing is not eligible, or its show is done. -/
theorem Mapped.skip (h : Mapped D serve c stremioType seen rest entries)
    (hskip : Eligible D c stremioType item → stremioType = .series ∧ item.showGuid ∈ seen) :
    Mapped D serve c stremioType seen ((item, place) :: rest) entries where
  made := h.made
  ordered := h.ordered.cons _
  fresh := h.fresh
  once := h.once
  first := by
    intro hseries e he x hx hlt heligible
    rcases List.mem_cons.mp hx with rfl | hx
    · exact fun heq => h.fresh hseries e he (heq ▸ (hskip heligible).2)
    · exact h.first hseries e he x hx hlt heligible
  all := by
    intro hseries x hx heligible hnot
    rcases List.mem_cons.mp hx with rfl | hx
    · exact absurd (hskip heligible).2 hnot
    · exact h.all hseries x hx heligible hnot

/-- The next entry's show is done from then on. -/
theorem Mapped.add {seen' : List Str} {e : OnDeckEntry} (h : Mapped D serve c stremioType seen' rest entries)
    (hseen : stremioType = .series → seen' = e.item.showGuid :: seen) (he : e.Made D serve c stremioType)
    (hfresh : stremioType = .series → e.item.showGuid ∉ seen) (hplaces : ∀ x ∈ rest, e.place < x.2) :
    Mapped D serve c stremioType seen ((e.item, e.place) :: rest) (e :: entries) where
  made := List.forall_mem_cons.mpr ⟨he, h.made⟩
  ordered := h.ordered.cons_cons _
  fresh := by
    intro hseries
    refine List.forall_mem_cons.mpr ⟨hfresh hseries, fun other hother hmem => ?_⟩
    exact h.fresh hseries other hother (hseen hseries ▸ List.mem_cons_of_mem _ hmem)
  once := by
    intro hseries
    refine List.nodup_cons.mpr ⟨fun hmem => ?_, h.once hseries⟩
    obtain ⟨other, hother, heq⟩ := List.mem_map.mp hmem
    exact h.fresh hseries other hother (by rw [hseen hseries, heq]; exact List.mem_cons_self)
  first := by
    intro hseries other hother x hx hlt heligible
    rcases List.mem_cons.mp hother with rfl | hother <;> rcases List.mem_cons.mp hx with rfl | hx
    · exact absurd hlt (lt_irrefl _)
    · exact absurd hlt (hplaces x hx).le.not_gt
    · exact fun heq => h.fresh hseries other hother (by rw [hseen hseries, ← heq]; exact List.mem_cons_self)
    · exact h.first hseries other hother x hx hlt heligible
  all := by
    intro hseries x hx heligible hnot
    rcases List.mem_cons.mp hx with rfl | hx
    · exact ⟨e, List.mem_cons_self, rfl⟩
    · by_cases hsame : e.item.showGuid = x.1.showGuid
      · exact ⟨e, List.mem_cons_self, hsame⟩
      · have hnot' : x.1.showGuid ∉ seen' := by
          rw [hseen hseries]
          exact List.not_mem_cons_of_ne_of_not_mem (Ne.symm hsame) hnot
        obtain ⟨other, hother, heq⟩ := h.all hseries x hx heligible hnot'
        exact ⟨other, List.mem_cons_of_mem _ hother, heq⟩

/-- An item adds nothing, or the next entry. -/
theorem mapItems_cons (hsections : sectionKeys D c stremioType ≠ [])
    (h : (mapItems D c stremioType seen ((item, place) :: rest)).alone serve = .ok entries) :
    ((Eligible D c stremioType item → stremioType = .series ∧ item.showGuid ∈ seen) ∧
      (mapItems D c stremioType seen rest).alone serve = .ok entries) ∨
    ∃ (e : OnDeckEntry) (others : List OnDeckEntry) (seen' : List Str), e.item = item ∧ e.place = place ∧ entries = e :: others ∧
      e.Made D serve c stremioType ∧ (stremioType = .series → item.showGuid ∉ seen ∧ seen' = item.showGuid :: seen) ∧
      (mapItems D c stremioType seen' rest).alone serve = .ok others := by
  rw [mapItems] at h
  split at h
  · next hout => exact .inl ⟨fun heligible => absurd heligible.configured hout.2, h⟩
  next hin =>
  have hconfigured : item.sectionId ∈ sectionKeys D c stremioType := by
    by_contra hnot
    exact hin ⟨hsections, hnot⟩
  split at h
  · next hmovie =>
    obtain ⟨rfl, htype⟩ := hmovie
    split at h
    · next hguid =>
      simp only [Prog.alone_bind, Prog.alone_lift, bind_ok, Prog.pure_eq, Prog.alone_ret] at h
      obtain ⟨media, hmedia, preview, hpreview, others, hothers, heq⟩ := h
      cases heq
      have heligible : Eligible D c .movie item := ⟨hconfigured, fun _ => ⟨htype, hguid⟩, by simp⟩
      refine .inr ⟨⟨item, place, media, preview⟩, others, seen, rfl, rfl, rfl, ?_, by simp, hothers⟩
      exact ⟨heligible, fun _ => hmedia, by simp, hpreview⟩
    · next hguid => exact .inl ⟨fun heligible => absurd (heligible.movie rfl).2 hguid, h⟩
  next hmovie =>
  split at h
  · next hepisode =>
    obtain ⟨rfl, htype⟩ := hepisode
    split at h
    · next hdone =>
      exact .inl ⟨fun heligible => ⟨rfl, hdone.resolve_left (heligible.series rfl).2⟩, h⟩
    · next hdone =>
      obtain ⟨hguid, hseen⟩ := not_or.mp hdone
      simp only [Prog.alone_bind, Prog.alone_lift, bind_ok, Prog.pure_eq, Prog.alone_ret] at h
      obtain ⟨media, hmedia, preview, hpreview, others, hothers, heq⟩ := h
      cases heq
      have heligible : Eligible D c .series item := ⟨hconfigured, by simp, fun _ => ⟨htype, hguid⟩⟩
      refine .inr ⟨⟨item, place, media, preview⟩, others, _, rfl, rfl, rfl, ?_, fun _ => ⟨hseen, rfl⟩, hothers⟩
      exact ⟨heligible, by simp, fun _ => hmedia, hpreview⟩
  · next hepisode =>
    refine .inl ⟨fun heligible => ?_, h⟩
    cases stremioType with
    | movie => exact absurd ⟨rfl, (heligible.movie rfl).1⟩ hmovie
    | series => exact absurd ⟨rfl, (heligible.series rfl).1⟩ hepisode

/-- What the loop makes of the rest is added to what the first item does. -/
theorem mapItems_mapped (hsections : sectionKeys D c stremioType ≠ []) : ∀ {items : List (Metadata × Nat)},
    items.Pairwise (fun x y => x.2 < y.2) → ∀ {seen : List Str} {entries : List OnDeckEntry},
      (mapItems D c stremioType seen items).alone serve = .ok entries → Mapped D serve c stremioType seen items entries
  | [], _, seen, entries, h => by
    cases h
    exact Mapped.nil
  | (item, place) :: rest, hplaces, seen, entries, h => by
    obtain ⟨hlater, hrest⟩ := List.pairwise_cons.mp hplaces
    rcases mapItems_cons hsections h with ⟨hskip, h⟩ | ⟨e, others, seen', rfl, rfl, rfl, hmade, hseen, h⟩
    · exact (mapItems_mapped hsections hrest h).skip hskip
    · exact (mapItems_mapped hsections hrest h).add (fun hseries => (hseen hseries).2) hmade
        (fun hseries => (hseen hseries).1) hlater

theorem pairwise_zipIdx {α : Type} (as : List α) : as.zipIdx.Pairwise fun x y => x.2 < y.2 := by
  have h := List.pairwise_lt_range' (s := 0) (n := as.length)
  rw [← List.zipIdx_map_snd, List.pairwise_map] at h
  exact h

theorem onDeckEntries_mapped (hsections : sectionKeys D c stremioType ≠ []) {items : List Metadata}
    (h : (onDeckEntries D c stremioType items).alone serve = .ok entries) :
    Mapped D serve c stremioType [] items.zipIdx entries := mapItems_mapped hsections (pairwise_zipIdx items) h

theorem Mapped.item_mem {items : List Metadata} (h : Mapped D serve c stremioType [] items.zipIdx entries) {e : OnDeckEntry}
    (he : e ∈ entries) : e.item ∈ items := by
  have hmem := h.ordered.subset (List.mem_map_of_mem he)
  exact List.mem_of_getElem? (List.mem_zipIdx_iff_getElem?.mp hmem)

/-! ## Which sections the entries are of -/

theorem OnDeckEntry.Made.shows_item {e : OnDeckEntry} (h : e.Made D serve c .movie) :
    ∃ record, e.Shows D serve c record ∧ record.sectionId ∈ sectionKeys D c .movie :=
  ⟨e.item, .movie (h.eligible.movie rfl).1 (h.movie rfl), h.eligible.configured⟩

/-- An entry shows the first copy listed of its show, or a record of a
configured section. -/
theorem OnDeckEntry.Made.copy_or_shows {e : OnDeckEntry} (h : e.Made D serve c .series) :
    (∃ listed others, (listedCopies D c e.item.showGuid).alone serve = .ok (listed :: others) ∧
      LookedUp D serve c listed e.media) ∨
    (∀ listed others, (listedCopies D c e.item.showGuid).alone serve = .ok (listed :: others) →
      ∀ other, ¬ LookedUp D serve c listed other) ∧
      ∃ record, e.Shows D serve c record ∧ record.sectionId ∈ sectionKeys D c .series := by
  rcases resolveShow_ok (h.series rfl) with hcopy | ⟨hnone, hmedia⟩
  · exact .inl hcopy
  · exact .inr ⟨hnone, parentShow e.item, .described (h.eligible.series rfl).1 hmedia, h.eligible.configured⟩

/-- The copy an entry shows is the one its media has the rating key of. -/
theorem RatingKeysTell.shows_eq (hplex : RatingKeysTell D serve c) {e : OnDeckEntry} (htype : e.item.type = some "episode".toList)
    {listed : Metadata} {others : List Metadata}
    (hcopies : (listedCopies D c e.item.showGuid).alone serve = .ok (listed :: others))
    (hlookup : LookedUp D serve c listed e.media) {record : Metadata} (h : e.Shows D serve c record) : record = listed := by
  have hkey := hplex.answer _ _ hcopies listed List.mem_cons_self _ hlookup
  cases h with
  | movie hmovie => rw [htype] at hmovie; exact absurd hmovie (by decide)
  | copy _ hlisted hmem hshown =>
    rw [hcopies] at hlisted
    cases hlisted
    have hkey' := hplex.answer _ _ hcopies record hmem _ hshown
    exact List.inj_on_of_nodup_map (hplex.distinct _ _ hcopies) hmem List.mem_cons_self (hkey'.symm.trans hkey)
  | described _ hmedia =>
    obtain ⟨key, rest, hlisted, -⟩ := hlookup
    have hnone : e.media.ratingKey = none := congrArg (·.ratingKey) (Except.ok.inj hmedia).symm
    rw [hnone, hlisted] at hkey
    cases hkey

/-- Where the first copies are configured, so is what every entry shows. -/
theorem FirstCopiesConfigured.fromSections {items : List Metadata} (h : FirstCopiesConfigured D serve c stremioType items)
    (hmapped : Mapped D serve c stremioType [] items.zipIdx entries) : FromSections D serve c stremioType items entries := by
  refine ⟨fun e he => ⟨(hmapped.made e he).preview, ?_⟩, hmapped.ordered, hmapped.first, hmapped.once⟩
  have hmade := hmapped.made e he
  cases stremioType with
  | movie => exact hmade.shows_item
  | series =>
    rcases hmade.copy_or_shows with ⟨listed, others, hcopies, hlookup⟩ | ⟨-, hshown⟩
    · exact ⟨listed, .copy (hmade.eligible.series rfl).1 hcopies List.mem_cons_self hlookup,
        h rfl e.item (hmapped.item_mem he) hmade.eligible listed others hcopies e.media hlookup⟩
    · exact hshown

/-- Every show has an entry, which shows its first copy if there is one. -/
theorem RatingKeysTell.firstCopies (hplex : RatingKeysTell D serve c) {items : List Metadata}
    (hmapped : Mapped D serve c stremioType [] items.zipIdx entries)
    (h : FromSections D serve c stremioType items entries) : FirstCopiesConfigured D serve c stremioType items := by
  rintro rfl item hitem heligible listed others hcopies media hlookup
  obtain ⟨place, hplace⟩ := List.mem_iff_getElem?.mp hitem
  have hmem : (item, place) ∈ items.zipIdx := List.mem_zipIdx_iff_getElem?.mpr hplace
  obtain ⟨e, he, hsame⟩ := hmapped.all rfl _ hmem heligible List.not_mem_nil
  have hmade := hmapped.made e he
  dsimp only at hsame
  rw [← hsame] at hcopies
  rcases hmade.copy_or_shows with ⟨listed', others', hcopies', hlookup'⟩ | ⟨hnone, -⟩
  · rw [hcopies] at hcopies'
    cases hcopies'
    obtain ⟨-, record, hshows, hconfigured⟩ := h.configured e he
    rwa [hplex.shows_eq (hmade.eligible.series rfl).1 hcopies hlookup' hshows] at hconfigured
  · exact absurd hlookup (hnone _ _ hcopies media)

/-- **Entries of the configured sections.** All are exactly when the first
copy that Plex lists of each show is in one; the order, and that each show
comes once, from its first item, hold always. -/
theorem mapOnDeck_iff (hsections : sectionKeys D c stremioType ≠ []) (hplex : RatingKeysTell D serve c) {items : List Metadata}
    {metas : List StremioMetaPreview} (h : (mapOnDeck D c stremioType items).alone serve = .ok metas) :
    (∃ entries, (onDeckEntries D c stremioType items).alone serve = .ok entries ∧ metas = entries.map (·.preview) ∧
      FromSections D serve c stremioType items entries) ↔ FirstCopiesConfigured D serve c stremioType items := by
  rw [mapOnDeck, map_eq_pure_bind, Prog.alone_bind, bind_ok] at h
  obtain ⟨entries, hentries, hmetas⟩ := h
  cases hmetas
  have hmapped := onDeckEntries_mapped hsections hentries
  constructor
  · intro hexists
    obtain ⟨entries', hentries', -, hfrom⟩ := hexists
    rw [hentries, Except.ok.injEq] at hentries'
    subst hentries'
    exact hplex.firstCopies hmapped hfrom
  · exact fun hfirst => ⟨entries, hentries, rfl, hfirst.fromSections hmapped⟩

end Entries

/-! ## A show in two sections -/

/-- An episode to continue, of the configured section of shows. -/
def pilot : Metadata where
  type := some "episode".toList
  guid := some "plex://episode/1".toList
  title := some "Pilot".toList
  librarySectionID := some "2".toList
  grandparentGuid := some "plex://show/1".toList
  grandparentTitle := some "Show".toList

/-- A copy of its show. -/
def showCopy (ratingKey sectionId : String) : Metadata where
  type := some "show".toList
  guid := some "plex://show/1".toList
  title := some "Show".toList
  ratingKey := some ratingKey.toList
  librarySectionID := some sectionId.toList

/-- A Plex with two copies of the show. -/
def twoCopies (first second : String) (q : PlexGet) : Except Exc (Option MediaContainer) :=
  .ok (some { totalSize := none
              metadata := some (if "/library/all".toList <:+ q.url then [showCopy "10" first, showCopy "20" second]
                else if "/10".toList <:+ q.url then [showCopy "10" first]
                else [showCopy "20" second]) })

def showMedia (ratingKey : String) : PlexMediaMeta where
  guid := "plex://show/1".toList
  type := .tvShow
  title := "Show".toList
  ratingKey := some ratingKey.toList
  key := none
  librarySectionTitle := none
  duration := none
  media := []

def showPreview (ratingKey : String) : StremioMetaPreview where
  id := "plexio:rk-".toList ++ ratingKey.toList
  type := .series
  name := "Show".toList
  poster := none
  genres := []
  imdbRating := none
  releaseInfo := "None".toList
  description := []

theorem listedCopies_twoCopies (first second : String) (guid : Str) :
    (listedCopies plainDeployment AddonConfiguration.sample guid).alone (twoCopies first second) =
      .ok [showCopy "10" first, showCopy "20" second] := by
  rfl

theorem lookedUp_twoCopies {first second : String} {listed : Metadata}
    (hlisted : listed ∈ [showCopy "10" first, showCopy "20" second]) {media : PlexMediaMeta}
    (h : LookedUp plainDeployment (twoCopies first second) AddonConfiguration.sample listed media) :
    media.ratingKey = listed.ratingKey := by
  obtain ⟨key, others, hkey, hfetch⟩ := h
  simp only [List.mem_cons, List.not_mem_nil, or_false] at hlisted
  rcases hlisted with rfl | rfl <;> cases hkey
  · have hmedia : (fetchMediaByRatingKey plainDeployment AddonConfiguration.sample.discoveryUrl
        AddonConfiguration.sample.accessToken "10".toList).alone (twoCopies first second) = .ok [showMedia "10"] := rfl
    rw [hmedia] at hfetch
    cases hfetch
    rfl
  · have hmedia : (fetchMediaByRatingKey plainDeployment AddonConfiguration.sample.discoveryUrl
        AddonConfiguration.sample.accessToken "20".toList).alone (twoCopies first second) = .ok [showMedia "20"] := rfl
    rw [hmedia] at hfetch
    cases hfetch
    rfl

theorem twoCopies_tell (first second : String) :
    RatingKeysTell plainDeployment (twoCopies first second) AddonConfiguration.sample where
  distinct := by
    intro guid copies h
    rw [listedCopies_twoCopies] at h
    cases h
    exact (by decide : ["10".toList, "20".toList].map some |>.Nodup)
  answer := by
    intro guid copies h listed hlisted media hlookup
    rw [listedCopies_twoCopies] at h
    cases h
    exact lookedUp_twoCopies hlisted hlookup

/-- The first copy is in the configured section. -/
theorem mapOnDeck_first_copy : ∃ entries,
    (onDeckEntries plainDeployment AddonConfiguration.sample .series [pilot]).alone (twoCopies "2" "3") = .ok entries ∧
      [showPreview "10"] = entries.map (·.preview) ∧
      FromSections plainDeployment (twoCopies "2" "3") AddonConfiguration.sample .series [pilot] entries := by
  refine (mapOnDeck_iff (by decide) (twoCopies_tell "2" "3") (by decide +kernel)).mpr ?_
  intro _ item _ _ listed others hcopies media _
  rw [listedCopies_twoCopies] at hcopies
  cases hcopies
  decide

/-- It is in a section that is not, the second in one that is; the entry is
the first. -/
theorem first_copy_elsewhere :
    sectionKeys plainDeployment AddonConfiguration.sample .series = ["2".toList] ∧
      RatingKeysTell plainDeployment (twoCopies "3" "2") AddonConfiguration.sample ∧
      (mapOnDeck plainDeployment AddonConfiguration.sample .series [pilot]).alone (twoCopies "3" "2") =
        .ok [showPreview "10"] ∧
      ¬ ∃ entries, (onDeckEntries plainDeployment AddonConfiguration.sample .series [pilot]).alone (twoCopies "3" "2") =
        .ok entries ∧ FromSections plainDeployment (twoCopies "3" "2") AddonConfiguration.sample .series [pilot] entries := by
  refine ⟨by decide, twoCopies_tell "3" "2", by decide +kernel, ?_⟩
  intro hexists
  obtain ⟨entries, hentries, hfrom⟩ := hexists
  have hone : (onDeckEntries plainDeployment AddonConfiguration.sample .series [pilot]).alone (twoCopies "3" "2") =
      .ok [⟨pilot, 0, showMedia "10", showPreview "10"⟩] := by decide +kernel
  rw [hone, Except.ok.injEq] at hentries
  subst hentries
  obtain ⟨-, record, hshows, hconfigured⟩ := hfrom.configured _ List.mem_cons_self
  have hlookup : LookedUp plainDeployment (twoCopies "3" "2") AddonConfiguration.sample (showCopy "10" "3") (showMedia "10") :=
    ⟨"10".toList, [], rfl, rfl⟩
  rw [(twoCopies_tell "3" "2").shows_eq rfl (listedCopies_twoCopies "3" "2" _) hlookup hshows] at hconfigured
  revert hconfigured
  decide

end Plexio
