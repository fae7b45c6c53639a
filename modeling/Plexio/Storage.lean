/-
A configuration through the session store and back. Validation measures the
URLs as they were given, storage writes them normalised, and loading
validates again what storage wrote.

`check_storage` reduces loading a stored configuration to checking its URLs:
every other field is closed under the round. So loading succeeds exactly when
the stored form of each URL is within the length limit, and what it yields
differs from the configuration by trailing slashes only.
-/
import Plexio.Addon

namespace Plexio

open Py Json

variable {Y : Yarl}

/-! ## What the checks ensure -/

/-- A URL the configuration's check lets through. -/
def AcceptedUrl (u : Y.Url) : Prop := ∃ s, Y.parse s = some u ∧ Y.isOrigin u = true

theorem validatePlexUrl_ok {j : Json} {u : Y.Url} :
    validatePlexUrl Y j = .ok u ↔ ∃ s, j = .str s ∧ s.length ≤ 2048 ∧ Y.parse s = some u ∧ Y.isOrigin u = true := by
  cases j with
  | str s =>
    simp only [validatePlexUrl, fail, Json.str.injEq, exists_eq_left']
    split
    · simp; omega
    · next hlen =>
      cases hp : Y.parse s with
      | none => simp
      | some v =>
        simp only [Option.some.injEq]
        split
        · next ho =>
          simp only [Except.ok.injEq]
          constructor
          · rintro rfl; exact ⟨by omega, rfl, ho⟩
          · exact fun h => h.2.1
        · next ho =>
          simp only [reduceCtorEq, false_iff, not_and]
          rintro - rfl; exact ho
  | _ => simp [validatePlexUrl, fail]

theorem validatePlexUrl_accepted {j : Json} {u : Y.Url} (h : validatePlexUrl Y j = .ok u) : AcceptedUrl u := by
  obtain ⟨s, -, -, hp, ho⟩ := validatePlexUrl_ok.mp h
  exact ⟨s, hp, ho⟩

/-- A stored URL is accepted again, if it is short enough. -/
theorem validatePlexUrl_origin (hY : Y.Lawful) {u : Y.Url} (hu : AcceptedUrl u) (hlen : (Y.origin u).length ≤ 2048) :
    ∃ v, validatePlexUrl Y (.str (Y.origin u)) = .ok v ∧ AcceptedUrl v ∧ Y.origin v = Y.origin u := by
  obtain ⟨s, hp, ho⟩ := hu
  obtain ⟨v, hv, hov, heq⟩ := hY.again s u hp ho
  exact ⟨v, validatePlexUrl_ok.mpr ⟨_, rfl, hlen, hv, hov⟩, ⟨_, hv, hov⟩, heq⟩

/-- What was loaded from a stored URL is that URL up to trailing slashes. -/
theorem origin_of_validate (hY : Y.Lawful) {u v : Y.Url} (hu : AcceptedUrl u)
    (h : validatePlexUrl Y (.str (Y.origin u)) = .ok v) :
    (Y.origin u).length ≤ 2048 ∧ Y.origin v = Y.origin u := by
  obtain ⟨s, hs, hlen, hv, -⟩ := validatePlexUrl_ok.mp h
  cases hs
  obtain ⟨s, hp, ho⟩ := hu
  obtain ⟨w, hw, -, heq⟩ := hY.again s u hp ho
  rw [hv, Option.some.injEq] at hw
  exact ⟨hlen, hw ▸ heq⟩

structure PlexLibrarySection.Accepted (s : PlexLibrarySection) : Prop where
  key : 1 ≤ s.key.length ∧ s.key.length ≤ 128
  title : 1 ≤ s.title.length ∧ s.title.length ≤ 255

structure PlexCollectionCatalog.Accepted (c : PlexCollectionCatalog) : Prop where
  ratingKey : isRatingKeyText c.ratingKey = true
  sectionKey : c.sectionKey.length ≤ 128 ∧ isSectionKeyText c.sectionKey = true
  title : 1 ≤ c.title.length ∧ c.title.length ≤ 255

/-- A configuration that passed validation. -/
structure AddonConfiguration.Accepted (c : AddonConfiguration Y) : Prop where
  accessToken : 1 ≤ c.accessToken.length ∧ c.accessToken.length ≤ 4096
  urls : ∀ u ∈ c.configuredUrls, AcceptedUrl u
  connections : c.streamingConnections.length ≤ 20
  serverName : 1 ≤ c.serverName.length ∧ c.serverName.length ≤ 255
  version : 1 ≤ c.version.length ∧ c.version.length ≤ 64
  sections : c.sections.length ≤ 100 ∧ ∀ s ∈ c.sections, s.Accepted
  collections : c.collections.length ≤ 200 ∧ ∀ x ∈ c.collections, x.Accepted
  unique : validateCollections c.sections [] c.collections = .ok ()

/-- What the check of the collections ensures. -/
theorem validateCollections_ok {sections : List PlexLibrarySection} {seen : List Str} {xs : List PlexCollectionCatalog} :
    validateCollections sections seen xs = .ok () ↔
      (∀ x ∈ xs, sectionType sections x.sectionKey = some x.type) ∧ (xs.map (·.catalogId)).Nodup ∧
        ∀ x ∈ xs, x.catalogId ∉ seen := by
  induction xs generalizing seen with
  | nil => simp [validateCollections]
  | cons x xs ih =>
    simp only [List.forall_mem_cons, List.map_cons, List.nodup_cons, List.mem_map, not_exists, not_and]
    rw [validateCollections]
    split
    · next htype => exact ⟨nofun, fun h => absurd h.1.1 htype⟩
    next htype =>
    split
    · next hseen => exact ⟨nofun, fun h => absurd hseen h.2.2.1⟩
    next hseen =>
    rw [ih]
    constructor
    · rintro ⟨htypes, hnodup, hnew⟩
      refine ⟨⟨not_not.mp htype, htypes⟩, ⟨fun y hy heq => hnew y hy (heq ▸ List.mem_cons_self), hnodup⟩, hseen, ?_⟩
      exact fun y hy hmem => hnew y hy (List.mem_cons_of_mem _ hmem)
    · rintro ⟨⟨-, htypes⟩, ⟨hfirst, hnodup⟩, -, hnew⟩
      refine ⟨htypes, hnodup, fun y hy hmem => ?_⟩
      rcases List.mem_cons.mp hmem with heq | hmem
      · exact hfirst y hy heq
      · exact hnew y hy hmem

theorem exists_of_sectionType {sections : List PlexLibrarySection} {key : Str} {type : PlexMediaType}
    (h : sectionType sections key = some type) : ∃ s ∈ sections, s.key = key ∧ s.type = type := by
  obtain ⟨s, hs, htype⟩ := Option.map_eq_some_iff.mp h
  exact ⟨s, List.mem_reverse.mp (List.mem_of_find?_eq_some hs), by simpa using List.find?_some hs, htype⟩

theorem PlexLibrarySection.accepted_of_check {j : Json} {s : PlexLibrarySection} (h : check j = .ok s) : s.Accepted := by
  cases j with
  | obj o =>
    simp only [check, bind_ok] at h
    obtain ⟨key, hkey, title, htitle, type, -, hs⟩ := h
    cases hs
    obtain ⟨v, hv⟩ := field_required hkey
    obtain ⟨w, hw⟩ := field_required htitle
    obtain ⟨-, h1, h2, -⟩ := checkStr_ok.mp hv
    obtain ⟨-, h3, h4, -⟩ := checkStr_ok.mp hw
    exact ⟨⟨h1, h2 _ rfl⟩, ⟨h3, h4 _ rfl⟩⟩
  | _ => cases h

theorem PlexCollectionCatalog.accepted_of_check {j : Json} {c : PlexCollectionCatalog} (h : check j = .ok c) :
    c.Accepted := by
  cases j with
  | obj o =>
    simp only [check, bind_ok] at h
    obtain ⟨ratingKey, hrk, sectionKey, hsk, title, htitle, type, -, -, -, hc⟩ := h
    cases hc
    obtain ⟨v, hv⟩ := field_required hrk
    obtain ⟨w, hw⟩ := field_required hsk
    obtain ⟨x, hx⟩ := field_required htitle
    obtain ⟨-, -, -, h1⟩ := checkStr_ok.mp hv
    obtain ⟨-, -, h2, h3⟩ := checkStr_ok.mp hw
    obtain ⟨-, h4, h5, -⟩ := checkStr_ok.mp hx
    exact ⟨h1, ⟨h2 _ rfl, h3⟩, ⟨h4, h5 _ rfl⟩⟩
  | _ => cases h

theorem PlexStreamingConnection.accepted_of_check {j : Json} {c : PlexStreamingConnection Y} (h : check Y j = .ok c) :
    AcceptedUrl c.url := by
  cases j with
  | obj o =>
    simp only [check, bind_ok] at h
    obtain ⟨url, hurl, kind, -, -, -, hc⟩ := h
    cases hc
    obtain ⟨v, hv⟩ := field_required hurl
    exact validatePlexUrl_accepted hv
  | _ => cases h

/-- The items of a list field passed their check. -/
theorem items_of_field {α : Type} {o : List (Str × Json)} {name : String} {most : Nat} {item : Check α} {as : List α}
    (h : field toCamel o name (some []) (checkList (some most) item) = .ok as) :
    as.length ≤ most ∧ ∀ a ∈ as, ∃ j, item j = .ok a := by
  rcases field_ok h with ⟨v, hv⟩ | hd
  · obtain ⟨xs, -, hitems, hlen⟩ := checkList_ok.mp hv
    refine ⟨hlen _ rfl, fun a ha => ?_⟩
    obtain ⟨j, -, hj⟩ := exists_of_forall₂ hitems a ha
    exact ⟨j, hj⟩
  · cases hd; simp

/-- **Validation ensures the invariant.** -/
theorem AddonConfiguration.accepted_of_check {j : Json} {c : AddonConfiguration Y} (h : check Y j = .ok c) :
    c.Accepted := by
  cases j with
  | obj o =>
    simp only [check, bind_ok] at h
    obtain ⟨accessToken, hat, discoveryUrl, hd, streamingUrl, hs, kind, -, connections, hconn, serverName, hsn, version,
      hver, sections, hsec, _, -, collections, hcol, _, -, _, -, _, -, _, -, _, -, _, -, _, -, _, -, _, -, _, huniq, hc⟩ := h
    cases hc
    obtain ⟨_, -, h1, h2, -⟩ := (field_required hat).imp fun _ => checkStr_ok.mp
    obtain ⟨_, -, h3, h4, -⟩ := (field_required hsn).imp fun _ => checkStr_ok.mp
    obtain ⟨_, hdu⟩ := (field_required hd).imp fun _ => validatePlexUrl_accepted
    obtain ⟨_, hsu⟩ := (field_required hs).imp fun _ => validatePlexUrl_accepted
    obtain ⟨hconn, hconns⟩ := items_of_field hconn
    obtain ⟨hsec, hsecs⟩ := items_of_field hsec
    obtain ⟨hcol, hcols⟩ := items_of_field hcol
    have hversion : 1 ≤ version.length ∧ version.length ≤ 64 := by
      rcases field_ok hver with ⟨v, hv⟩ | hv
      · obtain ⟨-, hv1, hv2, -⟩ := checkStr_ok.mp hv
        exact ⟨hv1, hv2 _ rfl⟩
      · cases hv; decide
    refine ⟨⟨h1, h2 _ rfl⟩, ?_, hconn, ⟨h3, h4 _ rfl⟩, hversion, ⟨hsec, ?_⟩, ⟨hcol, ?_⟩, huniq⟩
    · intro u hu
      simp only [configuredUrls, List.mem_cons, List.mem_map] at hu
      rcases hu with rfl | rfl | ⟨x, hx, rfl⟩
      · exact hdu
      · exact hsu
      · obtain ⟨j, hj⟩ := hconns x hx
        exact PlexStreamingConnection.accepted_of_check hj
    · intro s hs
      obtain ⟨j, hj⟩ := hsecs s hs
      exact PlexLibrarySection.accepted_of_check hj
    · intro x hx
      obtain ⟨j, hj⟩ := hcols x hx
      exact PlexCollectionCatalog.accepted_of_check hj
  | _ => cases h

/-! ## Loading what was stored -/

theorem checkEnum_mediaType (t : PlexMediaType) : checkEnum PlexMediaType.table (.str t.value) = .ok t := by
  cases t <;> rfl

theorem checkEnum_kind (k : PlexConnectionKind) : checkEnum PlexConnectionKind.table (.str k.value) = .ok k := by
  cases k <;> rfl

theorem checkEnum_resolution (r : Resolution) : checkEnum Resolution.table (.str r.value) = .ok r := by
  cases r <;> rfl

theorem checkStr_stored {least most : Nat} {s : Str} (h : least ≤ s.length ∧ s.length ≤ most) :
    checkStr least (some most) anyText (.str s) = .ok s :=
  checkStr_ok.mpr ⟨rfl, h.1, by simpa using h.2, rfl⟩

/-- A field stored under its alias, with a value its check accepts. -/
theorem field_stored {o : List (Str × Json)} {name : String} {α : Type} {default : Option α} {check : Check α} {v : Json}
    {a : α} (hl : List.lookup (toCamel name.toList) o = some v) (hv : check v = .ok a) :
    field toCamel o name default check = .ok a := by
  rw [field_of_lookup hl, within_ok, hv]

theorem PlexLibrarySection.check_members {s : PlexLibrarySection} (h : s.Accepted) : check (.obj s.members) = .ok s := by
  have hkey : field id s.members "key" none (checkStr 1 (some 128) anyText) = .ok s.key :=
    (field_of_lookup (v := .str s.key) rfl).trans (within_ok.mpr (checkStr_stored h.key))
  have htitle : field id s.members "title" none (checkStr 1 (some 255) anyText) = .ok s.title :=
    (field_of_lookup (v := .str s.title) rfl).trans (within_ok.mpr (checkStr_stored h.title))
  have htype : field id s.members "type" none (checkEnum PlexMediaType.table) = .ok s.type :=
    (field_of_lookup (v := .str s.type.value) rfl).trans (within_ok.mpr (checkEnum_mediaType s.type))
  rw [check, hkey, htitle, htype]
  rfl

theorem PlexCollectionCatalog.check_members {c : PlexCollectionCatalog} (h : c.Accepted) : check (.obj c.members) = .ok c := by
  have hrk : field toCamel c.members "rating_key" none (checkStr 0 none isRatingKeyText) = .ok c.ratingKey :=
    field_stored (v := .str c.ratingKey) rfl (checkStr_ok.mpr ⟨rfl, by simp, by simp, h.ratingKey⟩)
  have hsk : field toCamel c.members "section_key" none (checkStr 0 (some 128) isSectionKeyText) = .ok c.sectionKey :=
    field_stored (v := .str c.sectionKey) rfl
      (checkStr_ok.mpr ⟨rfl, by simp, by simpa using h.sectionKey.1, h.sectionKey.2⟩)
  have htitle : field toCamel c.members "title" none (checkStr 1 (some 255) anyText) = .ok c.title :=
    field_stored (v := .str c.title) rfl (checkStr_stored h.title)
  have htype : field toCamel c.members "type" none (checkEnum PlexMediaType.table) = .ok c.type :=
    field_stored (v := .str c.type.value) rfl (checkEnum_mediaType c.type)
  rw [check, hrk, hsk, htitle, htype]
  rfl

/-- A stored connection is checked for its URL. -/
theorem PlexStreamingConnection.check_members (c : PlexStreamingConnection Y) :
    check Y (.obj c.members) = (within "url".toList (validatePlexUrl Y (.str (Y.origin c.url))) >>=
      fun url => .ok { url, kind := c.kind }) := by
  have hurl : field toCamel c.members "url" none (validatePlexUrl Y) =
      within "url".toList (validatePlexUrl Y (.str (Y.origin c.url))) :=
    field_of_lookup (v := .str (Y.origin c.url)) rfl
  have hkind : field toCamel c.members "kind" (some .remote) (checkEnum PlexConnectionKind.table) = .ok c.kind :=
    field_stored (v := .str c.kind.value) rfl (checkEnum_kind c.kind)
  rw [check, hurl, hkind]
  rfl

theorem checkList_stored {α : Type} {most : Nat} {item : Check α} {write : α → Json} {xs : List α}
    (hlen : xs.length ≤ most) (h : ∀ x ∈ xs, item (write x) = .ok x) :
    checkList (some most) item (.arr (xs.map write)) = .ok xs := by
  refine checkList_ok.mpr ⟨_, rfl, ?_, by simpa using hlen⟩
  rw [List.forall₂_map_left_iff, List.forall₂_same]
  exact h

namespace AddonConfiguration
variable {c : AddonConfiguration Y}

theorem storage_keys : ∀ m ∈ c.storageMembers, ∃ n ∈ fields, toCamel n.toList = m.1 := by
  have hkeys : c.storageMembers.map Prod.fst = (["accessToken", "collections", "discoveryUrl", "includeCollections",
      "includeConnectionFallbacks", "includeDirectPlay", "includePlexTv", "includeTranscodeDown",
      "includeTranscodeOriginal", "proxyStreams", "reportPlayback", "sections", "serverName", "streamingConnectionKind",
      "streamingConnections", "streamingUrl", "transcodeDownQualities", "version"] : List String).map String.toList := rfl
  have hall : ∀ k ∈ c.storageMembers.map Prod.fst, ∃ n ∈ fields, toCamel n.toList = k := by
    rw [hkeys]
    decide +kernel
  exact fun m hm => hall m.1 (List.mem_map_of_mem hm)

/-- **A stored configuration is checked for its URLs only**: everything else
is accepted as it was. -/
theorem check_storage (hc : c.Accepted) : check Y (.obj c.storageMembers) = (do
    let discoveryUrl ← within "discoveryUrl".toList (validatePlexUrl Y (.str (Y.origin c.discoveryUrl)))
    let streamingUrl ← within "streamingUrl".toList (validatePlexUrl Y (.str (Y.origin c.streamingUrl)))
    let streamingConnections ← within "streamingConnections".toList (checkList (some 20) (PlexStreamingConnection.check Y)
      (.arr (c.streamingConnections.map fun x => .obj x.members)))
    pure { c with discoveryUrl, streamingUrl, streamingConnections }) := by
  have hat : field toCamel c.storageMembers "access_token" none (checkStr 1 (some 4096) anyText) = .ok c.accessToken :=
    field_stored (v := .str c.accessToken) rfl (checkStr_stored hc.accessToken)
  have hdu : field toCamel c.storageMembers "discovery_url" none (validatePlexUrl Y) = _ :=
    field_of_lookup (v := .str (Y.origin c.discoveryUrl)) rfl
  have hsu : field toCamel c.storageMembers "streaming_url" none (validatePlexUrl Y) = _ :=
    field_of_lookup (v := .str (Y.origin c.streamingUrl)) rfl
  have hkind : field toCamel c.storageMembers "streaming_connection_kind" (some .remote)
      (checkEnum PlexConnectionKind.table) = .ok c.streamingConnectionKind :=
    field_stored (v := .str c.streamingConnectionKind.value) rfl (checkEnum_kind _)
  have hconn : field toCamel c.storageMembers "streaming_connections" (some [])
      (checkList (some 20) (PlexStreamingConnection.check Y)) = _ :=
    field_of_lookup (v := .arr (c.streamingConnections.map fun x => .obj x.members)) rfl
  have hsn : field toCamel c.storageMembers "server_name" none (checkStr 1 (some 255) anyText) = .ok c.serverName :=
    field_stored (v := .str c.serverName) rfl (checkStr_stored hc.serverName)
  have hver : field toCamel c.storageMembers "version" (some "0.0.1".toList) (checkStr 1 (some 64) anyText) =
      .ok c.version :=
    field_stored (v := .str c.version) rfl (checkStr_stored hc.version)
  have hsec : field toCamel c.storageMembers "sections" (some []) (checkList (some 100) PlexLibrarySection.check) =
      .ok c.sections :=
    field_stored (v := .arr (c.sections.map fun s => .obj s.members)) rfl
      (checkList_stored hc.sections.1 fun s hs => PlexLibrarySection.check_members (hc.sections.2 s hs))
  have hcol : field toCamel c.storageMembers "collections" (some [])
      (checkList (some 200) PlexCollectionCatalog.check) = .ok c.collections :=
    field_stored (v := .arr (c.collections.map fun x => .obj x.members)) rfl
      (checkList_stored hc.collections.1 fun x hx => PlexCollectionCatalog.check_members (hc.collections.2 x hx))
  have hqual : field toCamel c.storageMembers "transcode_down_qualities" (some [])
      (checkList none (checkEnum Resolution.table)) = .ok c.transcodeDownQualities :=
    field_stored (v := .arr (c.transcodeDownQualities.map fun r => .str r.value)) rfl
      (checkList_ok.mpr ⟨_, rfl, by
        rw [List.forall₂_map_left_iff, List.forall₂_same]; exact fun r _ => checkEnum_resolution r, by simp⟩)
  have hic : field toCamel c.storageMembers "include_collections" (some false) checkBool = .ok c.includeCollections :=
    field_stored (v := .bool c.includeCollections) rfl rfl
  have hdp : field toCamel c.storageMembers "include_direct_play" (some true) checkBool = .ok c.includeDirectPlay :=
    field_stored (v := .bool c.includeDirectPlay) rfl rfl
  have hcf : field toCamel c.storageMembers "include_connection_fallbacks" (some false) checkBool =
      .ok c.includeConnectionFallbacks :=
    field_stored (v := .bool c.includeConnectionFallbacks) rfl rfl
  have hto : field toCamel c.storageMembers "include_transcode_original" (some false) checkBool =
      .ok c.includeTranscodeOriginal :=
    field_stored (v := .bool c.includeTranscodeOriginal) rfl rfl
  have htd : field toCamel c.storageMembers "include_transcode_down" (some false) checkBool =
      .ok c.includeTranscodeDown :=
    field_stored (v := .bool c.includeTranscodeDown) rfl rfl
  have hpt : field toCamel c.storageMembers "include_plex_tv" (some false) checkBool = .ok c.includePlexTv :=
    field_stored (v := .bool c.includePlexTv) rfl rfl
  have hrp : field toCamel c.storageMembers "report_playback" (some false) checkBool = .ok c.reportPlayback :=
    field_stored (v := .bool c.reportPlayback) rfl rfl
  have hps : field toCamel c.storageMembers "proxy_streams" (some true) checkBool = .ok c.proxyStreams :=
    field_stored (v := .bool c.proxyStreams) rfl rfl
  rw [check, hat, hdu, hsu]
  simp only [hkind, hconn, hsn, hver, hsec, hic, hcol, hdp, hcf, hto, htd, hqual, hpt, hrp, hps,
    forbidExtra_ok storage_keys, hc.unique, ok_bind]
  rfl

end AddonConfiguration

/-! ## The round -/

/-- Equal, except for trailing slashes of the URLs. -/
structure SameUpToSlashes (c d : AddonConfiguration Y) : Prop where
  discoveryUrl : Y.origin d.discoveryUrl = Y.origin c.discoveryUrl
  streamingUrl : Y.origin d.streamingUrl = Y.origin c.streamingUrl
  connections : List.Forall₂ (fun x y => Y.origin y.url = Y.origin x.url ∧ y.kind = x.kind) c.streamingConnections
    d.streamingConnections
  rest : d = { c with discoveryUrl := d.discoveryUrl, streamingUrl := d.streamingUrl,
                      streamingConnections := d.streamingConnections }

namespace SameUpToSlashes
variable {c d e : AddonConfiguration Y}

/-- The same addresses, without their trailing slashes. -/
theorem origins (h : SameUpToSlashes c d) : d.configuredUrls.map Y.origin = c.configuredUrls.map Y.origin := by
  have hconn : d.streamingConnections.map (fun x => Y.origin x.url) = c.streamingConnections.map fun x => Y.origin x.url := by
    rw [← List.forall₂_eq_eq_eq, List.forall₂_map_left_iff, List.forall₂_map_right_iff]
    exact h.connections.flip.imp fun _ _ hxy => hxy.1
  simp only [AddonConfiguration.configuredUrls, List.map_cons, List.map_map, h.discoveryUrl, h.streamingUrl]
  exact congrArg _ (congrArg _ hconn)

/-- **Equal up to slashes, stored alike.** -/
theorem toStorageDict (h : SameUpToSlashes c d) : d.toStorageDict = c.toStorageDict := by
  have hconn : d.streamingConnections.map (fun x => Json.obj x.members) = c.streamingConnections.map fun x => .obj x.members := by
    rw [← List.forall₂_eq_eq_eq, List.forall₂_map_left_iff, List.forall₂_map_right_iff]
    refine h.connections.flip.imp fun y x hxy => ?_
    rw [PlexStreamingConnection.members, PlexStreamingConnection.members, hxy.1, hxy.2]
  refine Subtype.ext (congrArg Json.obj ?_)
  rw [AddonConfiguration.storageMembers, AddonConfiguration.storageMembers, hconn, h.discoveryUrl, h.streamingUrl]
  rw [h.rest]

theorem refl (c : AddonConfiguration Y) : SameUpToSlashes c c :=
  ⟨rfl, rfl, List.forall₂_same.mpr fun _ _ => ⟨rfl, rfl⟩, rfl⟩

end SameUpToSlashes

namespace AddonConfiguration
variable {c d : AddonConfiguration Y}

theorem load_storage_iff : load Y c.toStorageDict = .ok d ↔ check Y (.obj c.storageMembers) = .ok d := by
  simp only [load, toStorageDict]
  cases check Y (.obj c.storageMembers) <;> simp

/-- Checking the stored connections checks each one's URL. -/
theorem connections_ok {xs ys : List (PlexStreamingConnection Y)} :
    List.Forall₂ (fun j y => PlexStreamingConnection.check Y j = .ok y) (xs.map fun x => .obj x.members) ys ↔
      List.Forall₂ (fun x y => validatePlexUrl Y (.str (Y.origin x.url)) = .ok y.url ∧ y.kind = x.kind) xs ys := by
  rw [List.forall₂_map_left_iff]
  have hone : ∀ x y : PlexStreamingConnection Y, PlexStreamingConnection.check Y (.obj x.members) = .ok y ↔
      validatePlexUrl Y (.str (Y.origin x.url)) = .ok y.url ∧ y.kind = x.kind := by
    intro x y
    rw [PlexStreamingConnection.check_members, bind_ok]
    constructor
    · rintro ⟨u, hu, hy⟩; cases hy; exact ⟨within_ok.mp hu, rfl⟩
    · rintro ⟨hu, hk⟩; exact ⟨y.url, within_ok.mpr hu, by rw [← hk]⟩
  simp only [hone]

theorem Accepted.connection (hc : c.Accepted) {x : PlexStreamingConnection Y} (hx : x ∈ c.streamingConnections) :
    AcceptedUrl x.url :=
  hc.urls _ (by simp only [configuredUrls, List.mem_cons, List.mem_map]; exact .inr (.inr ⟨x, hx, rfl⟩))

/-- **What is loaded** is the configuration up to trailing slashes, and every
stored URL was within the limit. -/
theorem load_storage (hY : Y.Lawful) (hc : c.Accepted) (h : load Y c.toStorageDict = .ok d) :
    SameUpToSlashes c d ∧ ∀ u ∈ c.configuredUrls, (Y.origin u).length ≤ 2048 := by
  rw [load_storage_iff, check_storage hc] at h
  simp only [bind_ok, within_ok] at h
  obtain ⟨du, hdu, su, hsu, xs, hxs, hd⟩ := h
  cases hd
  obtain ⟨hdlen, hdo⟩ := origin_of_validate hY (hc.urls _ (by simp [configuredUrls])) hdu
  obtain ⟨hslen, hso⟩ := origin_of_validate hY (hc.urls _ (by simp [configuredUrls])) hsu
  obtain ⟨js, hjs, hitems, -⟩ := checkList_ok.mp hxs
  cases hjs
  have hconn := connections_ok.mp hitems
  refine ⟨⟨hdo, hso, ?_, rfl⟩, ?_⟩
  · have hacc := (List.forall₂_and_left _ _).mpr ⟨fun x hx => hc.connection hx, hconn⟩
    exact hacc.imp fun x y hxy => ⟨(origin_of_validate hY hxy.1 hxy.2.1).2, hxy.2.2⟩
  · intro u hu
    simp only [configuredUrls, List.mem_cons, List.mem_map] at hu
    rcases hu with rfl | rfl | ⟨x, hx, rfl⟩
    · exact hdlen
    · exact hslen
    · obtain ⟨y, -, hy⟩ := exists_of_forall₂ hconn.flip x hx
      exact (origin_of_validate hY (hc.connection hx) hy.1).1

/-- Short stored URLs load. -/
theorem exists_load_storage (hY : Y.Lawful) (hc : c.Accepted)
    (hlen : ∀ u ∈ c.configuredUrls, (Y.origin u).length ≤ 2048) : ∃ d, load Y c.toStorageDict = .ok d := by
  have hmem : ∀ u ∈ c.configuredUrls, ∃ v, validatePlexUrl Y (.str (Y.origin u)) = .ok v := by
    intro u hu
    obtain ⟨v, hv, -, -⟩ := validatePlexUrl_origin hY (hc.urls u hu) (hlen u hu)
    exact ⟨v, hv⟩
  obtain ⟨du, hdu⟩ := hmem c.discoveryUrl (by simp [configuredUrls])
  obtain ⟨su, hsu⟩ := hmem c.streamingUrl (by simp [configuredUrls])
  have hconn : ∃ ys, List.Forall₂ (fun (x y : PlexStreamingConnection Y) =>
      validatePlexUrl Y (.str (Y.origin x.url)) = .ok y.url ∧ y.kind = x.kind) c.streamingConnections ys := by
    refine exists_forall₂ fun x hx => ?_
    obtain ⟨v, hv⟩ := hmem x.url (by simp only [configuredUrls, List.mem_cons, List.mem_map]; exact .inr (.inr ⟨x, hx, rfl⟩))
    exact ⟨⟨v, x.kind⟩, hv, rfl⟩
  obtain ⟨ys, hys⟩ := hconn
  refine ⟨{ c with discoveryUrl := du, streamingUrl := su, streamingConnections := ys }, ?_⟩
  rw [load_storage_iff, check_storage hc]
  simp only [bind_ok, within_ok]
  refine ⟨du, hdu, su, hsu, ys, checkList_ok.mpr ⟨_, rfl, connections_ok.mpr hys, ?_⟩, rfl⟩
  intro n hn
  cases hn
  exact hys.length_eq ▸ hc.connections

/-- A configuration whose URLs are stored as they are is loaded as it is. -/
theorem check_storage_self (hc : c.Accepted)
    (hu : ∀ u ∈ c.configuredUrls, validatePlexUrl Y (.str (Y.origin u)) = .ok u) : check Y (.obj c.storageMembers) = .ok c := by
  have hconn : List.Forall₂ (fun x y : PlexStreamingConnection Y =>
      validatePlexUrl Y (.str (Y.origin x.url)) = .ok y.url ∧ y.kind = x.kind) c.streamingConnections c.streamingConnections :=
    List.forall₂_same.mpr fun x hx =>
      ⟨hu _ (by simp only [configuredUrls, List.mem_cons, List.mem_map]; exact .inr (.inr ⟨x, hx, rfl⟩)), rfl⟩
  rw [check_storage hc]
  simp only [bind_ok, within_ok]
  refine ⟨_, hu _ (by simp [configuredUrls]), _, hu _ (by simp [configuredUrls]), _,
    checkList_ok.mpr ⟨_, rfl, connections_ok.mpr hconn, ?_⟩, rfl⟩
  intro n hn
  cases hn
  exact hc.connections

/-! ## A configuration to compute with -/

/-- Two sections, a collection and two connections. -/
def sample : AddonConfiguration Yarl.plain where
  accessToken := "t0ken".toList
  discoveryUrl := PlainUrl.http "10.0.0.2:32400"
  streamingUrl := PlainUrl.http "10.0.0.2:32400"
  streamingConnectionKind := .localKind
  streamingConnections := [⟨PlainUrl.http "10.0.0.2:32400", .localKind⟩, ⟨PlainUrl.http "plex.example:32400", .remote⟩]
  serverName := "Home".toList
  version := "0.0.1".toList
  sections := [⟨"1".toList, "Movies".toList, .movie⟩, ⟨"2".toList, "Shows".toList, .tvShow⟩]
  includeCollections := true
  collections := [⟨"7".toList, "1".toList, "Best".toList, .movie⟩]
  includeDirectPlay := true
  includeConnectionFallbacks := true
  includeTranscodeOriginal := false
  includeTranscodeDown := false
  transcodeDownQualities := []
  includePlexTv := false
  reportPlayback := false
  proxyStreams := true

theorem sample_urls : ∀ u ∈ sample.configuredUrls, validatePlexUrl Yarl.plain (.str (Yarl.plain.origin u)) = .ok u := by
  refine List.forall_mem_cons.mpr ⟨rfl, List.forall_mem_cons.mpr ⟨rfl, List.forall_mem_cons.mpr ⟨rfl, ?_⟩⟩⟩
  exact List.forall_mem_cons.mpr ⟨rfl, fun u hu => by cases hu⟩

theorem sample_accepted : sample.Accepted where
  accessToken := by decide
  urls u hu := validatePlexUrl_accepted (sample_urls u hu)
  connections := by decide
  serverName := by decide
  version := by decide
  sections := ⟨by decide, List.forall_mem_cons.mpr ⟨⟨by decide, by decide⟩, List.forall_mem_cons.mpr
    ⟨⟨by decide, by decide⟩, fun s hs => by cases hs⟩⟩⟩
  collections := ⟨by decide, List.forall_mem_cons.mpr ⟨⟨by decide, by decide, by decide⟩, fun x hx => by cases hx⟩⟩
  unique := by decide +kernel

theorem check_sample : check Yarl.plain (.obj sample.storageMembers) = .ok sample :=
  check_storage_self sample_accepted sample_urls

end AddonConfiguration

end Plexio
