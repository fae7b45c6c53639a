/-
In which order an item's streams are listed (`get_stremio_streams`). The
versions are sorted by a priority that ends in their place in Plex's list, so
no two are alike (`Ordered`); the streams of a version stand together, and are
made of nothing else of the other versions (`Block`).
-/
import Mathlib.Data.List.Sigma
import Plexio.StreamFields

namespace Plexio

open Py Json
open Binary64 (Fits)

/-! ## Priorities -/

namespace Priority

/-- The first five components. -/
def rank (p : Priority) : Priority := { p with originalIndex := 0 }

theorem le_iff {a b : Priority} : a ≤ b ↔ a.isHeavy < b.isHeavy ∨ a.isHeavy = b.isHeavy ∧
    (a.codecRank < b.codecRank ∨ a.codecRank = b.codecRank ∧
      (a.containerRank < b.containerRank ∨ a.containerRank = b.containerRank ∧
        (a.height < b.height ∨ a.height = b.height ∧
          (a.bitrate < b.bitrate ∨ a.bitrate = b.bitrate ∧ a.originalIndex ≤ b.originalIndex)))) := by
  show a.tuple ≤ b.tuple ↔ _
  simp only [tuple, Prod.Lex.toLex_le_toLex]

theorem rank_mono {a b : Priority} (h : a ≤ b) : a.rank ≤ b.rank := by
  rw [le_iff] at h ⊢
  refine h.imp_right (And.imp_right (Or.imp_right (And.imp_right (Or.imp_right (And.imp_right (Or.imp_right
    (And.imp_right (Or.imp_right ?_))))))))
  exact And.imp_right fun _ => le_refl 0

theorem isHeavy_mono {a b : Priority} (h : a ≤ b) (ha : a.isHeavy = true) : b.isHeavy = true := by
  rcases le_iff.mp h with hlt | ⟨heq, -⟩
  · exact absurd hlt (by simp [ha])
  · rw [← heq, ha]

end Priority

section Priorities
variable {U : Unicode}

theorem playbackPriority_index {media : Version} {i : Nat} {p : Priority} (h : playbackPriority U (media, i) = .ok p) :
    p.originalIndex = i := by
  obtain ⟨bitrate, -, h⟩ := bind_ok.mp h
  obtain ⟨size, -, h⟩ := bind_ok.mp h
  obtain ⟨height, -, h⟩ := bind_ok.mp h
  cases h
  rfl

/-- The rank is the version's own, wherever it stands. -/
theorem playbackPriority_rank {media : Version} {i j : Nat} {p q : Priority} (hp : playbackPriority U (media, i) = .ok p)
    (hq : playbackPriority U (media, j) = .ok q) : p.rank = q.rank := by
  obtain ⟨bitrate, hbitrate, hp⟩ := bind_ok.mp hp
  obtain ⟨size, hsize, hp⟩ := bind_ok.mp hp
  obtain ⟨height, hheight, hp⟩ := bind_ok.mp hp
  obtain ⟨bitrate', hbitrate', hq⟩ := bind_ok.mp hq
  obtain ⟨size', hsize', hq⟩ := bind_ok.mp hq
  obtain ⟨height', hheight', hq⟩ := bind_ok.mp hq
  cases hbitrate.symm.trans hbitrate'
  cases hsize.symm.trans hsize'
  cases hheight.symm.trans hheight'
  cases hp
  cases hq
  rfl

/-- A bitrate above 40000, or a size above 40 GiB. -/
def Version.Heavy (media : Version) : Prop :=
  (∃ n ∈ orInt media.bitrate ((media.part.bind List.head?).getD {}).bitrate, 40000 < n) ∨
    ∃ n ∈ ((media.part.bind List.head?).getD {}).size, 40 * 1024 ^ 3 < n

/-- A threshold of few bits is passed by the float if by the number. -/
theorem lt_float {n threshold : Int} (ht : 0 ≤ threshold) (hsmall : threshold < 2 ^ 53) {x : ℚ} (h : float n = .ok x) :
    (threshold : ℚ) < x ↔ threshold < n := by
  rw [float] at h
  split at h
  · cases h
    by_cases hn : n.natAbs < 2 ^ 53
    · rw [Binary64.round_intCast hn, Int.cast_lt]
    rcases le_total 0 n with hpos | hneg
    · have hbig : (2 : ℚ) ^ 53 ≤ n := by
        have : (2 : Int) ^ 53 ≤ n := by omega
        exact_mod_cast this
      refine iff_of_true (lt_of_lt_of_le ?_ (Binary64.le_round hbig)) (by omega)
      exact_mod_cast hsmall
    · have hbig : (2 : ℚ) ^ 53 ≤ ((-n : Int) : ℚ) := by
        have : (2 : Int) ^ 53 ≤ -n := by omega
        exact_mod_cast this
      have hround := Binary64.le_round hbig
      rw [Int.cast_neg, Binary64.round_neg] at hround
      refine iff_of_false (not_lt.mpr ?_) (by omega)
      have : (0 : ℚ) ≤ threshold := by exact_mod_cast ht
      linarith
  · cases h

theorem lt_number (threshold : Int) {o : Option Int} (ht : 0 ≤ threshold) (hsmall : threshold < 2 ^ 53) {x : ℚ}
    (h : number o = .ok x) : (threshold : ℚ) < x ↔ ∃ n ∈ o, threshold < n := by
  cases o with
  | none =>
    cases h
    simpa using ht
  | some n => simpa using lt_float ht hsmall h

theorem playbackPriority_isHeavy {media : Version} {i : Nat} {p : Priority} (h : playbackPriority U (media, i) = .ok p) :
    p.isHeavy = true ↔ media.Heavy := by
  obtain ⟨bitrate, hbitrate, h⟩ := bind_ok.mp h
  obtain ⟨size, hsize, h⟩ := bind_ok.mp h
  obtain ⟨height, -, h⟩ := bind_ok.mp h
  cases h
  simp only [Bool.or_eq_true, decide_eq_true_eq]
  exact or_congr (lt_number 40000 (by decide) (by decide) hbitrate)
    (lt_number (40 * 1024 ^ 3) (by decide) (by decide) hsize)

end Priorities

/-! ## The order -/

/-- The versions as they are listed, each with its priority. -/
structure Ordered (U : Unicode) (media : List Version) (order : List (Priority × Version × Nat)) : Prop where
  perm : (order.map (·.2)).Perm media.zipIdx
  priority : ∀ k ∈ order, playbackPriority U k.2 = .ok k.1
  sorted : order.Pairwise fun a b => a.1 < b.1

section Order
variable {U : Unicode} {media : List Version} {order order' : List (Priority × Version × Nat)}

/-- Entries are told apart by their places. -/
theorem keyed_inj {l : List (Priority × Version × Nat)} (hperm : (l.map (·.2)).Perm media.zipIdx)
    (h : ∀ k ∈ l, playbackPriority U k.2 = .ok k.1) {a b : Priority × Version × Nat} (ha : a ∈ l) (hb : b ∈ l)
    (heq : a.1 = b.1) : a = b := by
  obtain ⟨p, version, i⟩ := a
  obtain ⟨q, version', j⟩ := b
  have hi := playbackPriority_index (h _ ha)
  have hj := playbackPriority_index (h _ hb)
  have hat := hperm.mem_iff.mp (List.mem_map_of_mem ha)
  have hbt := hperm.mem_iff.mp (List.mem_map_of_mem hb)
  rw [List.mem_zipIdx_iff_getElem?] at hat hbt
  dsimp only at heq hi hj hat hbt
  subst heq
  obtain rfl : i = j := hi.symm.trans hj
  rw [Option.some.inj (hat.symm.trans hbt)]

/-- Sorting gives the order. -/
theorem ordered_insertionSort {keyed : List (Priority × Version × Nat)} (hkeyed : keyed.map (·.2) = media.zipIdx)
    (h : ∀ k ∈ keyed, playbackPriority U k.2 = .ok k.1) : Ordered U media (keyed.insertionSort fun a b => a.1 ≤ b.1) := by
  have hperm := List.perm_insertionSort (fun a b : Priority × Version × Nat => a.1 ≤ b.1) keyed
  have hplaces : ((keyed.insertionSort fun a b => a.1 ≤ b.1).map (·.2)).Perm media.zipIdx := hkeyed ▸ hperm.map _
  refine ⟨hplaces, fun k hk => h k (hperm.mem_iff.mp hk), ?_⟩
  have hle := List.pairwise_insertionSort (fun a b : Priority × Version × Nat => a.1 ≤ b.1) keyed
  -- No place comes twice, so neither does a priority.
  have hindices : media.zipIdx.Nodup := (List.nodup_zipIdx_map_snd media).of_map
  have hnodup : (keyed.insertionSort fun a b => a.1 ≤ b.1).Nodup :=
    List.Nodup.of_map (·.2) (hplaces.nodup_iff.mpr hindices)
  refine (hle.and hnodup).imp_of_mem ?_
  intro a b ha hb hab
  refine lt_of_le_of_ne hab.1 fun heq => hab.2 ?_
  exact keyed_inj hplaces (fun k hk => h k (hperm.mem_iff.mp hk)) ha hb heq

/-- Heavy versions come last. -/
theorem Ordered.heavy_last (h : Ordered U media order) : order.Pairwise fun a b => a.2.1.Heavy → b.2.1.Heavy := by
  refine h.sorted.imp_of_mem ?_
  intro a b ha hb hab
  rw [← playbackPriority_isHeavy (h.priority a ha), ← playbackPriority_isHeavy (h.priority b hb)]
  exact Priority.isHeavy_mono hab.le

/-- The versions alone. -/
theorem Ordered.versions (h : Ordered U media order) : (order.map fun k => k.2.1).Perm media := by
  have hperm := h.perm.map Prod.fst
  rwa [List.map_map, List.zipIdx_map_fst] at hperm

/-- The same versions in another list of Plex's: the ranks come in the same order. -/
theorem Ordered.ranks (h : Ordered U media order) {media' : List Version} (h' : Ordered U media' order')
    (hperm : media'.Perm media) : order'.map (fun k => k.1.rank) = order.map fun k => k.1.rank := by
  have hsorted : ∀ {media : List Version} {order : List (Priority × Version × Nat)}, Ordered U media order →
      (order.map fun k => k.1.rank).Pairwise (· ≤ ·) := by
    intro media order h
    exact List.pairwise_map.mpr (h.sorted.imp fun hab => Priority.rank_mono hab.le)
  refine List.Perm.eq_of_pairwise' (hsorted h') (hsorted h) ?_
  -- A version's rank is the same in both.
  let rankOf (version : Version) : Priority :=
    ((order.find? fun k => k.2.1 = version).map fun k => k.1.rank).getD ⟨false, 0, 0, 0, 0, 0⟩
  have hrank : ∀ {media' : List Version} {order' : List (Priority × Version × Nat)}, Ordered U media' order' →
      media'.Perm media → order'.map (fun k => k.1.rank) = (order'.map fun k => k.2.1).map rankOf := by
    intro media' order' h' hperm
    rw [List.map_map]
    refine List.map_congr_left fun k hk => ?_
    have hin : k.2.1 ∈ order.map fun k => k.2.1 :=
      h.versions.mem_iff.mpr (hperm.mem_iff.mp (h'.versions.mem_iff.mp (List.mem_map_of_mem hk)))
    obtain ⟨l, hl, hsame⟩ := List.mem_map.mp hin
    obtain ⟨first, hfirst⟩ := Option.isSome_iff_exists.mp
      (List.find?_isSome.mpr ⟨l, hl, decide_eq_true hsame⟩ : (order.find? fun l => l.2.1 = k.2.1).isSome)
    have hversion : first.2.1 = k.2.1 := by simpa using List.find?_some hfirst
    have hpriority := h.priority first (List.mem_of_find?_eq_some hfirst)
    simp only [Function.comp, rankOf, hfirst, Option.map_some, Option.getD_some]
    refine playbackPriority_rank (h'.priority k hk) (j := first.2.2) ?_
    rw [← hversion]
    exact hpriority
  rw [hrank h' hperm, hrank h (.refl _)]
  exact ((h'.versions.trans hperm).trans h.versions.symm).map _

end Order

/-! ## The streams of a version -/

section Blocks
variable {Y : Yarl} (c : AddonConfiguration Y) (playPrefix : Option Str) (item : PlexMediaMeta)

/-- The parameters of a transcode of the version at a place. -/
def transcodeParams (key : Str) (i : Nat) : List (Str × Str) :=
  [("path".toList, key), ("mediaIndex".toList, strInt i), ("protocol".toList, "hls".toList), ("fastSeek".toList, "1".toList),
    ("copyts".toList, "1".toList), ("autoAdjustQuality".toList, "0".toList), ("X-Plex-Platform".toList, "Chrome".toList),
    ("X-Plex-Token".toList, c.accessToken)]

/-- The address of a transcode, with more parameters. -/
def transcodeText (start : Y.Url) (key : Str) (more : List (Str × Str)) (i : Nat) : Str :=
  Y.str (Y.mod (Y.mod start (transcodeParams c key i)) more)

/-- The stream plays the part of this key: through the proxy, or from one of the connections. -/
def PlaysPart (media : Version) (partKey : Str) (s : StremioStream) : Prop :=
  if Yarl.truthy playPrefix then
    ∃ key duration, item.key = some key ∧ formatInt ((orInt item.duration media.duration).getD 0) = .ok duration ∧
      s.url = some (playPrefix.getD [] ++ '/' :: afterLast '/' key ++ '/' :: duration ++
        '/' :: rstrip '=' (urlsafeB64encode (encode partKey)))
  else
    ∃ connections, c.directPlayConnections = .ok connections ∧ ∃ x ∈ connections, ∃ url,
      divide x.1 (partKey.drop 1) = .ok url ∧ s.url = some (Y.str (Y.mod url (tokenParam c.accessToken)))

/-- The stream is a transcode of the version at this place. -/
def Transcodes (i : Nat) (s : StremioStream) : Prop :=
  ∃ start key more, divide c.streamingUrl "video/:/transcode/universal/start.m3u8".toList = .ok start ∧
    item.key = some key ∧ (∀ kv ∈ more, kv.1 ≠ "mediaIndex".toList) ∧ s.url = some (transcodeText c start key more i)

/-- What a version's streams are: those that play its part, its transcodes, a link. -/
structure Block (U : Unicode) (media : Version) (i : Nat) (block : List StremioStream) : Prop where
  /-- They are the same beside any other versions. -/
  own : ∀ others, ({ item with media := others } : PlexMediaMeta).versionStreams U c playPrefix media i = .ok block
  made : ∃ part parts direct transcodes links, media.part = some (part :: parts) ∧ block = direct ++ transcodes ++ links ∧
    (∀ s ∈ direct, ∃ partKey ∈ part.key, PlaysPart c playPrefix item media partKey s) ∧
    (∀ s ∈ transcodes, Transcodes c item i s) ∧ (∀ s ∈ links, s.url = none) ∧ (c.includeDirectPlay = true → direct ≠ [])

/-- The streams are alike, but for the place in a transcode's address. -/
def SameButIndex (i j : Nat) (s t : StremioStream) : Prop :=
  s = t ∨ ∃ start key more, s.url = some (transcodeText c start key more i) ∧
    t = { s with url := some (transcodeText c start key more j) }

variable {c playPrefix item} {U : Unicode} {media : Version} {i j : Nat}

/-- A stream's address is all that its address decides. -/
theorem Source.stream_move {source : Source} {quality url url' : Str} {base : Y.Url} {s t : StremioStream}
    (hs : source.stream c quality url base = .ok s) (ht : source.stream c quality url' base = .ok t) :
    s.url = some url ∧ t = { s with url := some url' } := by
  obtain ⟨description, hdescription, hs⟩ := bind_ok.mp hs
  obtain ⟨subtitles, hsubtitles, hs⟩ := bind_ok.mp hs
  obtain ⟨description', hdescription', ht⟩ := bind_ok.mp ht
  obtain ⟨subtitles', hsubtitles', ht⟩ := bind_ok.mp ht
  cases hdescription.symm.trans hdescription'
  cases hsubtitles.symm.trans hsubtitles'
  cases hs
  cases ht
  exact ⟨rfl, rfl⟩

theorem PlexMediaMeta.transcodeUrl_ok {url : Y.Url} (h : item.transcodeUrl c i = .ok url) :
    ∃ start key, divide c.streamingUrl "video/:/transcode/universal/start.m3u8".toList = .ok start ∧ item.key = some key ∧
      url = Y.mod start (transcodeParams c key i) := by
  obtain ⟨start, hstart, h⟩ := bind_ok.mp h
  split at h
  · cases h
  · next key hkey =>
    cases h
    exact ⟨start, key, hstart, hkey, rfl⟩

theorem plexArgs_index (quality : Resolution) : ∀ kv ∈ quality.plexArgs, kv.1 ≠ "mediaIndex".toList := by
  cases quality <;> decide +kernel

section Parts
variable {source : Source} {streams streams' : List StremioStream} {url url' : Y.Url}

theorem plays_directPlay (h : item.directPlayStreams c playPrefix media source = .ok streams) :
    ∀ s ∈ streams, ∃ partKey ∈ source.part.key, PlaysPart c playPrefix item media partKey s := by
  obtain ⟨connections, hconnections, h⟩ := bind_ok.mp h
  intro s hs
  obtain ⟨⟨⟨streamBase, kind⟩, n⟩, hmem, hstream⟩ := exists_of_forall₂ (mapM_ok.mp h) s hs
  obtain ⟨⟨url, label⟩, hurl, hstream⟩ := bind_ok.mp hstream
  have hs : s.url = some url := (Source.stream_move hstream hstream).1
  have hmem : (streamBase, kind) ∈ connections := by
    have hmem := List.fst_mem_of_mem_zipIdx hmem
    split at hmem
    · exact List.mem_of_mem_take hmem
    · exact hmem
  rw [PlexMediaMeta.directPlayUrl] at hurl
  unfold PlaysPart
  split at hurl
  · next htruthy =>
    cases hkey : item.key with
    | none => rw [hkey] at hurl; cases hurl
    | some key =>
      rw [hkey] at hurl
      obtain ⟨_, hlast, hurl⟩ := bind_ok.mp hurl
      cases hlast
      obtain ⟨partKey, hpart, hurl⟩ := bind_ok.mp hurl
      obtain ⟨duration, hduration, hurl⟩ := bind_ok.mp hurl
      cases hurl
      refine ⟨partKey, index_ok.mp hpart, ?_⟩
      rw [if_pos htruthy]
      exact ⟨key, duration, rfl, hduration, hs⟩
  · next hnot =>
    obtain ⟨partKey, hpart, hurl⟩ := bind_ok.mp hurl
    obtain ⟨u, hu, hurl⟩ := bind_ok.mp hurl
    cases hurl
    refine ⟨partKey, index_ok.mp hpart, ?_⟩
    rw [if_neg hnot]
    exact ⟨connections, hconnections, (streamBase, kind), hmem, u, hu, hs⟩

theorem directPlay_ne_nil {rest : List (Y.Url × PlexConnectionKind)} {primary : Y.Url × PlexConnectionKind}
    (hconnections : c.directPlayConnections = .ok (primary :: rest))
    (h : item.directPlayStreams c playPrefix media source = .ok streams) : streams ≠ [] := by
  obtain ⟨connections, hsame, h⟩ := bind_ok.mp h
  cases hconnections.symm.trans hsame
  rintro rfl
  have hnil := List.forall₂_nil_right_iff.mp (mapM_ok.mp h)
  split at hnil <;> simp at hnil

theorem transcodes_original (hurl : item.transcodeUrl c i = .ok url)
    (h : PlexMediaMeta.originalStreams c source url = .ok streams) : ∀ s ∈ streams, Transcodes c item i s := by
  obtain ⟨stream, hstream, h⟩ := bind_ok.mp h
  cases h
  obtain ⟨start, key, hstart, hkey, rfl⟩ := PlexMediaMeta.transcodeUrl_ok hurl
  refine List.forall_mem_singleton.mpr ⟨start, key, _, hstart, hkey, ?_, (Source.stream_move hstream hstream).1⟩
  exact List.forall_mem_singleton.mpr (by decide +kernel)

theorem transcodes_down (hurl : item.transcodeUrl c i = .ok url)
    (h : PlexMediaMeta.transcodeDownStreams c media source url = .ok streams) : ∀ s ∈ streams, Transcodes c item i s := by
  obtain ⟨start, key, hstart, hkey, rfl⟩ := PlexMediaMeta.transcodeUrl_ok hurl
  intro s hs
  obtain ⟨quality, description, hstream⟩ := PlexMediaMeta.transcodeDownStreams_ok h s hs
  exact ⟨start, key, _, hstart, hkey, plexArgs_index quality, (Source.stream_move hstream hstream).1⟩

/-- The two lists are made of the same items. -/
theorem forall₂_of_common {α β γ : Type} {R : α → β → Prop} {S : α → γ → Prop} {T : β → γ → Prop}
    (h : ∀ a b d, R a b → S a d → T b d) : ∀ {as : List α} {bs : List β} {ds : List γ}, List.Forall₂ R as bs →
      List.Forall₂ S as ds → List.Forall₂ T bs ds
  | [], _, _, .nil, .nil => .nil
  | _ :: _, _, _, .cons hr hrs, .cons hs hss => .cons (h _ _ _ hr hs) (forall₂_of_common h hrs hss)

variable {start : Y.Url} {key : Str}

theorem same_original (h : PlexMediaMeta.originalStreams c source (Y.mod start (transcodeParams c key i)) = .ok streams)
    (h' : PlexMediaMeta.originalStreams c source (Y.mod start (transcodeParams c key j)) = .ok streams') :
    List.Forall₂ (SameButIndex c i j) streams streams' := by
  obtain ⟨stream, hstream, h⟩ := bind_ok.mp h
  obtain ⟨stream', hstream', h'⟩ := bind_ok.mp h'
  cases h
  cases h'
  obtain ⟨hurl, hmove⟩ := Source.stream_move hstream hstream'
  exact .cons (.inr ⟨start, key, _, hurl, hmove⟩) .nil

theorem same_down (h : PlexMediaMeta.transcodeDownStreams c media source (Y.mod start (transcodeParams c key i)) = .ok streams)
    (h' : PlexMediaMeta.transcodeDownStreams c media source (Y.mod start (transcodeParams c key j)) = .ok streams') :
    List.Forall₂ (SameButIndex c i j) streams streams' := by
  obtain ⟨groups, hgroups, h⟩ := bind_ok.mp h
  obtain ⟨groups', hgroups', h'⟩ := bind_ok.mp h'
  cases h
  cases h'
  refine List.rel_flatten (forall₂_of_common ?_ (mapM_ok.mp hgroups) (mapM_ok.mp hgroups'))
  intro quality group group' hgroup hgroup'
  obtain ⟨width, hwidth, hgroup⟩ := bind_ok.mp hgroup
  obtain ⟨width', hwidth', hgroup'⟩ := bind_ok.mp hgroup'
  cases hwidth.symm.trans hwidth'
  split at hgroup
  · next hsmall =>
    rw [if_pos hsmall] at hgroup'
    cases hgroup
    cases hgroup'
    exact .nil
  · next hlarge =>
    rw [if_neg hlarge] at hgroup'
    obtain ⟨stream, hstream, hgroup⟩ := bind_ok.mp hgroup
    obtain ⟨stream', hstream', hgroup'⟩ := bind_ok.mp hgroup'
    cases hgroup
    cases hgroup'
    obtain ⟨hurl, hmove⟩ := Source.stream_move hstream hstream'
    exact .cons (.inr ⟨start, key, _, hurl, hmove⟩) .nil

end Parts

/-- **A version's streams are its own.** -/
theorem block_of_versionStreams {rest : List (Y.Url × PlexConnectionKind)} {primary : Y.Url × PlexConnectionKind}
    (hconnections : c.directPlayConnections = .ok (primary :: rest)) {block : List StremioStream}
    (h : item.versionStreams U c playPrefix media i = .ok block) : Block c playPrefix item U media i block := by
  refine ⟨fun _ => h, ?_⟩
  obtain ⟨source, direct, url, original, down, hsource, hdirect, hurl, horiginal, hdown, rfl⟩ :=
    PlexMediaMeta.versionStreams_ok h
  obtain ⟨part, parts, hpart, rfl, -⟩ := PlexMediaMeta.source_ok hsource
  refine ⟨source.part, parts, direct, original ++ down, _, hpart, by rw [List.append_assoc direct], ?_, ?_, ?_, ?_⟩
  · split at hdirect
    · exact plays_directPlay hdirect
    · cases hdirect
      exact fun s hs => absurd hs List.not_mem_nil
  · refine List.forall_mem_append.mpr ⟨?_, ?_⟩
    · split at horiginal
      · exact transcodes_original hurl horiginal
      · cases horiginal
        exact fun s hs => absurd hs List.not_mem_nil
    · split at hdown
      · exact transcodes_down hurl hdown
      · cases hdown
        exact fun s hs => absurd hs List.not_mem_nil
  · intro s hs
    split at hs
    · rw [List.mem_singleton.mp hs]
      rfl
    · exact absurd hs List.not_mem_nil
  · intro hincluded
    rw [hincluded] at hdirect
    exact directPlay_ne_nil hconnections hdirect

/-- **A version's streams at two places** differ in the places only. -/
theorem same_block {block block' : List StremioStream} (h : item.versionStreams U c playPrefix media i = .ok block)
    (h' : item.versionStreams U c playPrefix media j = .ok block') : List.Forall₂ (SameButIndex c i j) block block' := by
  have hrefl : ∀ streams : List StremioStream, List.Forall₂ (SameButIndex c i j) streams streams :=
    fun _ => List.forall₂_same.mpr fun _ _ => .inl rfl
  obtain ⟨source, direct, url, original, down, hsource, hdirect, hurl, horiginal, hdown, rfl⟩ :=
    PlexMediaMeta.versionStreams_ok h
  obtain ⟨source', direct', url', original', down', hsource', hdirect', hurl', horiginal', hdown', rfl⟩ :=
    PlexMediaMeta.versionStreams_ok h'
  cases hsource.symm.trans hsource'
  cases hdirect.symm.trans hdirect'
  obtain ⟨start, key, hstart, hkey, rfl⟩ := PlexMediaMeta.transcodeUrl_ok hurl
  obtain ⟨start', key', hstart', hkey', rfl⟩ := PlexMediaMeta.transcodeUrl_ok hurl'
  cases hstart.symm.trans hstart'
  cases hkey.symm.trans hkey'
  refine List.rel_append (List.rel_append (List.rel_append (hrefl direct) ?_) ?_) (hrefl _)
  · split at horiginal
    · next hincluded =>
      rw [if_pos hincluded] at horiginal'
      exact same_original horiginal horiginal'
    · next hnot =>
      rw [if_neg hnot] at horiginal'
      cases horiginal
      cases horiginal'
      exact .nil
  · split at hdown
    · next hincluded =>
      rw [if_pos hincluded] at hdown'
      exact same_down hdown hdown'
    · next hnot =>
      rw [if_neg hnot] at hdown'
      cases hdown
      cases hdown'
      exact .nil

end Blocks

/-! ## The streams of an item -/

section Listed
variable {Y : Yarl} (c : AddonConfiguration Y) (playPrefix : Option Str) (item : PlexMediaMeta) (U : Unicode)

/-- The streams are a block for each version, in order, the heavy versions last. -/
structure Listed (streams : List StremioStream) (order : List (Priority × Version × Nat)) (blocks : List (List StremioStream)) :
    Prop where
  ordered : Ordered U item.media order
  heavyLast : order.Pairwise fun a b => a.2.1.Heavy → b.2.1.Heavy
  each : List.Forall₂ (fun k block => Block c playPrefix item U k.2.1 k.2.2 block) order blocks
  streams : streams = blocks.flatten

/-- The same versions, ranks and streams, but for the order within a rank and for the places. -/
structure Rearranged (order order' : List (Priority × Version × Nat)) (blocks blocks' : List (List StremioStream)) :
    Prop where
  ranks : order'.map (fun k => k.1.rank) = order.map fun k => k.1.rank
  versions : (order'.map fun k => k.2.1).Perm (order.map fun k => k.2.1)
  same : ∀ x ∈ order.zip blocks, ∀ x' ∈ order'.zip blocks', x.1.2.1 = x'.1.2.1 →
    List.Forall₂ (SameButIndex c x.1.2.2 x'.1.2.2) x.2 x'.2

variable {c playPrefix item U}

theorem PlexMediaMeta.listed {rest : List (Y.Url × PlexConnectionKind)} {primary : Y.Url × PlexConnectionKind}
    (hconnections : c.directPlayConnections = .ok (primary :: rest)) {streams : List StremioStream}
    (h : item.getStremioStreams U c playPrefix = .ok streams) : ∃ order blocks, Listed c playPrefix item U streams order blocks := by
  obtain ⟨keyed, hkeyed, h⟩ := bind_ok.mp h
  obtain ⟨blocks, hblocks, h⟩ := bind_ok.mp h
  cases h
  have hordered := ordered_insertionSort (keyed_ok hkeyed).1 (keyed_ok hkeyed).2
  exact ⟨_, blocks, hordered, hordered.heavy_last,
    (mapM_ok.mp hblocks).imp fun k block h => block_of_versionStreams hconnections h, rfl⟩

theorem block_of_zip {order : List (Priority × Version × Nat)} {blocks : List (List StremioStream)}
    (h : List.Forall₂ (fun k block => Block c playPrefix item U k.2.1 k.2.2 block) order blocks) :
    ∀ x ∈ order.zip blocks, Block c playPrefix item U x.1.2.1 x.1.2.2 x.2 := by
  induction h with
  | nil => exact fun x hx => absurd hx List.not_mem_nil
  | cons hblock _ ih =>
    rw [List.zip_cons_cons]
    exact List.forall_mem_cons.mpr ⟨hblock, ih⟩

theorem Version.Ready.beside {media : Version} (h : media.Ready c playPrefix item) (others : List Version) :
    media.Ready c playPrefix { item with media := others } := by
  obtain ⟨part, parts, hpart, h⟩ := h
  exact ⟨part, parts, hpart, { h with }⟩

theorem exists_primary (hY : Y.Lawful) (hc : c.Accepted) : ∃ primary rest, c.directPlayConnections = .ok (primary :: rest) := by
  obtain ⟨connections, hconnections, -, hhead⟩ := directPlayConnections_ok hY hc
  cases connections with
  | nil => cases hhead
  | cons primary rest => exact ⟨primary, rest, hconnections⟩

/-- **The order of streams.** The streams of versions that have their fields
are a block for each version, in strictly increasing priority; and another
order of Plex's list changes the places told and the order within a rank. -/
theorem streams_in_order (hY : Y.Lawful) (hdiv : Y.Appends) (hc : c.Accepted) {key : Str} (hkey : item.key = some key)
    (hready : ∀ media ∈ item.media, media.Ready c playPrefix item) :
    ∃ streams order blocks, item.getStremioStreams U c playPrefix = .ok streams ∧
      Listed c playPrefix item U streams order blocks ∧
      ∀ media' : List Version, media'.Perm item.media → ∃ streams' order' blocks',
        ({ item with media := media' } : PlexMediaMeta).getStremioStreams U c playPrefix = .ok streams' ∧
        Listed c playPrefix { item with media := media' } U streams' order' blocks' ∧
        Rearranged c order order' blocks blocks' := by
  obtain ⟨primary, rest, hconnections⟩ := exists_primary hY hc
  obtain ⟨streams, hstreams⟩ := (PlexMediaMeta.returns_getStremioStreams (U := U) hdiv hconnections hkey).mpr hready
  obtain ⟨order, blocks, hlisted⟩ := PlexMediaMeta.listed hconnections hstreams
  refine ⟨streams, order, blocks, hstreams, hlisted, fun media' hperm => ?_⟩
  have hready' : ∀ media ∈ media', media.Ready c playPrefix { item with media := media' } :=
    fun media hmedia => (hready media (hperm.mem_iff.mp hmedia)).beside media'
  have hkey' : ({ item with media := media' } : PlexMediaMeta).key = some key := hkey
  obtain ⟨streams', hstreams'⟩ := (PlexMediaMeta.returns_getStremioStreams (U := U) hdiv hconnections hkey').mpr hready'
  obtain ⟨order', blocks', hlisted'⟩ := PlexMediaMeta.listed hconnections hstreams'
  refine ⟨streams', order', blocks', hstreams', hlisted', hlisted.ordered.ranks hlisted'.ordered hperm,
    (hlisted'.ordered.versions.trans hperm).trans hlisted.ordered.versions.symm, ?_⟩
  rintro ⟨⟨p, media, i⟩, block⟩ hx ⟨⟨p', _, j⟩, block'⟩ hx' rfl
  exact same_block ((block_of_zip hlisted.each _ hx).own []) ((block_of_zip hlisted'.each _ hx').own [])

/-- **When an item has streams**, for Direct Play one of each version: exactly
when every version has the fields that are read without a default. -/
theorem streams_returned_iff (hY : Y.Lawful) (hdiv : Y.Appends) (hc : c.Accepted) {key : Str} (hkey : item.key = some key) :
    (∃ streams order blocks, item.getStremioStreams U c playPrefix = .ok streams ∧
      Listed c playPrefix item U streams order blocks ∧
      (c.includeDirectPlay = true → ∀ x ∈ order.zip blocks, ∃ s ∈ x.2, ∃ partKey, PlaysPart c playPrefix item x.1.2.1 partKey s)) ↔
      ∀ media ∈ item.media, media.Ready c playPrefix item := by
  obtain ⟨primary, rest, hconnections⟩ := exists_primary hY hc
  rw [← PlexMediaMeta.returns_getStremioStreams (U := U) hdiv hconnections hkey]
  constructor
  · intro hlisted
    obtain ⟨streams, -, -, hstreams, -⟩ := hlisted
    exact ⟨streams, hstreams⟩
  · intro hreturns
    obtain ⟨streams, hstreams⟩ := hreturns
    obtain ⟨order, blocks, hlisted⟩ := PlexMediaMeta.listed hconnections hstreams
    refine ⟨streams, order, blocks, hstreams, hlisted, fun hincluded x hx => ?_⟩
    obtain ⟨part, parts, direct, transcodes, links, -, hblock, hplays, -, -, hsome⟩ := (block_of_zip hlisted.each x hx).made
    obtain ⟨s, hs⟩ := List.exists_mem_of_ne_nil _ (hsome hincluded)
    obtain ⟨partKey, -, hpart⟩ := hplays s hs
    refine ⟨s, ?_, partKey, hpart⟩
    rw [hblock]
    exact List.mem_append_left _ (List.mem_append_left _ hs)

end Listed

/-! ## A remux and a smaller file -/

/-- A large version, which Plex lists first. -/
def remux : Version where
  videoResolution := some "4k".toList
  height := some 2160
  videoCodec := some "hevc".toList
  container := some "mkv".toList
  bitrate := some 75000
  part := some [{ key := some "/library/parts/1/remux.mkv".toList, file := some "/media/Example.Remux.mkv".toList,
                  size := some (70 * 1024 ^ 3), stream := some [] }]

/-- One that most players take. -/
def compatible : Version where
  videoResolution := some "1080".toList
  height := some 1080
  videoCodec := some "h264".toList
  container := some "mp4".toList
  bitrate := some 12000
  part := some [{ key := some "/library/parts/1/compatible.mp4".toList, file := some "/media/Example.Compatible.mp4".toList,
                  size := some (8 * 1024 ^ 3), stream := some [] }]

def twoVersions : PlexMediaMeta where
  guid := "local://movie/1".toList
  type := .movie
  title := "Example".toList
  ratingKey := some "1".toList
  key := some "/library/metadata/1".toList
  librarySectionTitle := some "Movies".toList
  duration := none
  media := [remux, compatible]

theorem twoVersions_ready : ∀ media ∈ twoVersions.media, media.Ready AddonConfiguration.sample none twoVersions := by
  have hfits : Fits (75000 : Int) ∧ Fits (70 * 1024 ^ 3 : Int) ∧ Fits (2160 : Int) ∧ Fits (12000 : Int) ∧
    Fits (8 * 1024 ^ 3 : Int) ∧ Fits (1080 : Int) := by decide +kernel
  obtain ⟨hbitrate, hsize, hheight, hbitrate', hsize', hheight'⟩ := hfits
  have hnone : ∀ {p : PartStream → Prop}, ∀ stream ∈ ([] : List PartStream), p stream :=
    fun stream hstream => absurd hstream List.not_mem_nil
  refine List.forall_mem_cons.mpr ⟨⟨_, _, rfl, ?_⟩, List.forall_mem_singleton.mpr ⟨_, _, rfl, ?_⟩⟩
  · refine ⟨rfl, fun n hn => ?_, fun n hn => ?_, fun n hn => ?_, hnone, hnone, fun _ => hnone, fun _ => ⟨_, rfl, ?_⟩, nofun⟩
    · obtain rfl : 75000 = n := Option.some.inj hn
      exact hbitrate
    · obtain rfl : 70 * 1024 ^ 3 = n := Option.some.inj hn
      exact hsize
    · obtain rfl : 2160 = n := Option.some.inj hn
      exact hheight
    · exact (by decide : Relative "/library/parts/1/remux.mkv".toList)
  · refine ⟨rfl, fun n hn => ?_, fun n hn => ?_, fun n hn => ?_, hnone, hnone, fun _ => hnone, fun _ => ⟨_, rfl, ?_⟩, nofun⟩
    · obtain rfl : 12000 = n := Option.some.inj hn
      exact hbitrate'
    · obtain rfl : 8 * 1024 ^ 3 = n := Option.some.inj hn
      exact hsize'
    · obtain rfl : 1080 = n := Option.some.inj hn
      exact hheight'
    · exact (by decide : Relative "/library/parts/1/compatible.mp4".toList)

theorem twoVersions_in_order : ∃ streams order blocks,
    twoVersions.getStremioStreams .ascii AddonConfiguration.sample none = .ok streams ∧
    Listed AddonConfiguration.sample none twoVersions .ascii streams order blocks := by
  have hkey : twoVersions.key = some "/library/metadata/1".toList := rfl
  obtain ⟨streams, order, blocks, hstreams, hlisted, -⟩ := streams_in_order (U := .ascii) Yarl.plain_lawful
    Yarl.plain_appends AddonConfiguration.sample_accepted hkey twoVersions_ready
  exact ⟨streams, order, blocks, hstreams, hlisted⟩

theorem twoVersions_returned : ∃ streams, twoVersions.getStremioStreams .ascii AddonConfiguration.sample none = .ok streams := by
  have hkey : twoVersions.key = some "/library/metadata/1".toList := rfl
  obtain ⟨streams, -, -, hstreams, -⟩ := (streams_returned_iff (U := .ascii) Yarl.plain_lawful Yarl.plain_appends
    AddonConfiguration.sample_accepted hkey).mpr twoVersions_ready
  exact ⟨streams, hstreams⟩

/-- The smaller one is listed first, for each of its connections. -/
example : ((twoVersions.getStremioStreams .ascii AddonConfiguration.sample none).toOption.getD []).map
    (fun s => s.behaviorHints.map (·.filename)) =
    ["Example.Compatible.mp4", "Example.Compatible.mp4", "Example.Remux.mkv", "Example.Remux.mkv"].map
      fun name : String => some name.toList := by
  decide +kernel

/-- A version with a stream whose kind Plex does not tell. -/
def untyped : Version where
  part := some [{ key := some "/library/parts/1/file.mkv".toList, file := some "/media/Example.mkv".toList,
                  stream := some [{ codec := some "aac".toList }] }]

theorem untyped_lost : AddonConfiguration.sample.Accepted ∧
    (∀ media ∈ [compatible, untyped], ∃ part ∈ media.part.getD [], part.file.isSome ∧ part.key.isSome) ∧
      ({ twoVersions with media := [compatible, untyped] } : PlexMediaMeta).getStremioStreams .ascii
        AddonConfiguration.sample none = .error .key := by
  refine ⟨AddonConfiguration.sample_accepted, ?_, by decide +kernel⟩
  exact List.forall_mem_cons.mpr ⟨⟨_, List.mem_cons_self, rfl, rfl⟩,
    List.forall_mem_singleton.mpr ⟨_, List.mem_cons_self, rfl, rfl⟩⟩

end Plexio
