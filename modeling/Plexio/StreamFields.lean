/-
Which fields the streams of an item need (`get_stremio_streams`). Some of
Plex's fields are read with a default and some are not; which reads happen
depends on the options and on the kinds of a part's streams. `Has` lists what
is needed of a version, and `returns_getStremioStreams` says that nothing else is.
-/
import Plexio.Connections
import Plexio.Lib.Returns
import Plexio.Streams

namespace Plexio

open Py Json
open Binary64 (Fits)

/-- `url / name` is refused for names that start with a slash, and no others. -/
def Yarl.Appends (Y : Yarl) : Prop := ∀ base name, (Y.div base name).isSome = !startswith name ['/']

theorem Yarl.plain_appends : Yarl.plain.Appends := by
  intro base name
  show (PlainUrl.div base name).isSome = _
  unfold PlainUrl.div
  cases startswith name ['/'] <;> rfl

/-! ## Numbers -/

/-- The integer is written in 4300 digits at most. -/
def Prints (n : Int) : Prop := (strInt n.natAbs).length ≤ 4300

instance (n : Int) : Decidable (Prints n) := inferInstanceAs (Decidable (_ ≤ _))

theorem returns_formatInt {n : Int} : Returns (formatInt n) ↔ Prints n := by
  rw [formatInt, Returns.ite_iff, Returns.error_iff, Returns.ok_iff, Prints]
  simp

theorem returns_float {n : Int} : Returns (float n) ↔ Fits n := by
  simp [float, Returns.ite_iff]

theorem returns_number {o : Option Int} : Returns (number o) ↔ ∀ n ∈ o, Fits n := by
  cases o <;> simp [number, returns_float]

/-- A float has 309 digits at most. -/
theorem prints_of_fits {n : Int} (h : Fits n) : Prints n := by
  obtain ⟨digits, hdigits, hmany⟩ : ∃ digits, digits ≤ 4300 ∧ 1024 ≤ digits := ⟨4300, le_rfl, by decide⟩
  have hbound : n.natAbs < 10 ^ digits := by
    have hn : ((n.natAbs : ℕ) : ℚ) < 10 ^ digits := by
      rw [Nat.cast_natAbs, Int.cast_abs]
      calc |(n : ℚ)| < 2 ^ 1024 - 2 ^ 970 := h
        _ ≤ 2 ^ 1024 := sub_le_self _ (by positivity)
        _ ≤ 10 ^ 1024 := by gcongr; norm_num
        _ ≤ 10 ^ digits := pow_le_pow_right₀ (by norm_num) hmany
    exact_mod_cast hn
  rw [Prints, strInt_eq, if_pos (by omega)]
  exact ((Nat.length_toDigits_le_iff (by decide) (by omega)).mpr hbound).trans hdigits

/-! ## A version -/

/-- The text after a key's first character can be appended to a URL. -/
def Relative (key : Str) : Prop := startswith (key.drop 1) ['/'] = false

instance (key : Str) : Decidable (Relative key) := inferInstanceAs (Decidable (_ = _))

/-- An external subtitle. -/
def PartStream.isExternal (stream : PartStream) : Bool := stream.streamType == some 3 && stream.key.isSome

/-- What its entry is made of. -/
def PartStream.Listed (stream : PartStream) : Prop :=
  (∃ id ∈ stream.id, Prints id) ∧ stream.displayTitle.isSome ∧ ∃ key ∈ stream.key, Relative key

variable {Y : Yarl}

/-- A stream that lists the subtitles is made of the version. -/
def AddonConfiguration.Offers (c : AddonConfiguration Y) (media : Version) : Prop :=
  c.includeDirectPlay = true ∨ c.includeTranscodeOriginal = true ∨
    c.includeTranscodeDown = true ∧ ∃ quality ∈ c.transcodeDownQualities, ∃ width ∈ media.width, quality.minWidth < width

/-- What is needed of a version and of its first part. -/
structure Has (c : AddonConfiguration Y) (playPrefix : Option Str) (item : PlexMediaMeta) (media : Version) (part : Part) :
    Prop where
  file : part.file.isSome
  bitrate : ∀ n ∈ orInt media.bitrate part.bitrate, Fits n
  size : ∀ n ∈ part.size, Fits n
  height : ∀ n ∈ media.height, Fits n
  streamType : ∀ stream ∈ part.stream.getD [], stream.streamType.isSome
  channels : ∀ stream ∈ part.stream.getD [], stream.streamType = some 2 →
    Yarl.truthy (orStr stream.audioChannelLayout stream.channelLayout) = false → Prints (stream.channels.getD 0)
  subtitles : c.Offers media → ∀ stream ∈ part.stream.getD [], stream.isExternal = true → stream.Listed
  direct : c.includeDirectPlay = true → ∃ key ∈ part.key,
    if Yarl.truthy playPrefix then Prints ((orInt item.duration media.duration).getD 0) else Relative key
  width : c.includeTranscodeDown = true → c.transcodeDownQualities ≠ [] → media.width.isSome

/-- The version has a part, and is complete. -/
def Version.Ready (c : AddonConfiguration Y) (playPrefix : Option Str) (item : PlexMediaMeta) (media : Version) : Prop :=
  ∃ part parts, media.part = some (part :: parts) ∧ Has c playPrefix item media part

theorem returns_index {α : Type} {o : Option α} : Returns (index o) ↔ o.isSome := by
  cases o <;> simp [index]

theorem returns_divide (hdiv : Y.Appends) {base : Y.Url} {name : Str} :
    Returns (divide base name) ↔ startswith name ['/'] = false := by
  have h := hdiv base name
  rw [divide]
  cases hd : Y.div base name <;> rw [hd] at h
  · rw [Returns.error_iff, false_iff]
    simpa using h.symm
  · rw [Returns.ok_iff, true_iff]
    simpa using h.symm

/-! ## Labels -/

section Labels
variable {U : Unicode} {media : Version} {part : Part}

theorem returns_resolutionLabel (h : ∀ n ∈ media.height, Fits n) : Returns (resolutionLabel U media) := by
  have hheight : Prints (media.height.getD 0) := by
    cases hm : media.height with
    | none => exact prints_of_fits (by decide +kernel : Fits (0 : Int))
    | some n => exact prints_of_fits (h n hm)
  unfold resolutionLabel
  dsimp only
  split
  · exact .pure _
  simp only [Returns.ite_iff, Returns.pure_iff, Returns.bind_pure_iff, returns_formatInt, hheight, implies_true, and_true]

theorem returns_channelLabel {stream : PartStream} : Returns (channelLabel U stream) ↔
    (Yarl.truthy (orStr stream.audioChannelLayout stream.channelLayout) = false → Prints (stream.channels.getD 0)) := by
  have hzero : Prints 0 := by decide +kernel
  unfold channelLabel
  simp only [Returns.ite_iff, Returns.pure_iff, implies_true, true_and, and_true, Bool.not_eq_true]
  refine imp_congr_right fun _ => ?_
  by_cases hchannels : stream.channels.getD 0 = 0
  · simp [hchannels, hzero]
  · rw [Returns.bind_pure_iff, returns_formatInt]
    simp [hchannels]

theorem returns_audioLabels {streams : List PartStream} : Returns (audioLabels U media streams) ↔
    ∀ stream ∈ streams, stream.streamType = some 2 →
      Yarl.truthy (orStr stream.audioChannelLayout stream.channelLayout) = false → Prints (stream.channels.getD 0) := by
  unfold audioLabels
  rw [Returns.bind_total, Returns.mapM_iff]
  · simp only [List.mem_filter, beq_iff_eq, and_imp]
    refine forall₂_congr fun stream _ => imp_congr_right fun _ => ?_
    rw [Returns.bind_pure_iff, returns_channelLabel]
  · intro found
    dsimp only
    split <;> exact .pure _

theorem returns_bitrateLabel (h : ∀ n ∈ orInt media.bitrate part.bitrate, Fits n) : Returns (bitrateLabel media part) := by
  unfold bitrateLabel
  rw [Returns.bind_total, returns_number]
  · exact h
  · intro bitrate
    split
    · exact .pure _
    · split <;> exact .pure _

theorem returns_sizeLabel {size : Option Int} : Returns (sizeLabel size) ↔ ∀ n ∈ size, Fits n := by
  cases size with
  | none => simp [sizeLabel]
  | some n =>
    rw [sizeLabel, Returns.bind_total, returns_float]
    · simp
    · intro size
      split <;> exact .pure _

theorem returns_sourceDetails (h : ∀ n ∈ orInt media.bitrate part.bitrate, Fits n) {streams : List PartStream} :
    Returns (sourceDetails U media part streams) ↔
      ∀ stream ∈ streams, stream.streamType = some 2 →
        Yarl.truthy (orStr stream.audioChannelLayout stream.channelLayout) = false → Prints (stream.channels.getD 0) := by
  unfold sourceDetails
  rw [Returns.bind_and (p := True), returns_audioLabels, and_true]
  intro audio _
  rw [Returns.bind_pure_iff, iff_true]
  exact returns_bitrateLabel h

theorem returns_playbackPriority {i : Nat} {parts : List Part} (hpart : media.part = some (part :: parts)) :
    Returns (playbackPriority U (media, i)) ↔
      (∀ n ∈ orInt media.bitrate part.bitrate, Fits n) ∧ (∀ n ∈ part.size, Fits n) ∧ ∀ n ∈ media.height, Fits n := by
  have hfirst : (media.part.bind List.head?).getD {} = part := by rw [hpart]; rfl
  unfold playbackPriority
  dsimp only
  rw [hfirst, Returns.bind_and fun _ _ => Returns.bind_and fun _ _ => Returns.bind_pure_iff]
  simp only [returns_number]

end Labels

/-! ## Languages and subtitles -/

/-- The external subtitles are kept in their order. -/
theorem external_of_foldlM {streams : List PartStream} {start languages : Languages}
    (h : streams.foldlM Languages.add start = .ok languages) :
    languages.external = start.external ++ streams.filter PartStream.isExternal := by
  induction streams generalizing start with
  | nil => cases h; simp
  | cons stream streams ih =>
    rw [List.foldlM_cons] at h
    obtain ⟨next, hnext, h⟩ := bind_ok.mp h
    obtain ⟨streamType, htype, hnext⟩ := bind_ok.mp hnext
    rw [index_ok] at htype
    have hstep : next.external = start.external ++ [stream].filter PartStream.isExternal := by
      split at hnext
      · next haudio =>
        cases hnext
        simp [PartStream.isExternal, htype, haudio]
      · split at hnext
        · next hsubtitle =>
          cases hnext
          cases hkey : stream.key <;> simp [PartStream.isExternal, htype, hsubtitle, hkey]
        · next hother =>
          cases hnext
          simp [PartStream.isExternal, htype, hother]
    rw [ih h, hstep, List.append_assoc, ← List.filter_append, List.singleton_append]

theorem returns_add (languages : Languages) (stream : PartStream) :
    Returns (languages.add stream) ↔ stream.streamType.isSome := by
  unfold Languages.add
  rw [Returns.bind_total, returns_index]
  intro streamType
  dsimp only
  split
  · exact .pure _
  · split <;> exact .pure _

theorem returns_externalSubtitles (hdiv : Y.Appends) {streams : List PartStream} {base : Y.Url} {accessToken : Str} :
    Returns (externalSubtitles streams base accessToken) ↔ ∀ stream ∈ streams, stream.Listed := by
  rw [externalSubtitles, Returns.mapM_iff]
  refine forall₂_congr fun stream _ => ?_
  have hid : (∃ id, index stream.id = .ok id ∧ Prints id) ↔ ∃ id ∈ stream.id, Prints id := by simp only [index_ok]; rfl
  have hkey : (∃ key, index stream.key = .ok key ∧ Relative key) ↔ ∃ key ∈ stream.key, Relative key := by
    simp only [index_ok]; rfl
  have hrest : ∀ id, Returns (do
      let lang ← index stream.displayTitle
      let key ← index stream.key
      let url ← divide base (key.drop 1)
      pure { id, lang, url := Y.str (Y.mod url (tokenParam accessToken)) : Subtitle }) ↔
      stream.displayTitle.isSome ∧ ∃ key ∈ stream.key, Relative key := by
    intro id
    rw [Returns.bind_and (p := ∃ key ∈ stream.key, Relative key), returns_index]
    intro lang _
    rw [Returns.bind_iff, ← hkey]
    refine exists_congr fun key => and_congr_right fun _ => ?_
    rw [Returns.bind_pure_iff, returns_divide hdiv, Relative]
  rw [Returns.bind_iff, PartStream.Listed, ← hid, ← exists_and_right]
  refine exists_congr fun number => ?_
  rw [Returns.bind_and fun id _ => hrest id, returns_formatInt, and_assoc]

/-! ## Streams -/

section Streams
variable {U : Unicode} {c : AddonConfiguration Y} {playPrefix : Option Str} {item : PlexMediaMeta} {media : Version}

/-- What the streams of a version share is made of its first part. -/
theorem PlexMediaMeta.source_ok {source : Source} (h : item.source U c media = .ok source) :
    ∃ part parts, media.part = some (part :: parts) ∧ source.part = part ∧
      source.languages.external = (part.stream.getD []).filter PartStream.isExternal := by
  obtain ⟨parts, hparts, h⟩ := bind_ok.mp h
  rw [index_ok] at hparts
  cases parts with
  | nil => cases h
  | cons part others =>
    obtain ⟨_, hfirst, h⟩ := bind_ok.mp h
    cases hfirst
    obtain ⟨file, -, h⟩ := bind_ok.mp h
    obtain ⟨resolution, -, h⟩ := bind_ok.mp h
    obtain ⟨details, -, h⟩ := bind_ok.mp h
    obtain ⟨languages, hlanguages, h⟩ := bind_ok.mp h
    cases h
    exact ⟨part, others, hparts, rfl, external_of_foldlM hlanguages⟩

theorem PlexMediaMeta.returns_source {part : Part} {parts : List Part} (hpart : media.part = some (part :: parts))
    (hbitrate : ∀ n ∈ orInt media.bitrate part.bitrate, Fits n) (hheight : ∀ n ∈ media.height, Fits n) :
    Returns (item.source U c media) ↔ part.file.isSome ∧
      (∀ stream ∈ part.stream.getD [], stream.streamType = some 2 →
        Yarl.truthy (orStr stream.audioChannelLayout stream.channelLayout) = false → Prints (stream.channels.getD 0)) ∧
      ∀ stream ∈ part.stream.getD [], stream.streamType.isSome := by
  have hresolution : Returns (resolutionLabel U media) := returns_resolutionLabel hheight
  have hparts : index (some (part :: parts)) = .ok (part :: parts) := rfl
  rw [PlexMediaMeta.source, hpart, hparts, ok_bind]
  dsimp only
  rw [pure_bind, Returns.bind_and fun file _ => Returns.bind_and fun resolution _ => Returns.bind_and fun details _ =>
    Returns.bind_pure_iff, returns_index, returns_sourceDetails hbitrate, Returns.foldlM_iff returns_add,
    and_iff_right hresolution]

/-- What every stream with a URL tells: the size and the subtitles. -/
def Source.Told (source : Source) : Prop :=
  (∀ n ∈ source.part.size, Fits n) ∧ ∀ stream ∈ source.languages.external, stream.Listed

theorem Source.returns_stream (hdiv : Y.Appends) {source : Source} {quality url : Str} {base : Y.Url} :
    Returns (source.stream c quality url base) ↔ source.Told := by
  have hdescription : Returns (source.description quality) ↔ ∀ n ∈ source.part.size, Fits n := by
    rw [Source.description]
    exact Returns.bind_pure_iff.trans returns_sizeLabel
  rw [Source.stream, Returns.bind_and fun _ _ => Returns.bind_pure_iff, hdescription, returns_externalSubtitles hdiv,
    Source.Told]

/-- A stream for each connection, of which there is one at least. -/
theorem PlexMediaMeta.returns_directPlayStreams (hdiv : Y.Appends) {rest : List (Y.Url × PlexConnectionKind)}
    {primary : Y.Url × PlexConnectionKind} (hconnections : c.directPlayConnections = .ok (primary :: rest))
    {key : Str} (hkey : item.key = some key) {source : Source} :
    Returns (item.directPlayStreams c playPrefix media source) ↔
      (∃ partKey ∈ source.part.key,
        if Yarl.truthy playPrefix then Prints ((orInt item.duration media.duration).getD 0) else Relative partKey) ∧
      source.Told := by
  have hurl : ∀ n base kind, Returns (item.directPlayUrl c playPrefix media source.part n base kind) ↔
      ∃ partKey ∈ source.part.key,
        if Yarl.truthy playPrefix then Prints ((orInt item.duration media.duration).getD 0) else Relative partKey := by
    intro n base kind
    rw [PlexMediaMeta.directPlayUrl]
    split
    · rw [hkey]
      dsimp only
      rw [pure_bind, Returns.bind_and fun _ _ => Returns.bind_pure_iff, returns_index, returns_formatInt]
      simp [Option.isSome_iff_exists]
    · rw [Returns.bind_iff]
      refine exists_congr fun partKey => and_congr index_ok ?_
      rw [Returns.bind_pure_iff, returns_divide hdiv, Relative]
  have hstream : ∀ n base kind (next : Str × Str → Except Exc StremioStream), (∀ a, Returns (next a) ↔ source.Told) →
      (Returns (item.directPlayUrl c playPrefix media source.part n base kind >>= next) ↔ _) :=
    fun n base kind next hnext => (Returns.bind_and fun a _ => hnext a).trans (and_congr_left' (hurl n base kind))
  rw [PlexMediaMeta.directPlayStreams, hconnections, ok_bind]
  dsimp only
  rw [Returns.mapM_iff]
  constructor
  · intro h
    have hfirst : (primary, 0) ∈ (if Yarl.truthy playPrefix then (primary :: rest).take 1 else primary :: rest).zipIdx := by
      split <;> simp
    exact (hstream _ _ _ _ fun _ => Source.returns_stream hdiv).mp (h _ hfirst)
  · exact fun h x _ => (hstream _ _ _ _ fun _ => Source.returns_stream hdiv).mpr h

theorem PlexMediaMeta.returns_transcodeUrl (hdiv : Y.Appends) {key : Str} (hkey : item.key = some key) (i : Nat) :
    Returns (item.transcodeUrl c i) := by
  rw [PlexMediaMeta.transcodeUrl, hkey]
  refine (Returns.bind_total fun _ => .pure _).mpr ((returns_divide hdiv).mpr ?_)
  decide

theorem returns_originalStreams (hdiv : Y.Appends) {source : Source} {url : Y.Url} :
    Returns (PlexMediaMeta.originalStreams c source url) ↔ source.Told := by
  rw [PlexMediaMeta.originalStreams]
  exact Returns.bind_pure_iff.trans (Source.returns_stream hdiv)

theorem returns_transcodeDownStreams (hdiv : Y.Appends) {source : Source} {url : Y.Url} :
    Returns (PlexMediaMeta.transcodeDownStreams c media source url) ↔
      ∀ quality ∈ c.transcodeDownQualities, ∃ width ∈ media.width, quality.minWidth < width → source.Told := by
  rw [PlexMediaMeta.transcodeDownStreams, Returns.bind_pure_iff, Returns.mapM_iff]
  refine forall₂_congr fun quality _ => ?_
  rw [Returns.bind_iff]
  refine exists_congr fun width => and_congr index_ok ?_
  rw [Returns.ite_iff]
  dsimp only
  rw [Returns.bind_pure_iff, Source.returns_stream hdiv, not_le]
  simp

theorem PlexMediaMeta.returns_versionStreams (hdiv : Y.Appends) {rest : List (Y.Url × PlexConnectionKind)}
    {primary : Y.Url × PlexConnectionKind} (hconnections : c.directPlayConnections = .ok (primary :: rest))
    {key : Str} (hkey : item.key = some key) {source : Source} (hsource : item.source U c media = .ok source) (i : Nat) :
    Returns (item.versionStreams U c playPrefix media i) ↔
      (c.includeDirectPlay = true → (∃ partKey ∈ source.part.key,
        if Yarl.truthy playPrefix then Prints ((orInt item.duration media.duration).getD 0) else Relative partKey) ∧
          source.Told) ∧
      (c.includeTranscodeOriginal = true → source.Told) ∧
      (c.includeTranscodeDown = true →
        ∀ quality ∈ c.transcodeDownQualities, ∃ width ∈ media.width, quality.minWidth < width → source.Told) := by
  have hoptional : ∀ {included : Bool} {streams : Except Exc (List StremioStream)},
      Returns (if included then streams else pure []) ↔ (included = true → Returns streams) := by
    intro included streams
    rw [Returns.ite_iff]
    simp
  rw [PlexMediaMeta.versionStreams, hsource, ok_bind]
  dsimp only
  refine (Returns.bind_and fun direct _ => ?_).trans (and_congr_left' ?_)
  · refine (Returns.bind_and fun url _ => ?_).trans (and_iff_right (PlexMediaMeta.returns_transcodeUrl hdiv hkey i))
    refine (Returns.bind_and fun original _ => ?_).trans (and_congr_left' ?_)
    · exact Returns.bind_pure_iff.trans (hoptional.trans (imp_congr_right fun _ => returns_transcodeDownStreams hdiv))
    · exact hoptional.trans (imp_congr_right fun _ => returns_originalStreams hdiv)
  · exact hoptional.trans (imp_congr_right fun _ => PlexMediaMeta.returns_directPlayStreams hdiv hconnections hkey)

/-- **A version's fields**: those its priority and its streams are made of. -/
theorem PlexMediaMeta.returns_version (hdiv : Y.Appends) {rest : List (Y.Url × PlexConnectionKind)}
    {primary : Y.Url × PlexConnectionKind} (hconnections : c.directPlayConnections = .ok (primary :: rest))
    {key : Str} (hkey : item.key = some key) (i : Nat) :
    Returns (playbackPriority U (media, i)) ∧ Returns (item.versionStreams U c playPrefix media i) ↔
      media.Ready c playPrefix item := by
  have hexternal : ∀ {part : Part}, (∀ stream ∈ (part.stream.getD []).filter PartStream.isExternal, stream.Listed) ↔
      ∀ stream ∈ part.stream.getD [], stream.isExternal = true → stream.Listed := by
    simp only [List.mem_filter, and_imp, implies_true]
  constructor
  · rintro ⟨hpriority, hversion⟩
    obtain ⟨source, hsource, -⟩ := Returns.bind_iff.mp hversion
    obtain ⟨part, parts, hpart, rfl, hlisted⟩ := PlexMediaMeta.source_ok hsource
    obtain ⟨hbitrate, hsize, hheight⟩ := (returns_playbackPriority hpart).mp hpriority
    obtain ⟨hfile, hchannels, htype⟩ := (PlexMediaMeta.returns_source hpart hbitrate hheight).mp ⟨source, hsource⟩
    obtain ⟨hdirect, horiginal, hdown⟩ :=
      (PlexMediaMeta.returns_versionStreams hdiv hconnections hkey hsource i).mp hversion
    refine ⟨source.part, parts, hpart, hfile, hbitrate, hsize, hheight, htype, hchannels, ?_, fun h => (hdirect h).1, ?_⟩
    · intro hoffers
      have htold : source.Told := by
        rcases hoffers with h | h | ⟨h, quality, hquality, width, hwidth, hlt⟩
        · exact (hdirect h).2
        · exact horiginal h
        · obtain ⟨width', hwidth', htold⟩ := hdown h quality hquality
          cases hwidth.symm.trans hwidth'
          exact htold hlt
      exact hexternal.mp (hlisted ▸ htold.2)
    · intro h hsome
      obtain ⟨quality, hquality⟩ := List.exists_mem_of_ne_nil _ hsome
      obtain ⟨width, hwidth, -⟩ := hdown h quality hquality
      exact Option.isSome_of_mem hwidth
  · rintro ⟨part, parts, hpart, h⟩
    refine ⟨(returns_playbackPriority hpart).mpr ⟨h.bitrate, h.size, h.height⟩, ?_⟩
    obtain ⟨source, hsource⟩ : Returns (item.source U c media) :=
      (PlexMediaMeta.returns_source hpart h.bitrate h.height).mpr ⟨h.file, h.channels, h.streamType⟩
    obtain ⟨_, _, hpart', hsame, hlisted⟩ := PlexMediaMeta.source_ok hsource
    cases hpart.symm.trans hpart'
    have htold : c.Offers media → source.Told := by
      intro hoffers
      refine ⟨by rw [hsame]; exact h.size, ?_⟩
      rw [hlisted]
      exact hexternal.mpr (h.subtitles hoffers)
    refine (PlexMediaMeta.returns_versionStreams hdiv hconnections hkey hsource i).mpr ⟨?_, ?_, ?_⟩
    · exact fun hincluded => ⟨by rw [hsame]; exact h.direct hincluded, htold (.inl hincluded)⟩
    · exact fun hincluded => htold (.inr (.inl hincluded))
    · intro hincluded quality hquality
      obtain ⟨width, hwidth⟩ := Option.isSome_iff_exists.mp (h.width hincluded (List.ne_nil_of_mem hquality))
      exact ⟨width, hwidth, fun hlt => htold (.inr (.inr ⟨hincluded, quality, hquality, width, hwidth, hlt⟩))⟩

/-- What is sorted are the versions, with their priorities. -/
theorem keyed_ok {versions : List (Version × Nat)} {keyed : List (Priority × Version × Nat)}
    (h : (versions.mapM fun indexedMedia => do
      let priority ← playbackPriority U indexedMedia
      pure (priority, indexedMedia)) = .ok keyed) :
    keyed.map (·.2) = versions ∧ ∀ k ∈ keyed, playbackPriority U k.2 = .ok k.1 := by
  have hall := mapM_ok.mp h
  clear h
  induction hall with
  | nil => exact ⟨rfl, by simp⟩
  | cons hx _ ih =>
    obtain ⟨priority, hpriority, hk⟩ := bind_ok.mp hx
    cases hk
    rw [List.map_cons, ih.1, List.forall_mem_cons]
    exact ⟨rfl, hpriority, ih.2⟩

/-- **An item's streams are made if each of its versions has its fields.** -/
theorem PlexMediaMeta.returns_getStremioStreams (hdiv : Y.Appends) {rest : List (Y.Url × PlexConnectionKind)}
    {primary : Y.Url × PlexConnectionKind} (hconnections : c.directPlayConnections = .ok (primary :: rest))
    {key : Str} (hkey : item.key = some key) :
    Returns (item.getStremioStreams U c playPrefix) ↔ ∀ media ∈ item.media, media.Ready c playPrefix item := by
  have hmem : ∀ {p : Version → Prop}, (∀ x ∈ item.media.zipIdx, p x.1) ↔ ∀ media ∈ item.media, p media := by
    intro p
    constructor
    · intro h media hmedia
      obtain ⟨i, hi⟩ := List.mem_iff_getElem?.mp hmedia
      exact h (media, i) (List.mem_zipIdx_iff_getElem?.mpr hi)
    · exact fun h x hx => h x.1 (List.fst_mem_of_mem_zipIdx hx)
  rw [← hmem, PlexMediaMeta.getStremioStreams, Returns.bind_and (p := ∀ x ∈ item.media.zipIdx,
    Returns (item.versionStreams U c playPrefix x.1 x.2))]
  · rw [Returns.mapM_iff, ← forall₂_and]
    refine forall₂_congr fun x _ => ?_
    rw [Returns.bind_pure_iff]
    exact PlexMediaMeta.returns_version hdiv hconnections hkey x.2
  · intro keyed hkeyed
    have hsame : keyed.map (·.2) = item.media.zipIdx := (keyed_ok hkeyed).1
    rw [Returns.bind_pure_iff, Returns.mapM_iff, ← hsame, List.forall_mem_map]
    exact forall_congr' fun x => imp_congr_left (List.perm_insertionSort _ _).mem_iff

end Streams

end Plexio
