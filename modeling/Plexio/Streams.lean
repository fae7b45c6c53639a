/-
The streams of a Plex item (`PlexMediaMeta.get_stremio_streams`): for each
version, best first, one for each connection it can be played from, through
the playback proxy instead where a prefix for it is given, then transcodes,
then a link to plex.tv.
-/
import Mathlib.Data.List.Sort
import Mathlib.Data.String.Basic
import Plexio.PlexModels

namespace Plexio

open Py

namespace Resolution

/-- `RESOLUTION_QUALITY_PARAMS` -/
def minWidth : Resolution → Int
  | r1080 => 1920
  | r720 => 1280
  | r480 => 640

def plexArgs : Resolution → List (Str × Str)
  | r1080 => args "10" "1920x1080"
  | r720 => args "6.5" "1280x720"
  | r480 => args "3.5" "640×480"
where
  args (maxVideoBitrate videoResolution : String) : List (Str × Str) :=
    [("videoQuality".toList, "100".toList), ("maxVideoBitrate".toList, maxVideoBitrate.toList),
      ("videoResolution".toList, videoResolution.toList)]

end Resolution

/-- `d[key]` -/
def index {α : Type} : Option α → Except Exc α
  | some a => .ok a
  | none => .error .key

theorem index_ok {α : Type} {o : Option α} {a : α} : index o = .ok a ↔ o = some a := by
  cases o <;> simp [index]

section Streams
variable {Y : Yarl}

/-- `base / name` -/
def divide (base : Y.Url) (name : Str) : Except Exc Y.Url :=
  match Y.div base name with
  | some url => .ok url
  | none => .error (.value "Appending a path starting with a slash is forbidden".toList)

theorem divide_ok {base url : Y.Url} {name : Str} : divide base name = .ok url ↔ Y.div base name = some url := by
  unfold divide
  split <;> simp_all

def tokenParam (accessToken : Str) : List (Str × Str) := [("X-Plex-Token".toList, accessToken)]

def externalSubtitles (subtitleStreams : List PartStream) (baseUrl : Y.Url) (accessToken : Str) :
    Except Exc (List Subtitle) :=
  subtitleStreams.mapM fun stream => do
    let number ← index stream.id
    let id ← formatInt number
    let lang ← index stream.displayTitle
    let key ← index stream.key
    let url ← divide baseUrl (key.drop 1)
    pure { id, lang, url := Y.str (Y.mod url (tokenParam accessToken)) }

/-- `'/'.join(sorted(languages))` of a set. -/
def sortedLanguages (languages : List Str) : Str :=
  ['/'].intercalate (languages.dedup.insertionSort (· ≤ ·))

/-- The languages of a part's streams, and its external subtitles. -/
structure Languages where
  audio : List Str
  subtitles : List Str
  external : List PartStream

def Languages.add (languages : Languages) (stream : PartStream) : Except Exc Languages := do
  let streamType ← index stream.streamType
  let flag := getFlagEmoji (stream.languageTag.getD "Unknown".toList)
  if streamType = 2 then pure { languages with audio := languages.audio ++ [flag] }
  else if streamType = 3 then
    pure { languages with
      subtitles := languages.subtitles ++ [flag]
      external := if stream.key.isSome then languages.external ++ [stream] else languages.external }
  else pure languages

/-- What the streams of one version share. -/
structure Source where
  name : Str
  part : Part
  filename : Str
  resolution : Option Str
  sourceDetails : Str
  languages : Languages

def Source.description (source : Source) (quality : Str) : Except Exc Str := do
  let audio := source.languages.audio
  let subtitles := source.languages.subtitles
  let size ← sizeLabel source.part.size
  let mediaNotes :=
    (if audio.isEmpty then [] else ["Audio: ".toList ++ sortedLanguages audio]) ++
      (if subtitles.isEmpty then [] else ["Subtitles: ".toList ++ sortedLanguages subtitles]) ++ size.toList
  pure (['\n'].intercalate ([source.filename, quality] ++
    (if source.sourceDetails.isEmpty then [] else ["Source: ".toList ++ source.sourceDetails]) ++
    (if mediaNotes.isEmpty then [] else [" · ".toList.intercalate mediaNotes])))

/-- `f' {resolution}'` when there is one. -/
def Source.resolutionAfter (source : Source) (before : String) : Str :=
  match source.resolution with
  | some resolution => before.toList ++ resolution
  | none => []

variable (U : Unicode) (c : AddonConfiguration Y)

def Source.stream (source : Source) (quality url : Str) (base : Y.Url) : Except Exc StremioStream := do
  let description ← source.description quality
  let subtitles ← externalSubtitles source.languages.external base c.accessToken
  pure { name := source.name, description, url := some url, subtitles := some subtitles,
         behaviorHints := some { bingeGroup := quality, filename := source.filename, videoSize := source.part.size } }

namespace PlexMediaMeta
variable (self : PlexMediaMeta)

def source (media : Version) : Except Exc Source := do
  let parts ← index media.part
  let part ← match parts with
    | [] => .error .index
    | part :: _ => pure part
  let file ← index part.file
  let partStreams := part.stream.getD []
  let resolution ← resolutionLabel U media
  let details ← sourceDetails U media part partStreams
  let languages ← partStreams.foldlM Languages.add ⟨[], [], []⟩
  pure { name := c.serverName ++ ' ' :: self.librarySectionTitle.getD "None".toList, part, filename := afterLast '/' file,
         resolution, sourceDetails := details, languages }

/-- The URL a version is played from, and the words for the connection. -/
def directPlayUrl (playPrefix : Option Str) (media : Version) (part : Part) (connectionIndex : Nat) (streamBase : Y.Url)
    (kindLabel : Str) : Except Exc (Str × Str) :=
  if Yarl.truthy playPrefix then do
    let rk ← match self.key with
      | some key => pure (afterLast '/' key)
      | none => .error .attribute
    let partKey ← index part.key
    let pk := rstrip '=' (urlsafeB64encode (encode partKey))
    let duration ← formatInt ((orInt self.duration media.duration).getD 0)
    pure (playPrefix.getD [] ++ '/' :: rk ++ '/' :: duration ++ '/' :: pk, "Selected ".toList ++ kindLabel)
  else do
    let partKey ← index part.key
    let url ← divide streamBase (partKey.drop 1)
    pure (Y.str (Y.mod url (tokenParam c.accessToken)),
      (if connectionIndex = 0 then "Primary ".toList else "Alternate ".toList) ++ kindLabel)

def directPlayStreams (playPrefix : Option Str) (media : Version) (source : Source) : Except Exc (List StremioStream) := do
  let connections ← c.directPlayConnections
  -- The proxy has one way in, so one stream.
  let connections := if Yarl.truthy playPrefix then connections.take 1 else connections
  connections.zipIdx.mapM fun ((streamBase, connectionKind), connectionIndex) => do
    let (url, connectionLabel) ←
      self.directPlayUrl c playPrefix media source.part connectionIndex streamBase (capitalize connectionKind.value)
    source.stream c ("Direct Play".toList ++ source.resolutionAfter " " ++ " · ".toList ++ connectionLabel) url streamBase

def transcodeUrl (i : Nat) : Except Exc Y.Url := do
  let url ← divide c.streamingUrl "video/:/transcode/universal/start.m3u8".toList
  match self.key with
  | none => .error .type
  | some key =>
    pure (Y.mod url [("path".toList, key), ("mediaIndex".toList, strInt i), ("protocol".toList, "hls".toList),
      ("fastSeek".toList, "1".toList), ("copyts".toList, "1".toList), ("autoAdjustQuality".toList, "0".toList),
      ("X-Plex-Platform".toList, "Chrome".toList), ("X-Plex-Token".toList, c.accessToken)])

def transcodeDownStreams (media : Version) (source : Source) (transcodeUrl : Y.Url) : Except Exc (List StremioStream) := do
  let streams ← c.transcodeDownQualities.mapM fun quality => do
    let width ← index media.width
    if width ≤ quality.minWidth then pure []
    else
      let qualityDescription := "Transcode ".toList ++ quality.value ++ source.resolutionAfter " · Source "
      let stream ← source.stream c qualityDescription (Y.str (Y.mod transcodeUrl quality.plexArgs)) c.streamingUrl
      pure [stream]
  pure streams.flatten

def originalStreams (source : Source) (transcodeUrl : Y.Url) : Except Exc (List StremioStream) := do
  let stream ← source.stream c ("Transcode".toList ++ source.resolutionAfter " " ++ " · Original".toList)
    (Y.str (Y.mod transcodeUrl [("videoQuality".toList, "100".toList)])) c.streamingUrl
  pure [stream]

def plexTvStream (source : Source) : StremioStream where
  name := source.name
  description := "Open on plex.tv (external)".toList
  externalUrl := some ("https://app.plex.tv/#!/provider/tv.plex.provider.metadata/details?key=/library/metadata/".toList ++
    afterLast '/' self.guid)

/-- The streams of one version; `i` is its place in Plex's list. -/
def versionStreams (playPrefix : Option Str) (media : Version) (i : Nat) : Except Exc (List StremioStream) := do
  let optional (included : Bool) (streams : Except Exc (List StremioStream)) := if included then streams else pure []
  let source ← self.source U c media
  let direct ← optional c.includeDirectPlay (self.directPlayStreams c playPrefix media source)
  let transcodeUrl ← self.transcodeUrl c i
  let original ← optional c.includeTranscodeOriginal (originalStreams c source transcodeUrl)
  let down ← optional c.includeTranscodeDown (transcodeDownStreams c media source transcodeUrl)
  let plexTv := if c.includePlexTv && startswith self.guid "plex:".toList then [self.plexTvStream source] else []
  pure (direct ++ original ++ down ++ plexTv)

def getStremioStreams (playPrefix : Option Str) : Except Exc (List StremioStream) := do
  let keyed ← self.media.zipIdx.mapM fun indexedMedia => do
    let priority ← playbackPriority U indexedMedia
    pure (priority, indexedMedia)
  let sorted := keyed.insertionSort fun a b => a.1 ≤ b.1
  let streams ← sorted.mapM fun (_, media, i) => self.versionStreams U c playPrefix media i
  pure streams.flatten

/-! ### What they are made of -/

variable {U c self} {playPrefix : Option Str} {media : Version} {i : Nat} {streams : List StremioStream}

theorem versionStreams_ok (h : self.versionStreams U c playPrefix media i = .ok streams) :
    ∃ source direct url original down, self.source U c media = .ok source ∧
      (if c.includeDirectPlay then self.directPlayStreams c playPrefix media source else pure []) = .ok direct ∧
      self.transcodeUrl c i = .ok url ∧
      (if c.includeTranscodeOriginal then originalStreams c source url else pure []) = .ok original ∧
      (if c.includeTranscodeDown then transcodeDownStreams c media source url else pure []) = .ok down ∧
      streams = direct ++ original ++ down ++
        if c.includePlexTv && startswith self.guid "plex:".toList then [self.plexTvStream source] else [] := by
  obtain ⟨source, hsource, h⟩ := Json.bind_ok.mp h
  obtain ⟨direct, hdirect, h⟩ := Json.bind_ok.mp h
  obtain ⟨url, hurl, h⟩ := Json.bind_ok.mp h
  obtain ⟨original, horiginal, h⟩ := Json.bind_ok.mp h
  obtain ⟨down, hdown, h⟩ := Json.bind_ok.mp h
  cases h
  exact ⟨source, direct, url, original, down, hsource, hdirect, hurl, horiginal, hdown, rfl⟩

/-- Every stream is one quality's. -/
theorem transcodeDownStreams_ok {source : Source} {url : Y.Url} (h : transcodeDownStreams c media source url = .ok streams) :
    ∀ s ∈ streams, ∃ (quality : Resolution) (description : Str),
      source.stream c description (Y.str (Y.mod url quality.plexArgs)) c.streamingUrl = .ok s := by
  obtain ⟨groups, hgroups, h⟩ := Json.bind_ok.mp h
  cases h
  intro s hs
  obtain ⟨group, hgroup, hs⟩ := List.mem_flatten.mp hs
  obtain ⟨quality, -, hquality⟩ := Json.exists_of_forall₂ (Json.mapM_ok.mp hgroups) group hgroup
  obtain ⟨width, -, hquality⟩ := Json.bind_ok.mp hquality
  split at hquality
  · cases hquality
    cases hs
  · obtain ⟨stream, hstream, hquality⟩ := Json.bind_ok.mp hquality
    cases hquality
    rw [List.mem_singleton.mp hs]
    exact ⟨quality, _, hstream⟩

end PlexMediaMeta

end Streams

end Plexio
