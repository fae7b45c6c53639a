/-
Plex's media as the add-on sees it (`models/plex.py`), and the streams it
makes of an item (`models/stremio.py`).

The records follow the fields the code reads from Plex's JSON, each of its
type there and absent where the answer omits it; reading an absent one with
`[...]` is a `KeyError`. Numbers are integers; what the code makes floats of
is rounded as those are, and out of their range it is an `OverflowError`.
-/
import Mathlib.Algebra.Group.Int.Defs
import Mathlib.Algebra.Group.Nat.Defs
import Mathlib.Data.List.Dedup
import Mathlib.Data.Prod.Lex
import Plexio.Addon
import Plexio.Lib.Binary64

namespace Plexio

open Py

/-! ## Records -/

/-- An element of a part's `Stream`. -/
structure PartStream where
  streamType : Option Int := none
  id : Option Int := none
  key : Option Str := none
  codec : Option Str := none
  displayTitle : Option Str := none
  extendedDisplayTitle : Option Str := none
  colorTrc : Option Str := none
  doviPresent : Option Bool := none
  languageTag : Option Str := none
  audioChannelLayout : Option Str := none
  channelLayout : Option Str := none
  channels : Option Int := none
  deriving DecidableEq

/-- An element of a version's `Part`. -/
structure Part where
  key : Option Str := none
  file : Option Str := none
  container : Option Str := none
  size : Option Int := none
  bitrate : Option Int := none
  stream : Option (List PartStream) := none
  deriving DecidableEq

/-- An element of an item's `Media`: one version of it. -/
structure Version where
  videoResolution : Option Str := none
  videoCodec : Option Str := none
  audioCodec : Option Str := none
  videoDynamicRange : Option Str := none
  container : Option Str := none
  width : Option Int := none
  height : Option Int := none
  bitrate : Option Int := none
  duration : Option Int := none
  part : Option (List Part) := none
  deriving DecidableEq

/-- An element of a container's `Metadata`, as Plex sends it. -/
structure Metadata where
  type : Option Str := none
  guid : Option Str := none
  title : Option Str := none
  ratingKey : Option Str := none
  key : Option Str := none
  librarySectionTitle : Option Str := none
  duration : Option Int := none
  index : Option Int := none
  parentIndex : Option Int := none
  addedAt : Option Int := none
  summary : Option Str := none
  audienceRating : Option Int := none
  year : Option Int := none
  thumb : Option Str := none
  media : List Version := []
  /-- The `tag` of each. -/
  genre : List (Option Str) := []
  /-- The `id` of each. -/
  guids : List (Option Str) := []
  /-- As `str` writes it. -/
  librarySectionID : Option Str := none
  grandparentGuid : Option Str := none
  grandparentTitle : Option Str := none
  grandparentThumb : Option Str := none
  deriving DecidableEq

structure PlexMediaMeta where
  guid : Str
  type : PlexMediaType
  title : Str
  addedAt : Int := 0
  ratingKey : Option Str
  key : Option Str
  librarySectionTitle : Option Str
  summary : Str := []
  audienceRating : Option Int := none
  year : Option Int := none
  thumb : Option Str := none
  duration : Option Int
  media : List Version
  genre : List (Option Str) := []
  guids : List (Option Str) := []
  deriving DecidableEq

structure PlexEpisodeMeta where
  guid : Str
  title : Str
  index : Int
  parentIndex : Int
  ratingKey : Option Str
  deriving DecidableEq

/-- A required field. -/
def required (name : String) : Option Str → Except Exc Str
  | some s => .ok s
  | none => .error (.validation ⟨[name.toList], .missing⟩)

/-- `PlexMediaMeta(**item)`. -/
def PlexMediaMeta.validate (item : Metadata) : Except Exc PlexMediaMeta := do
  let guid ← required "guid" item.guid
  let type ← match item.type with
    | none => .error (.validation ⟨["type".toList], .missing⟩)
    | some t =>
      match PlexMediaType.table.lookup t with
      | none => .error (.validation ⟨["type".toList], .notInEnum⟩)
      | some type => .ok type
  let title ← required "title" item.title
  pure { guid, type, title, addedAt := item.addedAt.getD 0, ratingKey := item.ratingKey, key := item.key,
         librarySectionTitle := item.librarySectionTitle, summary := item.summary.getD [],
         audienceRating := item.audienceRating, year := item.year, thumb := item.thumb, duration := item.duration,
         media := item.media, genre := item.genre, guids := item.guids }

/-- `meta.setdefault('index', i)`, then `PlexEpisodeMeta(**meta)`. -/
def PlexEpisodeMeta.validate (i : Nat) (item : Metadata) : Except Exc PlexEpisodeMeta := do
  let guid ← required "guid" item.guid
  let title ← required "title" item.title
  pure { guid, title, index := item.index.getD i, parentIndex := item.parentIndex.getD 0, ratingKey := item.ratingKey }

structure Subtitle where
  id : Str
  lang : Str
  url : Str
  deriving DecidableEq

structure BehaviorHints where
  bingeGroup : Str
  filename : Str
  videoSize : Option Int
  deriving DecidableEq

structure StremioStream where
  url : Option Str := none
  externalUrl : Option Str := none
  name : Str
  description : Str
  subtitles : Option (List Subtitle) := none
  behaviorHints : Option BehaviorHints := none
  deriving DecidableEq

/-! ## Numbers -/

/-- `float(n)` -/
def float (n : Int) : Except Exc ℚ := if Binary64.Fits n then .ok (Binary64.round n) else .error .overflow

/-- `_number` -/
def number : Option Int → Except Exc ℚ
  | some n => float n
  | none => .ok 0

/-- `f'{n}'`; an `int` of more than 4300 digits is not written. -/
def formatInt (n : Int) : Except Exc Str :=
  if 4300 < (strInt n.natAbs).length then
    .error (.value "Exceeds the limit (4300 digits) for integer string conversion; use sys.set_int_max_str_digits() to increase the limit".toList)
  else .ok (strInt n)

/-- `f'{x:.1f}'` -/
def fixed1 (x : ℚ) : Str :=
  let tenths := Binary64.halfEven (10 * x)
  strInt (tenths / 10) ++ '.' :: strInt (tenths % 10)

/-- `f'{x:.0f}'` -/
def fixed0 (x : ℚ) : Str := strInt (Binary64.halfEven x)

/-! ## Labels -/

/-- Truthiness of a text that may be absent: `a or b`. -/
def orStr (a b : Option Str) : Option Str := if Yarl.truthy a then a else b

/-- `a or b` on numbers. -/
def orInt (a b : Option Int) : Option Int := if a.any (· ≠ 0) then a else b

def videoCodecLabels : List (String × String) :=
  [("av1", "AV1"), ("avc", "H.264"), ("h264", "H.264"), ("h265", "HEVC"), ("hevc", "HEVC"), ("mpeg2video", "MPEG-2"),
    ("mpeg4", "MPEG-4"), ("vc1", "VC-1"), ("vp9", "VP9")]

def audioCodecLabels : List (String × String) :=
  [("aac", "AAC"), ("ac3", "AC-3"), ("alac", "ALAC"), ("dca", "DTS"), ("dca-ma", "DTS-HD MA"), ("dts", "DTS"),
    ("eac3", "E-AC-3"), ("flac", "FLAC"), ("mp3", "MP3"), ("opus", "Opus"), ("truehd", "TrueHD")]

/-- `aliases.get(value)` -/
def aliasOf (aliases : List (String × String)) (value : Str) : Option Str :=
  (aliases.find? (·.1.toList == value)).map (·.2.toList)

/-- The texts that are not empty, joined. -/
def joinTruthy (sep : String) (parts : List (Option Str)) : Str :=
  sep.toList.intercalate ((parts.filter Yarl.truthy).map (·.getD []))

def highBitrateThresholdKbps : Int := 40000
def highSizeThresholdBytes : Int := 40 * 1024 ^ 3

section Labels
variable (U : Unicode)

def codecLabel (codec : Option Str) (aliases : List (String × String)) : Option Str :=
  if Yarl.truthy codec then
    let value := strip (codec.getD [])
    some ((aliasOf aliases (U.casefold value)).getD (U.upper value))
  else none

/-- `s.isdigit()` -/
def isdigit (s : Str) : Bool := !s.isEmpty && s.all U.isdigit

def resolutionAliases : List (String × String) :=
  [("4k", "4K"), ("2160", "4K"), ("2160p", "4K"), ("2k", "2K"), ("sd", "SD")]

def resolutionLabel (media : Version) : Except Exc (Option Str) :=
  let value := U.casefold (strip (media.videoResolution.getD []))
  match aliasOf resolutionAliases value with
  | some label => pure (some label)
  | none =>
    if isdigit U value then pure (some (value ++ ['p']))
    else if isdigit U value.dropLast && (value.getLast? == some 'p' || value.getLast? == some 'i') then pure (some value)
    else if !value.isEmpty then pure (some (U.upper value))
    else
      let height := media.height.getD 0
      if 2000 ≤ height then pure (some "4K".toList)
      else if height ≠ 0 then do
        let digits ← formatInt height
        pure (some (digits ++ ['p']))
      else pure none

/-- `marker in display` -/
def mentions (display : Str) (marker : String) : Bool := decide (marker.toList <:+: display)

def dynamicRangeLabel (media : Version) (videoStream : PartStream) : Option Str :=
  let display := U.casefold (joinTruthy " "
    [media.videoDynamicRange, videoStream.displayTitle, videoStream.extendedDisplayTitle, videoStream.colorTrc])
  let dolby : List Str :=
    if videoStream.doviPresent == some true || mentions display "dolby vision" || mentions display "dovi" then
      ["Dolby Vision".toList]
    else []
  let hdr : List Str :=
    if mentions display "hdr10+" || mentions display "hdr10plus" then ["HDR10+".toList]
    else if mentions display "hdr10" || mentions display "smpte2084" || mentions display "pq" then ["HDR10".toList]
    else if mentions display "hlg" || mentions display "arib-std-b67" then ["HLG".toList]
    else if mentions display "hdr" then ["HDR".toList]
    else []
  match dolby ++ hdr with
  | [] => none
  | labels => some (" / ".toList.intercalate labels)

/-- `{1: '1.0', 2: '2.0', 6: '5.1', 8: '7.1'}` -/
def channelLayouts : List (Int × String) := [(1, "1.0"), (2, "2.0"), (6, "5.1"), (8, "7.1")]

def channelLabel (stream : PartStream) : Except Exc (Option Str) :=
  let layout := orStr stream.audioChannelLayout stream.channelLayout
  if Yarl.truthy layout then pure (some (U.upper (layout.getD [])))
  else
    let channels := stream.channels.getD 0
    if channels ≠ 0 then do
      -- The text for other numbers is made whether it is needed or not.
      let digits ← formatInt channels
      pure (some (((channelLayouts.lookup channels).map String.toList).getD (digits ++ "ch".toList)))
    else pure none

def audioLabels (media : Version) (streams : List PartStream) : Except Exc (Option Str) := do
  let found ← (streams.filter (·.streamType == some 2)).mapM fun stream => do
    let channel ← channelLabel U stream
    pure (joinTruthy " " [codecLabel U stream.codec audioCodecLabels, channel])
  let labels := found.foldl
    (fun labels label => if !label.isEmpty && label ∉ labels then labels ++ [label] else labels) []
  match labels with
  | [] =>
    pure (if Yarl.truthy (codecLabel U media.audioCodec audioCodecLabels) then codecLabel U media.audioCodec audioCodecLabels
      else none)
  | labels => pure (some (" / ".toList.intercalate labels))

def bitrateLabel (media : Version) (part : Part) : Except Exc (Option Str) := do
  let bitrate ← number (orInt media.bitrate part.bitrate)
  if bitrate ≤ 0 then pure none
  else if 1000 ≤ bitrate then
    pure (some (rstrip '.' (rstrip '0' (fixed1 (Binary64.round (bitrate / 1000)))) ++ " Mbps".toList))
  else
    -- Below 1000 it is the integer it was made of.
    pure (some (strInt bitrate.num ++ " Kbps".toList))

def sizeUnits : List String := ["B", "KB", "MB", "GB", "TB"]

/-- The size in the largest unit it fills, `TB` at most. -/
def sizeIn (size : ℚ) : List String → Str
  | [] => []
  | [unit] => fixed1 size ++ ' ' :: unit.toList
  | unit :: units =>
    if size < 1024 then (if unit = "B" then fixed0 size else fixed1 size) ++ ' ' :: unit.toList
    else sizeIn (size / 1024) units

def sizeLabel : Option Int → Except Exc (Option Str)
  | none => pure none
  | some value => do
    let size ← float value
    if size ≤ 0 then pure none else pure (some (sizeIn size sizeUnits))

def videoStreamOf (streams : List PartStream) : PartStream := (streams.find? (·.streamType == some 1)).getD {}

def sourceDetails (media : Version) (part : Part) (streams : List PartStream) : Except Exc Str := do
  let videoStream := videoStreamOf streams
  let audio ← audioLabels U media streams
  let bitrate ← bitrateLabel media part
  pure (joinTruthy " · "
    [codecLabel U (orStr media.videoCodec videoStream.codec) videoCodecLabels, dynamicRangeLabel U media videoStream,
      audio, bitrate])

/-! ## The order of versions -/

/-- Versions are sorted by this, the smallest first. -/
structure Priority where
  isHeavy : Bool
  codecRank : Nat
  containerRank : Nat
  height : ℚ
  bitrate : WithTop ℚ
  originalIndex : Nat
  deriving DecidableEq

namespace Priority

def tuple (p : Priority) : Bool ×ₗ ℕ ×ₗ ℕ ×ₗ ℚ ×ₗ WithTop ℚ ×ₗ ℕ :=
  toLex (p.isHeavy, toLex (p.codecRank, toLex (p.containerRank, toLex (p.height, toLex (p.bitrate, p.originalIndex)))))

theorem tuple_injective : Function.Injective tuple := by
  intro p q h
  cases p
  cases q
  simpa [tuple] using h

/-- Tuples are compared component by component. -/
instance : LinearOrder Priority := LinearOrder.lift' tuple tuple_injective

end Priority

def codecRanks : List (String × Nat) := [("h264", 0), ("avc", 0), ("hevc", 1), ("h265", 1), ("vp9", 2), ("av1", 3)]

def containerRanks : List (String × Nat) := [("mp4", 0), ("m4v", 0), ("mkv", 1)]

def heightOfResolution : List (String × Nat) := [("4k", 2160), ("2160", 2160), ("1080", 1080), ("720", 720)]

def rankOf (ranks : List (String × Nat)) (value : Str) (otherwise : Nat) : Nat :=
  ((ranks.find? (·.1.toList == value)).map (·.2)).getD otherwise

def playbackPriority (indexedMedia : Version × Nat) : Except Exc Priority := do
  let (media, originalIndex) := indexedMedia
  let part := (media.part.bind List.head?).getD {}
  let videoStream := videoStreamOf (part.stream.getD [])
  let bitrate ← number (orInt media.bitrate part.bitrate)
  let size ← number part.size
  let height ← number media.height
  let resolution := U.casefold (media.videoResolution.getD [])
  pure
    { isHeavy := decide ((highBitrateThresholdKbps : ℚ) < bitrate) || decide ((highSizeThresholdBytes : ℚ) < size)
      codecRank := rankOf codecRanks (U.casefold ((orStr media.videoCodec videoStream.codec).getD [])) 4
      containerRank := rankOf containerRanks (U.casefold ((orStr media.container part.container).getD [])) 2
      height := if height ≠ 0 then -height else -(rankOf heightOfResolution resolution 0 : Nat)
      bitrate := if bitrate ≠ 0 then bitrate else ⊤
      originalIndex }

end Labels

end Plexio
