/-
The JSON texts of the models: what pydantic dumps and validates again. A
record is written as the object of its fields that have a value, in order,
and read by looking each field up (`readRecord_writeRecord`).

`Deployment.plain` runs the add-on on these texts and the plain versions of
its other parts.
-/
import Plexio.AddonRouter
import Plexio.Lib.JsonText

namespace Plexio

open Py Json

/-- A codec from a JSON form that is read back. -/
def Codec.json {α : Type} (write : α → Json) (read : Json → Option α) (h : ∀ a, read (write a) = some a) : Codec α where
  dump a := print [] (write a)
  load s := (parse s).bind read
  load_dump a := by rw [parse_print isSpace_none]; exact h a

/-! ## Records -/

/-- The members of the fields that have a value. -/
def writeFields : List String → List (Option Json) → List (Str × Json)
  | k :: ks, some v :: vs => (k.toList, v) :: writeFields ks vs
  | _ :: ks, none :: vs => writeFields ks vs
  | _, _ => []

def writeRecord (keys : List String) (values : List (Option Json)) : Json := .obj (writeFields keys values)

def readRecord (keys : List String) : Json → Option (List (Option Json))
  | .obj o => some (keys.map fun k => List.lookup k.toList o)
  | _ => none

theorem lookup_writeFields_of_not_mem {k : String} : ∀ {ks : List String} {vs : List (Option Json)}, k ∉ ks →
    List.lookup k.toList (writeFields ks vs) = none
  | [], _, _ => rfl
  | _ :: _, [], _ => rfl
  | j :: ks, some v :: vs, h => by
    have hne : (k.toList == j.toList) = false := by
      rw [beq_eq_false_iff_ne]
      exact fun he => h (by simp [String.toList_inj.mp he])
    have hks : k ∉ ks := fun hk => h (by simp [hk])
    rw [writeFields, List.lookup_cons, hne]
    exact lookup_writeFields_of_not_mem hks
  | j :: ks, none :: vs, h => by
    have hks : k ∉ ks := fun hk => h (by simp [hk])
    rw [writeFields]
    exact lookup_writeFields_of_not_mem hks

/-- **A record is read back.** -/
theorem readRecord_writeRecord {keys : List String} {values : List (Option Json)} (hk : keys.Nodup)
    (hlen : keys.length = values.length) : readRecord keys (writeRecord keys values) = some values := by
  simp only [readRecord, writeRecord, Option.some.injEq]
  induction keys generalizing values with
  | nil => exact (List.eq_nil_of_length_eq_zero hlen.symm).symm
  | cons k ks ih =>
    obtain ⟨hnot, hks⟩ := List.nodup_cons.mp hk
    cases values with
    | nil => cases hlen
    | cons v vs =>
      have hrest := ih hks (Nat.succ.inj hlen)
      cases v with
      | none =>
        rw [writeFields, List.map_cons, lookup_writeFields_of_not_mem hnot, hrest]
      | some j =>
        rw [writeFields, List.map_cons, List.lookup_cons, beq_self_eq_true]
        refine congrArg _ (Eq.trans (List.map_congr_left fun k' hk' => ?_) hrest)
        have hne : (k'.toList == k.toList) = false := by
          rw [beq_eq_false_iff_ne]
          exact fun he => hnot (String.toList_inj.mp he ▸ hk')
        rw [List.lookup_cons, hne]

def str? : Option Json → Option (Option Str)
  | none | some .null => some none
  | some (.str s) => some (some s)
  | _ => none

def int? : Option Json → Option (Option Int)
  | none | some .null => some none
  | some (.num n) => some (some n)
  | _ => none

def bool? : Option Json → Option (Option Bool)
  | none => some none
  | some (.bool b) => some (some b)
  | _ => none

def list? {α : Type} (read : Json → Option α) : Option Json → Option (Option (List α))
  | none => some none
  | some (.arr xs) => some <$> xs.mapM read
  | _ => none

@[simp] theorem str?_map (s : Option Str) : str? (s.map .str) = some s := by cases s <;> rfl
@[simp] theorem int?_map (n : Option Int) : int? (n.map .num) = some n := by cases n <;> rfl
@[simp] theorem bool?_map (b : Option Bool) : bool? (b.map .bool) = some b := by cases b <;> rfl
@[simp] theorem str?_some (s : Str) : str? (some (.str s)) = some (some s) := rfl
@[simp] theorem int?_some (n : Int) : int? (some (.num n)) = some (some n) := rfl

theorem mapM_map {α : Type} {write : α → Json} {read : Json → Option α} (h : ∀ a, read (write a) = some a) (as : List α) :
    (as.map write).mapM read = some as := by
  induction as with
  | nil => rfl
  | cons a as ih => simp [h a, ih]

theorem list?_map {α : Type} {write : α → Json} {read : Json → Option α} (h : ∀ a, read (write a) = some a)
    (as : Option (List α)) : list? read (as.map fun as => .arr (as.map write)) = some as := by
  cases as with
  | none => rfl
  | some as => simp [list?, mapM_map h]

/-- A field that is written also when it has no value. -/
def orNull (v : Option Json) : Option Json := some (v.getD .null)

@[simp] theorem str?_orNull (s : Option Str) : str? (orNull (s.map .str)) = some s := by cases s <;> rfl
@[simp] theorem int?_orNull (n : Option Int) : int? (orNull (n.map .num)) = some n := by cases n <;> rfl

/-! ## The models -/

namespace PartStream

def keys : List String :=
  ["streamType", "id", "key", "codec", "displayTitle", "extendedDisplayTitle", "colorTrc", "DOVIPresent", "languageTag",
    "audioChannelLayout", "channelLayout", "channels"]

def write (s : PartStream) : Json :=
  writeRecord keys [s.streamType.map .num, s.id.map .num, s.key.map .str, s.codec.map .str, s.displayTitle.map .str,
    s.extendedDisplayTitle.map .str, s.colorTrc.map .str, s.doviPresent.map .bool, s.languageTag.map .str,
    s.audioChannelLayout.map .str, s.channelLayout.map .str, s.channels.map .num]

def read (j : Json) : Option PartStream := do
  let [streamType, id, key, codec, displayTitle, extendedDisplayTitle, colorTrc, doviPresent, languageTag,
    audioChannelLayout, channelLayout, channels] ← readRecord keys j | none
  pure { streamType := ← int? streamType, id := ← int? id, key := ← str? key, codec := ← str? codec
         displayTitle := ← str? displayTitle, extendedDisplayTitle := ← str? extendedDisplayTitle
         colorTrc := ← str? colorTrc, doviPresent := ← bool? doviPresent, languageTag := ← str? languageTag
         audioChannelLayout := ← str? audioChannelLayout, channelLayout := ← str? channelLayout
         channels := ← int? channels }

theorem read_write (s : PartStream) : read s.write = some s := by
  rw [read, write, readRecord_writeRecord (by simp [keys]) rfl]
  simp only [bind, Option.bind, int?_map, str?_map, bool?_map, pure]

end PartStream

namespace Part

def keys : List String := ["key", "file", "container", "size", "bitrate", "Stream"]

def write (p : Part) : Json :=
  writeRecord keys [p.key.map .str, p.file.map .str, p.container.map .str, p.size.map .num, p.bitrate.map .num,
    p.stream.map fun xs => .arr (xs.map PartStream.write)]

def read (j : Json) : Option Part := do
  let [key, file, container, size, bitrate, stream] ← readRecord keys j | none
  pure { key := ← str? key, file := ← str? file, container := ← str? container, size := ← int? size
         bitrate := ← int? bitrate, stream := ← list? PartStream.read stream }

theorem read_write (p : Part) : read p.write = some p := by
  rw [read, write, readRecord_writeRecord (by simp [keys]) rfl]
  simp only [bind, Option.bind, int?_map, str?_map, list?_map PartStream.read_write, pure]

end Part

namespace Version

def keys : List String :=
  ["videoResolution", "videoCodec", "audioCodec", "videoDynamicRange", "container", "width", "height", "bitrate",
    "duration", "Part"]

def write (v : Version) : Json :=
  writeRecord keys [v.videoResolution.map .str, v.videoCodec.map .str, v.audioCodec.map .str,
    v.videoDynamicRange.map .str, v.container.map .str, v.width.map .num, v.height.map .num, v.bitrate.map .num,
    v.duration.map .num, v.part.map fun xs => .arr (xs.map Part.write)]

def read (j : Json) : Option Version := do
  let [videoResolution, videoCodec, audioCodec, videoDynamicRange, container, width, height, bitrate, duration, part] ←
    readRecord keys j | none
  pure { videoResolution := ← str? videoResolution, videoCodec := ← str? videoCodec, audioCodec := ← str? audioCodec
         videoDynamicRange := ← str? videoDynamicRange, container := ← str? container, width := ← int? width
         height := ← int? height, bitrate := ← int? bitrate, duration := ← int? duration, part := ← list? Part.read part }

theorem read_write (v : Version) : read v.write = some v := by
  rw [read, write, readRecord_writeRecord (by simp [keys]) rfl]
  simp only [bind, Option.bind, int?_map, str?_map, list?_map Part.read_write, pure]

end Version

namespace PlexMediaMeta

def keys : List String :=
  ["guid", "type", "title", "addedAt", "ratingKey", "key", "librarySectionTitle", "summary", "audienceRating", "year",
    "thumb", "duration", "Media", "Genre", "Guid"]

/-- An element of a list of records of which one field is read. -/
def writeOne (key : String) (s : Option Str) : Json := writeRecord [key] [s.map .str]

def readOne (key : String) (j : Json) : Option (Option Str) := do
  let [s] ← readRecord [key] j | none
  str? s

theorem readOne_writeOne (key : String) (s : Option Str) : readOne key (writeOne key s) = some s := by
  rw [readOne, writeOne, readRecord_writeRecord (by simp) rfl]
  simp only [bind, Option.bind, str?_map]

def write (m : PlexMediaMeta) : Json :=
  writeRecord keys [some (.str m.guid), some (.str m.type.value), some (.str m.title), some (.num m.addedAt),
    orNull (m.ratingKey.map .str), orNull (m.key.map .str), orNull (m.librarySectionTitle.map .str), some (.str m.summary),
    orNull (m.audienceRating.map .num), orNull (m.year.map .num), orNull (m.thumb.map .str), orNull (m.duration.map .num),
    some (.arr (m.media.map Version.write)), some (.arr (m.genre.map (writeOne "tag"))),
    some (.arr (m.guids.map (writeOne "id")))]

def read (j : Json) : Option PlexMediaMeta := do
  let [guid, type, title, addedAt, ratingKey, key, librarySectionTitle, summary, audienceRating, year, thumb, duration,
    media, genre, guids] ← readRecord keys j | none
  pure { guid := ← ← str? guid, type := ← PlexMediaType.table.lookup (← ← str? type), title := ← ← str? title
         addedAt := ← ← int? addedAt, ratingKey := ← str? ratingKey, key := ← str? key
         librarySectionTitle := ← str? librarySectionTitle, summary := ← ← str? summary
         audienceRating := ← int? audienceRating, year := ← int? year, thumb := ← str? thumb, duration := ← int? duration
         media := ← ← list? Version.read media, genre := ← ← list? (readOne "tag") genre
         guids := ← ← list? (readOne "id") guids }

theorem read_write (m : PlexMediaMeta) : read m.write = some m := by
  have htype : PlexMediaType.table.lookup m.type.value = some m.type := by cases m.type <;> rfl
  have hmedia : list? Version.read (some (.arr (m.media.map Version.write))) = some (some m.media) :=
    list?_map Version.read_write (some m.media)
  have hone (key : String) (xs : List (Option Str)) :
      list? (readOne key) (some (.arr (xs.map (writeOne key)))) = some (some xs) :=
    list?_map (readOne_writeOne key) (some xs)
  rw [read, write, readRecord_writeRecord (by simp [keys]) rfl]
  simp only [bind, Option.bind, str?_some, int?_some, str?_orNull, int?_orNull, htype, hmedia, hone, pure]

end PlexMediaMeta

namespace PlexEpisodeMeta

def keys : List String := ["guid", "title", "index", "parentIndex", "ratingKey"]

def write (e : PlexEpisodeMeta) : Json :=
  writeRecord keys [some (.str e.guid), some (.str e.title), some (.num e.index), some (.num e.parentIndex),
    orNull (e.ratingKey.map .str)]

def read (j : Json) : Option PlexEpisodeMeta := do
  let [guid, title, index, parentIndex, ratingKey] ← readRecord keys j | none
  pure { guid := ← ← str? guid, title := ← ← str? title, index := ← ← int? index, parentIndex := ← ← int? parentIndex
         ratingKey := ← str? ratingKey }

theorem read_write (e : PlexEpisodeMeta) : read e.write = some e := by
  rw [read, write, readRecord_writeRecord (by simp [keys]) rfl]
  simp only [bind, Option.bind, str?_some, int?_some, str?_orNull, pure]

end PlexEpisodeMeta

namespace Subtitle

def keys : List String := ["id", "lang", "url"]

def write (s : Subtitle) : Json := writeRecord keys [some (.str s.id), some (.str s.lang), some (.str s.url)]

def read (j : Json) : Option Subtitle := do
  let [id, lang, url] ← readRecord keys j | none
  pure { id := ← ← str? id, lang := ← ← str? lang, url := ← ← str? url }

theorem read_write (s : Subtitle) : read s.write = some s := by
  rw [read, write, readRecord_writeRecord (by simp [keys]) rfl]
  simp only [bind, Option.bind, str?_some, pure]

end Subtitle

namespace StremioStream

def hintKeys : List String := ["notWebReady", "bingeGroup", "filename", "videoSize"]

def writeHints (h : BehaviorHints) : Json :=
  writeRecord hintKeys [some (.bool false), some (.str h.bingeGroup), some (.str h.filename), h.videoSize.map .num]

def readHints (j : Json) : Option BehaviorHints := do
  let [_, bingeGroup, filename, videoSize] ← readRecord hintKeys j | none
  pure { bingeGroup := ← ← str? bingeGroup, filename := ← ← str? filename, videoSize := ← int? videoSize }

theorem readHints_writeHints (h : BehaviorHints) : readHints (writeHints h) = some h := by
  rw [readHints, writeHints, readRecord_writeRecord (by simp [hintKeys]) rfl]
  simp only [bind, Option.bind, str?_some, int?_map, pure]

def keys : List String := ["url", "externalUrl", "name", "description", "subtitles", "behaviorHints"]

def write (s : StremioStream) : Json :=
  writeRecord keys [s.url.map .str, s.externalUrl.map .str, some (.str s.name), some (.str s.description),
    s.subtitles.map fun xs => .arr (xs.map Subtitle.write), s.behaviorHints.map writeHints]

def read (j : Json) : Option StremioStream := do
  let [url, externalUrl, name, description, subtitles, behaviorHints] ← readRecord keys j | none
  let behaviorHints ← match behaviorHints with
    | none => some none
    | some h => some <$> readHints h
  pure { url := ← str? url, externalUrl := ← str? externalUrl, name := ← ← str? name, description := ← ← str? description
         subtitles := ← list? Subtitle.read subtitles, behaviorHints }

theorem read_write (s : StremioStream) : read s.write = some s := by
  obtain ⟨url, externalUrl, name, description, subtitles, hints⟩ := s
  rw [read, write, readRecord_writeRecord (by simp [keys]) rfl]
  cases hints with
  | none => simp [list?_map Subtitle.read_write]
  | some h => simp [list?_map Subtitle.read_write, readHints_writeHints]

end StremioStream

/-- A list of records. -/
def Codec.jsonList {α : Type} (write : α → Json) (read : Json → Option α) (h : ∀ a, read (write a) = some a) :
    Codec (List α) :=
  Codec.json (fun as => .arr (as.map write)) (fun
    | .arr xs => xs.mapM read
    | _ => none) (mapM_map h)

/-- The add-on with these texts, and the plain versions of its other parts. -/
def Deployment.plain (settings : Settings) : Deployment where
  yarl := Yarl.plain
  sha256 := Sha256.plain
  unicode := Unicode.ascii
  text := Json.Text.python
  streams := Codec.json (fun streams => .obj [("streams".toList, .arr (streams.map StremioStream.write))]) (fun
    | .obj [(_, .arr xs)] => xs.mapM StremioStream.read
    | _ => none) (mapM_map StremioStream.read_write)
  media := Codec.jsonList PlexMediaMeta.write PlexMediaMeta.read PlexMediaMeta.read_write
  episodes := Codec.jsonList PlexEpisodeMeta.write PlexEpisodeMeta.read PlexEpisodeMeta.read_write
  settings := settings

end Plexio
