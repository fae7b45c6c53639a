/-
The ids under which Stremio knows Plex items (`models/utils.py`), and the
text helpers of that file.

An id is `plexio:` and the Base64 of a GUID, or `plexio:rk-` and a rating
key, alone or with a season and an episode number. Base64 can spell `rk-`,
but no text encodes to Base64 that begins so: the first byte would be a
UTF-8 continuation byte. That keeps the two families apart.
-/
import Plexio.Runtime

namespace Plexio

open Py

/-- `LANGUAGE_TO_EMOJI`. -/
def languageToEmoji : List (String × String) :=
  [("ps", "🇵🇰"), ("uz", "🇺🇿"), ("tk", "🇹🇲"), ("sq", "🇦🇱"), ("ar", "🇦🇪"), ("en", "🇬🇧"), ("sm", "🇼🇸"),
   ("ca", "🏴󠁥󠁳󠁣󠁴󠁿"), ("pt", "🇵🇹"), ("es", "🇪🇸"), ("gn", "🇵🇾"), ("hy", "🇦🇲"), ("ru", "🇷🇺"), ("nl", "🇳🇱"),
   ("pa", "🇮🇳"), ("de", "🇩🇪"), ("az", "🇦🇿"), ("bn", "🇧🇩"), ("be", "🇧🇾"), ("fr", "🇫🇷"), ("dz", "🇧🇹"),
   ("ay", "🇧🇴"), ("qu", "🇧🇴"), ("bs", "🇧🇦"), ("hr", "🇭🇷"), ("sr", "🇷🇸"), ("tn", "🇹🇳"), ("no", "🇧🇻"),
   ("nb", "🇧🇻"), ("nn", "🇧🇻"), ("ms", "🇲🇾"), ("bg", "🇧🇬"), ("ff", "🇸🇳"), ("rn", "🇧🇮"), ("km", "🇰🇭"),
   ("sg", "🇨🇫"), ("zh", "🇨🇳"), ("ln", "🇨🇩"), ("kg", "🇨🇬"), ("sw", "🇹🇿"), ("lu", "🇨🇩"), ("el", "🇬🇷"),
   ("tr", "🇹🇷"), ("cs", "🇨🇿"), ("sk", "🇸🇰"), ("da", "🇩🇰"), ("ti", "🇪🇷"), ("et", "🇪🇪"), ("ss", "🇸🇿"),
   ("am", "🇪🇹"), ("fo", "🇫🇴"), ("fj", "🇫🇯"), ("hi", "🇮🇳"), ("ur", "🇵🇰"), ("fi", "🇫🇮"), ("sv", "🇸🇪"),
   ("ka", "🇬🇪"), ("kl", "🇬🇱"), ("ch", "🇬🇺"), ("ht", "🇭🇹"), ("it", "🇮🇹"), ("la", "🇻🇦"), ("hu", "🇭🇺"),
   ("is", "🇮🇸"), ("id", "🇮🇩"), ("fa", "🇮🇷"), ("ku", "🇮🇶"), ("ga", "🇮🇪"), ("gv", "🇮🇲"), ("he", "🇮🇱"),
   ("ja", "🇯🇵"), ("kk", "🇰🇿"), ("ko", "🇰🇷"), ("ky", "🇰🇬"), ("lo", "🇱🇦"), ("lv", "🇱🇻"), ("st", "🇱🇸"),
   ("lt", "🇱🇹"), ("lb", "🇱🇺"), ("mg", "🇲🇬"), ("ny", "🇲🇼"), ("dv", "🇲🇻"), ("mt", "🇲🇹"), ("mh", "🇲🇭"),
   ("ro", "🇲🇩"), ("mn", "🇲🇳"), ("my", "🇲🇲"), ("af", "🇳🇦"), ("na", "🇳🇷"), ("ne", "🇳🇵"), ("mi", "🇳🇿"),
   ("mk", "🇲🇰"), ("pl", "🇵🇱"), ("rw", "🇷🇼"), ("ta", "🇮🇳"), ("sl", "🇸🇮"), ("so", "🇸🇴"), ("nr", "🇿🇦"),
   ("ts", "🇿🇦"), ("ve", "🇿🇦"), ("xh", "🇿🇦"), ("zu", "🇿🇦"), ("eu", "🇪🇸"), ("gl", "🇪🇸"), ("oc", "🇪🇸"),
   ("si", "🇱🇰"), ("tg", "🇹🇯"), ("th", "🇹🇭"), ("to", "🇹🇴"), ("uk", "🇺🇦"), ("bi", "🇻🇺"), ("vi", "🇻🇳"),
   ("sn", "🇿🇼"), ("nd", "🇿🇦")]

/-- A language's flag, or its code. -/
def getFlagEmoji (code : Str) : Str :=
  match languageToEmoji.find? (·.1.toList == code) with
  | some (_, emoji) => emoji.toList
  | none => code

def capitalize : Str → Str
  | [] => []
  | c :: cs => c.toUpper :: cs.map Char.toLower

/-- The alias of a field name. -/
def toCamel (s : Str) : Str :=
  match split '_' s with
  | [] => []
  | word :: words => word.map Char.toLower ++ words.flatMap capitalize

def plexioPrefix : Str := "plexio:".toList

def plexioRatingKeyPrefix : Str := "plexio:rk-".toList

def guidToPlexioId (guid : Str) : Str := plexioPrefix ++ rstrip '=' (urlsafeB64encode (encode guid))

def invalidGuidId : Exc := .value "Invalid Plexio GUID id".toList

def plexioIdToGuid (plexioId : Str) : Except Exc Str :=
  if !startswith plexioId plexioPrefix then .error invalidGuidId
  else
    let encodedGuid := sliceFrom plexioPrefix.length plexioId
    if encodedGuid.isEmpty then .error invalidGuidId
    else
      match urlsafeB64decode true (repad encodedGuid) with
      | .error .nonAscii => .error (.value "string argument should contain only ASCII characters".toList)
      | .error .binascii => .error invalidGuidId
      | .ok decoded =>
        match decode? decoded with
        | some guid => .ok guid
        | none => .error invalidGuidId

def ratingKeyToPlexioId (ratingKey : Str) : Except Exc Str :=
  if isAsciiDigits ratingKey then .ok (plexioRatingKeyPrefix ++ ratingKey)
  else .error (.value "Plex rating keys must be numeric".toList)

def isRatingKeyPlexioId (plexioId : Str) : Bool :=
  if !startswith plexioId plexioRatingKeyPrefix then false
  else
    let parts := split ':' (sliceFrom plexioRatingKeyPrefix.length plexioId)
    (parts.length == 1 || parts.length == 3) && parts.all isAsciiDigits

def plexioIdToRatingKey (plexioId : Str) : Except Exc Str :=
  if isRatingKeyPlexioId plexioId then .ok (sliceFrom plexioRatingKeyPrefix.length plexioId)
  else .error (.value "Invalid Plexio rating-key id".toList)

/-! ## GUID ids -/

theorem startswith_append (p s : Str) : startswith (p ++ s) p = true := startswith_iff.mpr (List.prefix_append p s)

theorem sliceFrom_append (p s : Str) : sliceFrom p.length (p ++ s) = s := List.drop_left

theorem rstrip_urlsafe_ne_nil {guid : Str} (h : guid ≠ []) : rstrip '=' (urlsafeB64encode (encode guid)) ≠ [] := by
  intro he
  have := urlsafeB64decode_repad true (encode guid)
  rw [he] at this
  have hempty : urlsafeB64decode true (repad []) = .ok [] := rfl
  rw [hempty, Except.ok.injEq] at this
  exact encode_ne_nil h this.symm

/-- **Decoding gives the GUID back.** -/
theorem plexioIdToGuid_guid {guid : Str} (h : guid ≠ []) : plexioIdToGuid (guidToPlexioId guid) = .ok guid := by
  rw [plexioIdToGuid, guidToPlexioId, startswith_append, sliceFrom_append]
  simp [rstrip_urlsafe_ne_nil h, urlsafeB64decode_repad, decode?_encode]

/-! ## Base64 that begins with `rk-` -/

theorem ratingKeyPrefix_eq : plexioRatingKeyPrefix = plexioPrefix ++ "rk-".toList := rfl

/-- `rk` stands for a first byte that continues a character. -/
theorem decode?_rk {strict : Bool} {cs : Str} {bs : Bytes} (h : a2bBase64 strict ('r' :: 'k' :: cs) = some bs) :
    decode? bs = none := by
  obtain ⟨t, rfl⟩ := a2bBase64_head (by decide) (by decide) (rfl : sextet? 'r' = some 43) (rfl : sextet? 'k' = some 36) h
  exact decode?_continuation ⟨by decide, by decide⟩

theorem urlsafeB64decode_rk {strict : Bool} {cs : Str} {bs : Bytes}
    (h : urlsafeB64decode strict ('r' :: 'k' :: cs) = .ok bs) : decode? bs = none := by
  simp only [urlsafeB64decode] at h
  split at h
  · split at h
    · next hb => cases h; exact decode?_rk hb
    · cases h
  · cases h

/-- No id of the rating-key family decodes to a GUID. -/
theorem plexioIdToGuid_ratingKey (t : Str) : ∃ m, plexioIdToGuid (plexioRatingKeyPrefix ++ t) = .error (.value m) := by
  rw [ratingKeyPrefix_eq, List.append_assoc, plexioIdToGuid, startswith_append, sliceFrom_append]
  have hrk : repad ("rk-".toList ++ t) = 'r' :: 'k' :: ('-' :: t ++ List.replicate ((4 - ("rk-".toList ++ t).length % 4) % 4) '=') := rfl
  have hne : ("rk-".toList ++ t).isEmpty = false := rfl
  simp only [Bool.not_true, Bool.false_eq_true, if_false, hne, hrk]
  split
  · exact ⟨_, rfl⟩
  · exact ⟨_, rfl⟩
  · next bs hd => rw [urlsafeB64decode_rk hd]; exact ⟨_, rfl⟩

/-- An id made from a GUID is not of the rating-key family. -/
theorem guidToPlexioId_not_ratingKey {guid : Str} (h : guid ≠ []) :
    ¬ plexioRatingKeyPrefix <+: guidToPlexioId guid := by
  rintro ⟨t, ht⟩
  obtain ⟨m, hm⟩ := plexioIdToGuid_ratingKey t
  rw [ht, plexioIdToGuid_guid h] at hm
  cases hm

theorem isRatingKeyPlexioId_guid {guid : Str} (h : guid ≠ []) : isRatingKeyPlexioId (guidToPlexioId guid) = false := by
  rw [isRatingKeyPlexioId, startswith_false.mpr (guidToPlexioId_not_ratingKey h)]
  rfl

/-! ## Rating-key ids -/

/-- A rating-key value: digits, or three of them. -/
def IsRatingKeyValue (value : Str) : Prop :=
  ((split ':' value).length = 1 ∨ (split ':' value).length = 3) ∧ ∀ part ∈ split ':' value, isAsciiDigits part = true

theorem isRatingKeyPlexioId_append (value : Str) :
    isRatingKeyPlexioId (plexioRatingKeyPrefix ++ value) = true ↔ IsRatingKeyValue value := by
  simp [isRatingKeyPlexioId, startswith_append, sliceFrom_append, IsRatingKeyValue]

theorem colon_not_mem {s : Str} (h : isAsciiDigits s = true) : ':' ∉ s := not_mem_of_isAsciiDigits h (by decide)

theorem IsRatingKeyValue.single {k : Str} (hk : isAsciiDigits k = true) : IsRatingKeyValue k := by
  rw [IsRatingKeyValue, split_of_not_mem (colon_not_mem hk)]
  simp [hk]

theorem split_triple {k s e : Str} (hk : isAsciiDigits k = true) (hs : isAsciiDigits s = true)
    (he : isAsciiDigits e = true) : split ':' (k ++ ':' :: s ++ ':' :: e) = [k, s, e] := by
  have hjoin : k ++ ':' :: s ++ ':' :: e = [':'].intercalate [k, s, e] := by simp [List.intercalate]
  rw [hjoin]
  refine split_join ?_ (by simp)
  simp only [List.mem_cons, List.not_mem_nil, or_false, forall_eq_or_imp, forall_eq]
  exact ⟨colon_not_mem hk, colon_not_mem hs, colon_not_mem he⟩

theorem IsRatingKeyValue.triple {k s e : Str} (hk : isAsciiDigits k = true) (hs : isAsciiDigits s = true)
    (he : isAsciiDigits e = true) : IsRatingKeyValue (k ++ ':' :: s ++ ':' :: e) := by
  rw [IsRatingKeyValue, split_triple hk hs he]
  simp [hk, hs, he]

theorem plexioIdToRatingKey_append {value : Str} (h : IsRatingKeyValue value) :
    plexioIdToRatingKey (plexioRatingKeyPrefix ++ value) = .ok value := by
  rw [plexioIdToRatingKey, if_pos ((isRatingKeyPlexioId_append value).mpr h), sliceFrom_append]

theorem plexioIdToRatingKey_malformed {id : Str} (h : isRatingKeyPlexioId id = false) :
    ∃ m, plexioIdToRatingKey id = .error (.value m) := by
  rw [plexioIdToRatingKey, h]
  exact ⟨_, rfl⟩

theorem ratingKeyToPlexioId_ok {k : Str} (hk : isAsciiDigits k = true) :
    ratingKeyToPlexioId k = .ok (plexioRatingKeyPrefix ++ k) := if_pos hk

end Plexio
