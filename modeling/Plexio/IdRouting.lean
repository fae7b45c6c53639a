/-
Which lookup an id leads to. An id made from a GUID is looked up as that
GUID, an id made from a rating key as that rating key, and what looks like
the second kind but is malformed as neither.
-/
import Plexio.Codecs
import Plexio.Storage

namespace Plexio

open Py CacheProg

/-! ## The shape of rating-key values -/

/-- Digits, or three of them. -/
theorem IsRatingKeyValue.cases {value : Str} (h : IsRatingKeyValue value) :
    isAsciiDigits value = true ∨
      ∃ k s e, isAsciiDigits k = true ∧ isAsciiDigits s = true ∧ isAsciiDigits e = true ∧ value = k ++ ':' :: s ++ ':' :: e := by
  obtain ⟨hlen, hall⟩ := h
  have hjoin := join_split ':' value
  rcases hlen with hlen | hlen
  · obtain ⟨k, hk⟩ := List.length_eq_one_iff.mp hlen
    rw [hk] at hjoin hall
    have hvalue : k = value := by simpa [List.intercalate] using hjoin
    exact .inl (hvalue ▸ hall k (by simp))
  · obtain ⟨k, s, e, hkse⟩ := List.length_eq_three.mp hlen
    rw [hkse] at hjoin hall
    have hvalue : value = k ++ ':' :: s ++ ':' :: e := by rw [← hjoin]; simp [List.intercalate]
    exact .inr ⟨k, s, e, hall k (by simp), hall s (by simp), hall e (by simp), hvalue⟩

/-- What `_resolve_stream_media` and `get_meta` test first. -/
theorem not_startswith_tt (s : Str) : startswith (plexioPrefix ++ s) "tt".toList = false := by
  have hne : ¬ "tt".toList <+: plexioPrefix ++ s := by
    intro h
    obtain ⟨hp, -⟩ := List.cons_prefix_cons.mp (show 't' :: ['t'] <+: 'p' :: ("lexio:".toList ++ s) from h)
    exact absurd hp (by decide)
  exact startswith_false.mpr hne

theorem startswith_plexio (s : Str) : startswith (plexioPrefix ++ s) "plexio:".toList = true := startswith_append _ s

theorem ratingKeyId_eq (value : Str) : plexioRatingKeyPrefix ++ value = plexioPrefix ++ ("rk-".toList ++ value) := by
  rw [ratingKeyPrefix_eq, List.append_assoc]

section Router
variable (D : Deployment) (c : AddonConfiguration D.yarl) (ns : Str) (stremioType : StremioMediaType)

theorem guidOr404_guid {guid : Str} (h : guid ≠ []) : guidOr404 (guidToPlexioId guid) = .ok guid := by
  rw [guidOr404, plexioIdToGuid_guid h]

theorem guidOr404_ratingKey (value : Str) : guidOr404 (plexioRatingKeyPrefix ++ value) = .error httpNotFound := by
  obtain ⟨m, hm⟩ := plexioIdToGuid_ratingKey value
  rw [guidOr404, hm]
  rfl

/-! ## `get_meta` -/

theorem metaMedia_guid {guid : Str} (h : guid ≠ []) :
    metaMedia D c (guidToPlexioId guid) = getMedia D c.discoveryUrl c.accessToken guid true false none := by
  have hpre : startswith (guidToPlexioId guid) "plexio:".toList = true := startswith_plexio _
  simp only [metaMedia, hpre, isRatingKeyPlexioId_guid h, guidOr404_guid h, Bool.not_true, Bool.false_eq_true, if_false]
  rfl

theorem metaMedia_ratingKey {value : Str} (h : IsRatingKeyValue value) :
    metaMedia D c (plexioRatingKeyPrefix ++ value) =
      getMediaByRatingKey D c.discoveryUrl c.accessToken value false none := by
  have hpre : startswith (plexioRatingKeyPrefix ++ value) "plexio:".toList = true :=
    ratingKeyId_eq value ▸ startswith_plexio _
  simp only [metaMedia, hpre, (isRatingKeyPlexioId_append value).mpr h, plexioIdToRatingKey_append h, Bool.not_true,
    Bool.false_eq_true, if_false, if_true]
  rfl

theorem metaMedia_malformed {value : Str} (h : isRatingKeyPlexioId (plexioRatingKeyPrefix ++ value) = false) :
    metaMedia D c (plexioRatingKeyPrefix ++ value) = .throw httpNotFound := by
  have hpre : startswith (plexioRatingKeyPrefix ++ value) "plexio:".toList = true :=
    ratingKeyId_eq value ▸ startswith_plexio _
  simp only [metaMedia, hpre, h, guidOr404_ratingKey, Bool.not_true, Bool.false_eq_true, if_false]
  rfl

/-! ## `_resolve_stream_media` -/

theorem resolveStreamMedia_guid {guid : Str} (h : guid ≠ []) :
    resolveStreamMedia D c ns stremioType (guidToPlexioId guid) =
      getMedia D c.discoveryUrl c.accessToken guid false true (some ns) := by
  have htt : startswith (guidToPlexioId guid) "tt".toList = false := not_startswith_tt _
  have hpre : startswith (guidToPlexioId guid) "plexio:".toList = true := startswith_plexio _
  simp only [resolveStreamMedia, htt, hpre, isRatingKeyPlexioId_guid h, guidOr404_guid h, Bool.false_eq_true, if_false,
    if_true]
  rfl

theorem resolveStreamMedia_ratingKeyValue {value : Str} (h : IsRatingKeyValue value) :
    resolveStreamMedia D c ns stremioType (plexioRatingKeyPrefix ++ value) =
      resolveRatingKeyStreamMedia D c ns stremioType value := by
  have htt : startswith (plexioRatingKeyPrefix ++ value) "tt".toList = false := ratingKeyId_eq value ▸ not_startswith_tt _
  simp only [resolveStreamMedia, htt, (isRatingKeyPlexioId_append value).mpr h, plexioIdToRatingKey_append h,
    Bool.false_eq_true, if_false, if_true]
  rfl

/-- A rating key alone is looked up whatever the type. -/
theorem resolveRatingKeyStreamMedia_single {k : Str} (hk : isAsciiDigits k = true) :
    resolveRatingKeyStreamMedia D c ns stremioType k =
      getMediaByRatingKey D c.discoveryUrl c.accessToken k true (some ns) := by
  cases stremioType with
  | movie => rfl
  | series => simp only [resolveRatingKeyStreamMedia, split_of_not_mem (colon_not_mem hk)]

theorem resolveStreamMedia_malformed {value : Str} (h : isRatingKeyPlexioId (plexioRatingKeyPrefix ++ value) = false) :
    resolveStreamMedia D c ns stremioType (plexioRatingKeyPrefix ++ value) = .throw httpNotFound := by
  have htt : startswith (plexioRatingKeyPrefix ++ value) "tt".toList = false := ratingKeyId_eq value ▸ not_startswith_tt _
  have hpre : startswith (plexioRatingKeyPrefix ++ value) "plexio:".toList = true :=
    ratingKeyId_eq value ▸ startswith_plexio _
  simp only [resolveStreamMedia, htt, hpre, h, guidOr404_ratingKey, Bool.false_eq_true, if_false, if_true]
  rfl

/-! ## Together -/

/-- **Plexio ids are unambiguous** and decode to what was encoded: an id made
from a GUID, from a rating key, from a rating key with season and episode,
and any other text of the rating-key family. -/
theorem plexio_ids_unambiguous :
    (∀ guid : Str, guid ≠ [] →
      isRatingKeyPlexioId (guidToPlexioId guid) = false ∧ plexioIdToGuid (guidToPlexioId guid) = .ok guid ∧
      metaMedia D c (guidToPlexioId guid) = getMedia D c.discoveryUrl c.accessToken guid true false none ∧
      resolveStreamMedia D c ns stremioType (guidToPlexioId guid) =
        getMedia D c.discoveryUrl c.accessToken guid false true (some ns)) ∧
    (∀ k : Str, isAsciiDigits k = true → ∃ id, ratingKeyToPlexioId k = .ok id ∧ isRatingKeyPlexioId id = true ∧
      plexioIdToRatingKey id = .ok k ∧
      metaMedia D c id = getMediaByRatingKey D c.discoveryUrl c.accessToken k false none ∧
      resolveStreamMedia D c ns stremioType id = getMediaByRatingKey D c.discoveryUrl c.accessToken k true (some ns)) ∧
    (∀ k s e : Str, isAsciiDigits k = true → isAsciiDigits s = true → isAsciiDigits e = true →
      let value := k ++ ':' :: s ++ ':' :: e
      isRatingKeyPlexioId (plexioRatingKeyPrefix ++ value) = true ∧
      plexioIdToRatingKey (plexioRatingKeyPrefix ++ value) = .ok value ∧
      metaMedia D c (plexioRatingKeyPrefix ++ value) =
        getMediaByRatingKey D c.discoveryUrl c.accessToken value false none ∧
      resolveStreamMedia D c ns stremioType (plexioRatingKeyPrefix ++ value) =
        resolveRatingKeyStreamMedia D c ns stremioType value) ∧
    (∀ t : Str, isAsciiDigits t = false →
      (∀ k s e : Str, isAsciiDigits k = true → isAsciiDigits s = true → isAsciiDigits e = true →
        t ≠ k ++ ':' :: s ++ ':' :: e) →
      (∃ m, plexioIdToRatingKey (plexioRatingKeyPrefix ++ t) = .error (.value m)) ∧
      (∃ m, plexioIdToGuid (plexioRatingKeyPrefix ++ t) = .error (.value m)) ∧
      metaMedia D c (plexioRatingKeyPrefix ++ t) = .throw httpNotFound ∧
      resolveStreamMedia D c ns stremioType (plexioRatingKeyPrefix ++ t) = .throw httpNotFound) := by
  refine ⟨fun guid h => ?_, fun k hk => ?_, fun k s e hk hs he => ?_, fun t ht htriple => ?_⟩
  · exact ⟨isRatingKeyPlexioId_guid h, plexioIdToGuid_guid h, metaMedia_guid D c h, resolveStreamMedia_guid D c ns _ h⟩
  · have hvalue := IsRatingKeyValue.single hk
    exact ⟨_, ratingKeyToPlexioId_ok hk, (isRatingKeyPlexioId_append k).mpr hvalue, plexioIdToRatingKey_append hvalue,
      metaMedia_ratingKey D c hvalue,
      (resolveStreamMedia_ratingKeyValue D c ns _ hvalue).trans (resolveRatingKeyStreamMedia_single D c ns _ hk)⟩
  · have hvalue := IsRatingKeyValue.triple hk hs he
    exact ⟨(isRatingKeyPlexioId_append _).mpr hvalue, plexioIdToRatingKey_append hvalue, metaMedia_ratingKey D c hvalue,
      resolveStreamMedia_ratingKeyValue D c ns _ hvalue⟩
  · have hnot : isRatingKeyPlexioId (plexioRatingKeyPrefix ++ t) = false := by
      rw [Bool.eq_false_iff]
      intro h
      rcases ((isRatingKeyPlexioId_append t).mp h).cases with hd | ⟨k, s, e, hk, hs, he, heq⟩
      · rw [ht] at hd; cases hd
      · exact htriple k s e hk hs he heq
    exact ⟨plexioIdToRatingKey_malformed hnot, plexioIdToGuid_ratingKey t, metaMedia_malformed D c hnot,
      resolveStreamMedia_malformed D c ns _ hnot⟩

/-- The ids of a local item and of an episode of it. -/
theorem plexio_ids_unambiguous_local :
    isRatingKeyPlexioId (guidToPlexioId "local://42".toList) = false ∧
      plexioIdToRatingKey (plexioRatingKeyPrefix ++ "42:1:2".toList) = .ok "42:1:2".toList := by
  obtain ⟨hguid, -, htriple, -⟩ := plexio_ids_unambiguous (Deployment.plain .default) AddonConfiguration.sample [] .series
  exact ⟨(hguid "local://42".toList (by decide)).1,
    (htriple "42".toList "1".toList "2".toList (by decide) (by decide) (by decide)).2.1⟩

end Router

end Plexio
