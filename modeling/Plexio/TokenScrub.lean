/-
What scrubbing does to a text (`serialize_stream_response` and
`deserialize_stream_response`): it is undone exactly, and it leaves no copy
of the token, in neither spelling, as long as the spellings do not overlap the
placeholders put in their place.
-/
import Plexio.StreamCache

namespace Plexio

open Py

/-- Neither text begins with an end of the other, and neither contains the other. -/
structure Separate (u v : Str) : Prop where
  tail : ∀ x, x ≠ [] → x <:+ u → ¬ x <+: v
  head : ∀ x, x ≠ [] → x <:+ v → ¬ x <+: u
  inside : ¬ u <:+: v
  outside : ¬ v <:+: u

/-- The token, in both spellings, does not overlap the placeholders. -/
structure Scrubbable (accessToken : Str) : Prop where
  raw : ∀ hold ∈ [tokenPlaceholder, encodedTokenPlaceholder], Separate accessToken hold
  encoded : ∀ hold ∈ [tokenPlaceholder, encodedTokenPlaceholder], Separate (quote accessToken) hold

theorem Separate.apart {u v : Str} (h : Separate u v) : Apart u v where
  outside := h.inside
  tail k hk := h.head (v.drop k) (List.ne_nil_of_length_pos (by rw [List.length_drop]; omega)) (List.drop_suffix k v)
  head k hk _ := by
    refine ⟨h.tail (u.drop k) (List.ne_nil_of_length_pos (by rw [List.length_drop]; omega)) (List.drop_suffix k u), ?_⟩
    exact fun hv => h.outside (hv.isInfix.trans (List.drop_suffix k u).isInfix)

/-! ## Scrubbing is undone -/

/-- **What was scrubbed comes back**, whatever the token, from every text free
of the placeholders' words. -/
theorem scrub_undone (accessToken : Str) {s : Str} (hs : ¬ tokenMark <:+: s) (hs' : ¬ encodedTokenMark <:+: s) :
    unscrub accessToken (scrub accessToken s) = s := unscrub_scrub accessToken hs hs'

/-- A token that is part of a placeholder, in a text of JSON. -/
theorem scrub_undone_underscore : unscrub "_".toList (scrub "_".toList "[\"a_b\"]".toList) = "[\"a_b\"]".toList :=
  scrub_undone "_".toList (by decide +kernel) (by decide +kernel)

/-! ## Scrubbing is thorough -/

theorem Scrubbable.not_infix_scrub {accessToken : Str} (h : Scrubbable accessToken) (hne : accessToken ≠ []) (s : Str) :
    ¬ accessToken <:+: scrub accessToken s ∧ ¬ quote accessToken <:+: scrub accessToken s := by
  have hraw : Apart accessToken tokenPlaceholder := (h.raw tokenPlaceholder (by simp)).apart
  have hencoded : ∀ hold ∈ [tokenPlaceholder, encodedTokenPlaceholder], Apart (quote accessToken) hold :=
    fun hold hmem => (h.encoded hold hmem).apart
  unfold scrub
  rw [if_neg (by simpa using hne)]
  by_cases hq : quote accessToken = accessToken
  · simp only [hq, ne_eq, not_true_eq_false, if_false, and_self]
    exact hraw.not_infix_replace_self s
  · simp only [ne_eq, hq, not_false_eq_true, if_true]
    -- The second replacement brings back none of what the first removed.
    refine ⟨hraw.not_infix_replace_self _, (hencoded tokenPlaceholder (by simp)).not_infix_replace hne ?_⟩
    exact (hencoded encodedTokenPlaceholder (by simp)).not_infix_replace_self s

/-- No eight characters of a placeholder are without an underscore. -/
theorem underscore_mem_placeholder : ∀ hold ∈ [tokenPlaceholder, encodedTokenPlaceholder],
    hold.head? = some '_' ∧ hold.getLast? = some '_' ∧
      ∀ k < hold.length, ((hold.drop k).take 8).length = 8 → '_' ∈ (hold.drop k).take 8 := by
  decide +kernel

/-- A long text without an underscore does not overlap the placeholders. -/
theorem separate_of_long {u hold : Str} (hlen : 8 ≤ u.length) (hu : '_' ∉ u)
    (hhold : hold ∈ [tokenPlaceholder, encodedTokenPlaceholder]) : Separate u hold := by
  obtain ⟨hhead, hlast, hlong⟩ := underscore_mem_placeholder hold hhold
  have hmem : '_' ∈ hold := List.mem_of_mem_head? (by rw [hhead]; rfl)
  refine ⟨fun x hx hxu hxv => ?_, fun x hx hxv hxu => ?_, fun hin => ?_, fun hout => hu (hout.subset hmem)⟩
  · -- A start of the placeholder is an underscore first.
    obtain ⟨c, cs, rfl⟩ := List.exists_cons_of_ne_nil hx
    obtain ⟨rest, rfl⟩ := hxv
    have hc : c = '_' := Option.some.inj hhead
    exact hu (hxu.subset (hc ▸ List.mem_cons_self))
  · obtain ⟨rest, rfl⟩ := hxv
    rw [List.getLast?_append_of_ne_nil _ hx] at hlast
    exact hu (hxu.subset (List.mem_of_getLast? hlast))
  · obtain ⟨before, after, rfl⟩ := hin
    have hdrop : ((before ++ u ++ after).drop before.length).take 8 = u.take 8 := by
      rw [List.append_assoc, List.drop_left, List.take_append_of_le_length hlen]
    have hmem' := hlong before.length (by simp only [List.length_append]; omega)
      (by rw [hdrop, List.length_take]; omega)
    rw [hdrop] at hmem'
    exact hu (List.mem_of_mem_take hmem')

theorem length_le_quote (s : Str) : s.length ≤ (quote s).length := by
  induction s with
  | nil => simp
  | cons c cs ih =>
    have hc : 0 < (quoteChar c).length := by
      have := List.length_pos_of_ne_nil (quote_ne_nil (List.cons_ne_nil c []))
      simpa [quote] using this
    simp only [quote, List.flatMap_cons, List.length_append, List.length_cons] at ih ⊢
    omega

/-- Quoting brings no underscore into a text. -/
theorem underscore_not_mem_quote {s : Str} (h : '_' ∉ s) : '_' ∉ quote s := by
  intro hq
  obtain ⟨c, hc, hmem⟩ := List.mem_flatMap.mp hq
  rcases mem_quoteChar hmem with ⟨-, rfl⟩ | hpercent | hdigit
  · exact h hc
  · exact absurd hpercent (by decide)
  · exact absurd hdigit (by decide)

theorem scrubbable_of_long {accessToken : Str} (hlen : 8 ≤ accessToken.length) (h : '_' ∉ accessToken) :
    Scrubbable accessToken where
  raw _ hhold := separate_of_long hlen h hhold
  encoded _ hhold := separate_of_long (hlen.trans (length_le_quote _)) (underscore_not_mem_quote h) hhold

/-- **No copy of the token is left**, raw or encoded, whatever the text, when
the token does not overlap the placeholders; and a token of eight characters
or more without an underscore does not. -/
theorem scrubbed_clean (accessToken : Str) :
    (accessToken ≠ [] → Scrubbable accessToken →
      ∀ s, ¬ accessToken <:+: scrub accessToken s ∧ ¬ quote accessToken <:+: scrub accessToken s) ∧
    (8 ≤ accessToken.length → '_' ∉ accessToken → Scrubbable accessToken) :=
  ⟨fun hne h s => h.not_infix_scrub hne s, scrubbable_of_long⟩

/-- A private token, in a URL. -/
theorem scrubbed_clean_private :
    ¬ "private-token".toList <:+: scrub "private-token".toList "?X-Plex-Token=private-token".toList :=
  ((scrubbed_clean "private-token".toList).1 (by decide +kernel)
    ((scrubbed_clean "private-token".toList).2 (by decide +kernel) (by decide +kernel)) _).1

end Plexio
