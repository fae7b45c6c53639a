/-
Path templates as a web framework reads them: a path is taken apart at its
slashes, and the first route of a table whose template fits has it.

A template gives back what it was filled with (`Filled.matchPieces`), and
nothing but what it can be filled with (`paramsOk_of_matchPieces`). `clash`
tells templates that cannot fit from what is known of a path's segments, so
that the routes before the one meant are ruled out by a computation
(`route_eq`).
-/
import Mathlib.Data.List.Forall2
import Plexio.Lib.Str

namespace Routes

open Py

/-- A part of a template, between two slashes. -/
inductive Piece
  | lit (text : Str)
  | param (name : Str)
  /-- A parameter and what follows it. -/
  | suffixed (name suffix : Str)
  /-- The rest of the path, slashes too, and what follows it. -/
  | rest (name suffix : Str)
  deriving DecidableEq

abbrev Template : Type := List Piece

abbrev Params : Type := List (Str × Str)

/-- A pattern's end is also found before a line feed that ends the text. -/
def chomp (s : Str) : Str := if s.getLast? = some '\n' then s.dropLast else s

def dropSuffix? (suffix s : Str) : Option Str :=
  if suffix.isSuffixOf s then some (s.take (s.length - suffix.length)) else none

/-- The segments of a path, taken for the pieces of a template. -/
def matchPieces : Template → List Str → Option Params
  | [], [] => some []
  | .lit text :: pieces, s :: segments =>
    if (if pieces = [] then chomp s else s) = text then matchPieces pieces segments else none
  | .param name :: pieces, s :: segments =>
    if s = [] then none else (matchPieces pieces segments).map ((name, s) :: ·)
  | .suffixed name suffix :: pieces, s :: segments =>
    match dropSuffix? suffix (if pieces = [] then chomp s else s) with
    | some (c :: cs) => (matchPieces pieces segments).map ((name, c :: cs) :: ·)
    | _ => none
  | [.rest name suffix], s :: segments =>
    match dropSuffix? suffix (chomp (['/'].intercalate (s :: segments))) with
    | some value => if '\n' ∈ value then none else some [(name, value)]
    | none => none
  | _, _ => none

def Template.match? (t : Template) (path : Str) : Option Params :=
  match split '/' path with
  | [] :: segments => matchPieces t segments
  | _ => none

structure Route (ε : Type) where
  template : Template
  endpoint : ε

def route {ε : Type} (table : List (Route ε)) (path : Str) : Option (ε × Params) :=
  table.findSome? fun r => (r.template.match? path).map fun params => (r.endpoint, params)

/-! ## Paths -/

/-- A path of these segments and a last part. -/
def pathOf : List Str → Str → Str
  | [], last => '/' :: last
  | s :: segments, last => '/' :: (s ++ pathOf segments last)

theorem split_pathOf {segments : List Str} (h : ∀ s ∈ segments, '/' ∉ s) (last : Str) :
    split '/' (pathOf segments last) = [] :: (segments ++ split '/' last) := by
  have happend : ∀ s : Str, '/' ∉ s → split '/' (s ++ pathOf segments last) = s :: (segments ++ split '/' last) := by
    induction segments with
    | nil => exact fun s hs => List.splitOn_append_cons_self_of_not_mem hs _
    | cons t segments ih =>
      obtain ⟨ht, hsegments⟩ := List.forall_mem_cons.mp h
      intro s hs
      have hsplit : split '/' (s ++ pathOf (t :: segments) last) = s :: split '/' (t ++ pathOf segments last) :=
        List.splitOn_append_cons_self_of_not_mem hs _
      rw [hsplit, ih hsegments t ht, List.cons_append]
  exact happend [] List.not_mem_nil

theorem match?_pathOf (t : Template) {segments : List Str} (h : ∀ s ∈ segments, '/' ∉ s) (last : Str) :
    t.match? (pathOf segments last) = matchPieces t (segments ++ split '/' last) := by
  rw [Template.match?, split_pathOf h]

theorem chomp_of_not_mem {s : Str} (h : '\n' ∉ s) : chomp s = s := by
  unfold chomp
  split
  · next hlast => exact absurd (List.mem_of_getLast? hlast) h
  · rfl

theorem dropSuffix?_append (s suffix : Str) : dropSuffix? suffix (s ++ suffix) = some s := by
  have hsuffix : suffix.isSuffixOf (s ++ suffix) = true := List.isSuffixOf_iff_suffix.mpr (List.suffix_append s suffix)
  rw [dropSuffix?, if_pos hsuffix]
  simp

theorem dropSuffix?_some {suffix s t : Str} (h : dropSuffix? suffix s = some t) : s = t ++ suffix := by
  unfold dropSuffix? at h
  split at h
  · next hsuffix =>
    obtain ⟨u, rfl⟩ := List.isSuffixOf_iff_suffix.mp hsuffix
    cases h
    simp
  · cases h

/-! ## Filled templates -/

/-- The end of a pattern is found at the end of the suffix only. -/
def EndsPlain (suffix : Str) : Prop := suffix ≠ [] ∧ suffix.getLast? ≠ some '\n'

theorem chomp_append {suffix : Str} (h : EndsPlain suffix) (s : Str) : chomp (s ++ suffix) = s ++ suffix := by
  rw [chomp, if_neg]
  rw [List.getLast?_append_of_ne_nil s h.1]
  exact h.2

/-- Segments made of a template by filling in its parameters. -/
inductive Filled : Template → List Str → Params → Prop
  | nil : Filled [] [] []
  | lit {text : Str} {pieces : Template} {segments : List Str} {params : Params} : '\n' ∉ text →
      Filled pieces segments params → Filled (.lit text :: pieces) (text :: segments) params
  | param {name value : Str} {pieces : Template} {segments : List Str} {params : Params} : value ≠ [] →
      Filled pieces segments params → Filled (.param name :: pieces) (value :: segments) ((name, value) :: params)
  | suffixed {name suffix value : Str} {pieces : Template} {segments : List Str} {params : Params} : value ≠ [] →
      EndsPlain suffix → Filled pieces segments params →
      Filled (.suffixed name suffix :: pieces) ((value ++ suffix) :: segments) ((name, value) :: params)
  | rest {name suffix value : Str} : '\n' ∉ value → EndsPlain suffix →
      Filled [.rest name suffix] (split '/' (value ++ suffix)) [(name, value)]

/-- **A template gives back what it was filled with.** -/
theorem Filled.matchPieces {t : Template} {segments : List Str} {params : Params} (h : Filled t segments params) :
    matchPieces t segments = some params := by
  induction h with
  | nil => rfl
  | lit hline hrest ih =>
    rw [Routes.matchPieces, chomp_of_not_mem hline, ite_self, if_pos rfl, ih]
  | param hvalue hrest ih => rw [Routes.matchPieces, if_neg hvalue, ih, Option.map_some]
  | @suffixed name suffix value pieces segments params hvalue hsuffix hrest ih =>
    obtain ⟨c, cs, rfl⟩ := List.exists_cons_of_ne_nil hvalue
    rw [Routes.matchPieces, chomp_append hsuffix, ite_self, dropSuffix?_append]
    dsimp only
    rw [ih, Option.map_some]
  | @rest name suffix value hvalue hsuffix =>
    have hjoin := join_split '/' (value ++ suffix)
    cases hsplit : split '/' (value ++ suffix) with
    | nil => exact absurd hsplit (List.splitOn_ne_nil _ _)
    | cons s segments =>
      rw [hsplit] at hjoin
      rw [Routes.matchPieces, hjoin, chomp_append hsuffix, dropSuffix?_append]
      exact if_neg hvalue

/-! ## What a template's parameters are -/

/-- No parameter is empty or has a slash; what is left of a path has no line feed. -/
def ParamsOk : Template → Params → Prop
  | [], params => params = []
  | .lit _ :: pieces, params => ParamsOk pieces params
  | .param name :: pieces, params | .suffixed name _ :: pieces, params =>
    ∃ value others, params = (name, value) :: others ∧ value ≠ [] ∧ '/' ∉ value ∧ ParamsOk pieces others
  | .rest name _ :: _, params => ∃ value, params = [(name, value)] ∧ '\n' ∉ value

section ParamsOk
variable {name name' suffix value : Str} {pieces : Template} {others : Params}

theorem ParamsOk.param (h : ParamsOk (.param name :: pieces) ((name', value) :: others)) :
    (value ≠ [] ∧ '/' ∉ value) ∧ ParamsOk pieces others := by
  obtain ⟨_, _, heq, hne, hslash, hothers⟩ := h
  cases heq
  exact ⟨⟨hne, hslash⟩, hothers⟩

theorem ParamsOk.suffixed (h : ParamsOk (.suffixed name suffix :: pieces) ((name', value) :: others)) :
    (value ≠ [] ∧ '/' ∉ value) ∧ ParamsOk pieces others := @ParamsOk.param name _ _ _ _ h

theorem ParamsOk.rest (h : ParamsOk (.rest name suffix :: pieces) ((name', value) :: others)) : '\n' ∉ value := by
  obtain ⟨_, heq, hline⟩ := h
  cases heq
  exact hline

end ParamsOk

/-- The names of a template's parameters. -/
def names : Template → List Str
  | [] => []
  | .lit _ :: pieces => names pieces
  | .param name :: pieces | .suffixed name _ :: pieces => name :: names pieces
  | .rest name _ :: _ => [name]

theorem ParamsOk.names {t : Template} {params : Params} (h : ParamsOk t params) : params.map Prod.fst = names t := by
  induction t generalizing params with
  | nil =>
    rw [h]
    rfl
  | cons piece pieces ih =>
    cases piece with
    | lit text => exact ih h
    | param name | suffixed name suffix =>
      obtain ⟨value, others, rfl, -, -, hothers⟩ := h
      exact congrArg (name :: ·) (ih hothers)
    | rest name suffix =>
      obtain ⟨value, rfl, -⟩ := h
      rfl

theorem mem_of_mem_chomp {s : Str} {c : Char} (h : c ∈ chomp s) : c ∈ s := by
  unfold chomp at h
  split at h
  · exact List.mem_of_mem_dropLast h
  · exact h

/-- **What fits is well formed.** -/
theorem paramsOk_of_matchPieces {t : Template} {segments : List Str} (hslash : ∀ s ∈ segments, '/' ∉ s) {params : Params}
    (h : matchPieces t segments = some params) : ParamsOk t params := by
  fun_induction matchPieces t segments generalizing params with
  | case1 => exact (Option.some.inj h).symm
  | case2 pieces s segments ih => exact ih (List.forall_mem_cons.mp hslash).2 h
  | case5 name pieces s segments hs ih =>
    obtain ⟨others, hothers, rfl⟩ := Option.map_eq_some_iff.mp h
    obtain ⟨hhead, htail⟩ := List.forall_mem_cons.mp hslash
    exact ⟨s, others, rfl, hs, hhead, ih htail hothers⟩
  | case6 name suffix pieces s segments c cs hdrop ih =>
    obtain ⟨others, hothers, rfl⟩ := Option.map_eq_some_iff.mp h
    obtain ⟨hhead, htail⟩ := List.forall_mem_cons.mp hslash
    refine ⟨c :: cs, others, rfl, List.cons_ne_nil c cs, fun hmem => hhead ?_, ih htail hothers⟩
    have hwhole : '/' ∈ (if pieces = [] then chomp s else s) := dropSuffix?_some hdrop ▸ List.mem_append_left suffix hmem
    split at hwhole
    · exact mem_of_mem_chomp hwhole
    · exact hwhole
  | case9 name suffix s segments value hdrop hnewline =>
    cases h
    exact ⟨value, rfl, hnewline⟩
  | case3 | case4 | case7 | case8 | case10 | case11 => cases h

/-! ## Templates that cannot fit -/

/-- What is known of a segment. -/
inductive Known
  | exactly (text : Str)
  | noneOf (texts : List Str)

def Known.Holds : Known → Str → Prop
  | exactly text, s => s = text
  | noneOf texts, s => s ∉ texts

/-- The template fits no path of which this is known. `more` tells whether
other segments may follow. -/
def clash : Template → List Known → Bool → Bool
  | [], [], _ => false
  | [], _ :: _, _ => true
  | _ :: _, [], more => !more
  | .rest .. :: _, _ :: _, _ => false
  | .lit text :: pieces, .exactly s :: known, more =>
    (if pieces = [] then chomp s else s) ≠ text || clash pieces known more
  | .lit text :: pieces, .noneOf texts :: known, more => (pieces ≠ [] && texts.contains text) || clash pieces known more
  | .param _ :: pieces, _ :: known, more | .suffixed .. :: pieces, _ :: known, more => clash pieces known more

/-- **A clash rules the template out.** -/
theorem matchPieces_of_clash {t : Template} {known : List Known} {more : Bool} (h : clash t known more = true)
    {front back : List Str} (hknown : List.Forall₂ Known.Holds known front) (hmore : more = false → back = []) :
    matchPieces t (front ++ back) = none := by
  fun_induction clash t known more generalizing front with
  | case1 => cases h
  | case2 =>
    cases hknown
    rfl
  | case3 piece pieces more =>
    cases hknown
    rw [hmore (by simpa using h)]
    cases piece <;> cases pieces <;> rfl
  | case4 => cases h
  | case5 text pieces s known more ih =>
    obtain ⟨s', front, hs, hfront, rfl⟩ := List.forall₂_cons_left_iff.mp hknown
    obtain rfl : s' = s := hs
    rw [List.cons_append, matchPieces]
    by_cases heq : (if pieces = [] then chomp s' else s') = text
    · rw [if_pos heq]
      exact ih (by simpa [heq] using h) hfront hmore
    · exact if_neg heq
  | case6 text pieces texts known more ih =>
    obtain ⟨s, front, hs, hfront, rfl⟩ := List.forall₂_cons_left_iff.mp hknown
    rw [List.cons_append, matchPieces]
    by_cases heq : (if pieces = [] then chomp s else s) = text
    · rw [if_pos heq]
      refine ih ?_ hfront hmore
      rcases Bool.or_eq_true _ _ ▸ h with hnone | h
      · obtain ⟨hpieces, hmem⟩ : pieces ≠ [] ∧ text ∈ texts := by simpa using hnone
        rw [if_neg hpieces] at heq
        exact absurd (heq ▸ hmem) hs
      · exact h
    · exact if_neg heq
  | case7 name pieces known known' more ih =>
    obtain ⟨s, front, hs, hfront, rfl⟩ := List.forall₂_cons_left_iff.mp hknown
    rw [List.cons_append, matchPieces, ih h hfront hmore]
    split <;> rfl
  | case8 name suffix pieces known known' more ih =>
    obtain ⟨s, front, hs, hfront, rfl⟩ := List.forall₂_cons_left_iff.mp hknown
    rw [List.cons_append, matchPieces, ih h hfront hmore]
    split <;> rfl

section Table
variable {ε : Type} {table : List (Route ε)} {path : Str} {params : Params}

/-- The first that fits has it. -/
theorem route_eq {i : Nat} {r : Route ε} (hr : table[i]? = some r)
    (hbefore : ∀ r' ∈ table.take i, r'.template.match? path = none) (hm : r.template.match? path = some params) :
    route table path = some (r.endpoint, params) := by
  obtain ⟨hi, rfl⟩ := List.getElem?_eq_some_iff.mp hr
  have htable : table = table.take i ++ table[i] :: table.drop (i + 1) := by
    rw [← List.drop_eq_getElem_cons hi, List.take_append_drop]
  have hnone : (table.take i).findSome? (fun r => (r.template.match? path).map fun params => (r.endpoint, params)) = none := by
    rw [List.findSome?_eq_none_iff]
    intro r' hr'
    rw [hbefore r' hr']
    rfl
  rw [route]
  conv_lhs => rw [htable]
  rw [List.findSome?_append, hnone, Option.none_or, List.findSome?_cons, hm]
  rfl

theorem exists_of_route {e : ε} (h : route table path = some (e, params)) :
    ∃ r ∈ table, r.endpoint = e ∧ r.template.match? path = some params := by
  obtain ⟨r, hr, hmatch⟩ := List.exists_of_findSome?_eq_some h
  obtain ⟨found, hfound, heq⟩ := Option.map_eq_some_iff.mp hmatch
  cases heq
  exact ⟨r, hr, rfl, hfound⟩

end Table

end Routes
