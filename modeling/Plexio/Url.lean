/-
URLs. The code builds and compares them with `yarl`, which is a parameter
here (`Yarl`): its operations, and the one thing about them the
configuration relies on (`Yarl.Lawful`), that the text of an accepted URL
without its trailing slashes is accepted again and is again that text.

`Yarl.plain` is a `yarl` for `http` URLs with a plain authority. It writes a
path's non-ASCII characters percent-encoded, as the real one does.
-/
import Plexio.Lib.Base64

namespace Plexio

open Py

/-- The part of `yarl.URL` the code uses. -/
structure Yarl where
  Url : Type
  /-- `URL(s)`; `none` is a `ValueError` or `TypeError`. -/
  parse : Str → Option Url
  str : Url → Str
  scheme : Url → Str
  host : Url → Option Str
  user : Url → Option Str
  password : Url → Option Str
  queryString : Url → Str
  fragment : Url → Str
  /-- `url / name`; `none` is a `ValueError`. -/
  div : Url → Str → Option Url
  /-- `url % params`. -/
  mod : Url → List (Str × Str) → Url

namespace Yarl
variable (Y : Yarl)

/-- Truthiness of an optional text. -/
def truthy : Option Str → Bool
  | some (_ :: _) => true
  | _ => false

theorem truthy_iff {o : Option Str} : truthy o = true ↔ ∃ c cs, o = some (c :: cs) := by
  rcases o with _ | _ | ⟨c, cs⟩ <;> simp [truthy]

/-- An HTTP(S) origin without credentials, query or fragment. -/
def isOrigin (u : Y.Url) : Bool :=
  (Y.scheme u == "http".toList || Y.scheme u == "https".toList) && truthy (Y.host u) && (Y.user u).isNone &&
    (Y.password u).isNone && (Y.queryString u).isEmpty && (Y.fragment u).isEmpty

/-- `str(url).rstrip('/')`, the form URLs are stored and compared in. -/
def origin (u : Y.Url) : Str := rstrip '/' (Y.str u)

/-- Normalisation is idempotent on accepted URLs, up to trailing slashes. -/
structure Lawful : Prop where
  again : ∀ s u, Y.parse s = some u → Y.isOrigin u = true →
    ∃ v, Y.parse (Y.origin u) = some v ∧ Y.isOrigin v = true ∧ Y.origin v = Y.origin u

end Yarl

/-! ## A plain one -/

/-- The parts of a plain URL. -/
structure PlainUrl where
  scheme : Str
  authority : Str
  path : Str
  query : List (Str × Str)

namespace PlainUrl

/-- A path's characters outside ASCII are percent-encoded. -/
def requotePath (s : Str) : Str := s.flatMap fun c => if c.toNat < 128 then [c] else quoteChar c

/-- The characters a path keeps when it is built from a text. -/
def isPathChar (c : Char) : Bool := isUnreserved c || "!$&'()*+,;=:@/".toList.contains c

def quotePath (s : Str) : Str := s.flatMap fun c => if isPathChar c then [c] else quoteChar c

/-- The characters a query value keeps. -/
def isQueryChar (c : Char) : Bool := isUnreserved c || "!$()*,'/?:@".toList.contains c

/-- A query value: a space is written `+`. -/
def quoteQuery (s : Str) : Str := s.flatMap fun c => if isQueryChar c then [c] else if c = ' ' then ['+'] else quoteChar c

/-- What starts a query, a fragment or ends credentials. -/
def isSpecial (c : Char) : Bool := c == '?' || c == '#' || c == '@'

/-- `http://authority/path` or a relative path; queries, fragments and
credentials are refused. -/
def parse (s : Str) : Option PlainUrl :=
  if s.any isSpecial then none
  else
    match partition "://".toList s with
    | (path, [], _) => some ⟨[], [], requotePath path, []⟩
    | (scheme, _, rest) =>
      some ⟨scheme, rest.takeWhile (· != '/'), requotePath (rest.dropWhile (· != '/')), []⟩

/-- `http://authority`. -/
def http (authority : String) : PlainUrl := ⟨"http".toList, authority.toList, [], []⟩

def pair (kv : Str × Str) : Str := quoteQuery kv.1 ++ '=' :: quoteQuery kv.2

def str (u : PlainUrl) : Str :=
  (if u.scheme.isEmpty then [] else u.scheme ++ "://".toList ++ u.authority) ++
    (if u.query.isEmpty then u.path
    else (if u.path.isEmpty then ['/'] else u.path) ++ '?' :: ['&'].intercalate (u.query.map pair))

def host (u : PlainUrl) : Option Str :=
  match u.authority.takeWhile (· != ':') with
  | [] => none
  | h => some h

/-- A path ends in one slash before a name is added to it. -/
def div (u : PlainUrl) (name : Str) : Option PlainUrl :=
  if startswith name ['/'] then none
  else
    let path := if u.path.getLast? = some '/' then u.path else u.path ++ ['/']
    some { u with path := path ++ quotePath name, query := [] }

/-- A parameter replaces the one of its name, or is added. -/
def put (q : List (Str × Str)) (kv : Str × Str) : List (Str × Str) :=
  if q.any fun p => p.1 = kv.1 then q.map fun p => if p.1 = kv.1 then kv else p else q ++ [kv]

def mod (u : PlainUrl) (params : List (Str × Str)) : PlainUrl := { u with query := params.foldl put u.query }

end PlainUrl

def Yarl.plain : Yarl where
  Url := PlainUrl
  parse := PlainUrl.parse
  str := PlainUrl.str
  scheme := PlainUrl.scheme
  host := PlainUrl.host
  user _ := none
  password _ := none
  queryString u := ['&'].intercalate (u.query.map PlainUrl.pair)
  fragment _ := []
  div := PlainUrl.div
  mod := PlainUrl.mod

namespace PlainUrl

theorem requotePath_ascii {s : Str} (h : ∀ c ∈ s, c.toNat < 128) : requotePath s = s := by
  induction s with
  | nil => rfl
  | cons c cs ih =>
    have hc := h c List.mem_cons_self
    have hcs := ih fun d hd => h d (List.mem_cons_of_mem c hd)
    simp only [requotePath, List.flatMap_cons, hc, if_true, List.singleton_append] at hcs ⊢
    rw [hcs]

theorem plain_of_isAlphanum {c : Char} (h : c.isAlphanum = true) : c.toNat < 128 ∧ isSpecial c = false := by
  refine ⟨isUrlsafe_ascii (by simp [isUrlsafe, h]), ?_⟩
  rw [← Bool.not_eq_true]
  intro hspecial
  simp only [isSpecial, Bool.or_eq_true, beq_iff_eq] at hspecial
  rcases hspecial with (rfl | rfl) | rfl <;> exact absurd h (by decide)

/-- What a requoted path is made of: its own ASCII characters, `%` and digits. -/
theorem mem_requotePath {s : Str} {c : Char} (h : c ∈ requotePath s) : c.toNat < 128 ∧ (c ∈ s ∨ isSpecial c = false) := by
  obtain ⟨d, hd, hc⟩ := List.mem_flatMap.mp h
  by_cases ha : d.toNat < 128
  · simp only [ha, if_true, List.mem_singleton] at hc
    exact ⟨hc ▸ ha, .inl (hc ▸ hd)⟩
  · simp only [ha, if_false] at hc
    rcases mem_quoteChar hc with ⟨hu, -⟩ | rfl | hdigit
    · refine absurd ?_ ha
      simp only [isUnreserved, Bool.or_eq_true, beq_iff_eq] at hu
      rcases hu with (((hu | rfl) | rfl) | rfl) | rfl
      · exact (plain_of_isAlphanum hu).1
      all_goals decide
    · exact ⟨by decide, .inr (by decide)⟩
    · exact ⟨(plain_of_isAlphanum hdigit).1, .inr (plain_of_isAlphanum hdigit).2⟩

/-- A requoted path starts as the path does. -/
theorem requotePath_head {s : Str} (h : s.head?.all (· == '/')) : (requotePath s).head?.all (· == '/') := by
  cases s with
  | nil => simp [requotePath]
  | cons c cs =>
    simp only [List.head?_cons, Option.all_some, beq_iff_eq] at h
    subst h
    simp [requotePath]

/-- The parts of an accepted plain URL. -/
structure Parts (u : PlainUrl) : Prop where
  scheme : u.scheme = "http".toList ∨ u.scheme = "https".toList
  authority : u.authority ≠ [] ∧ '/' ∉ u.authority
  path : u.path.head?.all (· == '/') ∧ ∀ c ∈ u.path, c.toNat < 128
  plain : ∀ c ∈ u.authority ++ u.path, isSpecial c = false
  query : u.query = []

theorem partition_http (rest : Str) : partition "://".toList ("http".toList ++ "://".toList ++ rest) =
    ("http".toList, "://".toList, rest) := by
  simp [partition]

theorem partition_https (rest : Str) : partition "://".toList ("https".toList ++ "://".toList ++ rest) =
    ("https".toList, "://".toList, rest) := by
  simp [partition]

theorem Parts.str_eq {u : PlainUrl} (h : Parts u) : u.str = u.scheme ++ "://".toList ++ (u.authority ++ u.path) := by
  have hne : u.scheme ≠ [] := by rcases h.scheme with hs | hs <;> simp [hs]
  simp [str, h.query, hne]

/-- The text of an accepted plain URL parses to its parts. -/
theorem Parts.parse_str {u : PlainUrl} (h : Parts u) : parse u.str = some u := by
  have hsafe : u.str.any isSpecial = false := by
    have hrest : (u.authority ++ u.path).any isSpecial = false :=
      List.any_eq_false.mpr fun c hc => by simp [h.plain c hc]
    rw [h.str_eq, List.any_append, hrest]
    rcases h.scheme with hs | hs <;> rw [hs] <;> decide
  have hpart : partition "://".toList u.str = (u.scheme, "://".toList, u.authority ++ u.path) := by
    rw [h.str_eq]
    rcases h.scheme with hs | hs <;> rw [hs]
    · exact partition_http _
    · exact partition_https _
  have hauth : ∀ c ∈ u.authority, (c != '/') = true := by
    intro c hc
    rw [bne_iff_ne]
    rintro rfl
    exact h.authority.2 hc
  have hpath : u.path.takeWhile (· != '/') = [] ∧ u.path.dropWhile (· != '/') = u.path := by
    have := h.path.1
    cases hp : u.path with
    | nil => simp
    | cons c cs =>
      simp only [hp, List.head?_cons, Option.all_some, beq_iff_eq] at this
      simp [this]
  have htake : (u.authority ++ u.path).takeWhile (· != '/') = u.authority := by
    rw [List.takeWhile_append_of_pos hauth, hpath.1, List.append_nil]
  have hdrop : (u.authority ++ u.path).dropWhile (· != '/') = u.path := by
    rw [List.dropWhile_append_of_pos hauth, hpath.2]
  have hcolon : "://".toList = ':' :: "//".toList := rfl
  rw [parse, hsafe, hpart, hcolon]
  simp only [Bool.false_eq_true, if_false, htake, hdrop, requotePath_ascii h.path.2]
  rw [← h.query]

/-- A URL that parses to an origin has plain parts. -/
theorem parts_of_parse {s : Str} {u : PlainUrl} (hp : parse s = some u) (ho : Yarl.plain.isOrigin u = true) :
    Parts u := by
  simp only [Yarl.isOrigin, Yarl.plain, Bool.and_eq_true, Bool.or_eq_true, beq_iff_eq, List.isEmpty_iff] at ho
  obtain ⟨⟨⟨⟨⟨hs, hh⟩, -⟩, -⟩, -⟩, -⟩ := ho
  simp only [parse] at hp
  split at hp
  · cases hp
  next hany =>
  rw [Bool.not_eq_true, List.any_eq_false] at hany
  split at hp
  · cases hp; simp at hs
  next scheme sep rest _ hpart =>
  cases hp
  have hrest : ∀ c ∈ rest, isSpecial c = false := fun c hc => by
    simpa using hany c ((partition_suffix hpart).subset hc)
  refine ⟨hs, ⟨?_, ?_⟩, ⟨?_, ?_⟩, ?_, rfl⟩
  · intro he
    simp only at he
    simp [host, he, Yarl.truthy] at hh
  · intro hc
    simpa using List.mem_takeWhile_imp hc
  · refine requotePath_head ?_
    have := List.head?_dropWhile_not (· != '/') rest
    cases hr : (rest.dropWhile (· != '/')).head? with
    | none => rfl
    | some c => simpa [hr] using this
  · exact fun c hc => (mem_requotePath hc).1
  · intro c hc
    rcases List.mem_append.mp hc with hc | hc
    · exact hrest c ((List.takeWhile_prefix _).subset hc)
    · rcases (mem_requotePath hc).2 with hc | hc
      · exact hrest c ((List.dropWhile_suffix _).subset hc)
      · exact hc

/-- The same URL without its trailing slashes. -/
def stripped (u : PlainUrl) : PlainUrl := { u with path := rstrip '/' u.path }

theorem Parts.stripped {u : PlainUrl} (h : Parts u) : Parts u.stripped where
  scheme := h.scheme
  authority := h.authority
  path := by
    have hsub := rstrip_isPrefix '/' u.path
    refine ⟨?_, fun c hc => h.path.2 c (hsub.subset hc)⟩
    obtain ⟨t, ht⟩ := hsub
    show (rstrip '/' u.path).head?.all (· == '/') = true
    cases hr : rstrip '/' u.path with
    | nil => rfl
    | cons c cs =>
      have := h.path.1
      rw [← ht, hr] at this
      exact this
  plain c hc := h.plain c <| by
    rcases List.mem_append.mp hc with hc | hc
    · exact List.mem_append_left _ hc
    · exact List.mem_append_right _ ((rstrip_isPrefix '/' u.path).subset hc)
  query := h.query

theorem Parts.isOrigin {u : PlainUrl} (h : Parts u) (hh : Yarl.truthy u.host = true) :
    Yarl.plain.isOrigin u = true := by
  rcases h.scheme with hs | hs <;> simp [Yarl.isOrigin, Yarl.plain, hs, hh, h.query]

/-- Stripping the text strips the path. -/
theorem Parts.origin_eq {u : PlainUrl} (h : Parts u) : Yarl.plain.origin u = u.stripped.str := by
  have hlast : (u.scheme ++ "://".toList ++ u.authority).getLast (by simp) ≠ '/' := by
    rw [List.getLast_append_of_ne_nil _ h.authority.1]
    exact fun he => h.authority.2 (he ▸ List.getLast_mem h.authority.1)
  show rstrip '/' u.str = _
  rw [h.str_eq, h.stripped.str_eq, ← List.append_assoc, rstrip_append_of_last _ hlast, ← List.append_assoc]
  rfl

end PlainUrl

/-- The plain URLs are lawful. -/
theorem Yarl.plain_lawful : Yarl.plain.Lawful where
  again s u hp ho := by
    have h := PlainUrl.parts_of_parse hp ho
    have hh : truthy u.host = true := by
      simp only [isOrigin, Bool.and_eq_true] at ho
      exact ho.1.1.1.1.2
    refine ⟨u.stripped, ?_, h.stripped.isOrigin hh, ?_⟩
    · rw [h.origin_eq]
      exact h.stripped.parse_str
    · rw [h.origin_eq]
      show rstrip '/' u.stripped.str = u.stripped.str
      rw [← h.origin_eq]
      exact rstrip_rstrip '/' _

end Plexio
