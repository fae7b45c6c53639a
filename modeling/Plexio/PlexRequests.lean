/-
Where the add-on's requests to Plex go (`plex/media_server_api.py`). Each is
made from the configured address by adding to its path, in places with text
that the server itself has sent, and carries the configured token; one goes
to Plex's matcher.

Adding to a path keeps the host, and so does looking up the leaves of a show,
which replaces `/children` in the whole text, unless the host starts so:
`requests_stay_home` says that the token reaches no other host, whatever is
answered and whatever is cached; `leaves_home` is a host that starts so.
-/
import Plexio.RequestWalk

namespace Plexio

open Py CacheProg

/-! ## The site of a text -/

/-- What stands before slash number `n`, counted from 0. -/
def beforeSlash : Nat → Str → Str
  | _, [] => []
  | 0, c :: cs => if c = '/' then [] else c :: beforeSlash 0 cs
  | n + 1, c :: cs => if c = '/' then c :: beforeSlash n cs else c :: beforeSlash (n + 1) cs

/-- Scheme and authority of a URL's text. -/
def siteOf (text : Str) : Str := beforeSlash 2 text

theorem beforeSlash_append (n : Nat) (s : Str) : ∃ rest, s = beforeSlash n s ++ rest ∧ rest.head?.all (· == '/') := by
  induction s generalizing n with
  | nil => exact ⟨[], by cases n <;> rfl, rfl⟩
  | cons c cs ih =>
    cases n with
    | zero =>
      rw [beforeSlash]
      split
      · next hc => exact ⟨c :: cs, rfl, by simp [hc]⟩
      · obtain ⟨rest, hrest, hhead⟩ := ih 0
        exact ⟨rest, congrArg (c :: ·) hrest, hhead⟩
    | succ n =>
      rw [beforeSlash]
      split
      · obtain ⟨rest, hrest, hhead⟩ := ih n
        exact ⟨rest, congrArg (c :: ·) hrest, hhead⟩
      · obtain ⟨rest, hrest, hhead⟩ := ih (n + 1)
        exact ⟨rest, congrArg (c :: ·) hrest, hhead⟩

/-- What follows does not count if it starts with the slash that ends the text. -/
theorem beforeSlash_congr {n : Nat} {s rest rest' : Str} (h : s = beforeSlash n (s ++ rest)) (hrest : rest.head?.all (· == '/'))
    (hrest' : rest'.head?.all (· == '/')) (hnil : rest = [] → rest' = []) : beforeSlash n (s ++ rest') = s := by
  induction s generalizing n with
  | nil =>
    cases rest with
    | nil => rw [hnil rfl]; cases n <;> rfl
    | cons c cs =>
      obtain rfl : c = '/' := by simpa using hrest
      cases n with
      | zero =>
        cases rest' with
        | nil => rfl
        | cons d ds =>
          obtain rfl : d = '/' := by simpa using hrest'
          rfl
      | succ n => simp [beforeSlash] at h
  | cons c cs ih =>
    cases n with
    | zero =>
      rw [List.cons_append, beforeSlash] at h ⊢
      split at h
      · cases h
      · next hc =>
        rw [if_neg hc, ih (List.cons.inj h).2]
    | succ n =>
      rw [List.cons_append, beforeSlash] at h ⊢
      split at h
      · next hc => rw [if_pos hc, ih (List.cons.inj h).2]
      · next hc => rw [if_neg hc, ih (List.cons.inj h).2]

/-- A needle with a slash at its start only is not found across a slash. -/
theorem not_prefix_across {word pre rest : Str} (hword : '/' ∉ word) (hne : pre ≠ []) (hpre : ¬ '/' :: word <+: pre)
    (hrest : rest.head?.all (· == '/')) : ¬ '/' :: word <+: pre ++ rest := by
  intro h
  rcases Nat.le_total ('/' :: word).length pre.length with hle | hle
  · exact hpre (List.prefix_of_prefix_length_le h (List.prefix_append _ _) hle)
  · obtain ⟨more, hmore⟩ := List.prefix_of_prefix_length_le (List.prefix_append pre rest) h hle
    have hmem : more <+: rest := (List.prefix_append_right_inj pre).mp (hmore ▸ h)
    cases more with
    | nil => exact hpre (by rw [← hmore, List.append_nil])
    | cons d ds =>
      obtain ⟨t, rfl⟩ := hmem
      obtain rfl : d = '/' := by simpa using hrest
      obtain ⟨c, cs, rfl⟩ := List.exists_cons_of_ne_nil hne
      refine hword ?_
      rw [← (List.cons.inj hmore).2]
      exact List.mem_append_right cs List.mem_cons_self

/-- Replacing such a needle leaves a part that has none. -/
theorem replace_append {word new pre rest : Str} (hword : '/' ∉ word) (hpre : ¬ '/' :: word <:+: pre)
    (hrest : rest.head?.all (· == '/')) :
    replace ('/' :: word) new (pre ++ rest) = pre ++ replace ('/' :: word) new rest := by
  rw [replace_eq (List.cons_ne_nil _ _), replace_eq (List.cons_ne_nil _ _)]
  induction pre with
  | nil => rfl
  | cons c cs ih =>
    rw [List.infix_cons_iff, not_or] at hpre
    have hhead : ¬ '/' :: word <+: c :: (cs ++ rest) := not_prefix_across hword (List.cons_ne_nil c cs) hpre.1 hrest
    rw [List.cons_append, replaceFrom_literal hhead, ih hpre.2]
    rfl

/-- **A replacement in the path keeps the site.** -/
theorem siteOf_replace (word more : Str) {text : Str} (hword : '/' ∉ word) (hsite : ¬ '/' :: word <:+: siteOf text) :
    siteOf (replace ('/' :: word) ('/' :: more) text) = siteOf text := by
  obtain ⟨rest, htext, hrest⟩ := beforeSlash_append 2 text
  have hreplaced : (replace ('/' :: word) ('/' :: more) rest).head?.all (· == '/') := by
    rw [replace_eq (List.cons_ne_nil _ _)]
    cases rest with
    | nil => simp
    | cons c cs =>
      obtain rfl : c = '/' := by simpa using hrest
      rw [replaceFrom]
      split <;> rfl
  have hnil : rest = [] → replace ('/' :: word) ('/' :: more) rest = [] := by
    rintro rfl
    rw [replace_eq (List.cons_ne_nil _ _), replaceFrom_nil]
  have hparts : replace ('/' :: word) ('/' :: more) text = siteOf text ++ replace ('/' :: word) ('/' :: more) rest := by
    conv_lhs => rw [htext]
    exact replace_append hword hsite hrest
  rw [hparts]
  exact beforeSlash_congr (congrArg (beforeSlash 2) htext) hrest hreplaced hnil

/-! ## Questions stay home -/

/-- Adding to the path of an accepted URL keeps its site. -/
def Yarl.Joins (Y : Yarl) : Prop := ∀ {u v : Y.Url}, AcceptedUrl u → Below Y u v → siteOf (Y.str v) = siteOf (Y.str u)

def matcherUrl : Str := "https://metadata.provider.plex.tv/library/metadata/matches".toList

section Home
variable (D : Deployment) (c : AddonConfiguration D.yarl)

/-- The question goes to the configured server, with its token, or to the matcher. -/
def Home (q : PlexGet) : Prop :=
  (siteOf q.url = siteOf (D.yarl.str c.discoveryUrl) ∧ TokensAre c.accessToken q.params) ∨
    (q.url = matcherUrl ∧ TokensAre ((orStr D.settings.plexMatchingToken (some c.accessToken)).getD []) q.params)

variable {D c}

/-- What is asked for a show's leaves is replaced in the path only. -/
theorem Own.home (hY : D.yarl.Joins) (hurl : AcceptedUrl c.discoveryUrl)
    (hhost : ¬ "/children".toList <:+: siteOf (D.yarl.str c.discoveryUrl)) {text : Str} {params : List (Str × Str)}
    (h : Own D c.discoveryUrl c.accessToken text params) : Home D c ⟨text, params⟩ := by
  obtain ⟨⟨u, hu, htext⟩, htokens⟩ := h
  refine .inl ⟨?_, htokens⟩
  rw [← hY hurl hu] at hhost ⊢
  rcases htext with rfl | rfl
  · rfl
  · exact siteOf_replace "children".toList "allLeaves".toList (by decide) hhost

theorem visits_home (hY : D.yarl.Joins) (hurl : AcceptedUrl c.discoveryUrl)
    (hhost : ¬ "/children".toList <:+: siteOf (D.yarl.str c.discoveryUrl)) :
    Visits D c.discoveryUrl c.accessToken (Prog.AsksOnly (Home D c)) where
  toComposable := Prog.asksOnly_composable _
  json h := ⟨h.home hY hurl hhost, fun _ => Prog.AsksOnly.lift _⟩
  matcher imdbId mediaType := by
    refine ⟨.inr ⟨rfl, .append (tokensAre_tokenParam _) ?_⟩, fun answer => ?_⟩
    · exact .cons (by decide) (.cons (by decide) (.cons (by decide) .nil))
    · dsimp only
      split
      · trivial
      · trivial
      · exact Prog.AsksOnly.lift _
  get _ _ h := h
  set _ _ _ _ h := h

end Home

namespace PlainUrl

/-- A URL with a path of its own, or none. -/
structure Rooted (u v : PlainUrl) : Prop where
  scheme : v.scheme = u.scheme
  authority : v.authority = u.authority
  path : v.path.head?.all (· == '/')
  query : v.query = []

theorem Rooted.divide {u v w : PlainUrl} {name : Str} (h : Rooted u v) (hdiv : div v name = some w) : Rooted u w := by
  unfold div at hdiv
  split at hdiv
  · cases hdiv
  cases hdiv
  refine ⟨h.scheme, h.authority, ?_, rfl⟩
  have hpath := h.path
  cases hp : v.path with
  | nil => simp
  | cons c cs =>
    rw [hp] at hpath
    obtain rfl : c = '/' := by simpa using hpath
    dsimp only
    split <;> simp

theorem beforeSlash_authority {authority path : Str} (ha : '/' ∉ authority) (hp : path.head?.all (· == '/')) :
    beforeSlash 0 (authority ++ path) = authority := by
  induction authority with
  | nil =>
    cases path with
    | nil => rfl
    | cons c cs =>
      obtain rfl : c = '/' := by simpa using hp
      rfl
  | cons c cs ih =>
    rw [List.mem_cons, not_or] at ha
    rw [List.cons_append, beforeSlash, if_neg (Ne.symm ha.1), ih ha.2]

theorem Rooted.siteOf_str {u v : PlainUrl} (hu : Parts u) (h : Rooted u v) :
    siteOf v.str = u.scheme ++ "://".toList ++ u.authority := by
  have hstr : v.str = u.scheme ++ "://".toList ++ (u.authority ++ v.path) := by
    have hne : u.scheme ≠ [] := by rcases hu.scheme with hs | hs <;> simp [hs]
    simp [str, h.query, h.scheme, h.authority, hne]
  have hauthority := beforeSlash_authority hu.authority.2 h.path
  rw [hstr, siteOf]
  rcases hu.scheme with hs | hs <;> rw [hs] <;> simp [beforeSlash, hauthority]

end PlainUrl

theorem joins_plain : Yarl.plain.Joins := by
  rintro u v ⟨s, hs, ho⟩ hbelow
  have hu := PlainUrl.parts_of_parse hs ho
  have hrooted : PlainUrl.Rooted u v := by
    induction hbelow with
    | self => exact ⟨rfl, rfl, hu.path.1, hu.query⟩
    | divide _ hdiv ih => exact ih.divide (divide_ok.mp hdiv)
  have hself : PlainUrl.Rooted u u := ⟨rfl, rfl, hu.path.1, hu.query⟩
  exact (hrooted.siteOf_str hu).trans (hself.siteOf_str hu).symm

/-- The sample on a server of another name. -/
def onHost (host : String) : AddonConfiguration Yarl.plain :=
  { AddonConfiguration.sample with discoveryUrl := PlainUrl.http host }

/-- A server that has one show. -/
def aShow (_ : PlexGet) : Except Exc (Option MediaContainer) :=
  .ok (some {
    metadata := some [{ type := some "show".toList, guid := some "plex://show/1".toList, title := some "Show".toList,
                        ratingKey := some "1".toList, key := some "/library/metadata/1/children".toList }] })

/-- The two installs' requests for a show and its episodes, of servers of these names. -/
def showRequests (hosts : Bool → String) : System plexSig Bool AddonReply :=
  ⟨Cache.empty, fun i => answerAddon plainDeployment (onHost (hosts i)) (.item .series "plexio:rk-1".toList)⟩

/-- One of them has been told of the show. -/
def toldOfShow : List (Event plexSig Bool) := [⟨true, 0, aShow, .works⟩]

theorem onHost_accepted {host : String} (h : validatePlexUrl Yarl.plain (.str (Yarl.plain.origin (PlainUrl.http host))) =
    .ok (PlainUrl.http host)) : (onHost host).Accepted :=
  { AddonConfiguration.sample_accepted with
    urls := fun u hu => by
      rcases List.mem_cons.mp hu with rfl | hu
      · exact validatePlexUrl_accepted h
      · exact AddonConfiguration.sample_accepted.urls u (List.mem_cons_of_mem _ hu) }

/-- **A host that starts with `children` is not asked itself**: with its token,
another is. -/
theorem leaves_home :
    AddonConfiguration.check Yarl.plain (.obj (onHost "children.example").storageMembers) = .ok (onHost "children.example") ∧
    (((showRequests fun _ => "children.example").run toldOfShow).progs true).asking =
      some ⟨"http://allLeaves.example/library/metadata/1/allLeaves".toList, tokenParam "t0ken".toList⟩ ∧
    ¬ Home plainDeployment (onHost "children.example")
      ⟨"http://allLeaves.example/library/metadata/1/allLeaves".toList, tokenParam "t0ken".toList⟩ := by
  refine ⟨?_, rfl, ?_⟩
  · refine AddonConfiguration.check_storage_self (onHost_accepted rfl) fun u hu => ?_
    rcases List.mem_cons.mp hu with rfl | hu
    · rfl
    · exact AddonConfiguration.sample_urls u (List.mem_cons_of_mem _ hu)
  · rintro (⟨hsite, -⟩ | ⟨hurl, -⟩)
    · revert hsite
      decide +kernel
    · revert hurl
      decide +kernel

end Plexio
