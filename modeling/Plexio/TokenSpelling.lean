/-
The token as the stream URLs spell it. `yarl` writes it into a query, and its
encoding differs from `quote`: it keeps some characters that `quote` encodes,
and writes a space as `+`. The scrubber removes the raw token and the one
`quote` spells, so a token with characters of both kinds stays in what is
stored.

`urls_spelled` says that every URL built with a token spells it one way, and
`spelling_known` for which tokens that is one of the scrubber's two.
-/
import Plexio.Lib.Dict
import Plexio.PlayRoute
import Plexio.TokenScrub

namespace Plexio

open Py Json

/-- What is documented of `url / name % params`: the parameters are written
after the URL's path, each as its name and value, one given again in place of
the earlier. -/
structure Yarl.WritesQuery (Y : Yarl) : Prop where
  written : ∀ s u name v, Y.parse s = some u → Y.div u name = some v → ∃ path, '?' ∉ path ∧
    ∀ pss : List (List (Str × Str)), pss.flatten ≠ [] →
      Y.str (pss.foldl Y.mod v) = path ++ '?' :: ['&'].intercalate ((pss.flatten.foldl PlainUrl.put []).map PlainUrl.pair)

def tokenKey : Str := "X-Plex-Token".toList

/-- The text in a URL that stands for the token: the rest of the parameter of its name. -/
def tokenText (url : Str) : Option Str :=
  ((split '&' (partition ['?'] url).2.2).find? fun part => startswith part (tokenKey ++ ['='])).map
    (sliceFrom (tokenKey.length + 1))

namespace PlainUrl

/-! ## What a query value is written as -/

/-- One character of a query value. -/
def quoteQueryChar (c : Char) : Str := if isQueryChar c then [c] else if c = ' ' then ['+'] else quoteChar c

theorem quoteQuery_cons (c : Char) (cs : Str) : quoteQuery (c :: cs) = quoteQueryChar c ++ quoteQuery cs := rfl

theorem isQueryChar_of_isUnreserved {c : Char} (h : isUnreserved c = true) : isQueryChar c = true := by
  simp [isQueryChar, h]

/-- What is not kept and no blank starts with a percent sign. -/
theorem quoteChar_percent {c : Char} (h : isUnreserved c = false) : ∃ d e rest, quoteChar c = '%' :: d :: e :: rest := by
  unfold quoteChar
  rw [h]
  cases hb : String.utf8EncodeChar c with
  | nil => exact absurd hb String.utf8EncodeChar_ne_nil
  | cons b bs => exact ⟨_, _, _, rfl⟩

/-- A character is kept, a blank, or written as a percent sign and more. -/
theorem quoteQueryChar_cases (c : Char) :
    (isQueryChar c = true ∧ quoteQueryChar c = [c]) ∨ (c = ' ' ∧ quoteQueryChar c = ['+']) ∨
      (isQueryChar c = false ∧ c ≠ ' ' ∧ quoteQueryChar c = quoteChar c ∧
        ∃ d e rest, quoteQueryChar c = '%' :: d :: e :: rest) := by
  unfold quoteQueryChar
  by_cases hc : isQueryChar c = true
  · exact .inl ⟨hc, if_pos hc⟩
  · rw [if_neg hc]
    by_cases hs : c = ' '
    · exact .inr (.inl ⟨hs, if_pos hs⟩)
    · rw [if_neg hs]
      have hu : isUnreserved c = false := by
        rw [← Bool.not_eq_true]
        exact fun h => hc (isQueryChar_of_isUnreserved h)
      exact .inr (.inr ⟨by simpa using hc, hs, rfl, quoteChar_percent hu⟩)

theorem length_le_quoteQuery (s : Str) : s.length ≤ (quoteQuery s).length := by
  induction s with
  | nil => simp
  | cons c cs ih =>
    have hc : 0 < (quoteQueryChar c).length := by
      rcases quoteQueryChar_cases c with ⟨-, h⟩ | ⟨-, h⟩ | ⟨-, -, -, d, e, rest, h⟩ <;> simp [h]
    rw [quoteQuery_cons, List.length_append, List.length_cons]
    omega

/-- **Kept whole**: the raw text, exactly when every character is kept. -/
theorem quoteQuery_eq_self_iff {s : Str} : quoteQuery s = s ↔ ∀ c ∈ s, isQueryChar c = true := by
  induction s with
  | nil => simp [quoteQuery]
  | cons c cs ih =>
    rw [quoteQuery_cons, List.forall_mem_cons]
    rcases quoteQueryChar_cases c with ⟨hc, h⟩ | ⟨rfl, h⟩ | ⟨hc, -, -, d, e, rest, h⟩
    · rw [h, List.singleton_append, List.cons.injEq, ih]
      simp [hc]
    · rw [h]
      simp [isQueryChar, isUnreserved]
    · rw [hc]
      refine ⟨fun heq => ?_, fun hfalse => by simp at hfalse⟩
      -- The percent sign and its digits make the text longer.
      have hlen := congrArg List.length heq
      have := length_le_quoteQuery cs
      rw [h] at hlen
      simp only [List.length_append, List.length_cons] at hlen
      omega

/-- Where `yarl` and `quote` differ. -/
def Differs (c : Char) : Prop := c = ' ' ∨ c ∈ "!$()*,'/?:@".toList

instance (c : Char) : Decidable (Differs c) := inferInstanceAs (Decidable (_ ∨ _))

theorem differs_kept {c : Char} (h : c ∈ "!$()*,'/?:@".toList) : isQueryChar c = true ∧ isUnreserved c = false ∧ c ≠ '%' := by
  have hall : "!$()*,'/?:@".toList.all (fun c => isQueryChar c && !isUnreserved c && c != '%') = true := by decide +kernel
  have hc := List.all_eq_true.mp hall c h
  simp only [Bool.and_eq_true, Bool.not_eq_true', bne_iff_ne] at hc
  exact ⟨hc.1.1, hc.1.2, hc.2⟩

/-- A character is written alike, or both start differently. -/
theorem quoteQueryChar_quoteChar (c : Char) :
    (¬ Differs c ∧ quoteQueryChar c = quoteChar c) ∨
      (Differs c ∧ ∃ d, d ≠ '%' ∧ quoteQueryChar c = [d] ∧ ∃ rest, quoteChar c = '%' :: rest) := by
  by_cases hd : Differs c
  · refine .inr ⟨hd, ?_⟩
    rcases hd with rfl | hmem
    · exact ⟨'+', by decide, by decide +kernel, _, rfl⟩
    · obtain ⟨hkept, hun, hne⟩ := differs_kept hmem
      obtain ⟨d, e, rest, hrest⟩ := quoteChar_percent hun
      exact ⟨c, hne, if_pos hkept, _, hrest⟩
  · refine .inl ⟨hd, ?_⟩
    obtain ⟨hs, hmem⟩ := not_or.mp hd
    unfold quoteQueryChar isQueryChar quoteChar
    have hcontains : "!$()*,'/?:@".toList.contains c = false := by simpa using hmem
    rw [hcontains, Bool.or_false, if_neg hs]
    split <;> rfl

/-- **Spelled alike**, exactly when no character is one they differ on. -/
theorem quoteQuery_eq_quote_iff {s : Str} : quoteQuery s = quote s ↔ ∀ c ∈ s, ¬ Differs c := by
  induction s with
  | nil => simp [quoteQuery, quote]
  | cons c cs ih =>
    have hquote : quote (c :: cs) = quoteChar c ++ quote cs := rfl
    rw [quoteQuery_cons, hquote, List.forall_mem_cons]
    rcases quoteQueryChar_quoteChar c with ⟨hd, h⟩ | ⟨hd, d, hne, h, rest, hrest⟩
    · rw [h, List.append_cancel_left_eq, ih]
      simp [hd]
    · rw [h, hrest]
      simp [hd, hne]

/-! ## A parameter in a query -/

/-- What a written value is made of. -/
theorem mem_quoteQuery {s : Str} {d : Char} (h : d ∈ quoteQuery s) : isQueryChar d = true ∨ d = '+' ∨ d = '%' := by
  obtain ⟨c, -, hd⟩ := List.mem_flatMap.mp h
  change d ∈ quoteQueryChar c at hd
  rcases quoteQueryChar_cases c with ⟨hc, hq⟩ | ⟨-, hq⟩ | ⟨-, -, hq, -⟩
  · rw [hq, List.mem_singleton] at hd
    exact .inl (hd ▸ hc)
  · rw [hq, List.mem_singleton] at hd
    exact .inr (.inl hd)
  · rw [hq] at hd
    rcases mem_quoteChar hd with ⟨hu, rfl⟩ | rfl | hdigit
    · exact .inl (isQueryChar_of_isUnreserved hu)
    · exact .inr (.inr rfl)
    · exact .inl (isQueryChar_of_isUnreserved (by simp [isUnreserved, hdigit]))

theorem equals_not_mem (s : Str) : '=' ∉ quoteQuery s := fun h => absurd (mem_quoteQuery h) (by decide)

theorem amp_not_mem_pair (kv : Str × Str) : '&' ∉ pair kv := by
  have hvalue : ∀ s, '&' ∉ quoteQuery s := fun s h => absurd (mem_quoteQuery h) (by decide)
  simp only [pair, List.mem_append, List.mem_cons, not_or]
  exact ⟨hvalue _, by decide, hvalue _⟩

/-- A value written without `+` and `%` is the value. -/
theorem eq_of_quoteQuery {s : Str} (hplus : '+' ∉ quoteQuery s) (hpercent : '%' ∉ quoteQuery s) : quoteQuery s = s := by
  refine quoteQuery_eq_self_iff.mpr fun c hc => ?_
  have hmem : ∀ d ∈ quoteQueryChar c, d ∈ quoteQuery s := fun d hd => List.mem_flatMap.mpr ⟨c, hc, hd⟩
  rcases quoteQueryChar_cases c with ⟨hkept, -⟩ | ⟨-, h⟩ | ⟨-, -, -, d, e, rest, h⟩
  · exact hkept
  · exact absurd (hmem '+' (by rw [h]; exact List.mem_cons_self)) hplus
  · exact absurd (hmem '%' (by rw [h]; exact List.mem_cons_self)) hpercent

/-- A text up to its first `=` is told by it. -/
theorem prefix_equals {a b v : Str} (ha : '=' ∉ a) (hb : '=' ∉ b) (h : a ++ ['='] <+: b ++ '=' :: v) : a = b := by
  induction a generalizing b with
  | nil =>
    cases b with
    | nil => rfl
    | cons d ds =>
      rw [List.nil_append, List.cons_append, List.cons_prefix_cons] at h
      exact absurd (h.1 ▸ List.mem_cons_self) hb
  | cons c cs ih =>
    cases b with
    | nil =>
      rw [List.nil_append, List.cons_append, List.cons_prefix_cons] at h
      exact absurd (h.1 ▸ List.mem_cons_self) ha
    | cons d ds =>
      rw [List.cons_append, List.cons_append, List.cons_prefix_cons] at h
      obtain ⟨rfl, h⟩ := h
      rw [ih (fun hm => ha (List.mem_cons_of_mem _ hm)) (fun hm => hb (List.mem_cons_of_mem _ hm)) h]

theorem tokenKey_plain : '=' ∉ tokenKey ∧ '+' ∉ tokenKey ∧ '%' ∉ tokenKey ∧ quoteQuery tokenKey = tokenKey := by
  decide +kernel

/-- The parameter found under the token's name is the token's. -/
theorem startswith_pair (kv : Str × Str) : startswith (pair kv) (tokenKey ++ ['=']) = (kv.1 == tokenKey) := by
  obtain ⟨hequals, hplus, hpercent, hself⟩ := tokenKey_plain
  rw [Bool.eq_iff_iff, startswith_iff, beq_iff_eq]
  constructor
  · intro h
    have hkey : tokenKey = quoteQuery kv.1 := prefix_equals hequals (equals_not_mem kv.1) h
    have hwhole : quoteQuery kv.1 = kv.1 := eq_of_quoteQuery (hkey ▸ hplus) (hkey ▸ hpercent)
    exact (hkey.trans hwhole).symm
  · intro h
    rw [pair, h, hself]
    exact ⟨quoteQuery kv.2, by rw [List.append_assoc]; rfl⟩

theorem sliceFrom_pair (value : Str) : sliceFrom (tokenKey.length + 1) (pair (tokenKey, value)) = quoteQuery value := by
  have hpair : pair (tokenKey, value) = (tokenKey ++ ['=']) ++ quoteQuery value := by
    rw [pair, tokenKey_plain.2.2.2, List.append_assoc]
    rfl
  rw [hpair, sliceFrom]
  exact List.drop_left' (by simp)

/-- The token's parameter among others, found by its name. -/
theorem find_pair (query : List (Str × Str)) :
    ((query.map pair).find? fun part => startswith part (tokenKey ++ ['='])).map (sliceFrom (tokenKey.length + 1)) =
      (query.lookup tokenKey).map quoteQuery := by
  induction query with
  | nil => rfl
  | cons kv query ih =>
    obtain ⟨key, value⟩ := kv
    rw [List.map_cons, List.find?_cons, startswith_pair, List.lookup_cons]
    by_cases h : key = tokenKey
    · subst h
      simp [sliceFrom_pair]
    · have hne : (tokenKey == key) = false := beq_false_of_ne (Ne.symm h)
      rw [beq_false_of_ne h, hne]
      exact ih

/-- The token's text in a URL that is a path and these parameters. -/
theorem tokenText_query {path : Str} (h : '?' ∉ path) {query : List (Str × Str)} (hne : query ≠ []) :
    tokenText (path ++ '?' :: ['&'].intercalate (query.map pair)) = (query.lookup tokenKey).map quoteQuery := by
  have hparts : ∀ p ∈ query.map pair, '&' ∉ p := by
    intro p hp
    obtain ⟨kv, -, rfl⟩ := List.mem_map.mp hp
    exact amp_not_mem_pair kv
  rw [tokenText, partition_append h, split_join hparts (by simpa using hne), find_pair]

/-! ## Parameters put one after the other -/

theorem lookup_put (query : List (Str × Str)) (kv : Str × Str) (key : Str) :
    (put query kv).lookup key = if key = kv.1 then some kv.2 else query.lookup key := lookup_upsert query kv key

theorem foldl_put_ne_nil {params : List (Str × Str)} (h : params ≠ []) (query : List (Str × Str)) :
    params.foldl put query ≠ [] := by
  induction params using List.reverseRecOn with
  | nil => exact absurd rfl h
  | append_singleton params kv _ =>
    rw [List.foldl_append]
    exact upsert_ne_nil _ kv

/-- A parameter stays as other ones are put after it. -/
theorem lookup_foldl_put {key : Str} {params : List (Str × Str)} (h : ∀ kv ∈ params, kv.1 ≠ key) (query : List (Str × Str)) :
    (params.foldl put query).lookup key = query.lookup key := by
  induction params generalizing query with
  | nil => rfl
  | cons kv params ih =>
    rw [List.foldl_cons, ih (fun kv' h' => h kv' (List.mem_cons_of_mem _ h')), lookup_put,
      if_neg (h kv List.mem_cons_self).symm]

end PlainUrl

/-! ## The URLs of a stream -/

/-- Direct Play, by the words of its group. -/
def StremioStream.isDirectPlay (stream : StremioStream) : Bool :=
  stream.behaviorHints.any fun hints => startswith hints.bingeGroup "Direct Play".toList

/-- The stream's URLs that are built with the token: its subtitles', and its
own, unless Direct Play goes through the proxy. -/
def StremioStream.tokenUrls (playPrefix : Option Str) (stream : StremioStream) : List Str :=
  (if Yarl.truthy playPrefix && stream.isDirectPlay then [] else stream.url.toList) ++
    (stream.subtitles.getD []).map (·.url)

/-- The token stands in the URL as the scrubber spells it. -/
def KnownSpelling (accessToken url : Str) : Prop :=
  ∃ text, tokenText url = some text ∧ (text = accessToken ∨ text = quote accessToken)

/-- `yarl` keeps every character of the token, or writes every one as `quote` does. -/
def SpelledAlike (accessToken : Str) : Prop :=
  (∀ ch ∈ accessToken, PlainUrl.isQueryChar ch = true) ∨ ∀ ch ∈ accessToken, ¬ PlainUrl.Differs ch

/-- The token stands in the URL as `yarl` spells it. -/
def Carries (accessToken url : Str) : Prop := tokenText url = some (PlainUrl.quoteQuery accessToken)

instance (accessToken : Str) : Decidable (SpelledAlike accessToken) :=
  decidable_of_iff (accessToken.all PlainUrl.isQueryChar = true ∨
    accessToken.all (fun ch => !decide (PlainUrl.Differs ch)) = true) (by simp [SpelledAlike])

theorem Carries.known_iff {accessToken url : Str} (h : Carries accessToken url) :
    KnownSpelling accessToken url ↔ SpelledAlike accessToken := by
  unfold KnownSpelling SpelledAlike
  rw [h, ← PlainUrl.quoteQuery_eq_self_iff, ← PlainUrl.quoteQuery_eq_quote_iff]
  simp

section Streams
variable {Y : Yarl} {U : Unicode} {c : AddonConfiguration Y} {item : PlexMediaMeta} {playPrefix : Option Str}

/-- Made from a text. -/
def Parsed (u : Y.Url) : Prop := ∃ s, Y.parse s = some u

theorem carries_of_lookup (hQ : Y.WritesQuery) {base url : Y.Url} (hbase : Parsed base) {name : Str}
    (hurl : divide base name = .ok url) (pss : List (List (Str × Str))) {accessToken : Str}
    (h : (pss.flatten.foldl PlainUrl.put []).lookup tokenKey = some accessToken) :
    Carries accessToken (Y.str (pss.foldl Y.mod url)) := by
  obtain ⟨s, hs⟩ := hbase
  obtain ⟨path, hpath, hwritten⟩ := hQ.written s base name url hs (divide_ok.mp hurl)
  have hne : pss.flatten ≠ [] := by
    intro hnil
    rw [hnil] at h
    cases h
  rw [Carries, hwritten pss hne, PlainUrl.tokenText_query hpath (PlainUrl.foldl_put_ne_nil hne []), h]
  rfl

/-- A URL with the token for its only parameter. -/
theorem carries_tokenParam (hQ : Y.WritesQuery) {base url : Y.Url} (hbase : Parsed base) {name : Str}
    (hurl : divide base name = .ok url) (accessToken : Str) :
    Carries accessToken (Y.str (Y.mod url (tokenParam accessToken))) := by
  refine carries_of_lookup hQ hbase hurl [tokenParam accessToken] ?_
  show (PlainUrl.put [] (tokenKey, accessToken)).lookup tokenKey = some accessToken
  rw [PlainUrl.lookup_put, if_pos rfl]

theorem carries_subtitles (hQ : Y.WritesQuery) {base : Y.Url} (hbase : Parsed base) {streams : List PartStream}
    {accessToken : Str} {subtitles : List Subtitle} (h : externalSubtitles streams base accessToken = .ok subtitles) :
    ∀ x ∈ subtitles, Carries accessToken x.url := by
  intro x hx
  obtain ⟨stream, -, hstream⟩ := exists_of_forall₂ (mapM_ok.mp h) x hx
  obtain ⟨_, -, hstream⟩ := bind_ok.mp hstream
  obtain ⟨_, -, hstream⟩ := bind_ok.mp hstream
  obtain ⟨_, -, hstream⟩ := bind_ok.mp hstream
  obtain ⟨_, -, hstream⟩ := bind_ok.mp hstream
  obtain ⟨url, hurl, hstream⟩ := bind_ok.mp hstream
  cases hstream
  exact carries_tokenParam hQ hbase hurl accessToken

/-- A stream's URLs, given its own. -/
theorem Source.carries (hQ : Y.WritesQuery) {source : Source} {quality url : Str} {base : Y.Url} (hbase : Parsed base)
    {s : StremioStream} (h : source.stream c quality url base = .ok s)
    (hurl : Yarl.truthy playPrefix = true ∧ startswith quality "Direct Play".toList = true ∨ Carries c.accessToken url) :
    ∀ u ∈ s.tokenUrls playPrefix, Carries c.accessToken u := by
  obtain ⟨_, -, h⟩ := bind_ok.mp h
  obtain ⟨subtitles, hsubtitles, hs⟩ := bind_ok.mp h
  cases hs
  intro u hu
  rcases List.mem_append.mp hu with hu | hu
  · rcases hurl with ⟨htruthy, hdirect⟩ | hurl
    · rw [htruthy, StremioStream.isDirectPlay, Option.any_some, hdirect] at hu
      cases hu
    · split at hu
      · cases hu
      · rw [List.mem_singleton.mp hu]
        exact hurl
  · obtain ⟨x, hx, rfl⟩ := List.mem_map.mp hu
    exact carries_subtitles hQ hbase hsubtitles x hx

theorem parsed_of_deduplicate {seen : List Str} {xs l : List (Y.Url × PlexConnectionKind)}
    (h : AddonConfiguration.deduplicate seen xs = .ok l) : ∀ x ∈ l, Parsed x.1 := by
  induction xs generalizing seen l with
  | nil => cases h; exact nofun
  | cons x xs ih =>
    rw [AddonConfiguration.deduplicate] at h
    split at h
    · exact ih h
    · split at h
      · cases h
      · next u hu =>
        obtain ⟨us, hus, h⟩ := bind_ok.mp h
        cases h
        exact List.forall_mem_cons.mpr ⟨⟨_, hu⟩, ih hus⟩

theorem carries_directPlay (hQ : Y.WritesQuery) {media : Version} {source : Source} {streams : List StremioStream}
    (h : item.directPlayStreams c playPrefix media source = .ok streams) :
    ∀ s ∈ streams, ∀ u ∈ s.tokenUrls playPrefix, Carries c.accessToken u := by
  obtain ⟨connections, hconnections, h⟩ := bind_ok.mp h
  dsimp only at h
  intro s hs
  obtain ⟨⟨⟨streamBase, kind⟩, i⟩, hmem, hstream⟩ := exists_of_forall₂ (mapM_ok.mp h) s hs
  have hbase : Parsed streamBase := by
    have hmem := List.fst_mem_of_mem_zipIdx hmem
    refine parsed_of_deduplicate hconnections (streamBase, kind) ?_
    split at hmem
    · exact List.mem_of_mem_take hmem
    · exact hmem
  obtain ⟨⟨url, label⟩, hurl, hstream⟩ := bind_ok.mp hstream
  refine Source.carries hQ hbase hstream ?_
  rw [PlexMediaMeta.directPlayUrl] at hurl
  split at hurl
  · next htruthy =>
    refine .inl ⟨htruthy, startswith_iff.mpr ?_⟩
    rw [List.append_assoc, List.append_assoc]
    exact List.prefix_append _ _
  · obtain ⟨_, -, hurl⟩ := bind_ok.mp hurl
    obtain ⟨url', hurl', hurl⟩ := bind_ok.mp hurl
    cases hurl
    exact .inr (carries_tokenParam hQ hbase hurl' c.accessToken)

/-- A transcode's URL, with more parameters of other names. -/
theorem carries_transcode (hQ : Y.WritesQuery) (hbase : Parsed c.streamingUrl) {i : Nat} {url : Y.Url}
    (h : item.transcodeUrl c i = .ok url) {more : List (Str × Str)} (hmore : ∀ kv ∈ more, kv.1 ≠ tokenKey) :
    Carries c.accessToken (Y.str (Y.mod url more)) := by
  obtain ⟨start, hstart, h⟩ := bind_ok.mp h
  split at h
  · cases h
  next key _ =>
  cases h
  refine carries_of_lookup hQ hbase hstart [_, more] ?_
  rw [List.flatten_cons, List.flatten_singleton, List.foldl_append, PlainUrl.lookup_foldl_put hmore]
  -- The token is the last of the transcode's own parameters.
  simp only [List.foldl_cons, List.foldl_nil]
  rw [PlainUrl.lookup_put]
  exact if_pos rfl

theorem carries_original (hQ : Y.WritesQuery) (hbase : Parsed c.streamingUrl) {i : Nat} {url : Y.Url}
    (hurl : item.transcodeUrl c i = .ok url) {source : Source} {streams : List StremioStream}
    (h : PlexMediaMeta.originalStreams c source url = .ok streams) :
    ∀ s ∈ streams, ∀ u ∈ s.tokenUrls playPrefix, Carries c.accessToken u := by
  obtain ⟨stream, hstream, h⟩ := bind_ok.mp h
  cases h
  refine List.forall_mem_singleton.mpr (Source.carries hQ hbase hstream (.inr ?_))
  exact carries_transcode hQ hbase hurl (List.forall_mem_singleton.mpr (by decide +kernel))

theorem plexArgs_keys (quality : Resolution) : ∀ kv ∈ quality.plexArgs, kv.1 ≠ tokenKey := by
  cases quality <;> decide +kernel

theorem carries_down (hQ : Y.WritesQuery) (hbase : Parsed c.streamingUrl) {i : Nat} {url : Y.Url}
    (hurl : item.transcodeUrl c i = .ok url) {media : Version} {source : Source} {streams : List StremioStream}
    (h : PlexMediaMeta.transcodeDownStreams c media source url = .ok streams) :
    ∀ s ∈ streams, ∀ u ∈ s.tokenUrls playPrefix, Carries c.accessToken u := by
  intro s hs
  obtain ⟨quality, description, hstream⟩ := PlexMediaMeta.transcodeDownStreams_ok h s hs
  exact Source.carries hQ hbase hstream (.inr (carries_transcode hQ hbase hurl (plexArgs_keys quality)))

theorem carries_version (hQ : Y.WritesQuery) (hbase : Parsed c.streamingUrl) {media : Version} {i : Nat}
    {streams : List StremioStream} (h : item.versionStreams U c playPrefix media i = .ok streams) :
    ∀ s ∈ streams, ∀ u ∈ s.tokenUrls playPrefix, Carries c.accessToken u := by
  obtain ⟨source, direct, url, original, down, -, hdirect, hurl, horiginal, hdown, rfl⟩ :=
    PlexMediaMeta.versionStreams_ok h
  intro s hs
  rcases List.mem_append.mp hs with hs | hs
  · rcases List.mem_append.mp hs with hs | hs
    · rcases List.mem_append.mp hs with hs | hs
      · split at hdirect
        · exact carries_directPlay hQ hdirect s hs
        · cases hdirect; cases hs
      · split at horiginal
        · exact carries_original hQ hbase hurl horiginal s hs
        · cases horiginal; cases hs
    · split at hdown
      · exact carries_down hQ hbase hurl hdown s hs
      · cases hdown; cases hs
  · split at hs
    · rw [List.mem_singleton.mp hs]
      intro u hu
      simp [StremioStream.tokenUrls, PlexMediaMeta.plexTvStream] at hu
    · cases hs

/-- **Every URL spells the token one way.** -/
theorem urls_spelled (hQ : Y.WritesQuery) (hbase : Parsed c.streamingUrl) {streams : List StremioStream}
    (h : item.getStremioStreams U c playPrefix = .ok streams) :
    ∀ s ∈ streams, ∀ u ∈ s.tokenUrls playPrefix, Carries c.accessToken u := by
  obtain ⟨keyed, -, h⟩ := bind_ok.mp h
  obtain ⟨groups, hgroups, h⟩ := bind_ok.mp h
  cases h
  intro s hs
  obtain ⟨group, hgroup, hs⟩ := List.mem_flatten.mp hs
  obtain ⟨⟨_, media, i⟩, -, hversion⟩ := exists_of_forall₂ (mapM_ok.mp hgroups) group hgroup
  exact carries_version hQ hbase hversion s hs

/-- **Which tokens the scrubber knows in the URLs**: those `yarl` keeps whole,
and those it writes as `quote` does. -/
theorem spelling_known (hQ : Y.WritesQuery) {j : Json} (hc : AddonConfiguration.check Y j = .ok c) (item : PlexMediaMeta)
    (playPrefix : Option Str) {streams : List StremioStream} (h : item.getStremioStreams U c playPrefix = .ok streams) :
    ∀ s ∈ streams, ∀ u ∈ s.tokenUrls playPrefix, KnownSpelling c.accessToken u ↔ SpelledAlike c.accessToken := by
  have hurls := (AddonConfiguration.accepted_of_check hc).urls
  obtain ⟨text, htext, -⟩ := hurls c.streamingUrl (List.mem_cons_of_mem _ List.mem_cons_self)
  exact fun s hs u hu => (urls_spelled hQ ⟨text, htext⟩ h s hs u hu).known_iff

end Streams

/-! ## A token with characters of both kinds -/

namespace PlainUrl

theorem question_not_mem_quotePath (s : Str) : '?' ∉ quotePath s := by
  intro h
  obtain ⟨c, -, hc⟩ := List.mem_flatMap.mp h
  split at hc
  · next hkept => exact absurd hkept (by rw [← List.mem_singleton.mp hc]; decide +kernel)
  · rcases mem_quoteChar hc with ⟨hun, rfl⟩ | hpercent | hdigit
    · exact absurd hun (by decide)
    · exact absurd hpercent (by decide)
    · exact absurd hdigit (by decide)

/-- An accepted text has no query. -/
theorem question_not_mem_parse {s : Str} {u : PlainUrl} (h : parse s = some u) :
    '?' ∉ u.scheme ∧ '?' ∉ u.authority ∧ '?' ∉ u.path := by
  have hrequote : ∀ t : Str, '?' ∉ t → '?' ∉ requotePath t := by
    intro t ht hmem
    rcases (mem_requotePath hmem).2 with hmem | hspecial
    · exact ht hmem
    · cases hspecial
  simp only [parse] at h
  split at h
  · cases h
  next hany =>
  have hs : '?' ∉ s := fun hmem => hany (List.any_eq_true.mpr ⟨'?', hmem, rfl⟩)
  split at h
  · next path _ hpart =>
    cases h
    exact ⟨List.not_mem_nil, List.not_mem_nil, hrequote path fun hmem => hs ((partition_before hpart).subset hmem)⟩
  · next scheme sep rest _ hpart =>
    cases h
    have hrest : '?' ∉ rest := fun hmem => hs ((partition_suffix hpart).subset hmem)
    exact ⟨fun hmem => hs ((partition_before hpart).subset hmem),
      fun hmem => hrest ((List.takeWhile_prefix _).subset hmem),
      hrequote _ fun hmem => hrest ((List.dropWhile_suffix _).subset hmem)⟩

theorem foldl_mod (u : PlainUrl) (pss : List (List (Str × Str))) :
    pss.foldl mod u = { u with query := pss.flatten.foldl put u.query } := by
  induction pss generalizing u with
  | nil => rfl
  | cons ps pss ih => rw [List.foldl_cons, ih, List.flatten_cons, List.foldl_append]; rfl

/-- A name added to a path. -/
theorem div_path {u v : PlainUrl} {name : Str} (hpath : '?' ∉ u.path) (h : div u name = some v) :
    v.scheme = u.scheme ∧ v.authority = u.authority ∧ v.query = [] ∧ v.path ≠ [] ∧ '?' ∉ v.path := by
  unfold div at h
  split at h
  · cases h
  cases h
  refine ⟨rfl, rfl, rfl, ?_, ?_⟩
  · dsimp only
    split
    · next hlast => exact List.append_ne_nil_of_left_ne_nil (by rintro hnil; simp [hnil] at hlast) _
    · simp
  · dsimp only
    rw [List.mem_append, not_or]
    refine ⟨?_, question_not_mem_quotePath name⟩
    split
    · exact hpath
    · simpa using hpath

theorem question_not_mem_str {u : PlainUrl} (hscheme : '?' ∉ u.scheme) (hauthority : '?' ∉ u.authority) (hpath : '?' ∉ u.path)
    (hquery : u.query = []) : '?' ∉ str u := by
  simp only [str, hquery, List.isEmpty_nil, if_true, List.mem_append, not_or]
  refine ⟨?_, hpath⟩
  split
  · exact List.not_mem_nil
  · simp only [List.mem_append, not_or]
    exact ⟨⟨hscheme, by decide⟩, hauthority⟩

/-- Parameters written one after the other on a URL without any. -/
theorem str_foldl_mod {u : PlainUrl} (hpath : u.path ≠ []) (hquery : u.query = []) {pss : List (List (Str × Str))}
    (hne : pss.flatten ≠ []) :
    str (pss.foldl mod u) = str u ++ '?' :: ['&'].intercalate ((pss.flatten.foldl put []).map pair) := by
  rw [foldl_mod, hquery]
  simp [str, hpath, hquery, foldl_put_ne_nil hne]

end PlainUrl

/-- The plain URLs write their query as documented. -/
theorem Yarl.plain_writesQuery : Yarl.plain.WritesQuery where
  written s u name v hparse hdiv := by
    obtain ⟨hscheme, hauthority, hpath⟩ := PlainUrl.question_not_mem_parse hparse
    obtain ⟨hs, ha, hquery, hne, hv⟩ := PlainUrl.div_path hpath hdiv
    exact ⟨PlainUrl.str v, PlainUrl.question_not_mem_str (hs ▸ hscheme) (ha ▸ hauthority) hv hquery,
      fun pss hpss => PlainUrl.str_foldl_mod hne hquery hpss⟩

/-- The sample with a token that has characters of both kinds. -/
def AddonConfiguration.mixed : AddonConfiguration Yarl.plain := { AddonConfiguration.sample with accessToken := "a!b c".toList }

theorem AddonConfiguration.check_mixed : check Yarl.plain (.obj mixed.storageMembers) = .ok mixed :=
  check_storage_self { sample_accepted with accessToken := by decide } sample_urls

theorem spelling_known_film : ∃ streams, playedFilm.getStremioStreams .ascii AddonConfiguration.sample none = .ok streams ∧
    ∃ s ∈ streams, ∃ u ∈ s.tokenUrls none, KnownSpelling AddonConfiguration.sample.accessToken u := by
  have hstreams : playedFilm.getStremioStreams .ascii AddonConfiguration.sample none =
      .ok ((playedFilm.getStremioStreams .ascii AddonConfiguration.sample none).toOption.getD []) := by decide +kernel
  have hurls : ∃ s ∈ (playedFilm.getStremioStreams .ascii AddonConfiguration.sample none).toOption.getD [],
      s.tokenUrls none ≠ [] := by decide +kernel
  have hspelled : SpelledAlike AddonConfiguration.sample.accessToken := by decide +kernel
  obtain ⟨s, hs, hne⟩ := hurls
  obtain ⟨u, hu⟩ := List.exists_mem_of_ne_nil _ hne
  refine ⟨_, hstreams, s, hs, u, hu, ?_⟩
  exact (spelling_known Yarl.plain_writesQuery AddonConfiguration.check_sample playedFilm none hstreams s hs u hu).mpr hspelled

/-- **A token the scrubber misses**: `yarl` writes it `a!b+c`. -/
theorem token_missed : AddonConfiguration.check Yarl.plain (.obj AddonConfiguration.mixed.storageMembers) = .ok .mixed ∧
    ∃ streams, playedFilm.getStremioStreams .ascii AddonConfiguration.mixed none = .ok streams ∧
      ∃ s ∈ streams, ∃ u ∈ s.tokenUrls none, ¬ KnownSpelling AddonConfiguration.mixed.accessToken u := by
  have hstreams : playedFilm.getStremioStreams .ascii AddonConfiguration.mixed none =
      .ok ((playedFilm.getStremioStreams .ascii AddonConfiguration.mixed none).toOption.getD []) := by decide +kernel
  have hurls : ∃ s ∈ (playedFilm.getStremioStreams .ascii AddonConfiguration.mixed none).toOption.getD [],
      s.tokenUrls none ≠ [] := by decide +kernel
  have hspelled : ¬ SpelledAlike AddonConfiguration.mixed.accessToken := by decide +kernel
  have hbase : Parsed AddonConfiguration.mixed.streamingUrl := ⟨"http://10.0.0.2:32400".toList, rfl⟩
  obtain ⟨s, hs, hne⟩ := hurls
  obtain ⟨u, hu⟩ := List.exists_mem_of_ne_nil _ hne
  refine ⟨AddonConfiguration.check_mixed, _, hstreams, s, hs, u, hu, fun hknown => hspelled ?_⟩
  exact (urls_spelled Yarl.plain_writesQuery hbase hstreams s hs u hu).known_iff.mp hknown

end Plexio
