/-
The extras of a catalog request (`get_catalog` of `routers/addon.py`): a
client writes them percent-encoded, with `&` and `=` between them, and the
route takes them apart after the whole path has been decoded. So an `&` of a
value, which was protected before, divides it: `extras_arrive_iff` says that
they arrive as they were sent exactly when no value has one.
-/
import Plexio.Lib.Dict
import Plexio.Lib.Percent
import Plexio.RecentlyAdded

namespace Plexio

open Py Json

/-! ## The client's side -/

/-- The characters `encodeURIComponent` keeps. -/
def isComponentChar (c : Char) : Bool := c.isAlphanum || "-_.!~*'()".toList.contains c

def encodeURIComponent (s : Str) : Str := percentEncode isComponentChar s

def extraNames : List Str := ["skip".toList, "search".toList, "sort".toList]

/-- What a client asks of a catalog. -/
structure ExtraArgs where
  args : Dict Str Str
  known : ∀ name ∈ args.keys, name ∈ extraNames

namespace ExtraArgs

/-- The path segment they are sent as. -/
def path (x : ExtraArgs) : Str :=
  ['&'].intercalate (x.args.entries.map fun (name, value) => encodeURIComponent name ++ '=' :: encodeURIComponent value)

/-- The same, decoded. -/
def text (x : ExtraArgs) : Str := ['&'].intercalate (x.args.entries.map fun (name, value) => name ++ '=' :: value)

theorem decodes_path (x : ExtraArgs) : Decodes x.path x.text := by
  have hkeep : isComponentChar '%' = false := by decide
  have hpair : ∀ a : Str × Str, Decodes (encodeURIComponent a.1 ++ '=' :: encodeURIComponent a.2) (a.1 ++ '=' :: a.2) :=
    fun a => (Decodes.percentEncode hkeep a.1).append ((Decodes.char (c := '=') (by decide)).append
      (Decodes.percentEncode hkeep a.2))
  exact Decodes.intercalate (Decodes.char (by decide)) hpair x.args.entries

/-- The route receives it decoded. -/
theorem unquote?_path (x : ExtraArgs) : unquote? x.path = some x.text := x.decodes_path.unquote?

end ExtraArgs

/-! ## The route's side -/

/-- What one part adds to the extras. -/
def addExtra (extras : List (Str × Str)) (value : Str) : List (Str × Str) :=
  match partition ['='] value with
  | (_, [], _) => extras
  | (key, _, item) => (key, item) :: extras

theorem parseExtras_eq (extra : Str) : parseExtras extra = (split '&' extra).foldl addExtra [] := rfl

/-- No value that is parsed has an `&`. -/
theorem amp_not_mem_parseExtras (extra : Str) : ∀ e ∈ parseExtras extra, '&' ∉ e.2 := by
  rw [parseExtras_eq]
  refine List.foldlRecOn (motive := fun extras : List (Str × Str) => ∀ e ∈ extras, '&' ∉ e.2) (split '&' extra) addExtra
    (fun e he => absurd he List.not_mem_nil) fun extras hextras part hpart => ?_
  unfold addExtra
  split
  · exact hextras
  · next key item hpartition =>
    refine List.forall_mem_cons.mpr ⟨fun hmem => ?_, hextras⟩
    exact not_mem_of_mem_split hpart ((partition_suffix hpartition).subset hmem)

namespace ExtraArgs
variable (x : ExtraArgs)

/-- No value has the separator. -/
def Plain : Prop := ∀ a ∈ x.args.entries, '&' ∉ a.2

instance : Decidable x.Plain := by unfold Plain; infer_instance

theorem name_plain {a : Str × Str} (h : a ∈ x.args.entries) : '&' ∉ a.1 ∧ '=' ∉ a.1 :=
  have hnames : ∀ name ∈ extraNames, '&' ∉ name ∧ '=' ∉ name := by decide
  hnames a.1 (x.known a.1 (List.mem_map_of_mem h))

/-- Every argument is a part of its own. -/
theorem parseExtras_text {x : ExtraArgs} (h : x.Plain) : parseExtras x.text = x.args.entries.reverse := by
  have hadd : ∀ (args extras : List (Str × Str)), (∀ a ∈ args, '=' ∉ a.1) →
      (args.map fun a => a.1 ++ '=' :: a.2).foldl addExtra extras = args.reverse ++ extras := by
    intro args
    induction args with
    | nil => exact fun _ _ => rfl
    | cons a args ih =>
      intro extras hnames
      have hone : addExtra extras (a.1 ++ '=' :: a.2) = a :: extras := by
        rw [addExtra, partition_append (hnames a List.mem_cons_self)]
      rw [List.map_cons, List.foldl_cons, hone, ih _ fun b hb => hnames b (List.mem_cons_of_mem a hb), List.reverse_cons,
        List.append_assoc, List.singleton_append]
  by_cases hempty : x.args.entries = []
  · rw [text, hempty]
    rfl
  · have hsplit : split '&' x.text = x.args.entries.map fun a => a.1 ++ '=' :: a.2 := by
      refine split_join (fun part hpart => ?_) (by simpa using hempty)
      obtain ⟨a, ha, rfl⟩ := List.mem_map.mp hpart
      rw [List.mem_append, List.mem_cons, not_or, not_or]
      exact ⟨(x.name_plain ha).1, by decide, h a ha⟩
    rw [parseExtras_eq, hsplit, hadd _ _ fun a ha => (x.name_plain ha).2, List.append_nil]

/-- The arguments a route has are those of the client. -/
def Same (extras : List (Str × Str)) : Prop := ∀ name, extras.lookup name = x.args.get? name

/-- They are divided at the separators of the values. -/
theorem same_iff : x.Same (parseExtras x.text) ↔ x.Plain := by
  constructor
  · intro hsame a ha hamp
    have hfound : (parseExtras x.text).lookup a.1 = some a.2 := by rw [hsame, Dict.mem_entries_iff.mp ha]
    rw [List.lookup_eq_some_iff] at hfound
    obtain ⟨before, after, hextras, -⟩ := hfound
    refine amp_not_mem_parseExtras x.text (a.1, a.2) ?_ hamp
    rw [hextras]
    exact List.mem_append_right before List.mem_cons_self
  · intro h name
    let reversed : Dict Str Str := ⟨x.args.entries.reverse, by rw [List.map_reverse]; exact List.nodup_reverse.mpr x.args.nodup⟩
    have hreversed : (parseExtras x.text).lookup name = reversed.get? name := by
      rw [parseExtras_text h]
      exact reversed.lookup_entries name
    rw [hreversed]
    refine Option.ext fun value => ?_
    rw [← Dict.mem_entries_iff, ← Dict.mem_entries_iff]
    exact List.mem_reverse

end ExtraArgs

/-! ## What is asked of Plex -/

/-- The content asked for is what the arguments say. -/
def CatalogSource.AsksFor (U : Unicode) (args : List (Str × Str)) : CatalogSource → Prop
  | .onDeck _ => True
  | .recent _ skip | .collection _ skip => skip = skipOf U args
  | .library _ search skip sort =>
    search = (args.lookup "search".toList).getD [] ∧ skip = skipOf U args ∧
      sort = (args.lookup "sort".toList).getD "Title".toList

/-- The extras arrive: the same arguments, the same content asked for, and for
a section the title and the offset in the request to Plex. -/
structure ExtraArgs.Arrive (x : ExtraArgs) (extra : Str) : Prop where
  same : x.Same (parseExtras extra)
  asked : ∀ (U : Unicode) {Y : Yarl} (c : AddonConfiguration Y) stremioType catalogId source,
    catalogSource U c stremioType catalogId extra = .ok source → source.AsksFor U x.args.entries
  requested : ∀ (D : Deployment) (c : AddonConfiguration D.yarl) stremioType catalogId sectionId search skip sort request,
    catalogSource D.unicode c stremioType catalogId extra = .ok (.library sectionId search skip sort) →
    sectionRequest D c.discoveryUrl c.accessToken sectionId skip search sort = .ok request →
    request.params.lookup "title".toList = (x.args.get? "search".toList).filter (· ≠ []) ∧
      request.params.lookup "X-Plex-Container-Start".toList = some (strInt (skipOf D.unicode x.args.entries))

namespace ExtraArgs
variable {x : ExtraArgs}

/-- The offset is read from the one argument. -/
theorem Same.skipOf {extras : List (Str × Str)} (h : x.Same extras) (U : Unicode) :
    skipOf U extras = Plexio.skipOf U x.args.entries := by
  unfold Plexio.skipOf
  rw [h, x.args.lookup_entries]

/-- What a request to Plex has of the search and the offset. -/
theorem lookup_sectionRequest {D : Deployment} {url : D.yarl.Url} {token sectionId search sort : Str} {skip : Nat}
    {request : PlexGet} (h : sectionRequest D url token sectionId skip search sort = .ok request) :
    request.params.lookup "title".toList = (some search).filter (· ≠ []) ∧
      request.params.lookup "X-Plex-Container-Start".toList = some (strInt skip) := by
  obtain ⟨order, horder, h⟩ := bind_ok.mp h
  obtain ⟨url, -, h⟩ := bind_ok.mp h
  cases h
  have hsort : order.lookup "title".toList = none := by
    split at horder
    · cases horder; rfl
    · obtain ⟨value, -, horder⟩ := bind_ok.mp horder
      cases horder
      rfl
  refine ⟨?_, rfl⟩
  cases search with
  | nil => exact hsort
  | cons c cs => rfl

theorem Same.asked {extra : Str} (h : x.Same (parseExtras extra)) {U : Unicode} {Y : Yarl} {c : AddonConfiguration Y}
    {stremioType : StremioMediaType} {catalogId : Str} {source : CatalogSource}
    (hsource : catalogSource U c stremioType catalogId extra = .ok source) : source.AsksFor U x.args.entries := by
  unfold catalogSource at hsource
  split at hsource
  · cases hsource; trivial
  split at hsource
  · cases hsource; exact h.skipOf U
  split at hsource
  · obtain ⟨found, -, hsource⟩ := bind_ok.mp hsource
    cases found with
    | none => cases hsource
    | some y => cases hsource; exact h.skipOf U
  · cases hsource
    exact ⟨by rw [h, x.args.lookup_entries], h.skipOf U, by rw [h, x.args.lookup_entries]⟩

/-- Same arguments, same request. -/
theorem Same.arrive {extra : Str} (h : x.Same (parseExtras extra)) : x.Arrive extra where
  same := h
  asked U Y c stremioType catalogId source hsource := h.asked hsource
  requested D c stremioType catalogId sectionId search skip sort request hsource hrequest := by
    obtain ⟨hsearch, hskip, -⟩ := h.asked hsource
    have hsent := lookup_sectionRequest hrequest
    rw [hsearch, hskip, x.args.lookup_entries] at hsent
    refine ⟨hsent.1.trans ?_, hsent.2⟩
    cases x.args.get? "search".toList <;> rfl

end ExtraArgs

/-- **Extras arrive as they were sent** exactly when no value has the
character between them; the route receives their decoded text. -/
theorem extras_arrive_iff (x : ExtraArgs) : ∃ extra, unquote? x.path = some extra ∧ (x.Arrive extra ↔ x.Plain) :=
  ⟨x.text, x.unquote?_path, fun h => x.same_iff.mp h.same, fun h => (x.same_iff.mpr h).arrive⟩

/-- A title with the character. -/
def tomAndJerry : ExtraArgs where
  args := ⟨[("search".toList, "Tom & Jerry".toList), ("skip".toList, "100".toList)], by decide⟩
  known := by decide

theorem tomAndJerry_divided : unquote? tomAndJerry.path = some "search=Tom & Jerry&skip=100".toList ∧
    (parseExtras "search=Tom & Jerry&skip=100".toList).lookup "search".toList = some "Tom ".toList ∧
    ¬ tomAndJerry.Arrive "search=Tom & Jerry&skip=100".toList :=
  ⟨tomAndJerry.unquote?_path, by decide +kernel, fun h => absurd (h.same "search".toList) (by decide +kernel)⟩

end Plexio
