/-
The cache all installs share (`stream_cache.py`): the keys, the guarded reads
and writes, lists of models kept in it, and the stream responses kept without
the token they contain.

A key is made of the kind of entry, the install's namespace and the digest of
what the entry is about; `resourceCacheKey_inj` gives all three back. A
response is stored with the token replaced by a placeholder, in each of its
spellings; `deserialize_serialize` says that reading undoes it.
-/
import Plexio.Lib.Prog
import Plexio.Streams

namespace Plexio

open Py CacheProg

/-- A `GET` for JSON. -/
structure PlexGet where
  url : Str
  params : List (Str × Str)

/-- The `MediaContainer` of an answer. -/
structure MediaContainer where
  totalSize : Option Int := none
  metadata : Option (List Metadata) := none

/-- What requests run on: a cache of texts, and Plex, which answers a request
with a container, without one, or not. -/
abbrev plexSig : Sig where
  Key := Str
  Val := Str
  Ask := PlexGet
  Answer _ := Except Exc (Option MediaContainer)
  Err := Exc

/-- What an installation of the add-on runs with. -/
structure Deployment where
  yarl : Yarl
  sha256 : Sha256
  unicode : Unicode
  text : Json.Text Json.Value
  streams : Codec (List StremioStream)
  media : Codec (List PlexMediaMeta)
  episodes : Codec (List PlexEpisodeMeta)
  settings : Settings

/-! ## Keys -/

/-- The kinds of entries. -/
inductive Resource
  | stream
  | matched
  | mediaRatingKey
  | mediaGuid
  | mediaGuidFirst
  | episodes
  deriving DecidableEq

def Resource.value : Resource → Str
  | stream => "stream".toList
  | matched => "match".toList
  | mediaRatingKey => "media-rating-key".toList
  | mediaGuid => "media-guid".toList
  | mediaGuidFirst => "media-guid-first".toList
  | episodes => "episodes".toList

def Resource.all : List Resource := [stream, matched, mediaRatingKey, mediaGuid, mediaGuidFirst, episodes]

theorem Resource.mem_all (r : Resource) : r ∈ all := by cases r <;> simp [all]

theorem Resource.value_inj {r s : Resource} (h : r.value = s.value) : r = s := by
  have hnodup : (all.map value).Nodup := by decide +kernel
  exact List.inj_on_of_nodup_map hnodup r.mem_all s.mem_all h

theorem Resource.value_colon (r : Resource) : ':' ∉ r.value := by
  have hall : ∀ r ∈ all, ':' ∉ r.value := by decide +kernel
  exact hall r r.mem_all

def resourceCacheKey (S : Sha256) (ns : Str) (resource : Resource) (identity : Str) : Str :=
  "plexio:".toList ++ resource.value ++ ':' :: ns ++ ':' :: S.hexdigest identity

theorem key_join (a b c : Str) :
    "plexio:".toList ++ a ++ ':' :: b ++ ':' :: c = [':'].intercalate ["plexio".toList, a, b, c] := by
  have hpre : "plexio:".toList = "plexio".toList ++ [':'] := by decide +kernel
  rw [hpre]
  simp [List.intercalate, List.intersperse]

theorem split_resourceCacheKey (S : Sha256) {ns : Str} (hns : ':' ∉ ns) (resource : Resource) (identity : Str) :
    split ':' (resourceCacheKey S ns resource identity) = ["plexio".toList, resource.value, ns, S.hexdigest identity] := by
  have hparts : ∀ p ∈ ["plexio".toList, resource.value, ns, S.hexdigest identity], ':' ∉ p := by
    simp only [List.forall_mem_cons]
    exact ⟨by decide +kernel, resource.value_colon, hns, S.colon identity, fun p hp => by cases hp⟩
  unfold resourceCacheKey
  rw [key_join]
  exact split_join hparts (by simp)

/-- **A key tells what it is a key of.** -/
theorem resourceCacheKey_inj {S : Sha256} {m n : Str} (hm : ':' ∉ m) (hn : ':' ∉ n) {r s : Resource} {i j : Str}
    (h : resourceCacheKey S m r i = resourceCacheKey S n s j) : m = n ∧ r = s ∧ i = j := by
  have hsplit := congrArg (split ':') h
  rw [split_resourceCacheKey S hm, split_resourceCacheKey S hn] at hsplit
  simp only [List.cons.injEq, true_and, and_true] at hsplit
  exact ⟨hsplit.2.1, Resource.value_inj hsplit.1, S.injective hsplit.2.2⟩

/-- `configuration_cache_namespace` -/
def configurationCacheNamespace (D : Deployment) (c : AddonConfiguration D.yarl) : Str :=
  D.sha256.hexdigest (D.text.canonical c.toStorageDict)

/-! ## Reading and writing -/

/-- A read; a cache that raises holds nothing. `cache` tells whether there is one. -/
def cacheGet (cache : Bool) (key : Str) : Prog plexSig (Option Str) :=
  if cache then
    .get key fun
      | .ok value => .ret value
      | .error _ => .ret none
  else .ret none

def cacheSet (cache : Bool) (key value : Str) (ttl : Nat) : Prog plexSig Unit :=
  if !cache || ttl == 0 then .ret () else .set key value ttl fun _ => .ret ()

/-- A list of models from the cache, or else from the loader and into the
cache; and whether it came from the cache. -/
def cachedModelList {α : Type} (cache : Bool) (key : Str) (codec : Codec (List α)) (loader : Prog plexSig (List α)) (ttl : Nat) :
    Prog plexSig (List α × Bool) := do
  let cached ← (if 0 < ttl then cacheGet cache key else pure none : Prog plexSig (Option Str))
  match cached.bind codec.load with
  | some items => pure (items, true)
  | none =>
    let value ← loader
    cacheSet cache key (codec.dump value) ttl
    pure (value, false)

section Rules
variable {I : Str → Str → Prop} {fails : Prop} {serve : ∀ q, plexSig.Answer q}

/-- What a program does after a read: whatever an admitted entry or none
leads to, if that is the same. -/
theorem sound_cacheGet {β : Type} {cache : Bool} {key : Str} {f : Option Str → Prog plexSig β} {r : Except Exc β}
    (h : ∀ o, (∀ v, o = some v → I key v) → (f o).Sound I fails serve r) :
    (cacheGet cache key >>= f).Sound I fails serve r := by
  cases cache with
  | false => exact h none (by simp)
  | true => exact ⟨h, fun _ _ => h none (by simp)⟩

/-- The same for a read that is made only when caching is on. -/
theorem sound_cacheGet_if {β : Type} {on : Prop} [Decidable on] {key : Str} {f : Option Str → Prog plexSig β} {r : Except Exc β}
    (h : ∀ o, (∀ v, o = some v → I key v) → (f o).Sound I fails serve r) :
    ((if on then cacheGet true key else pure none : Prog plexSig (Option Str)) >>= f).Sound I fails serve r := by
  split
  · exact sound_cacheGet h
  · exact h none (by simp)

theorem sound_cacheSet {cache : Bool} {key value : Str} {ttl : Nat} (h : I key value) :
    (cacheSet cache key value ttl).Sound I fails serve (.ok ()) := by
  rw [cacheSet]
  split
  · rfl
  · exact ⟨h, rfl, fun _ _ => rfl⟩

section Touches
variable {P : Str → Prop → Prop} {cache : Bool} {key value : Str} {ttl : Nat}

/-- Reads and writes go on after a failure. -/
theorem touches_cacheGet (h : P key True) (hP : Prog.Lenient P) : (cacheGet cache key).Touches P := by
  unfold cacheGet
  split
  · refine ⟨hP _ _ _ (fun _ _ => rfl) h, fun o => ?_⟩
    cases o <;> trivial
  · trivial

theorem touches_cacheSet (h : P key True) (hP : Prog.Lenient P) : (cacheSet cache key value ttl).Touches P := by
  unfold cacheSet
  split
  · trivial
  · exact ⟨hP _ _ _ (fun _ _ => rfl) h, fun o => trivial⟩

end Touches

variable {α : Type} {cache : Bool} {key : Str} {codec : Codec (List α)} {loader : Prog plexSig (List α)} {ttl : Nat}

/-- **Lists from the cache** are lists from the loader, when entries under
the key are what the loader gives. -/
theorem sound_cachedModelList {r : Except Exc (List α)} (hload : loader.Sound I fails serve r)
    (hread : ∀ v, I key v → ∀ items, codec.load v = some items → r = .ok items)
    (hwrite : ∀ items, r = .ok items → I key (codec.dump items)) :
    (Prod.fst <$> cachedModelList cache key codec loader ttl).Sound I fails serve r := by
  have hmiss : (Prod.fst <$> (do
      let value ← loader
      cacheSet cache key (codec.dump value) ttl
      pure (value, false) : Prog plexSig (List α × Bool))).Sound I fails serve r := by
    have : r = (r >>= fun items => (Except.ok () >>= fun _ => Except.ok items : Except Exc (List α))) := by
      cases r <;> rfl
    rw [map_eq_pure_bind, bind_assoc, this]
    refine hload.bind fun items hitems => ?_
    rw [bind_assoc]
    exact (sound_cacheSet (hwrite items hitems)).bind fun _ _ => rfl
  have hafter : ∀ o : Option Str, (∀ v, o = some v → I key v) → (Prod.fst <$> (match o.bind codec.load with
      | some items => pure (items, true)
      | none => do
        let value ← loader
        cacheSet cache key (codec.dump value) ttl
        pure (value, false) : Prog plexSig (List α × Bool))).Sound I fails serve r := by
    intro o ho
    cases hl : o.bind codec.load with
    | none => exact hmiss
    | some items =>
      obtain ⟨v, rfl, hv⟩ := Option.bind_eq_some_iff.mp hl
      rw [hread v (ho v rfl) items hv]
      rfl
  rw [cachedModelList, map_bind]
  split
  · exact sound_cacheGet hafter
  · exact hafter none (by simp)

theorem touches_cachedModelList {P : Str → Prop → Prop} (hP : Prog.Lenient P) (hkey : P key True)
    (hload : loader.Touches P) : (Prod.fst <$> cachedModelList cache key codec loader ttl).Touches P := by
  rw [map_eq_pure_bind]
  refine Prog.Touches.bind hP ?_ fun _ => Prog.Touches.ret _
  refine Prog.Touches.bind hP ?_ fun o => ?_
  · split
    · exact touches_cacheGet hkey hP
    · trivial
  · split
    · trivial
    · exact hload.bind hP fun value => (touches_cacheSet hkey hP).bind hP fun _ => Prog.Touches.ret _

end Rules

/-! ## Responses without their token -/

def tokenPlaceholder : Str := "__PLEXIO_ACCESS_TOKEN__".toList
def encodedTokenPlaceholder : Str := "__PLEXIO_ENCODED_ACCESS_TOKEN__".toList

/-- Both spellings of the token replaced. -/
def scrub (accessToken serialized : Str) : Str :=
  if accessToken.isEmpty then serialized
  else
    let encoded := quote accessToken
    let serialized := if encoded ≠ accessToken then replace encoded encodedTokenPlaceholder serialized else serialized
    replace accessToken tokenPlaceholder serialized

def unscrub (accessToken serialized : Str) : Str :=
  if accessToken.isEmpty then serialized
  else replace encodedTokenPlaceholder (quote accessToken) (replace tokenPlaceholder accessToken serialized)

def serializeStreamResponse (D : Deployment) (response : List StremioStream) (accessToken : Str) : Str :=
  scrub accessToken (D.streams.dump response)

/-- `none` is a `ValueError`. -/
def deserializeStreamResponse (D : Deployment) (serialized accessToken : Str) : Option (List StremioStream) :=
  D.streams.load (unscrub accessToken serialized)

def tokenMark : Str := "PLEXIO_ACCESS_TOKEN".toList
def encodedTokenMark : Str := "PLEXIO_ENCODED_ACCESS_TOKEN".toList

theorem tokenPlaceholder_marked : Marked tokenMark tokenPlaceholder := by decide +kernel

theorem encodedTokenPlaceholder_marked : Marked encodedTokenMark encodedTokenPlaceholder := by decide +kernel

theorem tokenMark_apart : Apart tokenMark encodedTokenPlaceholder := by decide +kernel

/-- **Scrubbing is undone.** -/
theorem unscrub_scrub (accessToken : Str) {s : Str} (hs : ¬ tokenMark <:+: s) (hs' : ¬ encodedTokenMark <:+: s) :
    unscrub accessToken (scrub accessToken s) = s := by
  rw [unscrub, scrub]
  split
  · rfl
  next hne =>
  have htok : accessToken ≠ [] := by simpa using hne
  have hquote := quote_ne_nil htok
  by_cases henc : quote accessToken = accessToken
  · simp only [henc, ne_eq, not_true_eq_false, if_false]
    rw [replace_replace tokenPlaceholder_marked htok (by decide) hs]
    refine replace_of_not_infix (by decide) _ fun h => hs' ?_
    exact encodedTokenPlaceholder_marked.inside.trans h
  · simp only [ne_eq, henc, not_false_eq_true, if_true]
    rw [replace_replace tokenPlaceholder_marked htok (by decide) (tokenMark_apart.not_infix_replace hquote hs),
      replace_replace encodedTokenPlaceholder_marked hquote (by decide) hs']

theorem deserialize_serialize {D : Deployment} {response : List StremioStream} (accessToken : Str)
    (hs : ¬ tokenMark <:+: D.streams.dump response) (hs' : ¬ encodedTokenMark <:+: D.streams.dump response) :
    deserializeStreamResponse D (serializeStreamResponse D response accessToken) accessToken = some response := by
  rw [deserializeStreamResponse, serializeStreamResponse, unscrub_scrub accessToken hs hs', D.streams.load_dump]

end Plexio
