/-
One walk over the requests Stremio makes, for every property of programs that
sequencing keeps (`Visits`): what their questions to the configured server,
the one to Plex's matcher, and their uses of the cache have, the requests have
(`Visits.answerAddon`).
-/
import Plexio.CatalogPages
import Plexio.Lib.Composable

namespace Plexio

open Py Json CacheProg

/-! ## The requests -/

/-- What Stremio asks the add-on for. -/
inductive AddonRequest
  | catalog (type : StremioMediaType) (catalogId extra : Str)
  | item (type : StremioMediaType) (plexId : Str)
  | stream (request : Request) (type : StremioMediaType) (mediaId : Str)

inductive AddonReply
  | catalog (metas : List StremioMetaPreview)
  | item (media : PlexMediaMeta) (episodes : Option (List PlexEpisodeMeta))
  | stream (reply : StreamReply)

def answerAddon (D : Deployment) (c : AddonConfiguration D.yarl) : AddonRequest → Prog plexSig AddonReply
  | .catalog type catalogId extra => AddonReply.catalog <$> getCatalog D c type catalogId extra
  | .item type plexId => (fun reply => .item reply.1 reply.2) <$> getMeta D c type plexId
  | .stream request type mediaId => AddonReply.stream <$> getStream D c request type mediaId

/-! ## Questions -/

/-- Made of the URL by adding to its path. -/
inductive Below (Y : Yarl) (url : Y.Url) : Y.Url → Prop
  | self : Below Y url url
  | divide {u v : Y.Url} {name : Str} : Below Y url u → divide u name = .ok v → Below Y url v

/-- A parameter with the name of the token has it for its value. -/
def TokensAre (token : Str) (params : List (Str × Str)) : Prop := ∀ p ∈ params, p.1 = "X-Plex-Token".toList → p.2 = token

theorem TokensAre.append {token : Str} {ps qs : List (Str × Str)} (hp : TokensAre token ps) (hq : TokensAre token qs) :
    TokensAre token (ps ++ qs) := List.forall_mem_append.mpr ⟨hp, hq⟩

theorem TokensAre.cons {token name value : Str} {params : List (Str × Str)} (hname : name ≠ "X-Plex-Token".toList)
    (h : TokensAre token params) : TokensAre token ((name, value) :: params) :=
  List.forall_mem_cons.mpr ⟨fun heq => absurd heq hname, h⟩

theorem TokensAre.nil {token : Str} : TokensAre token [] := fun _ h => by cases h

theorem tokensAre_tokenParam (token : Str) : TokensAre token (tokenParam token) := List.forall_mem_singleton.mpr fun _ => rfl

/-- The text of a URL below the server's, or what is asked for a show's leaves;
with the server's token. -/
def Own (D : Deployment) (url : D.yarl.Url) (token : Str) (text : Str) (params : List (Str × Str)) : Prop :=
  (∃ u, Below D.yarl url u ∧
    (text = D.yarl.str u ∨ text = replace "/children".toList "/allLeaves".toList (D.yarl.str u))) ∧ TokensAre token params

/-- A property that questions of the server have, those of the matcher, and
the uses of the cache, and that sequencing keeps. -/
structure Visits (D : Deployment) (url : D.yarl.Url) (token : Str) (C : ∀ {α : Type}, Prog plexSig α → Prop) : Prop
    extends Prog.Composable C where
  json : ∀ {text params}, Own D url token text params → C (getJson text params)
  matcher : ∀ imdbId mediaType, C (imdbToPlexId D token imdbId mediaType)
  get : ∀ {α : Type} (key : Str) (next : Except Exc (Option Str) → Prog plexSig α), (∀ o, C (next o)) → C (Prog.get key next)
  set : ∀ {α : Type} (key value : Str) (ttl : Nat) (next : Except Exc Unit → Prog plexSig α), (∀ o, C (next o)) →
    C (Prog.set key value ttl next)

namespace Visits
variable {D : Deployment} {url : D.yarl.Url} {token : Str} {C : ∀ {α : Type}, Prog plexSig α → Prop}

theorem throw (h : Visits D url token C) {α : Type} (e : Exc) : C (Prog.throw e : Prog plexSig α) := h.toComposable.throw e

/-! ## The cache -/

theorem cacheGet (h : Visits D url token C) (cache : Bool) (key : Str) : C (cacheGet cache key) := by
  unfold Plexio.cacheGet
  split
  · refine h.get key _ fun o => ?_
    cases o <;> exact h.ret _
  · exact h.ret _

theorem cacheSet (h : Visits D url token C) (cache : Bool) (key value : Str) (ttl : Nat) : C (cacheSet cache key value ttl) := by
  unfold Plexio.cacheSet
  split
  · exact h.ret _
  · exact h.set _ _ _ _ fun _ => h.ret _

theorem cachedModelList (h : Visits D url token C) {α : Type} (cache : Bool) (key : Str) (codec : Codec (List α))
    {loader : Prog plexSig (List α)} (hload : C loader) (ttl : Nat) : C (cachedModelList cache key codec loader ttl) := by
  refine h.bind ?_ fun cached => ?_
  · split
    · exact h.cacheGet cache key
    · exact h.ret none
  · split
    · exact h.ret _
    · exact h.bind hload fun value => h.bind (h.cacheSet _ _ _ _) fun _ => h.ret _

/-! ## Lookups -/

theorem fetchMediaByRatingKey (h : Visits D url token C) (ratingKey : Str) : C (fetchMediaByRatingKey D url token ratingKey) := by
  refine h.liftBind fun library hlibrary => h.liftBind fun item hitem => ?_
  have hown : Own D url token (D.yarl.str item)
      (tokenParam token ++ [("includeElements".toList, "Stream".toList), ("includeGuids".toList, "1".toList)]) :=
    ⟨⟨item, (Below.self.divide hlibrary).divide hitem, .inl rfl⟩,
      (tokensAre_tokenParam token).append (.cons (by decide) (.cons (by decide) .nil))⟩
  refine h.bind (h.json hown) fun json => ?_
  exact h.liftBind fun metadata _ => h.lift _

theorem getMediaByRatingKey (h : Visits D url token C) (ratingKey : Str) (cache : Bool) (ns : Option Str) :
    C (getMediaByRatingKey D url token ratingKey cache ns) :=
  h.map _ (h.cachedModelList _ _ _ (h.fetchMediaByRatingKey ratingKey) _)

theorem fetchMedia (h : Visits D url token C) (guid : Str) (getOnlyFirst : Bool) : C (fetchMedia D url token guid getOnlyFirst) := by
  refine h.liftBind fun library hlibrary => ?_
  have hown : Own D url token (D.yarl.str library) (("guid".toList, guid) :: tokenParam token) :=
    ⟨⟨library, Below.self.divide hlibrary, .inl rfl⟩, .cons (by decide) (tokensAre_tokenParam token)⟩
  refine h.bind (h.json hown) fun json => ?_
  refine h.liftBind fun metadata _ => h.liftBind fun ratingKeys _ => ?_
  exact h.bind (h.mapM fun ratingKey _ => h.fetchMediaByRatingKey ratingKey) fun groups => h.ret _

theorem getMedia (h : Visits D url token C) (guid : Str) (getOnlyFirst cache : Bool) (ns : Option Str) :
    C (getMedia D url token guid getOnlyFirst cache ns) :=
  h.map _ (h.cachedModelList _ _ _ (h.fetchMedia guid getOnlyFirst) _)

theorem fetchAllEpisodes (h : Visits D url token C) (key : Str) : C (fetchAllEpisodes D url token key) := by
  refine h.liftBind fun children hchildren => ?_
  have hown : Own D url token (replace "/children".toList "/allLeaves".toList (D.yarl.str children)) (tokenParam token) :=
    ⟨⟨children, Below.self.divide hchildren, .inr rfl⟩, tokensAre_tokenParam token⟩
  exact h.bind (h.json hown) fun json => h.liftBind fun metadata _ => h.lift _

theorem getAllEpisodes (h : Visits D url token C) (key : Option Str) (cache : Bool) (ns : Option Str) :
    C (getAllEpisodes D url token key cache ns) := by
  cases key with
  | none => exact h.throw _
  | some key => exact h.map _ (h.cachedModelList _ _ _ (h.fetchAllEpisodes key) _)

theorem firstEpisodeGuid (h : Visits D url token C) (season episode : Str) (cache : Bool) (ns : Option Str)
    (media : List PlexMediaMeta) : C (firstEpisodeGuid D url token season episode cache ns media) := by
  induction media with
  | nil => exact h.ret _
  | cons item rest ih =>
    refine h.bind (h.bind (h.getAllEpisodes item.key cache ns) fun _ => h.ret _) fun plexId => ?_
    split
    · exact h.ret _
    · exact ih

theorem matchStremioId (h : Visits D url token C) (stremioId : Str) (mediaType : PlexMediaType) (cache : Bool)
    (ns : Option Str) : C (matchStremioId D url token stremioId mediaType cache ns) := by
  unfold Plexio.matchStremioId
  split
  · exact h.ret _
  · refine h.bind (h.matcher _ _) fun matched => h.bind ?_ fun plexId => ?_
    · split
      · exact h.ret _
      · exact h.bind (h.getMedia _ _ _ _) fun _ => h.ret _
    · split
      · split
        · exact h.ret _
        · exact h.bind (h.getMedia _ _ _ _) fun media => h.firstEpisodeGuid _ _ _ _ media
      · exact h.ret _

theorem stremioToPlexId (h : Visits D url token C) (stremioId : Str) (mediaType : PlexMediaType) (ns : Option Str) :
    C (stremioToPlexId D url token stremioId mediaType ns) := by
  refine h.get _ _ fun o => ?_
  dsimp only
  split
  · exact h.throw _
  · split
    · exact h.ret _
    · refine h.bind (h.matchStremioId _ _ _ _) fun plexId => ?_
      split
      · refine h.set _ _ _ _ fun stored => ?_
        cases stored
        · exact h.throw _
        · exact h.ret _
      · exact h.ret _

/-! ## Handlers -/

section Router
variable {c : AddonConfiguration D.yarl}

theorem metaMedia (h : Visits D c.discoveryUrl c.accessToken C) (plexId : Str) : C (metaMedia D c plexId) := by
  unfold Plexio.metaMedia
  split
  · exact h.throw _
  · split
    · exact h.liftBind fun ratingKey _ => h.getMediaByRatingKey _ _ _
    · exact h.liftBind fun guid _ => h.getMedia _ _ _ _

theorem getMeta (h : Visits D c.discoveryUrl c.accessToken C) (type : StremioMediaType) (plexId : Str) :
    C (getMeta D c type plexId) := by
  refine h.bind (h.metaMedia plexId) fun media => ?_
  split
  · exact h.throw _
  · split
    · exact h.bind (h.getAllEpisodes _ _ _) fun episodes => h.ret _
    · exact h.ret _

theorem resolveRatingKeyStreamMedia (h : Visits D c.discoveryUrl c.accessToken C) (ns : Str) (type : StremioMediaType)
    (value : Str) : C (resolveRatingKeyStreamMedia D c ns type value) := by
  unfold Plexio.resolveRatingKeyStreamMedia
  split
  · refine h.bind (h.getMediaByRatingKey _ _ _) fun shows => ?_
    split
    · exact h.ret _
    · refine h.bind (h.getAllEpisodes _ _ _) fun episodes => ?_
      split
      · exact h.getMediaByRatingKey _ _ _
      · exact h.ret _
  · exact h.getMediaByRatingKey _ _ _

theorem resolveStreamMedia (h : Visits D c.discoveryUrl c.accessToken C) (ns : Str) (type : StremioMediaType)
    (mediaId : Str) : C (resolveStreamMedia D c ns type mediaId) := by
  unfold Plexio.resolveStreamMedia
  split
  · refine h.bind (h.stremioToPlexId _ _ _) fun plexId => ?_
    split
    · exact h.getMedia _ _ _ _
    · exact h.ret _
  · split
    · exact h.liftBind fun value _ => h.resolveRatingKeyStreamMedia _ _ value
    · split
      · exact h.liftBind fun guid _ => h.getMedia guid _ _ _
      · exact h.getMedia _ _ _ _

theorem getStream (h : Visits D c.discoveryUrl c.accessToken C) (request : Request) (type : StremioMediaType)
    (mediaId : Str) : C (getStream D c request type mediaId) := by
  refine h.bind ?_ fun cached => ?_
  · split
    · exact h.cacheGet _ _
    · exact h.ret _
  · split
    · exact h.ret _
    · refine h.bind (h.resolveStreamMedia _ _ _) fun media => h.liftBind fun streams _ => ?_
      exact h.bind (h.cacheSet _ _ _ _) fun _ => h.ret _

theorem getSectionMedia (h : Visits D url token C) (sectionId : Str) (skip : Nat) (search sort : Str) :
    C (getSectionMedia D url token sectionId skip search sort) := by
  refine h.liftBind fun request hrequest => ?_
  have hown : Own D url token request.url request.params := by
    obtain ⟨order, horder, hrequest⟩ := bind_ok.mp hrequest
    obtain ⟨u, hu, hrequest⟩ := bind_ok.mp hrequest
    obtain ⟨sections, hsections, hu⟩ := bind_ok.mp hu
    obtain ⟨library, hlibrary, hu⟩ := bind_ok.mp hu
    cases hrequest
    refine ⟨⟨u, ((Below.self.divide hsections).divide hlibrary).divide hu, .inl rfl⟩, .append (.append (.append ?_ ?_) ?_) ?_⟩
    · exact .cons (by decide) (.cons (by decide) (.cons (by decide) .nil))
    · exact tokensAre_tokenParam token
    · split
      · exact .nil
      · exact .cons (by decide) .nil
    · split at horder
      · cases horder
        exact .nil
      · obtain ⟨value, -, horder⟩ := bind_ok.mp horder
        cases horder
        exact .cons (by decide) .nil
  exact h.bind (h.json hown) fun json => h.liftBind fun metadata _ => h.lift _

theorem getCollectionMedia (h : Visits D url token C) (ratingKey : Str) (skip : Nat) :
    C (getCollectionMedia D url token ratingKey skip) := by
  refine h.liftBind fun request hrequest => ?_
  have hown : Own D url token request.url request.params := by
    obtain ⟨u, hu, hrequest⟩ := bind_ok.mp hrequest
    obtain ⟨collections, hcollections, hu⟩ := bind_ok.mp hu
    obtain ⟨collection, hcollection, hu⟩ := bind_ok.mp hu
    cases hrequest
    refine ⟨⟨u, ((Below.self.divide hcollections).divide hcollection).divide hu, .inl rfl⟩, .append ?_ ?_⟩
    · exact .cons (by decide) (.cons (by decide) (.cons (by decide) .nil))
    · exact tokensAre_tokenParam token
  exact h.bind (h.json hown) fun json => h.liftBind fun metadata _ => h.lift _

theorem getOnDeck (h : Visits D url token C) : C (getOnDeck D url token) := by
  refine h.liftBind fun onDeck honDeck => ?_
  have hown : Own D url token (D.yarl.str onDeck) (("includeGuids".toList, "1".toList) :: tokenParam token) :=
    ⟨⟨onDeck, Below.self.divide honDeck, .inl rfl⟩, .cons (by decide) (tokensAre_tokenParam token)⟩
  exact h.bind (h.json hown) fun json => h.lift _

theorem resolveShow (h : Visits D c.discoveryUrl c.accessToken C) (item : Metadata) : C (resolveShow D c item) := by
  refine h.bind (h.getMedia _ _ _ _) fun resolved => ?_
  split
  · exact h.ret _
  · exact h.lift _

theorem mapItems (h : Visits D c.discoveryUrl c.accessToken C) (type : StremioMediaType) (seen : List Str)
    (items : List (Metadata × Nat)) : C (mapItems D c type seen items) := by
  induction items generalizing seen with
  | nil => exact h.ret _
  | cons item rest ih =>
    rw [Plexio.mapItems]
    split
    · exact ih seen
    · split
      · split
        · refine h.liftBind fun media _ => h.liftBind fun preview _ => ?_
          exact h.bind (ih seen) fun entries => h.ret _
        · exact ih seen
      · split
        · split
          · exact ih seen
          · refine h.bind (h.resolveShow _) fun media => h.liftBind fun preview _ => ?_
            exact h.bind (ih _) fun entries => h.ret _
        · exact ih seen

theorem recentlyAdded (h : Visits D c.discoveryUrl c.accessToken C) (type : StremioMediaType) (skip : Nat) :
    C (recentlyAdded D c type skip) :=
  h.bind (h.mapM fun _ _ => h.getSectionMedia _ _ _ _) fun _ => h.lift _

theorem getCatalog (h : Visits D c.discoveryUrl c.accessToken C) (type : StremioMediaType) (catalogId extra : Str) :
    C (getCatalog D c type catalogId extra) := by
  refine h.liftBind fun source _ => ?_
  cases source with
  | onDeck => exact h.bind h.getOnDeck fun items => h.map _ (h.mapItems _ _ _)
  | recent => exact h.recentlyAdded _ _
  | collection => exact h.bind (h.getCollectionMedia _ _) fun media => h.lift _
  | library => exact h.bind (h.getSectionMedia _ _ _ _) fun media => h.lift _

/-- **What the questions and the cache's uses have, every request has.** -/
theorem answerAddon (h : Visits D c.discoveryUrl c.accessToken C) (request : AddonRequest) : C (answerAddon D c request) := by
  cases request with
  | catalog => exact h.map _ (h.getCatalog _ _ _)
  | item => exact h.map _ (h.getMeta _ _)
  | stream => exact h.map _ (h.getStream _ _ _)

end Router

end Visits

end Plexio
