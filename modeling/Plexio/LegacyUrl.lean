/-
The configuration a request comes with (`get_addon_configuration` of
`dependencies.py`). A legacy URL holds it whole, in four layers: padding,
Base64, JSON and the model. What fails in one of them is a `ValueError`, which
the client is told of, but for a JSON value with nothing to unpack.
-/
import Plexio.Addon
import Plexio.Lib.JsonText
import Plexio.Runtime

namespace Plexio

open Py Json

variable {Y : Yarl}

/-! ## The layers -/

/-- What `json.loads` raises on bytes. -/
inductive LoadsError
  /-- No UTF-8, 16 or 32, no JSON, or an integer of too many digits: a `ValueError`. -/
  | value (message : Str)
  /-- Nested deeper than the interpreter's stack. -/
  | recursion
  deriving DecidableEq

def LoadsError.toExc : LoadsError → Exc
  | value message => .value message
  | recursion => .runtime

/-- `json.loads(b)`. A float reads as the integer it is equal to when that is
0 or 1, else as `null`: no field takes another float, nor `null`. -/
abbrev Loads := Bytes → Except LoadsError Json.Value

section Layers
variable (loads : Loads)

/-- `base64.urlsafe_b64decode` of the padded text. -/
def decodeBase64 (base64Cfg : Str) : Except Exc Bytes :=
  match urlsafeB64decode false (repad base64Cfg) with
  | .ok decoded => .ok decoded
  | .error .nonAscii => .error (.value "string argument should contain only ASCII characters".toList)
  | .error .binascii => .error (.value "Invalid base64-encoded string".toList)

def loadsJson (decoded : Bytes) : Except Exc Json.Value :=
  match loads decoded with
  | .ok config => .ok config
  | .error e => .error e.toExc

/-- What is tried with a legacy URL. -/
def legacyConfiguration (base64Cfg : Str) : Except Exc (AddonConfiguration Y) := do
  let decoded ← decodeBase64 base64Cfg
  let config ← loadsJson loads decoded
  AddonConfiguration.load Y config

/-- `get_addon_configuration`; `sessions` is the store's `get_config`, if there is a store. -/
def getAddonConfiguration (enableLegacyUrls : Bool) (sessions : Option (Str → Except Exc (Option (AddonConfiguration Y))))
    (base64Cfg sessionId : Option Str) : Except Exc (Option (AddonConfiguration Y)) :=
  match base64Cfg, sessionId with
  | some cfg, _ =>
    if !enableLegacyUrls then .error (.http 404 "Legacy configuration URLs are disabled".toList)
    else
      match legacyConfiguration loads cfg with
      | .ok configuration => .ok (some configuration)
      | .error e => .error (if e.isValueError then .http 400 "Invalid legacy configuration URL".toList else e)
  | none, some sessionId =>
    match sessions with
    | none => .error (.http 404 "Sessions are not enabled".toList)
    | some getConfig => do
      match ← getConfig sessionId with
      | none => .error (.http 404 "Session not found".toList)
      | some configuration => pure (some configuration)
  | none, none => .ok none

/-! ## How they end -/

/-- Reading the bytes of a legacy URL as JSON, if it has bytes, ends so. -/
def Holds (base64Cfg : Str) (result : Except LoadsError Json.Value) : Prop :=
  ∃ decoded, urlsafeB64decode false (repad base64Cfg) = .ok decoded ∧ loads decoded = result

/-- The URL holds no JSON value other than an object, and none too deep to read. -/
structure Unpacks (base64Cfg : Str) : Prop where
  object : ∀ config, Holds loads base64Cfg (.ok config) → ∃ members, config.1 = .obj members
  depth : ¬ Holds loads base64Cfg (.error .recursion)

/-- A configuration, or an error of the client. -/
def ClientError (result : Except Exc (Option (AddonConfiguration Y))) : Prop :=
  (∃ configuration j, result = .ok (some configuration) ∧ AddonConfiguration.check Y j = .ok configuration) ∨
    ∃ detail, result = .error (.http 400 detail)

end Layers

section Ends
variable {loads : Loads} {base64Cfg : Str} {decoded : Bytes}

/-- One URL is read in one way. -/
theorem Holds.unique {r r' : Except LoadsError Json.Value} (h : Holds loads base64Cfg r) (h' : Holds loads base64Cfg r') : r = r' := by
  obtain ⟨decoded, hdecoded, rfl⟩ := h
  obtain ⟨decoded', hdecoded', rfl⟩ := h'
  rw [hdecoded] at hdecoded'
  rw [Except.ok.inj hdecoded']

/-- Each way the layers end. -/
inductive Ends (loads : Loads) (base64Cfg : Str) : Except Exc (AddonConfiguration Y) → Prop
  | undecoded (message : Str) (h : ∀ r, ¬ Holds loads base64Cfg r) : Ends loads base64Cfg (.error (.value message))
  | unread (message : Str) (h : Holds loads base64Cfg (.error (.value message))) : Ends loads base64Cfg (.error (.value message))
  | tooDeep (h : Holds loads base64Cfg (.error .recursion)) : Ends loads base64Cfg (.error .runtime)
  | noObject (config : Json.Value) (h : Holds loads base64Cfg (.ok config)) (hne : ∀ members, config.1 ≠ .obj members) :
      Ends loads base64Cfg (.error .type)
  | refused (config : Json.Value) (h : Holds loads base64Cfg (.ok config)) {members : List (Str × Json)}
      (hmembers : config.1 = .obj members) (e : Json.Error) : Ends loads base64Cfg (.error (.validation e))
  | accepted (config : Json.Value) (h : Holds loads base64Cfg (.ok config)) {members : List (Str × Json)}
      (hmembers : config.1 = .obj members) {configuration : AddonConfiguration Y}
      (hcheck : AddonConfiguration.check Y (.obj members) = .ok configuration) : Ends loads base64Cfg (.ok configuration)

/-- **The layers end in one of these ways.** -/
theorem ends_legacyConfiguration (loads : Loads) (base64Cfg : Str) :
    Ends loads base64Cfg (legacyConfiguration (Y := Y) loads base64Cfg) := by
  unfold legacyConfiguration decodeBase64
  cases hdecoded : urlsafeB64decode false (repad base64Cfg) with
  | error e =>
    have hnone : ∀ r, ¬ Holds loads base64Cfg r := by
      intro r hholds
      obtain ⟨decoded, hd, -⟩ := hholds
      rw [hdecoded] at hd
      cases hd
    cases e <;> exact .undecoded _ hnone
  | ok decoded =>
    dsimp only
    rw [ok_bind, loadsJson]
    cases hloads : loads decoded with
    | error e =>
      have hholds : Holds loads base64Cfg (.error e) := ⟨decoded, hdecoded, hloads⟩
      cases e with
      | value message => exact .unread message hholds
      | recursion => exact .tooDeep hholds
    | ok config =>
      have hholds : Holds loads base64Cfg (.ok config) := ⟨decoded, hdecoded, hloads⟩
      dsimp only
      rw [ok_bind, AddonConfiguration.load]
      cases hconfig : config.1 with
      | obj members =>
        dsimp only
        cases hcheck : AddonConfiguration.check Y (.obj members) with
        | ok configuration => exact .accepted config hholds hconfig hcheck
        | error e => exact .refused config hholds hconfig e
      | null | bool | num | str | arr => exact .noObject config hholds (by simp [hconfig])

theorem unpacks_of_object {config : Json.Value} (h : Holds loads base64Cfg (.ok config)) {members : List (Str × Json)}
    (hmembers : config.1 = .obj members) : Unpacks loads base64Cfg where
  object other hother := by
    obtain rfl : config = other := Except.ok.inj (h.unique hother)
    exact ⟨members, hmembers⟩
  depth hdeep := by cases h.unique hdeep

end Ends

/-- **A malformed legacy URL is the client's error** exactly when it holds no
JSON value that cannot be unpacked. -/
theorem legacy_client_error_iff (loads : Loads) (sessions : Option (Str → Except Exc (Option (AddonConfiguration Y))))
    (base64Cfg : Str) (sessionId : Option Str) :
    ClientError (getAddonConfiguration loads true sessions (some base64Cfg) sessionId) ↔ Unpacks loads base64Cfg := by
  have hother : ∀ {e : Exc}, (∀ status detail, e ≠ .http status detail) →
      ¬ ClientError (.error e : Except Exc (Option (AddonConfiguration Y))) := by
    intro e he hclient
    rcases hclient with ⟨configuration, j, h, -⟩ | ⟨detail, h⟩
    · cases h
    · exact he 400 detail (Except.error.inj h)
  simp only [getAddonConfiguration, Bool.not_true, Bool.false_eq_true, if_false]
  generalize hlegacy : legacyConfiguration (Y := Y) loads base64Cfg = result
  have hends := ends_legacyConfiguration (Y := Y) loads base64Cfg
  rw [hlegacy] at hends
  cases hends with
  | undecoded message h =>
    exact iff_of_true (.inr ⟨_, rfl⟩) ⟨fun config hholds => absurd hholds (h _), h _⟩
  | unread message h =>
    refine iff_of_true (.inr ⟨_, rfl⟩) ⟨fun config hholds => ?_, fun hdeep => ?_⟩
    · cases h.unique hholds
    · cases h.unique hdeep
  | tooDeep h => exact iff_of_false (hother (by simp [Exc.isValueError])) fun hunpacks => hunpacks.depth h
  | noObject config h hne =>
    refine iff_of_false (hother (by simp [Exc.isValueError])) fun hunpacks => ?_
    obtain ⟨members, hmembers⟩ := hunpacks.object config h
    exact hne members hmembers
  | refused config h hmembers e => exact iff_of_true (.inr ⟨_, rfl⟩) (unpacks_of_object h hmembers)
  | accepted config h hmembers hcheck => exact iff_of_true (.inl ⟨_, _, rfl, hcheck⟩) (unpacks_of_object h hmembers)

/-- `json.loads` of UTF-8 without numbers that are no integers. -/
def Loads.utf8 : Loads := fun decoded =>
  match (decode? decoded).bind Json.loads with
  | some config => .ok config
  | none => .error (.value "Expecting value: line 1 column 1 (char 0)".toList)

/-- The legacy URL of `[]`. -/
theorem legacy_array_escapes :
    getAddonConfiguration (Y := Yarl.plain) .utf8 true none (some "W10".toList) none = .error .type := by
  have hbytes : urlsafeB64decode false (repad "W10".toList) = .ok (encode "[]".toList) := by decide +kernel
  have hloads : Loads.utf8 (encode "[]".toList) = .ok ⟨.arr [], trivial⟩ := by
    rw [Loads.utf8, decode?_encode, Option.bind_some]
    rfl
  simp only [getAddonConfiguration, legacyConfiguration, decodeBase64, hbytes, ok_bind, loadsJson, hloads, AddonConfiguration.load]
  rfl

end Plexio
