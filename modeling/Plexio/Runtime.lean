/-
What the code stands on: the exceptions it raises, its settings, and the
parts of other software that are parameters here. Each parameter carries the
one law the code relies on: SHA-256 tells texts apart, and what a model
writes as JSON it reads back.
-/
import Plexio.Lib.Json
import Plexio.Url

namespace Plexio

open Py

/-- What the code raises or lets pass. -/
inductive Exc
  | value (message : Str)
  | validation (error : Json.Error)
  | type
  | key
  | index
  | attribute
  | runtime
  /-- `OverflowError`: a number out of the range of floats. -/
  | overflow
  | http (status : Nat) (detail : Str)
  | plexUnauthorized
  | sessionCapacity
  /-- `sqlite3.IntegrityError`. -/
  | integrity
  /-- Whatever a cache backend raises. -/
  | backend
  deriving DecidableEq

/-- `except ValueError`: pydantic's and `json`'s errors are of that class. -/
def Exc.isValueError : Exc → Bool
  | .value _ | .validation _ => true
  | _ => false

/-- `hashlib.sha256(s.encode()).hexdigest()`. -/
structure Sha256 where
  hexdigest : Str → Str
  injective : Function.Injective hexdigest
  hex : ∀ s, ∀ c ∈ hexdigest s, c ∈ "0123456789abcdef".toList
  nonempty : ∀ s, hexdigest s ≠ []

theorem Sha256.colon (S : Sha256) (s : Str) : ':' ∉ S.hexdigest s := by
  intro h
  exact absurd (S.hex s _ h) (by decide)

/-- A model's JSON text: what `model_dump_json` writes, validation reads. -/
structure Codec (α : Type) where
  dump : α → Str
  load : Str → Option α
  load_dump : ∀ a, load (dump a) = some a

/-- The Unicode tables behind `str.casefold`, `str.upper`, `str.isdigit` and `int`. -/
structure Unicode where
  casefold : Str → Str
  upper : Str → Str
  isdigit : Char → Bool
  /-- The value of a decimal digit, of any script. -/
  decimal : Char → Option Nat

/-- The settings the modelled functions read. -/
structure Settings where
  plexMatchCacheTtl : Nat
  plexMetadataCacheTtl : Nat
  streamCacheTtl : Nat
  plexMatchingToken : Option Str
  baseUrl : Option Str
  trustProxyHeaders : Bool
  disableStreamProxy : Bool

/-- The values of `Settings` where the environment sets none. -/
def Settings.default : Settings where
  plexMatchCacheTtl := 86400
  plexMetadataCacheTtl := 300
  streamCacheTtl := 300
  plexMatchingToken := none
  baseUrl := none
  trustProxyHeaders := false
  disableStreamProxy := false

/-! ## A digest and tables to compute with -/

namespace Sha256

def hexChar (n : Nat) : Char := "0123456789abcdef".toList.getD n '0'

def hex6 (n : Nat) : Str :=
  [hexChar (n / 1048576 % 16), hexChar (n / 65536 % 16), hexChar (n / 4096 % 16), hexChar (n / 256 % 16),
    hexChar (n / 16 % 16), hexChar (n % 16)]

theorem hexChar_inj : ∀ m < 16, ∀ n < 16, hexChar m = hexChar n → m = n := by decide +kernel

theorem hexChar_mem : ∀ n < 16, hexChar n ∈ "0123456789abcdef".toList := by decide +kernel

theorem hex6_inj {m n : Nat} (hm : m < 16777216) (hn : n < 16777216) (h : hex6 m = hex6 n) : m = n := by
  simp only [hex6, List.cons.injEq, and_true] at h
  obtain ⟨h1, h2, h3, h4, h5, h6⟩ := h
  have lt : ∀ k : Nat, k % 16 < 16 := fun k => Nat.mod_lt k (by decide)
  have e1 := hexChar_inj _ (lt _) _ (lt _) h1
  have e2 := hexChar_inj _ (lt _) _ (lt _) h2
  have e3 := hexChar_inj _ (lt _) _ (lt _) h3
  have e4 := hexChar_inj _ (lt _) _ (lt _) h4
  have e5 := hexChar_inj _ (lt _) _ (lt _) h5
  have e6 := hexChar_inj _ (lt _) _ (lt _) h6
  omega

theorem toNat_lt (c : Char) : c.toNat < 16777216 := by
  have : c.toNat < 0xD800 ∨ (0xDFFF < c.toNat ∧ c.toNat < 0x110000) := c.valid
  omega

/-- An ASCII character in two digits, another in an `f` and six. -/
def hexCode (c : Char) : Str :=
  if c.toNat < 128 then [hexChar (c.toNat / 16), hexChar (c.toNat % 16)] else 'f' :: hex6 c.toNat

theorem hexChar_low : ∀ n < 8, hexChar n ≠ 'f' := by decide +kernel

/-- The first code is told from what follows it. -/
theorem hexCode_append {c d : Char} {s t : Str} (h : hexCode c ++ s = hexCode d ++ t) : c = d ∧ s = t := by
  simp only [hexCode] at h
  by_cases hc : c.toNat < 128 <;> by_cases hd : d.toNat < 128
  · simp only [hc, hd, if_true, List.cons_append, List.nil_append, List.cons.injEq] at h
    have hhigh := hexChar_inj _ (by omega) _ (by omega) h.1
    have hlow := hexChar_inj _ (by omega) _ (by omega) h.2.1
    exact ⟨Char.toNat_inj.mp (by omega), h.2.2⟩
  · simp only [hc, hd, if_true, if_false, List.cons_append, List.cons.injEq] at h
    exact absurd h.1 (hexChar_low _ (by omega))
  · simp only [hc, hd, if_true, if_false, List.cons_append, List.cons.injEq] at h
    exact absurd h.1.symm (hexChar_low _ (by omega))
  · simp only [hc, hd, if_false, List.cons_append, List.cons.injEq, true_and] at h
    obtain ⟨hcd, hst⟩ := List.append_inj h rfl
    exact ⟨Char.toNat_inj.mp (hex6_inj (toNat_lt c) (toNat_lt d) hcd), hst⟩

theorem hexCode_ne_nil (c : Char) : hexCode c ≠ [] := by
  rw [hexCode]
  split <;> simp

theorem flatMap_hexCode_inj : ∀ s t : Str, s.flatMap hexCode = t.flatMap hexCode → s = t
  | [], [], _ => rfl
  | [], d :: t, h => by simp [hexCode_ne_nil] at h
  | c :: s, [], h => by simp [hexCode_ne_nil] at h
  | c :: s, d :: t, h => by
    rw [List.flatMap_cons, List.flatMap_cons] at h
    obtain ⟨rfl, hst⟩ := hexCode_append h
    rw [flatMap_hexCode_inj s t hst]

theorem mem_hexCode {c d : Char} (h : d ∈ hexCode c) : d ∈ "0123456789abcdef".toList := by
  have lt : ∀ k : Nat, k % 16 < 16 := fun k => Nat.mod_lt k (by decide)
  rw [hexCode] at h
  split at h
  · simp only [List.mem_cons, List.not_mem_nil, or_false] at h
    rcases h with rfl | rfl
    · exact hexChar_mem _ (by omega)
    · exact hexChar_mem _ (by omega)
  · simp only [hex6, List.mem_cons, List.not_mem_nil, or_false] at h
    rcases h with rfl | rfl | rfl | rfl | rfl | rfl | rfl
    · decide
    all_goals exact hexChar_mem _ (lt _)

/-- The digits of each character, after one that keeps the text from being empty. -/
def plain : Sha256 where
  hexdigest s := '0' :: s.flatMap hexCode
  injective s t h := flatMap_hexCode_inj s t (List.cons.inj h).2
  hex s c hc := by
    rcases List.mem_cons.mp hc with rfl | hc
    · decide
    · obtain ⟨d, -, hd⟩ := List.mem_flatMap.mp hc
      exact mem_hexCode hd
  nonempty s := by simp

end Sha256

def Unicode.ascii : Unicode where
  casefold s := s.map Char.toLower
  upper s := s.map Char.toUpper
  isdigit := Char.isDigit
  decimal c := if c.isDigit then some (c.toNat - '0'.toNat) else none

theorem Unicode.ascii_readsDigits : ReadsDigits Unicode.ascii.decimal := fun _ h => if_pos h

end Plexio
