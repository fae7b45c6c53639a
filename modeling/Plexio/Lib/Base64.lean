/-
Text as bytes: UTF-8 (`str.encode`, `bytes.decode`), percent-encoding
(`urllib.parse.quote`) and Base64 as `base64` and `binascii` compute it, the
strict and the lenient decoder both.

`a2bBase64_b64encode` is the round trip; `b64decode_repad` the one programs
rely on that strip the padding and put it back. `decode?_continuation` says
that no text begins with a UTF-8 continuation byte, so Base64 text whose
first character stands for one decodes to no text.
-/
import Plexio.Lib.Str

namespace Py

abbrev Bytes := List UInt8

/-- `s.encode()`. -/
def encode (s : Str) : Bytes := s.flatMap String.utf8EncodeChar

/-- `b.decode()`, strict; `none` is `UnicodeDecodeError`. -/
def decode? (b : Bytes) : Option Str := b.toByteArray.utf8Decode?.map Array.toList

theorem decode?_encode (s : Str) : decode? (encode s) = some s := by
  have : (encode s).toByteArray = s.utf8Encode := rfl
  rw [decode?, this, List.utf8Decode?_utf8Encode]
  simp

theorem encode_ne_nil {s : Str} (h : s ≠ []) : encode s ≠ [] := by
  obtain ⟨c, cs, rfl⟩ := List.exists_cons_of_ne_nil h
  simp [encode]

/-- A byte `10xxxxxx`, which only continues a character. -/
def IsContinuation (b : UInt8) : Prop := 128 ≤ b.toNat ∧ b.toNat < 192

theorem not_continuation_of_first {b : UInt8} (h : b.IsUTF8FirstByte) : ¬ IsContinuation b := by
  have all : ∀ n < 256, (UInt8.ofNat n).IsUTF8FirstByte → ¬ (128 ≤ n ∧ n < 192) := by decide +kernel
  have := all b.toNat b.toNat_lt (by simpa using h)
  exact this

/-- The first byte of an encoded text is not a continuation byte. -/
theorem encode_head {s : Str} {b : UInt8} {bs : Bytes} (h : encode s = b :: bs) : ¬ IsContinuation b := by
  cases s with
  | nil => simp [encode] at h
  | cons c cs =>
    obtain ⟨x, xs, hx⟩ := List.exists_cons_of_ne_nil (String.utf8EncodeChar_ne_nil (c := c))
    have hfirst := UInt8.isUTF8FirstByte_getElem_zero_utf8EncodeChar (c := c)
    simp only [encode, List.flatMap_cons, hx, List.cons_append, List.cons.injEq] at h
    simp only [hx, List.getElem_cons_zero, h.1] at hfirst
    exact not_continuation_of_first hfirst

theorem encode_decode? {b : Bytes} {s : Str} (h : decode? b = some s) : encode s = b := by
  simp only [decode?, Option.map_eq_some_iff] at h
  obtain ⟨cs, hcs, rfl⟩ := h
  have hsome : b.toByteArray.utf8Decode?.isSome := by simp [hcs]
  have := ByteArray.utf8Encode_get_utf8Decode? (h := hsome)
  simp only [hcs, Option.get_some] at this
  have := congrArg (fun b => b.data.toList) this
  simpa [List.utf8Encode, encode] using this

/-- Bytes that begin with a continuation byte are no text. -/
theorem decode?_continuation {b : UInt8} {bs : Bytes} (h : IsContinuation b) : decode? (b :: bs) = none := by
  rcases hd : decode? (b :: bs) with _ | s
  · rfl
  · exact absurd h (encode_head (encode_decode? hd))

/-! ## Percent-encoding -/

def hexDigit (n : Nat) : Char := ("0123456789ABCDEF".toList).getD n '0'

/-- The characters `quote(s, safe='')` keeps. -/
def isUnreserved (c : Char) : Bool := c.isAlphanum || c == '_' || c == '.' || c == '-' || c == '~'

/-- `%XX` of one byte. -/
def quoteByte (b : UInt8) : Str := ['%', hexDigit (b.toNat / 16), hexDigit (b.toNat % 16)]

def quoteChar (c : Char) : Str :=
  if isUnreserved c then [c] else (String.utf8EncodeChar c).flatMap quoteByte

/-- `urllib.parse.quote(s, safe='')`. -/
def quote (s : Str) : Str := s.flatMap quoteChar

theorem quote_ne_nil {s : Str} (h : s ≠ []) : quote s ≠ [] := by
  obtain ⟨c, cs, rfl⟩ := List.exists_cons_of_ne_nil h
  obtain ⟨b, bs, hb⟩ := List.exists_cons_of_ne_nil (String.utf8EncodeChar_ne_nil (c := c))
  simp only [quote, List.flatMap_cons, quoteChar, hb]
  split <;> simp [quoteByte]

theorem hexDigit_isAlphanum : ∀ n < 16, (hexDigit n).isAlphanum = true := by decide +kernel

/-- A character is kept, or written in percent signs and hexadecimal digits. -/
theorem mem_quoteChar {c d : Char} (h : d ∈ quoteChar c) :
    (isUnreserved c = true ∧ d = c) ∨ d = '%' ∨ d.isAlphanum = true := by
  unfold quoteChar at h
  split at h
  · next hc => exact .inl ⟨hc, List.mem_singleton.mp h⟩
  · obtain ⟨b, -, hb⟩ := List.mem_flatMap.mp h
    have := b.toNat_lt
    simp only [quoteByte, List.mem_cons, List.not_mem_nil, or_false] at hb
    rcases hb with rfl | rfl | rfl
    · exact .inr (.inl rfl)
    · exact .inr (.inr (hexDigit_isAlphanum _ (by omega)))
    · exact .inr (.inr (hexDigit_isAlphanum _ (by omega)))

/-! ## Base64 -/

def b64chars : Str := "ABCDEFGHIJKLMNOPQRSTUVWXYZabcdefghijklmnopqrstuvwxyz0123456789+/".toList

def sextetChar (n : Nat) : Char := b64chars.getD n '='

/-- `table_a2b_base64`: the value of a character, if it is in the alphabet. -/
def sextet? (c : Char) : Option Nat :=
  if 'A' ≤ c ∧ c ≤ 'Z' then some (c.toNat - 65)
  else if 'a' ≤ c ∧ c ≤ 'z' then some (c.toNat - 97 + 26)
  else if '0' ≤ c ∧ c ≤ '9' then some (c.toNat - 48 + 52)
  else if c = '+' then some 62
  else if c = '/' then some 63
  else none

theorem sextet?_char : ∀ n < 64, sextet? (sextetChar n) = some n := by decide +kernel

theorem sextetChar_ne_pad (n : Nat) (hn : n < 64) : sextetChar n ≠ '=' := by
  intro h
  have hnone : sextet? '=' = some n := h ▸ sextet?_char n hn
  cases hnone

/-- `base64.b64encode(s)`. -/
def b64encode : Bytes → Str
  | a :: b :: c :: rest =>
    sextetChar (a.toNat / 4) :: sextetChar (a.toNat % 4 * 16 + b.toNat / 16) ::
      sextetChar (b.toNat % 16 * 4 + c.toNat / 64) :: sextetChar (c.toNat % 64) :: b64encode rest
  | [a, b] => [sextetChar (a.toNat / 4), sextetChar (a.toNat % 4 * 16 + b.toNat / 16),
      sextetChar (b.toNat % 16 * 4), '=']
  | [a] => [sextetChar (a.toNat / 4), sextetChar (a.toNat % 4 * 16), '=', '=']
  | [] => []

theorem b64encode_three (a b c : UInt8) (rest : Bytes) : b64encode (a :: b :: c :: rest) =
    sextetChar (a.toNat / 4) :: sextetChar (a.toNat % 4 * 16 + b.toNat / 16) ::
      sextetChar (b.toNat % 16 * 4 + c.toNat / 64) :: sextetChar (c.toNat % 64) :: b64encode rest := rfl

theorem b64encode_two (a b : UInt8) : b64encode [a, b] = [sextetChar (a.toNat / 4),
    sextetChar (a.toNat % 4 * 16 + b.toNat / 16), sextetChar (b.toNat % 16 * 4), '='] := rfl

theorem b64encode_one (a : UInt8) :
    b64encode [a] = [sextetChar (a.toNat / 4), sextetChar (a.toNat % 4 * 16), '=', '='] := rfl

/-- The loop of `binascii.a2b_base64` (CPython 3.11), in its state: the
position in the quantum, the bits left over, the pads since the last data
character and whether any padding was seen. `none` is `binascii.Error`. -/
def a2bFrom (strict : Bool) : Str → Nat → Nat → Nat → Bool → Option Bytes
  | [], quad, _, _, _ => if quad = 0 then some [] else none
  | c :: cs, quad, left, pads, padding =>
    if c = '=' then
      if 2 ≤ quad ∧ 4 ≤ quad + (pads + 1) then if strict && !cs.isEmpty then none else some []
      else a2bFrom strict cs quad left (if 2 ≤ quad then pads + 1 else pads) true
    else
      match sextet? c with
      | none => if strict then none else a2bFrom strict cs quad left pads padding
      | some v =>
        if strict && padding then none
        else
          match quad with
          | 0 => a2bFrom strict cs 1 v 0 padding
          | 1 => (a2bFrom strict cs 2 (v % 16) 0 padding).map (UInt8.ofNat (left * 4 + v / 16) :: ·)
          | 2 => (a2bFrom strict cs 3 (v % 4) 0 padding).map (UInt8.ofNat (left * 16 + v / 4) :: ·)
          | _ => (a2bFrom strict cs 0 0 0 padding).map (UInt8.ofNat (left * 64 + v) :: ·)

def a2bBase64 (strict : Bool) (s : Str) : Option Bytes :=
  -- The strict decoder looks for excess padding only at the very start.
  if strict && s.head? == some '=' then none else a2bFrom strict s 0 0 0 false

/-- A data character, in each place of a quantum. -/
theorem a2bFrom_data {strict : Bool} {c : Char} {v : Nat} (hc : c ≠ '=') (hv : sextet? c = some v) (cs : Str) (left pads : Nat) :
    a2bFrom strict (c :: cs) 0 left pads false = a2bFrom strict cs 1 v 0 false ∧
    a2bFrom strict (c :: cs) 1 left pads false =
      (a2bFrom strict cs 2 (v % 16) 0 false).map (UInt8.ofNat (left * 4 + v / 16) :: ·) ∧
    a2bFrom strict (c :: cs) 2 left pads false =
      (a2bFrom strict cs 3 (v % 4) 0 false).map (UInt8.ofNat (left * 16 + v / 4) :: ·) ∧
    a2bFrom strict (c :: cs) 3 left pads false = (a2bFrom strict cs 0 0 0 false).map (UInt8.ofNat (left * 64 + v) :: ·) := by
  simp only [a2bFrom, if_neg hc, hv, Bool.and_false, Bool.false_eq_true, if_false, and_self]

section Quantum
variable {strict : Bool} {n left pads : Nat} (hn : n < 64) (cs : Str)
include hn

theorem a2bFrom_data₀ : a2bFrom strict (sextetChar n :: cs) 0 left pads false = a2bFrom strict cs 1 n 0 false :=
  (a2bFrom_data (sextetChar_ne_pad n hn) (sextet?_char n hn) cs left pads).1

theorem a2bFrom_data₁ : a2bFrom strict (sextetChar n :: cs) 1 left pads false =
    (a2bFrom strict cs 2 (n % 16) 0 false).map (UInt8.ofNat (left * 4 + n / 16) :: ·) :=
  (a2bFrom_data (sextetChar_ne_pad n hn) (sextet?_char n hn) cs left pads).2.1

theorem a2bFrom_data₂ : a2bFrom strict (sextetChar n :: cs) 2 left pads false =
    (a2bFrom strict cs 3 (n % 4) 0 false).map (UInt8.ofNat (left * 16 + n / 4) :: ·) :=
  (a2bFrom_data (sextetChar_ne_pad n hn) (sextet?_char n hn) cs left pads).2.2.1

theorem a2bFrom_data₃ : a2bFrom strict (sextetChar n :: cs) 3 left pads false =
    (a2bFrom strict cs 0 0 0 false).map (UInt8.ofNat (left * 64 + n) :: ·) :=
  (a2bFrom_data (sextetChar_ne_pad n hn) (sextet?_char n hn) cs left pads).2.2.2

end Quantum

/-- One pad ends a quantum of three characters, two one of two. -/
theorem a2bFrom_pad {strict : Bool} {left : Nat} : a2bFrom strict ['='] 3 left 0 false = some [] := by
  cases strict <;> rfl

theorem a2bFrom_pads {strict : Bool} {left : Nat} : a2bFrom strict ['=', '='] 2 left 0 false = some [] := by
  cases strict <;> rfl

theorem ofNat_eq {n : Nat} {a : UInt8} (h : n = a.toNat) : UInt8.ofNat n = a := by simp [h]

theorem a2bFrom_b64encode (strict : Bool) : ∀ bs : Bytes, a2bFrom strict (b64encode bs) 0 0 0 false = some bs
  | a :: b :: c :: rest => by
    have ha := a.toNat_lt; have hb := b.toNat_lt; have hc := c.toNat_lt
    have ih := a2bFrom_b64encode strict rest
    rw [b64encode_three, a2bFrom_data₀ (by omega), a2bFrom_data₁ (by omega),
      a2bFrom_data₂ (by omega), a2bFrom_data₃ (by omega), ih, Option.map_some, Option.map_some, Option.map_some]
    rw [ofNat_eq (a := a) (by omega), ofNat_eq (a := b) (by omega), ofNat_eq (a := c) (by omega)]
  | [a, b] => by
    have ha := a.toNat_lt; have hb := b.toNat_lt
    rw [b64encode_two, a2bFrom_data₀ (by omega), a2bFrom_data₁ (by omega),
      a2bFrom_data₂ (by omega), a2bFrom_pad, Option.map_some, Option.map_some]
    rw [ofNat_eq (a := a) (by omega), ofNat_eq (a := b) (by omega)]
  | [a] => by
    have ha := a.toNat_lt
    rw [b64encode_one, a2bFrom_data₀ (by omega), a2bFrom_data₁ (by omega), a2bFrom_pads, Option.map_some]
    rw [ofNat_eq (a := a) (by omega)]
  | [] => rfl

theorem b64encode_head (bs : Bytes) : (b64encode bs).head? ≠ some '=' := by
  match bs with
  | a :: b :: c :: rest | [a, b] | [a] =>
    have ha := a.toNat_lt
    simpa [b64encode_three, b64encode_two, b64encode_one] using sextetChar_ne_pad (a.toNat / 4) (by omega)
  | [] => exact nofun

/-- **The Base64 round trip**, by either decoder. -/
theorem a2bBase64_b64encode (strict : Bool) (bs : Bytes) : a2bBase64 strict (b64encode bs) = some bs := by
  rw [a2bBase64, if_neg (by simp [b64encode_head]), a2bFrom_b64encode]

/-- Encoded text is data characters, then at most two pads, in whole quanta. -/
theorem b64encode_shape : ∀ bs : Bytes, ∃ body n, b64encode bs = body ++ List.replicate n '=' ∧
    '=' ∉ body ∧ n < 3 ∧ (body.length + n) % 4 = 0
  | a :: b :: c :: rest => by
    have ha := a.toNat_lt; have hb := b.toNat_lt; have hc := c.toNat_lt
    obtain ⟨body, n, hr, hm, hn, hl⟩ := b64encode_shape rest
    refine ⟨sextetChar (a.toNat / 4) :: sextetChar (a.toNat % 4 * 16 + b.toNat / 16) ::
      sextetChar (b.toNat % 16 * 4 + c.toNat / 64) :: sextetChar (c.toNat % 64) :: body, n, ?_, ?_, hn, ?_⟩
    · rw [b64encode_three, hr]; rfl
    · simp only [List.mem_cons, not_or]
      exact ⟨(sextetChar_ne_pad _ (by omega)).symm, (sextetChar_ne_pad _ (by omega)).symm,
        (sextetChar_ne_pad _ (by omega)).symm, (sextetChar_ne_pad _ (by omega)).symm, hm⟩
    · simp only [List.length_cons]; omega
  | [a, b] => by
    have ha := a.toNat_lt; have hb := b.toNat_lt
    refine ⟨[sextetChar (a.toNat / 4), sextetChar (a.toNat % 4 * 16 + b.toNat / 16),
      sextetChar (b.toNat % 16 * 4)], 1, rfl, ?_, by omega, by simp⟩
    simp only [List.mem_cons, not_or, List.not_mem_nil, not_false_eq_true, and_true]
    exact ⟨(sextetChar_ne_pad _ (by omega)).symm, (sextetChar_ne_pad _ (by omega)).symm,
      (sextetChar_ne_pad _ (by omega)).symm⟩
  | [a] => by
    have ha := a.toNat_lt
    refine ⟨[sextetChar (a.toNat / 4), sextetChar (a.toNat % 4 * 16)], 2, rfl, ?_, by omega, by simp⟩
    simp only [List.mem_cons, not_or, List.not_mem_nil, not_false_eq_true, and_true]
    exact ⟨(sextetChar_ne_pad _ (by omega)).symm, (sextetChar_ne_pad _ (by omega)).symm⟩
  | [] => ⟨[], 0, rfl, by simp, by omega, rfl⟩

/-- Every character of encoded text is of the alphabet or a pad. -/
theorem mem_b64encode {c : Char} : ∀ {bs : Bytes}, c ∈ b64encode bs → (∃ n < 64, c = sextetChar n) ∨ c = '='
  | a :: b :: d :: rest, h => by
    have ha := a.toNat_lt; have hb := b.toNat_lt; have hd := d.toNat_lt
    simp only [b64encode_three, List.mem_cons] at h
    rcases h with rfl | rfl | rfl | rfl | h
    · exact .inl ⟨_, by omega, rfl⟩
    · exact .inl ⟨_, by omega, rfl⟩
    · exact .inl ⟨_, by omega, rfl⟩
    · exact .inl ⟨_, by omega, rfl⟩
    · exact mem_b64encode h
  | [a, b], h => by
    have ha := a.toNat_lt; have hb := b.toNat_lt
    simp only [b64encode_two, List.mem_cons, List.not_mem_nil, or_false] at h
    rcases h with rfl | rfl | rfl | rfl
    · exact .inl ⟨_, by omega, rfl⟩
    · exact .inl ⟨_, by omega, rfl⟩
    · exact .inl ⟨_, by omega, rfl⟩
    · exact .inr rfl
  | [a], h => by
    have ha := a.toNat_lt
    simp only [b64encode_one, List.mem_cons, List.not_mem_nil, or_false, or_self] at h
    rcases h with rfl | rfl | rfl
    · exact .inl ⟨_, by omega, rfl⟩
    · exact .inl ⟨_, by omega, rfl⟩
    · exact .inr rfl
  | [], h => by cases h

/-- The first two characters give the first byte, whatever follows. -/
theorem a2bBase64_head {strict : Bool} {c d : Char} {v w : Nat} {cs : Str} {bs : Bytes} (hc : c ≠ '=') (hd : d ≠ '=')
    (hv : sextet? c = some v) (hw : sextet? d = some w) (h : a2bBase64 strict (c :: d :: cs) = some bs) :
    ∃ t, bs = UInt8.ofNat (v * 4 + w / 16) :: t := by
  rw [a2bBase64, if_neg (by simp [hc]), (a2bFrom_data hc hv _ _ _).1, (a2bFrom_data hd hw _ _ _).2.1,
    Option.map_eq_some_iff] at h
  obtain ⟨t, -, rfl⟩ := h
  exact ⟨t, rfl⟩

/-! ## The URL-safe alphabet, without padding -/

def toUrlsafe (c : Char) : Char := if c = '+' then '-' else if c = '/' then '_' else c

/-- `bytes.maketrans(b'-_', b'+/')`: the standard spellings stay as they are. -/
def fromUrlsafe (c : Char) : Char := if c = '-' then '+' else if c = '_' then '/' else c

/-- `base64.urlsafe_b64encode(s)`. -/
def urlsafeB64encode (bs : Bytes) : Str := (b64encode bs).map toUrlsafe

/-- What decoding raises: both are `ValueError`s in Python. -/
inductive DecodeError
  | nonAscii
  | binascii
  deriving DecidableEq, Repr

/-- `base64.b64decode(s, altchars=b'-_', validate=strict)`; with `strict` off,
`base64.urlsafe_b64decode(s)`. -/
def urlsafeB64decode (strict : Bool) (s : Str) : Except DecodeError Bytes :=
  if s.all (·.toNat < 128) then
    match a2bBase64 strict (s.map fromUrlsafe) with
    | some b => .ok b
    | none => .error .binascii
  else .error .nonAscii

/-- `s + '=' * (-len(s) % 4)`. -/
def repad (s : Str) : Str := s ++ List.replicate ((4 - s.length % 4) % 4) '='

theorem fromUrlsafe_toUrlsafe : ∀ n < 64, fromUrlsafe (toUrlsafe (sextetChar n)) = sextetChar n := by decide +kernel

/-- A character of URL-safe Base64. -/
def isUrlsafe (c : Char) : Bool := c.isAlphanum || c == '-' || c == '_'

theorem isUrlsafe_toUrlsafe : ∀ n < 64, isUrlsafe (toUrlsafe (sextetChar n)) = true := by decide +kernel

theorem isUrlsafe_ascii {c : Char} (h : isUrlsafe c = true) : c.toNat < 128 := by
  change ((((decide (c.val ≥ 'A'.val ∧ c.val ≤ 'Z'.val) || (c.val ≥ 'a'.val && c.val ≤ 'z'.val)) ||
    (c.val ≥ '0'.val && c.val ≤ '9'.val)) || c == '-') || c == '_') = true at h
  simp only [Bool.or_eq_true, Bool.and_eq_true, decide_eq_true_eq, beq_iff_eq] at h
  have hval : c.toNat = c.val.toNat := rfl
  rcases h with ((((⟨-, h⟩ | ⟨-, h⟩) | ⟨-, h⟩) | rfl) | rfl)
  · have := UInt32.le_iff_toNat_le.mp h; simp at this; omega
  · have := UInt32.le_iff_toNat_le.mp h; simp at this; omega
  · have := UInt32.le_iff_toNat_le.mp h; simp at this; omega
  · decide
  · decide

/-- The unpadded text: URL-safe characters only. -/
theorem isUrlsafe_of_mem {c : Char} {bs : Bytes} (h : c ∈ rstrip '=' (urlsafeB64encode bs)) : isUrlsafe c = true := by
  obtain ⟨body, n, hb, hm, -, -⟩ := b64encode_shape bs
  have hpad : toUrlsafe '=' = '=' := by decide
  have hbody : ∀ d ∈ body, isUrlsafe (toUrlsafe d) = true := by
    intro d hd
    have hmem : d ∈ b64encode bs := by rw [hb]; exact List.mem_append_left _ hd
    rcases mem_b64encode hmem with ⟨k, hk, rfl⟩ | rfl
    · exact isUrlsafe_toUrlsafe k hk
    · exact absurd hd hm
  have : rstrip '=' (urlsafeB64encode bs) <+: body.map toUrlsafe := by
    rw [urlsafeB64encode, hb, List.map_append, List.map_replicate, hpad, rstrip_append_replicate]
    exact rstrip_isPrefix _ _
  obtain ⟨d, hd, rfl⟩ := List.mem_map.mp (this.subset h)
  exact hbody d hd

/-- Stripping the padding and putting it back. -/
theorem repad_rstrip (bs : Bytes) : repad (rstrip '=' (urlsafeB64encode bs)) = urlsafeB64encode bs := by
  obtain ⟨body, n, hb, hm, hn, hl⟩ := b64encode_shape bs
  have hpad : toUrlsafe '=' = '=' := by decide
  have hmap : '=' ∉ body.map toUrlsafe := by
    rw [List.mem_map]
    rintro ⟨d, hd, he⟩
    simp only [toUrlsafe] at he
    split at he
    · simp at he
    · split at he
      · simp at he
      · exact hm (he ▸ hd)
  have hstrip : rstrip '=' (body.map toUrlsafe) = body.map toUrlsafe := by
    rw [rstrip, List.rdropWhile_eq_self_iff]
    intro hne hlast
    exact hmap (by have := List.getLast_mem hne; simpa [beq_iff_eq.mp hlast] using this)
  rw [urlsafeB64encode, hb, List.map_append, List.map_replicate, hpad, rstrip_append_replicate, hstrip, repad,
    List.length_map]
  congr 2
  omega

/-- **Decoding what was encoded, stripped and padded again**, strictly or not. -/
theorem urlsafeB64decode_repad (strict : Bool) (bs : Bytes) :
    urlsafeB64decode strict (repad (rstrip '=' (urlsafeB64encode bs))) = .ok bs := by
  have hback : (urlsafeB64encode bs).map fromUrlsafe = b64encode bs := by
    rw [urlsafeB64encode, List.map_map]
    conv_rhs => rw [← List.map_id (b64encode bs)]
    refine List.map_congr_left fun c hc => ?_
    rcases mem_b64encode hc with ⟨k, hk, rfl⟩ | rfl
    · exact fromUrlsafe_toUrlsafe k hk
    · decide
  have hascii : (urlsafeB64encode bs).all (·.toNat < 128) = true := by
    rw [List.all_eq_true]
    intro c hc
    obtain ⟨d, hd, rfl⟩ := List.mem_map.mp hc
    rcases mem_b64encode hd with ⟨k, hk, rfl⟩ | rfl
    · simpa using isUrlsafe_ascii (isUrlsafe_toUrlsafe k hk)
    · decide
  rw [repad_rstrip, urlsafeB64decode, if_pos hascii, hback, a2bBase64_b64encode]

end Py
