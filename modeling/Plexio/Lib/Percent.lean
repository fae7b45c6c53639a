/-
Percent-encoded text: any encoder that keeps some characters and writes the
bytes of the others, and the one decoder that undoes them all. `Decodes t s`
holds of a text whatever follows it, so encoded pieces can be joined.
-/
import Plexio.Lib.Base64
import Plexio.Lib.JsonText

namespace Py

open Json

/-! ## Encoding -/

def percentChar (keep : Char → Bool) (c : Char) : Str := if keep c then [c] else (String.utf8EncodeChar c).flatMap quoteByte

def percentEncode (keep : Char → Bool) (s : Str) : Str := s.flatMap (percentChar keep)

/-! ## Decoding -/

/-- `urllib.parse.unquote_to_bytes`: a `%` without two hexadecimal digits stays. -/
def unquoteToBytes : Str → Bytes
  | [] => []
  | '%' :: h :: l :: rest =>
    match hexValue? h, hexValue? l with
    | some h, some l => UInt8.ofNat (16 * h + l) :: unquoteToBytes rest
    | _, _ => String.utf8EncodeChar '%' ++ unquoteToBytes (h :: l :: rest)
  | c :: cs => String.utf8EncodeChar c ++ unquoteToBytes cs

/-- `urllib.parse.unquote`, of a text whose bytes are UTF-8. -/
def unquote? (s : Str) : Option Str := decode? (unquoteToBytes s)

theorem unquoteToBytes_cons {c : Char} (h : c ≠ '%') (cs : Str) :
    unquoteToBytes (c :: cs) = String.utf8EncodeChar c ++ unquoteToBytes cs := by
  rw [unquoteToBytes]
  exact fun _ _ _ hc => absurd hc h

theorem hexValue?_hexDigit : ∀ n < 16, hexValue? (hexDigit n) = some n := by decide +kernel

theorem unquoteToBytes_quoteByte (b : UInt8) (rest : Str) : unquoteToBytes (quoteByte b ++ rest) = b :: unquoteToBytes rest := by
  have hlt := b.toNat_lt
  have hbyte : UInt8.ofNat (16 * (b.toNat / 16) + b.toNat % 16) = b := by
    rw [Nat.div_add_mod, UInt8.ofNat_toNat]
  show unquoteToBytes ('%' :: hexDigit (b.toNat / 16) :: hexDigit (b.toNat % 16) :: rest) = _
  rw [unquoteToBytes, hexValue?_hexDigit _ (by omega), hexValue?_hexDigit _ (by omega)]
  dsimp only
  rw [hbyte]

theorem unquoteToBytes_quoteBytes (rest : Str) : ∀ bs : Bytes,
    unquoteToBytes (bs.flatMap quoteByte ++ rest) = bs ++ unquoteToBytes rest
  | [] => rfl
  | b :: bs => by
    rw [List.flatMap_cons, List.append_assoc, unquoteToBytes_quoteByte, unquoteToBytes_quoteBytes rest bs, List.cons_append]

/-! ## What is decoded from joined pieces -/

/-- The text stands for `s`, whatever follows it. -/
def Decodes (t s : Str) : Prop := ∀ rest, unquoteToBytes (t ++ rest) = encode s ++ unquoteToBytes rest

namespace Decodes

theorem nil : Decodes [] [] := fun _ => rfl

theorem append {t t' s s' : Str} (h : Decodes t s) (h' : Decodes t' s') : Decodes (t ++ t') (s ++ s') := by
  intro rest
  rw [List.append_assoc, h, h', encode, encode, encode, List.flatMap_append, List.append_assoc]

theorem char {c : Char} (h : c ≠ '%') : Decodes [c] [c] := by
  intro rest
  rw [List.singleton_append, unquoteToBytes_cons h, encode, List.flatMap_singleton]

theorem percentChar {keep : Char → Bool} (hkeep : keep '%' = false) (c : Char) : Decodes (Py.percentChar keep c) [c] := by
  unfold Py.percentChar
  split
  · next hc =>
    refine char ?_
    intro hpercent
    rw [hpercent, hkeep] at hc
    cases hc
  · intro rest
    rw [unquoteToBytes_quoteBytes, encode, List.flatMap_singleton]

theorem percentEncode {keep : Char → Bool} (hkeep : keep '%' = false) : ∀ s : Str, Decodes (Py.percentEncode keep s) s
  | [] => nil
  | c :: cs => (percentChar hkeep c).append (percentEncode hkeep cs)

theorem intercalate {sep : Str} (hsep : Decodes sep sep) {α : Type} {write text : α → Str}
    (h : ∀ a, Decodes (write a) (text a)) : ∀ as : List α, Decodes (sep.intercalate (as.map write)) (sep.intercalate (as.map text))
  | [] => nil
  | [a] => by
    simp only [List.map_cons, List.map_nil, List.intercalate_singleton]
    exact h a
  | a :: b :: as => by
    simp only [List.map_cons, List.intercalate_cons_cons]
    exact ((h a).append hsep).append (intercalate hsep h (b :: as))

/-- **Encoded text is read back.** -/
theorem unquote? {t s : Str} (h : Decodes t s) : Py.unquote? t = some s := by
  have hbytes := h []
  rw [List.append_nil] at hbytes
  rw [Py.unquote?, hbytes, unquoteToBytes, List.append_nil, decode?_encode]

end Decodes

end Py
