/-
JSON as text, the way Python's `json` writes it: ASCII only, with one space
after a separator (`json.dumps`) or none (the canonical form). The parser
reads integers but no fractions, and objects whose keys come in order, which
is what the writer writes.

`parseValue_print` is the round trip, by induction on the value; it makes a
`Json.Text` of the two (`Json.Text.python`).
-/
import Plexio.Lib.Base64
import Plexio.Lib.Json

open Py (Str)

namespace Json

/-! ## Writing -/

def lowerHex (n : Nat) : Char := "0123456789abcdef".toList.getD n '0'

/-- `\uXXXX`. -/
def unicodeEscape (n : Nat) : Str :=
  ['\\', 'u', lowerHex (n / 4096 % 16), lowerHex (n / 256 % 16), lowerHex (n / 16 % 16), lowerHex (n % 16)]

/-- The characters with an escape of one letter. -/
def shortEscapes : List (Char × Char) :=
  [('"', '"'), ('\\', '\\'), ('\n', 'n'), ('\r', 'r'), ('\t', 't'), (Char.ofNat 12, 'f'), (Char.ofNat 8, 'b')]

/-- The surrogate pair of a code point outside the basic plane. -/
def highHalf (n : Nat) : Nat := 0xD800 + (n - 0x10000) / 1024

def lowHalf (n : Nat) : Nat := 0xDC00 + (n - 0x10000) % 1024

def joinHalves (hi lo : Nat) : Nat := 0x10000 + (hi - 0xD800) * 1024 + (lo - 0xDC00)

/-- A character inside a string; one outside the basic plane is a surrogate pair. -/
def escapeChar (c : Char) : Str :=
  match shortEscapes.lookup c with
  | some e => ['\\', e]
  | none =>
    if 32 ≤ c.toNat ∧ c.toNat ≤ 126 then [c]
    else if c.toNat < 0x10000 then unicodeEscape c.toNat
    else unicodeEscape (highHalf c.toNat) ++ unicodeEscape (lowHalf c.toNat)

def printStr (s : Str) : Str := '"' :: s.flatMap escapeChar ++ ['"']

mutual
/-- A value, with `sp` after each separator. -/
def print (sp : Str) : Json → Str
  | .null => "null".toList
  | .bool true => "true".toList
  | .bool false => "false".toList
  | .num n => Py.strInt n
  | .str s => printStr s
  | .arr [] => "[]".toList
  | .arr (x :: xs) => '[' :: (print sp x ++ printItems sp xs)
  | .obj [] => ['{', '}']
  | .obj ((k, v) :: ms) => '{' :: (printStr k ++ ':' :: (sp ++ print sp v) ++ printMembers sp ms)

/-- What follows the first item. -/
def printItems (sp : Str) : List Json → Str
  | [] => "]".toList
  | x :: xs => ',' :: (sp ++ print sp x ++ printItems sp xs)

/-- What follows the first member. -/
def printMembers (sp : Str) : List (Str × Json) → Str
  | [] => ['}']
  | (k, v) :: ms => ',' :: (sp ++ printStr k ++ ':' :: (sp ++ print sp v) ++ printMembers sp ms)
end

/-! ## Reading -/

def hexValue? (c : Char) : Option Nat :=
  match "0123456789abcdef".toList.idxOf? c with
  | some n => some n
  | none => "0123456789ABCDEF".toList.idxOf? c

def readHex4 : Str → Option (Nat × Str)
  | a :: b :: c :: d :: rest => do
    let a ← hexValue? a
    let b ← hexValue? b
    let c ← hexValue? c
    let d ← hexValue? d
    some (a * 4096 + b * 256 + c * 16 + d, rest)
  | _ => none

/-- After `\u`: a code point, or the two halves of one. -/
def readUnicode (s : Str) : Option (Char × Str) := do
  let (hi, rest) ← readHex4 s
  if 0xD800 ≤ hi ∧ hi < 0xDC00 then
    match rest with
    | '\\' :: 'u' :: rest => do
      let (lo, rest) ← readHex4 rest
      if 0xDC00 ≤ lo ∧ lo < 0xE000 then some (Char.ofNat (joinHalves hi lo), rest)
      else none
    | _ => none
  else some (Char.ofNat hi, rest)

/-- One character of a string. -/
def readChar : Str → Option (Char × Str)
  | [] => none
  | c :: rest =>
    if c = '\\' then
      match rest with
      | [] => none
      | e :: rest =>
        if e = 'u' then readUnicode rest
        else
          match shortEscapes.find? (·.2 == e) with
          | some (c, _) => some (c, rest)
          | none => if e = '/' then some ('/', rest) else none
    else if c.toNat < 32 then none
    else some (c, rest)

/-- The characters up to the closing quote. -/
def readChars : Nat → Str → Option (Str × Str)
  | 0, _ => none
  | n + 1, s =>
    if s.head? = some '"' then some ([], s.tail)
    else do
      let (c, rest) ← readChar s
      let (cs, rest) ← readChars n rest
      some (c :: cs, rest)

def skipSpace (s : Str) : Str := s.dropWhile fun c => c == ' ' || c == '\n' || c == '\r' || c == '\t'

def readStr (n : Nat) (s : Str) : Option (Str × Str) :=
  if s.head? = some '"' then readChars n s.tail else none

def readNat (s : Str) : Option (Nat × Str) :=
  match s.takeWhile Char.isDigit with
  | [] => none
  | ds => some (Nat.ofDigitChars 10 ds 0, s.dropWhile Char.isDigit)

def readInt (s : Str) : Option (Int × Str) :=
  if s.head? = some '-' then (readNat s.tail).map fun (n, rest) => (-(n : Int), rest)
  else (readNat s).map fun (n, rest) => ((n : Int), rest)

def readWord (w : Str) (j : Json) (s : Str) : Option (Json × Str) :=
  if w.isPrefixOf s then some (j, s.drop w.length) else none

mutual
/-- A value and the rest of the text; `n` bounds the depth of the reading. -/
def parseValue : Nat → Str → Option (Json × Str)
  | 0, _ => none
  | n + 1, s =>
    match skipSpace s with
    | [] => none
    | c :: rest =>
      if c = 'n' then readWord "null".toList .null (c :: rest)
      else if c = 't' then readWord "true".toList (.bool true) (c :: rest)
      else if c = 'f' then readWord "false".toList (.bool false) (c :: rest)
      else if c = '"' then (readChars (n + 1) rest).map fun (s, rest) => (.str s, rest)
      else if c = '[' then
        if (skipSpace rest).head? = some ']' then some (.arr [], (skipSpace rest).tail)
        else do
          let (x, rest) ← parseValue n rest
          let (xs, rest) ← parseItems n rest
          some (.arr (x :: xs), rest)
      else if c = '{' then
        if (skipSpace rest).head? = some '}' then some (.obj [], (skipSpace rest).tail)
        else do
          let (m, rest) ← parseMember n rest
          let (ms, rest) ← parseMembers n rest
          some (.obj (m :: ms), rest)
      else (readInt (c :: rest)).map fun (k, rest) => (.num k, rest)

def parseItems : Nat → Str → Option (List Json × Str)
  | 0, _ => none
  | n + 1, s =>
    match skipSpace s with
    | [] => none
    | c :: rest =>
      if c = ']' then some ([], rest)
      else if c = ',' then do
        let (x, rest) ← parseValue n rest
        let (xs, rest) ← parseItems n rest
        some (x :: xs, rest)
      else none

def parseMember : Nat → Str → Option ((Str × Json) × Str)
  | 0, _ => none
  | n + 1, s => do
    let (k, rest) ← readStr (n + 1) (skipSpace s)
    if (skipSpace rest).head? = some ':' then
      let (v, rest) ← parseValue n (skipSpace rest).tail
      some ((k, v), rest)
    else none

def parseMembers : Nat → Str → Option (List (Str × Json) × Str)
  | 0, _ => none
  | n + 1, s =>
    match skipSpace s with
    | [] => none
    | c :: rest =>
      if c = '}' then some ([], rest)
      else if c = ',' then do
        let (m, rest) ← parseMember n rest
        let (ms, rest) ← parseMembers n rest
        some (m :: ms, rest)
      else none
end

/-- A whole text. -/
def parse (s : Str) : Option Json :=
  match parseValue s.length s with
  | some (j, rest) => if (skipSpace rest).isEmpty then some j else none
  | none => none

/-! ## Strings -/

theorem hexValue?_lowerHex : ∀ n < 16, hexValue? (lowerHex n) = some n := by decide +kernel

theorem readHex4_escape {n : Nat} (h : n < 0x10000) (rest : Str) :
    readHex4 ((unicodeEscape n).drop 2 ++ rest) = some (n, rest) := by
  simp only [unicodeEscape, List.drop_succ_cons, List.drop_zero, List.cons_append, List.nil_append, readHex4,
    hexValue?_lowerHex _ (Nat.mod_lt _ (by decide : 0 < 16)), bind, Option.bind]
  congr 2
  omega

theorem toNat_valid (c : Char) : c.toNat < 0xD800 ∨ (0xDFFF < c.toNat ∧ c.toNat < 0x110000) := c.valid

theorem readUnicode_basic {c : Char} (h : c.toNat < 0x10000) (rest : Str) :
    readUnicode ((unicodeEscape c.toNat).drop 2 ++ rest) = some (c, rest) := by
  have hv := toNat_valid c
  rw [readUnicode, readHex4_escape h]
  simp only [bind, Option.bind]
  rw [if_neg (by omega), Char.ofNat_toNat]

theorem halves {n : Nat} (h : 0x10000 ≤ n) (h' : n < 0x110000) :
    (0xD800 ≤ highHalf n ∧ highHalf n < 0xDC00) ∧ (0xDC00 ≤ lowHalf n ∧ lowHalf n < 0xE000) ∧
      joinHalves (highHalf n) (lowHalf n) = n := by
  have hhi : highHalf n = 0xD800 + (n - 0x10000) / 1024 := rfl
  have hlo : lowHalf n = 0xDC00 + (n - 0x10000) % 1024 := rfl
  have hjoin : joinHalves (highHalf n) (lowHalf n) = 0x10000 + (highHalf n - 0xD800) * 1024 + (lowHalf n - 0xDC00) := rfl
  rw [hjoin]
  generalize highHalf n = hi at *
  generalize lowHalf n = lo at *
  omega

theorem readUnicode_halves {hi lo : Nat} (hhi : 0xD800 ≤ hi ∧ hi < 0xDC00) (hlo : 0xDC00 ≤ lo ∧ lo < 0xE000)
    (rest : Str) : readUnicode ((unicodeEscape hi).drop 2 ++ (unicodeEscape lo ++ rest)) =
      some (Char.ofNat (joinHalves hi lo), rest) := by
  have hsplit : unicodeEscape lo ++ rest = '\\' :: 'u' :: ((unicodeEscape lo).drop 2 ++ rest) := rfl
  rw [readUnicode, readHex4_escape (by omega)]
  simp only [bind, Option.bind]
  rw [if_pos hhi, hsplit]
  simp only [readHex4_escape (show lo < 0x10000 by omega)]
  rw [if_pos hlo]

theorem readUnicode_pair {c : Char} (h : ¬ c.toNat < 0x10000) (rest : Str) :
    readUnicode ((unicodeEscape (highHalf c.toNat)).drop 2 ++ (unicodeEscape (lowHalf c.toNat) ++ rest)) =
      some (c, rest) := by
  have hlt : c.toNat < 0x110000 := by rcases toNat_valid c with hv | hv <;> omega
  have hh := halves (Nat.le_of_not_lt h) hlt
  rw [readUnicode_halves hh.1 hh.2.1, hh.2.2, Char.ofNat_toNat]

theorem readChar_unicode (n : Nat) (rest : Str) :
    readChar (unicodeEscape n ++ rest) = readUnicode ((unicodeEscape n).drop 2 ++ rest) := rfl

/-- **A character is read back** from its escape. -/
theorem readChar_escape (c : Char) (rest : Str) : readChar (escapeChar c ++ rest) = some (c, rest) := by
  rw [escapeChar]
  cases hl : shortEscapes.lookup c with
  | some e =>
    have hmem : (c, e) ∈ shortEscapes := by
      obtain ⟨l₁, l₂, heq, -⟩ := List.lookup_eq_some_iff.mp hl
      rw [heq]; simp
    simp only [shortEscapes, List.mem_cons, Prod.mk.injEq, List.not_mem_nil, or_false] at hmem
    rcases hmem with ⟨rfl, rfl⟩ | ⟨rfl, rfl⟩ | ⟨rfl, rfl⟩ | ⟨rfl, rfl⟩ | ⟨rfl, rfl⟩ | ⟨rfl, rfl⟩ | ⟨rfl, rfl⟩ <;> rfl
  | none =>
    have hne : c ≠ '\\' := by rintro rfl; exact absurd hl (by decide)
    simp only
    split
    · next h => simp only [List.singleton_append, readChar]; rw [if_neg hne, if_neg (by omega)]
    split
    · next h => rw [readChar_unicode, readUnicode_basic h]
    · next h => rw [List.append_assoc, readChar_unicode, readUnicode_pair h]

/-- An escape does not begin with the closing quote. -/
theorem escapeChar_head (c : Char) : ∃ d ds, escapeChar c = d :: ds ∧ d ≠ '"' := by
  rw [escapeChar]
  cases hl : shortEscapes.lookup c with
  | some e => exact ⟨_, _, rfl, by decide⟩
  | none =>
    have hne : c ≠ '"' := by rintro rfl; exact absurd hl (by decide)
    simp only
    split
    · exact ⟨_, _, rfl, hne⟩
    split
    · exact ⟨_, _, rfl, by decide⟩
    · exact ⟨_, _, rfl, by decide⟩

theorem readChars_escape : ∀ (s : Str) {n : Nat} (rest : Str), s.length < n →
    readChars n (s.flatMap escapeChar ++ '"' :: rest) = some (s, rest)
  | [], n + 1, rest, _ => by simp [readChars]
  | c :: cs, n + 1, rest, h => by
    obtain ⟨d, ds, hd, hne⟩ := escapeChar_head c
    have hread := readChar_escape c (cs.flatMap escapeChar ++ '"' :: rest)
    have hhead : ((c :: cs).flatMap escapeChar ++ '"' :: rest).head? ≠ some '"' := by
      simpa [List.flatMap_cons, hd] using hne
    rw [readChars, if_neg hhead, List.flatMap_cons, List.append_assoc, hread]
    simp only [bind, Option.bind]
    rw [readChars_escape cs rest (by simpa using h)]

theorem length_printStr (s : Str) : s.length + 2 ≤ (printStr s).length := by
  have : s.length ≤ (s.flatMap escapeChar).length := by
    induction s with
    | nil => simp
    | cons c cs ih =>
      obtain ⟨d, ds, hd, -⟩ := escapeChar_head c
      simp only [List.flatMap_cons, List.length_append, List.length_cons, hd]
      omega
  simp only [printStr, List.length_append, List.length_cons, List.length_nil]
  omega

theorem readStr_printStr {s : Str} {n : Nat} (rest : Str) (h : s.length < n) :
    readStr n (printStr s ++ rest) = some (s, rest) := by
  have := readChars_escape s rest h
  simpa [readStr, printStr] using this

/-! ## Numbers -/

/-- What follows a number does not go on with it. -/
def Stops (rest : Str) : Prop := ∀ c, rest.head? = some c → c.isDigit = false

theorem Stops.cons {c : Char} (h : c.isDigit = false) (rest : Str) : Stops (c :: rest) := by
  intro d hd; simp only [List.head?_cons, Option.some.injEq] at hd; exact hd ▸ h

theorem readNat_digits (n : Nat) {rest : Str} (h : Stops rest) : readNat (Nat.toDigits 10 n ++ rest) = some (n, rest) := by
  have hd : ∀ c ∈ Nat.toDigits 10 n, c.isDigit = true :=
    fun c hc => Nat.isDigit_of_mem_toDigits (by decide) (by decide) hc
  have hrest : rest.takeWhile Char.isDigit = [] ∧ rest.dropWhile Char.isDigit = rest := by
    cases rest with
    | nil => simp
    | cons c cs => simp [h c rfl]
  have hne : Nat.toDigits 10 n ≠ [] := Nat.toDigits_ne_nil
  rw [readNat, List.takeWhile_append_of_pos hd, List.dropWhile_append_of_pos hd, hrest.1, hrest.2, List.append_nil]
  obtain ⟨d, ds, hds⟩ := List.exists_cons_of_ne_nil hne
  simp only [hds]
  rw [← hds, Nat.ofDigitChars_toDigits (by decide) (by decide)]

/-- How an integer is written: digits, after a minus sign for a negative one. -/
theorem strInt_eq (k : Int) : Py.strInt k =
    if 0 ≤ k then Nat.toDigits 10 k.toNat else '-' :: Nat.toDigits 10 (-k).toNat := by
  rw [Py.strInt, Int.toString_eq_repr, Int.repr_eq_if]
  split
  · rw [Nat.toList_repr]
  · rw [String.toList_append, Nat.toList_repr]; rfl

/-- Only digits and a minus sign. -/
theorem not_mem_strInt {c : Char} (hdigit : c.isDigit = false) (hminus : c ≠ '-') (k : Int) : c ∉ Py.strInt k := by
  have hdigits : ∀ n, c ∉ Nat.toDigits 10 n := by
    intro n hc
    rw [Nat.isDigit_of_mem_toDigits (by decide) (by decide) hc] at hdigit
    cases hdigit
  rw [strInt_eq]
  split
  · exact hdigits _
  · rw [List.mem_cons, not_or]
    exact ⟨hminus, hdigits _⟩

theorem toDigits_cons (n : Nat) : ∃ d ds, Nat.toDigits 10 n = d :: ds ∧ d.isDigit = true := by
  obtain ⟨d, ds, hds⟩ := List.exists_cons_of_ne_nil (Nat.toDigits_ne_nil (n := n) (b := 10))
  exact ⟨d, ds, hds, Nat.isDigit_of_mem_toDigits (b := 10) (n := n) (by decide) (by decide) (by rw [hds]; simp)⟩

theorem readInt_strInt (k : Int) {rest : Str} (h : Stops rest) : readInt (Py.strInt k ++ rest) = some (k, rest) := by
  rw [strInt_eq]
  split
  · next hk =>
    obtain ⟨d, ds, hds, hd⟩ := toDigits_cons k.toNat
    have hhead : (Nat.toDigits 10 k.toNat ++ rest).head? ≠ some '-' := by
      rw [hds]
      simp only [List.cons_append, List.head?_cons, ne_eq, Option.some.injEq]
      rintro rfl
      exact absurd hd (by decide)
    rw [readInt, if_neg hhead, readNat_digits _ h, Option.map_some]
    simp only [Int.toNat_of_nonneg hk]
  · next hk =>
    rw [List.cons_append, readInt, if_pos (by rfl), List.tail_cons, readNat_digits _ h, Option.map_some]
    simp only [Option.some.injEq, Prod.mk.injEq, and_true]
    omega

/-- The first character of an integer starts no other value. -/
theorem strInt_head (k : Int) : ∃ d ds, Py.strInt k = d :: ds ∧ (d = '-' ∨ d.isDigit = true) := by
  rw [strInt_eq]
  split
  · obtain ⟨d, ds, hds, hd⟩ := toDigits_cons k.toNat
    exact ⟨d, ds, hds, .inr hd⟩
  · exact ⟨_, _, rfl, .inl rfl⟩

/-! ## Values -/

/-- The separators of `json.dumps` and of the canonical form. -/
def IsSpace (sp : Str) : Prop := ∀ c ∈ sp, c = ' '

theorem skipSpace_append {sp : Str} (h : IsSpace sp) (s : Str) : skipSpace (sp ++ s) = skipSpace s := by
  rw [skipSpace, List.dropWhile_append_of_pos (fun c hc => by simp [h c hc])]
  rfl

/-- A character that starts a value or closes one. -/
def Visible (s : Str) : Prop := skipSpace s = s ∧ s ≠ []

theorem Visible.cons {c : Char} (hc : (c == ' ' || c == '\n' || c == '\r' || c == '\t') = false) (s : Str) :
    Visible (c :: s) := by
  refine ⟨?_, by simp⟩
  rw [skipSpace, List.dropWhile_cons_of_neg (by simp [hc])]

theorem isDigit_visible {c : Char} (h : c = '-' ∨ c.isDigit = true) :
    (c == ' ' || c == '\n' || c == '\r' || c == '\t') = false ∧ c ≠ 'n' ∧ c ≠ 't' ∧ c ≠ 'f' ∧ c ≠ '"' ∧ c ≠ '[' ∧
      c ≠ '{' ∧ c ≠ ']' ∧ c ≠ '}' := by
  rcases h with rfl | h
  · decide
  · simp only [Bool.or_eq_false_iff, beq_eq_false_iff_ne]
    refine ⟨⟨⟨⟨?_, ?_⟩, ?_⟩, ?_⟩, ?_, ?_, ?_, ?_, ?_, ?_, ?_, ?_⟩ <;> rintro rfl <;> revert h <;> decide

/-- The first character of a value: no space, and no closing bracket. -/
theorem print_head (sp : Str) (j : Json) : ∃ d ds, print sp j = d :: ds ∧
    (d == ' ' || d == '\n' || d == '\r' || d == '\t') = false ∧ d ≠ ']' ∧ d ≠ '}' := by
  match j with
  | .null | .bool true | .bool false | .str _ | .arr [] | .arr (_ :: _) | .obj [] | .obj ((_, _) :: _) =>
    simp only [print, printStr]
    exact ⟨_, _, rfl, by decide, by decide, by decide⟩
  | .num k =>
    obtain ⟨d, ds, hds, hd⟩ := strInt_head k
    obtain ⟨h1, -, -, -, -, -, -, h2, h3⟩ := isDigit_visible hd
    exact ⟨d, ds, by rw [print, hds], h1, h2, h3⟩

theorem print_visible (sp : Str) (j : Json) (rest : Str) : Visible (print sp j ++ rest) := by
  obtain ⟨d, ds, hds, hd, -, -⟩ := print_head sp j
  rw [hds]
  exact Visible.cons hd _

theorem printItems_stops (sp : Str) (xs : List Json) (rest : Str) : Stops (printItems sp xs ++ rest) := by
  cases xs with
  | nil => exact Stops.cons (by decide) _
  | cons x xs => rw [printItems]; exact Stops.cons (by decide) _

theorem printMembers_stops (sp : Str) (ms : List (Str × Json)) (rest : Str) : Stops (printMembers sp ms ++ rest) := by
  match ms with
  | [] => exact Stops.cons (by decide) _
  | (k, v) :: ms => rw [printMembers]; exact Stops.cons (by decide) _

/-- One member, given that its value is read back. -/
theorem parseMember_print {sp pre : Str} (hpre : IsSpace pre) {k : Str} {v : Json} {n : Nat} {rest : Str}
    (hn : (printStr k).length + (print sp v).length < n)
    (hv : ∀ m, (print sp v).length ≤ m → parseValue m (sp ++ (print sp v ++ rest)) = some (v, rest)) :
    parseMember n (pre ++ (printStr k ++ ':' :: (sp ++ (print sp v ++ rest)))) = some ((k, v), rest) := by
  have hlen := length_printStr k
  obtain ⟨n, rfl⟩ : ∃ m, n = m + 1 := ⟨n - 1, by omega⟩
  have hvis : Visible (printStr k ++ ':' :: (sp ++ (print sp v ++ rest))) := Visible.cons (by decide) _
  have hcolon : Visible (':' :: (sp ++ (print sp v ++ rest))) := Visible.cons (by decide) _
  rw [parseMember, skipSpace_append hpre, hvis.1, readStr_printStr _ (by omega)]
  simp only [bind, Option.bind, hcolon.1]
  simp only [List.head?_cons, if_true, List.tail_cons, hv n (by omega)]

/-- The text of a value does not begin with a closing bracket. -/
theorem print_not_closing (sp : Str) (j : Json) (rest : Str) :
    (skipSpace (print sp j ++ rest)).head? ≠ some ']' ∧ (skipSpace (print sp j ++ rest)).head? ≠ some '}' := by
  obtain ⟨d, ds, hds, -, h1, h2⟩ := print_head sp j
  rw [(print_visible sp j rest).1, hds]
  simp [h1, h2]

mutual
/-- **A printed value is read back**, whatever space comes before it and
whatever follows that is no digit. -/
theorem parseValue_print {sp : Str} (hsp : IsSpace sp) : ∀ (j : Json) {n : Nat} {pre rest : Str}, IsSpace pre →
    (print sp j).length ≤ n → Stops rest → parseValue n (pre ++ (print sp j ++ rest)) = some (j, rest)
  | j, 0, pre, rest, _, hn, _ => by
    obtain ⟨d, ds, hds, -⟩ := print_head sp j
    simp [hds] at hn
  | .null, n + 1, pre, rest, hpre, _, _ => by
    rw [parseValue, skipSpace_append hpre, (print_visible sp .null rest).1]
    rfl
  | .bool true, n + 1, pre, rest, hpre, _, _ => by
    rw [parseValue, skipSpace_append hpre, (print_visible sp (.bool true) rest).1]
    rfl
  | .bool false, n + 1, pre, rest, hpre, _, _ => by
    rw [parseValue, skipSpace_append hpre, (print_visible sp (.bool false) rest).1]
    rfl
  | .num k, n + 1, pre, rest, hpre, _, hr => by
    obtain ⟨d, ds, hds, hd⟩ := strInt_head k
    obtain ⟨-, h1, h2, h3, h4, h5, h6, -, -⟩ := isDigit_visible hd
    have hread := readInt_strInt k hr
    rw [parseValue, skipSpace_append hpre, (print_visible sp (.num k) rest).1]
    simp only [print, hds, List.cons_append] at hread ⊢
    rw [if_neg h1, if_neg h2, if_neg h3, if_neg h4, if_neg h5, if_neg h6, hread]
    rfl
  | .str s, n + 1, pre, rest, hpre, hn, _ => by
    have hlen := length_printStr s
    have hread := readChars_escape (n := n + 1) s rest (by simp only [print] at hn; omega)
    rw [parseValue, skipSpace_append hpre, (print_visible sp (.str s) rest).1]
    simp only [print, printStr, List.cons_append, List.append_assoc, List.nil_append]
    rw [if_neg (by decide), if_neg (by decide), if_neg (by decide), if_pos trivial, hread]
    rfl
  | .arr [], n + 1, pre, rest, hpre, _, _ => by
    rw [parseValue, skipSpace_append hpre, (print_visible sp (.arr []) rest).1]
    rfl
  | .arr (x :: xs), n + 1, pre, rest, hpre, hn, _ => by
    simp only [print, List.length_cons, List.length_append] at hn
    have hx : parseValue n (print sp x ++ (printItems sp xs ++ rest)) = some (x, printItems sp xs ++ rest) :=
      parseValue_print hsp x (show IsSpace [] by simp [IsSpace]) (by omega) (printItems_stops sp xs rest)
    have hxs : parseItems n (printItems sp xs ++ rest) = some (xs, rest) := parseItems_print hsp xs (by omega)
    rw [parseValue, skipSpace_append hpre, (print_visible sp (.arr (x :: xs)) rest).1]
    simp only [print, List.cons_append, List.append_assoc]
    rw [if_neg (by decide), if_neg (by decide), if_neg (by decide), if_neg (by decide), if_pos trivial,
      if_neg (print_not_closing sp x _).1, hx]
    simp only [bind, Option.bind, hxs]
  | .obj [], n + 1, pre, rest, hpre, _, _ => by
    rw [parseValue, skipSpace_append hpre, (print_visible sp (.obj []) rest).1]
    rfl
  | .obj ((k, v) :: ms), n + 1, pre, rest, hpre, hn, _ => by
    simp only [print, List.length_cons, List.length_append] at hn
    have hlen := length_printStr k
    have hm : parseMember n (printStr k ++ ':' :: (sp ++ (print sp v ++ (printMembers sp ms ++ rest)))) =
        some ((k, v), printMembers sp ms ++ rest) :=
      parseMember_print (show IsSpace [] by simp [IsSpace]) (by omega)
        fun m hm => parseValue_print hsp v hsp hm (printMembers_stops sp ms rest)
    have hms : parseMembers n (printMembers sp ms ++ rest) = some (ms, rest) := parseMembers_print hsp ms (by omega)
    have hopen : (skipSpace (printStr k ++ ':' :: (sp ++ (print sp v ++ (printMembers sp ms ++ rest))))).head? ≠
        some '}' := by
      have hvis : Visible (printStr k ++ ':' :: (sp ++ (print sp v ++ (printMembers sp ms ++ rest)))) :=
        Visible.cons (by decide) _
      rw [hvis.1]
      simp [printStr]
    rw [parseValue, skipSpace_append hpre, (print_visible sp (.obj ((k, v) :: ms)) rest).1]
    simp only [print, List.cons_append, List.append_assoc]
    rw [if_neg (by decide), if_neg (by decide), if_neg (by decide), if_neg (by decide), if_neg (by decide),
      if_pos trivial, if_neg hopen, hm]
    simp only [bind, Option.bind, hms]

theorem parseItems_print {sp : Str} (hsp : IsSpace sp) : ∀ (xs : List Json) {n : Nat} {rest : Str},
    (printItems sp xs).length ≤ n → parseItems n (printItems sp xs ++ rest) = some (xs, rest)
  | [], 0, rest, hn => by simp [printItems] at hn
  | [], n + 1, rest, _ => by
    have hvis : Visible (printItems sp [] ++ rest) := Visible.cons (by decide) _
    rw [parseItems, hvis.1]
    rfl
  | x :: xs, 0, rest, hn => by simp [printItems] at hn
  | x :: xs, n + 1, rest, hn => by
    simp only [printItems, List.length_cons, List.length_append] at hn
    have hx := parseValue_print hsp x (n := n) hsp (by omega) (printItems_stops sp xs rest)
    have hxs : parseItems n (printItems sp xs ++ rest) = some (xs, rest) := parseItems_print hsp xs (by omega)
    have hvis : Visible (',' :: (sp ++ (print sp x ++ (printItems sp xs ++ rest)))) := Visible.cons (by decide) _
    simp only [printItems, List.cons_append, List.append_assoc]
    rw [parseItems, hvis.1]
    simp only
    rw [if_neg (by decide), if_pos trivial, hx]
    simp only [bind, Option.bind, hxs]

theorem parseMembers_print {sp : Str} (hsp : IsSpace sp) : ∀ (ms : List (Str × Json)) {n : Nat} {rest : Str},
    (printMembers sp ms).length ≤ n → parseMembers n (printMembers sp ms ++ rest) = some (ms, rest)
  | [], 0, rest, hn => by simp [printMembers] at hn
  | [], n + 1, rest, _ => by
    have hvis : Visible (printMembers sp [] ++ rest) := Visible.cons (by decide) _
    rw [parseMembers, hvis.1]
    rfl
  | (k, v) :: ms, 0, rest, hn => by simp [printMembers] at hn
  | (k, v) :: ms, n + 1, rest, hn => by
    simp only [printMembers, List.length_cons, List.length_append] at hn
    have hlen := length_printStr k
    have hm := parseMember_print (k := k) (n := n) hsp (by omega)
      fun m hm => parseValue_print hsp v hsp hm (printMembers_stops sp ms rest)
    have hms : parseMembers n (printMembers sp ms ++ rest) = some (ms, rest) := parseMembers_print hsp ms (by omega)
    have hvis : Visible (',' :: (sp ++ (printStr k ++ ':' :: (sp ++ (print sp v ++ (printMembers sp ms ++ rest)))))) :=
      Visible.cons (by decide) _
    simp only [printMembers, List.cons_append, List.append_assoc]
    rw [parseMembers, hvis.1]
    simp only
    rw [if_neg (by decide), if_pos trivial, hm]
    simp only [bind, Option.bind, hms]
end

theorem parse_print {sp : Str} (hsp : IsSpace sp) (j : Json) : parse (print sp j) = some j := by
  have := parseValue_print hsp j (show IsSpace [] by simp [IsSpace]) le_rfl (show Stops [] by simp [Stops])
  simp only [List.nil_append, List.append_nil] at this
  rw [parse, this]
  rfl

/-! ## Values in key order -/

mutual
def isSorted : Json → Bool
  | .arr items => itemsSorted items
  | .obj members => decide ((members.map Prod.fst).Pairwise (· < ·)) && membersSorted members
  | _ => true

def itemsSorted : List Json → Bool
  | [] => true
  | x :: xs => x.isSorted && itemsSorted xs

def membersSorted : List (Str × Json) → Bool
  | [] => true
  | (_, v) :: ms => v.isSorted && membersSorted ms
end

mutual
theorem isSorted_iff : ∀ j : Json, j.isSorted = true ↔ j.Sorted
  | .null | .bool _ | .num _ | .str _ => by simp [isSorted, Sorted]
  | .arr items => by rw [isSorted, Sorted, itemsSorted_iff items]
  | .obj members => by rw [isSorted, Sorted, Bool.and_eq_true, membersSorted_iff members, decide_eq_true_eq]

theorem itemsSorted_iff : ∀ xs : List Json, itemsSorted xs = true ↔ SortedItems xs
  | [] => by simp [itemsSorted, SortedItems]
  | x :: xs => by rw [itemsSorted, SortedItems, Bool.and_eq_true, isSorted_iff x, itemsSorted_iff xs]

theorem membersSorted_iff : ∀ ms : List (Str × Json), membersSorted ms = true ↔ SortedMembers ms
  | [] => by simp [membersSorted, SortedMembers]
  | (_, v) :: ms => by rw [membersSorted, SortedMembers, Bool.and_eq_true, isSorted_iff v, membersSorted_iff ms]
end

/-- A text whose value is in key order. -/
def loads (s : Str) : Option Value :=
  match parse s with
  | some j => if h : j.isSorted = true then some ⟨j, (isSorted_iff j).mp h⟩ else none
  | none => none

theorem loads_print {sp : Str} (hsp : IsSpace sp) (v : Value) : loads (print sp v.1) = some v := by
  rw [loads, parse_print hsp]
  exact dif_pos ((isSorted_iff v.1).mpr v.2)

theorem isSpace_one : IsSpace [' '] := by simp [IsSpace]

theorem isSpace_none : IsSpace [] := by simp [IsSpace]

/-- `json.dumps` and `json.loads`, and the canonical form. -/
def Text.python : Text Value where
  dumps v := print [' '] v.1
  canonical v := print [] v.1
  loads := Json.loads
  loads_dumps := loads_print isSpace_one
  canonical_inj v w h := by
    have hv := loads_print isSpace_none v
    have hw := loads_print isSpace_none w
    have hvw : print [] v.1 = print [] w.1 := h
    rw [hvw, hw] at hv
    exact (Option.some.inj hv).symm

end Json
