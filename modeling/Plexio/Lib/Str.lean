/-
Python's `str`, as a list of Unicode scalar values, and the methods of it
that programs use on text: `startswith`, `split`, `partition`, `strip`,
`rstrip`, `replace`, `str.isdigit` on ASCII.

Nothing here is about one program. `replace_replace` carries most proofs that
use it: replacing a needle by a marked placeholder and back is the identity on
a text free of the mark.
-/
import Mathlib.Data.List.Infix
import Mathlib.Data.List.DropRight

namespace Py

/-- A Python string: its code points (no lone surrogates). -/
abbrev Str := List Char

/-- `s in l`. -/
instance decidableMem (s : Str) (l : List Str) : Decidable (s ∈ l) := List.instDecidableMemOfLawfulBEq s l

/-- `s.startswith(p)`. -/
def startswith (s p : Str) : Bool := p.isPrefixOf s

/-- `s.removeprefix(p)` for a text that starts with it: `s[len(p):]`. -/
def sliceFrom (n : Nat) (s : Str) : Str := s.drop n

/-- `s.split(c)` for a one-character separator. -/
def split (c : Char) (s : Str) : List Str := s.splitOn c

/-- `s.rsplit(c, 1)[-1]`, which is also `s.split(c)[-1]`: what follows the last `c`. -/
def afterLast (c : Char) (s : Str) : Str := s.rtakeWhile (· != c)

/-- `s.partition(sep)` for a non-empty separator: the text before its first
occurrence, the separator itself (empty when it is absent) and the rest. -/
def partition (sep : Str) : Str → Str × Str × Str
  | [] => ([], [], [])
  | c :: cs =>
    if sep.isPrefixOf (c :: cs) then ([], sep, (c :: cs).drop sep.length)
    else
      let (before, s, after) := partition sep cs
      (c :: before, s, after)

/-- `s.rstrip(c)` for one character. -/
def rstrip (c : Char) (s : Str) : Str := s.rdropWhile (· == c)

/-- The code points `str.strip()` removes. -/
def isspace (c : Char) : Bool :=
  let n := c.toNat
  (0x09 ≤ n && n ≤ 0x0D) || (0x1C ≤ n && n ≤ 0x20) || n == 0x85 || n == 0xA0 || n == 0x1680 ||
    (0x2000 ≤ n && n ≤ 0x200A) || n == 0x2028 || n == 0x2029 || n == 0x202F || n == 0x205F || n == 0x3000

/-- `s.strip()`. -/
def strip (s : Str) : Str := (s.dropWhile isspace).rdropWhile isspace

/-- `s.isascii() and s.isdigit()`: one or more of `0`..`9`. -/
def isAsciiDigits (s : Str) : Bool := !s.isEmpty && s.all Char.isDigit

/-- `str(n)`. -/
def strInt (n : Int) : Str := (toString n).toList

/-- `int(s)` in base ten; `none` is a `ValueError`. Single underscores may
stand between digits, and there may be 4300 digits at most. -/
def parseInt (decimal : Char → Option Nat) (s : Str) : Option Int := do
  let (negative, body) :=
    match strip s with
    | '-' :: body => (true, body)
    | '+' :: body => (false, body)
    | body => (false, body)
  let groups := split '_' body
  if groups.any List.isEmpty then none
  else
    let digits ← groups.flatten.mapM decimal
    if 4300 < digits.length then none
    else
      let n : Nat := digits.foldl (fun n d => 10 * n + d) 0
      pure (if negative then -n else n)

/-- `s.replace(old, new)` for a non-empty `old`: leftmost occurrences that do
not overlap. `skip` counts the characters of an occurrence still to drop. -/
def replaceFrom (old new : Str) : Nat → Str → Str
  | _, [] => []
  | skip + 1, _ :: cs => replaceFrom old new skip cs
  | 0, c :: cs =>
    if old.isPrefixOf (c :: cs) then new ++ replaceFrom old new (old.length - 1) cs
    else c :: replaceFrom old new 0 cs

/-- `s.replace(old, new)`; an empty `old` matches around every character. -/
def replace (old new s : Str) : Str :=
  if old.isEmpty then new ++ s.flatMap (fun c => c :: new) else replaceFrom old new 0 s

@[simp] theorem startswith_iff {s p : Str} : startswith s p = true ↔ p <+: s := by
  simp [startswith]

theorem startswith_false {s p : Str} : startswith s p = false ↔ ¬ p <+: s := by
  rw [← startswith_iff, Bool.not_eq_true]

theorem isAsciiDigits_iff {s : Str} : isAsciiDigits s = true ↔ s ≠ [] ∧ ∀ c ∈ s, c.isDigit = true := by
  simp [isAsciiDigits]

theorem not_mem_of_isAsciiDigits {s : Str} (h : isAsciiDigits s = true) {c : Char} (hc : c.isDigit = false) : c ∉ s := by
  intro hmem
  rw [(isAsciiDigits_iff.mp h).2 c hmem] at hc
  cases hc

/-! ## Splitting -/

/-- A text without the separator is its own only part. -/
theorem split_of_not_mem {c : Char} {s : Str} (h : c ∉ s) : split c s = [s] := by
  have : ([c].intercalate [s]).splitOn c = [s] := List.splitOn_intercalate c (by simpa using h) (by simp)
  simpa [split, List.intercalate] using this

/-- Parts free of the separator, joined by it, split back into themselves. -/
theorem split_join {c : Char} {parts : List Str} (h : ∀ p ∈ parts, c ∉ p) (hne : parts ≠ []) :
    split c ([c].intercalate parts) = parts :=
  List.splitOn_intercalate c h hne

theorem join_split (c : Char) (s : Str) : [c].intercalate (split c s) = s :=
  List.intercalate_splitOn c

/-- No part has the separator. -/
theorem not_mem_of_mem_split {c : Char} : ∀ {s part : Str}, part ∈ split c s → c ∉ part
  | [], part, h => by
    obtain rfl : part = [] := List.mem_singleton.mp h
    exact List.not_mem_nil
  | d :: s, part, h => by
    unfold split List.splitOn at h
    rw [List.splitOnP_cons_eq_if_modifyHead] at h
    split at h
    · rcases List.mem_cons.mp h with rfl | h
      · exact List.not_mem_nil
      · exact not_mem_of_mem_split (s := s) h
    · next hne =>
      have hd : c ≠ d := fun heq => hne (by simp [heq])
      have hmem : ∀ p ∈ s.splitOnP (· == c), c ∉ p := fun p hp => not_mem_of_mem_split (s := s) hp
      cases hparts : s.splitOnP (· == c) with
      | nil => rw [hparts] at h; exact absurd h List.not_mem_nil
      | cons first parts =>
        rw [hparts] at h hmem
        rcases List.mem_cons.mp h with rfl | h
        · exact List.not_mem_cons_of_ne_of_not_mem hd (hmem first List.mem_cons_self)
        · exact hmem part (List.mem_cons_of_mem first h)

theorem afterLast_append {c : Char} (s : Str) {t : Str} (h : c ∉ t) : afterLast c (s ++ c :: t) = t := by
  have hrev : ∀ d ∈ t.reverse, (d != c) = true := by
    intro d hd
    rw [bne_iff_ne]
    rintro rfl
    exact h (List.mem_reverse.mp hd)
  rw [afterLast, List.rtakeWhile, List.reverse_append, List.reverse_cons, List.append_assoc,
    List.takeWhile_append_of_pos hrev]
  simp

/-- The first occurrence of a character is where it is first written. -/
theorem partition_append {c : Char} {before : Str} (h : c ∉ before) (rest : Str) :
    partition [c] (before ++ c :: rest) = (before, [c], rest) := by
  induction before with
  | nil => simp [partition]
  | cons d ds ih =>
    obtain ⟨hd, hds⟩ := not_or.mp (List.mem_cons.not.mp h)
    have hhead : [c].isPrefixOf (d :: (ds ++ c :: rest)) = false := by
      rw [List.isPrefixOf_cons_cons, beq_false_of_ne hd, Bool.false_and]
    rw [List.cons_append, partition, hhead, ih hds]
    rfl

/-- The rest is the end of the text. -/
theorem partition_suffix {sep before found after : Str} : ∀ {s : Str}, partition sep s = (before, found, after) → after <:+ s
  | [], h => by simp only [partition, Prod.mk.injEq] at h; simp [← h.2.2]
  | c :: cs, h => by
    simp only [partition] at h
    split at h
    · simp only [Prod.mk.injEq] at h
      rw [← h.2.2]
      exact List.drop_suffix _ _
    · simp only [Prod.mk.injEq] at h
      obtain ⟨-, hf, ha⟩ := h
      have : partition sep cs = ((partition sep cs).1, found, after) := by rw [← hf, ← ha]
      exact (partition_suffix this).trans (List.suffix_cons c cs)

/-- What comes before is the beginning of the text. -/
theorem partition_before {sep before found after : Str} : ∀ {s : Str}, partition sep s = (before, found, after) → before <+: s
  | [], h => by simp only [partition, Prod.mk.injEq] at h; simp [← h.1]
  | c :: cs, h => by
    simp only [partition] at h
    split at h
    · simp only [Prod.mk.injEq] at h
      rw [← h.1]
      exact List.nil_prefix
    · simp only [Prod.mk.injEq] at h
      obtain ⟨hb, hf, ha⟩ := h
      have : partition sep cs = ((partition sep cs).1, found, after) := by rw [← hf, ← ha]
      rw [← hb, List.cons_prefix_cons]
      exact ⟨rfl, partition_before this⟩

/-! ## Stripping on the right -/

@[simp] theorem rstrip_nil (c : Char) : rstrip c [] = [] := rfl

theorem rstrip_append_replicate (c : Char) (s : Str) (n : Nat) :
    rstrip c (s ++ List.replicate n c) = rstrip c s := by
  induction n with
  | zero => simp
  | succ n ih =>
    rw [List.replicate_succ', ← List.append_assoc, rstrip, List.rdropWhile_concat_pos _ _ _ (by simp)]
    exact ih

@[simp] theorem rstrip_rstrip (c : Char) (s : Str) : rstrip c (rstrip c s) = rstrip c s :=
  List.rdropWhile_idempotent _ s

theorem rstrip_isPrefix (c : Char) (s : Str) : rstrip c s <+: s := List.rdropWhile_prefix _ s

/-- Stripping stops at a character that is not stripped. -/
theorem rstrip_append_of_last {c : Char} {s : Str} (hs : s ≠ []) (hl : s.getLast hs ≠ c) (t : Str) :
    rstrip c (s ++ t) = s ++ rstrip c t := by
  induction t using List.reverseRecOn with
  | nil =>
    rw [List.append_nil, rstrip_nil, List.append_nil, rstrip, List.rdropWhile_eq_self_iff]
    intro _
    simpa using hl
  | append_singleton t d ih =>
    by_cases hd : d = c
    · rw [← List.append_assoc, rstrip, List.rdropWhile_concat_pos _ _ _ (by simpa using hd), rstrip,
        List.rdropWhile_concat_pos _ _ _ (by simpa using hd)]
      exact ih
    · rw [← List.append_assoc, rstrip, List.rdropWhile_concat_neg _ _ _ (by simpa using hd), rstrip,
        List.rdropWhile_concat_neg _ _ _ (by simpa using hd), List.append_assoc]

/-! ## Replacing by a placeholder and back -/

theorem replace_eq {old : Str} (h : old ≠ []) (new s : Str) : replace old new s = replaceFrom old new 0 s := by
  simp [replace, h]

@[simp] theorem replaceFrom_nil (old new : Str) (k : Nat) : replaceFrom old new k [] = [] := by
  cases k <;> rfl

theorem replaceFrom_skip (old new : Str) : ∀ (k : Nat) (s : Str), replaceFrom old new k s = replaceFrom old new 0 (s.drop k)
  | 0, _ => rfl
  | k + 1, [] => by simp
  | k + 1, _ :: cs => by rw [replaceFrom, List.drop_succ_cons]; exact replaceFrom_skip old new k cs

/-- At an occurrence of the needle. -/
theorem replaceFrom_needle {old : Str} (h : old ≠ []) (new t : Str) :
    replaceFrom old new 0 (old ++ t) = new ++ replaceFrom old new 0 t := by
  obtain ⟨c, cs, rfl⟩ := List.exists_cons_of_ne_nil h
  rw [List.cons_append, replaceFrom, if_pos (by simp), replaceFrom_skip]
  simp

/-- Away from an occurrence of the needle. -/
theorem replaceFrom_literal {old : Str} {c : Char} {cs : Str} (h : ¬ old <+: c :: cs) (new : Str) :
    replaceFrom old new 0 (c :: cs) = c :: replaceFrom old new 0 cs := by
  rw [replaceFrom, if_neg (by simpa using h)]

/-- Induction along a replacement: a needle is taken whole, any other character
by itself. -/
@[elab_as_elim]
theorem needleInduction {old : Str} (ho : old ≠ []) {P : Str → Prop} (nil : P []) (needle : ∀ t, P t → P (old ++ t))
    (literal : ∀ c cs, ¬ old <+: c :: cs → P cs → P (c :: cs)) (s : Str) : P s := by
  induction hn : s.length using Nat.strong_induction_on generalizing s with
  | _ n ih =>
    by_cases hp : old <+: s
    · obtain ⟨t, rfl⟩ := hp
      have hpos := List.length_pos_of_ne_nil ho
      rw [List.length_append] at hn
      exact needle t (ih t.length (by omega) t rfl)
    · cases s with
      | nil => exact nil
      | cons c cs =>
        rw [List.length_cons] at hn
        exact literal c cs hp (ih cs.length (by omega) cs rfl)

/-- A replaced text is a literal start of the text, then what follows its
first occurrence of the needle (or its end). -/
theorem replaceFrom_split (old new : Str) : ∀ s : Str, ∃ l t, s = l ++ t ∧
    replaceFrom old new 0 s = l ++ replaceFrom old new 0 t ∧ (t = [] ∨ old <+: t)
  | [] => ⟨[], [], rfl, rfl, .inl rfl⟩
  | c :: cs => by
    by_cases h : old <+: c :: cs
    · exact ⟨[], c :: cs, rfl, rfl, .inr h⟩
    · obtain ⟨l, t, hs, hr, ht⟩ := replaceFrom_split old new cs
      exact ⟨c :: l, t, by rw [hs, List.cons_append], by rw [replaceFrom_literal h, hr, List.cons_append], ht⟩

/-- Nothing to replace. -/
theorem replace_of_not_infix {old : Str} (h : old ≠ []) (new : Str) : ∀ {s : Str}, ¬ old <:+: s → replace old new s = s
  | [], _ => by rw [replace_eq h, replaceFrom_nil]
  | c :: cs, hs => by
    rw [List.infix_cons_iff, not_or] at hs
    rw [replace_eq h, replaceFrom_literal hs.1, ← replace_eq h, replace_of_not_infix h new hs.2]

/-- A placeholder recognised by a mark inside it: where the placeholder
overlaps a later copy of itself, the part before the overlap already
contains the mark. -/
structure Marked (mark hold : Str) : Prop where
  inside : mark <:+: hold
  border : ∀ k < hold.length, 0 < k → hold.drop k <+: hold → mark <:+: hold.take k

instance (mark hold : Str) : Decidable (Marked mark hold) :=
  decidable_of_iff (mark <:+: hold ∧ ∀ k < hold.length, 0 < k → hold.drop k <+: hold → mark <:+: hold.take k)
    ⟨fun h => ⟨h.1, h.2⟩, fun h => ⟨h.inside, h.border⟩⟩

/-- In a text free of the mark no placeholder starts where the needle does not. -/
theorem Marked.not_prefix {mark hold old s : Str} (hm : Marked mark hold) (ho : old ≠ [])
    (hs : ¬ mark <:+: s) (hn : ¬ old <+: s) : ¬ hold <+: replaceFrom old hold 0 s := by
  intro hp
  obtain ⟨l, t, rfl, hr, ht⟩ := replaceFrom_split old hold s
  have hl : ¬ mark <:+: l := fun h => hs (h.trans (List.prefix_append l t).isInfix)
  rw [hr] at hp
  by_cases hlen : hold.length ≤ l.length
  · -- The placeholder lies within the literal start.
    have : hold <+: l := List.prefix_of_prefix_length_le hp (List.prefix_append _ _) hlen
    exact hl (hm.inside.trans this.isInfix)
  · have htake : hold.take l.length = l := by
      have := List.prefix_of_prefix_length_le (List.prefix_append l _) hp (by omega)
      exact (List.prefix_iff_eq_take.mp this).symm
    rcases ht with rfl | ⟨t', rfl⟩
    · rw [replaceFrom_nil, List.append_nil] at hp
      exact hlen hp.length_le
    · -- It overlaps the copy put in place of the first needle.
      rw [replaceFrom_needle ho] at hp
      have hne : 0 < l.length := by
        rcases Nat.eq_zero_or_pos l.length with h0 | h0
        · rw [List.eq_nil_of_length_eq_zero h0] at hn
          exact absurd (List.prefix_append old t') hn
        · exact h0
      have hdrop : hold.drop l.length <+: hold := by
        have h1 := hp.drop l.length
        rw [List.drop_left] at h1
        exact List.prefix_of_prefix_length_le h1 (List.prefix_append _ _) (by simp)
      have := hm.border l.length (by omega) hne hdrop
      rw [htake] at this
      exact hl this

/-- **Replacing back.** On a text free of the mark, replacing every needle by
the marked placeholder and every placeholder by the needle is the identity. -/
theorem replace_replace {mark hold old s : Str} (hm : Marked mark hold) (ho : old ≠ []) (hh : hold ≠ [])
    (hs : ¬ mark <:+: s) : replace hold old (replace old hold s) = s := by
  rw [replace_eq ho, replace_eq hh]
  induction s using needleInduction ho with
  | nil => simp
  | needle t ih =>
    have ht : ¬ mark <:+: t := fun h => hs (h.trans (List.suffix_append old t).isInfix)
    rw [replaceFrom_needle ho, replaceFrom_needle hh, ih ht]
  | literal c cs hp ih =>
    have hcs : ¬ mark <:+: cs := fun h => hs (h.trans (List.suffix_cons c cs).isInfix)
    have hnp := hm.not_prefix ho hs hp
    rw [replaceFrom_literal hp] at hnp ⊢
    rw [replaceFrom_literal hnp, ih hcs]

/-- A mark that is not in the placeholder and cannot straddle its ends. -/
structure Apart (mark hold : Str) : Prop where
  outside : ¬ mark <:+: hold
  tail : ∀ k < hold.length, ¬ hold.drop k <+: mark
  head : ∀ k < mark.length, 0 < k → ¬ mark.drop k <+: hold ∧ ¬ hold <+: mark.drop k

instance (mark hold : Str) : Decidable (Apart mark hold) :=
  decidable_of_iff (¬ mark <:+: hold ∧ (∀ k < hold.length, ¬ hold.drop k <+: mark) ∧
      ∀ k < mark.length, 0 < k → ¬ mark.drop k <+: hold ∧ ¬ hold <+: mark.drop k)
    ⟨fun h => ⟨h.1, h.2.1, h.2.2⟩, fun h => ⟨h.outside, h.tail, h.head⟩⟩

/-- Where a mark starts in a placeholder followed by more text. -/
theorem Apart.not_infix_append {mark hold t : Str} (ha : Apart mark hold) (ht : ¬ mark <:+: t) :
    ¬ mark <:+: hold ++ t := by
  rintro ⟨a, b, hab⟩
  rw [List.append_assoc] at hab
  by_cases hlen : hold.length ≤ a.length
  · have : hold <+: a := List.prefix_of_prefix_length_le ⟨t, rfl⟩ ⟨mark ++ b, hab⟩ hlen
    obtain ⟨a', rfl⟩ := this
    rw [List.append_assoc, List.append_cancel_left_eq] at hab
    exact ht ⟨a', b, by rw [List.append_assoc, hab]⟩
  · have hp : mark <+: hold.drop a.length ++ t := by
      have := congrArg (List.drop a.length) hab
      rw [List.drop_left, List.drop_append_of_le_length (by omega)] at this
      exact ⟨b, this⟩
    by_cases hm : mark.length ≤ (hold.drop a.length).length
    · have : mark <+: hold.drop a.length := List.prefix_of_prefix_length_le hp (List.prefix_append _ _) hm
      exact ha.outside (this.isInfix.trans (List.drop_suffix _ _).isInfix)
    · exact ha.tail a.length (by omega)
        (List.prefix_of_prefix_length_le (List.prefix_append _ _) hp (by omega))

/-- After replacing a needle by a placeholder, the mark is nowhere, when it
started only where the needle did. -/
theorem Apart.not_infix_replace_of {mark hold old s : Str} (ha : Apart mark hold) (ho : old ≠ [])
    (hs : ∀ v, v <:+ s → mark <+: v → old <+: v) : ¬ mark <:+: replace old hold s := by
  have hne : mark ≠ [] := by rintro rfl; exact ha.outside List.nil_infix
  rw [replace_eq ho]
  induction s using needleInduction ho with
  | nil => simpa using hne
  | needle t ih =>
    rw [replaceFrom_needle ho]
    exact ha.not_infix_append (ih fun v hv => hs v (hv.trans (List.suffix_append old t)))
  | literal c cs hp ih =>
    have hrest := ih fun v hv => hs v (hv.trans (List.suffix_cons c cs))
    have hlit := replaceFrom_literal hp hold
    rw [hlit, List.infix_cons_iff, not_or]
    refine ⟨fun hpre => ?_, hrest⟩
    -- The mark starts in the literal start and runs into a placeholder.
    rw [← hlit] at hpre
    obtain ⟨l, t, hst, hr, ht⟩ := replaceFrom_split old hold (c :: cs)
    rw [hr] at hpre
    by_cases hlen : mark.length ≤ l.length
    · have hml : mark <+: l := List.prefix_of_prefix_length_le hpre (List.prefix_append _ _) hlen
      exact hp (hs _ (List.suffix_refl _) (hst ▸ hml.trans (List.prefix_append l t)))
    · rcases ht with rfl | ⟨t', rfl⟩
      · rw [replaceFrom_nil, List.append_nil] at hpre
        exact hlen hpre.length_le
      · have hpos : 0 < l.length := by
          rcases Nat.eq_zero_or_pos l.length with h0 | h0
          · rw [List.eq_nil_of_length_eq_zero h0, List.nil_append] at hst
            exact absurd (hst ▸ List.prefix_append old t') hp
          · exact h0
        rw [replaceFrom_needle ho] at hpre
        have hd := hpre.drop l.length
        rw [List.drop_left] at hd
        obtain ⟨h1, h2⟩ := ha.head l.length (by omega) hpos
        rcases Nat.le_total (mark.drop l.length).length hold.length with hle | hle
        · exact h1 (List.prefix_of_prefix_length_le hd (List.prefix_append _ _) hle)
        · exact h2 (List.prefix_of_prefix_length_le (List.prefix_append _ _) hd hle)

/-- Replacing a needle by a placeholder brings no mark into the text. -/
theorem Apart.not_infix_replace {mark hold old s : Str} (ha : Apart mark hold) (ho : old ≠ [])
    (hs : ¬ mark <:+: s) : ¬ mark <:+: replace old hold s :=
  ha.not_infix_replace_of ho fun _ hv hmark => absurd (hmark.isInfix.trans hv.isInfix) hs

/-- **Replaced is gone.** A text in which every needle is replaced by a
placeholder that does not overlap it has no needle. -/
theorem Apart.not_infix_replace_self {hold old : Str} (ha : Apart old hold) (s : Str) : ¬ old <:+: replace old hold s :=
  ha.not_infix_replace_of (by rintro rfl; exact ha.outside List.nil_infix) fun _ _ h => h

/-! ## Digits -/

/-- A digit is no blank, sign, point or underscore. -/
theorem isDigit_plain {c : Char} (h : c.isDigit = true) :
    isspace c = false ∧ c ≠ '-' ∧ c ≠ '+' ∧ c ≠ '.' ∧ c ≠ '_' ∧ c ≠ '/' := by
  refine ⟨?_, ?_, ?_, ?_, ?_, ?_⟩
  · have hrange : 48 ≤ c.toNat ∧ c.toNat ≤ 57 := by
      simpa [Char.isDigit, UInt32.le_iff_toNat_le] using h
    simp only [isspace, Bool.or_eq_false_iff, Bool.and_eq_false_iff, decide_eq_false_iff_not, beq_eq_false_iff_ne]
    omega
  all_goals rintro rfl; exact absurd h (by decide)

theorem strip_eq_self {s : Str} (h : ∀ c ∈ s, isspace c = false) : strip s = s := by
  have hdrop : s.dropWhile isspace = s := by
    cases s with
    | nil => rfl
    | cons c cs => rw [List.dropWhile_cons_of_neg (by simp [h c List.mem_cons_self])]
  rw [strip, hdrop, List.rdropWhile_eq_self_iff]
  intro hne
  simp [h _ (List.getLast_mem hne)]

/-- The digits of ASCII have their values. -/
def ReadsDigits (decimal : Char → Option Nat) : Prop := ∀ c, c.isDigit = true → decimal c = some (c.toNat - '0'.toNat)

theorem foldl_decimal (ds : Str) (n : Nat) :
    (ds.map fun c => c.toNat - '0'.toNat).foldl (fun n d => 10 * n + d) n = Nat.ofDigitChars 10 ds n := by
  rw [Nat.ofDigitChars_eq_foldl, List.foldl_map]

theorem ReadsDigits.mapM {decimal : Char → Option Nat} (hdecimal : ReadsDigits decimal) :
    ∀ {ds : Str}, (∀ c ∈ ds, c.isDigit = true) → ds.mapM decimal = some (ds.map fun c => c.toNat - '0'.toNat)
  | [], _ => rfl
  | c :: cs, h => by
    obtain ⟨hc, hcs⟩ := List.forall_mem_cons.mp h
    rw [List.mapM_cons, hdecimal c hc, hdecimal.mapM hcs]
    rfl

/-- Digits are read as the number they write. -/
theorem parseInt_digits {decimal : Char → Option Nat} (hdecimal : ReadsDigits decimal) {ds : Str} (hne : ds ≠ [])
    (hd : ∀ c ∈ ds, c.isDigit = true) (hlen : ds.length ≤ 4300) :
    parseInt decimal ds = some (Nat.ofDigitChars 10 ds 0 : Int) := by
  have hstrip : strip ds = ds := strip_eq_self fun c hc => (isDigit_plain (hd c hc)).1
  have hsplit : split '_' ds = [ds] := split_of_not_mem fun h => (isDigit_plain (hd _ h)).2.2.2.2.1 rfl
  obtain ⟨c, cs, rfl⟩ := List.exists_cons_of_ne_nil hne
  obtain ⟨-, hminus, hplus, -⟩ := isDigit_plain (hd c List.mem_cons_self)
  rw [parseInt, hstrip]
  split
  next negative body heq =>
  split at heq
  · next h => exact absurd (List.cons.inj h).1 hminus
  · next h => exact absurd (List.cons.inj h).1 hplus
  obtain ⟨rfl, rfl⟩ := Prod.mk.inj heq
  have hgroups : ([c :: cs] : List Str).any List.isEmpty = false := rfl
  rw [hsplit]
  dsimp only
  rw [hgroups, List.flatten_singleton, hdecimal.mapM hd]
  simp only [Option.bind_eq_bind, Option.bind_some, List.length_map, foldl_decimal, Bool.false_eq_true, if_false]
  rw [if_neg (by omega)]
  rfl

end Py
