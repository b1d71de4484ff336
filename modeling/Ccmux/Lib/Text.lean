/- Module: Ccmux/Lib/Text
   digest: Texts as lists of characters: trimming, lines, and the places where a pattern matches. -/

import Mathlib

namespace Ccmux.Lib.Text

universe u

variable {α : Type u}

abbrev Chars := List Char

instance lawfulChars : LawfulBEq Chars := inferInstance

/-- The code points that count as white space in a pattern and at the ends of a trimmed text. -/
def isSpace (c : Char) : Bool :=
  decide (c.toNat ∈ [0x09, 0x0A, 0x0B, 0x0C, 0x0D, 0x20, 0xA0, 0x1680, 0x2028, 0x2029, 0x202F,
    0x205F, 0x3000, 0xFEFF]) || decide (0x2000 ≤ c.toNat ∧ c.toNat ≤ 0x200A)

def trimEnd (text : Chars) : Chars := (text.reverse.dropWhile isSpace).reverse

def trim (text : Chars) : Chars := trimEnd (text.dropWhile isSpace)

def lines (text : Chars) : List Chars := text.splitOn '\n'

def joinLines (parts : List Chars) : Chars := ['\n'].intercalate parts

/-- The last lines of a text that stops at its last visible character. -/
def tailLines (count : Nat) (text : Chars) : Chars :=
  let parts := lines (trimEnd text)
  joinLines (parts.drop (parts.length - count))

/-- The first place, from the left, where the pattern matches. -/
def firstMatch (pattern : Chars → Option α) : Chars → Option α
  | [] => pattern []
  | c :: rest => (pattern (c :: rest)).or (firstMatch pattern rest)

/-- The last place where the pattern matches. -/
def lastMatch (pattern : Chars → Option α) : Chars → Option α
  | [] => pattern []
  | c :: rest => (lastMatch pattern rest).or (pattern (c :: rest))

def includes (text part : Chars) : Bool :=
  (firstMatch (fun suffix => if part.isPrefixOf suffix then some () else none) text).isSome

/-- What follows the part at the head of the text. -/
def stripPrefix (part text : Chars) : Option Chars :=
  if part.isPrefixOf text then some (text.drop part.length) else none

variable {text part xs : Chars}

variable {pattern : Chars → Option α} {rest : Chars}

theorem firstMatch_isSome_iff :
    (firstMatch pattern text).isSome = true ↔
      ∃ suffix, suffix <:+ text ∧ (pattern suffix).isSome = true := by
  induction text with
  | nil => simp [firstMatch]
  | cons c rest ih =>
    rw [firstMatch, Option.isSome_or, Bool.or_eq_true, ih]
    constructor
    · rintro (hhead | ⟨suffix, hsuffix, hmatch⟩)
      · exact ⟨c :: rest, List.suffix_refl _, hhead⟩
      · exact ⟨suffix, hsuffix.trans (List.suffix_cons c rest), hmatch⟩
    · rintro ⟨suffix, hsuffix, hmatch⟩
      rcases List.suffix_cons_iff.mp hsuffix with rfl | hrest
      · exact .inl hmatch
      · exact .inr ⟨suffix, hrest, hmatch⟩

theorem lastMatch_eq_some {a : α} (h : lastMatch pattern text = some a)
    :
    ∃ suffix, suffix <:+ text ∧ pattern suffix = some a := by
  induction text with
  | nil => exact ⟨[], List.suffix_refl _, h⟩
  | cons c rest ih =>
    rcases Option.or_eq_some_iff.mp h with hrest | ⟨-, hhead⟩
    · obtain ⟨suffix, hsuffix, hmatch⟩ := ih hrest
      exact ⟨suffix, hsuffix.trans (List.suffix_cons c rest), hmatch⟩
    · exact ⟨c :: rest, List.suffix_refl _, hhead⟩

/-- What follows the first place where the part stands. -/
def after (part text : Chars) : Option Chars := firstMatch (stripPrefix part) text

theorem stripPrefix_append (part rest : Chars) : stripPrefix part (part ++ rest) = some rest := by
  rw [stripPrefix, if_pos (List.isPrefixOf_iff_prefix.mpr (List.prefix_append part rest)),
    List.drop_left]

theorem stripPrefix_eq_none (h : ¬ part <+: text) :
    stripPrefix part text = none := by
  rw [stripPrefix, if_neg (by rwa [List.isPrefixOf_iff_prefix])]

theorem after_cons (part : Chars) (c : Char) (rest : Chars) :
    after part (c :: rest) = (stripPrefix part (c :: rest)).or (after part rest) := rfl

theorem after_here {part : Chars} (hpart : part ≠ []) (rest : Chars) :
    after part (part ++ rest) = some rest := by
  have hstrip := stripPrefix_append part rest
  cases part with
  | nil => exact absurd rfl hpart
  | cons c more =>
    rw [List.cons_append, after_cons, ← List.cons_append, hstrip]
    rfl

theorem after_skip {c : Char} {part xs : Chars} (hxs : c ∉ xs) (ys : Chars) :
    after (c :: part) (xs ++ ys) = after (c :: part) ys := by
  induction xs with
  | nil => rfl
  | cons x rest ih =>
    rw [List.mem_cons, not_or] at hxs
    have hnone : ¬ c :: part <+: x :: (rest ++ ys) :=
      fun hprefix => hxs.1 (List.cons_prefix_cons.mp hprefix).1
    rw [List.cons_append, after_cons, stripPrefix_eq_none hnone, Option.none_or, ih hxs.2]

theorem length_le_of_after (h : after part xs = some rest) :
    part.length ≤ xs.length := by
  obtain ⟨suffix, hsuffix, hmatch⟩ :=
    firstMatch_isSome_iff.mp (Option.isSome_iff_exists.mpr ⟨rest, h⟩)
  have hprefix : part <+: suffix := by
    by_contra hnot
    rw [stripPrefix_eq_none hnot] at hmatch
    cases hmatch
  exact hprefix.length_le.trans hsuffix.length_le

/-- The first place in a text is the first place in a longer one. -/
theorem after_append_some (hpart : part ≠ []) (ys : Chars)
    (h : after part xs = some rest) : after part (xs ++ ys) = some (rest ++ ys) := by
  induction xs with
  | nil =>
    cases part with
    | nil => exact absurd rfl hpart
    | cons c more => cases h
  | cons x more ih =>
    rw [after_cons] at h
    rw [List.cons_append, after_cons]
    by_cases hprefix : part <+: x :: more
    · obtain ⟨tail, htail⟩ := hprefix
      rw [← htail, stripPrefix_append, Option.some_or] at h
      rw [← Option.some.inj h, ← List.cons_append, ← htail, List.append_assoc, stripPrefix_append,
        Option.some_or]
    · rw [stripPrefix_eq_none hprefix, Option.none_or] at h
      have hlength := length_le_of_after h
      have hnone : ¬ part <+: x :: (more ++ ys) := by
        intro hlong
        refine hprefix (List.prefix_of_prefix_length_le hlong ?_ ?_)
        · exact ⟨ys, rfl⟩
        · rw [List.length_cons]
          omega
      rw [stripPrefix_eq_none hnone, Option.none_or]
      exact ih h

/-- A text without the part that ends with `e`: behind it the part begins with that `e` or later, as
long as no longer end of the text goes on as the part does. -/
theorem after_append_none {ys : Chars} {e : Char} (h : after part (xs ++ [e]) = none)
    (hborder : ∀ k, 2 ≤ k → k < part.length → part[k - 1]? = some e → part[k]? ≠ ys.head?) :
    after part (xs ++ e :: ys) = after part (e :: ys) := by
  induction xs with
  | nil => rfl
  | cons x more ih =>
    rw [List.cons_append, after_cons, Option.or_eq_none_iff] at h
    obtain ⟨hhere, hlater⟩ := h
    have hnone : ¬ part <+: x :: (more ++ e :: ys) := by
      intro hprefix
      rcases Nat.lt_or_ge (more.length + 2) part.length with hlong | hshort
      · have hplace : ∀ i, i < part.length → part[i]? = (x :: (more ++ e :: ys))[i]? := by
          intro i hi
          have hsame := List.prefix_iff_getElem?.mp hprefix i hi
          rw [hsame, List.getElem?_eq_getElem hi]
        refine hborder (more.length + 2) (by omega) hlong ?_ ?_
        · rw [hplace _ (by omega)]
          simp
        · rw [hplace _ hlong, List.getElem?_cons_succ, List.getElem?_append_right (by omega)]
          cases ys <;> simp
      · have hin : part <+: x :: (more ++ [e]) := by
          refine List.prefix_of_prefix_length_le hprefix ⟨ys, ?_⟩ ?_
          · simp
          · simpa using hshort
        obtain ⟨tail, htail⟩ := hin
        rw [← htail, stripPrefix_append] at hhere
        cases hhere
    rw [List.cons_append, after_cons, stripPrefix_eq_none hnone, Option.none_or, ih hlater]

end Ccmux.Lib.Text
