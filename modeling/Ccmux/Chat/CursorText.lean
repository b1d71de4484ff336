/- Module: Ccmux/Chat/CursorText
   source: src/chat/logFeed.ts (formatCursor, parseCursor)
   digest: The text of a cursor with the numbers JavaScript holds, and which texts are read back. -/

import Ccmux.Lib.Number
import Ccmux.Chat.LogFeed

namespace Ccmux.Chat.CursorText

open Ccmux.Lib.Number
open Ccmux.Chat.LogFeed (CHAT_GENERATION LogCursor isSpace parseDigits parseInt)

/-- `Number.parseInt(text, 10)` with the number rounded to a double; `none` is no integer. -/
@[grind =]
def parseNumber (text : List Char) : Option Int :=
  (parseInt text).bind fun value =>
    (toNumber value.natAbs).map fun n : Nat => if value < 0 then -(n : Int) else (n : Int)

@[grind =]
def formatCursor (c : LogCursor) : String :=
  String.ofList (printNumber c.gen ++ '.' :: printNumber c.ledger ++ '.' :: printNumber c.outbox)

/-- Read a cursor back, refusing anything this build cannot honour. -/
def parseCursor (raw : String) : Except String LogCursor :=
  match raw.toList.splitOn '.' with
  | [gen, ledger, outbox] =>
    match parseNumber gen, parseNumber ledger, parseNumber outbox with
    | some gen, some ledger, some outbox =>
      if ledger < 0 ∨ outbox < 0 then
        .error ("expected three non-negative integers, got '" ++ raw ++ "'")
      else if gen ≠ CHAT_GENERATION then
        .error ("cursor is for record generation " ++ toString gen ++ ", this log is generation " ++
          toString CHAT_GENERATION ++ ". Positions do not survive a generation change — start " ++
          "without a cursor to read the current log.")
      else .ok ⟨CHAT_GENERATION, ledger.toNat, outbox.toNat⟩
    | _, _, _ => .error ("expected three non-negative integers, got '" ++ raw ++ "'")
  | _ => .error ("expected <generation>.<ledger>.<outbox>, got '" ++ raw ++ "'")

/-- A cursor of this generation, at positions a double holds. -/
structure IsCurrent (c : LogCursor) : Prop where
  gen : c.gen = CHAT_GENERATION
  ledger : IsNumber c.ledger
  outbox : IsNumber c.outbox

/-- The text is read exactly when it is the print of a current cursor, and as that cursor. -/
def ReadAsPrinted (raw : String) : Prop :=
  ∀ c, parseCursor raw = .ok c ↔ IsCurrent c ∧ raw = formatCursor c

/-- The digits a number is printed with when it is printed without an exponent. -/
def IsPrinted (text : List Char) : Prop :=
  ∃ x, IsNumber x ∧ shortest x < 10 ^ 21 ∧ text = Nat.toDigits 10 (shortest x)

/-- Three parts that are read as numbers, the generation and two positions, but some part is not
what its number is printed with: it holds a space, a sign, a leading zero, something behind its
digits, or digits that a double rounds. -/
def LooselyWritten (raw : String) : Prop :=
  ∃ gen ledger outbox, raw.toList.splitOn '.' = [gen, ledger, outbox] ∧
    parseNumber gen = some (CHAT_GENERATION : Int) ∧
    (∃ n : Nat, parseNumber ledger = some (n : Int)) ∧
    (∃ n : Nat, parseNumber outbox = some (n : Int)) ∧
    ¬ (gen = ['2'] ∧ IsPrinted ledger ∧ IsPrinted outbox)

/-- The print of a cursor with a position that is printed with an exponent. -/
def WithExponent (raw : String) : Prop :=
  ∃ c, IsCurrent c ∧ raw = formatCursor c ∧
    ¬ (shortest c.ledger < 10 ^ 21 ∧ shortest c.outbox < 10 ^ 21)

/-! ### Splitting at the points -/

variable {text second third : List Char} {raw : String}

theorem notMem_of_mem_splitOn {part : List Char} (h : part ∈ text.splitOn '.') :
    '.' ∉ part := by
  induction text generalizing part with
  | nil =>
    obtain rfl := List.mem_singleton.mp h
    exact List.not_mem_nil
  | cons c text ih =>
    rw [List.splitOn_cons_eq_if_modifyHead] at h
    split at h
    · rcases List.mem_cons.mp h with rfl | hrest
      · exact List.not_mem_nil
      · exact ih hrest
    · next hc =>
      cases hsplit : text.splitOn '.' with
      | nil => exact absurd hsplit (List.splitOn_ne_nil '.' text)
      | cons first rest =>
        rw [hsplit] at h ih
        rcases List.mem_cons.mp h with rfl | hrest
        · intro hdot
          rcases List.mem_cons.mp hdot with rfl | hin
          · exact hc (beq_self_eq_true '.')
          · exact ih List.mem_cons_self hin
        · exact ih (List.mem_cons_of_mem first hrest)

theorem splitOn_three {first : List Char} :
    text.splitOn '.' = [first, second, third] ↔
      text = first ++ '.' :: (second ++ '.' :: third) ∧
        '.' ∉ first ∧ '.' ∉ second ∧ '.' ∉ third := by
  have hjoin : ['.'].intercalate [first, second, third] =
      first ++ '.' :: (second ++ '.' :: third) := by
    simp [List.intercalate]
  constructor
  · intro h
    have htext : ['.'].intercalate (text.splitOn '.') = text := List.intercalate_splitOn '.'
    rw [h, hjoin] at htext
    refine ⟨htext.symm, ?_⟩
    have hparts : ∀ part ∈ text.splitOn '.', '.' ∉ part := fun _ => notMem_of_mem_splitOn
    rw [h] at hparts
    exact ⟨hparts first (by simp), hparts second (by simp), hparts third (by simp)⟩
  · rintro ⟨rfl, hfirst, hsecond, hthird⟩
    rw [← hjoin]
    refine List.splitOn_intercalate _ ?_ (by simp)
    intro part hpart
    simp only [List.mem_cons, List.not_mem_nil, or_false] at hpart
    rcases hpart with rfl | rfl | rfl
    · exact hfirst
    · exact hsecond
    · exact hthird

/-! ### Reading what was printed -/

variable {x : Nat} {c : LogCursor}

theorem parseNumber_toDigits {n : Nat} (h : toNumber n = some x) :
    parseNumber (Nat.toDigits 10 n) = some (x : Int) := by
  have hsign : ¬ (n : Int) < 0 := by omega
  simp [parseNumber, LogFeed.parseInt_toDigits, h, hsign]

/-- Of a print with an exponent only the first digit is read. -/
theorem parseNumber_exponent (h : ¬ shortest x < 10 ^ 21) :
    ∃ d : Nat, d < 10 ∧ parseNumber (printNumber x) = some (d : Int) := by
  obtain ⟨c, next, rest, hprint, hc, hnext⟩ := printNumber_exponent h
  have hspace : (c :: next :: rest).dropWhile isSpace = c :: next :: rest := by
    simp [LogFeed.isSpace_digit hc]
  have hminus : c ≠ '-' := by
    rintro rfl
    exact absurd hc (by decide)
  have hplus : c ≠ '+' := by
    rintro rfl
    exact absurd hc (by decide)
  have hdigits : parseDigits (c :: next :: rest) = some (c.toNat - '0'.toNat) := by
    simp [parseDigits, hc, hnext, Nat.ofDigitChars_cons]
  have hdigit : c.toNat - '0'.toNat < 10 := by
    simp only [Char.isDigit, Bool.and_eq_true, decide_eq_true_eq] at hc
    have hhigh : c.toNat ≤ 57 := hc.2
    have hzero : '0'.toNat = 48 := rfl
    omega
  have hint : parseInt (printNumber x) = some ((c.toNat - '0'.toNat : Nat) : Int) := by
    rw [hprint, parseInt, hspace]
    split
    · next heq => exact absurd (List.cons.inj heq).1 hminus
    · next heq => exact absurd (List.cons.inj heq).1 hplus
    · rw [hdigits]
      rfl
  refine ⟨c.toNat - '0'.toNat, hdigit, ?_⟩
  have hsmall : toNumber (c.toNat - '0'.toNat) = some (c.toNat - '0'.toNat) :=
    toNumber_of_lt (hdigit.trans (by decide))
  have hsign : ¬ ((c.toNat - '0'.toNat : Nat) : Int) < 0 := by omega
  rw [parseNumber, hint, Option.bind_some, Int.natAbs_natCast, hsmall, Option.map_some,
    if_neg hsign]

theorem dot_notMem_toDigits (n : Nat) : '.' ∉ Nat.toDigits 10 n := by
  intro hmem
  exact absurd (Nat.isDigit_of_mem_toDigits (by decide) (by decide) hmem) (by decide)

theorem printNumber_plain (h : shortest x < 10 ^ 21) :
    printNumber x = Nat.toDigits 10 (shortest x) := if_pos h

theorem parseNumber_gen : parseNumber ['2'] = some (CHAT_GENERATION : Int) := by
  have hdigits : Nat.toDigits 10 2 = ['2'] := by decide
  have hread := parseNumber_toDigits (toNumber_of_lt (by decide : 2 < 2 ^ 53))
  rw [hdigits] at hread
  exact hread

theorem printNumber_gen : printNumber CHAT_GENERATION = ['2'] := by decide

theorem parseCursor_ok :
    parseCursor raw = .ok c ↔ ∃ gen ledger outbox, raw.toList.splitOn '.' = [gen, ledger, outbox] ∧
      parseNumber gen = some (CHAT_GENERATION : Int) ∧
      parseNumber ledger = some (c.ledger : Int) ∧ parseNumber outbox = some (c.outbox : Int) ∧
      c.gen = CHAT_GENERATION := by
  constructor
  · intro h
    unfold parseCursor at h
    split at h
    · next gen ledger outbox hsplit =>
      split at h
      · next g l o hgen hledger houtbox =>
        split at h
        · cases h
        · next hsign =>
          split at h
          · cases h
          · next hcurrent =>
            obtain rfl := Except.ok.inj h
            rw [not_not] at hcurrent
            push Not at hsign
            refine ⟨gen, ledger, outbox, hsplit, by rw [hgen, hcurrent], ?_, ?_, rfl⟩
            · rw [hledger, Int.toNat_of_nonneg hsign.1]
            · rw [houtbox, Int.toNat_of_nonneg hsign.2]
      · cases h
    · cases h
  · rintro ⟨gen, ledger, outbox, hsplit, hgen, hledger, houtbox, hc⟩
    unfold parseCursor
    rw [hsplit]
    simp only [hgen, hledger, houtbox]
    rw [if_neg (by omega), if_neg (by simp)]
    obtain ⟨g, l, o⟩ := c
    simp only at hc
    simp [hc]

theorem parseCursor_formatCursor (h : IsCurrent c)
    (hledger : shortest c.ledger < 10 ^ 21) (houtbox : shortest c.outbox < 10 ^ 21) :
    parseCursor (formatCursor c) = .ok c := by
  refine (parseCursor_ok).mpr ⟨['2'], Nat.toDigits 10 (shortest c.ledger),
    Nat.toDigits 10 (shortest c.outbox), ?_, parseNumber_gen,
    parseNumber_toDigits (toNumber_shortest h.ledger),
    parseNumber_toDigits (toNumber_shortest h.outbox), h.gen⟩
  rw [splitOn_three]
  refine ⟨?_, by decide, dot_notMem_toDigits _, dot_notMem_toDigits _⟩
  rw [formatCursor, String.toList_ofList, h.gen, printNumber_gen, printNumber_plain hledger,
    printNumber_plain houtbox]
  simp

theorem parts_of_append {a b c : List Char}
    (h : a ++ '.' :: (b ++ '.' :: c) = ['2'] ++ '.' :: (second ++ '.' :: third))
    (ha : '.' ∉ a) (hb : '.' ∉ b) (hc : '.' ∉ c) : a = ['2'] ∧ b = second ∧ c = third := by
  have hleft : (a ++ '.' :: (b ++ '.' :: c)).splitOn '.' = [a, b, c] :=
    (splitOn_three).mpr ⟨rfl, ha, hb, hc⟩
  have hcount := congrArg (List.count '.') h
  simp only [List.count_append, List.count_cons_self, List.count_eq_zero_of_not_mem ha,
    List.count_eq_zero_of_not_mem hb, List.count_eq_zero_of_not_mem hc] at hcount
  have htwo : List.count '.' ['2'] = 0 := by decide
  have hsecond : '.' ∉ second := List.count_eq_zero.mp (by omega)
  have hthird : '.' ∉ third := List.count_eq_zero.mp (by omega)
  have hright : (['2'] ++ '.' :: (second ++ '.' :: third)).splitOn '.' = [['2'], second, third] :=
    (splitOn_three).mpr ⟨rfl, by decide, hsecond, hthird⟩
  rw [h, hright] at hleft
  simp only [List.cons.injEq, and_true] at hleft
  exact ⟨hleft.1.symm, hleft.2.1.symm, hleft.2.2.symm⟩

theorem parts_of_formatCursor (hc : c.gen = CHAT_GENERATION)
    {gen ledger outbox : List Char}
    (h : (formatCursor c).toList.splitOn '.' = [gen, ledger, outbox]) :
    gen = ['2'] ∧ ledger = printNumber c.ledger ∧ outbox = printNumber c.outbox := by
  obtain ⟨htext, hgen, hledger, houtbox⟩ := (splitOn_three).mp h
  rw [formatCursor, String.toList_ofList, hc, printNumber_gen] at htext
  refine parts_of_append ?_ hgen hledger houtbox
  rw [← htext]
  simp

theorem not_read_of_exponent (hexponent : ¬ (shortest c.ledger < 10 ^ 21 ∧
    shortest c.outbox < 10 ^ 21)) : parseCursor (formatCursor c) ≠ .ok c := by
  intro h
  obtain ⟨gen, ledger, outbox, hsplit, -, hledger, houtbox, hc⟩ := (parseCursor_ok).mp h
  obtain ⟨-, rfl, rfl⟩ := parts_of_formatCursor hc hsplit
  rcases not_and_or.mp hexponent with hbig | hbig
  · obtain ⟨d, hd, hread⟩ := parseNumber_exponent hbig
    have hsame : (d : Int) = c.ledger := Option.some.inj (hread.symm.trans hledger)
    have hle := le_of_exponent hbig
    omega
  · obtain ⟨d, hd, hread⟩ := parseNumber_exponent hbig
    have hsame : (d : Int) = c.outbox := Option.some.inj (hread.symm.trans houtbox)
    have hle := le_of_exponent hbig
    omega

theorem readAsPrinted_of_strict (hloose : ¬ LooselyWritten raw)
    (hexponent : ¬ WithExponent raw) : ReadAsPrinted raw := by
  intro c
  constructor
  · intro h
    obtain ⟨gen, ledger, outbox, hsplit, hgen, hledger, houtbox, hc⟩ := (parseCursor_ok).mp h
    have hparts : gen = ['2'] ∧ IsPrinted ledger ∧ IsPrinted outbox := by
      by_contra hparts
      exact hloose ⟨gen, ledger, outbox, hsplit, hgen, ⟨_, hledger⟩, ⟨_, houtbox⟩, hparts⟩
    obtain ⟨rfl, ⟨l, hl, hlshort, rfl⟩, ⟨o, ho, hoshort, rfl⟩⟩ := hparts
    rw [parseNumber_toDigits (toNumber_shortest hl)] at hledger
    rw [parseNumber_toDigits (toNumber_shortest ho)] at houtbox
    obtain rfl : l = c.ledger := by simpa using hledger
    obtain rfl : o = c.outbox := by simpa using houtbox
    refine ⟨⟨hc, hl, ho⟩, ?_⟩
    apply String.toList_inj.mp
    rw [((splitOn_three).mp hsplit).1, formatCursor, String.toList_ofList, hc, printNumber_gen,
      printNumber_plain hlshort, printNumber_plain hoshort]
    simp
  · rintro ⟨hcurrent, rfl⟩
    have hplain : shortest c.ledger < 10 ^ 21 ∧ shortest c.outbox < 10 ^ 21 := by
      by_contra hbig
      exact hexponent ⟨c, hcurrent, rfl, hbig⟩
    exact parseCursor_formatCursor hcurrent hplain.1 hplain.2

end Ccmux.Chat.CursorText
