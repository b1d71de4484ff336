/- Module: Ccmux/Lib/JsonText
   digest: How a text is quoted in a JSON document, and how many bytes that takes. -/

import Mathlib

namespace Ccmux.Lib.JsonText

/-- One character as `JSON.stringify` writes it. -/
def escapeChar (c : Char) : List Char :=
  match c.toNat with
  | 34 => ['\\', c]
  | 92 => ['\\', c]
  | 8 => ['\\', 'b']
  | 9 => ['\\', 't']
  | 10 => ['\\', 'n']
  | 12 => ['\\', 'f']
  | 13 => ['\\', 'r']
  | code =>
    if code < 32 then ['\\', 'u', '0', '0', Nat.digitChar (code / 16), Nat.digitChar (code % 16)]
    else [c]

@[irreducible] def escape (text : String) : String := String.ofList (text.toList.flatMap escapeChar)

@[irreducible] def quote (text : String) : String := "\"" ++ escape text ++ "\""

@[irreducible] def field (name value : String) : String := quote name ++ ":" ++ value

def joinFields : List String → String
  | [] => ""
  | [text] => text
  | text :: next :: rest => text ++ "," ++ joinFields (next :: rest)

@[irreducible] def object (fields : List String) : String := "\x7b" ++ joinFields fields ++ "\x7d"

@[irreducible] def array (items : List String) : String := "[" ++ joinFields items ++ "]"

/-- `Buffer.byteLength(text)`; irreducible, so that no proof step counts the bytes of a literal. -/
@[irreducible] def byteLength (text : String) : Nat := text.utf8ByteSize

def escapedBytes (text : String) : Nat := byteLength (escape text)

@[simp] theorem byteLength_append (left right : String) :
    byteLength (left ++ right) = byteLength left + byteLength right := by
  unfold byteLength
  exact String.utf8ByteSize_append

@[simp] theorem byteLength_empty : byteLength "" = 0 := by
  unfold byteLength
  exact String.utf8ByteSize_empty

theorem escape_append (left right : String) : escape (left ++ right) = escape left ++ escape right := by
  unfold escape
  simp [String.toList_append, List.flatMap_append]

@[simp] theorem escapedBytes_empty : escapedBytes "" = 0 := by
  unfold escapedBytes escape
  exact byteLength_empty

theorem escapedBytes_append (left right : String) :
    escapedBytes (left ++ right) = escapedBytes left + escapedBytes right := by
  simp [escapedBytes, escape_append]

theorem byteLength_quote (text : String) : byteLength (quote text) = escapedBytes text + 2 := by
  have hmark : byteLength "\"" = 1 := by
    unfold byteLength
    decide
  unfold quote
  simp only [byteLength_append, hmark, escapedBytes]
  omega

theorem byteLength_field (name value : String) :
    byteLength (field name value) = escapedBytes name + byteLength value + 3 := by
  have hcolon : byteLength ":" = 1 := by
    unfold byteLength
    decide
  unfold field
  rw [byteLength_append, byteLength_append, byteLength_quote, hcolon]
  omega

theorem byteLength_joinFields (fields : List String) :
    byteLength (joinFields fields) = (fields.map byteLength).sum + (fields.length - 1) := by
  have hcomma : byteLength "," = 1 := by
    unfold byteLength
    decide
  induction fields with
  | nil => exact byteLength_empty
  | cons text rest ih =>
    cases rest with
    | nil => simp [joinFields]
    | cons next rest =>
      rw [joinFields, byteLength_append, byteLength_append, ih, hcomma]
      simp only [List.map_cons, List.sum_cons, List.length_cons]
      omega

theorem byteLength_object (fields : List String) :
    byteLength (object fields) = (fields.map byteLength).sum + (fields.length - 1) + 2 := by
  have hopen : byteLength "\x7b" = 1 := by
    unfold byteLength
    decide
  have hclose : byteLength "\x7d" = 1 := by
    unfold byteLength
    decide
  unfold object
  rw [byteLength_append, byteLength_append, byteLength_joinFields, hopen, hclose]
  omega

theorem byteLength_array (items : List String) :
    byteLength (array items) = (items.map byteLength).sum + (items.length - 1) + 2 := by
  have hopen : byteLength "[" = 1 := by
    unfold byteLength
    decide
  have hclose : byteLength "]" = 1 := by
    unfold byteLength
    decide
  unfold array
  rw [byteLength_append, byteLength_append, byteLength_joinFields, hopen, hclose]
  omega

def repeated (text : String) : Nat → String
  | 0 => ""
  | n + 1 => repeated text n ++ text

theorem escapedBytes_repeated (text : String) (n : Nat) :
    escapedBytes (repeated text n) = n * escapedBytes text := by
  induction n with
  | zero => simp [repeated]
  | succ n ih => rw [repeated, escapedBytes_append, ih, Nat.succ_mul]

/-! ### A document is read in one way -/

/-- Texts of which none goes on as another one does. -/
def Delimited {α : Type} (text : α → String) : Prop :=
  ∀ a b x y, (text a).toList ++ x = (text b).toList ++ y → a = b ∧ x = y

/-- How many characters stand for one, told by the first two of them. -/
def escapedLength (chars : List Char) : Nat :=
  if chars.head? ≠ some '\\' then 1 else if chars.tail.head? = some 'u' then 6 else 2

def hexDigit (c : Char) : Nat := if c.toNat < 58 then c.toNat - 48 else c.toNat - 87

/-- The code of the character that the characters stand for. -/
def unescape : List Char → Nat
  | [c] => c.toNat
  | ['\\', 'b'] => 8
  | ['\\', 't'] => 9
  | ['\\', 'n'] => 10
  | ['\\', 'f'] => 12
  | ['\\', 'r'] => 13
  | ['\\', c] => c.toNat
  | [_, _, _, _, high, low] => hexDigit high * 16 + hexDigit low
  | _ => 0

theorem escapeChar_read : ∀ a : Fin 128,
    (escapeChar (Char.ofNat a)).length = escapedLength (escapeChar (Char.ofNat a)) ∧
      unescape (escapeChar (Char.ofNat a)) = a := by
  decide

theorem eq_of_escapedLength {l m : List Char} (hl : l.length = escapedLength l)
    (hm : m.length = escapedLength m) (h : l <+: m) : l = m := by
  obtain ⟨rest, rfl⟩ := h
  have hsame : escapedLength (l ++ rest) = escapedLength l := by
    cases l with
    | nil => exact absurd hl (by decide)
    | cons c tail =>
      cases tail with
      | nil =>
        have hplain : c ≠ '\\' := by
          rintro rfl
          exact absurd hl (by decide)
        simp [escapedLength, hplain]
      | cons d tail => simp [escapedLength]
  have hlength : rest.length = 0 := by
    rw [List.length_append, hsame] at hm
    omega
  rw [List.eq_nil_of_length_eq_zero hlength, List.append_nil]

theorem escapeChar_ascii (a b : Fin 128)
    (h : escapeChar (Char.ofNat a) <+: escapeChar (Char.ofNat b)) : a = b := by
  have hsame := eq_of_escapedLength (escapeChar_read a).1 (escapeChar_read b).1 h
  apply Fin.ext
  rw [← (escapeChar_read a).2, hsame, (escapeChar_read b).2]

theorem escapeChar_of_le {c : Char} (h : 128 ≤ c.toNat) : escapeChar c = [c] := by
  unfold escapeChar
  split
  case h_8 => rw [if_neg (by omega)]
  all_goals omega

theorem head_escapeChar (c : Char) : ∃ d rest, escapeChar c = d :: rest ∧ d ≠ '"' ∧
    (d = '\\' ∨ d = c) := by
  have hne : c.toNat ≠ 34 → c ≠ '"' := by
    rintro h rfl
    exact h rfl
  unfold escapeChar
  split
  case h_8 =>
    split
    · exact ⟨_, _, rfl, by decide, Or.inl rfl⟩
    · rename_i hcode _ _ _ _ _ _ _
      exact ⟨c, [], rfl, hne (by assumption), Or.inr rfl⟩
  all_goals exact ⟨_, _, rfl, by decide, Or.inl rfl⟩

theorem escapeChar_append {c d : Char} {x y : List Char}
    (h : escapeChar c ++ x = escapeChar d ++ y) : c = d ∧ x = y := by
  have hsame : c = d := by
    obtain ⟨c', _, hc, _, hheadc⟩ := head_escapeChar c
    obtain ⟨d', _, hd, _, hheadd⟩ := head_escapeChar d
    rcases Nat.lt_or_ge c.toNat 128 with hsmall | hlarge
    · rcases Nat.lt_or_ge d.toNat 128 with hsmall' | hlarge'
      · have hascii : ∀ {a b : Char}, a.toNat < 128 → b.toNat < 128 →
            escapeChar a <+: escapeChar b → a = b := by
          intro a b ha hb hprefix
          have hfin := escapeChar_ascii ⟨a.toNat, ha⟩ ⟨b.toNat, hb⟩
            (by simpa only [Char.ofNat_toNat] using hprefix)
          exact Char.toNat_inj.mp (Fin.mk.inj hfin)
        have hleft : escapeChar c <+: escapeChar d ++ y := ⟨x, h⟩
        rcases List.prefix_or_prefix_of_prefix hleft (List.prefix_append _ y) with hcd | hdc
        · exact hascii hsmall hsmall' hcd
        · exact (hascii hsmall' hsmall hdc).symm
      · rw [hc, escapeChar_of_le hlarge'] at h
        have hhead : c' = d := (List.cons.inj h).1
        rcases hheadc with rfl | rfl
        · rw [← hhead] at hlarge'
          exact absurd hlarge' (by decide)
        · exact hhead
    · rw [hd, escapeChar_of_le hlarge] at h
      have hhead : c = d' := (List.cons.inj h).1
      rcases hheadd with rfl | rfl
      · rw [hhead] at hlarge
        exact absurd hlarge (by decide)
      · exact hhead
  rw [hsame] at h
  exact ⟨hsame, List.append_cancel_left h⟩

theorem delimited_quote : Delimited quote := by
  have hmark : "\"".toList = ['"'] := by decide
  have hinside : ∀ (a b x y : List Char),
      a.flatMap escapeChar ++ '"' :: x = b.flatMap escapeChar ++ '"' :: y → a = b ∧ x = y := by
    intro a
    induction a with
    | nil =>
      intro b x y h
      cases b with
      | nil => exact ⟨rfl, (List.cons.inj h).2⟩
      | cons d b =>
        obtain ⟨d', rest, hd, hne, _⟩ := head_escapeChar d
        rw [List.flatMap_nil, List.nil_append, List.flatMap_cons, hd] at h
        exact absurd (List.cons.inj h).1.symm hne
    | cons c a ih =>
      intro b x y h
      cases b with
      | nil =>
        obtain ⟨c', rest, hc, hne, _⟩ := head_escapeChar c
        rw [List.flatMap_nil, List.nil_append, List.flatMap_cons, hc] at h
        exact absurd (List.cons.inj h).1 hne
      | cons d b =>
        rw [List.flatMap_cons, List.flatMap_cons, List.append_assoc, List.append_assoc] at h
        obtain ⟨rfl, hrest⟩ := escapeChar_append h
        obtain ⟨rfl, hxy⟩ := ih b x y hrest
        exact ⟨rfl, hxy⟩
  intro a b x y h
  unfold quote escape at h
  simp only [String.toList_append, String.toList_ofList, hmark, List.append_assoc, List.cons_append,
    List.nil_append] at h
  obtain ⟨hsame, hxy⟩ := hinside _ _ _ _ (List.cons.inj h).2
  exact ⟨String.toList_inj.mp hsame, hxy⟩

theorem joinFields_cons (text : String) (rest : List String) : (joinFields (text :: rest)).toList =
    text.toList ++ rest.flatMap fun more => ',' :: more.toList := by
  have hcomma : ",".toList = [','] := by decide
  induction rest generalizing text with
  | nil => simp [joinFields]
  | cons more rest ih =>
    rw [joinFields, String.toList_append, String.toList_append, ih, hcomma, List.flatMap_cons,
      List.append_assoc, List.singleton_append, List.cons_append]

/-- An array of such texts is read in one way, if none of them closes it. -/
theorem delimited_array {α : Type} {text : α → String} (h : Delimited text)
    (hclose : ∀ a, ∃ c rest, (text a).toList = c :: rest ∧ c ≠ ']') :
    Delimited fun items : List α => array (items.map text) := by
  have hopen : "[".toList = ['['] := by decide
  have hend : "]".toList = [']'] := by decide
  have htail : ∀ (as bs : List α) (x y : List Char),
      (as.map text).flatMap (fun more => ',' :: more.toList) ++ ']' :: x =
        (bs.map text).flatMap (fun more => ',' :: more.toList) ++ ']' :: y → as = bs ∧ x = y := by
    intro as
    induction as with
    | nil =>
      intro bs x y heq
      cases bs with
      | nil => exact ⟨rfl, (List.cons.inj heq).2⟩
      | cons b bs => exact absurd (List.cons.inj heq).1 (by decide)
    | cons a as ih =>
      intro bs x y heq
      cases bs with
      | nil => exact absurd (List.cons.inj heq).1 (by decide)
      | cons b bs =>
        rw [List.map_cons, List.map_cons, List.flatMap_cons, List.flatMap_cons, List.append_assoc,
          List.append_assoc] at heq
        obtain ⟨rfl, hrest⟩ := h a b _ _ (List.cons.inj heq).2
        obtain ⟨rfl, hxy⟩ := ih bs x y hrest
        exact ⟨rfl, hxy⟩
  intro as bs x y heq
  unfold array at heq
  simp only [String.toList_append, hopen, hend, List.append_assoc, List.cons_append,
    List.nil_append] at heq
  replace heq := (List.cons.inj heq).2
  cases as with
  | nil =>
    cases bs with
    | nil => exact ⟨rfl, (List.cons.inj heq).2⟩
    | cons b bs =>
      obtain ⟨c, rest, hb, hne⟩ := hclose b
      rw [List.map_cons, joinFields_cons, hb] at heq
      exact absurd (List.cons.inj heq).1.symm hne
  | cons a as =>
    cases bs with
    | nil =>
      obtain ⟨c, rest, ha, hne⟩ := hclose a
      rw [List.map_cons, joinFields_cons, ha] at heq
      exact absurd (List.cons.inj heq).1 hne
    | cons b bs =>
      rw [List.map_cons, List.map_cons, joinFields_cons, joinFields_cons, List.append_assoc,
        List.append_assoc] at heq
      obtain ⟨rfl, hrest⟩ := h a b _ _ heq
      obtain ⟨rfl, hxy⟩ := htail as bs x y hrest
      exact ⟨rfl, hxy⟩

end Ccmux.Lib.JsonText
