/- Module: Ccmux/Lib/JsonTree
   digest: JSON values with their UTF-16 texts, how they are written, and that no two of them are
     written alike. -/

import Ccmux.Lib.Utf16

namespace Ccmux.Lib.JsonTree

open Ccmux.Lib.Utf16

def units (text : String) : Units := text.toList.map Char.toNat

def isDigit (c : Nat) : Bool := 48 ≤ c && c ≤ 57

/-- What a decimal text is made of: digits, signs, a point, an exponent. -/
def isNumeric (c : Nat) : Bool := isDigit c || c == 45 || c == 43 || c == 46 || c == 101

/-- A number, as the text it is written as. -/
structure Numeral where
  text : Units
  head : text.head?.any (fun c => isDigit c || c == 45) = true
  numeric : text.all isNumeric = true

inductive Json where
  | null
  | bool (value : Bool)
  | num (value : Numeral)
  | str (text : Units)
  | arr (items : List Json)
  | obj (fields : List (Units × Json))

/-! ### How a value is written -/

def hexDigit (n : Nat) : Nat := if n < 10 then 48 + n else 87 + n

def unicodeEscape (c : Nat) : Units :=
  [92, 117, hexDigit (c / 4096), hexDigit (c / 256 % 16), hexDigit (c / 16 % 16), hexDigit (c % 16)]

/-- One code point as `JSON.stringify` writes it; a lone half is escaped. -/
@[grind =]
def escapePoint : Units → Units
  | [c] =>
    if c = 34 then [92, 34]
    else if c = 92 then [92, 92]
    else if c = 8 then [92, 98]
    else if c = 9 then [92, 116]
    else if c = 10 then [92, 110]
    else if c = 12 then [92, 102]
    else if c = 13 then [92, 114]
    else if c < 32 || isHigh c || isLow c then unicodeEscape c
    else [c]
  | point => point

def quote (text : Units) : Units := 34 :: ((points text).flatMap escapePoint ++ [34])

@[grind =]
def commas : List Units → Units
  | [] => []
  | first :: rest => first ++ rest.flatMap (44 :: ·)

mutual

/-- `JSON.stringify`. -/
def stringify : Json → Units
  | .null => units "null"
  | .bool true => units "true"
  | .bool false => units "false"
  | .num value => value.text
  | .str text => quote text
  | .arr items => 91 :: (commas (itemTexts items) ++ [93])
  | .obj fields => 123 :: (commas (fieldTexts fields) ++ [125])

def itemTexts : List Json → List Units
  | [] => []
  | item :: rest => stringify item :: itemTexts rest

def fieldTexts : List (Units × Json) → List Units
  | [] => []
  | (key, value) :: rest => (quote key ++ 58 :: stringify value) :: fieldTexts rest

end

/-! ### A quoted text is read back -/

def hexValue (c : Nat) : Nat := if c < 58 then c - 48 else c - 87

def unescape (c : Nat) : Nat :=
  if c = 98 then 8 else if c = 116 then 9 else if c = 110 then 10 else if c = 102 then 12
  else if c = 114 then 13 else c

/-- The text up to the closing quote, and what follows. -/
@[grind =]
def unquote : Units → Option (Units × Units)
  | [] => none
  | [c] => if c = 34 then some ([], []) else none
  | c :: e :: rest =>
    if c = 34 then some ([], e :: rest)
    else if c ≠ 92 then (unquote (e :: rest)).map fun read => (c :: read.1, read.2)
    else if e ≠ 117 then (unquote rest).map fun read => (unescape e :: read.1, read.2)
    else
      match rest with
      | a :: b :: c :: d :: rest =>
        (unquote rest).map fun read =>
          ((hexValue a * 4096 + hexValue b * 256 + hexValue c * 16 + hexValue d) :: read.1, read.2)
      | _ => none

def IsPoint (point : Units) : Prop :=
  (∃ c, point = [c]) ∨ ∃ a b, point = [a, b] ∧ isHigh a = true ∧ isLow b = true

variable {text x y : Units} {n c : Nat} {texts : List Units}

variable {point : Units} {v : Json}

theorem isPoint_of_mem (h : point ∈ points text) : IsPoint point := by
  induction text using points.induct with
  | case1 => cases h
  | case2 c =>
    obtain rfl := List.mem_singleton.mp h
    exact Or.inl ⟨c, rfl⟩
  | case3 a b rest hpair ih =>
    rw [points, if_pos hpair] at h
    rcases List.mem_cons.mp h with rfl | hrest
    · rw [Bool.and_eq_true] at hpair
      exact Or.inr ⟨a, b, rfl, hpair⟩
    · exact ih hrest
  | case4 a b rest hpair ih =>
    rw [points, if_neg hpair] at h
    rcases List.mem_cons.mp h with rfl | hrest
    · exact Or.inl ⟨a, rfl⟩
    · exact ih hrest

theorem hexValue_hexDigit (h : n < 16) : hexValue (hexDigit n) = n := by
  unfold hexValue hexDigit
  split <;> split <;> omega

theorem unquote_close (rest : Units) : unquote (34 :: rest) = some ([], rest) := by
  cases rest <;> simp [unquote.eq_def]

theorem unquote_raw (hquote : c ≠ 34) (hslash : c ≠ 92) (rest : Units) :
    unquote (c :: rest) = (unquote rest).map fun read => (c :: read.1, read.2) := by
  rw [unquote.eq_def]
  cases rest with
  | nil => simp [hquote, unquote]
  | cons e rest => simp [hquote, hslash]

theorem unquote_short {e : Nat} (h : e ≠ 117) (rest : Units) :
    unquote (92 :: e :: rest) = (unquote rest).map fun read => (unescape e :: read.1, read.2) := by
  rw [unquote.eq_def]
  simp [h]

theorem unquote_unicodeEscape (h : c < 65536) (rest : Units) :
    unquote (unicodeEscape c ++ rest) =
      (unquote rest).map fun read => (c :: read.1, read.2) := by
  have hvalue : hexValue (hexDigit (c / 4096)) * 4096 + hexValue (hexDigit (c / 256 % 16)) * 256 +
      hexValue (hexDigit (c / 16 % 16)) * 16 + hexValue (hexDigit (c % 16)) = c := by
    rw [hexValue_hexDigit (by omega), hexValue_hexDigit (by omega), hexValue_hexDigit (by omega),
      hexValue_hexDigit (by omega)]
    omega
  simp [unicodeEscape, unquote, hvalue]

theorem unquote_escapePoint (h : IsPoint point) (rest : Units) :
    unquote (escapePoint point ++ rest) =
      (unquote rest).map fun read => (point ++ read.1, read.2) := by
  rcases h with ⟨c, rfl⟩ | ⟨a, b, rfl, ha, hb⟩
  · by_cases hspecial : c = 34 ∨ c = 92 ∨ c = 8 ∨ c = 9 ∨ c = 10 ∨ c = 12 ∨ c = 13
    · rcases hspecial with rfl | rfl | rfl | rfl | rfl | rfl | rfl <;>
        exact unquote_short (by decide) rest
    · push Not at hspecial
      obtain ⟨hquote, hslash, h8, h9, h10, h12, h13⟩ := hspecial
      simp only [escapePoint, if_neg hquote, if_neg hslash, if_neg h8, if_neg h9, if_neg h10,
        if_neg h12, if_neg h13]
      split
      next hcode =>
        refine unquote_unicodeEscape ?_ rest
        simp only [isHigh, isLow, Bool.or_eq_true, decide_eq_true_eq] at hcode
        omega
      next => exact unquote_raw hquote hslash rest
  · simp only [isHigh, isLow, decide_eq_true_eq] at ha hb
    simp only [escapePoint, List.cons_append, List.nil_append]
    rw [unquote_raw (by omega) (by omega), unquote_raw (by omega) (by omega), Option.map_map]
    rfl

theorem unquote_points {ps : List Units} (h : ∀ point ∈ ps, IsPoint point) (rest : Units) :
    unquote (ps.flatMap escapePoint ++ 34 :: rest) = some (ps.flatten, rest) := by
  induction ps with
  | nil => exact unquote_close rest
  | cons point ps ih =>
    have htail := ih fun other hother => h other (List.mem_cons_of_mem _ hother)
    rw [List.flatMap_cons, List.append_assoc, unquote_escapePoint (h point List.mem_cons_self), htail]
    simp

theorem quote_append_inj {s t : Units} (h : quote s ++ x = quote t ++ y) : s = t ∧ x = y := by
  have hread : ∀ text rest : Units, unquote ((quote text ++ rest).tail) = some (text, rest) := by
    intro text rest
    have hpoints := @unquote_points (points text) (fun _ => isPoint_of_mem) rest
    rw [flatten_points] at hpoints
    simpa [quote] using hpoints
  have hboth := hread s x
  rw [h, hread t y] at hboth
  simp only [Option.some.injEq, Prod.mk.injEq] at hboth
  exact ⟨hboth.1.symm, hboth.2.symm⟩

/-! ### No two values are written alike -/

def Stops (rest : Units) : Prop := rest.head?.any isNumeric = false

theorem numeral_append_inj {n m : Numeral} (hx : Stops x) (hy : Stops y)
    (h : n.text ++ x = m.text ++ y) : n = m ∧ x = y := by
  have hread : ∀ (n : Numeral) (x : Units), Stops x →
      (n.text ++ x).takeWhile isNumeric = n.text := by
    intro n x hx
    have hnone : x.takeWhile isNumeric = [] := by
      cases x with
      | nil => rfl
      | cons c rest =>
        have hc : isNumeric c = false := by simpa [Stops] using hx
        simp [hc]
    rw [List.takeWhile_append_of_pos (List.all_eq_true.mp n.numeric), hnone, List.append_nil]
  have htext : n.text = m.text := by rw [← hread n x hx, h, hread m y hy]
  rw [htext] at h
  refine ⟨?_, List.append_cancel_left h⟩
  cases n
  cases m
  simpa using htext

/-- The first unit of a value's text tells its kind. -/
@[grind =]
def opens : Json → Nat → Prop
  | .null, c => c = 110
  | .bool true, c => c = 116
  | .bool false, c => c = 102
  | .num _, c => isDigit c = true ∨ c = 45
  | .str _, c => c = 34
  | .arr _, c => c = 91
  | .obj _, c => c = 123

theorem stringify_head (v : Json) : ∃ c rest, stringify v = c :: rest ∧ opens v c := by
  cases v with
  | null => exact ⟨_, _, rfl, rfl⟩
  | bool value => cases value <;> exact ⟨_, _, rfl, rfl⟩
  | num value =>
    obtain ⟨text, hhead, hall⟩ := value
    cases text with
    | nil => cases hhead
    | cons c rest => exact ⟨c, rest, rfl, by simpa [opens] using hhead⟩
  | str text => exact ⟨_, _, rfl, rfl⟩
  | arr items => exact ⟨_, _, by rw [stringify], rfl⟩
  | obj fields => exact ⟨_, _, by rw [stringify], rfl⟩

theorem opens_unique {w : Json} (hv : opens v c) (hw : opens w c) :
    match v, w with
    | .null, .null => True
    | .bool a, .bool b => a = b
    | .num _, .num _ => True
    | .str _, .str _ => True
    | .arr _, .arr _ => True
    | .obj _, .obj _ => True
    | _, _ => False := by
  rcases v with _ | (_ | _) | _ | _ | _ | _ <;> rcases w with _ | (_ | _) | _ | _ | _ | _ <;>
    simp only [opens, isDigit, Bool.and_eq_true, decide_eq_true_eq] at hv hw ⊢ <;> omega

theorem cons_commas (h : texts ≠ []) (rest : Units) :
    44 :: (commas texts ++ rest) = texts.flatMap (44 :: ·) ++ rest := by
  cases texts with
  | nil => exact absurd rfl h
  | cons first texts => simp [commas]

theorem stops_flatMap (texts : List Units) {close : Nat} (hclose : isNumeric close = false)
    (rest : Units) : Stops (texts.flatMap (44 :: ·) ++ close :: rest) := by
  cases texts with
  | nil => simpa [Stops] using hclose
  | cons first texts => simp [Stops, isNumeric, isDigit]

theorem opens_ne_close (h : opens v c) : c ≠ 93 ∧ c ≠ 125 ∧ c ≠ 44 := by
  rcases v with _ | (_ | _) | _ | _ | _ | _ <;>
    simp only [opens, isDigit, Bool.and_eq_true, decide_eq_true_eq] at h <;> omega

theorem bracket_inj {A B : List Units} {close : Nat}
    (hA : ∀ text ∈ A, ∀ rest, text ++ rest ≠ close :: y)
    (hB : ∀ text ∈ B, ∀ rest, text ++ rest ≠ close :: x)
    (h : commas A ++ close :: x = commas B ++ close :: y) :
    A.flatMap (44 :: ·) ++ close :: x = B.flatMap (44 :: ·) ++ close :: y := by
  cases A with
  | nil =>
    cases B with
    | nil => exact h
    | cons text B =>
      refine absurd ?_ (hB text List.mem_cons_self (B.flatMap (44 :: ·) ++ close :: y))
      rw [← List.append_assoc]
      exact h.symm
  | cons first A =>
    cases B with
    | nil =>
      refine absurd ?_ (hA first List.mem_cons_self (A.flatMap (44 :: ·) ++ close :: x))
      rw [← List.append_assoc]
      exact h
    | cons text B =>
      rw [← cons_commas (List.cons_ne_nil first A), ← cons_commas (List.cons_ne_nil text B), h]

theorem itemTexts_ne_close {items : List Json} (h : text ∈ itemTexts items)
    (rest x : Units) : text ++ rest ≠ 93 :: x := by
  induction items with
  | nil => cases h
  | cons item items ih =>
    rcases List.mem_cons.mp h with rfl | htail
    · obtain ⟨c, more, htext, hopens⟩ := stringify_head item
      rw [htext]
      intro heq
      exact (opens_ne_close hopens).1 (List.cons.inj heq).1
    · exact ih htail

theorem fieldTexts_ne_close {fields : List (Units × Json)} (h : text ∈ fieldTexts fields)
    (rest x : Units) : text ++ rest ≠ 125 :: x := by
  induction fields with
  | nil => cases h
  | cons field fields ih =>
    rcases List.mem_cons.mp h with rfl | htail
    · intro heq
      exact absurd (List.cons.inj heq).1 (by decide)
    · exact ih htail

mutual

/-- A value's text tells where it ends, where no number goes on behind it. -/
theorem stringify_append_inj (v w : Json) {x y : Units} (hx : Stops x) (hy : Stops y)
    (h : stringify v ++ x = stringify w ++ y) : v = w ∧ x = y := by
  have hkind : ∃ c, opens v c ∧ opens w c := by
    obtain ⟨c, rest, hv, hopens⟩ := stringify_head v
    obtain ⟨d, more, hw, hopened⟩ := stringify_head w
    rw [hv, hw] at h
    exact ⟨c, hopens, (List.cons.inj h).1 ▸ hopened⟩
  obtain ⟨c, hv, hw⟩ := hkind
  have hsame := opens_unique hv hw
  cases v with
  | null =>
    cases w with
    | null => exact ⟨rfl, List.append_cancel_left h⟩
    | _ => exact hsame.elim
  | bool value =>
    cases w with
    | bool other =>
      obtain rfl : value = other := hsame
      exact ⟨rfl, List.append_cancel_left h⟩
    | _ => exact hsame.elim
  | num value =>
    cases w with
    | num other =>
      obtain ⟨rfl, hrest⟩ := numeral_append_inj hx hy h
      exact ⟨rfl, hrest⟩
    | _ => exact hsame.elim
  | str text =>
    cases w with
    | str other =>
      obtain ⟨rfl, hrest⟩ := quote_append_inj h
      exact ⟨rfl, hrest⟩
    | _ => exact hsame.elim
  | arr items =>
    cases w with
    | arr others =>
      rw [stringify, stringify, List.cons_append, List.cons_append, List.append_assoc,
        List.append_assoc, List.singleton_append, List.singleton_append] at h
      have htexts := bracket_inj (fun _ hmem rest => itemTexts_ne_close hmem rest y)
        (fun _ hmem rest => itemTexts_ne_close hmem rest x) (List.cons.inj h).2
      obtain ⟨rfl, hrest⟩ := itemTexts_inj items others htexts
      exact ⟨rfl, hrest⟩
    | _ => exact hsame.elim
  | obj fields =>
    cases w with
    | obj others =>
      rw [stringify, stringify, List.cons_append, List.cons_append, List.append_assoc,
        List.append_assoc, List.singleton_append, List.singleton_append] at h
      have htexts := bracket_inj (fun _ hmem rest => fieldTexts_ne_close hmem rest y)
        (fun _ hmem rest => fieldTexts_ne_close hmem rest x) (List.cons.inj h).2
      obtain ⟨rfl, hrest⟩ := fieldTexts_inj fields others htexts
      exact ⟨rfl, hrest⟩
    | _ => exact hsame.elim

theorem itemTexts_inj (vs ws : List Json) {x y : Units}
    (h : (itemTexts vs).flatMap (44 :: ·) ++ 93 :: x = (itemTexts ws).flatMap (44 :: ·) ++ 93 :: y) :
    vs = ws ∧ x = y := by
  match vs, ws with
  | [], [] => exact ⟨rfl, (List.cons.inj h).2⟩
  | [], _ :: _ => exact absurd (List.cons.inj h).1 (by decide)
  | _ :: _, [] => exact absurd (List.cons.inj h).1 (by decide)
  | v :: vs, w :: ws =>
    simp only [itemTexts, List.flatMap_cons, List.cons_append, List.append_assoc] at h
    obtain ⟨rfl, hrest⟩ := stringify_append_inj v w (stops_flatMap _ (by decide) x)
      (stops_flatMap _ (by decide) y) (List.cons.inj h).2
    obtain ⟨rfl, hend⟩ := itemTexts_inj vs ws hrest
    exact ⟨rfl, hend⟩

theorem fieldTexts_inj (vs ws : List (Units × Json)) {x y : Units}
    (h : (fieldTexts vs).flatMap (44 :: ·) ++ 125 :: x =
      (fieldTexts ws).flatMap (44 :: ·) ++ 125 :: y) : vs = ws ∧ x = y := by
  match vs, ws with
  | [], [] => exact ⟨rfl, (List.cons.inj h).2⟩
  | [], _ :: _ => exact absurd (List.cons.inj h).1 (by decide)
  | _ :: _, [] => exact absurd (List.cons.inj h).1 (by decide)
  | (key, v) :: vs, (other, w) :: ws =>
    simp only [fieldTexts, List.flatMap_cons, List.cons_append, List.append_assoc] at h
    obtain ⟨rfl, hcolon⟩ := quote_append_inj (List.cons.inj h).2
    obtain ⟨rfl, hrest⟩ := stringify_append_inj v w (stops_flatMap _ (by decide) x)
      (stops_flatMap _ (by decide) y) (List.cons.inj hcolon).2
    obtain ⟨rfl, hend⟩ := fieldTexts_inj vs ws hrest
    exact ⟨rfl, hend⟩

end

theorem stringify_injective : Function.Injective stringify := by
  intro v w h
  have htexts : stringify v ++ [] = stringify w ++ [] := by rw [h]
  exact (stringify_append_inj v w (show Stops [] from rfl) (show Stops [] from rfl) htexts).1

/-! ### How many bytes a value takes -/

/-- `Buffer.byteLength(JSON.stringify(value))` -/
def jsonSize (value : Json) : Nat := byteLength (stringify value)

theorem endsHigh_concat (text : Units) {c : Nat} (h : isHigh c = false) :
    endsHigh (text ++ [c]) = false := by
  rw [endsHigh_append (List.cons_ne_nil c [])]
  simpa [endsHigh] using h

theorem endsHigh_quote (text : Units) : endsHigh (quote text) = false :=
  endsHigh_concat (34 :: (points text).flatMap escapePoint) (by decide)

theorem endsHigh_stringify (value : Json) : endsHigh (stringify value) = false := by
  cases value with
  | null => rw [stringify]; decide
  | bool value => cases value <;> rw [stringify] <;> decide
  | num value =>
    have hall := List.all_eq_true.mp value.numeric
    rw [stringify, endsHigh]
    cases hlast : value.text.getLast? with
    | none => rfl
    | some c =>
      have hc := hall c (List.mem_of_getLast? hlast)
      simp only [isNumeric, isDigit, Bool.or_eq_true, Bool.and_eq_true, decide_eq_true_eq,
        beq_iff_eq] at hc
      simp only [Option.any_some, isHigh, decide_eq_false_iff_not]
      omega
  | str text =>
    rw [stringify]
    exact endsHigh_quote text
  | arr items =>
    rw [stringify]
    exact endsHigh_concat (91 :: commas (itemTexts items)) (by decide)
  | obj fields =>
    rw [stringify]
    exact endsHigh_concat (123 :: commas (fieldTexts fields)) (by decide)

theorem byteLength_cons (h : c < 128) (rest : Units) :
    byteLength (c :: rest) = byteLength rest + 1 := by
  have hhigh : endsHigh [c] = false := by
    simp only [endsHigh, List.getLast?_singleton, Option.any_some, isHigh, decide_eq_false_iff_not]
    omega
  have hone : byteLength [c] = 1 := by
    simp [byteLength, bytesOf, points, pointBytes, h]
  rw [← List.singleton_append, byteLength_append rest hhigh, hone, Nat.add_comm]

theorem byteLength_flatMap (h : ∀ text ∈ texts, endsHigh text = false)
    (rest : Units) : byteLength (texts.flatMap (44 :: ·) ++ rest) =
      (texts.map byteLength).sum + texts.length + byteLength rest := by
  induction texts with
  | nil => simp
  | cons first texts ih =>
    have htail := ih fun text htext => h text (List.mem_cons_of_mem _ htext)
    rw [List.flatMap_cons, List.cons_append, List.cons_append, byteLength_cons (by decide),
      List.append_assoc, byteLength_append _ (h first List.mem_cons_self), htail, List.map_cons,
      List.sum_cons, List.length_cons]
    omega

theorem byteLength_bracket (h : ∀ text ∈ texts, endsHigh text = false)
    {first last : Nat} (hfirst : first < 128) (hlast : last < 128) :
    byteLength (first :: (commas texts ++ [last])) =
      (texts.map byteLength).sum + (texts.length - 1) + 2 := by
  have hnil : byteLength [] = 0 := rfl
  rw [byteLength_cons hfirst]
  cases texts with
  | nil => rw [commas, List.nil_append, byteLength_cons hlast, hnil]; rfl
  | cons text texts =>
    rw [commas, List.append_assoc, byteLength_append _ (h text List.mem_cons_self),
      byteLength_flatMap (fun other hother => h other (List.mem_cons_of_mem _ hother)),
      byteLength_cons hlast, hnil, List.map_cons, List.sum_cons, List.length_cons]
    omega

theorem itemTexts_eq_map (items : List Json) : itemTexts items = items.map stringify := by
  induction items with
  | nil => rfl
  | cons item items ih => rw [itemTexts, ih, List.map_cons]

theorem jsonSize_arr (items : List Json) :
    jsonSize (.arr items) = (items.map jsonSize).sum + (items.length - 1) + 2 := by
  have hends : ∀ text ∈ itemTexts items, endsHigh text = false := by
    intro text htext
    rw [itemTexts_eq_map] at htext
    obtain ⟨item, -, rfl⟩ := List.mem_map.mp htext
    exact endsHigh_stringify item
  rw [jsonSize, stringify, byteLength_bracket hends (by decide) (by decide), itemTexts_eq_map,
    List.map_map, List.length_map]
  rfl

def fieldSize (field : Units × Json) : Nat := byteLength (quote field.1) + jsonSize field.2 + 1

theorem fieldTexts_eq_map (fields : List (Units × Json)) :
    fieldTexts fields = fields.map fun field => quote field.1 ++ 58 :: stringify field.2 := by
  induction fields with
  | nil => rfl
  | cons field fields ih => rw [fieldTexts, ih, List.map_cons]

theorem jsonSize_obj (fields : List (Units × Json)) :
    jsonSize (.obj fields) = (fields.map fieldSize).sum + (fields.length - 1) + 2 := by
  have hends : ∀ text ∈ fieldTexts fields, endsHigh text = false := by
    intro text htext
    rw [fieldTexts_eq_map] at htext
    obtain ⟨field, -, rfl⟩ := List.mem_map.mp htext
    rw [endsHigh_append (List.cons_ne_nil _ _), ← List.singleton_append,
      endsHigh_append (by
        obtain ⟨c, rest, htext, -⟩ := stringify_head field.2
        rw [htext]
        exact List.cons_ne_nil c rest)]
    exact endsHigh_stringify field.2
  have hsizes : (fieldTexts fields).map byteLength = fields.map fieldSize := by
    rw [fieldTexts_eq_map, List.map_map]
    refine List.map_congr_left fun field _ => ?_
    rw [Function.comp_apply, byteLength_append _ (endsHigh_quote field.1),
      byteLength_cons (by decide), ← Nat.add_assoc]
    rfl
  rw [jsonSize, stringify, byteLength_bracket hends (by decide) (by decide), hsizes,
    fieldTexts_eq_map, List.length_map]

/-! ### Whole numbers -/

theorem isDigit_of_mem (h : c ∈ (Nat.toDigits 10 n).map Char.toNat) :
    isDigit c = true := by
  obtain ⟨d, hd, rfl⟩ := List.mem_map.mp h
  have hdigit := Nat.isDigit_of_mem_toDigits (by decide) (by decide) hd
  simp only [Char.isDigit, Bool.and_eq_true, decide_eq_true_eq] at hdigit
  have hlow : 48 ≤ d.toNat := hdigit.1
  have hhigh : d.toNat ≤ 57 := hdigit.2
  simp [isDigit, hlow, hhigh]

def Numeral.ofNat (n : Nat) : Numeral where
  text := (Nat.toDigits 10 n).map Char.toNat
  head := by
    cases hdigits : (Nat.toDigits 10 n).map Char.toNat with
    | nil => exact absurd (List.map_eq_nil_iff.mp hdigits) Nat.toDigits_ne_nil
    | cons c rest =>
      have hc : isDigit c = true := isDigit_of_mem (hdigits ▸ List.mem_cons_self)
      simp [hc]
  numeric := by
    rw [List.all_eq_true]
    intro c hc
    simp [isNumeric, isDigit_of_mem hc]

def Numeral.ofInt : Int → Numeral
  | .ofNat n => Numeral.ofNat n
  | .negSucc n =>
    { text := 45 :: (Numeral.ofNat (n + 1)).text
      head := rfl
      numeric := by
        rw [List.all_cons, (Numeral.ofNat (n + 1)).numeric]
        rfl }

theorem jsonSize_ofNat_le {k : Nat} (hk : 0 < k) (h : n < 10 ^ k) :
    jsonSize (.num (Numeral.ofNat n)) ≤ k := by
  have hbytes : ∀ text : Units, (∀ c ∈ text, isDigit c = true) → byteLength text = text.length := by
    intro text htext
    induction text with
    | nil => rfl
    | cons c rest ih =>
      have hc := htext c List.mem_cons_self
      simp only [isDigit, Bool.and_eq_true, decide_eq_true_eq] at hc
      rw [byteLength_cons (by omega), ih fun d hd => htext d (List.mem_cons_of_mem _ hd),
        List.length_cons]
  rw [jsonSize, stringify]
  show byteLength ((Nat.toDigits 10 n).map Char.toNat) ≤ k
  rw [hbytes _ fun c => isDigit_of_mem, List.length_map]
  exact (Nat.length_toDigits_le_iff (by decide) hk).mpr h

end Ccmux.Lib.JsonTree
