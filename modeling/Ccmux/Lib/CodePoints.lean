/- Module: Ccmux/Lib/CodePoints
   digest: Texts of 16-bit units as characters and as UTF-8 bytes, and that a JSON text, which has no
     lone half, is known from its bytes. -/

import Ccmux.Lib.JsonTree
import Ccmux.Lib.Utf8

namespace Ccmux.Lib.CodePoints

open Ccmux.Lib.Utf16
open Ccmux.Lib.JsonTree

abbrev JsString := List UInt16

def JsString.units (text : JsString) : Units := text.map UInt16.toNat

/-- A text that is written in characters. -/
def jsString (text : String) : JsString := text.toList.map fun c => UInt16.ofNat c.toNat

/-- The character of a code point; a lone half is U+FFFD. -/
def pointChar : Units → Char
  | [c] => if isHigh c || isLow c then Char.ofNat 0xFFFD else Char.ofNat c
  | [a, b] => Char.ofNat (0x10000 + (a - 0xD800) * 0x400 + (b - 0xDC00))
  | _ => Char.ofNat 0xFFFD

def chars (text : Units) : List Char := (points text).map pointChar

def utf8 (text : List Char) : List UInt8 := text.flatMap String.utf8EncodeChar

/-- The bytes a text is hashed and written as. -/
def utf8Bytes (text : Units) : List UInt8 := utf8 (chars text)

/-- `new TextDecoder('utf-8', { fatal: true }).decode(bytes)`: nothing where the bytes are no UTF-8,
and without a byte order mark in front. -/
def decodeFatal (bytes : List UInt8) : Option (List Char) :=
  let text := (Utf8.decode bytes).map Char.ofNat
  if utf8 text = bytes then
    some (if text.head? = some (Char.ofNat 0xFEFF) then text.tail else text)
  else none

/-- A code point of 16-bit units that is no lone half. -/
def IsScalar (point : Units) : Prop := IsSettled point ∧ ∀ c ∈ point, c < 0x10000

/-- A text that is made of such code points. -/
def Written (text : Units) : Prop := ∃ ps : List Units, text = ps.flatten ∧ ∀ p ∈ ps, IsScalar p

variable {n c : Nat}

theorem toNat_ofNat (h : n < 0xD800 ∨ 0xDFFF < n ∧ n < 0x110000) :
    (Char.ofNat n).toNat = n := by
  have hvalid : n.isValidChar := h
  rw [Char.ofNat, dif_pos hvalid]
  rfl

theorem utf8_injective : Function.Injective utf8 := by
  intro a b h
  have hencoded : a.utf8Encode = b.utf8Encode := by
    rw [List.utf8Encode, List.utf8Encode]
    exact congrArg List.toByteArray h
  rw [← String.toByteArray_ofList, ← String.toByteArray_ofList, String.toByteArray_inj] at hencoded
  exact String.ofList_injective hencoded

def charUnits (c : Char) : Units :=
  if c.toNat < 0x10000 then [c.toNat]
  else [0xD800 + (c.toNat - 0x10000) / 0x400, 0xDC00 + (c.toNat - 0x10000) % 0x400]

variable {point text : Units}

theorem charUnits_pointChar (h : IsScalar point) :
    charUnits (pointChar point) = point := by
  obtain ⟨hsettled, hbound⟩ := h
  rcases hsettled with ⟨c, rfl, hhigh, hlow⟩ | ⟨a, b, rfl, hhigh, hlow⟩
  · have hc := hbound c List.mem_cons_self
    have hvalue : (pointChar [c]).toNat = c := by
      rw [pointChar, hhigh, hlow]
      refine toNat_ofNat ?_
      simp only [isHigh, isLow, decide_eq_false_iff_not] at hhigh hlow
      omega
    rw [charUnits, hvalue, if_pos hc]
  · simp only [isHigh, isLow, decide_eq_true_eq] at hhigh hlow
    have hvalue : (pointChar [a, b]).toNat = 0x10000 + (a - 0xD800) * 0x400 + (b - 0xDC00) := by
      rw [pointChar]
      refine toNat_ofNat ?_
      omega
    rw [charUnits, hvalue, if_neg (by omega)]
    have hfirst : 0xD800 + (0x10000 + (a - 0xD800) * 0x400 + (b - 0xDC00) - 0x10000) / 0x400 = a := by
      omega
    have hsecond : 0xDC00 + (0x10000 + (a - 0xD800) * 0x400 + (b - 0xDC00) - 0x10000) % 0x400 =
        b := by omega
    rw [hfirst, hsecond]

theorem written_nil : Written [] := ⟨[], rfl, nofun⟩

theorem Written.append {left right : Units} (hleft : Written left) (hright : Written right) :
    Written (left ++ right) := by
  obtain ⟨ps, rfl, hps⟩ := hleft
  obtain ⟨qs, rfl, hqs⟩ := hright
  refine ⟨ps ++ qs, List.flatten_append.symm, fun p hp => ?_⟩
  rcases List.mem_append.mp hp with h | h
  · exact hps p h
  · exact hqs p h

theorem isScalar_single (h : c < 0xD800) : IsScalar [c] := by
  refine ⟨.inl ⟨c, rfl, ?_, ?_⟩, ?_⟩
  · simp only [isHigh, decide_eq_false_iff_not]
    omega
  · simp only [isLow, decide_eq_false_iff_not]
    omega
  · intro d hd
    rw [List.mem_singleton.mp hd]
    omega

theorem written_of_low (h : ∀ c ∈ text, c < 0xD800) : Written text := by
  refine ⟨text.map fun c => [c], ?_, fun p hp => ?_⟩
  · induction text with
    | nil => rfl
    | cons c rest ih =>
      rw [List.map_cons, List.flatten_cons, ← ih fun d hd => h d (List.mem_cons_of_mem _ hd)]
      rfl
  · obtain ⟨c, hc, rfl⟩ := List.mem_map.mp hp
    exact isScalar_single (h c hc)

theorem Written.cons {c : Nat} (h : c < 0xD800) {rest : Units} (hrest : Written rest) :
    Written (c :: rest) := by
  have hone : Written [c] := written_of_low fun d hd => by
    rw [List.mem_singleton.mp hd]
    exact h
  exact hone.append hrest

theorem written_flatMap {α : Type} {xs : List α} {f : α → Units} (h : ∀ x ∈ xs, Written (f x)) :
    Written (xs.flatMap f) := by
  induction xs with
  | nil => exact written_nil
  | cons x rest ih =>
    rw [List.flatMap_cons]
    exact (h x List.mem_cons_self).append (ih fun y hy => h y (List.mem_cons_of_mem x hy))

theorem chars_injective {s t : Units} (hs : Written s) (ht : Written t) (h : chars s = chars t) :
    s = t := by
  obtain ⟨ps, rfl, hps⟩ := hs
  obtain ⟨qs, rfl, hqs⟩ := ht
  rw [chars, chars, points_of_settled fun p hp => (hps p hp).1,
    points_of_settled fun p hp => (hqs p hp).1] at h
  have hback : ∀ rs : List Units, (∀ p ∈ rs, IsScalar p) →
      (rs.map pointChar).map charUnits = rs := by
    intro rs hrs
    rw [List.map_map]
    exact (List.map_congr_left fun p hp => charUnits_pointChar (hrs p hp)).trans (List.map_id rs)
  rw [← hback ps hps, h, hback qs hqs]

/-! ### What JSON writes -/

mutual

/-- Every unit of the texts in the value has 16 bits. -/
@[grind =]
def narrow : Json → Bool
  | .str text => text.all fun c => decide (c < 0x10000)
  | .arr items => narrowItems items
  | .obj fields => narrowFields fields
  | _ => true

def narrowItems : List Json → Bool
  | [] => true
  | item :: rest => narrow item && narrowItems rest

def narrowFields : List (Units × Json) → Bool
  | [] => true
  | (key, value) :: rest => (key.all fun c => decide (c < 0x10000)) && narrow value && narrowFields rest

end

theorem units_of_mem_points (h : point ∈ points text) :
    ∀ c ∈ point, c ∈ text := by
  intro c hc
  rw [← flatten_points text]
  exact List.mem_flatten.mpr ⟨point, h, hc⟩

theorem hexDigit_low (h : n < 16) : hexDigit n < 0xD800 := by
  unfold hexDigit
  split <;> omega

theorem written_escapePoint (h : point ∈ points text)
    (hbound : ∀ c ∈ point, c < 0x10000) : Written (escapePoint point) := by
  rcases isPoint_of_mem h with ⟨c, rfl⟩ | ⟨a, b, rfl, ha, hb⟩
  · have hc := hbound c List.mem_cons_self
    have hshort : ∀ e, e < 0xD800 → Written [92, e] := fun e he =>
      written_nil.cons he |>.cons (by decide)
    rw [escapePoint]
    split
    · exact hshort 34 (by decide)
    split
    · exact hshort 92 (by decide)
    split
    · exact hshort 98 (by decide)
    split
    · exact hshort 116 (by decide)
    split
    · exact hshort 110 (by decide)
    split
    · exact hshort 102 (by decide)
    split
    · exact hshort 114 (by decide)
    split
    · refine written_of_low fun d hd => ?_
      simp only [unicodeEscape, List.mem_cons, List.not_mem_nil, or_false] at hd
      rcases hd with rfl | rfl | rfl | rfl | rfl | rfl
      · decide
      · decide
      all_goals exact hexDigit_low (by omega)
    · next hplain =>
      simp only [Bool.or_eq_true, not_or, Bool.not_eq_true] at hplain
      exact ⟨[[c]], rfl, fun p hp => by
        rw [List.mem_singleton.mp hp]
        exact ⟨.inl ⟨c, rfl, hplain.1.2, hplain.2⟩, hbound⟩⟩
  · exact ⟨[[a, b]], rfl, fun p hp => by
      rw [List.mem_singleton.mp hp]
      exact ⟨.inr ⟨a, b, rfl, ha, hb⟩, hbound⟩⟩

theorem written_quote (h : (text.all fun c => decide (c < 0x10000)) = true) :
    Written (quote text) := by
  have hall : ∀ c ∈ text, c < 0x10000 := by simpa using h
  have hpoints : Written ((points text).flatMap escapePoint) :=
    written_flatMap fun point hpoint => written_escapePoint hpoint fun c hc =>
      hall c (units_of_mem_points hpoint c hc)
  exact (hpoints.append (written_nil.cons (by decide))).cons (by decide)

theorem written_commas {texts : List Units} (h : ∀ text ∈ texts, Written text) :
    Written (commas texts) := by
  cases texts with
  | nil => exact written_nil
  | cons first rest =>
    refine (h first List.mem_cons_self).append (written_flatMap fun text htext => ?_)
    exact (h text (List.mem_cons_of_mem _ htext)).cons (by decide)

theorem isNumeric_low (h : isNumeric c = true) : c < 0xD800 := by
  simp only [isNumeric, isDigit, Bool.or_eq_true, Bool.and_eq_true, decide_eq_true_eq,
    beq_iff_eq] at h
  omega

mutual

theorem written_stringify (v : Json) (h : narrow v = true) : Written (stringify v) := by
  cases v with
  | null => exact written_of_low (by decide)
  | bool value =>
    cases value
    · exact written_of_low (by decide)
    · exact written_of_low (by decide)
  | num value =>
    rw [stringify]
    exact written_of_low fun c hc => isNumeric_low (List.all_eq_true.mp value.numeric c hc)
  | str text =>
    rw [narrow] at h
    rw [stringify]
    exact written_quote h
  | arr items =>
    rw [narrow] at h
    rw [stringify]
    exact ((written_commas (written_itemTexts items h)).append
      (written_nil.cons (by decide))).cons (by decide)
  | obj fields =>
    rw [narrow] at h
    rw [stringify]
    exact ((written_commas (written_fieldTexts fields h)).append
      (written_nil.cons (by decide))).cons (by decide)

theorem written_itemTexts (items : List Json) (h : narrowItems items = true) :
    ∀ text ∈ itemTexts items, Written text := by
  cases items with
  | nil => exact nofun
  | cons item rest =>
    rw [narrowItems, Bool.and_eq_true] at h
    intro text htext
    rw [itemTexts] at htext
    rcases List.mem_cons.mp htext with rfl | hrest
    · exact written_stringify item h.1
    · exact written_itemTexts rest h.2 text hrest

theorem written_fieldTexts (fields : List (Units × Json)) (h : narrowFields fields = true) :
    ∀ text ∈ fieldTexts fields, Written text := by
  cases fields with
  | nil => exact nofun
  | cons field rest =>
    obtain ⟨key, value⟩ := field
    rw [narrowFields, Bool.and_eq_true, Bool.and_eq_true] at h
    intro text htext
    rw [fieldTexts] at htext
    rcases List.mem_cons.mp htext with rfl | hrest
    · exact (written_quote h.1.1).append ((written_stringify value h.1.2).cons (by decide))
    · exact written_fieldTexts rest h.2 text hrest

end

theorem utf8Bytes_stringify {v w : Json} (hv : narrow v = true) (hw : narrow w = true)
    (h : utf8Bytes (stringify v) = utf8Bytes (stringify w)) : v = w :=
  stringify_injective (chars_injective (written_stringify v hv) (written_stringify w hw)
    (utf8_injective h))

end Ccmux.Lib.CodePoints
