/- Module: Ccmux/Lib/Utf16
   digest: Texts as UTF-16 code units: their code points, their UTF-8 size, and lone halves. -/

import Mathlib

namespace Ccmux.Lib.Utf16

abbrev Units := List Nat

def isHigh (c : Nat) : Bool := decide (0xD800 ≤ c ∧ c ≤ 0xDBFF)

def isLow (c : Nat) : Bool := decide (0xDC00 ≤ c ∧ c ≤ 0xDFFF)

/-- The code points of a text: a pair of halves, or any other unit alone. -/
@[grind =]
def points : Units → List Units
  | [] => []
  | [c] => [[c]]
  | a :: b :: rest =>
    if isHigh a && isLow b then [a, b] :: points rest else [a] :: points (b :: rest)

/-- The UTF-8 bytes of a code point; a lone half is written as U+FFFD. -/
def pointBytes : Units → Nat
  | [c] => if c < 0x80 then 1 else if c < 0x800 then 2 else 3
  | _ => 4

def bytesOf (ps : List Units) : Nat := (ps.map pointBytes).sum

def byteLength (text : Units) : Nat := bytesOf (points text)

def replaceLone : Units → Units
  | [c] => if isHigh c || isLow c then [0xFFFD] else [c]
  | point => point

/-- The text with each lone half replaced by U+FFFD. -/
def toWellFormed (text : Units) : Units := (points text).flatMap replaceLone

/-- The text ends in the first half of a pair. -/
def endsHigh (text : Units) : Bool := text.getLast?.any isHigh

def isWhole (text : Units) : Bool := (points text).all fun point => replaceLone point == point

/-- The same code point, or the one that stands for a lone half. -/
def Same (p q : Units) : Prop := p = q ∨ p = replaceLone q

/-- The other text ends in this one, where some of its lone halves may be replaced. -/
def IsTail (part full : Units) : Prop :=
  ∃ gone kept, points full = gone ++ kept ∧ List.Forall₂ Same (points part) kept

@[simp] theorem points_nil : points [] = [] := rfl

@[simp] theorem endsHigh_nil : endsHigh [] = false := rfl

theorem endsHigh_cons_cons (a b : Nat) (rest : Units) :
    endsHigh (a :: b :: rest) = endsHigh (b :: rest) := by
  simp [endsHigh, List.getLast?_cons_cons]

variable {left part full : Units} {ps qs : List Units}

theorem endsHigh_append {right : Units} (h : right ≠ []) :
    endsHigh (left ++ right) = endsHigh right := by
  rw [endsHigh, endsHigh, List.getLast?_append_of_ne_nil left h]

theorem isHigh_of_isLow {c : Nat} (h : isLow c = true) : isHigh c = false := by
  simp only [isLow, isHigh, decide_eq_true_eq, decide_eq_false_iff_not] at h ⊢
  omega

theorem flatten_points (text : Units) : (points text).flatten = text := by
  induction text using points.induct with
  | case1 => rfl
  | case2 c => rfl
  | case3 a b rest hpair ih => simp [points, hpair, ih]
  | case4 a b rest hpair ih => simp [points, hpair, ih]

theorem points_append (right : Units) (h : endsHigh left = false) :
    points (left ++ right) = points left ++ points right := by
  induction left using points.induct with
  | case1 => rfl
  | case2 c =>
    have hlow : isHigh c = false := by simpa [endsHigh] using h
    cases right with
    | nil => rfl
    | cons b rest => simp [points, hlow]
  | case3 a b rest hpair ih =>
    have hrest : endsHigh rest = false := by
      cases rest with
      | nil => rfl
      | cons c rest => rwa [endsHigh_cons_cons, endsHigh_cons_cons] at h
    simp [points, hpair, ih hrest]
  | case4 a b rest hpair ih =>
    rw [endsHigh_cons_cons] at h
    simp only [List.cons_append] at ih ⊢
    simp [points, hpair, ih h]

theorem byteLength_append (right : Units) (h : endsHigh left = false) :
    byteLength (left ++ right) = byteLength left + byteLength right := by
  rw [byteLength, points_append right h, bytesOf, List.map_append, List.sum_append]
  rfl

theorem byteLength_pair_le (a b : Nat) (rest : Units) :
    bytesOf (points (a :: b :: rest)) ≤ pointBytes [a] + bytesOf (points (b :: rest)) := by
  rw [points]
  split
  · next hpair =>
    simp only [isHigh, isLow, Bool.and_eq_true, decide_eq_true_eq] at hpair
    have hlow : points (b :: rest) = [b] :: points rest := by
      cases rest with
      | nil => rfl
      | cons c rest =>
        have hb : isHigh b = false := isHigh_of_isLow (by simpa [isLow] using hpair.2)
        rw [points, if_neg (by simp [hb])]
    rw [hlow]
    simp only [bytesOf, List.map_cons, List.sum_cons, pointBytes]
    rw [if_neg (by omega), if_neg (by omega), if_neg (by omega), if_neg (by omega)]
    omega
  · exact Nat.le_refl _

theorem byteLength_append_le (left right : Units) :
    byteLength (left ++ right) ≤ byteLength left + byteLength right := by
  induction left using points.induct with
  | case1 => simp [byteLength, bytesOf]
  | case2 c =>
    cases right with
    | nil => exact Nat.le_refl _
    | cons b rest => exact byteLength_pair_le c b rest
  | case3 a b rest hpair ih =>
    simp only [byteLength, List.cons_append, points, if_pos hpair, bytesOf, List.map_cons,
      List.sum_cons] at ih ⊢
    omega
  | case4 a b rest hpair ih =>
    simp only [byteLength, List.cons_append, points, if_neg hpair, bytesOf, List.map_cons,
      List.sum_cons] at ih ⊢
    omega

/-- A single unit that is no half, or a pair of halves. -/
def IsSettled (point : Units) : Prop :=
  (∃ c, point = [c] ∧ isHigh c = false ∧ isLow c = false) ∨
    ∃ a b, point = [a, b] ∧ isHigh a = true ∧ isLow b = true

theorem replaceLone_settled {text point : Units} (h : point ∈ points text) :
    IsSettled (replaceLone point) := by
  induction text using points.induct with
  | case1 => cases h
  | case2 c =>
    obtain rfl := List.mem_singleton.mp h
    by_cases hlone : (isHigh c || isLow c) = true
    · exact .inl ⟨0xFFFD, by simp [replaceLone, hlone], by decide, by decide⟩
    · have hnot : isHigh c = false ∧ isLow c = false := by simpa using hlone
      exact .inl ⟨c, by simp [replaceLone, hlone], hnot.1, hnot.2⟩
  | case3 a b rest hpair ih =>
    rw [points, if_pos hpair] at h
    rcases List.mem_cons.mp h with rfl | h
    · rw [Bool.and_eq_true] at hpair
      exact .inr ⟨a, b, rfl, hpair.1, hpair.2⟩
    · exact ih h
  | case4 a b rest hpair ih =>
    rw [points, if_neg hpair] at h
    rcases List.mem_cons.mp h with rfl | h
    · by_cases hlone : (isHigh a || isLow a) = true
      · exact .inl ⟨0xFFFD, by simp [replaceLone, hlone], by decide, by decide⟩
      · have hnot : isHigh a = false ∧ isLow a = false := by simpa using hlone
        exact .inl ⟨a, by simp [replaceLone, hlone], hnot.1, hnot.2⟩
    · exact ih h

theorem points_of_settled (h : ∀ point ∈ ps, IsSettled point) :
    points ps.flatten = ps := by
  induction ps with
  | nil => rfl
  | cons point rest ih =>
    have hrest := ih fun other hother => h other (List.mem_cons_of_mem point hother)
    rw [List.flatten_cons]
    rcases h point List.mem_cons_self with ⟨c, rfl, hhigh, -⟩ | ⟨a, b, rfl, hhigh, hlow⟩
    · rw [points_append _ (by simp [endsHigh, hhigh]), hrest]
      rfl
    · rw [points_append _ (by simp [endsHigh, isHigh_of_isLow hlow]), hrest]
      simp [points, hhigh, hlow]

theorem endsHigh_flatten (h : ∀ point ∈ ps, IsSettled point) :
    endsHigh ps.flatten = false := by
  rcases List.eq_nil_or_concat ps with rfl | ⟨before, point, rfl⟩
  · rfl
  · rw [List.concat_eq_append] at h ⊢
    have hpoint := h point (List.mem_append_right before List.mem_cons_self)
    rw [List.flatten_append, List.flatten_singleton]
    rcases hpoint with ⟨c, rfl, hhigh, -⟩ | ⟨a, b, rfl, -, hlow⟩
    · rw [endsHigh_append (by simp)]
      simp [endsHigh, hhigh]
    · rw [endsHigh_append (by simp)]
      simp [endsHigh, isHigh_of_isLow hlow]

theorem replaceLone_idem (point : Units) : replaceLone (replaceLone point) = replaceLone point := by
  cases point with
  | nil => rfl
  | cons c rest =>
    cases rest with
    | nil =>
      by_cases hlone : (isHigh c || isLow c) = true
      · have hfixed : replaceLone [c] = [0xFFFD] := if_pos hlone
        rw [hfixed]
        rfl
      · have hfixed : replaceLone [c] = [c] := if_neg hlone
        rw [hfixed, hfixed]
    | cons d rest => rfl

theorem Same.trans {p q r : Units} (hp : Same p q) (hq : Same q r) : Same p r := by
  rcases hp with rfl | rfl
  · exact hq
  · rcases hq with rfl | rfl
    · exact .inr rfl
    · exact .inr (replaceLone_idem r)

theorem same_trans {rs : List Units} (hp : List.Forall₂ Same ps qs)
    (hq : List.Forall₂ Same qs rs) : List.Forall₂ Same ps rs := by
  induction hp generalizing rs with
  | nil => exact hq
  | cons hhead _ ih =>
    cases hq with
    | cons hnext hrest => exact .cons (hhead.trans hnext) (ih hrest)

theorem same_map (h : List.Forall₂ Same ps qs) :
    ps.map replaceLone = qs.map replaceLone := by
  induction h with
  | nil => rfl
  | cons hhead _ ih =>
    rw [List.map_cons, List.map_cons, ih]
    rcases hhead with rfl | rfl
    · rfl
    · rw [replaceLone_idem]

theorem same_eq (h : List.Forall₂ Same ps qs)
    (hall : ∀ point ∈ qs, replaceLone point = point) : ps = qs := by
  induction h with
  | nil => rfl
  | cons hhead _ ih =>
    have hrest := ih fun point hpoint => hall point (List.mem_cons_of_mem _ hpoint)
    rcases hhead with rfl | rfl
    · rw [hrest]
    · rw [hrest, hall _ List.mem_cons_self]

theorem isTail_refl (text : Units) : IsTail text text :=
  ⟨[], points text, rfl, List.forall₂_same.mpr fun _ _ => .inl rfl⟩

theorem isTail_nil (text : Units) : IsTail [] text :=
  ⟨points text, [], (List.append_nil _).symm, .nil⟩

theorem IsTail.trans {tail : Units} (htail : IsTail tail part) (hpart : IsTail part full) :
    IsTail tail full := by
  obtain ⟨gone, kept, hsplit, hsame⟩ := hpart
  obtain ⟨gone', kept', hsplit', hsame'⟩ := htail
  have hdrop := List.forall₂_drop gone'.length hsame
  rw [hsplit', List.drop_left] at hdrop
  refine ⟨gone ++ kept.take gone'.length, kept.drop gone'.length, ?_, same_trans hsame' hdrop⟩
  rw [List.append_assoc, List.take_append_drop, hsplit]

theorem IsTail.append (h : IsTail part full) (more : Units)
    (hpart : endsHigh part = false) (hfull : endsHigh full = false) :
    IsTail (part ++ more) (full ++ more) := by
  obtain ⟨gone, kept, hsplit, hsame⟩ := h
  refine ⟨gone, kept ++ points more, ?_, ?_⟩
  · rw [points_append more hfull, hsplit, List.append_assoc]
  · rw [points_append more hpart]
    exact List.rel_append hsame (List.forall₂_same.mpr fun _ _ => .inl rfl)

theorem IsTail.wellFormed (h : IsTail part full) :
    toWellFormed part <:+ toWellFormed full := by
  obtain ⟨gone, kept, hsplit, hsame⟩ := h
  have hkept : toWellFormed part = kept.flatMap replaceLone := by
    rw [toWellFormed, List.flatMap_def, List.flatMap_def, same_map hsame]
  rw [hkept, toWellFormed, hsplit, List.flatMap_append]
  exact List.suffix_append _ _

theorem IsTail.suffix (h : IsTail part full) (hwhole : isWhole full = true) :
    part <:+ full := by
  obtain ⟨gone, kept, hsplit, hsame⟩ := h
  have hall : ∀ point ∈ kept, replaceLone point = point := by
    intro point hpoint
    have hmem : point ∈ points full := hsplit ▸ List.mem_append_right gone hpoint
    simpa using List.all_eq_true.mp hwhole point hmem
  refine ⟨gone.flatten, ?_⟩
  rw [← flatten_points full, hsplit, List.flatten_append, ← same_eq hsame hall, flatten_points]

end Ccmux.Lib.Utf16
