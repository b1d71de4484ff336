/- Module: Ccmux/Lib/Window
   digest: Numbered entries cut from the front: consecutive numbers that end at a counter. -/

import Mathlib

namespace Ccmux.Lib.Window

universe u

variable {α : Type u} {number : α → Nat} {items : List α} {last : Nat}

/-- The numbers of the entries are consecutive, and the last of them is the counter's. -/
structure IsRun (number : α → Nat) (last : Nat) (items : List α) : Prop where
  length_le : items.length ≤ last
  numbers : items.map number = List.range' (last + 1 - items.length) items.length

theorem isRun_nil : IsRun number last [] :=
  ⟨Nat.zero_le _, rfl⟩

theorem IsRun.number_getElem (h : IsRun number last items) {i : Nat} (hi : i < items.length) :
    number items[i] = last + 1 - items.length + i := by
  have hmapped : i < (items.map number).length := by simpa using hi
  have hmap : (items.map number)[i] = number items[i] := List.getElem_map _
  rw [← hmap]
  simp only [h.numbers, List.getElem_range', Nat.one_mul]

theorem isRun_of_getElem (hlength : items.length ≤ last)
    (hnumber : ∀ i, (hi : i < items.length) → number items[i] = last + 1 - items.length + i) :
    IsRun number last items := by
  refine ⟨hlength, List.ext_getElem (by simp) ?_⟩
  intro i hi _
  rw [List.length_map] at hi
  simp only [List.getElem_map, List.getElem_range', Nat.one_mul]
  exact hnumber i hi

theorem IsRun.push (h : IsRun number last items) {entry : α} (hentry : number entry = last + 1) :
    IsRun number (last + 1) (items ++ [entry]) := by
  have hlength := h.length_le
  refine isRun_of_getElem (by simpa using hlength) ?_
  intro i hi
  rw [List.length_append, List.length_singleton] at hi ⊢
  by_cases hold : i < items.length
  · rw [List.getElem_append_left hold, h.number_getElem hold]
    omega
  · obtain rfl : i = items.length := by omega
    rw [List.getElem_append_right (Nat.le_refl _)]
    simp only [Nat.sub_self, List.getElem_cons_zero, hentry]
    omega

theorem IsRun.drop (h : IsRun number last items) (n : Nat) : IsRun number last (items.drop n) := by
  have hlength := h.length_le
  refine isRun_of_getElem (by rw [List.length_drop]; omega) ?_
  intro i hi
  rw [List.length_drop] at hi ⊢
  rw [List.getElem_drop, h.number_getElem (by omega)]
  omega

theorem IsRun.mem_bounds (h : IsRun number last items) {entry : α} (hentry : entry ∈ items) :
    last + 1 - items.length ≤ number entry ∧ number entry ≤ last := by
  have hlength := h.length_le
  obtain ⟨i, hi, rfl⟩ := List.getElem_of_mem hentry
  rw [h.number_getElem hi]
  omega

/-- The entries above a mark are the last ones, as many as the counter is past the mark. -/
theorem IsRun.filter_newer (h : IsRun number last items) (mark : Nat) :
    items.filter (fun entry => mark < number entry) =
      items.drop (items.length - (last - mark)) := by
  have hlength := h.length_le
  have hsplit := List.take_append_drop (items.length - (last - mark)) items
  have hold : (items.take (items.length - (last - mark))).filter
      (fun entry => mark < number entry) = [] := by
    refine List.filter_eq_nil_iff.mpr ?_
    intro entry hentry
    obtain ⟨i, hi, rfl⟩ := List.getElem_of_mem hentry
    rw [List.length_take] at hi
    rw [List.getElem_take, h.number_getElem (by omega), decide_eq_true_eq]
    omega
  have hnew : (items.drop (items.length - (last - mark))).filter
      (fun entry => mark < number entry) = items.drop (items.length - (last - mark)) := by
    refine List.filter_eq_self.mpr ?_
    intro entry hentry
    have hbounds := (h.drop _).mem_bounds hentry
    rw [List.length_drop] at hbounds
    have hany := List.length_pos_of_mem hentry
    rw [List.length_drop] at hany
    rw [decide_eq_true_eq]
    omega
  calc items.filter (fun entry => mark < number entry)
      = (items.take (items.length - (last - mark)) ++
          items.drop (items.length - (last - mark))).filter (fun entry => mark < number entry) := by
        rw [hsplit]
    _ = items.drop (items.length - (last - mark)) := by
        rw [List.filter_append, hold, hnew, List.nil_append]

/-- The entries from above one number up to another. -/
def between (number : α → Nat) (low high : Nat) (items : List α) : List α :=
  items.filter fun entry => decide (low < number entry ∧ number entry ≤ high)

abbrev Numbered (number : α → Nat) (items : List α) : Prop := IsRun number items.length items

theorem Numbered.take (h : Numbered number items) {n : Nat} (hn : n ≤ items.length) :
    IsRun number n (items.take n) := by
  refine isRun_of_getElem (by rw [List.length_take]; omega) fun i hi => ?_
  have hlength : (items.take n).length = n := by
    rw [List.length_take]
    omega
  rw [List.getElem_take, h.number_getElem (by omega), hlength]
  omega

theorem Numbered.between_eq (h : Numbered number items) {low high : Nat} (hlow : low ≤ high)
    (hhigh : high ≤ items.length) : between number low high items = (items.take high).drop low := by
  have hfront := h.take hhigh
  have hlength : (items.take high).length = high := by
    rw [List.length_take]
    omega
  have hold : (items.take high).filter
      (fun entry => decide (low < number entry ∧ number entry ≤ high)) =
      (items.take high).filter fun entry => decide (low < number entry) := by
    refine List.filter_congr fun entry hentry => ?_
    have hbounds := hfront.mem_bounds hentry
    simp [hbounds.2]
  have hnew : (items.drop high).filter
      (fun entry => decide (low < number entry ∧ number entry ≤ high)) = [] := by
    refine List.filter_eq_nil_iff.mpr fun entry hentry => ?_
    have hbounds := (h.drop high).mem_bounds hentry
    rw [List.length_drop] at hbounds
    simp only [decide_eq_true_eq, not_and]
    omega
  unfold between
  conv_lhs => rw [← List.take_append_drop high items]
  rw [List.filter_append, hold, hnew, List.append_nil, hfront.filter_newer low, hlength]
  congr 1
  omega

theorem Numbered.between_append (h : Numbered number items) {low middle high : Nat}
    (hlow : low ≤ middle) (hmiddle : middle ≤ high) (hhigh : high ≤ items.length) :
    between number low middle items ++ between number middle high items =
      between number low high items := by
  rw [h.between_eq hlow (Nat.le_trans hmiddle hhigh), h.between_eq hmiddle hhigh,
    h.between_eq (Nat.le_trans hlow hmiddle) hhigh]
  have hsplit : items.take high = items.take middle ++ (items.take high).drop middle := by
    conv_lhs => rw [← List.take_append_drop middle (items.take high)]
    rw [List.take_take, Nat.min_eq_left hmiddle]
  conv_rhs => rw [hsplit]
  rw [List.drop_append_of_le_length]
  rw [List.length_take]
  omega

theorem Numbered.between_self (h : Numbered number items) {n : Nat} (hn : n ≤ items.length) :
    between number n n items = [] := by
  rw [h.between_eq (Nat.le_refl n) hn]
  exact List.drop_eq_nil_of_le (by rw [List.length_take]; omega)

end Ccmux.Lib.Window
