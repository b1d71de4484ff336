/- Module: Ccmux/Lib/Amend
   digest: Rewriting in place the first element of a list that a test finds. -/

import Mathlib

namespace Ccmux.Lib.Amend

universe u v

variable {α : Type u} {p : α → Bool} {f : α → α} {rows : List α}

/-- `find` the first element and amend it in place. -/
@[grind =]
def amendFirst (p : α → Bool) (f : α → α) : List α → List α
  | [] => []
  | row :: rest => if p row then f row :: rest else row :: amendFirst p f rest

theorem amendFirst_none (h : rows.find? p = none) : amendFirst p f rows = rows := by
  induction rows with
  | nil => rfl
  | cons first rest ih =>
    rw [List.find?_eq_none] at h
    have hfirst : p first = false := by simpa using h first List.mem_cons_self
    have hrest : rest.find? p = none := by
      rw [List.find?_eq_none]
      intro other hother
      exact h other (List.mem_cons_of_mem first hother)
    simp only [amendFirst, hfirst, Bool.false_eq_true, if_false, ih hrest]

theorem amendFirst_some {row : α} (h : rows.find? p = some row) :
    p row = true ∧ ∃ pre post, rows = pre ++ row :: post ∧
      amendFirst p f rows = pre ++ f row :: post := by
  induction rows with
  | nil => cases h
  | cons first rest ih =>
    cases hfirst : p first with
    | true =>
      rw [List.find?_cons, hfirst] at h
      obtain rfl := Option.some.inj h
      exact ⟨hfirst, [], rest, rfl, by simp [amendFirst, hfirst]⟩
    | false =>
      rw [List.find?_cons, hfirst] at h
      obtain ⟨hrow, pre, post, hsplit, hamend⟩ := ih h
      refine ⟨hrow, first :: pre, post, by rw [hsplit]; rfl, ?_⟩
      simp only [amendFirst, hfirst, Bool.false_eq_true, if_false, hamend, List.cons_append]

variable {q : α → Bool}

theorem amendFirst_all (hf : ∀ row, q row = true → q (f row) = true)
    (h : rows.all q = true) : (amendFirst p f rows).all q = true := by
  induction rows with
  | nil => rfl
  | cons row rest ih =>
    rw [List.all_cons, Bool.and_eq_true] at h
    unfold amendFirst
    split
    · rw [List.all_cons, Bool.and_eq_true]
      exact ⟨hf row h.1, h.2⟩
    · rw [List.all_cons, Bool.and_eq_true]
      exact ⟨h.1, ih h.2⟩

theorem amendFirst_map {β : Type v} {g : α → β} (hf : ∀ row, g (f row) = g row) :
    (amendFirst p f rows).map g = rows.map g := by
  induction rows with
  | nil => rfl
  | cons row rest ih =>
    unfold amendFirst
    split
    · rw [List.map_cons, List.map_cons, hf row]
    · rw [List.map_cons, List.map_cons, ih]

theorem amendFirst_length : (amendFirst p f rows).length = rows.length := by
  induction rows with
  | nil => rfl
  | cons row rest ih =>
    unfold amendFirst
    split
    · rfl
    · simp only [List.length_cons, ih]

theorem amendFirst_countP_le (hq : ∀ row, q (f row) = true → q row = true) :
    (amendFirst p f rows).countP q ≤ rows.countP q := by
  induction rows with
  | nil => exact Nat.le_refl _
  | cons row rest ih =>
    unfold amendFirst
    split
    · rw [List.countP_cons, List.countP_cons]
      refine Nat.add_le_add_left ?_ _
      cases hrow : q (f row) with
      | true =>
        have hbefore : q row = true := hq row hrow
        exact Nat.le_of_eq (by rw [hbefore])
      | false => exact Nat.zero_le _
    · rw [List.countP_cons, List.countP_cons]
      exact Nat.add_le_add_right ih _

theorem mem_amendFirst {row : α} (h : row ∈ amendFirst p f rows) :
    row ∈ rows ∨ ∃ before, rows.find? p = some before ∧ row = f before := by
  cases hfind : rows.find? p with
  | none =>
    rw [amendFirst_none hfind] at h
    exact .inl h
  | some before =>
    obtain ⟨-, pre, post, hsplit, hamend⟩ := amendFirst_some (f := f) hfind
    rw [hamend] at h
    rw [hsplit]
    rcases List.mem_append.mp h with hpre | hrest
    · exact .inl (List.mem_append_left _ hpre)
    · rcases List.mem_cons.mp hrest with rfl | hpost
      · exact .inr ⟨before, rfl, rfl⟩
      · exact .inl (List.mem_append_right _ (List.mem_cons_of_mem _ hpost))

end Ccmux.Lib.Amend
