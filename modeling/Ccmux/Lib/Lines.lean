/- Module: Ccmux/Lib/Lines
   digest: A growing sequence cut at a delimiter into numbered lines and a last part that is none yet. -/

import Mathlib

namespace Ccmux.Lib.Lines

universe u

/-- A line without its delimiter, and the place of its first element. -/
structure Line (α : Type u) where
  start : Nat
  raw : List α
  deriving DecidableEq

/-- The place of the delimiter that ends the line. -/
def Line.stop {α : Type u} (line : Line α) : Nat := line.start + line.raw.length

/-- The lines so far, and the part after the last delimiter with the place it starts at. -/
structure Cut (α : Type u) where
  lines : List (Line α)
  start : Nat
  tail : List α

def Cut.raws {α : Type u} (c : Cut α) : List (List α) := c.lines.map Line.raw

@[simp] theorem Cut.raws_length {α : Type u} (c : Cut α) : c.raws.length = c.lines.length := by simp [Cut.raws]

section
variable {α : Type u} (mark : α)

/-- Whole lines one after another, each with its delimiter. -/
def joined (raws : List (List α)) : List α := raws.flatMap fun raw => raw ++ [mark]

@[simp] theorem joined_nil : joined mark ([] : List (List α)) = [] := rfl

variable {mark}

theorem joined_append (raws more : List (List α)) :
    joined mark (raws ++ more) = joined mark raws ++ joined mark more := List.flatMap_append

theorem joined_singleton (raw : List α) : joined mark [raw] = raw ++ [mark] := by
  simp [joined]

theorem joined_slice (raws : List (List α)) (rest : List α) {first last : Nat} (h : first ≤ last) :
    ((joined mark raws ++ rest).drop (joined mark (raws.take first)).length).take
        ((joined mark (raws.take last)).length - (joined mark (raws.take first)).length) =
      joined mark ((raws.take last).drop first) := by
  have hlast : joined mark raws =
      joined mark (raws.take last) ++ joined mark (raws.drop last) := by
    rw [← joined_append, List.take_append_drop]
  have hfirst : joined mark (raws.take last) =
      joined mark (raws.take first) ++ joined mark ((raws.take last).drop first) := by
    have htake : (raws.take last).take first = raws.take first := by
      rw [List.take_take, Nat.min_eq_left h]
    rw [← htake, ← joined_append, List.take_append_drop]
  rw [hlast, hfirst, List.append_assoc, List.append_assoc, List.drop_left]
  have hlength : (joined mark (raws.take first) ++
      joined mark ((raws.take last).drop first)).length - (joined mark (raws.take first)).length =
        (joined mark ((raws.take last).drop first)).length := by
    rw [List.length_append]
    omega
  rw [hlength, List.take_left]

end

section
variable {α : Type u} [DecidableEq α] (mark : α)

def Cut.empty : Cut α := ⟨[], 0, []⟩

def Cut.push (c : Cut α) (x : α) : Cut α :=
  if x = mark then ⟨c.lines ++ [⟨c.start, c.tail⟩], c.start + c.tail.length + 1, []⟩
  else { c with tail := c.tail ++ [x] }

def cut (xs : List α) : Cut α := xs.foldl (Cut.push mark) Cut.empty

variable {mark}

@[simp] theorem cut_nil : cut mark ([] : List α) = Cut.empty := rfl

theorem cut_append (xs ys : List α) : cut mark (xs ++ ys) = ys.foldl (Cut.push mark) (cut mark xs) := by
  simp [cut]

theorem Cut.push_mark (c : Cut α) :
    c.push mark mark = ⟨c.lines ++ [⟨c.start, c.tail⟩], c.start + c.tail.length + 1, []⟩ :=
  if_pos rfl

theorem Cut.push_other {c : Cut α} {x : α} (h : x ≠ mark) :
    c.push mark x = { c with tail := c.tail ++ [x] } := if_neg h

def Cut.place (c : Cut α) : Nat := c.start + c.tail.length

@[simp] theorem Cut.place_push (c : Cut α) (x : α) : (c.push mark x).place = c.place + 1 := by
  by_cases h : x = mark
  · rw [h, Cut.push_mark]
    simp [Cut.place]
  · rw [Cut.push_other h]
    simp only [Cut.place, List.length_append, List.length_singleton]
    omega

variable (mark) in
theorem Cut.place_foldl (c : Cut α) (xs : List α) :
    (xs.foldl (Cut.push mark) c).place = c.place + xs.length := by
  induction xs generalizing c with
  | nil => rfl
  | cons x xs ih =>
    rw [List.foldl_cons, ih, Cut.place_push, List.length_cons]
    omega

theorem cut_place (xs : List α) : (cut mark xs).place = xs.length := by
  have h := Cut.place_foldl mark (Cut.empty : Cut α) xs
  have hzero : (Cut.empty : Cut α).place = 0 := rfl
  rw [hzero] at h
  simpa [cut] using h

variable (mark) in
/-- The lines of a longer sequence are those of the shorter one and then lines that end in the
new part. -/
theorem Cut.lines_foldl (c : Cut α) (xs : List α) :
    ∃ more, (xs.foldl (Cut.push mark) c).lines = c.lines ++ more ∧
      ∀ line ∈ more, c.place ≤ line.stop ∧ line.stop < c.place + xs.length := by
  induction xs generalizing c with
  | nil => exact ⟨[], by simp, by simp⟩
  | cons x xs ih =>
    obtain ⟨more, hlines, hbounds⟩ := ih (c.push mark x)
    rw [Cut.place_push] at hbounds
    rw [List.foldl_cons, List.length_cons]
    by_cases h : x = mark
    · rw [h, Cut.push_mark] at hlines
      refine ⟨⟨c.start, c.tail⟩ :: more, ?_, ?_⟩
      · rw [h, Cut.push_mark, hlines]
        simp
      · intro line hline
        rcases List.mem_cons.mp hline with hfirst | hmore
        · have hstop : line.stop = c.place := by rw [hfirst]; rfl
          omega
        · have hline := hbounds line hmore
          omega
    · refine ⟨more, ?_, ?_⟩
      · rw [hlines, Cut.push_other h]
      · intro line hmore
        have hline := hbounds line hmore
        omega

theorem cut_lines_append (xs ys : List α) :
    ∃ more, (cut mark (xs ++ ys)).lines = (cut mark xs).lines ++ more ∧
      ∀ line ∈ more, xs.length ≤ line.stop ∧ line.stop < xs.length + ys.length := by
  have h := Cut.lines_foldl mark (cut mark xs) ys
  rw [cut_append]
  simpa [cut_place] using h

variable {xs : List α}

variable {line : Line α}

theorem cut_stop_lt (h : line ∈ (cut mark xs).lines) :
    line.stop < xs.length := by
  obtain ⟨more, hlines, hbounds⟩ := Cut.lines_foldl mark (Cut.empty : Cut α) xs
  have hsame : (cut mark xs).lines = more := by simpa [cut, Cut.empty] using hlines
  rw [hsame] at h
  have hline := hbounds line h
  have hzero : (Cut.empty : Cut α).place = 0 := rfl
  omega

theorem cut_raw_le (h : line ∈ (cut mark xs).lines) :
    line.raw.length ≤ xs.length := by
  have hstop : line.stop = line.start + line.raw.length := rfl
  have hlt := cut_stop_lt h
  omega

theorem cut_free (h : ∀ x ∈ xs, x ≠ mark) : cut mark xs = ⟨[], 0, xs⟩ := by
  induction xs using List.reverseRecOn with
  | nil => rfl
  | append_singleton xs x ih =>
    have hrest := ih fun y hy => h y (List.mem_append_left _ hy)
    have hx : x ≠ mark := h x (by simp)
    rw [cut_append, hrest, List.foldl_cons, List.foldl_nil, Cut.push_other hx]

theorem cut_tail_free (xs : List α) : ∀ x ∈ (cut mark xs).tail, x ≠ mark := by
  induction xs using List.reverseRecOn with
  | nil => exact fun x hx => nomatch hx
  | append_singleton xs x ih =>
    have hpush : cut mark (xs ++ [x]) = (cut mark xs).push mark x := by rw [cut_append]; rfl
    intro y hy
    by_cases hx : x = mark
    · rw [hpush, hx, Cut.push_mark] at hy
      cases hy
    · rw [hpush, Cut.push_other hx] at hy
      rcases List.mem_append.mp hy with hold | hnew
      · exact ih y hold
      · rw [List.mem_singleton.mp hnew]
        exact hx

theorem cut_append_free {ys : List α} (h : ∀ y ∈ ys, y ≠ mark) :
    cut mark (xs ++ ys) = { cut mark xs with tail := (cut mark xs).tail ++ ys } := by
  induction ys using List.reverseRecOn with
  | nil => simp
  | append_singleton ys y ih =>
    have hrest := ih fun z hz => h z (List.mem_append_left _ hz)
    have hy : y ≠ mark := h y (by simp)
    rw [← List.append_assoc, cut_append, hrest, List.foldl_cons, List.foldl_nil, Cut.push_other hy]
    simp

theorem cut_append_line {xs ys : List α} (h : ∀ y ∈ ys, y ≠ mark) :
    (cut mark (xs ++ (ys ++ [mark]))).raws = (cut mark xs).raws ++ [(cut mark xs).tail ++ ys] ∧
      (cut mark (xs ++ (ys ++ [mark]))).tail = [] := by
  rw [← List.append_assoc, cut_append, cut_append_free h, List.foldl_cons, List.foldl_nil,
    Cut.push_mark]
  simp [Cut.raws]

variable (mark) in
/-- Two cuts that wait with the same tail go on with the same lines at shifted places. -/
theorem Cut.foldl_shift (c d : Cut α) {n : Nat} (htail : c.tail = d.tail)
    (hstart : c.start = n + d.start) (xs : List α) :
    (xs.foldl (Cut.push mark) c).tail = (xs.foldl (Cut.push mark) d).tail ∧
      (xs.foldl (Cut.push mark) c).start = n + (xs.foldl (Cut.push mark) d).start ∧
      ∃ more, (xs.foldl (Cut.push mark) c).raws = c.raws ++ more ∧
        (xs.foldl (Cut.push mark) d).raws = d.raws ++ more := by
  induction xs generalizing c d with
  | nil => exact ⟨htail, hstart, [], by simp, by simp⟩
  | cons x xs ih =>
    rw [List.foldl_cons, List.foldl_cons]
    by_cases h : x = mark
    · rw [h, Cut.push_mark, Cut.push_mark]
      have hnext : c.start + c.tail.length + 1 = n + (d.start + d.tail.length + 1) := by
        rw [htail, hstart]
        omega
      obtain ⟨htail', hstart', more, hc, hd⟩ :=
        ih ⟨c.lines ++ [⟨c.start, c.tail⟩], _, []⟩ ⟨d.lines ++ [⟨d.start, d.tail⟩], _, []⟩ rfl hnext
      refine ⟨htail', hstart', c.tail :: more, ?_, ?_⟩
      · rw [hc]
        simp [Cut.raws]
      · rw [hd, htail]
        simp [Cut.raws]
    · rw [Cut.push_other h, Cut.push_other h]
      have hnext : c.tail ++ [x] = d.tail ++ [x] := by rw [htail]
      exact ih { c with tail := c.tail ++ [x] } { d with tail := d.tail ++ [x] } hnext hstart

theorem cut_after_whole (h : (cut mark xs).tail = []) (ys : List α) :
    (cut mark (xs ++ ys)).raws = (cut mark xs).raws ++ (cut mark ys).raws ∧
      (cut mark (xs ++ ys)).start = xs.length + (cut mark ys).start ∧
      (cut mark (xs ++ ys)).tail = (cut mark ys).tail := by
  have hplace : (cut mark xs).place = xs.length := cut_place xs
  simp only [Cut.place, h, List.length_nil] at hplace
  have hstart : (cut mark xs).start = xs.length + (Cut.empty : Cut α).start := by
    show (cut mark xs).start = xs.length + 0
    omega
  obtain ⟨htail, hplaced, more, hall, hown⟩ :=
    Cut.foldl_shift mark (cut mark xs) Cut.empty h hstart ys
  rw [cut_append]
  have hmore : (cut mark ys).raws = more := by simpa [cut, Cut.empty, Cut.raws] using hown
  exact ⟨by rw [hall, hmore], hplaced, htail⟩

theorem cut_start_le (xs : List α) : (cut mark xs).start ≤ xs.length := by
  have h : (cut mark xs).place = xs.length := cut_place xs
  simp only [Cut.place] at h
  omega

theorem cut_take_start (xs : List α) :
    cut mark (xs.take (cut mark xs).start) = ⟨(cut mark xs).lines, (cut mark xs).start, []⟩ := by
  induction xs using List.reverseRecOn with
  | nil => rfl
  | append_singleton xs x ih =>
    by_cases h : x = mark
    · have hpush : cut mark (xs ++ [x]) = (cut mark xs).push mark x := by rw [cut_append]; rfl
      have hall : (cut mark (xs ++ [x])).start = (xs ++ [x]).length := by
        have hplace : (cut mark xs).place = xs.length := cut_place xs
        simp only [Cut.place] at hplace
        rw [hpush, h, Cut.push_mark, List.length_append, List.length_singleton]
        show (cut mark xs).start + (cut mark xs).tail.length + 1 = xs.length + 1
        omega
      rw [hall, List.take_length, ← hall, hpush, h, Cut.push_mark]
    · have hpush : cut mark (xs ++ [x]) = { cut mark xs with tail := (cut mark xs).tail ++ [x] } := by
        rw [cut_append]
        exact Cut.push_other h
      have htake : (xs ++ [x]).take (cut mark xs).start = xs.take (cut mark xs).start :=
        List.take_append_of_le_length (cut_start_le xs)
      rw [hpush]
      show cut mark ((xs ++ [x]).take (cut mark xs).start) = _
      rw [htake, ih]

theorem cut_drop_start (xs : List α) : xs.drop (cut mark xs).start = (cut mark xs).tail := by
  induction xs using List.reverseRecOn with
  | nil => rfl
  | append_singleton xs x ih =>
    have hpush : cut mark (xs ++ [x]) = (cut mark xs).push mark x := by rw [cut_append]; rfl
    have hplace : (cut mark xs).place = xs.length := cut_place xs
    simp only [Cut.place] at hplace
    by_cases h : x = mark
    · rw [hpush, h, Cut.push_mark]
      refine List.drop_eq_nil_of_le ?_
      rw [List.length_append, List.length_singleton]
      show xs.length + 1 ≤ (cut mark xs).start + (cut mark xs).tail.length + 1
      omega
    · rw [hpush, Cut.push_other h]
      show (xs ++ [x]).drop (cut mark xs).start = (cut mark xs).tail ++ [x]
      rw [List.drop_append_of_le_length (cut_start_le xs), ih]

theorem joined_cut (xs : List α) : joined mark (cut mark xs).raws ++ (cut mark xs).tail = xs := by
  induction xs using List.reverseRecOn with
  | nil => rfl
  | append_singleton xs x ih =>
    have hpush : cut mark (xs ++ [x]) = (cut mark xs).push mark x := by rw [cut_append]; rfl
    by_cases h : x = mark
    · rw [hpush, h, Cut.push_mark]
      simp only [Cut.raws, List.map_append, List.map_cons, List.map_nil, joined_append,
        joined_singleton, List.append_nil]
      rw [← List.append_assoc]
      exact congrArg (· ++ [mark]) ih
    · rw [hpush, Cut.push_other h]
      simp only [Cut.raws] at ih ⊢
      rw [← List.append_assoc, ih]

theorem cut_start (xs : List α) :
    (cut mark xs).start = (joined mark (cut mark xs).raws).length := by
  have hplace : (cut mark xs).place = xs.length := cut_place xs
  have hlength : (joined mark (cut mark xs).raws ++ (cut mark xs).tail).length = xs.length :=
    congrArg List.length (joined_cut xs)
  rw [List.length_append] at hlength
  simp only [Cut.place] at hplace
  omega

theorem cut_raws_free (xs : List α) : ∀ raw ∈ (cut mark xs).raws, ∀ x ∈ raw, x ≠ mark := by
  induction xs using List.reverseRecOn with
  | nil => exact fun raw hraw => nomatch hraw
  | append_singleton xs x ih =>
    have hpush : cut mark (xs ++ [x]) = (cut mark xs).push mark x := by rw [cut_append]; rfl
    by_cases h : x = mark
    · rw [hpush, h, Cut.push_mark]
      intro raw hraw
      simp only [Cut.raws, List.map_append, List.map_cons, List.map_nil, List.mem_append,
        List.mem_singleton] at hraw
      rcases hraw with hold | rfl
      · exact ih raw hold
      · exact cut_tail_free xs
    · rw [hpush, Cut.push_other h]
      exact ih

theorem cut_joined {raws : List (List α)} (h : ∀ raw ∈ raws, ∀ x ∈ raw, x ≠ mark) :
    (cut mark (joined mark raws)).raws = raws ∧ (cut mark (joined mark raws)).tail = [] := by
  induction raws using List.reverseRecOn with
  | nil => exact ⟨rfl, rfl⟩
  | append_singleton raws raw ih =>
    obtain ⟨hraws, htail⟩ := ih fun other hother => h other (List.mem_append_left _ hother)
    have hfree := h raw (by simp)
    obtain ⟨hmore, hend⟩ := @cut_append_line _ _ mark (joined mark raws) raw hfree
    rw [joined_append, joined_singleton, hmore, hraws, htail, List.nil_append]
    exact ⟨rfl, hend⟩

end

end Ccmux.Lib.Lines
