/- Module: Ccmux/Lib/CursorWalk
   digest: A reader that may fail, followed by its cursors, and what the pages it gives add up to. -/

import Mathlib

namespace Ccmux.Lib.CursorWalk

universe u v w x y

variable {ρ : Type u} {κ : Type v} {π : Type w} {ε : Type x} {α : Type y}

/-- The pages a walk was given, each beside what was asked for, and the error that cut it off. -/
structure Walk (ρ : Type u) (π : Type w) (ε : Type x) where
  pages : List (ρ × π)
  error : Option ε

/-- The `n`-th page is asked for by `asked n`, from the cursor of the page before it; `none` when
the walk outlasts the fuel. -/
def walk (read : ρ → Option κ → Except ε π) (next : π → Option κ) (asked : Nat → ρ) :
    Nat → Nat → Option κ → Option (Walk ρ π ε)
  | 0, _, _ => none
  | fuel + 1, n, cursor =>
    match read (asked n) cursor with
    | .error e => some ⟨[], some e⟩
    | .ok page =>
      match next page with
      | none => some ⟨[(asked n, page)], none⟩
      | some later => (walk read next asked fuel (n + 1) (some later)).map fun w =>
          { w with pages := (asked n, page) :: w.pages }

/-- What is left at a cursor: nothing is beyond the last page, and a page before it takes its rows
off what is left. -/
def Takes (next : Option κ) (At : Option κ → Prop) (left : Option κ → List α)
    (rank : Option κ → Nat) (cursor : Option κ) (rows : List α) : Prop :=
  match next with
  | none => left cursor = rows
  | some later => At (some later) ∧ left cursor = rows ++ left (some later) ∧
      rank (some later) < rank cursor

/-- A reader at the cursors it gives out: each read fails as it may, or shows the next rows. -/
structure Serves (read : ρ → Option κ → Except ε π) (next : π → Option κ)
    (At : Option κ → Prop) (left : Option κ → List α) (rank : Option κ → Nat)
    (Shows : ρ → π → List α → Prop) (Fails : ε → Prop) : Prop where
  failed : ∀ request cursor e, At cursor → read request cursor = .error e → Fails e
  shown : ∀ request cursor page, At cursor → read request cursor = .ok page →
    ∃ rows, Shows request page rows ∧ Takes (next page) At left rank cursor rows

/-- The rows of the pages, in the order of the walk. -/
structure Delivers (left : List α) (Shows : ρ → π → List α → Prop) (Fails : ε → Prop)
    (w : Walk ρ π ε) (rows : List (List α)) : Prop where
  shown : List.Forall₂ (fun served part => Shows served.1 served.2 part) w.pages rows
  within : rows.flatten <+: left
  whole : w.error = none → rows.flatten = left
  failed : ∀ e, w.error = some e → Fails e

variable {read : ρ → Option κ → Except ε π} {next : π → Option κ} {At : Option κ → Prop}
  {left : Option κ → List α} {rank : Option κ → Nat} {Shows : ρ → π → List α → Prop}
  {Fails : ε → Prop}

theorem Delivers.cons {request : ρ} {page : π} {part : List α} {rest : List α} {w : Walk ρ π ε}
    {rows : List (List α)} (hpart : Shows request page part) (h : Delivers rest Shows Fails w rows) :
    Delivers (part ++ rest) Shows Fails { w with pages := (request, page) :: w.pages }
      (part :: rows) := by
  refine ⟨List.Forall₂.cons hpart h.shown, ?_, ?_, h.failed⟩
  · rw [List.flatten_cons]
    exact (List.prefix_append_right_inj part).mpr h.within
  · intro hnone
    rw [List.flatten_cons, h.whole hnone]

/-- A walk from a cursor of the reader ends, and its pages are what was left there, in order. -/
theorem walk_delivers (h : Serves read next At left rank Shows Fails) (asked : Nat → ρ)
    {fuel : Nat} {cursor : Option κ} (n : Nat) (hat : At cursor) (hfuel : rank cursor < fuel) :
    ∃ w rows, walk read next asked fuel n cursor = some w ∧
      Delivers (left cursor) Shows Fails w rows := by
  induction fuel generalizing n cursor with
  | zero => omega
  | succ fuel ih =>
    cases hread : read (asked n) cursor with
    | error e =>
      refine ⟨⟨[], some e⟩, [], by simp [walk, hread], List.Forall₂.nil, List.nil_prefix, nofun, ?_⟩
      intro e' he
      rw [← Option.some.inj he]
      exact h.failed _ _ _ hat hread
    | ok page =>
      obtain ⟨part, hpart, htakes⟩ := h.shown _ _ _ hat hread
      cases hnext : next page with
      | none =>
        rw [hnext] at htakes
        have hleft : left cursor = part := htakes
        refine ⟨⟨[(asked n, page)], none⟩, [part], by simp [walk, hread, hnext],
          List.Forall₂.cons hpart List.Forall₂.nil, ?_, ?_, nofun⟩
        · simp [hleft]
        · simp [hleft]
      | some later =>
        rw [hnext] at htakes
        obtain ⟨hlater, hleft, hrank⟩ : At (some later) ∧ left cursor = part ++ left (some later) ∧
          rank (some later) < rank cursor := htakes
        obtain ⟨w, rows, hwalk, hrest⟩ := ih (n + 1) hlater (by omega)
        refine ⟨{ w with pages := (asked n, page) :: w.pages }, part :: rows, ?_, ?_⟩
        · simp [walk, hread, hnext, hwalk]
        · rw [hleft]
          exact hrest.cons hpart

end Ccmux.Lib.CursorWalk
