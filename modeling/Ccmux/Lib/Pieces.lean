/- Module: Ccmux/Lib/Pieces
   digest: A sequence that comes in chunks, as records that end with a mark and the pieces that the
     chunks cut them into; and the search for a part in records past a bound, of which only the end
     of the last piece is kept. -/

import Mathlib

namespace Ccmux.Lib.Pieces

universe u v w

section
variable {α : Type u} {σ : Type v} {τ : Type w}

/-- The pieces of one chunk: each but the last one ends a record. -/
def feed (add : σ → List α → σ) (close : σ → σ) : σ → List (List α) → σ
  | s, [] => s
  | s, [piece] => add s piece
  | s, piece :: rest => feed add close (close (add s piece)) rest

theorem feed_rel {R : σ → τ → Prop} {add : σ → List α → σ} {close : σ → σ}
    {add' : τ → List α → τ} {close' : τ → τ}
    (hadd : ∀ s t piece, R s t → R (add s piece) (add' t piece))
    (hclose : ∀ s t, R s t → R (close s) (close' t)) {s : σ} {t : τ} (h : R s t)
    (pieces : List (List α)) : R (feed add close s pieces) (feed add' close' t pieces) := by
  induction pieces generalizing s t with
  | nil => exact h
  | cons piece rest ih =>
    cases rest with
    | nil => exact hadd s t piece h
    | cons next more => exact ih (hclose _ _ (hadd s t piece h))

/-- Records as their pieces; the last one has not been ended. -/
structure Records (α : Type u) where
  whole : List (List (List α))
  rest : List (List α)

@[grind =]
def Records.add (r : Records α) (piece : List α) : Records α := ⟨r.whole, r.rest ++ [piece]⟩

def Records.close (r : Records α) : Records α := ⟨r.whole ++ [r.rest], []⟩

@[grind =]
def Records.all (r : Records α) : List (List (List α)) := r.whole ++ [r.rest]

def Records.texts (r : Records α) : List (List α) := r.all.map List.flatten

theorem texts_feed (r : Records α) (piece : List α) (rest : List (List α)) :
    (feed Records.add Records.close r (piece :: rest)).texts =
      r.whole.map List.flatten ++ (r.rest.flatten ++ piece) :: rest := by
  induction rest generalizing r piece with
  | nil => simp [feed, Records.texts, Records.all, Records.add]
  | cons next more ih =>
    rw [feed, ih]
    · simp [Records.add, Records.close]
    · simp

theorem all_feed_fresh (whole : List (List (List α))) (piece : List α) (rest : List (List α)) :
    (feed Records.add Records.close ⟨whole, []⟩ (piece :: rest)).all =
      whole ++ (piece :: rest).map fun record => [record] := by
  induction rest generalizing whole piece with
  | nil => simp [feed, Records.all, Records.add]
  | cons next more ih =>
    rw [feed]
    · rw [Records.add, Records.close, ih]
      simp
    · simp

end

section
variable {α : Type u} [DecidableEq α] (mark : α)

def recordsOf (chunks : List (List α)) : Records α :=
  chunks.foldl (fun r chunk => feed Records.add Records.close r (chunk.splitOn mark)) ⟨[], []⟩

/-- A sequence that goes on behind its last mark. -/
theorem splitOn_append {xs ys : List α} {whole : List (List α)} {last piece : List α}
    {rest : List (List α)} (hxs : xs.splitOn mark = whole ++ [last])
    (hys : ys.splitOn mark = piece :: rest) :
    (xs ++ ys).splitOn mark = whole ++ (last ++ piece) :: rest := by
  induction xs generalizing whole last with
  | nil =>
    have hparts : whole = [] ∧ last = [] := by
      rw [List.splitOn_nil] at hxs
      cases whole with
      | nil => exact ⟨rfl, by simpa using hxs.symm⟩
      | cons first more => simp at hxs
    rw [List.nil_append, hys, hparts.1, hparts.2]
    rfl
  | cons x xs ih =>
    rw [List.splitOn_cons_eq_if_modifyHead] at hxs
    rw [List.cons_append, List.splitOn_cons_eq_if_modifyHead]
    split at hxs
    · rename_i hmark
      rw [if_pos hmark]
      cases whole with
      | nil =>
        have hnone : xs.splitOn mark = [] := by simpa using (List.cons.inj hxs).2
        exact absurd hnone (List.splitOn_ne_nil mark xs)
      | cons first more =>
        obtain ⟨rfl, htail⟩ := List.cons.inj hxs
        rw [ih htail]
        rfl
    · rename_i hother
      rw [if_neg hother]
      cases hsplit : xs.splitOn mark with
      | nil => exact absurd hsplit (List.splitOn_ne_nil mark xs)
      | cons first more =>
        rw [hsplit, List.modifyHead_cons] at hxs
        cases whole with
        | nil =>
          obtain ⟨rfl, rfl⟩ := List.cons.inj hxs
          have hwhole := @ih [] first hsplit
          rw [hwhole]
          rfl
        | cons w ws =>
          obtain ⟨rfl, htail⟩ := List.cons.inj hxs
          have hwhole := @ih (first :: ws) last (by rw [hsplit, htail]; rfl)
          rw [hwhole]
          rfl

theorem texts_recordsOf (chunks : List (List α)) :
    (recordsOf mark chunks).texts = chunks.flatten.splitOn mark := by
  have hloop : ∀ (chunks : List (List α)) (r : Records α) (xs : List α),
      r.texts = xs.splitOn mark →
      (chunks.foldl (fun r chunk => feed Records.add Records.close r (chunk.splitOn mark)) r).texts =
        (xs ++ chunks.flatten).splitOn mark := by
    intro chunks
    induction chunks with
    | nil => simp
    | cons chunk rest ih =>
      intro r xs hr
      rw [List.foldl_cons, List.flatten_cons, ← List.append_assoc]
      refine ih _ _ ?_
      cases hchunk : chunk.splitOn mark with
      | nil => exact absurd hchunk (List.splitOn_ne_nil mark chunk)
      | cons piece more =>
        have hxs : xs.splitOn mark = r.whole.map List.flatten ++ [r.rest.flatten] := by
          rw [← hr]
          simp [Records.texts, Records.all]
        rw [texts_feed, splitOn_append mark hxs hchunk]
  have hstart : (Records.mk ([] : List (List (List α))) []).texts = ([] : List α).splitOn mark := by
    rw [List.splitOn_nil]
    rfl
  exact hloop chunks _ [] hstart

end

/-! ### A part in records past a bound -/

section
variable {α : Type u}

/-- The last entries, as many as there are. -/
def lastOf (count : Nat) (xs : List α) : List α := xs.drop (xs.length - count)

/-- The pieces up to the one with which they pass the bound, as one, and those behind it. -/
@[grind =]
def passing (limit : Nat) : List α → List (List α) → Option (List α × List (List α))
  | _, [] => none
  | before, piece :: rest =>
    if limit < (before ++ piece).length then some (before ++ piece, rest)
    else passing limit (before ++ piece) rest

/-- The part lies in a piece with the end of the piece before it. -/
def SeenBehind (part : List α) : List α → List (List α) → Prop
  | _, [] => False
  | before, piece :: rest =>
    part <:+: lastOf part.length before ++ piece ∨ SeenBehind part piece rest

/-- The part lies in one piece or reaches over two neighbours. -/
def InNeighbours (part : List α) : List (List α) → Prop
  | [] => False
  | [piece] => part <:+: piece
  | piece :: next :: rest => part <:+: piece ++ next ∨ InNeighbours part (next :: rest)

/-- Where the pieces up to the one with which they pass the bound count as one, the part lies in one
or reaches over two neighbours. -/
def Seen (limit : Nat) (part : List α) (pieces : List (List α)) : Prop :=
  ∃ held rest, passing limit [] pieces = some (held, rest) ∧ InNeighbours part (held :: rest)

theorem lastOf_suffix (count : Nat) (xs : List α) : lastOf count xs <:+ xs :=
  List.drop_suffix _ xs

variable {part before held : List α} {rest pieces : List (List α)} {limit : Nat}

variable {piece : List α}

/-- A part over the end of one piece and the head of the next needs no more than its own length of
the first. -/
theorem infix_append_iff :
    part <:+: before ++ piece ↔
      part <:+: before ∨ part <:+: lastOf part.length before ++ piece := by
  obtain ⟨front, hfront⟩ := lastOf_suffix part.length before
  constructor
  · rintro ⟨left, right, hparts⟩
    rw [List.append_assoc] at hparts
    rcases Nat.le_total (left ++ part).length before.length with hin | hout
    · have hprefix : left ++ part <+: before :=
        List.prefix_of_prefix_length_le ⟨right, by rw [List.append_assoc, hparts]⟩
          (List.prefix_append before piece) hin
      exact Or.inl ((List.suffix_append left part).isInfix.trans hprefix.isInfix)
    · refine Or.inr ?_
      have hlen : front.length ≤ left.length := by
        have hcount := congrArg List.length hfront
        rw [List.length_append, lastOf, List.length_drop] at hcount
        rw [List.length_append] at hout
        omega
      have hleft : front <+: left :=
        @List.prefix_of_prefix_length_le _ front left (before ++ piece)
          ⟨lastOf part.length before ++ piece, by rw [← List.append_assoc, hfront]⟩
          ⟨part ++ right, hparts⟩ hlen
      obtain ⟨middle, rfl⟩ := hleft
      refine ⟨middle, right, ?_⟩
      rw [← hfront, List.append_assoc, List.append_assoc] at hparts
      rw [List.append_assoc]
      exact List.append_cancel_left hparts
  · rintro (hbefore | hend)
    · exact hbefore.trans (List.prefix_append before piece).isInfix
    · refine hend.trans ⟨front, [], ?_⟩
      rw [List.append_nil, ← List.append_assoc, hfront]

theorem infix_or_seenBehind_iff :
    part <:+: held ∨ SeenBehind part held rest ↔ InNeighbours part (held :: rest) := by
  induction rest generalizing held with
  | nil => simp [SeenBehind, InNeighbours]
  | cons piece more ih =>
    rw [SeenBehind, InNeighbours, ← ih, ← or_assoc, ← infix_append_iff]
    constructor
    · rintro (hhere | hlater)
      · exact Or.inl hhere
      · exact Or.inr (Or.inr hlater)
    · rintro (hhere | hpiece | hlater)
      · exact Or.inl hhere
      · exact Or.inl (hpiece.trans (List.suffix_append held piece).isInfix)
      · exact Or.inr hlater

theorem passing_none (hbefore : before.length ≤ limit) (h : passing limit before pieces = none) :
    (before ++ pieces.flatten).length ≤ limit := by
  induction pieces generalizing before with
  | nil => simpa using hbefore
  | cons piece rest ih =>
    rw [passing] at h
    split at h
    · cases h
    · rename_i hle
      have hrest := ih (by omega) h
      rwa [List.flatten_cons, ← List.append_assoc]

theorem passing_some (h : passing limit before pieces = some (held, rest)) :
    before ++ pieces.flatten = held ++ rest.flatten ∧ limit < held.length := by
  induction pieces generalizing before with
  | nil => cases h
  | cons piece more ih =>
    rw [passing] at h
    rw [List.flatten_cons, ← List.append_assoc]
    split at h
    · rename_i hlt
      obtain ⟨rfl, rfl⟩ := Prod.mk.inj (Option.some.inj h)
      exact ⟨rfl, hlt⟩
    · exact ih h

theorem passing_append_some (h : passing limit before pieces = some (held, rest)) (piece : List α) :
    passing limit before (pieces ++ [piece]) = some (held, rest ++ [piece]) := by
  induction pieces generalizing before with
  | nil => cases h
  | cons first more ih =>
    rw [passing] at h
    rw [List.cons_append, passing]
    split at h
    · rename_i hlt
      obtain ⟨rfl, rfl⟩ := Prod.mk.inj (Option.some.inj h)
      rw [if_pos hlt]
    · rename_i hle
      rw [if_neg hle]
      exact ih h

theorem passing_append_none (h : passing limit before pieces = none) (piece : List α) :
    passing limit before (pieces ++ [piece]) =
      if limit < (before ++ pieces.flatten ++ piece).length
      then some (before ++ pieces.flatten ++ piece, []) else none := by
  induction pieces generalizing before with
  | nil => simp [passing]
  | cons first more ih =>
    rw [passing] at h
    rw [List.cons_append, passing]
    split at h
    · cases h
    · rename_i hle
      rw [if_neg hle, ih h, List.flatten_cons, ← List.append_assoc before first]

theorem seenBehind_append :
    SeenBehind part before (rest ++ [piece]) ↔ SeenBehind part before rest ∨
      part <:+: lastOf part.length (rest.getLast?.getD before) ++ piece := by
  induction rest generalizing before with
  | nil => simp [SeenBehind]
  | cons first more ih =>
    rw [List.cons_append, SeenBehind, SeenBehind, ih, or_assoc]
    cases more with
    | nil => simp [SeenBehind]
    | cons second later =>
      have hlast : (second :: later).getLast? = some ((second :: later).getLast (by simp)) :=
        List.getLast?_eq_some_getLast _
      rw [List.getLast?_cons_cons, hlast, Option.getD_some, Option.getD_some]

theorem InNeighbours.infix (h : InNeighbours part pieces) :
    part <:+: pieces.flatten := by
  induction pieces with
  | nil => exact h.elim
  | cons piece rest ih =>
    cases rest with
    | nil => simpa [InNeighbours] using h
    | cons next more =>
      rw [List.flatten_cons]
      rcases h with hhere | hlater
      · rw [List.flatten_cons, ← List.append_assoc]
        exact hhere.trans (List.prefix_append _ _).isInfix
      · exact (ih hlater).trans (List.suffix_append piece _).isInfix

theorem Seen.infix (h : Seen limit part pieces) :
    limit < pieces.flatten.length ∧ part <:+: pieces.flatten := by
  obtain ⟨held, rest, hpassing, hseen⟩ := h
  obtain ⟨hsame, hlt⟩ := passing_some hpassing
  rw [List.nil_append] at hsame
  rw [hsame, List.length_append]
  exact ⟨by omega, hseen.infix⟩

theorem seen_singleton {record : List α} :
    Seen limit part [record] ↔ limit < record.length ∧ part <:+: record := by
  constructor
  · intro h
    simpa using h.infix
  · rintro ⟨hlt, hinfix⟩
    exact ⟨record, [], by rw [passing]; simp [hlt], hinfix⟩

theorem not_seen_nil : ¬ Seen limit part [] := by
  rintro ⟨held, rest, hpassing, _⟩
  cases hpassing

theorem seen_append_some (h : passing limit [] pieces = some (held, rest)) (piece : List α) :
    Seen limit part (pieces ++ [piece]) ↔ Seen limit part pieces ∨
      part <:+: lastOf part.length (rest.getLast?.getD held) ++ piece := by
  have hnext := passing_append_some h piece
  constructor
  · rintro ⟨held', rest', hpassing, hseen⟩
    obtain ⟨rfl, rfl⟩ := Prod.mk.inj (Option.some.inj (hnext.symm.trans hpassing))
    rcases (infix_or_seenBehind_iff).mpr hseen with hheld | hbehind
    · exact Or.inl ⟨_, _, h, (infix_or_seenBehind_iff).mp (Or.inl hheld)⟩
    · rcases (seenBehind_append).mp hbehind with hold | hnew
      · exact Or.inl ⟨_, _, h, (infix_or_seenBehind_iff).mp (Or.inr hold)⟩
      · exact Or.inr hnew
  · rintro (⟨held', rest', hpassing, hseen⟩ | hnew)
    · obtain ⟨rfl, rfl⟩ := Prod.mk.inj (Option.some.inj (h.symm.trans hpassing))
      refine ⟨_, _, hnext, (infix_or_seenBehind_iff).mp ?_⟩
      refine ((infix_or_seenBehind_iff).mpr hseen).imp_right fun hbehind => ?_
      exact (seenBehind_append).mpr (Or.inl hbehind)
    · refine ⟨_, _, hnext, (infix_or_seenBehind_iff).mp (Or.inr ?_)⟩
      exact (seenBehind_append).mpr (Or.inr hnew)

theorem seen_append_none {limit : Nat} {part : List α} {pieces : List (List α)}
    (h : passing limit [] pieces = none) (piece : List α) :
    Seen limit part (pieces ++ [piece]) ↔
      limit < (pieces.flatten ++ piece).length ∧ part <:+: pieces.flatten ++ piece := by
  have hnext := passing_append_none h piece
  rw [List.nil_append] at hnext
  constructor
  · rintro ⟨held, rest, hpassing, hseen⟩
    rw [hpassing] at hnext
    split at hnext
    · rename_i hlt
      obtain ⟨rfl, rfl⟩ := Prod.mk.inj (Option.some.inj hnext)
      exact ⟨hlt, hseen⟩
    · cases hnext
  · rintro ⟨hlt, hinfix⟩
    rw [if_pos hlt] at hnext
    exact ⟨_, _, hnext, hinfix⟩

end

end Ccmux.Lib.Pieces
