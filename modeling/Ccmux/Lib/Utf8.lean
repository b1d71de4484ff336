/- Module: Ccmux/Lib/Utf8
   digest: Reading bytes as UTF-8 with U+FFFD for what is none, and that this leaves lines alone. -/

import Ccmux.Lib.Lines

namespace Ccmux.Lib.Utf8

open Ccmux.Lib.Lines

abbrev Text := List Nat

/-- An open character: how many bytes are missing, which the next one may be, and what was read. No
character of several bytes has the value of a single byte. -/
structure Pending where
  missing : Nat
  lower : Nat
  upper : Nat
  value : Nat
  lower_ge : 0x80 ≤ lower
  grows : 2 ≤ value ∨ (1 ≤ value ∨ 0x90 ≤ lower) ∧ 2 ≤ missing

def lead (b : Nat) : Text × Option Pending :=
  if b < 0x80 then ([b], none)
  else if hb : 0xC2 ≤ b ∧ b ≤ 0xDF then
    ([], some ⟨1, 0x80, 0xBF, b - 0xC0, by decide, by omega⟩)
  else if b = 0xE0 then ([], some ⟨2, 0xA0, 0xBF, 0, by decide, by decide⟩)
  else if hb : 0xE1 ≤ b ∧ b ≤ 0xEF then
    ([], some ⟨2, 0x80, if b = 0xED then 0x9F else 0xBF, b - 0xE0, by decide, by omega⟩)
  else if b = 0xF0 then ([], some ⟨3, 0x90, 0xBF, 0, by decide, by decide⟩)
  else if hb : 0xF1 ≤ b ∧ b ≤ 0xF4 then
    ([], some ⟨3, 0x80, if b = 0xF4 then 0x8F else 0xBF, b - 0xF0, by decide, by omega⟩)
  else ([0xFFFD], none)

/-- One byte: the code points it completes, and the character that is open behind it. A byte that
does not belong to the open character ends it and is read again. -/
def push (s : Option Pending) (b : Nat) : Text × Option Pending :=
  match s with
  | none => lead b
  | some p =>
    if hb : p.lower ≤ b ∧ b ≤ p.upper then
      if p.missing ≤ 1 then ([p.value * 64 + (b - 0x80)], none)
      else
        ([], some ⟨p.missing - 1, 0x80, 0xBF, p.value * 64 + (b - 0x80), by decide, by
          have hlower := p.lower_ge
          have hgrows := p.grows
          omega⟩)
    else (0xFFFD :: (lead b).1, (lead b).2)

/-- What an open character is read as when nothing completes it. -/
def flush : Option Pending → Text
  | none => []
  | some _ => [0xFFFD]

def decodeFrom : Option Pending → List UInt8 → Text
  | s, [] => flush s
  | s, b :: rest => (push s b.toNat).1 ++ decodeFrom (push s b.toNat).2 rest

/-- `Buffer.toString('utf8')` -/
def decode (bytes : List UInt8) : Text := decodeFrom none bytes

/-! ### A newline ends every character -/

theorem push_newline (s : Option Pending) : push s 10 = (flush s ++ [10], none) := by
  cases s with
  | none => rfl
  | some p =>
    have hlower := p.lower_ge
    rw [push, dif_neg (by omega)]
    rfl

theorem newline_lead {b : Nat} (h : 10 ∈ (lead b).1) : b = 10 := by
  unfold lead at h
  split at h
  · exact (List.mem_singleton.mp h).symm
  · repeat' split at h
    all_goals simp at h

variable {s : Option Pending} {bytes : List UInt8}

theorem newline_push {b : Nat} (h : 10 ∈ (push s b).1) : b = 10 := by
  cases s with
  | none => exact newline_lead h
  | some p =>
    rw [push] at h
    split at h
    · next hb =>
      split at h
      · next hlast =>
        have hvalue := List.mem_singleton.mp h
        have hgrows := p.grows
        omega
      · cases h
    · rcases List.mem_cons.mp h with hbad | hlead
      · omega
      · exact newline_lead hlead

theorem decodeFrom_newline (s : Option Pending) (left right : List UInt8) :
    decodeFrom s (left ++ 10 :: right) = decodeFrom s left ++ 10 :: decode right := by
  induction left generalizing s with
  | nil =>
    show (push s 10).1 ++ decodeFrom (push s 10).2 right = flush s ++ 10 :: decode right
    rw [push_newline, List.append_assoc]
    rfl
  | cons b left ih => rw [List.cons_append, decodeFrom, decodeFrom, ih, List.append_assoc]

theorem decode_newline (left right : List UInt8) :
    decode (left ++ 10 :: right) = decode left ++ 10 :: decode right :=
  decodeFrom_newline none left right

theorem newline_decodeFrom (h : 10 ∈ decodeFrom s bytes) : (10 : UInt8) ∈ bytes := by
  induction bytes generalizing s with
  | nil => cases s <;> simp [decodeFrom, flush] at h
  | cons b bytes ih =>
    rcases List.mem_append.mp h with hhead | htail
    · have hb : b.toNat = (10 : UInt8).toNat := newline_push hhead
      rw [UInt8.toNat_inj.mp hb]
      exact List.mem_cons_self
    · exact List.mem_cons_of_mem b (ih htail)

theorem decodeFrom_eq_nil (h : decodeFrom s bytes = []) : s = none ∧ bytes = [] := by
  induction bytes generalizing s with
  | nil =>
    cases s with
    | none => exact ⟨rfl, rfl⟩
    | some p => cases h
  | cons b bytes ih =>
    obtain ⟨hhead, htail⟩ := List.append_eq_nil_iff.mp h
    have hnext := (ih htail).1
    -- a byte that leaves no character open completes one
    exfalso
    cases s with
    | none =>
      simp only [push, lead] at hhead hnext
      repeat' split at hhead
      all_goals simp_all
    | some p =>
      simp only [push] at hhead hnext
      repeat' split at hhead
      all_goals simp_all

theorem decode_eq_nil : decode bytes = [] ↔ bytes = [] := by
  refine ⟨fun h => (decodeFrom_eq_nil h).2, ?_⟩
  rintro rfl
  rfl

/-! ### Lines before and after -/

theorem splitOn_eq_cut {α : Type} [DecidableEq α] (mark : α) (xs : List α) :
    xs.splitOn mark = (cut mark xs).raws ++ [(cut mark xs).tail] := by
  have hjoined : ∀ (raws : List (List α)) (tail : List α),
      joined mark raws ++ tail = [mark].intercalate (raws ++ [tail]) := by
    intro raws tail
    induction raws with
    | nil => simp
    | cons raw raws ih =>
      have hne : raws ++ [tail] ≠ [] := by simp
      obtain ⟨next, rest, hparts⟩ := List.exists_cons_of_ne_nil hne
      rw [hparts] at ih
      rw [List.cons_append, hparts]
      simp only [joined, List.flatMap_cons, List.append_assoc, List.nil_append,
        List.cons_append] at ih ⊢
      rw [ih]
      simp [List.intercalate]
  have hfree : ∀ part ∈ (cut mark xs).raws ++ [(cut mark xs).tail], mark ∉ part := by
    intro part hpart hmark
    rcases List.mem_append.mp hpart with hraw | htail
    · exact cut_raws_free xs part hraw mark hmark rfl
    · rw [List.mem_singleton.mp htail] at hmark
      exact cut_tail_free xs mark hmark rfl
  have hsplit := List.splitOn_intercalate mark hfree (by simp)
  rwa [← hjoined, joined_cut] at hsplit

/-- A text is split at its newlines as its bytes are. -/
theorem splitOn_decode (bytes : List UInt8) :
    (decode bytes).splitOn 10 = (bytes.splitOn 10).map decode := by
  have hdecode : ∀ (raws : List (List UInt8)) (tail : List UInt8),
      decode (joined 10 raws ++ tail) = joined 10 (raws.map decode) ++ decode tail := by
    intro raws tail
    induction raws with
    | nil => rfl
    | cons raw raws ih =>
      simp only [joined, List.flatMap_cons, List.map_cons, List.append_assoc,
        List.nil_append, List.cons_append] at ih ⊢
      rw [decode_newline, ih]
  have hcut : cut 10 (decode bytes) = cut 10 (joined 10 ((cut 10 bytes).raws.map decode) ++
      decode (cut 10 bytes).tail) := by rw [← hdecode, joined_cut]
  have hraws : ∀ raw ∈ (cut 10 bytes).raws.map decode, ∀ x ∈ raw, x ≠ 10 := by
    intro raw hraw x hx
    rintro rfl
    obtain ⟨line, hline, rfl⟩ := List.mem_map.mp hraw
    exact cut_raws_free bytes line hline 10 (newline_decodeFrom hx) rfl
  have htail : ∀ x ∈ decode (cut 10 bytes).tail, x ≠ 10 := by
    intro x hx
    rintro rfl
    exact cut_tail_free bytes 10 (newline_decodeFrom hx) rfl
  obtain ⟨hsame, hwhole⟩ := cut_joined hraws
  obtain ⟨hlines, -, hrest⟩ := cut_after_whole hwhole (decode (cut 10 bytes).tail)
  rw [splitOn_eq_cut, splitOn_eq_cut, hcut, hlines, hrest, hsame, cut_free htail, List.map_append]
  simp [Cut.raws]

end Ccmux.Lib.Utf8
