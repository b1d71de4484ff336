/- Module: Ccmux/Content/Text
   source: src/content/text.ts
   digest: Cutting a text into events of bounded size, and the bounded tail a late reader gets. -/

import Ccmux.Lib.Utf16

namespace Ccmux.Content.Text

open Ccmux.Lib.Utf16

/-- The loop of `textChunks`, with the open chunk and its size. -/
def chunkPoints (maxBytes : Nat) : List Units → Units → Nat → List Units
  | [], chunk, _ => if chunk = [] then [] else [chunk]
  | point :: rest, chunk, size =>
    if maxBytes < size + pointBytes point ∧ chunk ≠ [] then
      chunk :: chunkPoints maxBytes rest point (pointBytes point)
    else chunkPoints maxBytes rest (chunk ++ point) (size + pointBytes point)

def textChunks (text : Units) (maxBytes : Nat) : List Units :=
  chunkPoints maxBytes (points text) [] 0

/-- The code points from the first place that leaves at most so many bytes. -/
def dropPoints (maxBytes : Nat) : List Units → List Units
  | [] => []
  | point :: rest =>
    if bytesOf (point :: rest) ≤ maxBytes then point :: rest else dropPoints maxBytes rest

structure TextTail where
  text : Units
  omittedBytes : Nat

def textTail (text : Units) (maxBytes : Nat) : TextTail :=
  if byteLength text ≤ maxBytes then ⟨text, 0⟩
  else
    let kept := dropPoints maxBytes (points text)
    ⟨kept.flatMap replaceLone, byteLength text - bytesOf kept⟩

theorem chunkPoints_flatten (maxBytes : Nat) (ps : List Units) (chunk : Units) (size : Nat) :
    (chunkPoints maxBytes ps chunk size).flatten = chunk ++ ps.flatten := by
  induction ps generalizing chunk size with
  | nil =>
    by_cases hchunk : chunk = []
    · simp [chunkPoints, hchunk]
    · simp [chunkPoints, hchunk]
  | cons point rest ih =>
    rw [chunkPoints]
    split
    · rw [List.flatten_cons, ih, List.flatten_cons]
    · rw [ih, List.flatten_cons, List.append_assoc]

theorem textChunks_flatten (text : Units) (maxBytes : Nat) :
    (textChunks text maxBytes).flatten = text := by
  rw [textChunks, chunkPoints_flatten, List.nil_append, flatten_points]

theorem dropPoints_suffix (maxBytes : Nat) (ps : List Units) : dropPoints maxBytes ps <:+ ps := by
  induction ps with
  | nil => exact List.suffix_refl []
  | cons point rest ih =>
    rw [dropPoints]
    split
    · exact List.suffix_refl _
    · exact ih.trans (List.suffix_cons point rest)

variable {text : Units}

theorem dropPoints_settled (maxBytes : Nat) :
    ∀ point ∈ (dropPoints maxBytes (points text)).map replaceLone, IsSettled point := by
  intro point hpoint
  obtain ⟨lone, hlone, rfl⟩ := List.mem_map.mp hpoint
  exact replaceLone_settled ((dropPoints_suffix maxBytes (points text)).subset hlone)

theorem textTail_isTail (text : Units) (maxBytes : Nat) :
    IsTail (textTail text maxBytes).text text := by
  rw [textTail]
  split
  · exact isTail_refl text
  · dsimp only
    obtain ⟨gone, hsplit⟩ := dropPoints_suffix maxBytes (points text)
    refine ⟨gone, dropPoints maxBytes (points text), hsplit.symm, ?_⟩
    rw [List.flatMap_def, points_of_settled (dropPoints_settled maxBytes)]
    refine List.forall₂_map_left_iff.mpr ?_
    exact List.forall₂_same.mpr fun _ _ => .inr rfl

theorem textTail_endsHigh (maxBytes : Nat) (h : endsHigh text = false) :
    endsHigh (textTail text maxBytes).text = false := by
  rw [textTail]
  split
  · exact h
  · dsimp only
    rw [List.flatMap_def]
    exact endsHigh_flatten (dropPoints_settled maxBytes)

end Ccmux.Content.Text
