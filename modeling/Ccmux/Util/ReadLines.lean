/- Module: Ccmux/Util/ReadLines
   source: src/util/readLines.ts (readLines, readTailLines, tailLines)
   digest: The lines of a file read as a whole, from its end in slices, and as it grows. -/

import Ccmux.Lib.Utf8
import Mathlib

namespace Ccmux.Util.ReadLines

open Ccmux.Lib.Lines
open Ccmux.Lib.Utf8

abbrev Bytes := List UInt8

def newline : UInt8 := 10

/-- `text.split('\n')` -/
def splitLines (text : Text) : List Text := text.splitOn 10

/-- `if (lines[lines.length - 1] === '') lines.pop()` -/
def popEmpty (lines : List Text) : List Text :=
  if lines.getLast? = some [] then lines.dropLast else lines

def readLines (file : Bytes) : List Text := popEmpty (splitLines (decode file))

/-! ### From the end -/

/-- `lines.slice(-count)`; for a count of zero that is every line. -/
def sliceLast (count : Nat) (lines : List Text) : List Text :=
  if count = 0 then lines else lines.drop (lines.length - count)

def capLines (maxLines : Nat) (lines : List Text) : List Text :=
  if maxLines < lines.length then sliceLast maxLines lines else lines

/-- The loop that pulls slices from the end: where the window starts, and the slices. -/
def pullSlices (file : Bytes) {chunk : Nat} (hchunk : 0 < chunk) (floor maxLines : Nat)
    (start newlines : Nat) (slices : List Bytes) : Nat × List Bytes :=
  if _h : floor < start ∧ newlines ≤ maxLines then
    let from_ := max floor (start - chunk)
    let slice := (file.drop from_).take (start - from_)
    pullSlices file hchunk floor maxLines from_ (newlines + slice.count newline) (slice :: slices)
  else (start, slices)
  termination_by start
  decreasing_by omega

/-- `readTailLines`, with `chunk` for `TAIL_CHUNK`; `none` is a path without a file. -/
def readTailLines {chunk : Nat} (hchunk : 0 < chunk) (file : Option Bytes)
    (maxLines maxBytes : Nat) : List Text :=
  match file with
  | none => []
  | some file =>
    let size := file.length
    let budget := max 1 maxBytes
    if size ≤ chunk ∧ size ≤ budget then capLines maxLines (readLines file)
    else
      let pulled := pullSlices file hchunk (size - budget) maxLines size 0 []
      let lines := splitLines (decode pulled.2.flatten)
      capLines maxLines (popEmpty (if 0 < pulled.1 then lines.drop 1 else lines))

def TAIL_CHUNK : Nat := 512 * 1024

def DEFAULT_TAIL_BYTES : Nat := 512 * 1024

/-! ### As it grows -/

/-- `bytes.lastIndexOf(10)` -/
def lastNewline : Bytes → Option Nat
  | [] => none
  | b :: rest =>
    match lastNewline rest with
    | some i => some (i + 1)
    | none => if b = newline then some 0 else none

/-- The position, and the bytes of a line that has no end yet. -/
structure LineTail where
  offset : Nat
  carry : Bytes
  deriving DecidableEq, Repr

def tailLines (from_ : Nat) : LineTail := ⟨from_, []⟩

def LineTail.reset : LineTail := ⟨0, []⟩

def LineTail.read (tail : LineTail) (file : Bytes) : List Text × LineTail :=
  let tail := if file.length < tail.offset then LineTail.reset else tail
  if file.length = tail.offset then ([], tail)
  else
    let bytes := tail.carry ++ file.drop tail.offset
    match lastNewline bytes with
    | none => ([], ⟨file.length, bytes⟩)
    | some stop => (splitLines (decode (bytes.take stop)), ⟨file.length, bytes.drop (stop + 1)⟩)

/-- The file grows by some bytes, or is read; `missed` is a read that cannot open it. -/
inductive Event where
  | append (bytes : Bytes)
  | read
  | missed

/-- The file, the reader, and what it has emitted. -/
structure Follow where
  file : Bytes
  tail : LineTail
  emitted : List Text

def Follow.step (f : Follow) : Event → Follow
  | .append bytes => { f with file := f.file ++ bytes }
  | .read =>
    { f with
      tail := (f.tail.read f.file).2
      emitted := f.emitted ++ (f.tail.read f.file).1 }
  | .missed => f

def follow (file : Bytes) (from_ : Nat) (events : List Event) : Follow :=
  events.foldl Follow.step ⟨file, tailLines from_, []⟩

/-! ### Lines by their bytes -/

/-- The lines of some bytes, a last one without its end included. -/
def parts (bytes : Bytes) : List Bytes :=
  (cut newline bytes).raws ++
    if (cut newline bytes).tail = [] then [] else [(cut newline bytes).tail]

def behindFirst (bytes : Bytes) : Bytes := (bytes.dropWhile fun b => b ≠ newline).drop 1

theorem splitLines_decode (bytes : Bytes) : splitLines (decode bytes) =
    (cut newline bytes).raws.map decode ++ [decode (cut newline bytes).tail] := by
  rw [splitLines, splitOn_decode, splitOn_eq_cut, List.map_append]
  rfl

theorem popEmpty_splitLines (bytes : Bytes) :
    popEmpty (splitLines (decode bytes)) = (parts bytes).map decode := by
  rw [splitLines_decode, popEmpty, parts, List.getLast?_concat, List.dropLast_concat]
  by_cases htail : (cut newline bytes).tail = []
  · rw [if_pos (congrArg some (decode_eq_nil.mpr htail)), if_pos htail, List.append_nil]
  · rw [if_neg fun h => htail (decode_eq_nil.mp (Option.some.inj h)), if_neg htail, List.map_append]
    rfl

theorem parts_append_whole {left : Bytes} (h : (cut newline left).tail = []) (right : Bytes) :
    parts (left ++ right) = (cut newline left).raws ++ parts right := by
  obtain ⟨hraws, -, htail⟩ := cut_after_whole h right
  rw [parts, hraws, htail, parts, List.append_assoc]

variable {line : Bytes} {stop : Nat}

theorem cut_line_tail (before : Bytes) (h : newline ∉ line) :
    (cut newline (before ++ (line ++ [newline]))).tail = [] := by
  have hfree : ∀ y ∈ line, y ≠ newline := fun y hy heq => h (heq ▸ hy)
  have hline := @cut_append_line _ _ newline before line hfree
  rw [← List.append_assoc] at hline ⊢
  exact hline.2

variable {bytes file : Bytes} {from_ : Nat}

theorem first_newline (h : newline ∈ bytes) :
    ∃ line, newline ∉ line ∧ bytes = line ++ newline :: behindFirst bytes := by
  induction bytes with
  | nil => cases h
  | cons b bytes ih =>
    by_cases hb : b = newline
    · refine ⟨[], List.not_mem_nil, ?_⟩
      simp [behindFirst, hb]
    · obtain ⟨line, hline, hbytes⟩ := ih ((List.mem_cons.mp h).resolve_left (Ne.symm hb))
      have hbehind : behindFirst (b :: bytes) = behindFirst bytes := by
        simp [behindFirst, hb]
      refine ⟨b :: line, ?_, ?_⟩
      · exact fun hmem => (List.mem_cons.mp hmem).elim (Ne.symm hb) hline
      · rw [hbehind, List.cons_append, ← hbytes]

theorem dropWhile_free (h : newline ∉ bytes) :
    (bytes.dropWhile fun b => b ≠ newline) = [] := by
  rw [List.dropWhile_eq_nil_iff]
  intro b hb
  simpa using fun heq : b = newline => h (heq ▸ hb)

theorem behindFirst_free (h : newline ∉ bytes) : behindFirst bytes = [] := by
  rw [behindFirst, dropWhile_free h, List.drop_nil]

theorem parts_suffix (front back : Bytes) :
    parts (behindFirst back) <:+ parts (front ++ back) := by
  by_cases hmem : newline ∈ back
  · obtain ⟨line, hline, hback⟩ := first_newline hmem
    refine ⟨(cut newline (front ++ (line ++ [newline]))).raws, ?_⟩
    rw [← parts_append_whole (cut_line_tail front hline)]
    congr 1
    rw [List.append_assoc, List.append_assoc, List.singleton_append, ← hback]
  · rw [behindFirst_free hmem]
    exact List.nil_suffix

theorem behindFirst_suffix (front back : Bytes) :
    parts (behindFirst back) <:+ parts (behindFirst (front ++ back)) := by
  by_cases hmem : newline ∈ front
  · obtain ⟨line, hline, hfront⟩ := first_newline hmem
    have hbehind : behindFirst (front ++ back) = behindFirst front ++ back := by
      generalize behindFirst front = rest at hfront ⊢
      rw [hfront, behindFirst, List.append_assoc, List.dropWhile_append, dropWhile_free hline]
      simp
    rw [hbehind]
    exact parts_suffix _ back
  · have hbehind : behindFirst (front ++ back) = behindFirst back := by
      rw [behindFirst, List.dropWhile_append, dropWhile_free hmem]
      simp [behindFirst]
    exact hbehind.symm ▸ List.suffix_refl _

/-! ### The window at the end -/

def lastOf (count : Nat) (lines : List Text) : List Text := lines.drop (lines.length - count)

/-- How many of the lines a window of so many bytes shows: all of a file that fits, or else those
that begin behind the first newline of the window. -/
def wholeLines (budget : Nat) (file : Bytes) : Nat :=
  if file.length ≤ budget then (readLines file).length
  else (readLines (behindFirst (file.drop (file.length - budget)))).length

theorem readLines_eq (file : Bytes) : readLines file = (parts file).map decode :=
  popEmpty_splitLines file

theorem capLines_eq {maxLines : Nat} (h : maxLines ≠ 0) (lines : List Text) :
    capLines maxLines lines = lastOf maxLines lines := by
  unfold capLines sliceLast lastOf
  rw [if_neg h]
  split
  · rfl
  · rw [Nat.sub_eq_zero_of_le (by omega), List.drop_zero]

theorem lastOf_suffix {shown lines : List Text} (h : shown <:+ lines) (count : Nat) :
    lastOf count shown = lastOf (min count shown.length) lines := by
  obtain ⟨front, rfl⟩ := h
  have hplace : (front ++ shown).length - min count shown.length =
      front.length + (shown.length - count) := by
    rw [List.length_append]
    omega
  rw [lastOf, lastOf, hplace, List.drop_length_add_append]

theorem splitLines_first (h : newline ∉ line) (rest : Bytes) :
    splitLines (decode (line ++ newline :: rest)) = decode line :: splitLines (decode rest) := by
  have hfree : ∀ y ∈ line, y ≠ newline := fun y hy heq => h (heq ▸ hy)
  obtain ⟨hraws, hwhole⟩ := @cut_append_line _ _ newline [] line hfree
  obtain ⟨hall, -, htail⟩ := cut_after_whole hwhole rest
  simp only [List.nil_append, List.append_assoc, List.singleton_append] at hraws hall htail
  rw [splitLines_decode, hall, htail, hraws, splitLines_decode]
  rfl

theorem popEmpty_drop (window : Bytes) :
    popEmpty ((splitLines (decode window)).drop 1) = (parts (behindFirst window)).map decode := by
  by_cases hmem : newline ∈ window
  · obtain ⟨line, hline, hwindow⟩ := first_newline hmem
    generalize behindFirst window = rest at hwindow ⊢
    rw [hwindow, splitLines_first hline, List.drop_succ_cons, List.drop_zero, popEmpty_splitLines]
  · have hfree : ∀ y ∈ window, y ≠ newline := fun y hy heq => hmem (heq ▸ hy)
    rw [behindFirst_free hmem, splitLines_decode, cut_free hfree]
    rfl

theorem pullSlices_spec {file : Bytes} {chunk : Nat} (hchunk : 0 < chunk) {floor maxLines : Nat}
    {start newlines : Nat} {slices : List Bytes} (hslices : slices.flatten = file.drop start)
    (hcount : newlines = (file.drop start).count newline) (hfloor : floor ≤ start) :
    ∃ stop, (pullSlices file hchunk floor maxLines start newlines slices).1 = stop ∧
      (pullSlices file hchunk floor maxLines start newlines slices).2.flatten = file.drop stop ∧
      floor ≤ stop ∧ (stop = floor ∨ maxLines < (file.drop stop).count newline) := by
  fun_induction pullSlices file hchunk floor maxLines start newlines slices with
  | case1 start newlines slices h from_ slice ih =>
    have hlower : floor ≤ from_ := Nat.le_max_left _ _
    have hupper : from_ ≤ start := by omega
    have hdrop : file.drop from_ = slice ++ file.drop start := by
      have hrest : (file.drop from_).drop (start - from_) = file.drop start := by
        rw [List.drop_drop]
        congr 1
        omega
      rw [← hrest, List.take_append_drop]
    refine ih ?_ ?_ hlower
    · rw [List.flatten_cons, hslices, hdrop]
    · rw [hdrop, List.count_append, hcount, Nat.add_comm]
  | case2 start newlines slices h =>
    refine ⟨start, rfl, hslices, hfloor, ?_⟩
    rw [← hcount]
    omega

theorem count_le_parts (bytes : Bytes) : bytes.count newline ≤ (parts bytes).length := by
  have hcount : ∀ xs : Bytes, xs.count newline = (cut newline xs).raws.length := by
    intro xs
    induction xs using List.reverseRecOn with
    | nil => rfl
    | append_singleton xs x ih =>
      have hpush : cut newline (xs ++ [x]) = (cut newline xs).push newline x := by
        rw [cut_append]
        rfl
      rw [List.count_append, ih, hpush]
      by_cases hx : x = newline
      · rw [hx, Cut.push_mark]
        simp [Cut.raws]
      · rw [Cut.push_other hx, List.count_singleton]
        simp [Cut.raws, hx]
  rw [hcount, parts, List.length_append]
  omega

theorem count_behindFirst (bytes : Bytes) :
    bytes.count newline ≤ (behindFirst bytes).count newline + 1 := by
  by_cases hmem : newline ∈ bytes
  · obtain ⟨line, hline, hbytes⟩ := first_newline hmem
    generalize behindFirst bytes = rest at hbytes ⊢
    rw [hbytes, List.count_append, List.count_eq_zero_of_not_mem hline, List.count_cons_self]
    omega
  · rw [List.count_eq_zero_of_not_mem hmem]
    omega

theorem parts_le_wholeLines {budget : Nat} (h : file.length - budget ≤ stop) :
    (parts (behindFirst (file.drop stop))).length ≤ wholeLines budget file := by
  unfold wholeLines
  split
  · have hsuffix := parts_suffix (file.take stop) (file.drop stop)
    rw [List.take_append_drop] at hsuffix
    rw [readLines_eq, List.length_map]
    exact hsuffix.length_le
  · have hdrop : file.drop (file.length - budget) =
        (file.drop (file.length - budget)).take (stop - (file.length - budget)) ++
          file.drop stop := by
      have hrest : (file.drop (file.length - budget)).drop (stop - (file.length - budget)) =
          file.drop stop := by
        rw [List.drop_drop]
        congr 1
        omega
      rw [← hrest, List.take_append_drop]
    have hsuffix := behindFirst_suffix
      ((file.drop (file.length - budget)).take (stop - (file.length - budget))) (file.drop stop)
    rw [← hdrop] at hsuffix
    rw [readLines_eq, List.length_map]
    exact hsuffix.length_le

/-- Whatever the size of a slice, the last lines of the whole file are read, as many of them as the
byte budget shows. -/
theorem readTailLines_eq {chunk : Nat} (hchunk : 0 < chunk) (file : Bytes) {maxLines : Nat}
    (hlines : maxLines ≠ 0) (maxBytes : Nat) : readTailLines hchunk (some file) maxLines maxBytes =
      lastOf (min maxLines (wholeLines (max 1 maxBytes) file)) (readLines file) := by
  unfold readTailLines
  dsimp only
  generalize hbudget : max 1 maxBytes = budget
  split
  · next hfits =>
    rw [capLines_eq hlines, wholeLines, if_pos hfits.2]
    exact lastOf_suffix (List.suffix_refl _) maxLines
  · obtain ⟨stop, hstop, hflatten, hfloor, hdone⟩ := @pullSlices_spec file chunk hchunk
      (file.length - budget) maxLines file.length 0 [] (by simp) (by simp) (by omega)
    rw [hstop, hflatten, capLines_eq hlines]
    split
    · -- the window starts in the middle: its first line is dropped
      have hsuffix : (parts (behindFirst (file.drop stop))).map decode <:+ readLines file := by
        have hparts := parts_suffix (file.take stop) (file.drop stop)
        rw [List.take_append_drop] at hparts
        rw [readLines_eq]
        exact hparts.map decode
      have hshown := parts_le_wholeLines hfloor
      rw [popEmpty_drop, lastOf_suffix hsuffix, List.length_map]
      congr 1
      rcases hdone with rfl | henough
      · rw [wholeLines, if_neg (by omega), readLines_eq, List.length_map]
      · have hcount := count_behindFirst (file.drop stop)
        have hmany := count_le_parts (behindFirst (file.drop stop))
        omega
    · next hzero =>
      obtain rfl : stop = 0 := by omega
      rw [List.drop_zero, wholeLines, if_pos (by omega)]
      exact lastOf_suffix (List.suffix_refl _) maxLines

/-! ### The file as it grows -/

theorem lastNewline_none (h : lastNewline bytes = none) : newline ∉ bytes := by
  induction bytes with
  | nil => exact List.not_mem_nil
  | cons b bytes ih =>
    cases hrest : lastNewline bytes with
    | some i => simp [lastNewline, hrest] at h
    | none =>
      simp only [lastNewline, hrest] at h
      split at h
      · cases h
      · next hb => exact fun hmem => (List.mem_cons.mp hmem).elim (Ne.symm hb) (ih hrest)

theorem lastNewline_some (h : lastNewline bytes = some stop) :
    bytes = bytes.take stop ++ newline :: bytes.drop (stop + 1) ∧
      newline ∉ bytes.drop (stop + 1) := by
  induction bytes generalizing stop with
  | nil => cases h
  | cons b bytes ih =>
    cases hrest : lastNewline bytes with
    | some i =>
      simp only [lastNewline, hrest, Option.some.injEq] at h
      subst h
      obtain ⟨hbytes, hfree⟩ := ih hrest
      refine ⟨?_, hfree⟩
      rw [List.take_succ_cons, List.drop_succ_cons, List.cons_append, ← hbytes]
    | none =>
      simp only [lastNewline, hrest] at h
      split at h
      · next hb =>
        obtain rfl := Option.some.inj h
        exact ⟨by simp [hb], lastNewline_none hrest⟩
      · cases h

theorem cut_resume (seen more : Bytes) :
    (cut newline (seen ++ more)).raws =
        (cut newline seen).raws ++ (cut newline ((cut newline seen).tail ++ more)).raws ∧
      (cut newline (seen ++ more)).tail = (cut newline ((cut newline seen).tail ++ more)).tail := by
  obtain ⟨hraws, hwhole⟩ := @cut_joined _ _ newline _ (cut_raws_free seen)
  obtain ⟨hall, -, htail⟩ := cut_after_whole hwhole ((cut newline seen).tail ++ more)
  rw [← List.append_assoc, joined_cut, hraws] at hall
  rw [← List.append_assoc, joined_cut] at htail
  exact ⟨hall, htail⟩

/-- What one read emits and holds: the whole lines of the held and the new bytes, and the rest. -/
theorem read_spec (tail : LineTail) {file : Bytes} (hroom : tail.offset ≤ file.length)
    (hfree : newline ∉ tail.carry) :
    (tail.read file).1 =
        (cut newline (tail.carry ++ file.drop tail.offset)).raws.map decode ∧
      (tail.read file).2 =
        ⟨file.length, (cut newline (tail.carry ++ file.drop tail.offset)).tail⟩ := by
  have hplain : ∀ xs : Bytes, newline ∉ xs → cut newline xs = ⟨[], 0, xs⟩ :=
    fun xs hxs => cut_free fun x hx heq => hxs (heq ▸ hx)
  have hkeep : (if file.length < tail.offset then LineTail.reset else tail) = tail :=
    if_neg (by omega)
  unfold LineTail.read
  simp only [hkeep]
  split
  · next hsame =>
    rw [List.drop_eq_nil_of_le (by omega), List.append_nil, hplain _ hfree]
    refine ⟨rfl, ?_⟩
    rw [hsame]
  · generalize tail.carry ++ file.drop tail.offset = bytes
    split
    · next hnone =>
      rw [hplain _ (lastNewline_none hnone)]
      exact ⟨rfl, rfl⟩
    · next stop hsome =>
      obtain ⟨hbytes, hrest⟩ := lastNewline_some hsome
      have hcut : (cut newline bytes).raws = (cut newline (bytes.take stop)).raws ++
          [(cut newline (bytes.take stop)).tail] ∧
          (cut newline bytes).tail = bytes.drop (stop + 1) := by
        have hwhole : cut newline (bytes.take stop ++ [newline]) =
            (cut newline (bytes.take stop)).push newline newline := by
          rw [cut_append]
          rfl
        have hempty : (cut newline (bytes.take stop ++ [newline])).tail = [] := by
          rw [hwhole, Cut.push_mark]
        obtain ⟨hraws, -, htail⟩ := cut_after_whole hempty (bytes.drop (stop + 1))
        rw [List.append_assoc, List.singleton_append, ← hbytes, hplain _ hrest] at hraws htail
        refine ⟨?_, htail⟩
        rw [hraws, hwhole, Cut.push_mark]
        simp [Cut.raws]
      rw [hcut.1, hcut.2, splitLines_decode, List.map_append]
      exact ⟨rfl, rfl⟩

/-- What was emitted is the lines of the bytes up to the position, and the rest of them is held. -/
structure Follows (from_ : Nat) (f : Follow) : Prop where
  start : from_ ≤ f.tail.offset
  room : f.tail.offset ≤ f.file.length
  emitted : f.emitted =
    (cut newline ((f.file.take f.tail.offset).drop from_)).raws.map decode
  carry : f.tail.carry = (cut newline ((f.file.take f.tail.offset).drop from_)).tail

theorem step_follows {f : Follow} (h : Follows from_ f) (event : Event) :
    Follows from_ (f.step event) := by
  cases event with
  | append bytes =>
    have htake : (f.file ++ bytes).take f.tail.offset = f.file.take f.tail.offset :=
      List.take_append_of_le_length h.room
    refine ⟨h.start, ?_, ?_, ?_⟩
    · rw [Follow.step, List.length_append]
      exact h.room.trans (Nat.le_add_right _ _)
    · rw [Follow.step, htake]
      exact h.emitted
    · rw [Follow.step, htake]
      exact h.carry
  | missed => exact h
  | read =>
    have hfree : newline ∉ f.tail.carry := by
      rw [h.carry]
      exact fun hmem => cut_tail_free _ newline hmem rfl
    obtain ⟨hlines, htail⟩ := read_spec f.tail h.room hfree
    have hseen : f.file.drop from_ =
        (f.file.take f.tail.offset).drop from_ ++ f.file.drop f.tail.offset := by
      have hstart : from_ ≤ (f.file.take f.tail.offset).length := by
        rw [List.length_take]
        have hroom := h.room
        have hle := h.start
        omega
      rw [← List.drop_append_of_le_length hstart, List.take_append_drop]
    obtain ⟨hraws, hrest⟩ := cut_resume ((f.file.take f.tail.offset).drop from_)
      (f.file.drop f.tail.offset)
    rw [← hseen, ← h.carry] at hraws hrest
    refine ⟨?_, ?_, ?_, ?_⟩
    · rw [Follow.step, htail]
      exact h.start.trans h.room
    · rw [Follow.step, htail]
    · rw [Follow.step, htail, hlines]
      dsimp only
      rw [List.take_length, hraws, List.map_append, h.emitted]
    · rw [Follow.step, htail]
      dsimp only
      rw [List.take_length, hrest]

theorem follow_follows (hfrom : from_ ≤ file.length)
    (events : List Event) : Follows from_ (follow file from_ events) := by
  induction events using List.reverseRecOn with
  | nil =>
    have hnone : (file.take from_).drop from_ = [] := by
      refine List.drop_eq_nil_of_le ?_
      rw [List.length_take]
      omega
    refine ⟨Nat.le_refl from_, hfrom, ?_, ?_⟩
    · show [] = (cut newline ((file.take from_).drop from_)).raws.map decode
      rw [hnone]
      rfl
    · show [] = (cut newline ((file.take from_).drop from_)).tail
      rw [hnone]
      rfl
  | append_singleton events event ih =>
    rw [follow, List.foldl_append, List.foldl_cons, List.foldl_nil]
    exact step_follows ih event

def appended (events : List Event) : Bytes :=
  events.flatMap fun event => match event with | .append bytes => bytes | _ => []

theorem follow_file (file : Bytes) (from_ : Nat) (events : List Event) :
    (follow file from_ events).file = file ++ appended events := by
  induction events using List.reverseRecOn with
  | nil => exact (List.append_nil file).symm
  | append_singleton events event ih =>
    rw [follow, List.foldl_append, List.foldl_cons, List.foldl_nil, ← follow, appended,
      List.flatMap_append, ← appended, ← List.append_assoc, ← ih]
    cases event <;> simp [Follow.step]

theorem follow_emitted (hfrom : from_ ≤ file.length)
    (events : List Event) : (follow file from_ (events ++ [.read])).emitted =
      (splitLines (decode (file.drop from_ ++ appended events))).dropLast := by
  have hbefore := follow_follows hfrom events
  have hafter := follow_follows hfrom (events ++ [.read])
  have hstep : follow file from_ (events ++ [.read]) = (follow file from_ events).step .read := by
    rw [follow, List.foldl_append, List.foldl_cons, List.foldl_nil, ← follow]
  have hfree : newline ∉ (follow file from_ events).tail.carry := by
    rw [hbefore.carry]
    exact fun hmem => cut_tail_free _ newline hmem rfl
  have hoffset : (follow file from_ (events ++ [.read])).tail.offset =
      (follow file from_ (events ++ [.read])).file.length := by
    rw [hstep]
    exact congrArg LineTail.offset (read_spec _ hbefore.room hfree).2
  have happended : appended (events ++ [.read]) = appended events := by simp [appended]
  rw [hafter.emitted, hoffset, List.take_length, follow_file, happended,
    List.drop_append_of_le_length hfrom, splitLines_decode, List.dropLast_concat]

/-! ### Both readers -/

/-- From the end a file shows the last of its lines, for every size of a slice, as far as the byte
budget reaches; and while it grows it shows each line once it is whole, however it is written. -/
theorem readers_agree :
    (∀ (chunk : Nat) (hchunk : 0 < chunk) (file : Bytes) (maxLines maxBytes : Nat), maxLines ≠ 0 →
      readTailLines hchunk (some file) maxLines maxBytes =
        lastOf (min maxLines (wholeLines (max 1 maxBytes) file)) (readLines file)) ∧
    ∀ (file : Bytes) (from_ : Nat) (events : List Event), from_ ≤ file.length →
      (follow file from_ (events ++ [.read])).emitted =
        (splitLines (decode (file.drop from_ ++ appended events))).dropLast :=
  ⟨fun _ hchunk file _ maxBytes hlines => readTailLines_eq hchunk file hlines maxBytes,
    fun _ _ events hfrom => follow_emitted hfrom events⟩

theorem readers_agree_small :
    readTailLines (by decide : 0 < 2) (some [97, 10, 98, 10]) 1 4 =
        lastOf (min 1 (wholeLines (max 1 4) [97, 10, 98, 10])) (readLines [97, 10, 98, 10]) ∧
      (follow [97] 0 ([.append [10, 98]] ++ [.read])).emitted =
        (splitLines (decode ([97].drop 0 ++ appended [.append [10, 98]]))).dropLast :=
  ⟨readers_agree.1 2 (by decide) [97, 10, 98, 10] 1 4 (by decide),
    readers_agree.2 [97] 0 [.append [10, 98]] (by decide)⟩

/-- A shorter tail is the end of a longer one, for every two sizes of a slice. -/
theorem shorter_tail {chunk other : Nat} (hchunk : 0 < chunk) (hother : 0 < other) (file : Bytes)
    {few many : Nat} (hfew : 0 < few) (hmany : few ≤ many) (maxBytes : Nat) :
    readTailLines hchunk (some file) few maxBytes =
      lastOf few (readTailLines hother (some file) many maxBytes) := by
  rw [readTailLines_eq hchunk file (by omega), readTailLines_eq hother file (by omega), lastOf,
    lastOf, lastOf, List.drop_drop, List.length_drop]
  congr 1
  omega

theorem shorter_tail_small :
    readTailLines (by decide : 0 < 2) (some [97, 10, 98, 10]) 1 4 =
      lastOf 1 (readTailLines (by decide : 0 < 3) (some [97, 10, 98, 10]) 2 4) :=
  shorter_tail (by decide) (by decide) _ (by decide) (by decide) 4

/-- A record larger than the budget is not shown. -/
theorem large_record_is_not_shown :
    ¬ ∀ (chunk : Nat) (hchunk : 0 < chunk) (file : Bytes) (maxLines : Nat),
      readTailLines hchunk (some file) maxLines DEFAULT_TAIL_BYTES =
        lastOf maxLines (readLines file) := by
  intro hall
  have hplain : ∀ n, newline ∉ List.replicate n (120 : UInt8) := by
    intro n hmem
    exact absurd (List.eq_of_mem_replicate hmem) (by decide)
  generalize hrecord : List.replicate (DEFAULT_TAIL_BYTES + 1) (120 : UInt8) = record at *
  have hlength : record.length = DEFAULT_TAIL_BYTES + 1 := by
    rw [← hrecord, List.length_replicate]
  have hone : readLines record = [decode record] := by
    have hfree : ∀ y ∈ record, y ≠ newline := by
      intro y hy heq
      rw [← hrecord] at hy
      exact hplain _ (heq ▸ hy)
    have hne : record ≠ [] := by
      rintro rfl
      cases hlength
    rw [readLines_eq, parts, cut_free hfree, if_neg hne]
    rfl
  have hwindow : newline ∉ record.drop (record.length - DEFAULT_TAIL_BYTES) := by
    rw [← hrecord, List.drop_replicate]
    exact hplain _
  have hread := hall 1 (by decide) record 1
  have hbudget : max 1 DEFAULT_TAIL_BYTES = DEFAULT_TAIL_BYTES := by decide
  rw [readTailLines_eq (by decide) record (by decide), hbudget, wholeLines,
    if_neg (by omega), behindFirst_free hwindow, hone] at hread
  have hlines := congrArg List.length hread
  cases hlines

end Ccmux.Util.ReadLines
