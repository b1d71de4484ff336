/- Module: Ccmux/Transcript/Range
   source: src/agent/transcript/transcriptIndex.ts (readRange)
   digest: The lines between two numbers, read from the checkpoint before them, after any schedule
     of index calls. -/

import Ccmux.Transcript.Index

namespace Ccmux.Transcript.Range

open Ccmux.Lib.Lines
open Ccmux.Lib.Machine
open Ccmux.Transcript.Index
open Ccmux.Transcript.Normalize
open Ccmux.Transcript.Scan
open Ccmux.Usage.Schema (UsageFact)

/-- `split('\\n')`, on the bytes: no other character's encoding holds the newline's byte. -/
def splitLines (bytes : List UInt8) : List (List UInt8) :=
  (cut newline bytes).raws ++ [(cut newline bytes).tail]

/-- The empty text after a last newline is no line. -/
def popBlank (lines : List (List UInt8)) : List (List UInt8) :=
  if lines.getLast? = some [] then lines.dropLast else lines

def readRange (b : Builtins) (content : List UInt8) (index : StoredIndex) (lo hi : Int) :
    List String :=
  let first := (max 1 lo).toNat
  let last := (min (index.lines : Int) hi).toNat
  if last < first ∨ index.lines = 0 then []
  else
    let block := (first - 1) / checkpointLines
    let start := index.checkpoints.getD block 0
    let startLine := block * checkpointLines + 1
    -- to the checkpoint that begins after the range
    let endBlock := last / checkpointLines + 1
    let stop := index.checkpoints.getD endBlock index.size
    let buffer := (content.drop start).take (stop - start)
    let lines := popBlank (splitLines buffer)
    ((lines.drop (first - startLine)).take (last + 1 - first)).map b.utf8

/-- Of numbered lines, those from `lo` to `hi`. -/
def linesBetween {α : Type} (lines : List α) (lo hi : Int) : List α :=
  (lines.drop ((max 1 lo).toNat - 1)).take (hi.toNat + 1 - (max 1 lo).toNat)

/-- Where the line after that many lines starts. -/
def lineStart (raws : List (List UInt8)) (lines : Nat) : Nat :=
  (joined newline (raws.take lines)).length

variable {raws : List (List UInt8)}

theorem splitLines_joined (h : ∀ raw ∈ raws, ∀ x ∈ raw, x ≠ newline) :
    popBlank (splitLines (joined newline raws)) = raws := by
  obtain ⟨hraws, htail⟩ := cut_joined h
  rw [splitLines, hraws, htail, popBlank, List.getLast?_concat, if_pos rfl, List.dropLast_concat]

theorem lineStart_concat {lines : Nat} (h : lines ≤ raws.length)
    (raw : List UInt8) : lineStart (raws ++ [raw]) lines = lineStart raws lines := by
  unfold lineStart
  rw [List.take_append_of_le_length h]

/-- The counters that lines come to: the checkpoints are the starts of their blocks. -/
def placesOf (raws : List (List UInt8)) : Places :=
  { lines := raws.length
    size := lineStart raws raws.length
    checkpoints := (List.range (raws.length / checkpointLines + 1)).map fun block =>
      lineStart raws (checkpointLines * block) }

theorem placesOf_concat (raws : List (List UInt8)) (raw : List UInt8) :
    (placesOf raws).next (joined newline (raws ++ [raw])).length = placesOf (raws ++ [raw]) := by
  have hblock : checkpointLines = 512 := rfl
  have hsize : lineStart (raws ++ [raw]) (raws ++ [raw]).length =
      (joined newline (raws ++ [raw])).length := by
    unfold lineStart
    rw [List.take_length]
  have hlength : (raws ++ [raw]).length = raws.length + 1 := by
    rw [List.length_append, List.length_singleton]
  have hold : (List.range (raws.length / checkpointLines + 1)).map (fun block =>
        lineStart (raws ++ [raw]) (checkpointLines * block)) =
      (List.range (raws.length / checkpointLines + 1)).map fun block =>
        lineStart raws (checkpointLines * block) := by
    apply List.map_congr_left
    intro block hmem
    have hlt := List.mem_range.mp hmem
    refine lineStart_concat ?_ raw
    have hle : checkpointLines * block ≤ checkpointLines * (raws.length / checkpointLines) :=
      Nat.mul_le_mul_left _ (by omega)
    exact hle.trans (Nat.mul_div_le _ _)
  unfold placesOf Places.next
  dsimp only
  rw [hsize, hlength]
  by_cases hfull : (raws.length + 1) % checkpointLines = 0
  · have hnext : (raws.length + 1) / checkpointLines = raws.length / checkpointLines + 1 := by
      rw [hblock] at hfull ⊢
      omega
    have hall : checkpointLines * (raws.length / checkpointLines + 1) = (raws ++ [raw]).length := by
      rw [hblock] at hfull ⊢
      omega
    rw [if_pos hfull, hnext, List.range_succ (n := raws.length / checkpointLines + 1),
      List.map_append, hold, List.map_singleton, hall, hsize]
  · have hsame : (raws.length + 1) / checkpointLines = raws.length / checkpointLines := by
      rw [hblock] at hfull ⊢
      omega
    rw [if_neg hfull, hsame, hold]

/-- The counters of an index whose lines are those of the bytes. -/
theorem places_cut (xs : List UInt8) :
    places (cut newline xs).lines = placesOf (cut newline xs).raws := by
  induction xs using List.reverseRecOn with
  | nil => rfl
  | append_singleton xs x ih =>
    have hpush : cut newline (xs ++ [x]) = (cut newline xs).push newline x := by
      rw [cut_append]
      rfl
    by_cases h : x = newline
    · have hraws : ((cut newline xs).push newline newline).raws =
          (cut newline xs).raws ++ [(cut newline xs).tail] := by
        rw [Cut.push_mark]
        simp [Cut.raws]
      have hstop : (⟨(cut newline xs).start, (cut newline xs).tail⟩ : Line UInt8).stop + 1 =
          (joined newline ((cut newline xs).raws ++ [(cut newline xs).tail])).length := by
        rw [joined_append, joined_singleton, List.length_append, List.length_append, ← cut_start]
        rfl
      rw [hpush, h, hraws, Cut.push_mark, places_snoc, ih, hstop, placesOf_concat]
    · have hraws : ((cut newline xs).push newline x).raws = (cut newline xs).raws := by
        rw [Cut.push_other h]
        rfl
      have hlines : ((cut newline xs).push newline x).lines = (cut newline xs).lines := by
        rw [Cut.push_other h]
      rw [hpush, hraws, hlines]
      exact ih

theorem placesOf_checkpoint (raws : List (List UInt8)) {block : Nat}
    (h : checkpointLines * block ≤ raws.length) (other : Nat) :
    (placesOf raws).checkpoints.getD block other = lineStart raws (checkpointLines * block) := by
  have hpos : 0 < checkpointLines := by decide
  have hlt : block < raws.length / checkpointLines + 1 := by
    rw [Nat.lt_succ_iff, Nat.le_div_iff_mul_le hpos, Nat.mul_comm]
    exact h
  unfold placesOf
  rw [List.getD_eq_getElem?_getD, List.getElem?_map, List.getElem?_range hlt]
  rfl

theorem placesOf_size (raws : List (List UInt8)) {block : Nat}
    (h : raws.length < checkpointLines * block) :
    (placesOf raws).checkpoints.getD block (placesOf raws).size =
      lineStart raws (checkpointLines * block) := by
  have hpos : 0 < checkpointLines := by decide
  have hle : raws.length / checkpointLines + 1 ≤ block := by
    rw [Nat.succ_le_iff, Nat.div_lt_iff_lt_mul hpos, Nat.mul_comm]
    exact h
  unfold placesOf lineStart
  dsimp only
  rw [List.getD_eq_getElem?_getD, List.getElem?_map,
    List.getElem?_eq_none (by rw [List.length_range]; exact hle), List.take_length,
    List.take_of_length_le h.le]
  rfl

theorem slice_of_blocks {start first last stop : Nat} (hfirst : start ≤ first)
    (hlast : first ≤ last) (hstop : last ≤ stop) :
    ((((raws.take stop).drop start).drop (first - start)).take (last - first)) =
      (raws.drop first).take (last - first) := by
  have hjoin : start + (first - start) = first := by omega
  rw [List.drop_drop, hjoin, List.drop_take, List.take_take]
  congr 1
  omega

theorem linesBetween_eq {α : Type} (lines : List α) (lo hi : Int) :
    linesBetween lines lo hi = (lines.drop ((max 1 lo).toNat - 1)).take
      ((min (lines.length : Int) hi).toNat + 1 - (max 1 lo).toNat) := by
  unfold linesBetween
  rw [List.take_eq_take_iff, List.length_drop]
  omega

/-- The bytes from the checkpoint before the range to the one after it are whole blocks of lines. -/
theorem block_bytes {index : StoredIndex} (hplaces : index.places = placesOf raws)
    (rest : List UInt8) {first last : Nat}
    (hfirst : 1 ≤ first) (horder : first ≤ last) (hlast : last ≤ raws.length) :
    let start := index.checkpoints.getD ((first - 1) / checkpointLines) 0
    let stop := index.checkpoints.getD (last / checkpointLines + 1) index.size
    ((joined newline raws ++ rest).drop start).take (stop - start) =
      joined newline ((raws.take (checkpointLines * (last / checkpointLines + 1))).drop
        (checkpointLines * ((first - 1) / checkpointLines))) := by
  intro start stop
  have hblock : checkpointLines = 512 := rfl
  have hcheckpoints : index.checkpoints = (placesOf raws).checkpoints :=
    congrArg Places.checkpoints hplaces
  have hsize : index.size = (placesOf raws).size := congrArg Places.size hplaces
  have hstart : start = lineStart raws (checkpointLines * ((first - 1) / checkpointLines)) := by
    show index.checkpoints.getD _ 0 = _
    rw [hcheckpoints]
    refine placesOf_checkpoint raws ?_ 0
    rw [hblock]
    omega
  have hstop : stop = lineStart raws (checkpointLines * (last / checkpointLines + 1)) := by
    show index.checkpoints.getD _ index.size = _
    rw [hcheckpoints, hsize]
    by_cases hinside : checkpointLines * (last / checkpointLines + 1) ≤ raws.length
    · exact placesOf_checkpoint raws hinside _
    · exact placesOf_size raws (by omega)
  rw [hstart, hstop]
  refine joined_slice raws rest ?_
  rw [hblock]
  omega

/-- An index of the lines of some bytes reads exactly these lines, however the file has grown. -/
theorem readRange_eq (b : Builtins) {index : StoredIndex} {xs : List UInt8}
    (hplaces : index.places = places (cut newline xs).lines) (more : List UInt8) (lo hi : Int) :
    readRange b (xs ++ more) index lo hi =
      (linesBetween (cut newline xs).raws lo hi).map b.utf8 := by
  rw [places_cut] at hplaces
  have hblock : checkpointLines = 512 := rfl
  have hbytes : xs ++ more =
      joined newline (cut newline xs).raws ++ ((cut newline xs).tail ++ more) := by
    rw [← List.append_assoc, joined_cut]
  have hfree : ∀ raw ∈ (cut newline xs).raws, ∀ x ∈ raw, x ≠ newline := cut_raws_free xs
  rw [hbytes, linesBetween_eq]
  generalize (cut newline xs).raws = raws at hplaces hfree
  generalize (cut newline xs).tail ++ more = rest
  have hlines : index.lines = raws.length := congrArg Places.lines hplaces
  unfold readRange
  rw [hlines]
  have hfirst : 1 ≤ (max 1 lo).toNat := by omega
  have hlast : (min (raws.length : Int) hi).toNat ≤ raws.length := by omega
  generalize (max 1 lo).toNat = first at hfirst
  generalize (min (raws.length : Int) hi).toNat = last at hlast
  dsimp only
  by_cases hempty : last < first ∨ raws.length = 0
  · rw [if_pos hempty]
    have hnone : last + 1 - first = 0 := by omega
    rw [hnone, List.take_zero, List.map_nil]
  · rw [if_neg hempty, block_bytes hplaces rest hfirst (by omega) hlast]
    rw [splitLines_joined fun raw hraw => hfree raw
      (List.mem_of_mem_take (List.mem_of_mem_drop hraw))]
    have hskip : first - ((first - 1) / checkpointLines * checkpointLines + 1) =
        first - 1 - checkpointLines * ((first - 1) / checkpointLines) := by
      rw [Nat.mul_comm]
      omega
    have hcount : last + 1 - first = last - (first - 1) := by omega
    rw [hskip, hcount, slice_of_blocks]
    · rw [hblock]
      omega
    · omega
    · rw [hblock]
      omega

section
variable {b : Builtins}

variable {index : StoredIndex} {pass : Pass}

theorem indexed_congr {given other : Line UInt8 → Bool} {facts : List UsageFact} {c : Cut UInt8}
    (h : Indexed b given index facts c)
    (hsame : ∀ line ∈ c.lines, given line = other line) : Indexed b other index facts c := by
  refine ⟨?_, h.places, h.skipping, h.pending, h.readOffset⟩
  rw [h.effects]
  unfold allEffects effects
  apply List.foldl_ext
  intro e line hline
  rw [hsame line hline]

variable (b) in
/-- The stored index counts the lines of the bytes it has read, whatever it gave up of them. -/
def Placed (w : World) : Prop := ∃ given, StoredIndexed b given w

theorem placed_empty : Placed b World.empty :=
  ⟨fun _ => false, fun _ hstored => nomatch hstored⟩

variable {w : World}

/-- A call on an index that it keeps adds its own verdicts to those behind the index. -/
theorem placed_kept (h : Placed b w)
    (hload : loadStored b w pass = some index) :
    ∃ given, StoredIndexed b given w ∧
      ∀ line : Line UInt8, (startIndex b w pass).readOffset ≤ line.stop →
        given line = givenUp (startIndex b w pass).readOffset line := by
  obtain ⟨given, hgiven⟩ := h
  have hstart : startIndex b w pass = index := by
    unfold startIndex
    rw [hload]
    rfl
  have hkept := (loadStored_some hload).1
  refine ⟨fun line =>
    if line.stop < index.readOffset then given line else givenUp index.readOffset line, ?_, ?_⟩
  · intro found hfound
    rw [hkept] at hfound
    obtain rfl := Option.some.inj hfound
    obtain ⟨hle, hindexed⟩ := hgiven index hkept
    refine ⟨hle, indexed_congr hindexed ?_⟩
    intro line hline
    have hstop := cut_stop_lt hline
    rw [List.length_take] at hstop
    rw [if_pos (by omega)]
  · intro line hline
    rw [hstart] at hline ⊢
    exact if_neg (by omega)

theorem advanced_unstored (hload : loadStored b w pass = none) :
    loadStored b { w with stored := none } pass = none ∧
      startIndex b { w with stored := none } pass = startIndex b w pass ∧
      advanced b { w with stored := none } pass = advanced b w pass ∧
      indexTranscript b { w with stored := none } pass = indexTranscript b w pass := by
  have hnone : loadStored b { w with stored := none } pass = none := rfl
  have hstart : startIndex b { w with stored := none } pass = startIndex b w pass := by
    unfold startIndex
    rw [hnone, hload]
  have hfacts : startFacts b { w with stored := none } pass = startFacts b w pass := by
    unfold startFacts
    rw [hnone, hload]
  have hadvanced : advanced b { w with stored := none } pass = advanced b w pass := by
    unfold Index.advanced stopOf
    rw [hstart, hfacts]
  refine ⟨hnone, hstart, hadvanced, ?_⟩
  unfold Index.indexTranscript
  rw [hadvanced, hstart, hnone, hload]
  rfl

/-- Any call counts the lines up to where it stops, and leaves an index that counts lines. -/
theorem Placed.call {w : World} (h : Placed b w) (pass : Pass) :
    (advanced b w pass).1.places =
        places (cut newline (w.content.take (stopOf b w pass))).lines ∧
      Placed b (indexTranscript b w pass) := by
  cases hload : loadStored b w pass with
  | some index =>
    obtain ⟨given, hindexed, hgiven⟩ := placed_kept h hload
    have hverdicts : ∀ line ∈ (cut newline (w.content.take (stopOf b w pass))).lines,
        (startIndex b w pass).readOffset ≤ line.stop →
          given line = givenUp (startIndex b w pass).readOffset line := fun line _ => hgiven line
    exact ⟨(hindexed.advanced hverdicts).2.2.places, given, hindexed.indexTranscript hverdicts⟩
  | none =>
    obtain ⟨_, hstart, hadvanced, hwritten⟩ := advanced_unstored hload
    have hstop : stopOf b { w with stored := none } pass = stopOf b w pass := by
      unfold stopOf
      rw [hstart]
    have hindexed : StoredIndexed b (givenUp 0) { w with stored := none } :=
      fun _ hstored => nomatch hstored
    have hoffset : (startIndex b w pass).readOffset = 0 := by
      unfold startIndex
      rw [hload]
      rfl
    have hverdicts : ∀ line ∈ (cut newline
        (w.content.take (stopOf b { w with stored := none } pass))).lines,
        (startIndex b { w with stored := none } pass).readOffset ≤ line.stop →
          givenUp 0 line =
            givenUp (startIndex b { w with stored := none } pass).readOffset line := by
      intro line _ _
      rw [hstart, hoffset]
    have hplaces := (hindexed.advanced hverdicts).2.2.places
    have hplaced := hindexed.indexTranscript hverdicts
    rw [hadvanced, hstop] at hplaces
    rw [hwritten] at hplaced
    exact ⟨hplaces, givenUp 0, hplaced⟩

theorem Placed.step {w next : World} {event : Event} (h : Placed b w)
    (hstep : step b w event = some next) : Placed b next := by
  cases event with
  | append bytes =>
    obtain rfl := Option.some.inj hstep
    obtain ⟨given, hindexed⟩ := h
    exact ⟨given, hindexed.append bytes⟩
  | index pass =>
    obtain rfl := Option.some.inj hstep
    exact (h.call pass).2
  | refused pass =>
    obtain rfl := Option.some.inj hstep
    exact h

theorem readRange_call {events : List Event} (hrun : run (Index.step b) World.empty events = some w)
    (pass : Pass) (more : List UInt8)
    (lo hi : Int) :
    readRange b (w.content ++ more) (advanced b w pass).1 lo hi =
      (linesBetween (cut newline (w.content.take (stopOf b w pass))).raws lo hi).map b.utf8 := by
  have hplaced : Placed b w := run_invariant (fun _ _ _ h hstep => h.step hstep) hrun placed_empty
  have hcontent : w.content ++ more =
      w.content.take (stopOf b w pass) ++ (w.content.drop (stopOf b w pass) ++ more) := by
    rw [← List.append_assoc, List.take_append_drop]
  rw [hcontent]
  exact readRange_eq b (hplaced.call pass).1 _ lo hi

theorem linesBetween_append {α : Type} (lines : List α) {lo mid hi : Int} (hlo : lo ≤ mid + 1)
    (hhi : mid ≤ hi) :
    linesBetween lines lo mid ++ linesBetween lines (mid + 1) hi = linesBetween lines lo hi := by
  unfold linesBetween
  have hplace : (max 1 (mid + 1)).toNat - 1 =
      (max 1 lo).toNat - 1 + (mid.toNat + 1 - (max 1 lo).toNat) := by omega
  have hcount : hi.toNat + 1 - (max 1 lo).toNat =
      mid.toNat + 1 - (max 1 lo).toNat + (hi.toNat + 1 - (max 1 (mid + 1)).toNat) := by omega
  rw [hplace, hcount, ← List.drop_drop, List.take_add]

/-- Whatever is appended between the reads, ranges that meet are read as the range they make up. -/
theorem ranges_meet {events : List Event} (hrun : run (Index.step b) World.empty events = some w)
    (pass : Pass) (early late whole : List UInt8) {lo mid hi : Int} (hlo : lo ≤ mid + 1)
    (hhi : mid ≤ hi) :
    readRange b (w.content ++ early) (advanced b w pass).1 lo mid ++
        readRange b (w.content ++ late) (advanced b w pass).1 (mid + 1) hi =
      readRange b (w.content ++ whole) (advanced b w pass).1 lo hi := by
  rw [readRange_call hrun, readRange_call hrun, readRange_call hrun, ← List.map_append,
    linesBetween_append _ hlo hhi]

end

theorem ranges_meet_small :
    ∃ w, run (Index.step (asciiBuiltins 5)) World.empty [.append (asciiBytes "a\nb\nc\n")] = some w ∧
      readRange (asciiBuiltins 5) (w.content ++ []) (advanced (asciiBuiltins 5) w wholePass).1 1 1 ++
          readRange (asciiBuiltins 5) (w.content ++ asciiBytes "d\n")
            (advanced (asciiBuiltins 5) w wholePass).1 2 3 =
        readRange (asciiBuiltins 5) (w.content ++ []) (advanced (asciiBuiltins 5) w wholePass).1 1 3 :=
  ⟨_, rfl, ranges_meet
    (show run _ _ [.append (asciiBytes "a\nb\nc\n")] = some ⟨_, none, []⟩ from rfl)
    wholePass [] (asciiBytes "d\n") [] (by decide) (by decide)⟩

end Ccmux.Transcript.Range
