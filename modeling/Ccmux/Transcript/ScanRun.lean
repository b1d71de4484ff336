/- Module: Ccmux/Transcript/ScanRun
   source: src/agent/transcript/transcriptIndex.ts (scanForward)
   digest: Where a scan stands in the bytes it has read, for every place it was cut at. -/

import Ccmux.Transcript.Effects

namespace Ccmux.Transcript.Scan

open Ccmux.Lib.Lines
open Ccmux.Transcript.Normalize
open Ccmux.Transcript.Stats
open Ccmux.Usage.Normalize
open Ccmux.Usage.Schema (UsageFact)

/-- The fields of an index that a scan does not write. -/
structure SameSource (index other : StoredIndex) : Prop where
  agent : index.agent = other.agent
  head : index.head = other.head
  identity : index.identity = other.identity

theorem SameSource.refl (index : StoredIndex) : SameSource index index := ⟨rfl, rfl, rfl⟩

theorem SameSource.trans {index other third : StoredIndex} (h : SameSource index other)
    (h' : SameSource other third) : SameSource index third :=
  ⟨h.agent.trans h'.agent, h.head.trans h'.head, h.identity.trans h'.identity⟩

/-- Whether a scan that started at the offset gives up the line: the last chunk end before its
newline lies more than the limit after its first byte. -/
def givenUp (offset : Nat) (line : Line UInt8) : Bool :=
  decide (line.start + recordLimit < offset + scanChunk * ((line.stop - offset) / scanChunk))

section
variable (b : Builtins)

/-- What the index comes to when the lines of the batch are read. -/
def settled (s : ScanState) : Effects :=
  s.batch.foldl (Effects.read b s.index.agent) (s.index.effects s.facts)

/-- The effects of all lines on an index that starts with the head as its epoch. -/
def allEffects (given : Line UInt8 → Bool) (file : StoredIndex) (lines : List (Line UInt8)) :
    Effects :=
  effects b file.agent given ⟨0, ⟨none, file.head⟩, emptyStats, []⟩ lines

/-- A scan within a chunk that starts at `chunkStart`, against the cut of the bytes read so far. -/
structure Scanning (given : Line UInt8 → Bool) (file : StoredIndex) (s : ScanState)
    (tail : List UInt8) (c : Cut UInt8) (chunkStart : Nat) : Prop where
  source : SameSource s.index file
  settled : settled b s = allEffects b given file c.lines
  places : s.index.places = places c.lines
  skipping : s.index.skipping = decide (c.start + recordLimit < chunkStart)
  held : s.index.skipping = false → s.pending ++ tail = c.tail ∧ s.pendingBytes = s.pending.length
  dropped : s.index.skipping = true → s.pending = []
  place : c.place = max chunkStart c.start + tail.length

variable {b}

theorem flush_settled (clock : Nat → String) (s : ScanState) :
    ∃ malformed context stats facts,
      flush b clock s =
        { s with index := { s.index with malformed, context, stats }, facts, batch := [] } ∧
      settled b s = ⟨malformed, context, stats, facts.map timeless⟩ := by
  unfold flush
  by_cases hbatch : s.batch = []
  · rw [if_pos hbatch]
    refine ⟨s.index.malformed, s.index.context, s.index.stats, s.facts, ?_, ?_⟩
    · rw [← hbatch]
    · simp [Scan.settled, hbatch, StoredIndex.effects]
  · rw [if_neg hbatch]
    obtain ⟨malformed, context, more, hparsed, hread⟩ := foldl_parseLine
      (clock s.index.lines) s.batch (rfl : s.index.agent = s.index.agent)
      (rfl : (s.index.effects s.facts).malformed = s.index.malformed) rfl rfl
    rw [hparsed]
    exact ⟨malformed, context, _, _, rfl, hread⟩

theorem takeLine_settled (s : ScanState) (tail : List UInt8) (lineEnd : Nat) :
    settled b (takeLine s tail lineEnd) =
      if s.index.skipping then (settled b s).skip
      else (settled b s).read b s.index.agent (s.pending ++ tail) := by
  by_cases hskip : s.index.skipping = true
  · have htaken : (takeLine s tail lineEnd).index.effects s.facts =
        (s.index.effects s.facts).skip := by
      simp [takeLine, hskip, StoredIndex.effects, Effects.skip]
    have hbatch : (takeLine s tail lineEnd).batch = s.batch := if_pos hskip
    rw [if_pos hskip]
    show (takeLine s tail lineEnd).batch.foldl (Effects.read b s.index.agent)
      ((takeLine s tail lineEnd).index.effects s.facts) = _
    rw [htaken, hbatch, Effects.foldl_skip]
    rfl
  · have htaken : (takeLine s tail lineEnd).index.effects s.facts = s.index.effects s.facts := by
      simp [takeLine, hskip, StoredIndex.effects]
    have hbatch : (takeLine s tail lineEnd).batch = s.batch ++ [s.pending ++ tail] := if_neg hskip
    rw [if_neg hskip]
    show (takeLine s tail lineEnd).batch.foldl (Effects.read b s.index.agent)
      ((takeLine s tail lineEnd).index.effects s.facts) = _
    rw [htaken, hbatch, List.foldl_append]
    rfl

theorem endLine_spec (clock : Nat → String) (s : ScanState) (tail : List UInt8) (lineEnd : Nat) :
    let ended := endLine b clock s tail lineEnd
    SameSource ended.index s.index ∧ ended.index.places = s.index.places.next lineEnd ∧
      ended.index.skipping = false ∧ ended.pending = [] ∧ ended.pendingBytes = 0 ∧
      settled b ended =
        if s.index.skipping then (settled b s).skip
        else (settled b s).read b s.index.agent (s.pending ++ tail) := by
  intro ended
  have hended : ended = if batchLines ≤ (takeLine s tail lineEnd).batch.length then
      flush b clock (takeLine s tail lineEnd) else takeLine s tail lineEnd := rfl
  by_cases hfull : batchLines ≤ (takeLine s tail lineEnd).batch.length
  · rw [if_pos hfull] at hended
    obtain ⟨malformed, context, stats, facts, hflush, hread⟩ :=
      flush_settled clock (takeLine s tail lineEnd)
    rw [hended, hflush]
    refine ⟨⟨rfl, rfl, rfl⟩, rfl, rfl, rfl, rfl, ?_⟩
    rw [← takeLine_settled s tail lineEnd, hread]
    rfl
  · rw [if_neg hfull] at hended
    rw [hended]
    exact ⟨⟨rfl, rfl, rfl⟩, rfl, rfl, rfl, rfl, takeLine_settled s tail lineEnd⟩

section
variable {given : Line UInt8 → Bool} {file : StoredIndex}

theorem allEffects_snoc (lines : List (Line UInt8)) (line : Line UInt8) :
    allEffects b given file (lines ++ [line]) =
      if given line then (allEffects b given file lines).skip
      else (allEffects b given file lines).read b file.agent line.raw := by
  simp [allEffects, effects, List.foldl_append]

theorem places_snoc (lines : List (Line UInt8)) (line : Line UInt8) :
    places (lines ++ [line]) = (places lines).next (line.stop + 1) := by
  simp [places, List.foldl_append]

variable {s : ScanState} {tail : List UInt8} {c : Cut UInt8} {chunkStart : Nat}
  {index : StoredIndex}

theorem Scanning.other {byte : UInt8} (h : Scanning b given file s tail c chunkStart)
    (hbyte : byte ≠ newline) :
    Scanning b given file s (tail ++ [byte]) (c.push newline byte) chunkStart := by
  rw [Cut.push_other hbyte]
  refine ⟨h.source, h.settled, h.places, h.skipping, ?_, h.dropped, ?_⟩
  · intro hskip
    obtain ⟨htail, hbytes⟩ := h.held hskip
    refine ⟨?_, hbytes⟩
    rw [← List.append_assoc, htail]
  · have hplace := h.place
    simp only [Cut.place, List.length_append, List.length_singleton] at hplace ⊢
    omega

/-- One newline; the line is given up exactly when the scan is skipping it. -/
theorem Scanning.newline (h : Scanning b given file s tail c chunkStart) (clock : Nat → String)
    (hgiven : given ⟨c.start, c.tail⟩ = decide (c.start + recordLimit < chunkStart)) :
    Scanning b given file (endLine b clock s tail (c.place + 1)) []
      (c.push newline newline) chunkStart := by
  rw [Cut.push_mark]
  obtain ⟨hsource, hplaces, hskipping, hpending, hbytes, hsettled⟩ :=
    endLine_spec clock s tail (c.place + 1)
  have hplace := h.place
  have hafter : chunkStart ≤ c.start + c.tail.length := by
    simp only [Cut.place] at hplace
    omega
  refine ⟨hsource.trans h.source, ?_, ?_, ?_, ?_, ?_, ?_⟩
  · rw [hsettled, allEffects_snoc, hgiven, h.settled, h.source.agent, h.skipping]
    by_cases hlong : c.start + recordLimit < chunkStart
    · rw [if_pos (decide_eq_true hlong), if_pos (decide_eq_true hlong)]
    · have hkept : s.index.skipping = false := by rw [h.skipping, decide_eq_false hlong]
      rw [if_neg (by simpa using hlong), if_neg (by simpa using hlong), (h.held hkept).1]
  · rw [hplaces, h.places, places_snoc]
    rfl
  · rw [hskipping]
    symm
    apply decide_eq_false
    show ¬ c.start + c.tail.length + 1 + recordLimit < chunkStart
    omega
  · intro _
    rw [hpending, hbytes]
    exact ⟨rfl, rfl⟩
  · intro _
    exact hpending
  · simp only [Cut.place, List.length_nil]
    omega

/-- The bytes of a chunk, when each line they end is given up exactly when it was too long at the
chunk's start. -/
theorem Scanning.bytes (clock : Nat → String) (bytes : List UInt8)
    (h : Scanning b given file s tail c chunkStart)
    (hgiven : ∀ line ∈ (bytes.foldl (Cut.push Scan.newline) c).lines, c.place ≤ line.stop →
      line.stop < c.place + bytes.length →
        given line = decide (line.start + recordLimit < chunkStart)) :
    Scanning b given file (scanBytes b clock s tail c.place bytes).1
      (scanBytes b clock s tail c.place bytes).2 (bytes.foldl (Cut.push Scan.newline) c)
      chunkStart := by
  induction bytes generalizing s tail c with
  | nil => exact h
  | cons byte bytes ih =>
    have hplace : (c.push Scan.newline byte).place = c.place + 1 := Cut.place_push c byte
    have hlater : ∀ line ∈ (bytes.foldl (Cut.push Scan.newline) (c.push Scan.newline byte)).lines,
        (c.push Scan.newline byte).place ≤ line.stop →
          line.stop < (c.push Scan.newline byte).place + bytes.length →
            given line = decide (line.start + recordLimit < chunkStart) := by
      intro line hline hstop hend
      rw [hplace] at hstop hend
      apply hgiven line hline (by omega)
      rw [List.length_cons]
      omega
    rw [List.foldl_cons]
    by_cases hbyte : byte = Scan.newline
    · subst hbyte
      have hended : given ⟨c.start, c.tail⟩ = decide (c.start + recordLimit < chunkStart) := by
        apply hgiven ⟨c.start, c.tail⟩
        · obtain ⟨more, hlines, _⟩ :=
            Cut.lines_foldl Scan.newline (c.push Scan.newline Scan.newline) bytes
          rw [List.foldl_cons, hlines, Cut.push_mark]
          simp
        · exact le_refl _
        · show c.place < c.place + (bytes.length + 1)
          omega
      have hnext := ih (h.newline clock hended) hlater
      rw [hplace] at hnext
      rw [scanBytes, if_pos rfl]
      exact hnext
    · have hnext := ih (h.other hbyte) hlater
      rw [hplace] at hnext
      rw [scanBytes, if_neg hbyte]
      exact hnext

/-- At the end of a chunk what is left is held, or given up once it is too long. -/
theorem Scanning.endChunk (h : Scanning b given file s tail c chunkStart) :
    Scanning b given file (endChunk s tail) [] c c.place := by
  have hplace := h.place
  have hwhole : c.place = max c.place c.start + ([] : List UInt8).length := by
    simp [Cut.place]
  unfold Scan.endChunk
  by_cases hleft : tail ≠ [] ∧ s.index.skipping = false
  · rw [if_pos hleft]
    obtain ⟨htail, hbytes⟩ := h.held hleft.2
    have hlength : s.pendingBytes + tail.length = c.tail.length := by
      rw [hbytes, ← htail, List.length_append]
    by_cases hlong : recordLimit < s.pendingBytes + tail.length
    · rw [if_pos hlong]
      refine ⟨⟨h.source.agent, h.source.head, h.source.identity⟩, h.settled, h.places, ?_, ?_, fun _ => rfl, hwhole⟩
      · symm
        apply decide_eq_true
        simp only [Cut.place]
        omega
      · intro hkept
        cases hkept
    · rw [if_neg hlong]
      refine ⟨h.source, ?_, h.places, ?_, ?_, ?_, hwhole⟩
      · exact h.settled
      · have hshort : ¬ c.start + recordLimit < c.place := by
          simp only [Cut.place]
          omega
        show s.index.skipping = _
        rw [hleft.2, decide_eq_false hshort]
      · intro _
        refine ⟨by simpa using htail, ?_⟩
        simp only [List.length_append]
        omega
      · intro hskip
        have hkept : s.index.skipping = true := hskip
        rw [hleft.2] at hkept
        cases hkept
  · rw [if_neg hleft]
    have hskipping : s.index.skipping = decide (c.start + recordLimit < c.place) := by
      by_cases hskip : s.index.skipping = true
      · have hlong : c.start + recordLimit < chunkStart := by
          rw [h.skipping] at hskip
          exact of_decide_eq_true hskip
        rw [hskip]
        symm
        apply decide_eq_true
        omega
      · have hkept : s.index.skipping = false := by simpa using hskip
        have hnone : tail = [] := by
          by_contra hsome
          exact hleft ⟨hsome, hkept⟩
        have hshort : ¬ c.start + recordLimit < chunkStart := by
          have hnot := h.skipping
          rw [hkept] at hnot
          exact of_decide_eq_false hnot.symm
        rw [hnone, List.length_nil] at hplace
        rw [hkept]
        symm
        apply decide_eq_false
        omega
    refine ⟨h.source, h.settled, h.places, hskipping, ?_, h.dropped, hwhole⟩
    intro hkept
    obtain ⟨htail, hbytes⟩ := h.held hkept
    have hnone : tail = [] := by
      by_contra hsome
      exact hleft ⟨hsome, hkept⟩
    rw [hnone] at htail
    exact ⟨htail, hbytes⟩

variable {offset : Nat} {line : Line UInt8} {facts : List UsageFact}

theorem givenUp_next (h : offset + scanChunk ≤ line.stop) :
    givenUp (offset + scanChunk) line = givenUp offset line := by
  have hpos : 0 < scanChunk := by decide
  obtain ⟨past, hpast⟩ := Nat.exists_eq_add_of_le h
  have hhere : line.stop - offset = past + scanChunk := by omega
  have hthere : line.stop - (offset + scanChunk) = past := by omega
  have hstep : scanChunk * (past / scanChunk + 1) = scanChunk * (past / scanChunk) + scanChunk :=
    Nat.mul_succ _ _
  have hsum : offset + scanChunk + scanChunk * (past / scanChunk) =
      offset + (scanChunk * (past / scanChunk) + scanChunk) := by omega
  unfold givenUp
  rw [hhere, hthere, Nat.add_div_right past hpos, hstep, hsum]

theorem givenUp_first (h : line.stop < offset + scanChunk) :
    givenUp offset line = decide (line.start + recordLimit < offset) := by
  have hpos : 0 < scanChunk := by decide
  have hzero : (line.stop - offset) / scanChunk = 0 := by
    apply Nat.div_eq_of_lt
    omega
  unfold givenUp
  rw [hzero, Nat.mul_zero, Nat.add_zero]

/-- The chunks of a scan, when each line they end is given up by the rule of chunk ends. -/
theorem Scanning.chunks (clock : Nat → String) (bytes : List UInt8)
    (h : Scanning b given file s [] c c.place)
    (hgiven : ∀ line ∈ (bytes.foldl (Cut.push Scan.newline) c).lines, c.place ≤ line.stop →
      line.stop < c.place + bytes.length → given line = givenUp c.place line) :
    Scanning b given file (scanChunks b clock s c.place bytes) []
      (bytes.foldl (Cut.push Scan.newline) c) (c.place + bytes.length) := by
  induction hn : bytes.length using Nat.strong_induction_on generalizing s c bytes with
  | _ n ih =>
    rw [scanChunks]
    by_cases hempty : bytes = []
    · rw [dif_pos hempty, ← hn]
      subst hempty
      exact h
    · rw [dif_neg hempty]
      have hpos : 0 < bytes.length := List.length_pos_iff.mpr hempty
      have hsize : 0 < scanChunk := by decide
      let chunk := bytes.take scanChunk
      let rest := bytes.drop scanChunk
      let next := chunk.foldl (Cut.push Scan.newline) c
      have hsplit : bytes = chunk ++ rest := (List.take_append_drop scanChunk bytes).symm
      have hplace : next.place = c.place + chunk.length := Cut.place_foldl Scan.newline c chunk
      have hwhole : bytes.foldl (Cut.push Scan.newline) c =
          rest.foldl (Cut.push Scan.newline) next := by
        rw [hsplit, List.foldl_append]
      obtain ⟨more, hlines, _⟩ := Cut.lines_foldl Scan.newline next rest
      have hchunk : chunk.length = min scanChunk bytes.length := List.length_take
      have hrest : rest.length = bytes.length - scanChunk := List.length_drop
      have hfirst : ∀ line ∈ next.lines, c.place ≤ line.stop →
          line.stop < c.place + chunk.length →
            given line = decide (line.start + recordLimit < c.place) := by
        intro line hline hstop hend
        rw [← givenUp_first (by omega)]
        apply hgiven line ?_ hstop (by omega)
        rw [hwhole, hlines]
        exact List.mem_append_left _ hline
      have hlater : ∀ line ∈ (rest.foldl (Cut.push Scan.newline) next).lines,
          next.place ≤ line.stop → line.stop < next.place + rest.length →
            given line = givenUp next.place line := by
        intro line hline hstop hend
        have hfull : chunk.length = scanChunk := by omega
        rw [hplace, hfull] at hstop hend ⊢
        rw [givenUp_next hstop]
        rw [hwhole] at hgiven
        exact hgiven line hline (by omega) (by omega)
      have hscanned := (Scanning.bytes clock chunk h hfirst).endChunk
      have hdone := ih rest.length (by omega) rest hscanned hlater rfl
      rw [hwhole]
      have hend : c.place + n = next.place + rest.length := by omega
      rw [hend]
      rw [hplace] at hdone ⊢
      exact hdone

variable (b) in
/-- The index and its facts are those of the lines that the bytes before its offset were cut into. -/
structure Indexed (given : Line UInt8 → Bool) (index : StoredIndex) (facts : List UsageFact)
    (c : Cut UInt8) : Prop where
  effects : index.effects facts = allEffects b given index c.lines
  places : index.places = places c.lines
  skipping : index.skipping = decide (c.start + recordLimit < c.place)
  pending : index.pending = if index.skipping then [] else c.tail
  readOffset : index.readOffset = c.place

theorem SameSource.allEffects (h : SameSource index file)
    (lines : List (Line UInt8)) : allEffects b given index lines = allEffects b given file lines := by
  unfold Scan.allEffects
  rw [h.agent, h.head]

theorem Indexed.scanning (h : Indexed b given index facts c) :
    Scanning b given index ⟨index, facts, index.pending, index.pending.length, []⟩ [] c c.place := by
  refine ⟨SameSource.refl index, h.effects, h.places, h.skipping, ?_, ?_, ?_⟩
  · intro hkept
    have hpending := h.pending
    rw [if_neg (by simpa using hkept)] at hpending
    exact ⟨by simpa using hpending, rfl⟩
  · intro hskip
    have hpending := h.pending
    rwa [if_pos hskip] at hpending
  · simp [Cut.place]

/-- A scan takes an index of the lines before its offset to the index of the lines before the stop,
when the lines it ends are given up by the rule of its chunk ends. -/
theorem Indexed.scanForward {content : List UInt8} {stop : Nat} (clock : Nat → String)
    (h : Indexed b given index facts (cut Scan.newline (content.take index.readOffset)))
    (hle : index.readOffset ≤ stop) (hstop : stop ≤ content.length)
    (hgiven : ∀ line ∈ (cut Scan.newline (content.take stop)).lines,
      index.readOffset ≤ line.stop → given line = givenUp index.readOffset line) :
    let scanned := scanForward b clock index facts content stop
    Indexed b given scanned.1 scanned.2 (cut Scan.newline (content.take stop)) ∧
      SameSource scanned.1 index ∧ scanned.1.readOffset = stop := by
  intro scanned
  let bytes := (content.take stop).drop index.readOffset
  let c := cut Scan.newline (content.take index.readOffset)
  have hplace : c.place = index.readOffset := h.readOffset.symm
  have hjoin : content.take stop = content.take index.readOffset ++ bytes := by
    have hsplit := (List.take_append_drop index.readOffset (content.take stop)).symm
    rwa [List.take_take, min_eq_left hle] at hsplit
  have hcut : cut Scan.newline (content.take stop) = bytes.foldl (Cut.push Scan.newline) c := by
    rw [hjoin, cut_append]
  have hlength : index.readOffset + bytes.length = stop := by
    simp only [bytes, List.length_drop, List.length_take]
    omega
  rw [hcut] at hgiven ⊢
  have hchunks := Scanning.chunks clock bytes h.scanning (by
    intro line hline hstart _
    rw [hplace] at hstart ⊢
    exact hgiven line hline hstart)
  rw [hplace, hlength] at hchunks
  let start : ScanState := ⟨index, facts, index.pending, index.pending.length, []⟩
  let last := scanChunks b clock start index.readOffset bytes
  obtain ⟨malformed, context, stats, put, hflush, hread⟩ := flush_settled clock last
  have hend : (bytes.foldl (Cut.push Scan.newline) c).place = stop := by
    rw [← hcut, cut_place, List.length_take, min_eq_left hstop]
  let parsed : StoredIndex := { last.index with malformed, context, stats }
  let offset := index.readOffset + bytes.length
  have hscanned : scanned =
      ({ parsed with readOffset := offset, pending := last.pending }, put) := by
    let flushed := flush b clock last
    show ({ flushed.index with readOffset := offset, pending := flushed.pending }, flushed.facts) = _
    rw [show flushed = _ from hflush]
  have hsource : SameSource scanned.1 index := by
    rw [hscanned]
    exact ⟨hchunks.source.agent, hchunks.source.head, hchunks.source.identity⟩
  refine ⟨⟨?_, ?_, ?_, ?_, ?_⟩, hsource, ?_⟩
  · rw [hsource.allEffects, ← hchunks.settled, hscanned]
    exact hread.symm
  · rw [← hchunks.places, hscanned]
    rfl
  · rw [hend, hscanned]
    exact hchunks.skipping
  · rw [hscanned]
    show last.pending = if last.index.skipping then [] else _
    by_cases hskip : last.index.skipping = true
    · rw [if_pos hskip]
      exact hchunks.dropped hskip
    · rw [if_neg hskip]
      have hkept := (hchunks.held (by simpa using hskip)).1
      simpa using hkept
  · rw [hend, hscanned]
    exact hlength
  · rw [hscanned]
    exact hlength

end

end

end Ccmux.Transcript.Scan
