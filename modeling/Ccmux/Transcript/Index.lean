/- Module: Ccmux/Transcript/Index
   source: src/agent/transcript/transcriptIndex.ts (loadStored, indexTranscript)
   digest: An index kept over a growing transcript against one scan of the same bytes. -/

import Ccmux.Lib.Machine
import Ccmux.Transcript.ScanRun

namespace Ccmux.Transcript.Index

open Ccmux.Lib.Lines
open Ccmux.Lib.Machine
open Ccmux.Transcript.Normalize
open Ccmux.Transcript.Scan
open Ccmux.Transcript.Stats
open Ccmux.Usage.Normalize
open Ccmux.Usage.Schema (UsageFact)

/-- How much of the head identifies the file. -/
def headBytes : Nat := 4096

/-- The transcript, and its index store: the row `index` and the facts put since the last reset. -/
structure World where
  content : List UInt8
  stored : Option StoredIndex
  facts : List UsageFact

def World.empty : World := ⟨[], none, []⟩

/-- One call: who asks, what `fstat` says of the file, and the clock by the lines read so far. -/
structure Pass where
  agent : TranscriptRuntime
  identity : String
  mtime : Nat
  maxBytes : Nat
  clock : Nat → String
  now : String

section
variable (b : Builtins)

def headDigest (content : List UInt8) : String := b.sha256 (content.take headBytes)

/-- The stored index, unless it is of another file or another runtime's. -/
def loadStored (w : World) (pass : Pass) : Option StoredIndex :=
  w.stored.filter fun stored =>
    decide (stored.agent = pass.agent ∧ stored.head = headDigest b w.content ∧
      stored.readOffset ≤ w.content.length ∧ stored.identity = pass.identity ∧
      ¬ (stored.observedSize = w.content.length ∧ stored.mtime ≠ pass.mtime))

def freshIndex (agent : TranscriptRuntime) (head identity : String) (mtime observedSize : Nat)
    (now : String) : StoredIndex :=
  { agent, head, identity, mtime
    observedAt := now
    observedSize
    readOffset := 0
    pending := []
    skipping := false
    malformed := 0
    context := ⟨none, head⟩
    size := 0
    lines := 0
    checkpoints := [0]
    stats := emptyStats }

def startIndex (w : World) (pass : Pass) : StoredIndex :=
  (loadStored b w pass).getD
    (freshIndex pass.agent (headDigest b w.content) pass.identity pass.mtime w.content.length
      pass.now)

/-- A call that finds no index of this file resets the store. -/
def startFacts (w : World) (pass : Pass) : List UsageFact :=
  if (loadStored b w pass).isSome then w.facts else []

def stopOf (w : World) (pass : Pass) : Nat :=
  min w.content.length ((startIndex b w pass).readOffset + pass.maxBytes)

/-- The index and the facts after the scan of a call. -/
def advanced (w : World) (pass : Pass) : StoredIndex × List UsageFact :=
  let index := startIndex b w pass
  if index.readOffset < w.content.length then
    scanForward b pass.clock index (startFacts b w pass) w.content (stopOf b w pass)
  else (index, startFacts b w pass)

/-- One transaction; the row is written when the index is new or has moved. -/
def indexTranscript (w : World) (pass : Pass) : World :=
  let scanned := advanced b w pass
  let written : StoredIndex :=
    { scanned.1 with
      observedSize := w.content.length
      mtime := pass.mtime
      observedAt := pass.now }
  { content := w.content
    stored :=
      if (loadStored b w pass).isNone ∨ scanned.1.readOffset ≠ (startIndex b w pass).readOffset then
        some written
      else w.stored
    facts := scanned.2 }

/-- The transcript grows, or its index is brought forward. A call that throws, or that finds the
write lock taken, leaves the store as it was. -/
inductive Event where
  | append (bytes : List UInt8)
  | index (pass : Pass)
  | refused (pass : Pass)

def step (w : World) : Event → Option World
  | .append bytes => some { w with content := w.content ++ bytes }
  | .index pass => some (indexTranscript b w pass)
  | .refused _ => some w

/-- One scan of the bytes the index has read, from offset 0. -/
def oneScan (clock : Nat → String) (index : StoredIndex) (content : List UInt8) :
    StoredIndex × List UsageFact :=
  scanForward b clock
    (freshIndex index.agent index.head index.identity index.mtime index.observedSize
      index.observedAt) [] content index.readOffset

/-- The records a call completes are given up by it exactly when one scan from offset 0 gives them
up. -/
def SameVerdicts (w : World) : Event → Prop
  | .index pass => ∀ line ∈ (cut newline (w.content.take (stopOf b w pass))).lines,
      (startIndex b w pass).readOffset ≤ line.stop →
        givenUp 0 line = givenUp (startIndex b w pass).readOffset line
  | .append _ => True
  | .refused _ => True

/-- Two indexes with the same state, and facts that differ by the time they were observed at. -/
structure SameIndex (index : StoredIndex) (facts : List UsageFact)
    (other : StoredIndex × List UsageFact) : Prop where
  lines : index.lines = other.1.lines
  size : index.size = other.1.size
  checkpoints : index.checkpoints = other.1.checkpoints
  malformed : index.malformed = other.1.malformed
  skipping : index.skipping = other.1.skipping
  pending : index.pending = other.1.pending
  readOffset : index.readOffset = other.1.readOffset
  stats : index.stats = other.1.stats
  context : index.context = other.1.context
  facts : facts.map timeless = other.2.map timeless

variable {b} {given : Line UInt8 → Bool}

theorem Indexed.fresh (agent : TranscriptRuntime) (head identity : String)
    (mtime observedSize : Nat) (now : String) :
    Indexed b given (freshIndex agent head identity mtime observedSize now) [] Cut.empty := by
  refine ⟨rfl, rfl, ?_, rfl, rfl⟩
  simp [freshIndex, Cut.empty, Cut.place]

variable {index : StoredIndex} {event : Event}

theorem Indexed.same {facts : List UsageFact} {other : StoredIndex × List UsageFact} {c : Cut UInt8}
    (h : Indexed b given index facts c)
    (h' : Indexed b given other.1 other.2 c) (hsource : SameSource index other.1) :
    SameIndex index facts other := by
  have heffects : index.effects facts = other.1.effects other.2 := by
    rw [h.effects, h'.effects, hsource.allEffects]
  have hplaces : index.places = other.1.places := by rw [h.places, h'.places]
  have hskipping : index.skipping = other.1.skipping := by rw [h.skipping, h'.skipping]
  refine ⟨?_, ?_, ?_, ?_, hskipping, ?_, ?_, ?_, ?_, ?_⟩
  · exact congrArg Places.lines hplaces
  · exact congrArg Places.size hplaces
  · exact congrArg Places.checkpoints hplaces
  · exact congrArg Effects.malformed heffects
  · rw [h.pending, h'.pending, hskipping]
  · rw [h.readOffset, h'.readOffset]
  · exact congrArg Effects.stats heffects
  · exact congrArg Effects.context heffects
  · exact congrArg Effects.facts heffects

variable (b given) in
/-- The stored index is that of the lines of the bytes it has read. -/
def StoredIndexed (w : World) : Prop :=
  ∀ index, w.stored = some index → index.readOffset ≤ w.content.length ∧
    Indexed b given index w.facts (cut newline (w.content.take index.readOffset))

variable {w : World} {pass : Pass}

theorem loadStored_some (h : loadStored b w pass = some index) :
    w.stored = some index ∧ index.readOffset ≤ w.content.length := by
  obtain ⟨hstored, hmatch⟩ := Option.filter_eq_some_iff.mp h
  exact ⟨hstored, (of_decide_eq_true hmatch).2.2.1⟩

theorem StoredIndexed.start (h : StoredIndexed b given w) (pass : Pass) :
    (startIndex b w pass).readOffset ≤ w.content.length ∧
      Indexed b given (startIndex b w pass) (startFacts b w pass)
        (cut newline (w.content.take (startIndex b w pass).readOffset)) := by
  unfold startIndex startFacts
  cases hload : loadStored b w pass with
  | none => exact ⟨Nat.zero_le _, Indexed.fresh _ _ _ _ _ _⟩
  | some index =>
    obtain ⟨hstored, hle⟩ := loadStored_some hload
    exact ⟨hle, (h index hstored).2⟩

theorem StoredIndexed.advanced (h : StoredIndexed b given w)
    (hgiven : ∀ line ∈ (cut newline (w.content.take (stopOf b w pass))).lines,
      (startIndex b w pass).readOffset ≤ line.stop →
        given line = givenUp (startIndex b w pass).readOffset line) :
    let scanned := advanced b w pass
    scanned.1.readOffset = stopOf b w pass ∧ SameSource scanned.1 (startIndex b w pass) ∧
      Indexed b given scanned.1 scanned.2
        (cut newline (w.content.take (stopOf b w pass))) := by
  obtain ⟨hle, hindexed⟩ := h.start pass
  have hstop : stopOf b w pass ≤ w.content.length := min_le_left _ _
  have hafter : (startIndex b w pass).readOffset ≤ stopOf b w pass := by
    unfold stopOf
    omega
  unfold Index.advanced
  by_cases hmore : (startIndex b w pass).readOffset < w.content.length
  · rw [if_pos hmore]
    obtain ⟨hresult, hsource, hoffset⟩ := hindexed.scanForward pass.clock hafter hstop hgiven
    exact ⟨hoffset, hsource, hresult⟩
  · rw [if_neg hmore]
    have hsame : stopOf b w pass = (startIndex b w pass).readOffset := by omega
    rw [hsame]
    exact ⟨rfl, SameSource.refl _, hindexed⟩

theorem indexTranscript_content (w : World) (pass : Pass) :
    (indexTranscript b w pass).content = w.content := rfl

theorem indexTranscript_facts (w : World) (pass : Pass) :
    (indexTranscript b w pass).facts = (Index.advanced b w pass).2 := rfl

/-- What a call leaves in the store. -/
theorem indexTranscript_stored (w : World) (pass : Pass) :
    ∃ index, (indexTranscript b w pass).stored = some index ∧
      ((index = { (advanced b w pass).1 with
        observedSize := w.content.length, mtime := pass.mtime, observedAt := pass.now }) ∨
      (loadStored b w pass = some index ∧
        (advanced b w pass).1.readOffset = index.readOffset)) := by
  unfold indexTranscript
  dsimp only
  by_cases hwrite : (loadStored b w pass).isNone ∨
      (advanced b w pass).1.readOffset ≠ (startIndex b w pass).readOffset
  · rw [if_pos hwrite]
    exact ⟨_, rfl, Or.inl rfl⟩
  · rw [if_neg hwrite]
    obtain ⟨hsome, hsame⟩ := not_or.mp hwrite
    cases hload : loadStored b w pass with
    | none =>
      rw [hload] at hsome
      exact absurd rfl hsome
    | some index =>
      have hstart : startIndex b w pass = index := by
        unfold startIndex
        rw [hload]
        rfl
      have hoffset : (advanced b w pass).1.readOffset = index.readOffset := by
        rw [← hstart]
        exact not_not.mp hsame
      exact ⟨index, (loadStored_some hload).1, Or.inr ⟨rfl, hoffset⟩⟩

/-- A call whose verdicts are the given ones leaves an index of the given ones. -/
theorem StoredIndexed.indexTranscript (h : StoredIndexed b given w)
    (hgiven : ∀ line ∈ (cut newline (w.content.take (stopOf b w pass))).lines,
      (startIndex b w pass).readOffset ≤ line.stop →
        given line = givenUp (startIndex b w pass).readOffset line) :
    StoredIndexed b given (indexTranscript b w pass) := by
  intro index hstored
  obtain ⟨hoffset, hsource, hindexed⟩ := h.advanced hgiven
  have hstop : stopOf b w pass ≤ w.content.length := min_le_left _ _
  obtain ⟨found, hfound, hcase⟩ := indexTranscript_stored (b := b) w pass
  rw [hstored] at hfound
  obtain rfl := Option.some.inj hfound
  rw [indexTranscript_content, indexTranscript_facts]
  -- only what the scan was shown to leave counts from here on
  generalize Index.advanced b w pass = scanned at *
  rcases hcase with rfl | ⟨hload, hsame⟩
  · show scanned.1.readOffset ≤ _ ∧
      Indexed b given _ _ (cut newline (w.content.take scanned.1.readOffset))
    rw [hoffset]
    refine ⟨hstop, ?_⟩
    exact ⟨hindexed.effects, hindexed.places, hindexed.skipping, hindexed.pending,
      hindexed.readOffset⟩
  · -- nothing was read: the facts of the scan are those the kept index stands for
    have hkept := h index (loadStored_some hload).1
    have hstart : startIndex b w pass = index := by
      unfold startIndex
      rw [hload]
      rfl
    rw [hoffset] at hsame
    rw [hsame] at hindexed
    rw [hstart] at hsource
    have heffects : scanned.1.effects scanned.2 = index.effects w.facts := by
      rw [hindexed.effects, hkept.2.effects, hsource.allEffects]
    have hfacts : scanned.2.map timeless = w.facts.map timeless :=
      congrArg Effects.facts heffects
    refine ⟨hkept.1, ⟨?_, hkept.2.places, hkept.2.skipping, hkept.2.pending, hkept.2.readOffset⟩⟩
    rw [← hkept.2.effects]
    unfold StoredIndex.effects
    rw [hfacts]

theorem StoredIndexed.append (h : StoredIndexed b given w) (bytes : List UInt8) :
    StoredIndexed b given { w with content := w.content ++ bytes } := by
  intro index hstored
  obtain ⟨hle, hindexed⟩ := h index hstored
  refine ⟨?_, ?_⟩
  · rw [List.length_append]
    omega
  · rw [List.take_append_of_le_length hle]
    exact hindexed

theorem StoredIndexed.step {w next : World} {event : Event}
    (h : StoredIndexed b (givenUp 0) w) (hverdicts : SameVerdicts b w event)
    (hstep : step b w event = some next) : StoredIndexed b (givenUp 0) next := by
  cases event with
  | append bytes =>
    obtain rfl := Option.some.inj hstep
    exact h.append bytes
  | index pass =>
    obtain rfl := Option.some.inj hstep
    exact h.indexTranscript hverdicts
  | refused pass =>
    obtain rfl := Option.some.inj hstep
    exact h

theorem oneScan_indexed (clock : Nat → String) (index : StoredIndex) {content : List UInt8}
    (hle : index.readOffset ≤ content.length) :
    Indexed b (givenUp 0) (oneScan b clock index content).1 (oneScan b clock index content).2
        (cut newline (content.take index.readOffset)) ∧
      SameSource (oneScan b clock index content).1 index := by
  have hfresh : Indexed b (givenUp 0)
      (freshIndex index.agent index.head index.identity index.mtime index.observedSize
        index.observedAt) [] (cut newline (content.take 0)) := Indexed.fresh _ _ _ _ _ _
  obtain ⟨hindexed, hsource, _⟩ :=
    hfresh.scanForward clock (Nat.zero_le _) hle (fun line _ _ => rfl)
  exact ⟨hindexed, hsource.trans ⟨rfl, rfl, rfl⟩⟩

/-- In a run whose calls give up the records that one scan gives up, the stored index is at every
moment the one that one scan of the same bytes gives. -/
theorem index_matches_one_scan {events : List Event} {w : World} {index : StoredIndex}
    (hrun : run (Index.step b) World.empty events = some w)
    (hall : Along (Index.step b) (SameVerdicts b) World.empty events)
    (hstored : w.stored = some index) (clock : Nat → String) :
    SameIndex index w.facts (oneScan b clock index w.content) := by
  have hempty : StoredIndexed b (givenUp 0) World.empty := by
    intro index hnone
    cases hnone
  have hindexed : StoredIndexed b (givenUp 0) w :=
    run_invariant_along (fun _ _ _ h hverdicts hstep => h.step hverdicts hstep) hrun hall hempty
  obtain ⟨hle, hkept⟩ := hindexed index hstored
  obtain ⟨hone, hsource⟩ := oneScan_indexed clock index hle
  exact Indexed.same hkept hone ⟨hsource.agent.symm, hsource.head.symm, hsource.identity.symm⟩

theorem givenUp_short {offset : Nat} {line : Line UInt8} (hstart : offset ≤ line.stop)
    (hshort : line.raw.length ≤ recordLimit) : givenUp offset line = false := by
  have hbound : scanChunk * ((line.stop - offset) / scanChunk) ≤ line.stop - offset :=
    Nat.mul_div_le _ _
  have hstop : line.stop = line.start + line.raw.length := rfl
  unfold givenUp
  apply decide_eq_false
  omega

theorem sameVerdicts_short (hshort : ∀ n, ∀ line ∈ (cut newline (w.content.take n)).lines,
      line.raw.length ≤ recordLimit) : SameVerdicts b w event := by
  cases event with
  | append bytes => trivial
  | refused pass => trivial
  | index pass =>
    intro line hline hstart
    have hlength := hshort _ line hline
    rw [givenUp_short (Nat.zero_le _) hlength, givenUp_short hstart hlength]

theorem sameVerdicts_small (hsmall : w.content.length ≤ recordLimit) :
    SameVerdicts b w event := by
  apply sameVerdicts_short
  intro n line hline
  have hraw := cut_raw_le hline
  rw [List.length_take] at hraw
  omega

end

def asciiBytes (text : String) : List UInt8 := text.toList.map fun c => c.toNat.toUInt8

def asciiText (bytes : List UInt8) : String := String.ofList (bytes.map fun x => Char.ofNat x.toNat)

/-- The record of a tool call, around its arguments. -/
def callOpening : List UInt8 := asciiBytes
  "\x7b\"type\":\"response_item\",\"payload\":\x7b\"type\":\"function_call\",\"arguments\":\""

def callClosing : List UInt8 := asciiBytes "\"\x7d\x7d"

/-- A tool call with that many bytes of arguments. -/
def callRecord (filler : Nat) : List UInt8 :=
  callOpening ++ List.replicate filler 120 ++ callClosing

def callJson (filler : Nat) : Json :=
  .obj [("type", .str "response_item"), ("payload", .obj [("type", .str "function_call"),
    ("arguments", .str (asciiText (List.replicate filler 120)))])]

/-- The language's functions on that record. -/
def asciiBuiltins (filler : Nat) : Builtins where
  utf8 := asciiText
  isBlank text := text.toList.all Char.isWhitespace
  parseJson text := if text = asciiText (callRecord filler) then some (callJson filler) else none
  isoTime _ := none
  isDatetime _ := false
  numberText _ := "0"
  sha256 _ := "0123456789abcdef"
  usageId _ _ _ := "0123456789abcdef"

theorem asciiBuiltins_isBlank (filler : Nat) (text : String) :
    (asciiBuiltins filler).isBlank text = text.toList.all Char.isWhitespace := rfl

def wholePass : Pass := ⟨.codex, "1:2", 0, 9007199254740991, fun _ => "2026-01-01T10:00:00.000Z",
  "2026-01-01T10:00:00.000Z"⟩

/-- A record is appended in two parts, each followed by a call. -/
def splitRecord (bytes : List UInt8) : List Event :=
  [.append bytes, .index wholePass, .append [newline], .index wholePass]

theorem index_matches_one_scan_split :
    ∃ w index, run (step (asciiBuiltins 5)) World.empty (splitRecord (callRecord 5)) = some w ∧
      w.stored = some index ∧ ∀ clock, SameIndex index w.facts (oneScan (asciiBuiltins 5) clock
        index w.content) := by
  let small : World := ⟨callRecord 5, none, []⟩
  let first := indexTranscript (asciiBuiltins 5) small wholePass
  let grown : World := { first with content := first.content ++ [newline] }
  have hrun : run (step (asciiBuiltins 5)) World.empty (splitRecord (callRecord 5)) =
      some (indexTranscript (asciiBuiltins 5) grown wholePass) := rfl
  obtain ⟨index, hstored, _⟩ := indexTranscript_stored (b := asciiBuiltins 5) grown wholePass
  refine ⟨_, index, hrun, hstored, index_matches_one_scan hrun ?_ hstored⟩
  refine ⟨trivial, fun t ht => ?_⟩
  obtain rfl := Option.some.inj ht
  refine ⟨sameVerdicts_small (by decide), fun t ht => ?_⟩
  obtain rfl := Option.some.inj ht
  refine ⟨trivial, fun t ht => ?_⟩
  obtain rfl := Option.some.inj ht
  refine ⟨sameVerdicts_small (by decide), fun _ _ => trivial⟩

theorem callRecord_length (filler : Nat) : (callRecord filler).length = filler + 74 := by
  have hopening : callOpening.length = 71 := by decide
  have hclosing : callClosing.length = 3 := by decide
  simp only [callRecord, List.length_append, List.length_replicate, hopening, hclosing]
  omega

theorem callRecord_free (filler : Nat) : ∀ x ∈ callRecord filler, x ≠ newline := by
  have hopening : ∀ x ∈ callOpening, x ≠ newline := by decide +kernel
  have hclosing : ∀ x ∈ callClosing, x ≠ newline := by decide +kernel
  intro x hx
  rcases List.mem_append.mp hx with hx | hx
  · rcases List.mem_append.mp hx with hx | hx
    · exact hopening x hx
    · rw [List.eq_of_mem_replicate hx]
      decide
  · exact hclosing x hx

theorem callRecord_counted (filler : Nat) :
    countStats (asciiBuiltins filler) .codex [asciiText (callRecord filler)] = ⟨0, 0, 0, 1, 0⟩ := by
  have hblank : (asciiBuiltins filler).isBlank (asciiText (callRecord filler)) = false := by
    have hstart : callRecord filler = 0x7b :: (callRecord filler).tail := rfl
    rw [asciiBuiltins_isBlank, hstart]
    simp only [asciiText, String.toList_ofList, List.map_cons, List.all_cons]
    rw [show (Char.ofNat (0x7b : UInt8).toNat).isWhitespace = false by decide, Bool.false_and]
  have hparse : (asciiBuiltins filler).parseJson (asciiText (callRecord filler)) =
      some (callJson filler) := if_pos rfl
  unfold countStats parse
  rw [tally_foldResults]
  simp only [transcriptEntries, List.filterMap_cons, hblank, hparse]
  rfl

variable {filler : Nat}

/-- A record longer than the limit that a call saw without its newline is given up by the next. -/
theorem splitRecord_givenUp (hlong : recordLimit < filler + 74)
    (hbound : filler + 75 ≤ wholePass.maxBytes) :
    ∃ w index, run (step (asciiBuiltins filler)) World.empty (splitRecord (callRecord filler)) =
        some w ∧ w.stored = some index ∧ w.content = callRecord filler ++ [newline] ∧
      index.readOffset = filler + 75 ∧ index.agent = .codex ∧
      Indexed (asciiBuiltins filler) (fun _ => true) index w.facts
        (cut newline (w.content.take index.readOffset)) := by
  let b := asciiBuiltins filler
  let whole : World := ⟨callRecord filler, none, []⟩
  let first := indexTranscript b whole wholePass
  let grown : World := { first with content := first.content ++ [newline] }
  let last := indexTranscript b grown wholePass
  have hrun : run (step b) World.empty (splitRecord (callRecord filler)) = some last := rfl
  have hlength := callRecord_length filler
  have hcontent : grown.content = callRecord filler ++ [newline] := rfl
  have hsize : grown.content.length = filler + 75 := by
    rw [hcontent, List.length_append, hlength]
    rfl
  -- the first call sees no newline
  have hempty : StoredIndexed b (fun _ => true) whole := by
    intro index hnone
    cases hnone
  have hnolines : ∀ n, (cut newline (whole.content.take n)).lines = [] := by
    intro n
    rw [cut_free fun x hx => callRecord_free filler x (List.mem_of_mem_take hx)]
  have hfirstGiven : ∀ line ∈ (cut newline (whole.content.take (stopOf b whole wholePass))).lines,
      (startIndex b whole wholePass).readOffset ≤ line.stop →
        true = givenUp (startIndex b whole wholePass).readOffset line := by
    intro line hline
    rw [hnolines] at hline
    cases hline
  have hfirst : StoredIndexed b (fun _ => true) first := hempty.indexTranscript hfirstGiven
  obtain ⟨hoffset, hsource, _⟩ := hempty.advanced hfirstGiven
  have hstop : stopOf b whole wholePass = filler + 74 := by
    have hzero : (startIndex b whole wholePass).readOffset = 0 := rfl
    have hwhole : whole.content.length = filler + 74 := hlength
    rw [stopOf, hzero, hwhole]
    omega
  obtain ⟨kept, hkept, hcase⟩ := indexTranscript_stored (b := b) whole wholePass
  obtain ⟨scanned, hscanned⟩ : ∃ scanned, advanced b whole wholePass = scanned := ⟨_, rfl⟩
  rw [hscanned] at hoffset hsource hcase
  have hkeptIndex : kept = { scanned.1 with
      observedSize := whole.content.length
      mtime := wholePass.mtime
      observedAt := wholePass.now } := by
    rcases hcase with hnew | ⟨hload, _⟩
    · exact hnew
    · cases hload
  have hkeptOffset : kept.readOffset = filler + 74 := by
    rw [hkeptIndex]
    exact hoffset.trans hstop
  -- the second call goes on from there
  have hload : loadStored b grown wholePass = some kept := by
    apply Option.filter_eq_some_iff.mpr
    refine ⟨hkept, decide_eq_true ⟨?_, ?_, ?_, ?_, ?_⟩⟩
    · rw [hkeptIndex]
      exact hsource.agent
    · rw [hkeptIndex]
      exact hsource.head
    · omega
    · rw [hkeptIndex]
      exact hsource.identity
    · intro ⟨hsame, _⟩
      rw [hkeptIndex, hsize] at hsame
      have hwhole : (callRecord filler).length = filler + 75 := hsame
      omega
  have hstart : startIndex b grown wholePass = kept := by
    unfold startIndex
    rw [hload]
    rfl
  have hgrown : StoredIndexed b (fun _ => true) grown := hfirst.append [newline]
  have hstop' : stopOf b grown wholePass = filler + 75 := by
    unfold stopOf
    rw [hstart, hkeptOffset, hsize]
    omega
  have hlines : (cut newline (grown.content.take (filler + 75))).lines = [⟨0, callRecord filler⟩] := by
    rw [List.take_of_length_le (by omega), hcontent, cut_append, cut_free (callRecord_free filler)]
    rfl
  have hgiven : ∀ line ∈ (cut newline (grown.content.take (stopOf b grown wholePass))).lines,
      (startIndex b grown wholePass).readOffset ≤ line.stop →
        true = givenUp (startIndex b grown wholePass).readOffset line := by
    intro line hline _
    rw [hstop', hlines, List.mem_singleton] at hline
    rw [hstart, hkeptOffset, hline]
    symm
    have hend : (⟨0, callRecord filler⟩ : Line UInt8).stop = filler + 74 := by
      simp only [Line.stop]
      omega
    have hpos : 0 < scanChunk := by decide
    rw [givenUp_first (by omega)]
    apply decide_eq_true
    show 0 + recordLimit < filler + 74
    omega
  have hlast : StoredIndexed b (fun _ => true) last := hgrown.indexTranscript hgiven
  obtain ⟨hoffset', hsource', _⟩ := hgrown.advanced hgiven
  obtain ⟨index, hindex, hcase'⟩ := indexTranscript_stored (b := b) grown wholePass
  have hindexOffset : index.readOffset = filler + 75 ∧ index.agent = .codex := by
    have hagent : (advanced b grown wholePass).1.agent = .codex := by
      rw [hsource'.agent, hstart, hkeptIndex]
      exact hsource.agent
    rcases hcase' with hnew | ⟨hkeep, hsame⟩
    · rw [hnew]
      exact ⟨hoffset'.trans hstop', hagent⟩
    · rw [hload] at hkeep
      obtain rfl := Option.some.inj hkeep
      omega
  exact ⟨last, index, hrun, hindex, rfl, hindexOffset.1, hindexOffset.2, (hlast index hindex).2⟩

theorem givenUp_callRecord (hshort : filler + 74 < 5 * scanChunk) :
    givenUp 0 ⟨0, callRecord filler⟩ = false := by
  have hlength := callRecord_length filler
  have hstop : (⟨0, callRecord filler⟩ : Line UInt8).stop = filler + 74 := by
    simp only [Line.stop]
    omega
  have hchunks : (filler + 74) / scanChunk < 5 :=
    Nat.div_lt_of_lt_mul (by rwa [Nat.mul_comm] at hshort)
  have hfour : scanChunk * ((filler + 74) / scanChunk) ≤ scanChunk * 4 :=
    Nat.mul_le_mul_left _ (by omega)
  have hlimit : scanChunk * 4 = recordLimit := by decide
  unfold givenUp
  apply decide_eq_false
  show ¬ 0 + recordLimit < 0 + scanChunk * ((_ - 0) / scanChunk)
  rw [hstop, Nat.sub_zero]
  omega

/-- A record of more than 16 MiB that the index saw before its newline was written is not in the
totals, though one scan counts it. -/
theorem split_record_is_not_counted :
    ¬ ∀ (b : Builtins) (events : List Event) (w : World) (index : StoredIndex)
        (clock : Nat → String), run (step b) World.empty events = some w → w.stored = some index →
      SameIndex index w.facts (oneScan b clock index w.content) := by
  intro h
  have hlong : recordLimit < 17 * 1024 * 1024 + 74 := by
    unfold recordLimit
    omega
  have hshort : 17 * 1024 * 1024 + 74 < 5 * scanChunk := by
    unfold scanChunk
    omega
  obtain ⟨w, index, hrun, hstored, hcontent, hoffset, hagent, hindexed⟩ :=
    splitRecord_givenUp hlong (by decide)
  generalize 17 * 1024 * 1024 = filler at *
  have hsame := h _ _ w index (fun _ => "2026-01-01T10:00:00.000Z") hrun hstored
  have hlength := callRecord_length filler
  have hsize : index.readOffset = w.content.length := by
    rw [hoffset, hcontent, List.length_append, hlength]
    rfl
  obtain ⟨hone, hsource⟩ := oneScan_indexed (b := asciiBuiltins filler)
    (fun _ => "2026-01-01T10:00:00.000Z") index hsize.le
  have hlines : (cut newline (w.content.take index.readOffset)).lines =
      [⟨0, callRecord filler⟩] := by
    rw [hsize, List.take_length, hcontent, cut_append, cut_free (callRecord_free filler)]
    rfl
  have hskipped : index.stats = emptyStats := by
    have heffects := congrArg Effects.stats hindexed.effects
    rw [hlines] at heffects
    exact heffects
  have hcounted : index.stats = ⟨0, 0, 0, 1, 0⟩ := by
    have heffects := congrArg Effects.stats hone.effects
    rw [hlines, hsource.allEffects, ← List.nil_append [_], allEffects_snoc,
      givenUp_callRecord hshort, hagent] at heffects
    rw [hsame.stats]
    refine heffects.trans ?_
    rw [if_neg (by decide), Effects.read_stats]
    show emptyStats.add (countStats _ _ [asciiText (callRecord filler)]) = _
    rw [callRecord_counted]
    rfl
  rw [hskipped] at hcounted
  exact absurd hcounted (by decide)

end Ccmux.Transcript.Index
