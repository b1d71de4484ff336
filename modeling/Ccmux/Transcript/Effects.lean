/- Module: Ccmux/Transcript/Effects
   source: src/agent/transcript/transcriptIndex.ts (scanForward)
   digest: What lines do to an index one by one, and that parsing them in batches does the same. -/

import Ccmux.Lib.Lines
import Ccmux.Transcript.Scan

namespace Ccmux.Transcript.Scan

open Ccmux.Lib.Lines
open Ccmux.Transcript.Normalize
open Ccmux.Transcript.Stats
open Ccmux.Usage.Normalize
open Ccmux.Usage.Schema (UsageFact)

/-- The part of an index that reading a line changes, with the facts put so far. -/
structure Effects where
  malformed : Nat
  context : UsageParseContext
  stats : TranscriptStats
  facts : List UsageFact

/-- The part of an index that counts lines. -/
structure Places where
  lines : Nat
  size : Nat
  checkpoints : List Nat

def StoredIndex.effects (index : StoredIndex) (facts : List UsageFact) : Effects :=
  ⟨index.malformed, index.context, index.stats, facts.map timeless⟩

def StoredIndex.places (index : StoredIndex) : Places :=
  ⟨index.lines, index.size, index.checkpoints⟩

def Effects.skip (e : Effects) : Effects := { e with malformed := e.malformed + 1 }

def Places.next (p : Places) (lineEnd : Nat) : Places :=
  { lines := p.lines + 1
    size := lineEnd
    checkpoints :=
      if (p.lines + 1) % checkpointLines = 0 then p.checkpoints ++ [lineEnd] else p.checkpoints }

section
variable (b : Builtins) (agent : TranscriptRuntime)

/-- A line parsed and counted on its own. -/
def Effects.read (e : Effects) (raw : List UInt8) : Effects :=
  let text := b.utf8 raw
  let stats := e.stats.add (countStats b agent [text])
  if b.isBlank text then { e with stats }
  else
    match Normalize.rec (b.parseJson text) with
    | none => { e with malformed := e.malformed + 1, stats }
    | some entry =>
      match parseUsageRecord b agent entry e.context "" with
      | (context, none) => { e with context, malformed := e.malformed + 1, stats }
      | (context, some fact) =>
        { e with context, stats, facts := e.facts ++ fact.toList.map timeless }

/-- All lines in order, each given up or read. -/
def effects (given : Line UInt8 → Bool) (start : Effects) (lines : List (Line UInt8)) : Effects :=
  lines.foldl (fun e line => if given line then e.skip else e.read b agent line.raw) start

def places (lines : List (Line UInt8)) : Places :=
  lines.foldl (fun p line => p.next (line.stop + 1)) ⟨0, 0, [0]⟩

variable {b agent}

theorem Effects.read_stats (e : Effects) (raw : List UInt8) :
    (e.read b agent raw).stats = e.stats.add (countStats b agent [b.utf8 raw]) := by
  unfold Effects.read
  dsimp only
  split
  · rfl
  · split
    · rfl
    · split <;> rfl

theorem Effects.read_skip (e : Effects) (raw : List UInt8) :
    e.skip.read b agent raw = (e.read b agent raw).skip := by
  unfold Effects.read Effects.skip
  dsimp only
  split
  · rfl
  · split
    · rfl
    · split <;> rfl

theorem Effects.foldl_skip (e : Effects) (batch : List (List UInt8)) :
    batch.foldl (Effects.read b agent) e.skip = (batch.foldl (Effects.read b agent) e).skip := by
  induction batch generalizing e with
  | nil => rfl
  | cons raw batch ih => rw [List.foldl_cons, List.foldl_cons, Effects.read_skip, ih]

variable {index : StoredIndex} {facts : List UsageFact} {e : Effects}

/-- One line of a batch: what it does but for the totals, which are counted for the batch. -/
theorem parseLine_read (observedAt : String) (raw : List UInt8) (hagent : index.agent = agent)
    (hmalformed : e.malformed = index.malformed) (hcontext : e.context = index.context)
    (hfacts : e.facts = facts.map timeless) :
    ∃ malformed context more,
      parseLine b observedAt (index, facts) raw =
        ({ index with malformed, context }, facts ++ more) ∧
      e.read b agent raw = ⟨malformed, context, e.stats.add (countStats b agent [b.utf8 raw]),
        (facts ++ more).map timeless⟩ := by
  subst hagent
  unfold parseLine Effects.read
  dsimp only
  by_cases hblank : b.isBlank (b.utf8 raw) = true
  · rw [if_pos hblank, if_pos hblank]
    exact ⟨index.malformed, index.context, [], by simp, by simp [hmalformed, hcontext, hfacts]⟩
  · rw [if_neg hblank, if_neg hblank]
    cases hentry : Normalize.rec (b.parseJson (b.utf8 raw)) with
    | none =>
      exact ⟨index.malformed + 1, index.context, [], by simp, by simp [hmalformed, hcontext, hfacts]⟩
    | some entry =>
      obtain ⟨hsame, hparsed⟩ :=
        parseUsageRecord_clock b index.agent entry index.context observedAt ""
      rw [hcontext]
      rcases hnow : parseUsageRecord b index.agent entry index.context observedAt with
        ⟨context, parsed⟩
      rcases hthen : parseUsageRecord b index.agent entry index.context "" with
        ⟨context', parsed'⟩
      rw [hnow, hthen] at hsame hparsed
      obtain rfl : context = context' := hsame
      cases parsed with
      | none =>
        cases parsed' with
        | none =>
          simp only [hnow, hthen]
          exact ⟨index.malformed + 1, context, [], by simp, by simp [hmalformed, hfacts]⟩
        | some fact' => cases hparsed
      | some fact =>
        cases parsed' with
        | none => cases hparsed
        | some fact' =>
          have hfact : fact.map timeless = fact'.map timeless := Option.some.inj hparsed
          have hlist : fact.toList.map timeless = fact'.toList.map timeless := by
            rw [← Option.toList_map, ← Option.toList_map, hfact]
          simp only [hnow, hthen]
          exact ⟨index.malformed, context, fact.toList, rfl, by simp [hmalformed, hfacts, hlist]⟩

/-- A batch parsed at once and counted at once is its lines read one by one. -/
theorem foldl_parseLine (observedAt : String) (batch : List (List UInt8))
    (hagent : index.agent = agent)
    (hmalformed : e.malformed = index.malformed) (hcontext : e.context = index.context)
    (hfacts : e.facts = facts.map timeless) :
    ∃ malformed context more,
      batch.foldl (parseLine b observedAt) (index, facts) =
        ({ index with malformed, context }, facts ++ more) ∧
      batch.foldl (Effects.read b agent) e = ⟨malformed, context,
        e.stats.add (countStats b agent (batch.map b.utf8)), (facts ++ more).map timeless⟩ := by
  induction batch generalizing index facts e with
  | nil =>
    have hnone : countStats b agent ([] : List String) = emptyStats := by
      cases agent <;> rfl
    refine ⟨index.malformed, index.context, [], by simp, ?_⟩
    simp only [List.foldl_nil, List.map_nil, hnone, TranscriptStats.add_empty, List.append_nil]
    rw [← hmalformed, ← hcontext, ← hfacts]
  | cons raw batch ih =>
    obtain ⟨malformed, context, more, hline, hread⟩ :=
      parseLine_read observedAt raw hagent hmalformed hcontext hfacts
    obtain ⟨malformed', context', more', hrest, hreads⟩ :=
      @ih { index with malformed, context } (facts ++ more) (e.read b agent raw) hagent
        (by rw [hread]) (by rw [hread]) (by rw [hread])
    refine ⟨malformed', context', more ++ more', ?_, ?_⟩
    · rw [List.foldl_cons, hline, hrest, List.append_assoc]
    · have hcount : countStats b agent ((raw :: batch).map b.utf8) =
          (countStats b agent [b.utf8 raw]).add (countStats b agent (batch.map b.utf8)) := by
        rw [List.map_cons]
        exact countStats_append b agent [b.utf8 raw] (batch.map b.utf8)
      rw [List.foldl_cons, hreads, hread, hcount, TranscriptStats.add_assoc, List.append_assoc]

end

end Ccmux.Transcript.Scan
