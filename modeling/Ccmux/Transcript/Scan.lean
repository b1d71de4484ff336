/- Module: Ccmux/Transcript/Scan
   source: src/agent/transcript/transcriptIndex.ts (scanForward)
   digest: The bytes added since the last pass, read in chunks, cut into lines, parsed in batches. -/

import Ccmux.Transcript.Stats
import Ccmux.Usage.Normalize

namespace Ccmux.Transcript.Scan

open Ccmux.Transcript.Normalize
open Ccmux.Transcript.Stats
open Ccmux.Usage.Normalize
open Ccmux.Usage.Schema (UsageFact)

/-- `CHECKPOINT_LINES`. -/
def checkpointLines : Nat := 512

/-- `SCAN_CHUNK`. -/
def scanChunk : Nat := 4 * 1024 * 1024

/-- How many bytes of one record are held. -/
def recordLimit : Nat := 16 * 1024 * 1024

def batchLines : Nat := 4096

def newline : UInt8 := 10

/-- The stored index. `pending` is kept in base64 there; `version` follows from the runtime. -/
structure StoredIndex where
  agent : TranscriptRuntime
  head : String
  identity : String
  mtime : Nat
  observedAt : String
  observedSize : Nat
  readOffset : Nat
  pending : List UInt8
  skipping : Bool
  malformed : Nat
  context : UsageParseContext
  size : Nat
  lines : Nat
  checkpoints : List Nat
  stats : TranscriptStats
  deriving DecidableEq

/-- The index under way and the variables of the scan; `facts` are those put into the store. -/
structure ScanState where
  index : StoredIndex
  facts : List UsageFact
  pending : List UInt8
  pendingBytes : Nat
  batch : List (List UInt8)

section
variable (b : Builtins)

/-- One raw line in `flush`: it is blank, or malformed, or a record with or without a fact. -/
def parseLine (observedAt : String) (held : StoredIndex × List UsageFact) (raw : List UInt8) :
    StoredIndex × List UsageFact :=
  let (index, facts) := held
  let text := b.utf8 raw
  if b.isBlank text then (index, facts)
  else
    match rec (b.parseJson text) with
    | none => ({ index with malformed := index.malformed + 1 }, facts)
    | some entry =>
      match parseUsageRecord b index.agent entry index.context observedAt with
      | (context, none) => ({ index with context, malformed := index.malformed + 1 }, facts)
      | (context, some fact) => ({ index with context }, facts ++ fact.toList)

/-- The batch is parsed and counted; the clock is read once for it. -/
def flush (clock : Nat → String) (s : ScanState) : ScanState :=
  if s.batch = [] then s
  else
    let (index, facts) := s.batch.foldl (parseLine b (clock s.index.lines)) (s.index, s.facts)
    let added := countStats b index.agent (s.batch.map b.utf8)
    { s with index := { index with stats := index.stats.add added }, facts, batch := [] }

/-- The line of the pending bytes and the tail is counted, and kept for the batch unless it was given
up; `lineEnd` is the byte after its newline. -/
def takeLine (s : ScanState) (tail : List UInt8) (lineEnd : Nat) : ScanState :=
  let lines := s.index.lines + 1
  let checkpoints :=
    if lines % checkpointLines = 0 then s.index.checkpoints ++ [lineEnd] else s.index.checkpoints
  let malformed := if s.index.skipping then s.index.malformed + 1 else s.index.malformed
  { index := { s.index with malformed, skipping := false, lines, size := lineEnd, checkpoints }
    facts := s.facts
    pending := []
    pendingBytes := 0
    batch := if s.index.skipping then s.batch else s.batch ++ [s.pending ++ tail] }

/-- A newline ends the line; a full batch is parsed. -/
def endLine (clock : Nat → String) (s : ScanState) (tail : List UInt8) (lineEnd : Nat) :
    ScanState :=
  let taken := takeLine s tail lineEnd
  if batchLines ≤ taken.batch.length then flush b clock taken else taken

/-- The bytes of a chunk; `tail` runs from the last newline and `place` is the next byte. -/
def scanBytes (clock : Nat → String) (s : ScanState) (tail : List UInt8) (place : Nat) :
    List UInt8 → ScanState × List UInt8
  | [] => (s, tail)
  | byte :: rest =>
    if byte = newline then scanBytes clock (endLine b clock s tail (place + 1)) [] (place + 1) rest
    else scanBytes clock s (tail ++ [byte]) (place + 1) rest

/-- What is left of a chunk after its last newline is held, or the record is given up. -/
def endChunk (s : ScanState) (tail : List UInt8) : ScanState :=
  if tail ≠ [] ∧ s.index.skipping = false then
    let pendingBytes := s.pendingBytes + tail.length
    if recordLimit < pendingBytes then
      { s with pendingBytes, pending := [], index := { s.index with skipping := true } }
    else { s with pendingBytes, pending := s.pending ++ tail }
  else s

/-- Reads of at most a chunk until the bytes are used up. -/
def scanChunks (clock : Nat → String) (s : ScanState) (place : Nat) (bytes : List UInt8) :
    ScanState :=
  if h : bytes = [] then s
  else
    let chunk := bytes.take scanChunk
    let (scanned, tail) := scanBytes b clock s [] place chunk
    scanChunks clock (endChunk scanned tail) (place + chunk.length) (bytes.drop scanChunk)
  termination_by bytes.length
  decreasing_by
    have hpos : 0 < bytes.length := List.length_pos_iff.mpr h
    have hchunk : 0 < scanChunk := by decide
    rw [List.length_drop]
    omega

/-- The index and the facts after the bytes up to `stop`. -/
def scanForward (clock : Nat → String) (index : StoredIndex) (facts : List UsageFact)
    (content : List UInt8) (stop : Nat) : StoredIndex × List UsageFact :=
  let start : ScanState :=
    { index, facts, pending := index.pending, pendingBytes := index.pending.length, batch := [] }
  let bytes := (content.take stop).drop index.readOffset
  let scanned := flush b clock (scanChunks b clock start index.readOffset bytes)
  ({ scanned.index with readOffset := index.readOffset + bytes.length, pending := scanned.pending },
    scanned.facts)

end

end Ccmux.Transcript.Scan
