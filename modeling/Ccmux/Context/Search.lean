/- Module: Ccmux/Context/Search
   source: src/context/transcriptSearch.ts (searchTranscript, batchLines)
   digest: A search over the windows of a transcript that may grow meanwhile: the reads visit each
     line of the range once, and the newest matching messages are kept. -/

import Mathlib
import Ccmux.Context.MessageMatch
import Ccmux.Transcript.Window

namespace Ccmux.Context.Search

open Ccmux.Context.MessageMatch
open Ccmux.Transcript.Index (asciiBuiltins)
open Ccmux.Transcript.Normalize (Json)
open Ccmux.Transcript.Range (linesBetween)
open Ccmux.Transcript.Window

/-- `SEARCH_BATCH_LINES`. -/
def searchBatchLines : Nat := 4000

/-- `BATCH_MIN_LINES`. -/
def batchMinLines : Nat := 250

/-- `BATCH_BYTES`. -/
def batchBytes : Nat := 32 * 1024 * 1024

/-- How many lines one read covers; `none` is a file whose size cannot be read. -/
def batchLines (size : Option Nat) (totalLines : Nat) : {lines : Nat // 0 < lines} :=
  match size with
  | none => ⟨searchBatchLines, by decide⟩
  | some size =>
    let perLine : ℚ := size / max 1 totalLines
    ⟨min searchBatchLines (max batchMinLines ⌊(batchBytes : ℚ) / max 1 perLine⌋.toNat), by
      have hmin : 0 < batchMinLines := by decide
      have hmax : 0 < searchBatchLines := by decide
      exact lt_min hmax (lt_max_of_lt_left hmin)⟩

/-- What a search says of the range and of what it found in it; `hits` are its `matches`. -/
structure TranscriptSearch where
  available : Bool
  firstLine : Int
  lastLine : Int
  messages : Nat
  total : Nat
  hits : List TranscriptMatch
  deriving DecidableEq, Repr

def lastLineOf (query : TranscriptQuery) (totalLines : Nat) : Int :=
  min totalLines (query.to_.getD totalLines)

def firstLineOf (query : TranscriptQuery) (lastLine : Int) : Int :=
  max 1 (max (query.from_.getD 1) (query.tail.elim 1 fun tail => lastLine - tail + 1))

section
variable {α : Type} (l : Language) (parser : Parser α) (query : TranscriptQuery)

/-- One message of a read; the oldest match is let go when there are too many. -/
def visit (found : TranscriptSearch) (message : TranscriptMessage) : TranscriptSearch :=
  let found := { found with messages := found.messages + 1 }
  match matchMessage l query message with
  | none => found
  | some hit =>
    let hits := found.hits ++ [hit]
    { found with
      total := found.total + 1
      hits := if query.limit < hits.length then hits.tail else hits }

/-- The messages of a read that are of its lines. -/
def ofLines (start stop : Int) (window : List (α × Nat)) : List TranscriptMessage :=
  (parser.parse window).filter fun message => decide (start ≤ message.seq ∧ message.seq ≤ stop)

theorem reads_decrease (batch : {lines : Nat // 0 < lines}) {start lastLine : Int}
    (h : start ≤ lastLine) :
    (lastLine + 1 - (start + batch.1)).toNat < (lastLine + 1 - start).toNat := by
  have hbatch := batch.2
  omega

/-- The reads from `start` on, the first of them at `time`. A read that finds the source gone ends the
search. -/
def searchFrom (answer : Nat → WindowOptions → Option (TranscriptRead α))
    (batch : {lines : Nat // 0 < lines}) (lastLine : Int) (time : Nat) (start : Int)
    (found : TranscriptSearch) : TranscriptSearch :=
  if start ≤ lastLine then
    let stop := min lastLine (start + batch.1 - 1)
    match answer time ⟨batch.1, none, some (stop + 1), some (stop - start + 1)⟩ with
    | none => { found with available := false, lastLine := start - 1 }
    | some window =>
      searchFrom answer batch lastLine (time + 1) (start + batch.1)
        ((ofLines parser start stop window.lines).foldl (visit l query) found)
  else found
termination_by (lastLine + 1 - start).toNat
decreasing_by exact reads_decrease batch (by assumption)

/-- The range of a search before its first read; a source that cannot be read has no lines. -/
def rangeOf (available : Bool) (totalLines : Nat) : TranscriptSearch :=
  let lastLine := lastLineOf query totalLines
  let firstLine := firstLineOf query lastLine
  { available, firstLine, lastLine := max (firstLine - 1) lastLine, messages := 0, total := 0,
    hits := [] }

/-- The reads of a range; a native conversation is read once. -/
def searchRange (answer : Nat → WindowOptions → Option (TranscriptRead α)) (native : Bool)
    (size : Option Nat) (totalLines : Nat) (firstLine lastLine : Int) (found : TranscriptSearch) :
    TranscriptSearch :=
  if h : firstLine ≤ lastLine then
    let batch : {lines : Nat // 0 < lines} :=
      if native then ⟨(lastLine - firstLine + 1).toNat, by omega⟩ else batchLines size totalLines
    searchFrom l parser query answer batch lastLine 1 firstLine found
  else found

/-- The whole search; `native` says where the probe was answered from, and `size` is what the file
has when the lines of a read are counted. -/
def searchTranscript (answer : Nat → WindowOptions → Option (TranscriptRead α)) (native : Bool)
    (size : Option Nat) : TranscriptSearch :=
  match answer 0 ⟨1, none, none, none⟩ with
  | none => rangeOf query false 0
  | some probe =>
    let lastLine := lastLineOf query probe.totalLines
    searchRange l parser query answer native size probe.totalLines (firstLineOf query lastLine)
      lastLine (rangeOf query true probe.totalLines)

end

/-! ### The lines a search visits -/

section
variable {α : Type}

/-- The lines of a range with their numbers. -/
def numbered (entries : List α) (first last : Int) : List (α × Nat) :=
  (linesBetween entries first last).zipIdx first.toNat

theorem numbered_empty (entries : List α) {first last : Int} (hfirst : 1 ≤ first)
    (h : last < first) : numbered entries first last = [] := by
  have hcount : last.toNat + 1 - (max 1 first).toNat = 0 := by omega
  rw [numbered, linesBetween, hcount, List.take_zero]
  rfl

theorem numbered_split (entries : List α) {first middle last : Int} (hfirst : 1 ≤ first)
    (hmiddle : first ≤ middle + 1) (hlast : middle ≤ last) (hlength : middle ≤ entries.length) :
    numbered entries first last =
      numbered entries first middle ++ numbered entries (middle + 1) last := by
  have hone : max 1 first = first := max_eq_right hfirst
  have htwo : max 1 (middle + 1) = middle + 1 := max_eq_right (by omega)
  have hcount : last.toNat + 1 - first.toNat =
      (middle.toNat + 1 - first.toNat) + (last.toNat + 1 - (middle + 1).toNat) := by omega
  have hdrop : first.toNat - 1 + (middle.toNat + 1 - first.toNat) = (middle + 1).toNat - 1 := by
    omega
  have hplace : first.toNat + ((entries.drop (first.toNat - 1)).take
      (middle.toNat + 1 - first.toNat)).length = (middle + 1).toNat := by
    rw [List.length_take, List.length_drop]
    omega
  unfold numbered linesBetween
  rw [hone, htwo, hcount, List.take_add, List.drop_drop, hdrop, List.zipIdx_append, hplace]

theorem numbered_grown {early late : List α} (h : early <+: late) {first last : Int}
    (hfirst : 1 ≤ first) (hlast : last ≤ early.length) :
    numbered late first last = numbered early first last := by
  obtain ⟨more, rfl⟩ := h
  have hone : max 1 first = first := max_eq_right hfirst
  unfold numbered linesBetween
  rw [hone, List.drop_append, List.take_append]
  have hnone : last.toNat + 1 - first.toNat - (early.drop (first.toNat - 1)).length = 0 := by
    rw [List.length_drop]
    omega
  rw [hnone, List.take_zero, List.append_nil]

theorem numbered_seq {entries : List α} {first last : Int} (hfirst : 1 ≤ first) {line : α × Nat}
    (h : line ∈ numbered entries first last) : first ≤ line.2 ∧ line.2 ≤ last := by
  obtain ⟨hlow, hhigh, _⟩ := List.mem_zipIdx h
  have hlength : (linesBetween entries first last).length ≤ last.toNat + 1 - (max 1 first).toNat :=
    List.length_take_le _ _
  omega

theorem numbered_seqs {entries : List α} {first last : Int} (hfirst : 1 ≤ first)
    (h : last ≤ entries.length ∨ last < first) :
    (numbered entries first last).map Prod.snd =
      List.range' first.toNat (last + 1 - first).toNat := by
  have hone : max 1 first = first := max_eq_right hfirst
  have hcount : (linesBetween entries first last).length = (last + 1 - first).toNat := by
    rw [linesBetween, hone, List.length_take, List.length_drop]
    omega
  rw [numbered, List.zipIdx_map_snd, hcount]

theorem native_read (entries : List α) (tail : Int) {start stop : Int} (hstart : 1 ≤ start) :
    (nativeTranscriptWindow entries
      ⟨tail, none, some (stop + 1), some (stop - start + 1)⟩).lines = numbered entries start stop := by
  have hbegin : max 1 (stop + 1 - (stop - start + 1)) = start := by omega
  have hend : stop + 1 - 1 = stop := by omega
  simp only [nativeTranscriptWindow, Option.getD_some, hbegin, hend]
  exact window_lines entries hstart stop

end

/-! ### The newest matches -/

section
variable {l : Language} {query : TranscriptQuery}

theorem rtake_push {β : Type} (n : Nat) (xs : List β) (x : β) :
    (if n < (xs.rtake n ++ [x]).length then (xs.rtake n ++ [x]).tail else xs.rtake n ++ [x]) =
      (xs ++ [x]).rtake n := by
  unfold List.rtake
  rw [List.length_append, List.length_append, List.length_drop, List.length_singleton]
  rcases Nat.lt_or_ge xs.length n with hshort | hlong
  · have hkept : xs.length - n = 0 := by omega
    have hnext : xs.length + 1 - n = 0 := by omega
    rw [if_neg (by omega), hkept, hnext, List.drop_zero, List.drop_zero]
  · have hnext : xs.length + 1 - n = xs.length - n + 1 := by omega
    have hback : (xs ++ [x]).drop (xs.length - n) = xs.drop (xs.length - n) ++ [x] :=
      List.drop_append_of_le_length (by omega)
    rw [if_pos (by omega), hnext, ← List.drop_drop, hback, List.drop_one]

/-- What has been found of some messages. -/
structure Holds (l : Language) (query : TranscriptQuery) (found : TranscriptSearch)
    (seen : List TranscriptMessage) : Prop where
  messages : found.messages = seen.length
  total : found.total = (seen.filterMap (matchMessage l query)).length
  hits : found.hits = (seen.filterMap (matchMessage l query)).rtake query.limit

variable {found : TranscriptSearch} {seen : List TranscriptMessage}

theorem Holds.visit (h : Holds l query found seen) (message : TranscriptMessage) :
    Holds l query (visit l query found message) (seen ++ [message]) := by
  cases hmatch : matchMessage l query message with
  | none =>
    simp only [Search.visit, hmatch]
    refine ⟨?_, ?_, ?_⟩
    · simp [h.messages]
    · rw [h.total, List.filterMap_append, List.filterMap_cons_none hmatch, List.filterMap_nil,
        List.append_nil]
    · rw [h.hits, List.filterMap_append, List.filterMap_cons_none hmatch, List.filterMap_nil,
        List.append_nil]
  | some hit =>
    simp only [Search.visit, hmatch]
    refine ⟨?_, ?_, ?_⟩
    · simp [h.messages]
    · rw [List.filterMap_append, List.filterMap_cons_some hmatch, List.filterMap_nil]
      simp [h.total]
    · rw [List.filterMap_append, List.filterMap_cons_some hmatch, List.filterMap_nil, ← rtake_push,
        h.hits]

theorem Holds.visits (h : Holds l query found seen) (messages : List TranscriptMessage) :
    Holds l query (messages.foldl (Search.visit l query) found) (seen ++ messages) := by
  induction messages generalizing found seen with
  | nil => simpa using h
  | cons message rest ih =>
    have hnext := ih (h.visit message)
    rwa [List.append_assoc] at hnext

end

/-! ### A whole search -/

/-- A transcript that only grows, and when it can be read. -/
structure Source (α : Type) where
  history : Nat → List α
  grows : ∀ t, history t <+: history (t + 1)
  readable : Nat → Bool

section
variable {α : Type} {l : Language} {parser : Parser α} {query : TranscriptQuery}

def Source.answer (source : Source α) (time : Nat) (opts : WindowOptions) :
    Option (TranscriptRead α) :=
  if source.readable time then some (nativeAnswer source.history time opts) else none

theorem ofLines_numbered (entries : List α) {start stop : Int} (hstart : 1 ≤ start) :
    ofLines parser start stop (numbered entries start stop) =
      parser.parse (numbered entries start stop) := by
  refine List.filter_eq_self.mpr ?_
  intro message hmessage
  obtain ⟨line, hline, hseq⟩ := List.mem_map.mp (parser.seq_mem _ message hmessage)
  rw [← hseq]
  exact decide_eq_true (numbered_seq hstart hline)

/-- The answer of a search: its reads visit the lines it says it has scanned, each once and in order,
and it holds the newest matches of what they parse to. -/
def Searched (l : Language) (parser : Parser α) (query : TranscriptQuery) (entries : List α)
    (found : TranscriptSearch) : Prop :=
  ∃ reads : List (List (α × Nat)),
    reads.flatten = numbered entries found.firstLine found.lastLine ∧
      reads.flatten.map Prod.snd =
        List.range' found.firstLine.toNat (found.lastLine + 1 - found.firstLine).toNat ∧
      Holds l query found (reads.flatMap parser.parse)

theorem visits_range (messages : List TranscriptMessage) (found : TranscriptSearch) :
    (messages.foldl (visit l query) found).available = found.available ∧
      (messages.foldl (visit l query) found).firstLine = found.firstLine ∧
      (messages.foldl (visit l query) found).lastLine = found.lastLine := by
  induction messages generalizing found with
  | nil => exact ⟨rfl, rfl, rfl⟩
  | cons message rest ih =>
    rw [List.foldl_cons]
    obtain ⟨havailable, hfirst, hlast⟩ := ih (visit l query found message)
    rw [havailable, hfirst, hlast]
    unfold visit
    cases matchMessage l query message <;> exact ⟨rfl, rfl, rfl⟩

theorem read_messages (source : Source α) (tail : Int) (time : Nat) {start stop : Int}
    (hstart : 1 ≤ start) (hstop : stop ≤ (source.history 0).length) :
    ofLines parser start stop (nativeAnswer source.history time
        ⟨tail, none, some (stop + 1), some (stop - start + 1)⟩).lines =
      parser.parse (numbered (source.history 0) start stop) := by
  have hlines := @native_read _ (source.history time) tail _ stop hstart
  have hgrown := numbered_grown (grown source.grows (Nat.zero_le time)) hstart hstop
  rw [nativeAnswer, hlines, hgrown, ofLines_numbered _ hstart]

/-- The reads from a line on, behind those that have been made. -/
theorem searchFrom_searched (source : Source α) (batch : {lines : Nat // 0 < lines})
    {lastLine : Int} (hlast : lastLine ≤ (source.history 0).length) (time : Nat) (start : Int)
    (found : TranscriptSearch) (reads : List (List (α × Nat))) (hfirst : 1 ≤ found.firstLine)
    (hstart : found.firstLine ≤ start)
    (hreads : reads.flatten = numbered (source.history 0) found.firstLine (min lastLine (start - 1)))
    (hfound : Holds l query found (reads.flatMap parser.parse))
    (hscanned : found.lastLine = max (found.firstLine - 1) lastLine)
    (havailable : found.available = true) :
    let result := searchFrom l parser query source.answer batch lastLine time start found
    Searched l parser query (source.history 0) result ∧ result.firstLine = found.firstLine ∧
      (result.available = true → result.lastLine = found.lastLine) := by
  induction hn : (lastLine + 1 - start).toNat using Nat.strong_induction_on
    generalizing time start found reads with
  | _ n ih =>
    intro result
    have hbatch := batch.2
    have hresult : result =
        searchFrom l parser query source.answer batch lastLine time start found := rfl
    rw [searchFrom] at hresult
    by_cases hle : start ≤ lastLine
    · have hbehind : min lastLine (start - 1) = start - 1 := min_eq_right (by omega)
      rw [hbehind] at hreads
      rw [if_pos hle] at hresult
      cases hread : source.readable time with
      | false =>
        simp only [Source.answer, hread, Bool.false_eq_true, if_false] at hresult
        rw [hresult]
        have hseqs := @numbered_seqs _ (source.history 0) _ (start - 1) hfirst (by omega)
        refine ⟨⟨reads, hreads, ?_, ⟨hfound.messages, hfound.total, hfound.hits⟩⟩, rfl, by simp⟩
        rw [hreads]
        exact hseqs
      | true =>
        simp only [Source.answer, hread, if_true] at hresult
        obtain ⟨stop, hstop⟩ : ∃ stop, stop = min lastLine (start + batch.1 - 1) := ⟨_, rfl⟩
        have hstopLength : stop ≤ (source.history 0).length := by omega
        rw [← hstop, read_messages source _ time (by omega) hstopLength] at hresult
        obtain ⟨havail, hfirstLine, hlastLine⟩ := @visits_range l query
          (parser.parse (numbered (source.history 0) start stop)) found
        have hnext := ih (lastLine + 1 - (start + batch.1)).toNat (by omega) (time + 1)
          (start + batch.1) _ (reads ++ [numbered (source.history 0) start stop])
          (by rw [hfirstLine]; exact hfirst) (by rw [hfirstLine]; omega) ?_ ?_
          (by rw [hlastLine, hfirstLine]; exact hscanned) (by rw [havail]; exact havailable) rfl
        · rw [← hresult, hfirstLine, hlastLine] at hnext
          exact hnext
        · have hsplit := @numbered_split _ (source.history 0) _ (start - 1) stop hfirst (by omega)
            (by omega) (by omega)
          rw [Int.sub_add_cancel] at hsplit
          rw [hfirstLine, List.flatten_append, hreads, List.flatten_singleton, ← hstop, hsplit]
        · rw [List.flatMap_append, List.flatMap_singleton]
          exact hfound.visits _
    · rw [if_neg hle] at hresult
      rw [hresult]
      have hall : min lastLine (start - 1) = lastLine := min_eq_left (by omega)
      have hlines : reads.flatten =
          numbered (source.history 0) found.firstLine found.lastLine := by
        rw [hreads, hall, hscanned]
        rcases lt_or_ge lastLine found.firstLine with hnone | hsome
        · rw [numbered_empty _ hfirst hnone, numbered_empty _ hfirst (by omega)]
        · rw [max_eq_right (by omega)]
      have hseqs := @numbered_seqs _ (source.history 0) _ found.lastLine hfirst (by omega)
      exact ⟨⟨reads, hlines, hlines ▸ hseqs, hfound⟩, rfl, fun _ => rfl⟩

theorem searchFrom_available (source : Source α) (hreadable : ∀ t, source.readable t = true)
    (batch : {lines : Nat // 0 < lines}) (lastLine : Int) (time : Nat) (start : Int)
    (found : TranscriptSearch) :
    (searchFrom l parser query source.answer batch lastLine time start found).available =
      found.available := by
  induction hn : (lastLine + 1 - start).toNat using Nat.strong_induction_on
    generalizing time start found with
  | _ n ih =>
    rw [searchFrom]
    by_cases hle : start ≤ lastLine
    · rw [if_pos hle]
      simp only [Source.answer, hreadable time, if_true]
      have hbatch := batch.2
      exact Eq.trans (ih (lastLine + 1 - (start + batch.1)).toNat (by omega) _ _ _ rfl)
        (visits_range _ _).1
    · rw [if_neg hle]

theorem holds_start (available : Bool) (firstLine lastLine : Int) :
    Holds l query ⟨available, firstLine, lastLine, 0, 0, []⟩ [] :=
  ⟨rfl, rfl, by rw [List.filterMap_nil, List.rtake_nil]⟩

variable {entries : List α}

theorem searched_start {available : Bool} {firstLine lastLine : Int} (hfirst : 1 ≤ firstLine)
    (hlast : lastLine < firstLine) :
    Searched l parser query entries ⟨available, firstLine, lastLine, 0, 0, []⟩ := by
  have hnone : numbered entries firstLine lastLine = [] := numbered_empty entries hfirst hlast
  have hcount : (lastLine + 1 - firstLine).toNat = 0 := by omega
  exact ⟨[], hnone.symm, by rw [hcount]; rfl, holds_start available firstLine lastLine⟩

theorem firstLineOf_pos (lastLine : Int) : 1 ≤ firstLineOf query lastLine := by
  unfold firstLineOf
  omega

theorem lastLineOf_le (totalLines : Nat) : lastLineOf query totalLines ≤ totalLines :=
  min_le_left _ _

theorem searchRange_searched (source : Source α) (native : Bool) (size : Option Nat)
    (totalLines : Nat) {firstLine lastLine : Int} (hfirst : 1 ≤ firstLine)
    (hlast : lastLine ≤ (source.history 0).length) :
    let found := searchRange l parser query source.answer native size totalLines firstLine lastLine
      ⟨true, firstLine, max (firstLine - 1) lastLine, 0, 0, []⟩
    Searched l parser query (source.history 0) found ∧
      (found.available = true →
        found.firstLine = firstLine ∧ found.lastLine = max (firstLine - 1) lastLine) := by
  unfold searchRange
  by_cases hrange : firstLine ≤ lastLine
  · rw [dif_pos hrange]
    have hbefore : min lastLine (firstLine - 1) = firstLine - 1 := min_eq_right (by omega)
    have hnone := numbered_empty (source.history 0) hfirst (Int.sub_one_lt_of_le (le_refl firstLine))
    obtain ⟨hsearched, hfirstLine, hscanned⟩ := @searchFrom_searched α l parser query source
      (if native then ⟨(lastLine - firstLine + 1).toNat, by omega⟩ else batchLines size totalLines)
      lastLine hlast 1 firstLine ⟨true, firstLine, max (firstLine - 1) lastLine, 0, 0, []⟩ []
      hfirst (le_refl _) (by rw [hbefore]; exact hnone.symm) (holds_start _ _ _) rfl rfl
    exact ⟨hsearched, fun havailable => ⟨hfirstLine, hscanned havailable⟩⟩
  · rw [dif_neg hrange]
    exact ⟨searched_start hfirst (by omega), fun _ => ⟨rfl, rfl⟩⟩

theorem searchTranscript_available (source : Source α)
    (hreadable : ∀ t, source.readable t = true) (native : Bool) (size : Option Nat) :
    (searchTranscript l parser query source.answer native size).available = true := by
  have hanswer : source.answer 0 ⟨1, none, none, none⟩ =
      some (nativeAnswer source.history 0 ⟨1, none, none, none⟩) := by
    simp [Source.answer, hreadable 0]
  rw [searchTranscript, hanswer]
  dsimp only
  unfold searchRange
  split
  · exact searchFrom_available source hreadable _ _ _ _ _
  · rfl

theorem searchTranscript_searched (source : Source α) (native : Bool) (size : Option Nat) :
    let found := searchTranscript l parser query source.answer native size
    Searched l parser query (source.history 0) found ∧
      (found.available = true →
        let lastLine := lastLineOf query (source.history 0).length
        found.firstLine = firstLineOf query lastLine ∧
          found.lastLine = max (firstLineOf query lastLine - 1) lastLine) := by
  unfold searchTranscript
  cases hprobe : source.readable 0 with
  | false =>
    have hanswer : source.answer 0 ⟨1, none, none, none⟩ = none := by simp [Source.answer, hprobe]
    have hlast := @lastLineOf_le query 0
    have hfirst := @firstLineOf_pos query (lastLineOf query 0)
    rw [hanswer]
    exact ⟨searched_start hfirst (by omega), fun havailable => by cases havailable⟩
  | true =>
    have hanswer : source.answer 0 ⟨1, none, none, none⟩ =
        some (nativeAnswer source.history 0 ⟨1, none, none, none⟩) := by
      simp [Source.answer, hprobe]
    rw [hanswer]
    exact searchRange_searched source native size _ (firstLineOf_pos _) (lastLineOf_le _)

theorem Searched.by_lines {p : LineParser α} {found : TranscriptSearch}
    (h : Searched l p.parser query entries found) :
    Holds l query found
      (p.parser.parse (numbered entries found.firstLine found.lastLine)) := by
  obtain ⟨reads, hlines, _, hfound⟩ := h
  have hparse : reads.flatMap p.parser.parse = p.parser.parse reads.flatten := by
    simp only [LineParser.parser, List.flatMap, List.map_flatten, List.flatten_flatten,
      List.map_map]
    rfl
  rwa [hparse, hlines] at hfound

/-- What a search of a transcript answers: the newest matches of lines it has visited once each; and
where the source can be read throughout these are the lines that were asked for. -/
structure Complete (l : Language) (parser : Parser α) (query : TranscriptQuery) (entries : List α)
    (readable : Nat → Bool) (found : TranscriptSearch) : Prop where
  searched : Searched l parser query entries found
  available : (∀ t, readable t = true) → found.available = true
  range : found.available = true →
    found.firstLine = firstLineOf query (lastLineOf query entries.length) ∧
      found.lastLine = max (firstLineOf query (lastLineOf query entries.length) - 1)
        (lastLineOf query entries.length)

theorem searchTranscript_complete (source : Source α) (native : Bool) (size : Option Nat) :
    Complete l parser query (source.history 0) source.readable
      (searchTranscript l parser query source.answer native size) := by
  obtain ⟨hsearched, hrange⟩ := @searchTranscript_searched α l parser query source native size
  exact ⟨hsearched, fun h => searchTranscript_available source h native size, hrange⟩

end

/-- The file of a transcript as a source. -/
def fileSource {l : Language} (r : Reads l.toBuiltins) (readable : Nat → Bool) : Source String :=
  ⟨r.lines, r.lines_grow, readable⟩

def fileAnswer {l : Language} (r : Reads l.toBuiltins) (readable : Nat → Bool) (time : Nat)
    (opts : WindowOptions) : Option (TranscriptRead String) :=
  if readable time then some (r.answer time opts) else none

theorem fileAnswer_eq {l : Language} (r : Reads l.toBuiltins) (readable : Nat → Bool) :
    fileAnswer r readable = (fileSource r readable).answer := by
  funext time opts
  rw [fileAnswer, Source.answer, r.answer_eq]
  rfl

/-- Whatever the provider, its storage and the lines of a read, a search visits each line of its
range once and returns the newest matching messages of what the reads parse to; with a parser that
reads each line by itself these are the newest matching messages of the range. -/
theorem search_visits_lines_once (l : Language) (query : TranscriptQuery) (size : Option Nat) :
    (∀ (α : Type) (parser : Parser α) (source : Source α) (native : Bool),
      Complete l parser query (source.history 0) source.readable
        (searchTranscript l parser query source.answer native size)) ∧
    (∀ (parser : Parser String) (r : Reads l.toBuiltins) (readable : Nat → Bool) (native : Bool),
      Complete l parser query (r.lines 0) readable
        (searchTranscript l parser query (fileAnswer r readable) native size)) ∧
    ∀ (α : Type) (p : LineParser α) (source : Source α) (native : Bool),
      let found := searchTranscript l p.parser query source.answer native size
      Holds l query found (p.parser.parse
        (numbered (source.history 0) found.firstLine found.lastLine)) := by
  refine ⟨?_, ?_, ?_⟩
  · intro α parser source native
    exact searchTranscript_complete source native size
  · intro parser r readable native
    rw [fileAnswer_eq]
    exact searchTranscript_complete (fileSource r readable) native size
  · intro α p source native
    exact (searchTranscript_searched source native size).1.by_lines

/-- The size of a batch, how a provider keeps its transcript and how many hits are asked for change
nothing else: a search for fewer counts the same and returns the last of the same hits. -/
theorem searches_agree {α : Type} (l : Language) (p : LineParser α) (source : Source α)
    (hreadable : ∀ t, source.readable t = true) (native native' : Bool) (size size' : Option Nat)
    (query : TranscriptQuery) {limit : Nat} (hlimit : limit ≤ query.limit) :
    let found := searchTranscript l p.parser query source.answer native size
    let fewer := searchTranscript l p.parser { query with limit } source.answer native' size'
    fewer.messages = found.messages ∧ fewer.total = found.total ∧
      fewer.hits = found.hits.rtake limit := by
  intro found fewer
  have hfound := @searchTranscript_complete _ l p.parser query source native size
  have hfewer := @searchTranscript_complete _ l p.parser { query with limit } source native' size'
  obtain ⟨hfirst, hlast⟩ := hfound.range (hfound.available hreadable)
  obtain ⟨hfirst', hlast'⟩ := hfewer.range (hfewer.available hreadable)
  have hall := hfound.searched.by_lines
  have hsome := hfewer.searched.by_lines
  have hstart : fewer.firstLine = found.firstLine := hfirst'.trans hfirst.symm
  have hstop : fewer.lastLine = found.lastLine := hlast'.trans hlast.symm
  rw [hstart, hstop] at hsome
  refine ⟨hsome.messages.trans hall.messages.symm, hsome.total.trans hall.total.symm, ?_⟩
  have hhits : fewer.hits = ((p.parser.parse _).filterMap (matchMessage l query)).rtake limit :=
    hsome.hits
  rw [hhits, hall.hits]
  generalize List.filterMap _ _ = hits
  rw [List.rtake, List.rtake, List.rtake, List.drop_drop, List.length_drop]
  congr 1
  omega

/-! ### A line of two messages -/

theorem flatMap_one {α β : Type} (parse : List α → List β) (hnil : parse [] = []) {x : α}
    {reads : List (List α)} (h : reads.flatten = [x]) : reads.flatMap parse = parse [x] := by
  induction reads with
  | nil => cases h
  | cons read rest ih =>
    rw [List.flatten_cons] at h
    rw [List.flatMap_cons]
    cases read with
    | nil => rw [hnil, List.nil_append, ih h]
    | cons y more =>
      obtain ⟨rfl, hrest⟩ := List.cons.inj h
      obtain ⟨rfl, hempty⟩ := List.append_eq_nil_iff.mp hrest
      have hnone : rest.flatMap parse = [] := by
        refine List.flatMap_eq_nil_iff.mpr fun read hread => ?_
        rw [List.flatten_eq_nil_iff.mp hempty read hread, hnil]
      rw [hnone, List.append_nil]

/-- The lines that match: some message of theirs does. -/
def matchingLines {α : Type} (l : Language) (parser : Parser α) (query : TranscriptQuery)
    (lines : List (α × Nat)) : List Nat :=
  (lines.filter fun line =>
    (parser.parse [line]).any fun m => (matchMessage l query m).isSome).map Prod.snd

def twoTexts : String :=
  "\x7b\"type\":\"response_item\",\"payload\":\x7b\"type\":\"message\",\"role\":\"user\"," ++
    "\"content\":[\x7b\"text\":\"a\"\x7d,\x7b\"text\":\"a\"\x7d]\x7d\x7d"

def twoTextsJson : Json :=
  .obj [("type", .str "response_item"), ("payload", .obj [("type", .str "message"),
    ("role", .str "user"), ("content", .arr [.obj [("text", .str "a")], .obj [("text", .str "a")]])])]

def twoTextsLanguage : Language where
  toBuiltins := { asciiBuiltins 0 with
    parseJson := fun text => if text = twoTexts then some twoTextsJson else none }
  parseUnits _ := none
  stringify _ := []

def twoTextsSource : Source String := ⟨fun _ => [twoTexts], fun _ => List.prefix_refl _, fun _ => true⟩

def twoTextsQuery : TranscriptQuery := ⟨literal [97], none, none, none, none, none, 2⟩

/-- A provider whose lines are messages. -/
def textLines : LineParser String where
  messages line seq := [⟨line, seq, none, .user, .message, some [97], none, none, none, none⟩]
  seq_eq line seq m hm := by
    rw [List.mem_singleton.mp hm]

theorem searches_agree_textLines :
    (searchTranscript twoTextsLanguage textLines.parser { twoTextsQuery with limit := 1 }
        twoTextsSource.answer false (some 1)).hits =
      (searchTranscript twoTextsLanguage textLines.parser twoTextsQuery
        twoTextsSource.answer true none).hits.rtake 1 :=
  (searches_agree twoTextsLanguage textLines twoTextsSource (fun _ => rfl) true false none (some 1)
    twoTextsQuery (by decide)).2.2

theorem hits_twoTexts : (((codexParser twoTextsLanguage).parse [(twoTexts, 1)]).filterMap
    (matchMessage twoTextsLanguage twoTextsQuery)).length = 2 := by
  have htexts : (codexParser twoTextsLanguage).parse [(twoTexts, 1)] = [
      ⟨"1:0", 1, none, .user, .message, some [97], none, none, none, none⟩,
      ⟨"1:1", 1, none, .user, .message, some [97], none, none, none, none⟩] := by
    decide
  have hplaces : occurrences (literal [97]) [97] 0 = [(0, 1)] := by
    have hrest : occurrences (literal [97]) [97] 1 = [] := occurrences_none (by decide)
    rw [occurrences_some (show (literal [97]).exec [97] 0 = some (0, 1) by decide)]
    exact congrArg _ hrest
  have hmatch : ∀ id, (matchMessage twoTextsLanguage twoTextsQuery
      ⟨id, 1, none, .user, .message, some [97], none, none, none, none⟩).isSome = true := by
    intro id
    have hfields : fieldsOf twoTextsLanguage
        ⟨id, 1, none, .user, .message, some [97], none, none, none, none⟩ = [(.text, [97])] := rfl
    simp [matchMessage, hfields, twoTextsQuery, hplaces]
  obtain ⟨first, hfirst⟩ := Option.isSome_iff_exists.mp (hmatch "1:0")
  obtain ⟨second, hsecond⟩ := Option.isSome_iff_exists.mp (hmatch "1:1")
  rw [htexts, List.filterMap_cons_some hfirst, List.filterMap_cons_some hsecond]
  rfl

/-- Both messages match, and the search returns both for the one line. -/
theorem line_of_two_messages_twice :
    ¬ (searchTranscript twoTextsLanguage (codexParser twoTextsLanguage) twoTextsQuery
          twoTextsSource.answer false none).hits.map TranscriptMatch.seq =
      (matchingLines twoTextsLanguage (codexParser twoTextsLanguage) twoTextsQuery
        (numbered [twoTexts] 1 1)).rtake twoTextsQuery.limit := by
  intro h
  have hcomplete := @searchTranscript_complete _ twoTextsLanguage (codexParser twoTextsLanguage)
    twoTextsQuery twoTextsSource false none
  obtain ⟨hfirst, hlast⟩ := hcomplete.range (hcomplete.available fun _ => rfl)
  obtain ⟨reads, hlines, _, hfound⟩ := hcomplete.searched
  rw [hfirst, hlast] at hlines
  have hone : numbered (twoTextsSource.history 0) 1 1 = [(twoTexts, 1)] := rfl
  have hparse : reads.flatMap (codexParser twoTextsLanguage).parse =
      (codexParser twoTextsLanguage).parse [(twoTexts, 1)] :=
    flatMap_one (codexParser twoTextsLanguage).parse rfl (hlines.trans hone)
  have hhits := congrArg List.length hfound.hits
  rw [hparse] at hhits
  have hcount := congrArg List.length h
  have hfew : (matchingLines twoTextsLanguage (codexParser twoTextsLanguage) twoTextsQuery
      (numbered [twoTexts] 1 1)).length ≤ 1 := by
    rw [matchingLines, List.length_map]
    exact List.length_filter_le _ _
  rw [List.length_map, hhits, List.rtake, List.rtake, List.length_drop, List.length_drop,
    hits_twoTexts] at hcount
  have hlimit : twoTextsQuery.limit = 2 := rfl
  omega

end Ccmux.Context.Search
