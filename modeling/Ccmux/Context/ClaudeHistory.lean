/- Module: Ccmux/Context/ClaudeHistory
   source: src/context/claude.ts
   digest: The items of a Claude transcript, oldest first, under cursors that are line numbers. -/

import Ccmux.Chat.LogFeed
import Ccmux.Context.CompleteHistory
import Ccmux.Lib.Text

namespace Ccmux.Context.ClaudeHistory

open Ccmux.Chat.LogFeed (parseInt parseInt_toDigits)
open Ccmux.Context.CompleteHistory
open Ccmux.Context.History
open Ccmux.Lib.CursorWalk
open Ccmux.Lib.Text (includes)
open Ccmux.Transcript.Stats (TranscriptRole TranscriptKind)

/-- What a history entry takes from a parsed message; `isError` is whether its status is `error`. -/
structure TranscriptMessage where
  id : String
  role : TranscriptRole
  kind : TranscriptKind
  text : Option String
  isError : Bool
  deriving DecidableEq, Repr

/-- What the lines of a transcript are read as: the messages `parse` finds on one line, and the
texts under `subtype` and `uuid` of a line that is JSON. -/
structure LineReader where
  parse : String → List TranscriptMessage
  record : String → Option (Option String × Option String)

/-- One transcript message as a history entry. -/
def historyEntry (message : TranscriptMessage) : NativeHistoryEntry where
  turnId := message.id
  itemId := message.id
  kind :=
    match message.kind, message.role with
    | .thinking, _ => .reasoningSummary
    | .toolCall, _ | .toolResult, _ => .tool
    | _, .user => .user
    | _, .assistant => .assistant
    | _, _ => .other
  text := message.text
  omittedBytes := 0
  images := []
  omittedImages := 0
  status := if message.isError then .failed else .completed
  tool := none

def compactionEntry (boundary : String) : NativeHistoryEntry where
  turnId := boundary
  itemId := boundary
  kind := .compaction
  text := none
  omittedBytes := 0
  images := []
  omittedImages := 0
  status := .completed
  tool := none

section
variable (reader : LineReader)

/-- The uuid of a compaction boundary on this line, if it is one. -/
def compactBoundary (raw : String) : Option String :=
  if includes raw.toList "compact_boundary".toList then
    (reader.record raw).bind fun (subtype, uuid) =>
      if subtype = some "compact_boundary" then uuid else none
  else none

def lineEntries (raw : String) : List NativeHistoryEntry :=
  match compactBoundary reader raw with
  | some boundary => [compactionEntry boundary]
  | none => (reader.parse raw).map historyEntry

/-- The cursor is a line offset into the transcript. -/
def offsetOf : Option String → Except HistoryError Nat
  | none => .ok 0
  | some cursor =>
    match parseInt cursor.toList with
    | none => .error (.app cursorInvalid)
    | some value => if value < 0 then .error (.app cursorInvalid) else .ok value.toNat

/-- The loop over the lines that are left, from `line` on, until there are entries enough. -/
def readLines (limit : Nat) :
    List String → Nat → List NativeHistoryEntry → List NativeHistoryEntry × Nat
  | [], line, entries => (entries, line)
  | raw :: rest, line, entries =>
    if entries.length < limit then
      readLines limit rest (line + 1) (entries ++ lineEntries reader raw)
    else (entries, line)

/-- `history` of a Claude session whose transcript has these lines. -/
def history (cursors : Codec HistoryCursor) (o : Owner) (all : List String) (limit : Nat)
    (cursor : Option String) : Except HistoryError NativeHistoryPage := do
  let start ← offsetOf (← historyCursor cursors o cursor)
  let (entries, line) := readLines reader limit (all.drop start) start []
  let done := decide (all.length ≤ line)
  boundedHistoryPage cursors o entries (if done then none else some (toString line))
    (if done then .complete else .more) 0

end

/-! ### What a page takes -/

section
variable {reader : LineReader}

theorem readLines_spec (reader : LineReader) (limit : Nat) (lines : List String) (line : Nat)
    (entries : List NativeHistoryEntry) :
    ∃ taken, taken ≤ lines.length ∧ readLines reader limit lines line entries =
        (entries ++ (lines.take taken).flatMap (lineEntries reader), line + taken) ∧
      (entries.length < limit → lines ≠ [] → 0 < taken) := by
  induction lines generalizing line entries with
  | nil => exact ⟨0, Nat.le_refl _, by simp [readLines], fun _ hne => absurd rfl hne⟩
  | cons raw rest ih =>
    rw [readLines]
    split
    · obtain ⟨taken, hle, hread, -⟩ := ih (line + 1) (entries ++ lineEntries reader raw)
      refine ⟨taken + 1, by simpa using hle, ?_, fun _ _ => Nat.succ_pos _⟩
      rw [hread]
      simp only [List.take_succ_cons, List.flatMap_cons, List.append_assoc]
      rw [Nat.add_assoc, Nat.add_comm 1 taken]
    · rename_i hfull
      exact ⟨0, Nat.zero_le _, by simp, fun hroom => absurd hroom hfull⟩

theorem offsetOf_toString (line : Nat) : offsetOf (some (toString line)) = .ok line := by
  simp [offsetOf, parseInt_toDigits]

end

/-! ### Following the cursors -/

section
variable (reader : LineReader) (cursors : Codec HistoryCursor) (o : Owner) (all : List String)

/-- A cursor this session's pages give out, or none. -/
def AtLine : Option String → Prop
  | none => True
  | some text => ∃ line, historyCursor cursors o (some text) = .ok (some (toString line)) ∧
      line < all.length

def lineOf (cursor : Option String) : Nat :=
  match historyCursor cursors o cursor with
  | .error _ => 0
  | .ok inner => match offsetOf inner with
    | .error _ => 0
    | .ok line => line

/-- The entries of the lines that a cursor leaves. -/
def leftLines (cursor : Option String) : List NativeHistoryEntry :=
  (all.drop (lineOf cursors o cursor)).flatMap (lineEntries reader)

/-- A page shows the first of its entries, and counts the others. -/
structure ShowsLines (page : NativeHistoryPage) (rows : List NativeHistoryEntry) : Prop where
  shown : List.Forall₂ Trimmed page.entries (rows.take maxEntries)
  omitted : page.omittedItems = rows.length - maxEntries

/-- An entry the schema refuses, or a cursor that is too long. -/
def FailsLines : HistoryError → Prop
  | .refused .entry => ∃ raw ∈ all, ∃ entry ∈ lineEntries reader raw, entry.valid = false
  | .refused .cursor => ∃ line < all.length, within maxCursor (toString line) = false
  | .refused .page => ∃ line < all.length,
      maxCursor < Chat.Format.utf16Length (cursors.encode (wrapped o (toString line)))
  | _ => False

end

section
variable {reader : LineReader} {cursors : Codec HistoryCursor} {o : Owner} {all : List String}

theorem lineOf_spec {cursor : Option String} (hat : AtLine cursors o all cursor) :
    ∃ inner, historyCursor cursors o cursor = .ok inner ∧
      offsetOf inner = .ok (lineOf cursors o cursor) ∧ lineOf cursors o cursor ≤ all.length := by
  cases cursor with
  | none => exact ⟨none, rfl, rfl, Nat.zero_le _⟩
  | some text =>
    obtain ⟨line, hcursor, hline⟩ := hat
    have hoffset : lineOf cursors o (some text) = line := by
      unfold lineOf
      rw [hcursor]
      dsimp only
      rw [offsetOf_toString]
    refine ⟨some (toString line), hcursor, ?_, ?_⟩
    · rw [offsetOf_toString, hoffset]
    · rw [hoffset]
      exact Nat.le_of_lt hline

theorem history_eq (reader : LineReader) {limit : Nat} (hlimit : 0 < limit) {cursor : Option String}
    (hat : AtLine cursors o all cursor) :
    ∃ taken, taken ≤ (all.drop (lineOf cursors o cursor)).length ∧
      (lineOf cursors o cursor < all.length → 0 < taken) ∧
      history reader cursors o all limit cursor = boundedHistoryPage cursors o
        (((all.drop (lineOf cursors o cursor)).take taken).flatMap (lineEntries reader))
        (if all.length ≤ lineOf cursors o cursor + taken then none
          else some (toString (lineOf cursors o cursor + taken)))
        (if all.length ≤ lineOf cursors o cursor + taken then .complete else .more) 0 := by
  obtain ⟨inner, hcursor, hoffset, hle⟩ := lineOf_spec hat
  obtain ⟨taken, htaken, hread, hmoves⟩ := readLines_spec reader limit
    (all.drop (lineOf cursors o cursor)) (lineOf cursors o cursor) []
  refine ⟨taken, htaken, fun hmore => hmoves hlimit ?_, ?_⟩
  · rw [← List.length_pos_iff, List.length_drop]
    omega
  · unfold history
    rw [hcursor]
    dsimp only [bind, Except.bind]
    rw [hoffset]
    dsimp only
    rw [hread, List.nil_append]
    by_cases hdone : all.length ≤ lineOf cursors o cursor + taken
    · simp [hdone]
    · simp [hdone]

/-- Each page takes the lines from its cursor on, and its cursor stands behind them. -/
theorem history_serves (reader : LineReader) (cursors : Codec HistoryCursor) (o : Owner)
    (all : List String) : Serves
      (fun (limit : Limit) cursor => history reader cursors o all limit.1 cursor)
      NativeHistoryPage.nextCursor (AtLine cursors o all) (leftLines reader cursors o all)
      (fun cursor => all.length - lineOf cursors o cursor) (fun _ => ShowsLines)
      (FailsLines reader cursors o all) := by
  refine ⟨fun limit cursor e hat herror => ?_, fun limit cursor page hat hpage => ?_⟩
  · obtain ⟨taken, -, -, hhistory⟩ := history_eq reader limit.2.1 hat
    rw [hhistory] at herror
    have hnext : ∀ text, (if all.length ≤ lineOf cursors o cursor + taken then none
        else some (toString (lineOf cursors o cursor + taken))) = some text →
        ∃ line < all.length, text = toString line := by
      intro text htext
      split at htext
      · cases htext
      · exact ⟨_, by omega, (Option.some.inj htext).symm⟩
    rcases boundedHistoryPage_error herror with ⟨rfl, entry, hentry, hbad⟩ | ⟨rfl, text, htext, hbad⟩ |
      ⟨rfl, text, hencode, hlong⟩
    · obtain ⟨raw, hraw, hmem⟩ := List.mem_flatMap.mp hentry
      exact ⟨raw, List.mem_of_mem_drop (List.mem_of_mem_take hraw), entry, hmem, hbad⟩
    · obtain ⟨line, hline, rfl⟩ := hnext text htext
      exact ⟨line, hline, hbad⟩
    · obtain ⟨inner, hinner, rfl⟩ := encode_some cursors o hencode
      obtain ⟨line, hline, rfl⟩ := hnext inner hinner
      exact ⟨line, hline, hlong⟩
  · obtain ⟨taken, htaken, hmoves, hhistory⟩ := history_eq reader limit.2.1 hat
    rw [hhistory] at hpage
    have hbounds := boundedHistoryPage_ok hpage
    refine ⟨_, ⟨hbounds.shown, by rw [hbounds.omitted, Nat.zero_add]⟩, ?_⟩
    rw [List.length_drop] at htaken
    have hwraps := hbounds.wraps
    by_cases hdone : all.length ≤ lineOf cursors o cursor + taken
    · rw [if_pos hdone] at hwraps
      have hnone : page.nextCursor = none := (Except.ok.inj hwraps).symm
      rw [hnone]
      show leftLines reader cursors o all cursor = _
      rw [leftLines, List.take_of_length_le (by rw [List.length_drop]; omega)]
    · rw [if_neg hdone] at hwraps
      cases hnext : page.nextCursor with
      | none =>
        rw [hnext, encode_eq_none_iff] at hwraps
        cases hwraps
      | some text =>
        rw [hnext] at hwraps
        have hcursor := historyCursor_encode cursors o hwraps
        have hat' : AtLine cursors o all (some text) := ⟨_, hcursor, by omega⟩
        have hline : lineOf cursors o (some text) = lineOf cursors o cursor + taken := by
          conv_lhs => unfold lineOf
          rw [hcursor]
          dsimp only
          rw [offsetOf_toString]
        have hpos := hmoves (by omega)
        have hrank : all.length - lineOf cursors o (some text) <
            all.length - lineOf cursors o cursor := by omega
        refine ⟨hat', ?_, hrank⟩
        unfold leftLines
        rw [hline, ← List.flatMap_append, ← List.drop_drop, List.take_append_drop]

end

end Ccmux.Context.ClaudeHistory
