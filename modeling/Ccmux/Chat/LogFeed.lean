/- Module: Ccmux/Chat/LogFeed
   source: src/chat/logFeed.ts (formatCursor, parseCursor, boundFrame, FEED_LEDGER, FEED_OUTBOX,
     rowsAfter), src/chat/ledger.ts (parseRecord)
   digest: The log as a feed of rows, each with the position a consumer resumes from. -/

import Mathlib
import Ccmux.Chat.FleetLog
import Ccmux.Util.JsonlRun

namespace Ccmux.Chat.LogFeed

open Ccmux.Chat.Envelope (Envelope)
open Ccmux.Chat.FleetLog
open Ccmux.Fleet.Outbox (Outbound)
open Ccmux.Util.Jsonl (JsonlOptions)

def CHAT_GENERATION : Nat := 2

/-- Where a reader got to in each of the two files. -/
structure LogCursor where
  gen : Nat
  ledger : Nat
  outbox : Nat
  deriving DecidableEq, Repr

def ZERO_CURSOR : LogCursor := ⟨CHAT_GENERATION, 0, 0⟩

@[grind =]
def formatCursor (c : LogCursor) : String :=
  toString c.gen ++ "." ++ toString c.ledger ++ "." ++ toString c.outbox

/-- What `Number.parseInt` skips. -/
def isSpace (c : Char) : Bool :=
  decide (c.toNat ∈ [9, 10, 11, 12, 13, 32, 160, 5760, 8232, 8233, 8239, 8287, 12288, 65279]) ||
    decide (8192 ≤ c.toNat ∧ c.toNat ≤ 8202)

/-- The digits a number starts with; `none` is `NaN`. -/
def parseDigits (text : List Char) : Option Nat :=
  let digits := text.takeWhile Char.isDigit
  if digits = [] then none else some (Nat.ofDigitChars 10 digits 0)

/-- `Number.parseInt(text, 10)`. -/
def parseInt (text : List Char) : Option Int :=
  match text.dropWhile isSpace with
  | '-' :: rest => (parseDigits rest).map fun n => -(n : Int)
  | '+' :: rest => (parseDigits rest).map fun n => (n : Int)
  | rest => (parseDigits rest).map fun n => (n : Int)

/-- Read a cursor back, refusing anything this build cannot honour. -/
@[grind =]
def parseCursor (raw : String) : Except String LogCursor :=
  match raw.toList.splitOn '.' with
  | [gen, ledger, outbox] =>
    match parseInt gen, parseInt ledger, parseInt outbox with
    | some gen, some ledger, some outbox =>
      if ledger < 0 ∨ outbox < 0 then
        .error ("expected three non-negative integers, got '" ++ raw ++ "'")
      else if gen ≠ CHAT_GENERATION then
        .error ("cursor is for record generation " ++ toString gen ++ ", this log is generation " ++
          toString CHAT_GENERATION ++ ". Positions do not survive a generation change — start " ++
          "without a cursor to read the current log.")
      else .ok ⟨CHAT_GENERATION, ledger.toNat, outbox.toNat⟩
    | _, _, _ => .error ("expected three non-negative integers, got '" ++ raw ++ "'")
  | _ => .error ("expected <generation>.<ledger>.<outbox>, got '" ++ raw ++ "'")

structure LogFrame where
  cursor : String
  row : LogRow

def MAX_FRAME_BYTES : Nat := 32 * 1024

/-- `raw.v` of a record: a number, or what else it is printed as. -/
inductive Generation where
  | number (n : Int)
  | other (found : String)

def Generation.text : Generation → String
  | .number n => toString n
  | .other found => found

/-- What is taken from the language and its validator: `Buffer.byteLength` of a text and of a
frame's JSON, and what the schemas of a record and of an attempt read from a value. -/
structure Builtins (J : Type) where
  textBytes : String → Nat
  frameBytes : LogFrame → Nat
  generation : J → Generation
  message : J → Option Envelope
  isCore : J → Bool
  outbound : J → Option Outbound

section
variable {J : Type} (b : Builtins J)

/-- An oversized body is replaced by a sentence that says so, never cut. -/
def omitBody (frame : LogFrame) : LogFrame :=
  let body := "(body omitted: " ++ toString (b.textBytes frame.row.body) ++
    " bytes exceeds this feed's " ++ toString MAX_FRAME_BYTES ++
    "-byte record limit — read it with: ccmux chat log -n 1 --json)"
  let note := if frame.row.note = "" then "oversized" else frame.row.note ++ "; oversized"
  { frame with row := { frame.row with body := body, note := note } }

def omitEvidence (frame : LogFrame) : LogFrame :=
  let note := frame.row.note ++
    "; communication authorization omitted from feed — read the source ledger by messageId"
  let row : LogRow :=
    { frame.row with
      communicationAuthorization := none
      communicationReceipt := none
      note := note }
  { frame with row := row }

/-- A frame that fits: first without its body, at the last without its evidence. -/
def boundFrame (frame : LogFrame) : LogFrame :=
  if b.frameBytes frame ≤ MAX_FRAME_BYTES then frame
  else if b.frameBytes (omitBody b frame) ≤ MAX_FRAME_BYTES then omitBody b frame
  else omitEvidence (omitBody b frame)

def rowFrame (row : LogRow) (cursor : LogCursor) : LogFrame :=
  boundFrame b ⟨formatCursor cursor, row⟩

/-- One record to a message, or to a hole where a newer build wrote it; anything else is refused. -/
def parseRecord (raw : J) (place : String) : Except String (Option Envelope) :=
  match b.generation raw with
  | .number n =>
    if n = CHAT_GENERATION then
      match b.message raw with
      | some message => .ok (some message)
      | none =>
        if b.isCore raw then .ok none
        else
          .error (place ++ " — chat record is generation " ++ toString CHAT_GENERATION ++
            " but malformed: it is missing fields every record of this generation carries")
    else if n > CHAT_GENERATION then .ok none
    else
      .error (place ++ " — chat record generation " ++ toString n ++ ", this build reads " ++
        toString CHAT_GENERATION ++ ". Records from before the identity model are not readable " ++
        "here; move them under archive/.")
  | .other found =>
    .error (place ++ " — chat record generation " ++ found ++ ", this build reads " ++
      toString CHAT_GENERATION ++ ". Records from before the identity model are not readable " ++
      "here; move them under archive/.")

/-- The decoders the two files are read with: the feed's own, and those of other readers. -/
inductive Reader where
  | feedLedger
  | feedOutbox
  | other (n : Nat)
  deriving DecidableEq

inductive FeedRecord where
  | ledger (line : Nat) (record : Option Envelope)
  | outbox (line : Nat) (parsed : Outbound)
  | other (slot : Option Envelope)

def FEED_LEDGER : JsonlOptions Reader := ⟨"chat ledger", .hole, .feedLedger⟩

def FEED_OUTBOX : JsonlOptions Reader := ⟨"outbox", .skip, .feedOutbox⟩

/-- A ledger line this build cannot read stays as a hole. -/
def ledgerSlot : Option J → Option Envelope
  | none => none
  | some raw =>
    match parseRecord b raw "chat feed" with
    | .ok record => record
    | .error _ => none

variable (others : Nat → Option J → Nat → Except String (Option FeedRecord))

def decode : Reader → Option J → Nat → Except String (Option FeedRecord)
  | .feedLedger, raw, line => .ok (some (.ledger line (ledgerSlot b raw)))
  | .feedOutbox, raw, line => .ok ((raw.bind b.outbound).map (FeedRecord.outbox line))
  | .other n, raw, line => others n raw line

def FeedRecord.ledgerLine? : FeedRecord → Option (Nat × Option Envelope)
  | .ledger line record => some (line, record)
  | _ => none

def FeedRecord.outboxLine? : FeedRecord → Option (Nat × Outbound)
  | .outbox line parsed => some (line, parsed)
  | _ => none

/-- One of the two loops: the lines after the cursor, each framed with the position it is at. -/
def frameLoop {α : Type} (place : LogCursor → Nat → LogCursor) (row : α → LogRow) (after : Nat) :
    List (Nat × α) → LogCursor → List LogFrame × LogCursor
  | [], at_ => ([], at_)
  | (line, record) :: rest, at_ =>
    if line ≤ after then frameLoop place row after rest at_
    else
      let next := place at_ line
      let more := frameLoop place row after rest next
      (rowFrame b (row record) next :: more.1, more.2)

def ledgerPlace (c : LogCursor) (line : Nat) : LogCursor := { c with ledger := line }

def outboxPlace (c : LogCursor) (line : Nat) : LogCursor := { c with outbox := line }

/-- Everything after the cursor, in position order: the ledger first, then the outbox. -/
def rowsAfter (machine : String) (cursor : LogCursor) (settled : String → Bool)
    (ledger outbox : List FeedRecord) : List LogFrame × LogCursor :=
  let first := frameLoop b ledgerPlace (rowFromLedgerRecord machine) cursor.ledger
    (ledger.filterMap FeedRecord.ledgerLine?) cursor
  let second := frameLoop b outboxPlace (fun o => rowFromOutbound machine o settled) cursor.outbox
    (outbox.filterMap FeedRecord.outboxLine?) first.2
  (first.1 ++ second.1, second.2)

theorem boundFrame_cursor (frame : LogFrame) : (boundFrame b frame).cursor = frame.cursor := by
  unfold boundFrame
  split
  · rfl
  · split <;> rfl

theorem boundFrame_kind (frame : LogFrame) : (boundFrame b frame).row.kind = frame.row.kind := by
  unfold boundFrame
  split
  · rfl
  · split <;> rfl

@[simp] theorem rowFrame_cursor (row : LogRow) (c : LogCursor) :
    (rowFrame b row c).cursor = formatCursor c := boundFrame_cursor b _

@[simp] theorem rowFrame_kind (row : LogRow) (c : LogCursor) :
    (rowFrame b row c).row.kind = row.kind := boundFrame_kind b _

end

section cursors

theorem parseDigits_toDigits (n : Nat) : parseDigits (Nat.toDigits 10 n) = some n := by
  have hall : (Nat.toDigits 10 n).takeWhile Char.isDigit = Nat.toDigits 10 n := by
    apply List.takeWhile_eq_self_iff.mpr
    intro c hc
    exact Nat.isDigit_of_mem_toDigits (by decide) (by decide) hc
  have hsome : Nat.toDigits 10 n ≠ [] := Nat.toDigits_ne_nil
  simp only [parseDigits, hall, if_neg hsome, Nat.ofDigitChars_ten_toDigits]

theorem isSpace_digit {c : Char} (h : c.isDigit = true) : isSpace c = false := by
  simp only [Char.isDigit, Bool.and_eq_true, decide_eq_true_eq] at h
  have hlow : 48 ≤ c.toNat := h.1
  have hhigh : c.toNat ≤ 57 := h.2
  simp only [isSpace, Bool.or_eq_false_iff, decide_eq_false_iff_not, List.mem_cons,
    List.not_mem_nil, or_false]
  omega

theorem parseInt_toDigits (n : Nat) : parseInt (Nat.toDigits 10 n) = some (n : Int) := by
  have hdigits := parseDigits_toDigits n
  cases hlist : Nat.toDigits 10 n with
  | nil => exact absurd hlist Nat.toDigits_ne_nil
  | cons c rest =>
    have hc : c.isDigit = true :=
      Nat.isDigit_of_mem_toDigits (b := 10) (n := n) (by decide) (by decide) (by rw [hlist]; simp)
    have hspace : (c :: rest).dropWhile isSpace = c :: rest := by
      simp [isSpace_digit hc]
    have hminus : c ≠ '-' := by
      rintro rfl
      exact absurd hc (by decide)
    have hplus : c ≠ '+' := by
      rintro rfl
      exact absurd hc (by decide)
    rw [hlist] at hdigits
    unfold parseInt
    rw [hspace]
    split
    · next h => exact absurd (List.cons.inj h).1 hminus
    · next h => exact absurd (List.cons.inj h).1 hplus
    · rw [hdigits]
      rfl

theorem parseCursor_formatCursor {c : LogCursor} (h : c.gen = CHAT_GENERATION) :
    parseCursor (formatCursor c) = .ok c := by
  have hdot : ∀ n : Nat, '.' ∉ Nat.toDigits 10 n := by
    intro n hmem
    exact absurd (Nat.isDigit_of_mem_toDigits (by decide) (by decide) hmem) (by decide)
  have htext : (formatCursor c).toList =
      ['.'].intercalate [Nat.toDigits 10 c.gen, Nat.toDigits 10 c.ledger, Nat.toDigits 10 c.outbox] := by
    simp [formatCursor, List.intercalate]
  have hsplit : (formatCursor c).toList.splitOn '.' =
      [Nat.toDigits 10 c.gen, Nat.toDigits 10 c.ledger, Nat.toDigits 10 c.outbox] := by
    rw [htext]
    apply List.splitOn_intercalate
    · intro l hl
      simp only [List.mem_cons, List.not_mem_nil, or_false] at hl
      rcases hl with rfl | rfl | rfl <;> exact hdot _
    · simp
  unfold parseCursor
  rw [hsplit]
  simp only [parseInt_toDigits]
  rw [if_neg (by omega), if_neg (by rw [h]; simp)]
  obtain ⟨gen, ledger, outbox⟩ := c
  simp only at h
  simp [h]

end cursors

end Ccmux.Chat.LogFeed
