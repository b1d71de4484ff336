/- Module: Ccmux/Chat/LogFeedRun
   source: src/chat/logFeed.ts (rowsAfter, followRows)
   digest: A consumer that resumes from any row it received, over two files that grow. -/

import Ccmux.Chat.LogFeed
import Ccmux.Lib.Machine
import Ccmux.Util.JsonlGrowth

namespace Ccmux.Chat.LogFeed

open Ccmux.Chat.Envelope (Envelope)
open Ccmux.Chat.FleetLog
open Ccmux.Fleet.Outbox (Outbound)
open Ccmux.Lib.Lines
open Ccmux.Lib.Machine
open Ccmux.Util

/-- The lines that read as something, with their numbers; the first follows line `line`. -/
@[grind =]
def numbered {α : Type} (read : List UInt8 → Option α) : Nat → List (List UInt8) → List (Nat × α)
  | _, [] => []
  | line, raw :: rest =>
    match read raw with
    | none => numbered read (line + 1) rest
    | some a => (line + 1, a) :: numbered read (line + 1) rest

section
variable {α : Type} (read : List UInt8 → Option α)

theorem numbered_append (line : Nat) (xs ys : List (List UInt8)) :
    numbered read line (xs ++ ys) =
      numbered read line xs ++ numbered read (line + xs.length) ys := by
  induction xs generalizing line with
  | nil => simp [numbered]
  | cons x xs ih =>
    have hline : line + 1 + xs.length = line + (x :: xs).length := by
      rw [List.length_cons]
      omega
    simp only [List.cons_append, numbered]
    rw [ih, hline]
    cases read x <;> rfl

theorem numbered_bounds {line : Nat} {xs : List (List UInt8)} {p : Nat × α}
    (h : p ∈ numbered read line xs) : line < p.1 ∧ p.1 ≤ line + xs.length := by
  induction xs generalizing line with
  | nil => simp [numbered] at h
  | cons x xs ih =>
    simp only [numbered] at h
    cases hread : read x with
    | none =>
      simp only [hread] at h
      have hrest := ih h
      rw [List.length_cons]
      omega
    | some a =>
      simp only [hread, List.mem_cons] at h
      rw [List.length_cons]
      rcases h with hfirst | hmore
      · rw [hfirst]
        dsimp only
        omega
      · have hrest := ih hmore
        omega

theorem numbered_increasing (line : Nat) (xs : List (List UInt8)) :
    (numbered read line xs).Pairwise fun p q => p.1 < q.1 := by
  induction xs generalizing line with
  | nil => exact List.Pairwise.nil
  | cons x xs ih =>
    simp only [numbered]
    cases read x with
    | none => exact ih (line + 1)
    | some a =>
      refine List.Pairwise.cons ?_ (ih (line + 1))
      intro q hq
      exact (numbered_bounds read hq).1

end

/-- The next numbered line after a position. -/
@[grind =]
def nextAfter {α : Type} (lines : List (Nat × α)) (position : Nat) : Option (Nat × α) :=
  lines.find? fun p => decide (position < p.1)

variable {α : Type} {position : Nat}

theorem nextAfter_append {lines : List (Nat × α)} {p : Nat × α} (more : List (Nat × α))
    (h : nextAfter lines position = some p) :
    nextAfter (lines ++ more) position = some p := by
  unfold nextAfter at h ⊢
  rw [List.find?_append, h]
  rfl

/-- Among increasing numbers, those up to the next one are those up to the position and it. -/
theorem filter_nextAfter {lines : List (Nat × α)} {p : Nat × α}
    (hlines : lines.Pairwise fun p q => p.1 < q.1) (h : nextAfter lines position = some p) :
    (lines.filter fun q => decide (q.1 ≤ p.1)) =
      (lines.filter fun q => decide (q.1 ≤ position)) ++ [p] := by
  induction lines with
  | nil => simp [nextAfter] at h
  | cons q lines ih =>
    obtain ⟨hq, hrest⟩ := List.pairwise_cons.mp hlines
    by_cases hafter : position < q.1
    · have hp : q = p := by simpa [nextAfter, hafter] using h
      have hnone : (lines.filter fun r => decide (r.1 ≤ p.1)) = [] := by
        apply List.filter_eq_nil_iff.mpr
        intro r hr
        have hlt := hq r hr
        rw [hp] at hlt
        simp only [decide_eq_true_eq]
        omega
      have hnone' : (lines.filter fun r => decide (r.1 ≤ position)) = [] := by
        apply List.filter_eq_nil_iff.mpr
        intro r hr
        have hlt := hq r hr
        simp only [decide_eq_true_eq]
        omega
      rw [List.filter_cons_of_pos (by simp [hp]), List.filter_cons_of_neg (by simpa using hafter),
        hnone, hnone', hp]
      rfl
    · have hnext : nextAfter lines position = some p := by
        simpa [nextAfter, hafter] using h
      have hp : position < p.1 := by
        have hfound := List.find?_some hnext
        simpa using hfound
      rw [List.filter_cons_of_pos (by simp only [decide_eq_true_eq]; omega),
        List.filter_cons_of_pos (by simp only [decide_eq_true_eq]; omega), ih hrest hnext]
      rfl

section
variable {J : Type} (files : Jsonl.Builtins J) (b : Builtins J) (machine : String)
  (others : Nat → Option J → Nat → Except String (Option FeedRecord))

/-- What a ledger line reads as: a blank one as nothing, one this build cannot read as a hole. -/
def readLedgerLine (raw : List UInt8) : Option (Option Envelope) :=
  let trimmed := files.trim (files.utf8 raw)
  if trimmed = "" then none else some (ledgerSlot b (files.parse trimmed))

def readOutboxLine (raw : List UInt8) : Option Outbound :=
  let trimmed := files.trim (files.utf8 raw)
  if trimmed = "" then none else (files.parse trimmed).bind b.outbound

def wholeLines (bytes : List UInt8) : List (List UInt8) := (cut Jsonl.newline bytes).raws

def ledgerLines (bytes : List UInt8) : List (Nat × Option Envelope) :=
  numbered (readLedgerLine files b) 0 (wholeLines bytes)

def outboxLines (bytes : List UInt8) : List (Nat × Outbound) :=
  numbered (readOutboxLine files b) 0 (wholeLines bytes)

/-- The two files with what is remembered of them, and the rows the consumer holds. -/
structure World where
  ledger : Jsonl.World Reader FeedRecord
  outbox : Jsonl.World Reader FeedRecord
  received : List LogFrame

def World.empty : World := ⟨Jsonl.World.start none, Jsonl.World.start none, []⟩

/-- The cursor of the last row, or the start. -/
@[grind =]
def resumeCursor (received : List LogFrame) : String :=
  match received.getLast? with
  | none => formatCursor ZERO_CURSOR
  | some frame => frame.cursor

/-- One answer to a consumer: which ids the caller knows to be settled, how the two files' bytes
come, and how many frames arrive before the consumer stops listening. -/
structure Answer where
  settled : String → Bool
  ledgerChunk : Nat → Nat
  outboxChunk : Nat → Nat
  kept : Nat

/-- The files grow by any bytes; another reader of the process reads one of them; the consumer asks
from the row it is at; it goes back to an earlier row and forgets what came after. -/
inductive Event where
  | appendLedger (identity : String) (bytes : List UInt8)
  | appendOutbox (identity : String) (bytes : List UInt8)
  | readLedger (chunk : Nat → Nat) (n : Nat) (label : String) (badLine : Jsonl.BadLine)
  | readOutbox (chunk : Nat → Nat) (n : Nat) (label : String) (badLine : Jsonl.BadLine)
  | ask (answer : Answer)
  | back (n : Nat)

/-- The frames of one answer, and the files' memories after it. -/
def answerFrames (w : World) (cursor : LogCursor) (answer : Answer) :
    Except String (List LogFrame) × World :=
  let first := Jsonl.call files (decode b others) w.ledger answer.ledgerChunk FEED_LEDGER
  match first.1 with
  | .error e => (.error e, { w with ledger := first.2 })
  | .ok ledger =>
    let second := Jsonl.call files (decode b others) w.outbox answer.outboxChunk FEED_OUTBOX
    let after : World := { w with ledger := first.2, outbox := second.2 }
    match second.1 with
    | .error e => (.error e, after)
    | .ok outbox => (.ok (rowsAfter b machine cursor answer.settled ledger outbox).1, after)

def step (w : World) : Event → Option World
  | .appendLedger identity bytes => some { w with ledger := Jsonl.grow w.ledger identity bytes }
  | .appendOutbox identity bytes => some { w with outbox := Jsonl.grow w.outbox identity bytes }
  | .readLedger chunk n label badLine =>
    let asked := Jsonl.call files (decode b others) w.ledger chunk ⟨label, badLine, .other n⟩
    some { w with ledger := asked.2 }
  | .readOutbox chunk n label badLine =>
    let asked := Jsonl.call files (decode b others) w.outbox chunk ⟨label, badLine, .other n⟩
    some { w with outbox := asked.2 }
  | .ask answer =>
    match parseCursor (resumeCursor w.received) with
    | .error _ => none
    | .ok cursor =>
      match answerFrames files b machine others w cursor answer with
      | (.error _, _) => none
      | (.ok frames, after) =>
        some { after with received := w.received ++ frames.take answer.kept }
  | .back n => some { w with received := w.received.take n }

/-- Rows received one after another, each the next line of its file after the position before it. -/
inductive Feeds (ledger : List (Nat × Option Envelope)) (outbox : List (Nat × Outbound)) :
    List LogFrame → LogCursor → Prop
  | start : Feeds ledger outbox [] ZERO_CURSOR
  | ledgerRow {received : List LogFrame} {c : LogCursor} {p : Nat × Option Envelope} :
      Feeds ledger outbox received c → nextAfter ledger c.ledger = some p →
      Feeds ledger outbox
        (received ++ [rowFrame b (rowFromLedgerRecord machine p.2) (ledgerPlace c p.1)])
        (ledgerPlace c p.1)
  | outboxRow {received : List LogFrame} {c : LogCursor} {p : Nat × Outbound}
      {settled : String → Bool} :
      Feeds ledger outbox received c → nextAfter outbox c.outbox = some p →
      Feeds ledger outbox
        (received ++ [rowFrame b (rowFromOutbound machine p.2 settled) (outboxPlace c p.1)])
        (outboxPlace c p.1)

variable {files b machine others}

variable {ledger : List (Nat × Option Envelope)} {outbox : List (Nat × Outbound)}
  {received : List LogFrame} {c : LogCursor} {w : World}

theorem Feeds.append (h : Feeds b machine ledger outbox received c)
    (more : List (Nat × Option Envelope)) (moreOutbox : List (Nat × Outbound)) :
    Feeds b machine (ledger ++ more) (outbox ++ moreOutbox) received c := by
  induction h with
  | start => exact Feeds.start
  | ledgerRow _ hnext ih => exact Feeds.ledgerRow ih (nextAfter_append more hnext)
  | outboxRow _ hnext ih => exact Feeds.outboxRow ih (nextAfter_append moreOutbox hnext)

theorem Feeds.gen (h : Feeds b machine ledger outbox received c) :
    c.gen = CHAT_GENERATION := by
  induction h with
  | start => rfl
  | ledgerRow _ _ ih => exact ih
  | outboxRow _ _ ih => exact ih

theorem Feeds.resumeCursor (h : Feeds b machine ledger outbox received c) :
    LogFeed.resumeCursor received = formatCursor c := by
  cases h with
  | start => rfl
  | ledgerRow _ _ => simp [LogFeed.resumeCursor]
  | outboxRow _ _ => simp [LogFeed.resumeCursor]

theorem Feeds.take (h : Feeds b machine ledger outbox received c)
    (n : Nat) : ∃ d, Feeds b machine ledger outbox (received.take n) d := by
  induction h with
  | start => exact ⟨_, by simpa using Feeds.start⟩
  | @ledgerRow received c p hprev hnext ih =>
    by_cases hn : n ≤ received.length
    · rw [List.take_append_of_le_length hn]
      exact ih
    · rw [List.take_of_length_le (by simp only [List.length_append, List.length_singleton]; omega)]
      exact ⟨_, Feeds.ledgerRow hprev hnext⟩
  | @outboxRow received c p settled hprev hnext ih =>
    by_cases hn : n ≤ received.length
    · rw [List.take_append_of_le_length hn]
      exact ih
    · rw [List.take_of_length_le (by simp only [List.length_append, List.length_singleton]; omega)]
      exact ⟨_, Feeds.outboxRow hprev hnext⟩

variable (b machine) in
/-- The row of a ledger line, with a cursor that names the line. -/
def LedgerFrame (frame : LogFrame) (p : Nat × Option Envelope) : Prop :=
  ∃ c : LogCursor, c.ledger = p.1 ∧ c.gen = CHAT_GENERATION ∧
    frame = rowFrame b (rowFromLedgerRecord machine p.2) c

variable (b machine) in
/-- The row of an outbox line, with a cursor that names the line. -/
def OutboxFrame (frame : LogFrame) (p : Nat × Outbound) : Prop :=
  ∃ (c : LogCursor) (settled : String → Bool), c.outbox = p.1 ∧ c.gen = CHAT_GENERATION ∧
    frame = rowFrame b (rowFromOutbound machine p.2 settled) c

def ledgerRows (received : List LogFrame) : List LogFrame :=
  received.filter fun frame => decide (frame.row.kind = .chat)

def outboxRows (received : List LogFrame) : List LogFrame :=
  received.filter fun frame => decide (frame.row.kind = .sent)

/-- The rows received are those of the lines up to the cursor, one each and in order. -/
theorem Feeds.exact (h : Feeds b machine ledger outbox received c)
    (hledger : ledger.Pairwise fun p q => p.1 < q.1) (hpositive : ∀ p ∈ ledger, 0 < p.1)
    (houtbox : outbox.Pairwise fun p q => p.1 < q.1) (hpositive' : ∀ p ∈ outbox, 0 < p.1) :
    List.Forall₂ (LedgerFrame b machine) (ledgerRows received)
        (ledger.filter fun p => decide (p.1 ≤ c.ledger)) ∧
      List.Forall₂ (OutboxFrame b machine) (outboxRows received)
        (outbox.filter fun p => decide (p.1 ≤ c.outbox)) := by
  induction h with
  | start =>
    have hnoLedger : (ledger.filter fun p => decide (p.1 ≤ ZERO_CURSOR.ledger)) = [] := by
      apply List.filter_eq_nil_iff.mpr
      intro p hp
      have hlt := hpositive p hp
      have hzero : ZERO_CURSOR.ledger = 0 := rfl
      simp only [decide_eq_true_eq]
      omega
    have hnoOutbox : (outbox.filter fun p => decide (p.1 ≤ ZERO_CURSOR.outbox)) = [] := by
      apply List.filter_eq_nil_iff.mpr
      intro p hp
      have hlt := hpositive' p hp
      have hzero : ZERO_CURSOR.outbox = 0 := rfl
      simp only [decide_eq_true_eq]
      omega
    rw [hnoLedger, hnoOutbox]
    exact ⟨List.Forall₂.nil, List.Forall₂.nil⟩
  | @ledgerRow received c p hprev hnext ih =>
    obtain ⟨hrows, hsent⟩ := ih
    refine ⟨?_, ?_⟩
    · have hlines : (ledger.filter fun q => decide (q.1 ≤ (ledgerPlace c p.1).ledger)) =
          (ledger.filter fun q => decide (q.1 ≤ c.ledger)) ++ [p] :=
        filter_nextAfter hledger hnext
      rw [hlines]
      simp only [ledgerRows, List.filter_append]
      refine List.rel_append hrows ?_
      rw [List.filter_cons_of_pos (by simp)]
      exact List.Forall₂.cons ⟨ledgerPlace c p.1, rfl, hprev.gen, rfl⟩ List.Forall₂.nil
    · simp only [outboxRows, List.filter_append]
      rw [List.filter_cons_of_neg (by simp), List.filter_nil, List.append_nil]
      exact hsent
  | @outboxRow received c p settled hprev hnext ih =>
    obtain ⟨hrows, hsent⟩ := ih
    refine ⟨?_, ?_⟩
    · simp only [ledgerRows, List.filter_append]
      rw [List.filter_cons_of_neg (by simp), List.filter_nil, List.append_nil]
      exact hrows
    · have hlines : (outbox.filter fun q => decide (q.1 ≤ (outboxPlace c p.1).outbox)) =
          (outbox.filter fun q => decide (q.1 ≤ c.outbox)) ++ [p] :=
        filter_nextAfter houtbox hnext
      rw [hlines]
      simp only [outboxRows, List.filter_append]
      refine List.rel_append hsent ?_
      rw [List.filter_cons_of_pos (by simp)]
      exact List.Forall₂.cons ⟨outboxPlace c p.1, settled, rfl, hprev.gen, rfl⟩ List.Forall₂.nil

variable {α : Type} {bytes : List UInt8}

/-- A loop over increasing lines gives the lines after the cursor, each as the next one. -/
theorem frameLoop_feeds {S : List LogFrame → LogCursor → Prop} {lines : List (Nat × α)}
    (place : LogCursor → Nat → LogCursor) (position : LogCursor → Nat)
    (row : α → LogRow) (hplace : ∀ c line, position (place c line) = line)
    (hstep : ∀ received c p, S received c → nextAfter lines (position c) = some p →
      S (received ++ [rowFrame b (row p.2) (place c p.1)]) (place c p.1))
    (hlines : lines.Pairwise fun p q => p.1 < q.1) (after : Nat) (rest before : List (Nat × α))
    (c : LogCursor) (received : List LogFrame) (hall : lines = before ++ rest)
    (hbefore : ∀ p ∈ before, p.1 ≤ position c)
    (hrest : ∀ p ∈ rest, (p.1 ≤ after ↔ p.1 ≤ position c)) (hS : S received c) :
    S (received ++ (frameLoop b place row after rest c).1) (frameLoop b place row after rest c).2 ∧
      ∀ p ∈ lines, p.1 ≤ position (frameLoop b place row after rest c).2 := by
  induction rest generalizing before c received with
  | nil =>
    refine ⟨by simpa [frameLoop] using hS, ?_⟩
    rw [hall, List.append_nil]
    exact hbefore
  | cons p rest ih =>
    obtain ⟨line, record⟩ := p
    have hsplit : lines = (before ++ [(line, record)]) ++ rest := by simp [hall]
    have hlater : ∀ q ∈ rest, line < q.1 := by
      rw [hall] at hlines
      exact (List.pairwise_cons.mp (List.pairwise_append.mp hlines).2.1).1
    have hhead := hrest (line, record) List.mem_cons_self
    simp only [frameLoop]
    by_cases hskip : line ≤ after
    · rw [if_pos hskip]
      apply ih (before ++ [(line, record)]) c received hsplit
      · intro q hq
        rcases List.mem_append.mp hq with hold | hnew
        · exact hbefore q hold
        · rw [List.mem_singleton.mp hnew]
          exact hhead.mp hskip
      · intro q hq
        exact hrest q (List.mem_cons_of_mem _ hq)
      · exact hS
    · rw [if_neg hskip]
      have hnew : position c < line := by
        have hnot : ¬ line ≤ position c := fun hle => hskip (hhead.mpr hle)
        omega
      have hnext : nextAfter lines (position c) = some (line, record) := by
        have hnone : (before.find? fun q => decide (position c < q.1)) = none := by
          apply List.find?_eq_none.mpr
          intro q hq
          have hle := hbefore q hq
          simp only [decide_eq_true_eq]
          omega
        rw [hall]
        unfold nextAfter
        rw [List.find?_append, hnone]
        simp [hnew]
      have hone := hstep received c (line, record) hS hnext
      have hmore := ih (before ++ [(line, record)]) (place c line)
        (received ++ [rowFrame b (row record) (place c line)]) hsplit
        (by
          intro q hq
          rw [hplace]
          rcases List.mem_append.mp hq with hold | hlast
          · have hle := hbefore q hold
            omega
          · rw [List.mem_singleton.mp hlast])
        (by
          intro q hq
          have hlt := hlater q hq
          have hside := hrest q (List.mem_cons_of_mem _ hq)
          rw [hplace]
          constructor
          · intro hle
            have hback := hside.mp hle
            omega
          · intro hle
            omega)
        hone
      refine ⟨?_, hmore.2⟩
      simpa using hmore.1

/-- What `rowsAfter` gives a consumer is every line after its cursor, in the order of the files. -/
theorem rowsAfter_feeds (hc : Feeds b machine ledger outbox received c)
    (hledger : ledger.Pairwise fun p q => p.1 < q.1)
    (houtbox : outbox.Pairwise fun p q => p.1 < q.1) (settled : String → Bool) :
    ∃ frames d,
      rowsAfter b machine c settled (ledger.map fun p => FeedRecord.ledger p.1 p.2)
        (outbox.map fun p => FeedRecord.outbox p.1 p.2) = (frames, d) ∧
      Feeds b machine ledger outbox (received ++ frames) d ∧ (∀ p ∈ ledger, p.1 ≤ d.ledger) ∧
      ∀ p ∈ outbox, p.1 ≤ d.outbox := by
  have hledgerPairs : (ledger.map fun p => FeedRecord.ledger p.1 p.2).filterMap
      FeedRecord.ledgerLine? = ledger := by
    rw [List.filterMap_map]
    exact List.filterMap_some
  have houtboxPairs : (outbox.map fun p => FeedRecord.outbox p.1 p.2).filterMap
      FeedRecord.outboxLine? = outbox := by
    rw [List.filterMap_map]
    exact List.filterMap_some
  -- the ledger's loop, then the outbox's from where it left the consumer
  obtain ⟨⟨hfirst, hstays⟩, hfirstAll⟩ := frameLoop_feeds (b := b)
    (S := fun received d => Feeds b machine ledger outbox received d ∧ d.outbox = c.outbox)
    ledgerPlace LogCursor.ledger (rowFromLedgerRecord machine) (fun _ _ => rfl)
    (fun _ _ _ hS hnext => ⟨Feeds.ledgerRow hS.1 hnext, hS.2⟩) hledger c.ledger ledger [] c
    received rfl (by simp) (fun _ _ => Iff.rfl) ⟨hc, rfl⟩
  obtain ⟨⟨hsecond, hkeeps⟩, hsecondAll⟩ := frameLoop_feeds (b := b)
    (S := fun received d => Feeds b machine ledger outbox received d ∧
      d.ledger = (frameLoop b ledgerPlace (rowFromLedgerRecord machine) c.ledger ledger c).2.ledger)
    outboxPlace LogCursor.outbox (fun o => rowFromOutbound machine o settled) (fun _ _ => rfl)
    (fun _ _ _ hS hnext => ⟨Feeds.outboxRow hS.1 hnext, hS.2⟩) houtbox c.outbox outbox [] _ _ rfl
    (by simp) (fun _ _ => by rw [hstays]) ⟨hfirst, rfl⟩
  rw [List.append_assoc] at hsecond
  refine ⟨_, _, ?_, hsecond, ?_, hsecondAll⟩
  · simp only [rowsAfter, hledgerPairs, houtboxPairs]
  · rw [hkeeps]
    exact hfirstAll

theorem decodeLines_numbered {options : Jsonl.JsonlOptions Reader} {read : List UInt8 → Option α}
    {wrap : Nat → α → FeedRecord}
    (h : ∀ line raw, Jsonl.decodeLine files (decode b others) options line raw =
      .ok ((read raw).map (wrap line))) (line : Nat) (raws : List (List UInt8)) :
    Jsonl.decodeLines files (decode b others) options line raws =
      .ok ((numbered read line raws).map fun p => wrap p.1 p.2) := by
  induction raws generalizing line with
  | nil => rfl
  | cons raw rest ih =>
    simp only [Jsonl.decodeLines, h, ih, numbered]
    cases read raw <;> rfl

theorem decodeLine_ledger (line : Nat) (raw : List UInt8) :
    Jsonl.decodeLine files (decode b others) FEED_LEDGER line raw =
      .ok ((readLedgerLine files b raw).map (FeedRecord.ledger line)) := by
  simp only [Jsonl.decodeLine, readLedgerLine]
  split
  · rfl
  · cases hparse : files.parse (files.trim (files.utf8 raw)) with
    | none => rfl
    | some parsed => rfl

theorem decodeLine_outbox (line : Nat) (raw : List UInt8) :
    Jsonl.decodeLine files (decode b others) FEED_OUTBOX line raw =
      .ok ((readOutboxLine files b raw).map (FeedRecord.outbox line)) := by
  simp only [Jsonl.decodeLine, readOutboxLine]
  split
  · rfl
  · cases hparse : files.parse (files.trim (files.utf8 raw)) with
    | none => rfl
    | some parsed => rfl

theorem wholeLines_append (xs ys : List UInt8) :
    ∃ more, wholeLines (xs ++ ys) = wholeLines xs ++ more := by
  have hlines : ∃ more, (cut Jsonl.newline (xs ++ ys)).lines = (cut Jsonl.newline xs).lines ++ more ∧
      ∀ line ∈ more, xs.length ≤ line.stop ∧ line.stop < xs.length + ys.length :=
    cut_lines_append xs ys
  obtain ⟨more, hmore, _⟩ := hlines
  exact ⟨more.map Line.raw, by simp [wholeLines, Cut.raws, hmore]⟩

variable (files b) in
theorem ledgerLines_append (xs ys : List UInt8) :
    ∃ more, ledgerLines files b (xs ++ ys) = ledgerLines files b xs ++ more := by
  obtain ⟨more, hmore⟩ := wholeLines_append xs ys
  exact ⟨numbered (readLedgerLine files b) (0 + (wholeLines xs).length) more,
    by simp only [ledgerLines, hmore, numbered_append]⟩

variable (files b) in
theorem outboxLines_append (xs ys : List UInt8) :
    ∃ more, outboxLines files b (xs ++ ys) = outboxLines files b xs ++ more := by
  obtain ⟨more, hmore⟩ := wholeLines_append xs ys
  exact ⟨numbered (readOutboxLine files b) (0 + (wholeLines xs).length) more,
    by simp only [outboxLines, hmore, numbered_append]⟩

variable (files b machine others) in
/-- The memories are true of the files, and what was received follows the lines of both. -/
structure Served (w : World) : Prop where
  ledger : Jsonl.Kept files (decode b others) .feedLedger .hole w.ledger
  outbox : Jsonl.Kept files (decode b others) .feedOutbox .skip w.outbox
  feeds : ∃ c, Feeds b machine (ledgerLines files b w.ledger.content)
    (outboxLines files b w.outbox.content) w.received c

theorem served_empty : Served files b machine others World.empty :=
  ⟨Jsonl.kept_start _ _, Jsonl.kept_start _ _, ZERO_CURSOR, Feeds.start⟩

/-- An answer gives, in order, every line after the cursor that the two files hold. -/
theorem Served.answer (h : Served files b machine others w) {c : LogCursor}
    (hc : Feeds b machine (ledgerLines files b w.ledger.content)
      (outboxLines files b w.outbox.content) w.received c) (answer : Answer) :
    ∃ frames after d, answerFrames files b machine others w c answer = (.ok frames, after) ∧
      after.ledger.content = w.ledger.content ∧ after.outbox.content = w.outbox.content ∧
      Jsonl.Kept files (decode b others) .feedLedger .hole after.ledger ∧
      Jsonl.Kept files (decode b others) .feedOutbox .skip after.outbox ∧
      Feeds b machine (ledgerLines files b w.ledger.content)
        (outboxLines files b w.outbox.content) (w.received ++ frames) d ∧
      (∀ p ∈ ledgerLines files b w.ledger.content, p.1 ≤ d.ledger) ∧
      ∀ p ∈ outboxLines files b w.outbox.content, p.1 ≤ d.outbox := by
  have hledger : (Jsonl.call files (decode b others) w.ledger answer.ledgerChunk FEED_LEDGER).1 =
      .ok ((ledgerLines files b w.ledger.content).map fun p => FeedRecord.ledger p.1 p.2) := by
    have hkept : Jsonl.Kept files (decode b others) FEED_LEDGER.decode FEED_LEDGER.badLine w.ledger :=
      h.ledger
    rw [hkept.answer]
    exact decodeLines_numbered decodeLine_ledger 0 _
  have houtbox : (Jsonl.call files (decode b others) w.outbox answer.outboxChunk FEED_OUTBOX).1 =
      .ok ((outboxLines files b w.outbox.content).map fun p => FeedRecord.outbox p.1 p.2) := by
    have hkept : Jsonl.Kept files (decode b others) FEED_OUTBOX.decode FEED_OUTBOX.badLine w.outbox :=
      h.outbox
    rw [hkept.answer]
    exact decodeLines_numbered decodeLine_outbox 0 _
  obtain ⟨frames, d, hrows, hfeeds, hledgerAll, houtboxAll⟩ :=
    rowsAfter_feeds hc (numbered_increasing _ _ _) (numbered_increasing _ _ _) answer.settled
  let after : World :=
    { w with
      ledger := (Jsonl.call files (decode b others) w.ledger answer.ledgerChunk FEED_LEDGER).2
      outbox := (Jsonl.call files (decode b others) w.outbox answer.outboxChunk FEED_OUTBOX).2 }
  refine ⟨frames, after, d, ?_, Jsonl.call_content _ _ _, Jsonl.call_content _ _ _,
    h.ledger.call _ _ fun _ => rfl, h.outbox.call _ _ fun _ => rfl, hfeeds, hledgerAll, houtboxAll⟩
  simp only [answerFrames, hledger, houtbox, hrows]
  rfl

theorem step_served {v : World} {e : Event} (h : Served files b machine others w)
    (hstep : step files b machine others w e = some v) : Served files b machine others v := by
  obtain ⟨c, hc⟩ := h.feeds
  cases e with
  | appendLedger identity bytes =>
    obtain rfl := Option.some.inj hstep
    refine ⟨h.ledger.grow identity bytes, h.outbox, c, ?_⟩
    obtain ⟨more, hmore⟩ := ledgerLines_append files b w.ledger.content bytes
    have hgrown := hc.append more []
    rw [List.append_nil, ← hmore, ← Jsonl.grow_content w.ledger identity bytes] at hgrown
    exact hgrown
  | appendOutbox identity bytes =>
    obtain rfl := Option.some.inj hstep
    refine ⟨h.ledger, h.outbox.grow identity bytes, c, ?_⟩
    obtain ⟨more, hmore⟩ := outboxLines_append files b w.outbox.content bytes
    have hgrown := hc.append [] more
    rw [List.append_nil, ← hmore, ← Jsonl.grow_content w.outbox identity bytes] at hgrown
    exact hgrown
  | readLedger chunk n label badLine =>
    obtain rfl := Option.some.inj hstep
    refine ⟨h.ledger.call chunk _ (by intro hd; cases hd), h.outbox, c, ?_⟩
    show Feeds b machine (ledgerLines files b (Jsonl.call _ _ _ _ _).2.content) _ _ _
    rw [Jsonl.call_content]
    exact hc
  | readOutbox chunk n label badLine =>
    obtain rfl := Option.some.inj hstep
    refine ⟨h.ledger, h.outbox.call chunk _ (by intro hd; cases hd), c, ?_⟩
    show Feeds b machine _ (outboxLines files b (Jsonl.call _ _ _ _ _).2.content) _ _
    rw [Jsonl.call_content]
    exact hc
  | ask answer =>
    obtain ⟨frames, after, d, hanswer, hledger, houtbox, hkept, hkept', hfeeds, _, _⟩ :=
      h.answer hc answer
    simp only [step, hc.resumeCursor, parseCursor_formatCursor hc.gen, hanswer] at hstep
    obtain rfl := Option.some.inj hstep
    refine ⟨hkept, hkept', ?_⟩
    obtain ⟨d', hd'⟩ := hfeeds.take (w.received.length + answer.kept)
    rw [List.take_length_add_append] at hd'
    refine ⟨d', ?_⟩
    show Feeds b machine (ledgerLines files b after.ledger.content)
      (outboxLines files b after.outbox.content) _ _
    rw [hledger, houtbox]
    exact hd'
  | back n =>
    obtain rfl := Option.some.inj hstep
    obtain ⟨d, hd⟩ := hc.take n
    exact ⟨h.ledger, h.outbox, d, hd⟩

theorem ledgerLines_positive {p : Nat × Option Envelope} (h : p ∈ ledgerLines files b bytes) :
    0 < p.1 := (numbered_bounds _ h).1

theorem outboxLines_positive {p : Nat × Outbound} (h : p ∈ outboxLines files b bytes) :
    0 < p.1 := (numbered_bounds _ h).1

theorem Feeds.rows (h : Feeds b machine (ledgerLines files b w.ledger.content)
      (outboxLines files b w.outbox.content) received c) :
    List.Forall₂ (LedgerFrame b machine) (ledgerRows received)
        ((ledgerLines files b w.ledger.content).filter fun p => decide (p.1 ≤ c.ledger)) ∧
      List.Forall₂ (OutboxFrame b machine) (outboxRows received)
        ((outboxLines files b w.outbox.content).filter fun p => decide (p.1 ≤ c.outbox)) :=
  h.exact (numbered_increasing _ _ _) (fun _ => ledgerLines_positive) (numbered_increasing _ _ _)
    fun _ => outboxLines_positive

variable (files b machine others) in
/-- Whatever is appended, read by others, cut off or gone back to, the consumer holds one row for
each ledger line that is not blank and each outbox line that reads, up to its cursor and in the
order of the file, each with a cursor that names its line; and an answer heard to its end leaves
none out. -/
theorem feed_gives_each_line_once {events : List Event} {w : World}
    (hrun : run (step files b machine others) World.empty events = some w) :
    ∃ c : LogCursor, resumeCursor w.received = formatCursor c ∧
      parseCursor (formatCursor c) = .ok c ∧
      List.Forall₂ (LedgerFrame b machine) (ledgerRows w.received)
        ((ledgerLines files b w.ledger.content).filter fun p => decide (p.1 ≤ c.ledger)) ∧
      List.Forall₂ (OutboxFrame b machine) (outboxRows w.received)
        ((outboxLines files b w.outbox.content).filter fun p => decide (p.1 ≤ c.outbox)) ∧
      ∀ (settled : String → Bool) (ledgerChunk outboxChunk : Nat → Nat),
        ∃ frames : List LogFrame, ∀ kept : Nat, ∃ v,
          step files b machine others w (.ask ⟨settled, ledgerChunk, outboxChunk, kept⟩) = some v ∧
          v.received = w.received ++ frames.take kept ∧
          (frames.length ≤ kept →
            List.Forall₂ (LedgerFrame b machine) (ledgerRows v.received)
                (ledgerLines files b w.ledger.content) ∧
              List.Forall₂ (OutboxFrame b machine) (outboxRows v.received)
                (outboxLines files b w.outbox.content)) := by
  have h : Served files b machine others w :=
    run_invariant (fun _ _ _ hs hst => step_served hs hst) hrun served_empty
  obtain ⟨c, hc⟩ := h.feeds
  refine ⟨c, hc.resumeCursor, parseCursor_formatCursor hc.gen, hc.rows.1, hc.rows.2, ?_⟩
  intro settled ledgerChunk outboxChunk
  obtain ⟨frames, after, d, hanswer, _, _, _, _, hfeeds, hledgerAll, houtboxAll⟩ :=
    h.answer hc ⟨settled, ledgerChunk, outboxChunk, 0⟩
  refine ⟨frames, ?_⟩
  intro kept
  have hasked : answerFrames files b machine others w c ⟨settled, ledgerChunk, outboxChunk, kept⟩ =
      (.ok frames, after) := hanswer
  refine ⟨{ after with received := w.received ++ frames.take kept }, ?_, rfl, ?_⟩
  · simp only [step, hc.resumeCursor, parseCursor_formatCursor hc.gen, hasked]
  · intro hkept
    have hrows := hfeeds.rows
    have hledger : ((ledgerLines files b w.ledger.content).filter fun p =>
        decide (p.1 ≤ d.ledger)) = ledgerLines files b w.ledger.content := by
      apply List.filter_eq_self.mpr
      intro p hp
      simpa using hledgerAll p hp
    have houtbox : ((outboxLines files b w.outbox.content).filter fun p =>
        decide (p.1 ≤ d.outbox)) = outboxLines files b w.outbox.content := by
      apply List.filter_eq_self.mpr
      intro p hp
      simpa using houtboxAll p hp
    rw [hledger, houtbox] at hrows
    rw [List.take_of_length_le hkept]
    exact hrows

end

def noRecords : Builtins Nat :=
  { textBytes := fun _ => 0
    frameBytes := fun _ => 0
    generation := fun _ => .other "none"
    message := fun _ => none
    isCore := fun _ => false
    outbound := fun _ => none }

def heard (kept : Nat) : Event :=
  .ask ⟨fun _ => false, Jsonl.wholeReads, Jsonl.wholeReads, kept⟩

/-- A line this build cannot read and half of another, heard, gone back from and heard again. -/
theorem feed_gives_each_line_once_torn :
    ∃ w, run (step Jsonl.plainText noRecords "alpha" fun _ _ _ => .ok none) World.empty
        [.appendLedger "1:2" [120, 10, 49], heard 1, .back 0, heard 1] = some w ∧
      ∃ c : LogCursor, resumeCursor w.received = formatCursor c ∧
        List.Forall₂ (LedgerFrame noRecords "alpha") (ledgerRows w.received)
          ((ledgerLines Jsonl.plainText noRecords w.ledger.content).filter fun p =>
            decide (p.1 ≤ c.ledger)) := by
  have hsome : ∃ w, run (step Jsonl.plainText noRecords "alpha" fun _ _ _ => .ok none) World.empty
      [.appendLedger "1:2" [120, 10, 49], heard 1, .back 0, heard 1] = some w := ⟨_, rfl⟩
  obtain ⟨w, hrun⟩ := hsome
  obtain ⟨c, hc, _, hrows, _⟩ :=
    feed_gives_each_line_once Jsonl.plainText noRecords "alpha" (fun _ _ _ => .ok none) hrun
  exact ⟨w, hrun, c, hc, hrows⟩

/-- A ledger of one blank line, and an answer heard to its end. -/
def blankLedger : List Event :=
  [.appendLedger "1:2" [10], heard 1]

/-- The ledger has a line, and the feed no row for it. -/
theorem blank_line_gets_no_row :
    ∃ w, run (step Jsonl.plainText noRecords "alpha" fun _ _ _ => .ok none) World.empty blankLedger =
        some w ∧ (wholeLines w.ledger.content).length = 1 ∧ ledgerRows w.received = [] :=
  ⟨_, rfl, rfl, rfl⟩

end Ccmux.Chat.LogFeed
