/- Module: Ccmux/Fleet/Flush
   source: src/fleet/flush.ts
   digest: Which letters are sent again, and one pass that sends the first of them. -/

import Ccmux.Fleet.Address
import Ccmux.Fleet.Outbox

namespace Ccmux.Fleet.Flush

open Ccmux.Fleet.Address
open Ccmux.Fleet.Outbox

/-- How long a failed send stays worth retrying, in milliseconds. -/
def RETRY_WINDOW_MS : Int := 60 * 60 * 1000

def MAX_PER_TICK : Nat := 3

/-- What a pass reads of the answer of a hop. -/
structure RemoteResult where
  transportFailed : Bool
  code : Int
  permanent : Bool
  deriving DecidableEq, Repr

section
variable (dateParse : String → Option Int)

def isStale (nowMs windowMs : Int) (r : Outbound) : Bool :=
  match dateParse (outboundTimestamp r) with
  | none => true
  | some at_ => decide (windowMs < nowMs - at_)

/-- The loop of `retryCandidates` over the rows that are left. -/
@[grind =]
def retryFrom (acked : List String) (nowMs windowMs : Int) : List String → List Outbound →
    List Outbound
  | _, [] => []
  | seen, r :: rest =>
    let id := outboundId r
    if r.result.ok then retryFrom acked nowMs windowMs seen rest
    else if id ∈ acked ∨ id ∈ seen then retryFrom acked nowMs windowMs seen rest
    else if isStale dateParse nowMs windowMs r then retryFrom acked nowMs windowMs seen rest
    else r :: retryFrom acked nowMs windowMs (id :: seen) rest

/-- Which outbox rows deserve another attempt. -/
def retryCandidates (rows : List Outbound) (acked : List String) (nowMs : Int) : List Outbound :=
  retryFrom dateParse acked nowMs RETRY_WINDOW_MS [] rows

inductive Outcome where
  | skipped | unaddressable | delivered | refused | queued
  deriving DecidableEq, Repr

def Outcome.settles : Outcome → Bool
  | .unaddressable | .delivered | .refused => true
  | _ => false

def Outcome.attempts : Outcome → Bool
  | .delivered | .refused | .queued => true
  | _ => false

/-- What becomes of a candidate before anything is sent. -/
inductive Dispatch where
  | skip | settle | hop
  deriving DecidableEq, Repr

def dispatch (m : MachineConfig) (rec : Outbound) : Dispatch :=
  match rec.envelope.target with
  | .managed target =>
    match routeFor (target.machine ++ ":" ++ target.session) m with
    | .remote _ _ _ => .hop
    | _ => .settle
  | _ => .skip

def readAnswer (answer : RemoteResult) : Outcome :=
  if !answer.transportFailed && answer.code == 0 then .delivered
  else if answer.permanent then .refused
  else .queued

def flushOne (m : MachineConfig) (answer : RemoteResult) (rec : Outbound) : Outcome :=
  match dispatch m rec with
  | .skip => .skipped
  | .settle => .unaddressable
  | .hop => readAnswer answer

/-- The outbox, the ids of the ack file, the clock, and what was attempted so far. -/
structure World where
  outbox : List Outbound
  acked : List String
  now : Int
  attempts : List String

/-- What a pass meets: its clock, whether both files can be read, how each hop answers, and whether
an ack row reaches the disk. -/
structure Pass where
  now : Int
  config : MachineConfig
  readable : Bool
  answer : Outbound → RemoteResult
  written : String → Bool

def flushRecord (p : Pass) (w : World) (rec : Outbound) : World :=
  let outcome := flushOne p.config (p.answer rec) rec
  { w with
    acked := if outcome.settles && p.written (outboundId rec) then w.acked ++ [outboundId rec]
      else w.acked
    attempts := if outcome.attempts then w.attempts ++ [outboundId rec] else w.attempts }

def slots (w : World) (p : Pass) : List Outbound :=
  if peersOf p.config = [] ∨ p.readable = false then []
  else (retryCandidates dateParse w.outbox w.acked p.now).take MAX_PER_TICK

@[grind =]
def flushOutbox (w : World) (p : Pass) : World :=
  (slots dateParse w p).foldl (flushRecord p) { w with now := p.now }

/-- Sends add rows, and the clock of a pass is never behind the last one's. -/
inductive Event where
  | send (row : Outbound)
  | pass (p : Pass)

@[grind =]
def step (w : World) : Event → Option World
  | .send row => some { w with outbox := w.outbox ++ [row] }
  | .pass p => if w.now ≤ p.now then some (flushOutbox dateParse w p) else none

end

theorem readAnswer_delivered {answer : RemoteResult} (h : readAnswer answer = .delivered) :
    answer.transportFailed = false ∧ answer.code = 0 := by
  unfold readAnswer at h
  split at h
  · rename_i hok
    simpa using hok
  · split at h <;> cases h

section
variable {dateParse : String → Option Int}

/-- A row is sent again unless another row of its letter is. -/
def Due (dateParse : String → Option Int) (acked : List String) (nowMs windowMs : Int)
    (r : Outbound) : Prop :=
  r.result.ok = false ∧ outboundId r ∉ acked ∧ isStale dateParse nowMs windowMs r = false

variable {acked seen : List String} {nowMs windowMs : Int} {rec : Outbound}

variable {r : Outbound} {rows : List Outbound}

theorem retryFrom_cons_due (rest : List Outbound)
    (h : Due dateParse acked nowMs windowMs r) (hseen : outboundId r ∉ seen) :
    retryFrom dateParse acked nowMs windowMs seen (r :: rest) =
      r :: retryFrom dateParse acked nowMs windowMs (outboundId r :: seen) rest := by
  obtain ⟨hok, hacked, hstale⟩ := h
  simp [retryFrom, hok, hacked, hstale, hseen]

theorem retryFrom_cons_skip (rest : List Outbound)
    (h : ¬ (Due dateParse acked nowMs windowMs r ∧ outboundId r ∉ seen)) :
    retryFrom dateParse acked nowMs windowMs seen (r :: rest) =
      retryFrom dateParse acked nowMs windowMs seen rest := by
  rw [retryFrom]
  by_cases hok : r.result.ok = true
  · simp [hok]
  · by_cases hacked : outboundId r ∈ acked ∨ outboundId r ∈ seen
    · simp [hok, hacked]
    · by_cases hstale : isStale dateParse nowMs windowMs r = true
      · simp [hok, hacked, hstale]
      · refine absurd ⟨⟨?_, ?_, ?_⟩, ?_⟩ h
        · simpa using hok
        · exact fun hin => hacked (Or.inl hin)
        · simpa using hstale
        · exact fun hin => hacked (Or.inr hin)

/-- The letters of the candidates: those with a row that is due. -/
theorem mem_retryFrom {id : String} :
    id ∈ (retryFrom dateParse acked nowMs windowMs seen rows).map outboundId ↔
      id ∉ seen ∧ ∃ r ∈ rows, Due dateParse acked nowMs windowMs r ∧ outboundId r = id := by
  induction rows generalizing seen with
  | nil => simp [retryFrom]
  | cons r rest ih =>
    by_cases h : Due dateParse acked nowMs windowMs r ∧ outboundId r ∉ seen
    · rw [retryFrom_cons_due rest h.1 h.2, List.map_cons, List.mem_cons, ih, List.mem_cons, not_or]
      constructor
      · rintro (rfl | ⟨⟨_, hseen⟩, s, hs, hdue⟩)
        · exact ⟨h.2, r, List.mem_cons_self, h.1, rfl⟩
        · exact ⟨hseen, s, List.mem_cons_of_mem _ hs, hdue⟩
      · rintro ⟨hseen, s, hs, hdue, hid⟩
        by_cases hfirst : id = outboundId r
        · exact Or.inl hfirst
        · refine Or.inr ⟨⟨hfirst, hseen⟩, s, ?_, hdue, hid⟩
          rcases List.mem_cons.mp hs with rfl | hs
          · exact absurd hid.symm hfirst
          · exact hs
    · rw [retryFrom_cons_skip rest h, ih]
      constructor
      · rintro ⟨hseen, s, hs, hdue⟩
        exact ⟨hseen, s, List.mem_cons_of_mem _ hs, hdue⟩
      · rintro ⟨hseen, s, hs, hdue, hid⟩
        refine ⟨hseen, s, ?_, hdue, hid⟩
        rcases List.mem_cons.mp hs with rfl | hs
        · rw [← hid] at hseen
          exact absurd ⟨hdue, hseen⟩ h
        · exact hs

theorem nodup_retryFrom (acked : List String) (nowMs windowMs : Int) (rows : List Outbound)
    (seen : List String) :
    ((retryFrom dateParse acked nowMs windowMs seen rows).map outboundId).Nodup := by
  induction rows generalizing seen with
  | nil => simp [retryFrom]
  | cons r rest ih =>
    by_cases h : Due dateParse acked nowMs windowMs r ∧ outboundId r ∉ seen
    · rw [retryFrom_cons_due rest h.1 h.2, List.map_cons, List.nodup_cons]
      refine ⟨?_, ih _⟩
      rw [mem_retryFrom]
      exact fun hin => hin.1 List.mem_cons_self
    · rw [retryFrom_cons_skip rest h]
      exact ih seen

/-- Where a candidate stands: the candidates before it are those of the rows before its row. -/
theorem retryFrom_split {before after : List Outbound}
    (h : retryFrom dateParse acked nowMs windowMs seen rows = before ++ rec :: after) :
    ∃ pre post, rows = pre ++ rec :: post ∧
      retryFrom dateParse acked nowMs windowMs seen pre = before ∧
      Due dateParse acked nowMs windowMs rec ∧ outboundId rec ∉ seen ∧
      ∀ r ∈ pre, Due dateParse acked nowMs windowMs r → outboundId r ≠ outboundId rec := by
  induction rows generalizing seen before with
  | nil => cases before <;> cases h
  | cons r rest ih =>
    by_cases hdue : Due dateParse acked nowMs windowMs r ∧ outboundId r ∉ seen
    · rw [retryFrom_cons_due rest hdue.1 hdue.2] at h
      cases before with
      | nil =>
        obtain ⟨rfl, _⟩ := List.cons.inj h
        exact ⟨[], rest, rfl, rfl, hdue.1, hdue.2, fun s hs => nomatch hs⟩
      | cons first before =>
        obtain ⟨rfl, htail⟩ := List.cons.inj h
        obtain ⟨pre, post, hrows, hpre, hrec, hseen, hfirst⟩ := ih htail
        have hne : outboundId r ≠ outboundId rec := by
          intro heq
          exact hseen (by rw [← heq]; exact List.mem_cons_self)
        refine ⟨r :: pre, post, by rw [hrows]; rfl, ?_, hrec, ?_, ?_⟩
        · rw [retryFrom_cons_due pre hdue.1 hdue.2, hpre]
        · exact fun hin => hseen (List.mem_cons_of_mem _ hin)
        · intro s hs hsdue
          rcases List.mem_cons.mp hs with rfl | hs
          · exact hne
          · exact hfirst s hs hsdue
    · rw [retryFrom_cons_skip rest hdue] at h
      obtain ⟨pre, post, hrows, hpre, hrec, hseen, hfirst⟩ := ih h
      refine ⟨r :: pre, post, by rw [hrows]; rfl, ?_, hrec, hseen, ?_⟩
      · rw [retryFrom_cons_skip pre hdue, hpre]
      · intro s hs hsdue heq
        rcases List.mem_cons.mp hs with rfl | hs
        · exact hdue ⟨hsdue, by rw [heq]; exact hseen⟩
        · exact hfirst s hs hsdue heq

theorem mem_slots {w : World} {p : Pass} (h : rec ∈ slots dateParse w p) :
    rec ∈ w.outbox := by
  unfold slots at h
  split at h
  · cases h
  · obtain ⟨before, after, heq⟩ := List.append_of_mem (List.mem_of_mem_take h)
    obtain ⟨pre, post, hrows, _⟩ := retryFrom_split heq
    rw [hrows]
    exact List.mem_append_right _ List.mem_cons_self

/-- The candidates of the rows before a due row come first, and then the row itself. -/
theorem retryFrom_append {pre : List Outbound} (post : List Outbound)
    (hrec : Due dateParse acked nowMs windowMs rec) (hseen : outboundId rec ∉ seen)
    (hfirst : ∀ r ∈ pre, Due dateParse acked nowMs windowMs r → outboundId r ≠ outboundId rec) :
    ∃ after, retryFrom dateParse acked nowMs windowMs seen (pre ++ rec :: post) =
      retryFrom dateParse acked nowMs windowMs seen pre ++ rec :: after := by
  induction pre generalizing seen with
  | nil => exact ⟨_, retryFrom_cons_due post hrec hseen⟩
  | cons r rest ih =>
    have hrest : ∀ s ∈ rest, Due dateParse acked nowMs windowMs s →
        outboundId s ≠ outboundId rec := fun s hs => hfirst s (List.mem_cons_of_mem _ hs)
    by_cases hdue : Due dateParse acked nowMs windowMs r ∧ outboundId r ∉ seen
    · have hne := hfirst r List.mem_cons_self hdue.1
      have hseen' : outboundId rec ∉ outboundId r :: seen := by
        intro hin
        rcases List.mem_cons.mp hin with heq | hin
        · exact hne heq.symm
        · exact hseen hin
      obtain ⟨after, hafter⟩ := ih hseen' hrest
      refine ⟨after, ?_⟩
      rw [List.cons_append, retryFrom_cons_due _ hdue.1 hdue.2, hafter,
        retryFrom_cons_due rest hdue.1 hdue.2]
      rfl
    · obtain ⟨after, hafter⟩ := ih hseen hrest
      refine ⟨after, ?_⟩
      rw [List.cons_append, retryFrom_cons_skip _ hdue, hafter, retryFrom_cons_skip rest hdue]

end

end Ccmux.Fleet.Flush
