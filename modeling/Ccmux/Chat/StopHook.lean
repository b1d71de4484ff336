/- Module: Ccmux/Chat/StopHook
   source: src/commands/stopHook.ts, src/chat/ackLog.ts (appendAck)
   digest: The Stop hook with its failures: which letters it acks and which it answers with. -/

import Ccmux.Lib.Machine
import Ccmux.Chat.Coalesce
import Ccmux.Chat.Format

namespace Ccmux.Chat.StopHook

open Ccmux.Lib.Machine
open Ccmux.Chat.Identity (ChatPrincipal ManagedPeer managedPeerKey)
open Ccmux.Chat.Message
open Ccmux.Chat.Coalesce
open Ccmux.Chat.Format

/-- A block answer that left the process, and the letters it was made from. -/
structure Answer where
  letters : List ChatMessage
  reason : String
  deriving DecidableEq

/-- The store, and every answer the hooks have emitted. -/
structure Mailbox where
  ledger : Ledger
  acks : AckLog
  answers : List Answer
  deriving DecidableEq

/-- One call of the hook, and how far the machine lets it come. -/
structure Call where
  /-- The session of `CCMUX_SESSION`, when it is registered and has chat on. -/
  recipient : Option ManagedPeer
  now : Int
  cli : String
  /-- Whether configuration, registry, ledger and ack log can be read. -/
  reads : Bool
  /-- Whether the ack row of this position in the batch can be appended. -/
  appends : Nat → Bool
  /-- The reply verdict for a sender; `none` where the resolver throws. -/
  reply : ChatPrincipal → Option (Option ReplyRoute)
  writes : Bool

/-- `acked` holds a row of another writer: the daemon, a cancel, an undeliverable letter. -/
inductive Event where
  | append (more : Ledger)
  | acked (row : AckRow)
  | stopHook (call : Call)

/-- The loop over `appendAck`, and whether it came to its end. -/
@[grind =]
def appendAcks (appends : Nat → Bool) (acks : AckLog) (idx : Nat) :
    List ChatMessage → AckLog × Bool
  | [] => (acks, true)
  | msg :: rest =>
    if appends idx then appendAcks appends (acks ++ [⟨msg.id, .hook⟩]) (idx + 1) rest
    else (acks, false)

/-- `frames.join('\n\n')`. -/
def joinFrames : List String → String
  | [] => ""
  | [frame] => frame
  | frame :: next :: rest => frame ++ "\n\n" ++ joinFrames (next :: rest)

def frame (call : Call) (msg : ChatMessage) : Option String :=
  (call.reply msg.sender).map fun route => formatChatInjection msg call.cli route

def reasonOf (call : Call) (pending : List ChatMessage) : Option String :=
  (pending.mapM (frame call)).map joinFrames

section
variable (dateParse : String → Option Int)

/-- The letters the call is about to hand over. -/
def pendingFor (box : Mailbox) (call : Call) : List ChatMessage :=
  match call.reads, call.recipient with
  | true, some recipient =>
      coalesce dateParse box.ledger (managedPeerKey recipient) (loadAckedIds box.acks) call.now
  | _, _ => []

/-- The mailbox after the call, and the exit code; whatever throws is swallowed. -/
def cmdStopHook (box : Mailbox) (call : Call) : Mailbox × Nat :=
  match pendingFor dateParse box call with
  | [] => (box, 0)
  | pending =>
    let (acks, appended) := appendAcks call.appends box.acks 0 pending
    let box := { box with acks }
    if appended then
      match reasonOf call pending with
      | some reason =>
        if call.writes then ({ box with answers := box.answers ++ [⟨pending, reason⟩] }, 0)
        else (box, 0)
      | none => (box, 0)
    else (box, 0)

def step (box : Mailbox) : Event → Option Mailbox
  | .append more => some { box with ledger := box.ledger ++ more }
  | .acked row => if row.by = .hook then none else some { box with acks := box.acks ++ [row] }
  | .stopHook call => some (cmdStopHook dateParse box call).1

/-- Every row is appended, every letter framed and the answer written. -/
structure Completes (box : Mailbox) (call : Call) : Prop where
  appends : ∀ idx < (pendingFor dateParse box call).length, call.appends idx = true
  frames : ∀ msg ∈ pendingFor dateParse box call, (call.reply msg.sender).isSome = true
  writes : call.writes = true

/-- A call that finds letters fails, if it fails, at the ack row of the first one. -/
def FailsFirst (box : Mailbox) : Event → Prop
  | .stopHook call =>
      pendingFor dateParse box call = [] ∨ call.appends 0 = false ∨ Completes dateParse box call
  | _ => True

/-- A call that emits nothing leaves every letter of its batch to the next one. -/
def StaysDeliverable (box : Mailbox) : Event → Prop
  | .stopHook call =>
      (cmdStopHook dateParse box call).1.answers = box.answers →
        ∀ msg ∈ pendingFor dateParse box call,
          msg ∈ pendingFor dateParse (cmdStopHook dateParse box call).1 call
  | _ => True

end

/-- The framed letter stands in the text. -/
def Carries (reason : String) (msg : ChatMessage) : Prop :=
  ∃ cli route before after, reason = before ++ formatChatInjection msg cli route ++ after

/-- Each hook row belongs to a letter of an emitted answer. -/
def Answered (box : Mailbox) : Prop :=
  ∀ row ∈ box.acks, row.by = .hook →
    ∃ answer ∈ box.answers, ∃ msg ∈ answer.letters, msg.id = row.id ∧ Carries answer.reason msg

/-- What the answers hold was acked before. -/
def AnswersAcked (box : Mailbox) : Prop :=
  ∀ answer ∈ box.answers, ∀ msg ∈ answer.letters, msg.id ∈ loadAckedIds box.acks

/-! ### The loop over the ack rows -/

variable {appends : Nat → Bool} {letters : List ChatMessage} {acks : AckLog} {idx : Nat}
  {call : Call}

theorem appendAcks_of_all (h : ∀ k < letters.length, appends (idx + k) = true) :
    appendAcks appends acks idx letters =
      (acks ++ letters.map fun msg => ⟨msg.id, .hook⟩, true) := by
  induction letters generalizing acks idx with
  | nil => simp [appendAcks]
  | cons msg rest ih =>
    have hfirst : appends idx = true := h 0 (Nat.succ_pos _)
    have hrest : ∀ k < rest.length, appends (idx + 1 + k) = true := by
      intro k hk
      have hnext := h (k + 1) (Nat.succ_lt_succ hk)
      rwa [Nat.add_comm k 1, ← Nat.add_assoc] at hnext
    simp only [appendAcks, hfirst, if_true]
    rw [ih hrest]
    simp

theorem appendAcks_completed (h : (appendAcks appends acks idx letters).2 = true) :
    ∀ k < letters.length, appends (idx + k) = true := by
  induction letters generalizing acks idx with
  | nil =>
    intro k hk
    exact absurd hk (Nat.not_lt_zero k)
  | cons msg rest ih =>
    intro k hk
    cases hfirst : appends idx with
    | false => simp [appendAcks, hfirst] at h
    | true =>
      simp only [appendAcks, hfirst, if_true] at h
      cases k with
      | zero => exact hfirst
      | succ k =>
        have hnext := ih h k (Nat.lt_of_succ_lt_succ hk)
        rwa [Nat.add_assoc, Nat.add_comm 1 k] at hnext

theorem appendAcks_grows (appends : Nat → Bool) (letters : List ChatMessage) (acks : AckLog)
    (idx : Nat) : ∃ more, (appendAcks appends acks idx letters).1 = acks ++ more := by
  induction letters generalizing acks idx with
  | nil => exact ⟨[], (List.append_nil acks).symm⟩
  | cons msg rest ih =>
    cases hfirst : appends idx with
    | false => exact ⟨[], by simp [appendAcks, hfirst]⟩
    | true =>
      obtain ⟨more, hmore⟩ := ih (acks ++ [⟨msg.id, .hook⟩]) (idx + 1)
      refine ⟨⟨msg.id, .hook⟩ :: more, ?_⟩
      simp only [appendAcks, hfirst, if_true]
      rw [hmore, List.append_assoc]
      rfl

theorem appendAcks_none (h : appends idx = false) :
    (appendAcks appends acks idx letters).1 = acks := by
  cases letters with
  | nil => rfl
  | cons msg rest => simp [appendAcks, h]

theorem appendAcks_first {msg : ChatMessage} {rest : List ChatMessage} (h : appends 0 = true) :
    ⟨msg.id, .hook⟩ ∈ (appendAcks appends acks 0 (msg :: rest)).1 := by
  simp only [appendAcks, h, if_true]
  obtain ⟨more, hmore⟩ := appendAcks_grows appends rest (acks ++ [⟨msg.id, .hook⟩]) (0 + 1)
  rw [hmore]
  simp

/-! ### The answer -/

variable {frames : List String} {pending : List ChatMessage}

theorem joinFrames_carries {text : String} (h : text ∈ frames) :
    ∃ before after, joinFrames frames = before ++ text ++ after := by
  induction frames with
  | nil => cases h
  | cons first rest ih =>
    cases rest with
    | nil =>
      obtain rfl := List.mem_singleton.mp h
      exact ⟨"", "", by simp [joinFrames]⟩
    | cons next rest =>
      rcases List.mem_cons.mp h with rfl | hrest
      · exact ⟨"", "\n\n" ++ joinFrames (next :: rest), by simp [joinFrames, String.append_assoc]⟩
      · obtain ⟨before, after, hjoin⟩ := ih hrest
        refine ⟨first ++ "\n\n" ++ before, after, ?_⟩
        simp only [joinFrames, hjoin, String.append_assoc]

theorem mapM_frame (h : letters.mapM (frame call) = some frames)
    {msg : ChatMessage} (hmsg : msg ∈ letters) :
    ∃ text ∈ frames, frame call msg = some text := by
  induction letters generalizing frames with
  | nil => cases hmsg
  | cons first rest ih =>
    simp only [List.mapM_cons, Option.bind_eq_bind, Option.bind_eq_some_iff, Option.pure_def,
      Option.some.injEq] at h
    obtain ⟨text, htext, others, hothers, rfl⟩ := h
    rcases List.mem_cons.mp hmsg with rfl | hrest
    · exact ⟨text, List.mem_cons_self, htext⟩
    · obtain ⟨found, hfound, hframe⟩ := ih hothers hrest
      exact ⟨found, List.mem_cons_of_mem _ hfound, hframe⟩

theorem reasonOf_carries {reason : String} (h : reasonOf call pending = some reason)
    {msg : ChatMessage} (hmsg : msg ∈ pending) :
    Carries reason msg := by
  obtain ⟨frames, hframes, rfl⟩ := Option.map_eq_some_iff.mp h
  obtain ⟨text, htext, hframe⟩ := mapM_frame hframes hmsg
  obtain ⟨route, -, rfl⟩ := Option.map_eq_some_iff.mp hframe
  obtain ⟨before, after, hjoin⟩ := joinFrames_carries htext
  exact ⟨call.cli, route, before, after, hjoin⟩

theorem isSome_reasonOf :
    (reasonOf call pending).isSome = true ↔
      ∀ msg ∈ pending, (call.reply msg.sender).isSome = true := by
  rw [reasonOf, Option.isSome_map]
  induction pending with
  | nil => simp
  | cons first rest ih =>
    rw [List.forall_mem_cons, ← ih]
    cases hfirst : call.reply first.sender with
    | none => simp [frame, hfirst]
    | some route =>
      cases hrest : rest.mapM (frame call) with
      | none => simp [List.mapM_cons, frame, hfirst, hrest]
      | some frames => simp [List.mapM_cons, frame, hfirst, hrest]

/-! ### What one call does -/

section
variable {dateParse : String → Option Int}

/-- The three ways a call ends: nothing waits, something fails, or the batch is handed over. -/
inductive Outcome (dateParse : String → Option Int) (box : Mailbox) (call : Call) :
    Mailbox → Prop
  | idle : pendingFor dateParse box call = [] → Outcome dateParse box call box
  | failed : pendingFor dateParse box call ≠ [] → ¬ Completes dateParse box call →
      Outcome dateParse box call { box with
        acks := (appendAcks call.appends box.acks 0 (pendingFor dateParse box call)).1 }
  | emitted (reason : String) : Completes dateParse box call →
      (∀ msg ∈ pendingFor dateParse box call, Carries reason msg) →
      Outcome dateParse box call { box with
        acks := box.acks ++ (pendingFor dateParse box call).map fun msg => ⟨msg.id, .hook⟩
        answers := box.answers ++ [⟨pendingFor dateParse box call, reason⟩] }

theorem cmdStopHook_outcome (box : Mailbox) (call : Call) :
    Outcome dateParse box call (cmdStopHook dateParse box call).1 := by
  cases hpending : pendingFor dateParse box call with
  | nil =>
    simp only [cmdStopHook, hpending]
    exact .idle hpending
  | cons first rest =>
    have hne : pendingFor dateParse box call ≠ [] := by simp [hpending]
    simp only [cmdStopHook, hpending]
    rw [← hpending]
    cases happended : (appendAcks call.appends box.acks 0 (pendingFor dateParse box call)).2 with
    | false =>
      refine .failed hne ?_
      intro hall
      have hidx : ∀ k < (pendingFor dateParse box call).length, call.appends (0 + k) = true := by
        simpa using hall.appends
      rw [appendAcks_of_all hidx] at happended
      cases happended
    | true =>
      have happends := appendAcks_completed happended
      simp only [Nat.zero_add] at happends
      cases hreason : reasonOf call (pendingFor dateParse box call) with
      | none =>
        refine .failed hne ?_
        intro hall
        have hsome := isSome_reasonOf.mpr hall.frames
        rw [hreason] at hsome
        cases hsome
      | some reason =>
        have hframes : ∀ msg ∈ pendingFor dateParse box call,
            (call.reply msg.sender).isSome = true := isSome_reasonOf.mp (by rw [hreason]; rfl)
        cases hwrites : call.writes with
        | false =>
          refine .failed hne ?_
          intro hall
          rw [hall.writes] at hwrites
          cases hwrites
        | true =>
          have hrows : ∀ k < (pendingFor dateParse box call).length,
              call.appends (0 + k) = true := by simpa using happends
          have hemitted : Outcome dateParse box call _ :=
            .emitted reason ⟨happends, hframes, hwrites⟩ fun msg hmsg =>
              reasonOf_carries hreason hmsg
          simpa only [appendAcks_of_all hrows, if_true] using hemitted

theorem mem_pendingFor_unacked {box : Mailbox} {call : Call} {msg : ChatMessage}
    (h : msg ∈ pendingFor dateParse box call) : msg.id ∉ loadAckedIds box.acks := by
  unfold pendingFor at h
  split at h
  · exact (isWaiting_iff.mp (mem_waitingFor.mp (mem_coalesce.mp h).1).2).2.2.1
  · cases h

/-! ### Runs -/

/-- The hook rows so far were answered, and every answer was acked before it left. -/
structure Honest (box : Mailbox) : Prop where
  answered : Answered box
  acked : AnswersAcked box

variable {box : Mailbox} {call : Call} {e : Event}

theorem failsFirst_cases (hfails : FailsFirst dateParse box (.stopHook call)) :
    (cmdStopHook dateParse box call).1 = box ∨
      ∃ reason, (∀ msg ∈ pendingFor dateParse box call, Carries reason msg) ∧
        (cmdStopHook dateParse box call).1 = { box with
          acks := box.acks ++ (pendingFor dateParse box call).map fun msg => ⟨msg.id, .hook⟩
          answers := box.answers ++ [⟨pendingFor dateParse box call, reason⟩] } := by
  have houtcome := @cmdStopHook_outcome dateParse box call
  generalize (cmdStopHook dateParse box call).1 = after at houtcome
  cases houtcome with
  | idle hnone => exact Or.inl rfl
  | emitted reason hall hcarries => exact Or.inr ⟨reason, hcarries, rfl⟩
  | failed hne hstops =>
    rcases hfails with hnone | hfirst | hall
    · exact absurd hnone hne
    · rw [appendAcks_none hfirst]
      exact Or.inl rfl
    · exact absurd hall hstops

theorem honest_of_failsFirst (h : Honest box)
    (hfails : FailsFirst dateParse box (.stopHook call)) :
    Honest (cmdStopHook dateParse box call).1 := by
  rcases failsFirst_cases hfails with hsame | ⟨reason, hcarries, hafter⟩
  · rw [hsame]
    exact h
  · rw [hafter]
    refine ⟨?_, ?_⟩
    · intro row hrow hby
      rcases List.mem_append.mp hrow with hold | hnew
      · obtain ⟨answer, hanswer, hletter⟩ := h.answered row hold hby
        exact ⟨answer, List.mem_append_left _ hanswer, hletter⟩
      · obtain ⟨msg, hmsg, rfl⟩ := List.mem_map.mp hnew
        exact ⟨⟨pendingFor dateParse box call, reason⟩, by simp, msg, hmsg, rfl, hcarries msg hmsg⟩
    · intro answer hanswer msg hmsg
      rcases List.mem_append.mp hanswer with hold | hnew
      · exact loadAckedIds_subset_append _ _ (h.acked answer hold msg hmsg)
      · obtain rfl := List.mem_singleton.mp hnew
        refine mem_loadAckedIds.mpr ⟨⟨msg.id, .hook⟩, ?_, rfl⟩
        exact List.mem_append_right _ (List.mem_map.mpr ⟨msg, hmsg, rfl⟩)

/-- A call that fails behind its first row leaves a letter acked that no answer holds. -/
theorem not_answered_of_failsLater (h : Honest box)
    (hfails : ¬ FailsFirst dateParse box (.stopHook call)) :
    ¬ Answered (cmdStopHook dateParse box call).1 := by
  simp only [FailsFirst, not_or, Bool.not_eq_false] at hfails
  obtain ⟨hne, hfirst, hstops⟩ := hfails
  intro hanswered
  have houtcome := @cmdStopHook_outcome dateParse box call
  generalize (cmdStopHook dateParse box call).1 = after at houtcome hanswered
  cases houtcome with
  | idle hnone => exact hne hnone
  | emitted reason hall hcarries => exact hstops hall
  | failed _ _ =>
    obtain ⟨first, rest, hpending⟩ := List.exists_cons_of_ne_nil hne
    have hrow : ⟨first.id, .hook⟩ ∈
        (appendAcks call.appends box.acks 0 (pendingFor dateParse box call)).1 := by
      rw [hpending]
      exact appendAcks_first hfirst
    obtain ⟨answer, hanswer, msg, hmsg, hid, -⟩ := hanswered _ hrow rfl
    have hunacked : first.id ∉ loadAckedIds box.acks := by
      refine @mem_pendingFor_unacked dateParse box call first ?_
      rw [hpending]
      exact List.mem_cons_self
    have hbefore := h.acked answer hanswer msg hmsg
    rw [hid] at hbefore
    exact hunacked hbefore

theorem staysDeliverable_of_failsFirst (hfails : FailsFirst dateParse box e) :
    StaysDeliverable dateParse box e := by
  cases e with
  | append more => trivial
  | acked row => trivial
  | stopHook call =>
    intro hsilent msg hmsg
    rcases failsFirst_cases hfails with hsame | ⟨reason, _, hafter⟩
    · rw [hsame]
      exact hmsg
    · rw [hafter] at hsilent
      simp at hsilent

variable {after : Mailbox}

theorem step_honest (h : Honest box)
    (hfails : FailsFirst dateParse box e) (hstep : step dateParse box e = some after) :
    Honest after := by
  cases e with
  | append more =>
    obtain rfl := Option.some.inj hstep
    exact ⟨h.answered, h.acked⟩
  | acked row =>
    simp only [step] at hstep
    split at hstep
    · cases hstep
    · next hby =>
      obtain rfl := Option.some.inj hstep
      refine ⟨?_, ?_⟩
      · intro other hother hhook
        rcases List.mem_append.mp hother with hold | hnew
        · exact h.answered other hold hhook
        · obtain rfl := List.mem_singleton.mp hnew
          exact absurd hhook hby
      · intro answer hanswer msg hmsg
        exact loadAckedIds_subset_append _ _ (h.acked answer hanswer msg hmsg)
  | stopHook call =>
    obtain rfl := Option.some.inj hstep
    exact honest_of_failsFirst h hfails

theorem not_answered_of_step (h : Honest box)
    (hstep : step dateParse box e = some after) (hfails : ¬ FailsFirst dateParse box e) :
    ¬ Answered after := by
  cases e with
  | append more => exact absurd trivial hfails
  | acked row => exact absurd trivial hfails
  | stopHook call =>
    obtain rfl := Option.some.inj hstep
    exact not_answered_of_failsLater h hfails

end

theorem honest_start : Honest ⟨[], [], []⟩ :=
  ⟨fun _ hrow => absurd hrow List.not_mem_nil, fun _ hanswer => absurd hanswer List.not_mem_nil⟩

/-- In every run from empty files each acked letter was handed over, and each letter of a failed
call stays deliverable, exactly when no call fails behind the first ack row of its batch. -/
theorem failed_calls_keep_letters (dateParse : String → Option Int) (events : List Event)
    (box : Mailbox) (hrun : run (step dateParse) ⟨[], [], []⟩ events = some box) :
    ((∀ reached, Reached (step dateParse) ⟨[], [], []⟩ events reached → Answered reached) ∧
        Along (step dateParse) (StaysDeliverable dateParse) ⟨[], [], []⟩ events) ↔
      Along (step dateParse) (FailsFirst dateParse) ⟨[], [], []⟩ events := by
  have hstates : Along (step dateParse) (FailsFirst dateParse) ⟨[], [], []⟩ events ↔
      ∀ reached, Reached (step dateParse) ⟨[], [], []⟩ events reached → Answered reached :=
    along_iff_reached (fun _ _ _ h hfails hstep => step_honest h hfails hstep)
      (fun _ h => h.answered) (fun _ _ _ h hfails hstep => not_answered_of_step h hstep hfails)
      hrun honest_start
  constructor
  · rintro ⟨hanswered, -⟩
    exact hstates.mpr hanswered
  · intro hall
    refine ⟨hstates.mp hall, ?_⟩
    exact along_of_invariant (fun _ _ _ h hfails hstep => step_honest h hfails hstep)
      (fun _ _ _ hfails => staysDeliverable_of_failsFirst hfails) hall honest_start

def reviewer : ManagedPeer := ⟨"host", .claude, "reviewer", "t1"⟩

def deferred (id : String) : ChatMessage :=
  { id, ts := "2026-01-01T00:00:00Z", sender := .cli "host", target := .managed reviewer,
    body := "note", defer := true }

def wholeCall : Call :=
  { recipient := some reviewer, now := 0, cli := "ccmux", reads := true, appends := fun _ => true
    reply := fun _ => some none, writes := true }

/-- The disk is full at the first row, then there is room again. -/
def recoveredRun : List Event :=
  [.append [some (deferred "a"), some (deferred "b")],
    .stopHook { wholeCall with appends := fun _ => false }, .acked ⟨"b", .cancel⟩,
    .stopHook wholeCall]

theorem failed_calls_keep_letters_recoveredRun :
    ∃ box, run (step fun _ => none) ⟨[], [], []⟩ recoveredRun = some box ∧
      ∀ reached, Reached (step fun _ => none) ⟨[], [], []⟩ recoveredRun reached →
        Answered reached := by
  refine ⟨_, rfl, ((failed_calls_keep_letters (fun _ => none) recoveredRun _ rfl).mpr ?_).1⟩
  refine ⟨trivial, fun _ h1 => ?_⟩
  obtain rfl := Option.some.inj h1
  refine ⟨.inr (.inl rfl), fun _ h2 => ?_⟩
  obtain rfl := Option.some.inj h2
  refine ⟨trivial, fun _ h3 => ?_⟩
  obtain rfl := Option.some.inj h3
  refine ⟨.inr (.inr ⟨fun _ _ => rfl, fun _ _ => rfl, rfl⟩), fun _ _ => trivial⟩

/-- Two letters wait and only the first ack row can be appended. -/
def fullDiskRun : List Event :=
  [.append [some (deferred "a"), some (deferred "b")],
    .stopHook { wholeCall with appends := fun idx => idx == 0 }]

/-- The first letter is acked as handed over and no answer was written. -/
theorem full_disk_loses_letter :
    ¬ ∀ events box, run (step fun _ => none) ⟨[], [], []⟩ events = some box → Answered box := by
  intro hall
  have hlost : run (step fun _ => none) ⟨[], [], []⟩ fullDiskRun =
      some ⟨[some (deferred "a"), some (deferred "b")], [⟨"a", .hook⟩], []⟩ := by
    decide
  obtain ⟨answer, hanswer, -⟩ := hall fullDiskRun _ hlost ⟨"a", .hook⟩ List.mem_cons_self rfl
  exact absurd hanswer List.not_mem_nil

end Ccmux.Chat.StopHook
