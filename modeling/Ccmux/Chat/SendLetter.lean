/- Module: Ccmux/Chat/SendLetter
   source: src/commands/msg.ts (sendLetter, cmdMsg), src/chat/store.ts (pendingConditional),
     src/commands/stopHook.ts
   digest: What arming a timer withdraws, and what becomes of ordinary letters under its task. -/

import Ccmux.Chat.CoalesceRun
import Ccmux.Chat.CommunicationBasis
import Ccmux.Chat.Store

namespace Ccmux.Chat.SendLetter

open Ccmux.Lib.Machine
open Ccmux.Chat.Admission (Receiver appendMessage)
open Ccmux.Chat.CommunicationBasis (LetterOptions buildEnvelope)
open Ccmux.Chat.Envelope
open Ccmux.Chat.Identity
open Ccmux.Chat.Message
open Ccmux.Chat.Settlement (isConditional isDue)
open Ccmux.Chat.Store
open Ccmux.Chat.Coalesce (coalesce)
open Ccmux.Chat.CoalesceRun (filterMap_filter)

/-- The chat store of one machine: its ledger, with the sessions it is read beside, and its acks. -/
structure ChatStore where
  receiver : Receiver
  acks : AckLog

/-- The ledger as the readers of letters see it. -/
def ChatStore.letters (s : ChatStore) : Ledger :=
  s.receiver.ledger.map (Option.map Envelope.toChatMessage)

/-- What the token of `msg` was resolved to. -/
inductive Route where
  | owner
  | external (name : String)
  | remote (target : ChatTarget)
  | here (target : ChatTarget)

def Route.target : Route → ChatTarget
  | .owner => .owner
  | .external name => .external name
  | .remote target => target
  | .here target => target

/-- How a `msg` command ended; a thrown one may have written before. -/
inductive Exit where
  | sent | refused | thrown
  deriving DecidableEq, Repr

def cancelRow (msg : ChatMessage) : AckRow := ⟨msg.id, .cancel⟩

/-- The letters a send withdraws before it records its own. -/
def replaced (s : ChatStore) (sender : ChatPrincipal) (target : ChatTarget)
    (opts : LetterOptions) : List ChatMessage :=
  match opts.notBefore, opts.task with
  | some _, some task =>
      pendingConditional s.letters (loadAcks s.acks)
        { sender := some sender, target := some target, task := some task }
  | _, _ => []

/-- Append one envelope; a session whose native selection is unavailable makes it throw. -/
def record (s : ChatStore) (envelope : Envelope) : ChatStore × Exit :=
  match appendMessage s.receiver envelope with
  | none => (s, .thrown)
  | some row =>
      ({ s with receiver := { s.receiver with ledger := s.receiver.ledger ++ [some row] } }, .sent)

def sendLetter (s : ChatStore) (id ts : String) (sender : ChatPrincipal) (target : ChatTarget)
    (body : String) (opts : LetterOptions) : ChatStore × Exit :=
  let acks := s.acks ++ (replaced s sender target opts).map cancelRow
  record { s with acks } (buildEnvelope id ts sender target body opts)

/-- The end of `cmdMsg`, once the token is resolved and the evidence is accepted. -/
def cmdMsg (s : ChatStore) (id ts : String) (sender : ChatPrincipal) (route : Route)
    (body : String) (opts : LetterOptions) : ChatStore × Exit :=
  match route with
  | .owner =>
      record s (buildEnvelope id ts sender .owner body
        { task := opts.task, defer := false, onBehalfOf := opts.onBehalfOf
          notBefore := opts.notBefore })
  | .external name =>
    if opts.notBefore.isSome then (s, .refused)
    else record s (buildEnvelope id ts sender (.external name) body
      { task := opts.task, defer := false, onBehalfOf := opts.onBehalfOf })
  -- a letter for another machine goes to the outbox, which no timer reaches
  | .remote _ => if opts.notBefore.isSome then (s, .refused) else (s, .sent)
  | .here target => sendLetter s id ts sender target body opts

/-- An unsettled letter of the sender's session to the target under the task. -/
def concerns (acks : AckLog) (sender : ChatPrincipal) (target : ChatTarget) (task : String)
    (msg : ChatMessage) : Bool :=
  !decide (msg.id ∈ loadAckedIds acks) && sameSender msg.sender sender &&
    sameTarget msg.target target && msg.task == some task

def isTimer (msg : ChatMessage) : Bool := msg.notBefore.isSome

/-- A letter that waits for the turn boundary and for nothing else. -/
def isOrdinary (msg : ChatMessage) : Bool := msg.defer && msg.notBefore.isNone

/-- The pending timers of a sender's session for a target and a task. -/
def timers (s : ChatStore) (sender : ChatPrincipal) (target : ChatTarget) (task : String) :
    List ChatMessage :=
  s.letters.reduceOption.filter fun msg => isTimer msg && concerns s.acks sender target task msg

/-- The send withdrew the pending timers it replaces and no other letter. -/
def Rearms (s t : ChatStore) (sender : ChatPrincipal) (target : ChatTarget) (task : String) :
    Prop :=
  t.acks = s.acks ++ (timers s sender target task).map cancelRow

/-- A timer for the owner finds no earlier one; any other finds no ordinary letter. -/
def Route.Clear (s : ChatStore) (sender : ChatPrincipal) (task : String) : Route → Prop
  | .owner => ∀ msg, some msg ∈ s.letters → isTimer msg = true →
      concerns s.acks sender .owner task msg = false
  | .here target => ∀ msg, some msg ∈ s.letters → isOrdinary msg = true →
      concerns s.acks sender target task msg = false
  | _ => True

inductive Event where
  | msg (id ts : String) (sender : ChatPrincipal) (route : Route) (body : String)
      (opts : LetterOptions)
  | stopHook (recipient : ManagedPeer) (now : Int)

/-- The rows a Stop hook appends for the batch it hands over. -/
def hookRows (dateParse : String → Option Int) (s : ChatStore) (recipientKey : String)
    (now : Int) : AckLog :=
  (coalesce dateParse s.letters recipientKey (loadAckedIds s.acks) now).map
    fun msg => ⟨msg.id, .hook⟩

def step (dateParse : String → Option Int) (s : ChatStore) : Event → Option ChatStore
  | .msg id ts sender route body opts => some (cmdMsg s id ts sender route body opts).1
  | .stopHook recipient now =>
      some { s with acks := s.acks ++ hookRows dateParse s (managedPeerKey recipient) now }

/-- Every timer a step arms finds the store clear. -/
def Clear (s : ChatStore) : Event → Prop
  | .msg _ _ sender route _ opts =>
      ∀ task, opts.notBefore.isSome = true → opts.task = some task → route.Clear s sender task
  | .stopHook _ _ => True

def isPass (recipientKey : String) : Event → Bool
  | .stopHook recipient _ => managedPeerKey recipient == recipientKey
  | _ => false

/-- The turn boundaries of a recipient along a run. -/
def passes (recipientKey : String) (events : List Event) : Nat :=
  events.countP (isPass recipientKey)

/-! ### What one send withdraws -/

variable {α : Type} {sender : ChatPrincipal} {opts : LetterOptions} {id : String} {e : Event}

/-- A filter keeps what a weaker one keeps exactly when nothing else passes the weaker one. -/
theorem map_filter_eq_iff {β : Type} {weak strong : α → Bool} (f : α → β) {l : List α}
    (h : ∀ a, strong a = true → weak a = true) :
    (l.filter weak).map f = (l.filter strong).map f ↔ ∀ a ∈ l, weak a = true → strong a = true := by
  constructor
  · intro hmap
    have hlength : l.countP weak = l.countP strong := by
      simpa [List.countP_eq_length_filter] using congrArg List.length hmap
    clear hmap
    induction l with
    | nil => simp
    | cons a l ih =>
      have hle : l.countP strong ≤ l.countP weak := List.countP_mono_left fun b _ => h b
      have hhead : weak a = true → strong a = true := by
        intro hweak
        by_contra hstrong
        rw [List.countP_cons_of_pos hweak, List.countP_cons_of_neg hstrong] at hlength
        omega
      refine List.forall_mem_cons.mpr ⟨hhead, ih ?_⟩
      by_cases hweak : weak a = true
      · rw [List.countP_cons_of_pos hweak, List.countP_cons_of_pos (hhead hweak)] at hlength
        omega
      · rw [List.countP_cons_of_neg hweak, List.countP_cons_of_neg fun hs => hweak (h a hs)]
          at hlength
        exact hlength
  · intro hall
    refine congrArg (List.map f) (List.filter_congr ?_)
    intro a ha
    rw [Bool.eq_iff_iff]
    exact ⟨hall a ha, h a⟩

theorem isPendingConditional_eq (log : AckLog) (sender : ChatPrincipal) (target : ChatTarget)
    (task : String) (index : Nat) (msg : ChatMessage) :
    isPendingConditional (loadAcks log)
        { sender := some sender, target := some target, task := some task } index msg =
      (isConditional msg && concerns log sender target task msg) := by
  by_cases hcond : isConditional msg = true
  · have hstate : Settlement.letterState msg index (loadAcks log) (fun _ => none) none = .pending ↔
        loadAcks log msg.id = none :=
      letterState_conditional hcond
    rw [loadAcks_eq_none] at hstate
    simp [-mem_loadAckedIds, isPendingConditional, concerns, undeliverable, hcond, hstate]
  · simp [isPendingConditional, hcond]

theorem pendingConditional_eq (ledger : Ledger) (log : AckLog) (sender : ChatPrincipal)
    (target : ChatTarget) (task : String) :
    pendingConditional ledger (loadAcks log)
        { sender := some sender, target := some target, task := some task } =
      ledger.reduceOption.filter
        fun msg => isConditional msg && concerns log sender target task msg := by
  have hslots : ledger = ledger.zipIdx.map Prod.fst := (List.zipIdx_map_fst 0 ledger).symm
  rw [pendingConditional, ← filterMap_filter]
  conv_rhs => rw [hslots, List.filterMap_map]
  refine congrArg (List.filterMap · ledger.zipIdx) (funext fun ⟨slot, index⟩ => ?_)
  exact congrArg (Option.filter · slot)
    (funext fun msg => isPendingConditional_eq log sender target task index msg)

theorem record_acks (s : ChatStore) (envelope : Envelope) :
    (record s envelope).1.acks = s.acks := by
  unfold record
  split <;> rfl

theorem sendLetter_acks (s : ChatStore) (id ts : String) (sender : ChatPrincipal)
    (target : ChatTarget) (body : String) (opts : LetterOptions) :
    (sendLetter s id ts sender target body opts).1.acks =
      s.acks ++ (replaced s sender target opts).map cancelRow := by
  rw [sendLetter, record_acks]

theorem mem_reduceOption {a : α} {slots : List (Option α)} :
    a ∈ slots.reduceOption ↔ some a ∈ slots :=
  List.reduceOption_mem_iff

variable {s t : ChatStore} {dateParse : String → Option Int} {events : List Event}
  {letters : Ledger} {msg : ChatMessage} {peer : ManagedPeer}

theorem sendLetter_rearms_iff {target : ChatTarget} {task : String}
    (hbefore : opts.notBefore.isSome = true)
    (htask : opts.task = some task) :
    (replaced s sender target opts).map cancelRow =
        (timers s sender target task).map cancelRow ↔
      (Route.here target).Clear s sender task := by
  obtain ⟨notBefore, hsome⟩ := Option.isSome_iff_exists.mp hbefore
  have hreplaced : replaced s sender target opts = s.letters.reduceOption.filter
      fun msg => isConditional msg && concerns s.acks sender target task msg := by
    rw [← pendingConditional_eq]
    simp [replaced, hsome, htask]
  rw [hreplaced, timers, map_filter_eq_iff]
  · refine forall_congr' fun msg => ?_
    rw [mem_reduceOption]
    refine imp_congr_right fun _ => ?_
    cases hdefer : msg.defer <;> cases hnot : msg.notBefore <;>
      simp [isTimer, isOrdinary, isConditional, hdefer, hnot]
  · intro msg hstrong
    rw [Bool.and_eq_true] at hstrong ⊢
    exact ⟨by simpa [isConditional, isTimer] using Or.inr hstrong.1, hstrong.2⟩

theorem cmdMsg_rearms_iff (s : ChatStore) (id ts : String) (sender : ChatPrincipal) (route : Route)
    (body : String) (opts : LetterOptions) (task : String)
    (hbefore : opts.notBefore.isSome = true) (htask : opts.task = some task)
    (hexit : (cmdMsg s id ts sender route body opts).2 ≠ .refused) :
    Rearms s (cmdMsg s id ts sender route body opts).1 sender route.target task ↔
      route.Clear s sender task := by
  cases route with
  | owner =>
    rw [Rearms, cmdMsg, record_acks, Route.target, List.self_eq_append_right, List.map_eq_nil_iff,
      timers, List.filter_eq_nil_iff]
    refine forall_congr' fun msg => ?_
    rw [mem_reduceOption]
    simp
  | external name => simp [cmdMsg, hbefore] at hexit
  | remote target => simp [cmdMsg, hbefore] at hexit
  | here target =>
    rw [Rearms, cmdMsg, sendLetter_acks, List.append_cancel_left_eq, Route.target,
      sendLetter_rearms_iff hbefore htask]

/-! ### What becomes of an ordinary letter -/

theorem record_letters (s : ChatStore) (envelope : Envelope) :
    ∃ more, (record s envelope).1.letters = s.letters ++ more := by
  unfold record
  split
  · exact ⟨[], (List.append_nil _).symm⟩
  · exact ⟨_, List.map_append⟩

theorem cmdMsg_letters (s : ChatStore) (id ts : String) (sender : ChatPrincipal) (route : Route)
    (body : String) (opts : LetterOptions) :
    ∃ more, (cmdMsg s id ts sender route body opts).1.letters = s.letters ++ more := by
  cases route with
  | owner => exact record_letters s _
  | external name =>
    simp only [cmdMsg]
    split
    · exact ⟨[], (List.append_nil _).symm⟩
    · exact record_letters s _
  | remote target =>
    simp only [cmdMsg]
    split <;> exact ⟨[], (List.append_nil _).symm⟩
  | here target => exact record_letters { s with acks := _ } _

/-- With a clear store a `msg` command withdraws only timers. -/
theorem cmdMsg_acks {ts : String} {route : Route} {body : String}
    (hclear : Clear s (.msg id ts sender route body opts)) :
    ∃ rows, (cmdMsg s id ts sender route body opts).1.acks = s.acks ++ rows ∧
      ∀ row ∈ rows, ∃ timer, some timer ∈ s.letters ∧ isTimer timer = true ∧ timer.id = row.id := by
  cases route with
  | owner => exact ⟨[], by rw [cmdMsg, record_acks, List.append_nil], by simp⟩
  | external name =>
    refine ⟨[], ?_, by simp⟩
    simp only [cmdMsg]
    split
    · exact (List.append_nil _).symm
    · rw [record_acks, List.append_nil]
  | remote target =>
    refine ⟨[], ?_, by simp⟩
    simp only [cmdMsg]
    split <;> exact (List.append_nil _).symm
  | here target =>
    refine ⟨_, sendLetter_acks s id ts sender target body opts, ?_⟩
    intro row hrow
    obtain ⟨msg, hmsg, rfl⟩ := List.mem_map.mp hrow
    have harmed : opts.notBefore.isSome = true ∧ ∃ task, opts.task = some task := by
      cases hnot : opts.notBefore <;> cases htask : opts.task <;>
        simp [replaced, hnot, htask] at hmsg ⊢
    obtain ⟨hbefore, task, htask⟩ := harmed
    have hrows : cancelRow msg ∈ (timers s sender target task).map cancelRow := by
      rw [← (sendLetter_rearms_iff hbefore htask).mpr (hclear task hbefore htask)]
      exact hrow
    obtain ⟨timer, htimer, hid⟩ := List.mem_map.mp hrows
    obtain ⟨hmem, htest⟩ := List.mem_filter.mp htimer
    rw [Bool.and_eq_true] at htest
    exact ⟨timer, mem_reduceOption.mp hmem, htest.1, congrArg AckRow.id hid⟩

theorem step_letters (hstep : step dateParse s e = some t) :
    ∃ more, t.letters = s.letters ++ more := by
  cases e with
  | msg id ts sender route body opts =>
    obtain rfl := Option.some.inj hstep
    exact cmdMsg_letters s id ts sender route body opts
  | stopHook recipient now =>
    obtain rfl := Option.some.inj hstep
    exact ⟨[], (List.append_nil _).symm⟩

theorem run_letters (hrun : run (step dateParse) s events = some t) :
    ∃ more, t.letters = s.letters ++ more := by
  have trans (s m t : ChatStore) (h : ∃ more, m.letters = s.letters ++ more)
      (h' : ∃ more, t.letters = m.letters ++ more) : ∃ more, t.letters = s.letters ++ more := by
    obtain ⟨first, hfirst⟩ := h
    obtain ⟨second, hsecond⟩ := h'
    exact ⟨first ++ second, by rw [hsecond, hfirst, List.append_assoc]⟩
  exact run_relation (fun s => ⟨[], (List.append_nil _).symm⟩) trans
    (fun _ _ _ => step_letters) hrun

/-- A letter that waits for turn boundaries only, and whose id nobody else carries. -/
structure Own (letters : Ledger) (peer : ManagedPeer) (msg : ChatMessage) : Prop where
  ordinary : isOrdinary msg = true
  target : msg.target = .managed peer
  alone : ∀ other, some other ∈ letters → other.id = msg.id → other = msg

theorem alone_of_all (h : letters.all (fun slot => slot.all fun other =>
      decide (other.id = msg.id → other = msg)) = true) :
    ∀ other, some other ∈ letters → other.id = msg.id → other = msg := by
  intro other hmem
  exact of_decide_eq_true (List.all_eq_true.mp h (some other) hmem)

theorem Own.back {before after : Ledger} (h : Own after peer msg)
    (hgrow : ∃ more, after = before ++ more) : Own before peer msg := by
  obtain ⟨more, rfl⟩ := hgrow
  exact ⟨h.ordinary, h.target, fun other hother => h.alone other (List.mem_append_left _ hother)⟩

theorem Own.not_timer {timer : ChatMessage} (h : Own letters peer msg) (hmem : some timer ∈ letters)
    (htimer : isTimer timer = true) :
    timer.id ≠ msg.id := by
  intro hid
  obtain rfl := h.alone timer hmem hid
  have hordinary := h.ordinary
  simp only [isOrdinary, isTimer, Bool.and_eq_true] at hordinary htimer
  rw [Option.isNone_iff_eq_none.mp hordinary.2] at htimer
  cases htimer

theorem Own.due (h : Own letters peer msg) (dateParse : String → Option Int) (now : Int) :
    isDue dateParse msg now = true := by
  have hordinary := h.ordinary
  simp only [isOrdinary, Bool.and_eq_true, Option.isNone_iff_eq_none] at hordinary
  simp [isDue, hordinary.2]

theorem Own.conditional (h : Own letters peer msg) : isConditional msg = true := by
  have hordinary := h.ordinary
  simp only [isOrdinary, Bool.and_eq_true] at hordinary
  simp [isConditional, hordinary.1]

theorem Own.other_hook (h : Own s.letters peer msg) {dateParse : String → Option Int}
    {recipientKey : String}
    {now : Int} (hne : recipientKey ≠ managedPeerKey peer) {row : AckRow}
    (hrow : row ∈ hookRows dateParse s recipientKey now) : row.id ≠ msg.id := by
  obtain ⟨other, hother, rfl⟩ := List.mem_map.mp hrow
  obtain ⟨hmem, ⟨target, htarget, hkey⟩, -⟩ :=
    CoalesceRun.mem_waitingFor_iff.mp (CoalesceRun.coalesce_sublist.subset hother)
  intro hid
  obtain rfl := h.alone other hmem hid
  rw [h.target] at htarget
  obtain rfl := ChatTarget.managed.inj htarget
  exact hne hkey.symm

/-- The recipient's queue follows the store, and the letter's own id is acked by its hook only. -/
structure Follows (dateParse : String → Option Int) (peer : ManagedPeer) (msg : ChatMessage)
    (s t : ChatStore) (boundaries : Nat) : Prop where
  queue : ∀ returned, ∃ es q,
    run (CoalesceRun.step dateParse (managedPeerKey peer)) ⟨s.letters, s.acks, returned⟩ es =
        some q ∧
      q.ledger = t.letters ∧ q.acks = t.acks ∧
      CoalesceRun.duePasses dateParse msg es = boundaries
  acks : ∃ rows, t.acks = s.acks ++ rows ∧ ∀ row ∈ rows, row.id = msg.id → row.by = .hook

theorem Follows.refl (dateParse : String → Option Int) (peer : ManagedPeer) (msg : ChatMessage)
    (s : ChatStore) : Follows dateParse peer msg s s 0 :=
  ⟨fun _ => ⟨[], _, rfl, rfl, rfl, rfl⟩, ⟨[], (List.append_nil _).symm, by simp⟩⟩

theorem Follows.trans {m : ChatStore} {first second : Nat}
    (h : Follows dateParse peer msg s m first)
    (h' : Follows dateParse peer msg m t second) :
    Follows dateParse peer msg s t (first + second) := by
  constructor
  · intro returned
    obtain ⟨es, ⟨letters, acks, returned'⟩, hrun, rfl, rfl, rfl⟩ := h.queue returned
    obtain ⟨es', q', hrun', hledger, hacks, rfl⟩ := h'.queue returned'
    exact ⟨es ++ es', q', run_append hrun hrun', hledger, hacks, List.countP_append⟩
  · obtain ⟨rows, hrows, hhook⟩ := h.acks
    obtain ⟨rows', hrows', hhook'⟩ := h'.acks
    refine ⟨rows ++ rows', by rw [hrows', hrows, List.append_assoc], ?_⟩
    intro row hrow
    rcases List.mem_append.mp hrow with hrow | hrow
    · exact hhook row hrow
    · exact hhook' row hrow

theorem step_follows (hown : Own s.letters peer msg) (hclear : Clear s e)
    (hstep : step dateParse s e = some t) :
    Follows dateParse peer msg s t (if isPass (managedPeerKey peer) e then 1 else 0) := by
  cases e with
  | msg id ts sender route body opts =>
    obtain rfl := Option.some.inj hstep
    obtain ⟨rows, hacks, htimers⟩ := cmdMsg_acks hclear
    obtain ⟨more, hletters⟩ := cmdMsg_letters s id ts sender route body opts
    refine ⟨fun returned => ⟨[.acked rows, .append more], _, rfl, hletters.symm, hacks.symm, rfl⟩,
      rows, hacks, ?_⟩
    intro row hrow hid
    obtain ⟨timer, hmem, htimer, hsame⟩ := htimers row hrow
    exact absurd (hsame.trans hid) (hown.not_timer hmem htimer)
  | stopHook recipient now =>
    obtain rfl := Option.some.inj hstep
    by_cases hkey : managedPeerKey recipient = managedPeerKey peer
    · refine ⟨fun returned => ⟨[.stopHook now], _, rfl, rfl, ?_, ?_⟩, _, rfl, ?_⟩
      · simp only [hookRows, hkey, CoalesceRun.cmdStopHook]
      · simp [CoalesceRun.duePasses, CoalesceRun.isDuePass, hown.due, isPass, hkey]
      · intro row hrow _
        obtain ⟨other, -, rfl⟩ := List.mem_map.mp hrow
        rfl
    · refine ⟨fun returned => ⟨[.acked (hookRows dateParse s (managedPeerKey recipient) now)], _,
        rfl, rfl, rfl, ?_⟩, _, rfl, ?_⟩
      · simp [CoalesceRun.duePasses, CoalesceRun.isDuePass, isPass, hkey]
      · intro row hrow hid
        exact absurd hid (hown.other_hook hkey hrow)

theorem run_follows (hrun : run (step dateParse) s events = some t)
    (hclear : Along (step dateParse) Clear s events) (hown : Own t.letters peer msg) :
    Follows dateParse peer msg s t (passes (managedPeerKey peer) events) := by
  induction events generalizing s with
  | nil =>
    obtain rfl := Option.some.inj hrun
    exact Follows.refl dateParse peer msg s
  | cons e events ih =>
    have hback := hown.back (run_letters hrun)
    obtain ⟨m, hstep, hrest⟩ := run_cons.mp hrun
    have hfirst := step_follows hback hclear.1 hstep
    have hcount : passes (managedPeerKey peer) (e :: events) =
        passes (managedPeerKey peer) events + if isPass (managedPeerKey peer) e then 1 else 0 :=
      List.countP_cons
    rw [hcount, Nat.add_comm]
    exact hfirst.trans (ih hrest (hclear.2 m hstep))

theorem loadAcks_of_hook {log : AckLog} (hhook : ∀ row ∈ log, row.id = id → row.by = .hook)
    (hmem : id ∈ loadAckedIds log) :
    loadAcks log id = some .delivered := by
  obtain ⟨row, hfind⟩ := Option.ne_none_iff_exists'.mp
    (fun hnone => loadAcks_eq_none.mp (by rw [loadAcks, hnone]; rfl) hmem :
      log.reverse.find? (fun row => row.id == id) ≠ none)
  have hrow := List.mem_reverse.mp (List.mem_of_find?_eq_some hfind)
  have hid : row.id = id := by simpa using List.find?_some hfind
  rw [loadAcks, hfind, Option.map_some, AckRow.outcome, hhook row hrow hid]

/-- Where every armed timer finds a clear store, an ordinary letter is never withdrawn, and it is
delivered once its recipient had more turn boundaries than letters stand before it. -/
theorem ordinary_letter_is_delivered {idx : Nat} (hrun : run (step dateParse) s events = some t)
    (hclear : Along (step dateParse) Clear s events) (hletter : s.letters.letter idx = some msg)
    (hown : Own t.letters peer msg) (hid : msg.id ∉ loadAckedIds s.acks) :
    loadAcks t.acks msg.id ≠ some .cancelled ∧
      (idx < passes (managedPeerKey peer) events → loadAcks t.acks msg.id = some .delivered) := by
  have hfollows := run_follows hrun hclear hown
  obtain ⟨rows, hrows, hhook⟩ := hfollows.acks
  have hall : ∀ row ∈ t.acks, row.id = msg.id → row.by = .hook := by
    intro row hrow hsame
    rw [hrows] at hrow
    rcases List.mem_append.mp hrow with hold | hnew
    · exact absurd (mem_loadAckedIds.mpr ⟨row, hold, hsame⟩) hid
    · exact hhook row hnew hsame
  refine ⟨?_, ?_⟩
  · intro hcancelled
    have hmem : msg.id ∈ loadAckedIds t.acks := by
      by_contra hnone
      rw [loadAcks_eq_none.mpr hnone] at hcancelled
      cases hcancelled
    rw [loadAcks_of_hook hall hmem] at hcancelled
    cases hcancelled
  · intro hpasses
    obtain ⟨es, q, hqueue, -, hacks, hdue⟩ := hfollows.queue []
    have hsettled := CoalesceRun.waiting_letter_is_settled hqueue hletter
      ⟨peer, hown.target, rfl⟩ hown.conditional (hdue ▸ hpasses)
    exact loadAcks_of_hook hall (hacks ▸ hsettled)

/-- Arming a timer replaces the pending timers and nothing else exactly when the store is clear,
and along a run whose timers find it clear both of two ordinary letters are delivered. -/
theorem timers_replace_timers (dateParse : String → Option Int) (s : ChatStore) :
    (∀ id ts sender route body opts task, opts.notBefore.isSome = true → opts.task = some task →
      (cmdMsg s id ts sender route body opts).2 ≠ .refused →
      (Rearms s (cmdMsg s id ts sender route body opts).1 sender route.target task ↔
        route.Clear s sender task)) ∧
    ∀ events t, run (step dateParse) s events = some t →
      Along (step dateParse) Clear s events →
      ∀ idx msg peer, s.letters.letter idx = some msg → Own t.letters peer msg →
        msg.id ∉ loadAckedIds s.acks →
        loadAcks t.acks msg.id ≠ some .cancelled ∧
          (idx < passes (managedPeerKey peer) events →
            loadAcks t.acks msg.id = some .delivered) := by
  refine ⟨cmdMsg_rearms_iff s, ?_⟩
  intro events t hrun hclear idx msg peer hletter hown hid
  exact ordinary_letter_is_delivered hrun hclear hletter hown hid

def desk : ManagedPeer := ⟨"host", .claude, "desk", "t1"⟩

/-- A letter of the shell to the desk under a task, as `msg` writes it. -/
def deskLetter (id task : String) (notBefore : Option String) : Envelope :=
  buildEnvelope id "2026-01-01T00:00:00Z" (.cli "host") (.managed desk) "note"
    { task := some task, notBefore }

def deskStore (ledger : List (Option Envelope)) : ChatStore :=
  ⟨⟨"host", [], fun _ => none, ledger⟩, []⟩

/-- Two ordinary letters under one task, and a timer under another. -/
def twoNotes : ChatStore :=
  deskStore [some (deskLetter "a" "notes" none), some (deskLetter "b" "notes" none),
    some (deskLetter "w" "alarm" (some "2026-01-01T01:00:00Z"))]

def rearm : LetterOptions :=
  { task := some "alarm", notBefore := some "2026-01-01T02:00:00Z" }

/-- The timer is armed again, then the desk has two turn boundaries. -/
def twoNotesEvents : List Event :=
  [.msg "x" "2026-01-01T00:30:00Z" (.cli "host") (.here (.managed desk)) "wake up" rearm,
    .stopHook desk 0, .stopHook desk 1]

theorem twoNotes_clear :
    Along (step fun _ => some 3600000) Clear twoNotes twoNotesEvents := by
  refine ⟨?_, fun _ _ => ⟨trivial, fun _ _ => ⟨trivial, fun _ _ => trivial⟩⟩⟩
  intro task _ htask msg hmem hordinary
  obtain rfl := Option.some.inj htask
  have hcases : msg = (deskLetter "a" "notes" none).toChatMessage ∨
      msg = (deskLetter "b" "notes" none).toChatMessage ∨
      msg = (deskLetter "w" "alarm" (some "2026-01-01T01:00:00Z")).toChatMessage := by
    simpa [twoNotes, deskStore, ChatStore.letters] using hmem
  rcases hcases with rfl | rfl | rfl
  · decide
  · decide
  · cases hordinary

theorem timers_replace_timers_twoNotes :
    Rearms twoNotes (cmdMsg twoNotes "x" "2026-01-01T00:30:00Z" (.cli "host")
        (.here (.managed desk)) "wake up" rearm).1 (.cli "host") (.managed desk) "alarm" ∧
      ∃ t, run (step fun _ => some 3600000) twoNotes twoNotesEvents = some t ∧
        loadAcks t.acks "a" = some .delivered ∧ loadAcks t.acks "b" = some .delivered := by
  obtain ⟨harm, hrun⟩ := timers_replace_timers (fun _ => some 3600000) twoNotes
  refine ⟨?_, _, rfl, ?_, ?_⟩
  · exact (harm _ _ _ (.here (.managed desk)) _ rearm "alarm" rfl rfl (by decide)).mpr
      (twoNotes_clear.1 "alarm" rfl rfl)
  · exact (hrun twoNotesEvents _ rfl twoNotes_clear 0 _ desk rfl
      ⟨rfl, rfl, alone_of_all (by decide)⟩ (by decide)).2 (by decide)
  · exact (hrun twoNotesEvents _ rfl twoNotes_clear 1 _ desk rfl
      ⟨rfl, rfl, alone_of_all (by decide)⟩ (by decide)).2 (by decide)

/-- An ordinary letter is withdrawn by a timer armed under the same task. -/
theorem timer_withdraws_ordinary_letter :
    isOrdinary (deskLetter "a" "alarm" none).toChatMessage = true ∧
      loadAcks (sendLetter (deskStore [some (deskLetter "a" "alarm" none)]) "x"
        "2026-01-01T00:30:00Z" (.cli "host") (.managed desk) "wake up" rearm).1.acks "a" =
        some .cancelled ∧
      ¬ Rearms (deskStore [some (deskLetter "a" "alarm" none)])
        (cmdMsg (deskStore [some (deskLetter "a" "alarm" none)]) "x" "2026-01-01T00:30:00Z"
          (.cli "host") (.here (.managed desk)) "wake up" rearm).1
        (.cli "host") (.managed desk) "alarm" := by
  refine ⟨by decide, by decide, ?_⟩
  unfold Rearms
  decide

end Ccmux.Chat.SendLetter
