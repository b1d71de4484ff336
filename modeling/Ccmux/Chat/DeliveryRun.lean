/- Module: Ccmux/Chat/DeliveryRun
   source: src/chat/settlement.ts (nextDelivery), src/chat/deliver.ts (deliverPending)
   digest: Every run of delivery passes hands immediate mail over in order and conditional mail once. -/

import Ccmux.Lib.Machine
import Ccmux.Chat.TurnProgress

namespace Ccmux.Chat.DeliveryRun

open Ccmux.Lib.Machine
open Ccmux.Chat.Identity (ManagedPeer chatTargetKey managedPeerKey)
open Ccmux.Chat.Message
open Ccmux.Chat.Settlement
open Ccmux.Chat.TurnProgress (advancePast)

/-- One letter handed to the recipient, with the clock of the pass that handed it over. -/
structure Handed where
  idx : Nat
  msg : ChatMessage
  now : Int
  deriving DecidableEq, Repr

/-- What the passes over one recipient share; `handed` records the hand-overs in order. -/
structure DeliveryState where
  ledger : Ledger
  cursors : ChatCursors
  acked : Finset String
  now : Int
  handed : List Handed

inductive DeliveryEvent where
  | append (more : Ledger)
  | ack (ids : Finset String)
  | tick (later : Int)
  | pass (submitted : Bool)

section
variable (dateParse : String → Option Int) (recipientKey : String)

def DeliveryState.cursor (s : DeliveryState) : Nat := position s.cursors.delivered recipientKey

/-- The cursors after a pass picked: caught up, whether or not the pick is submitted. -/
def catchUp (s : DeliveryState) : DeliveryState :=
  { s with cursors :=
      (nextDelivery dateParse s.ledger recipientKey s.cursors s.acked s.now).2.1 }

/-- Handing a pick over: an immediate letter moves the cursor, a conditional one is acked. -/
def handOver (s : DeliveryState) (pick : Pick) : DeliveryState :=
  let handed := s.handed ++ [⟨pick.idx, pick.msg, s.now⟩]
  if isConditional pick.msg then
    { s with acked := insert pick.msg.id s.acked, handed }
  else
    { s with cursors := advancePast s.cursors recipientKey pick.idx, handed }

def pass (s : DeliveryState) (submitted : Bool) : DeliveryState :=
  let caught := catchUp dateParse recipientKey s
  match (nextDelivery dateParse s.ledger recipientKey s.cursors s.acked s.now).1 with
  | some pick => if submitted then handOver recipientKey caught pick else caught
  | none => caught

def step (s : DeliveryState) : DeliveryEvent → Option DeliveryState
  | .append more => some { s with ledger := s.ledger ++ more }
  | .ack ids => some { s with acked := s.acked ∪ ids }
  | .tick later => if s.now ≤ later then some { s with now := later } else none
  | .pass submitted => some (pass dateParse recipientKey s submitted)

def Handed.immediate (h : Handed) : Bool := !isConditional h.msg

/-- The relation of cursor, ledger, ack set and hand-overs that every pass keeps. -/
structure Settled (start : Nat) (s : DeliveryState) : Prop where
  within : s.cursor recipientKey ≤ max start s.ledger.length
  placed : ∀ h ∈ s.handed, s.ledger.letter h.idx = some h.msg ∧
    chatTargetKey h.msg.target = recipientKey
  behind : ∀ h ∈ s.handed, isConditional h.msg = false → h.idx < s.cursor recipientKey
  ordered : ((s.handed.filter Handed.immediate).map Handed.idx).Pairwise (· < ·)
  covered : ∀ idx msg, start ≤ idx → idx < s.cursor recipientKey →
    s.ledger.letter idx = some msg → immediateTo recipientKey msg = true →
    ∃ h ∈ s.handed, h.idx = idx
  resolved : ∀ h ∈ s.handed, isConditional h.msg = true → h.msg.id ∈ s.acked
  once : ((s.handed.filter fun h => isConditional h.msg).map fun h => h.msg.id).Nodup
  due : ∀ h ∈ s.handed, isDue dateParse h.msg h.now = true

theorem catchUp_cursor (s : DeliveryState) :
    (catchUp dateParse recipientKey s).cursor recipientKey =
      (pickPendingDelivery dateParse s.ledger recipientKey (s.cursor recipientKey)
        s.acked s.now).2 := by
  simp [catchUp, DeliveryState.cursor, nextDelivery]

variable {dateParse recipientKey}

theorem nextDelivery_pick (s : DeliveryState) :
    (nextDelivery dateParse s.ledger recipientKey s.cursors s.acked s.now).1 =
      (pickPendingDelivery dateParse s.ledger recipientKey (s.cursor recipientKey)
        s.acked s.now).1 := rfl

variable {start : Nat} {s : DeliveryState} {pick : Pick}

/-- Every letter between the old cursor and the caught-up one is no immediate letter of the
recipient, and the caught-up cursor stays past every letter handed over. -/
theorem Settled.catchUp (h : Settled dateParse recipientKey start s) :
    Settled dateParse recipientKey start (catchUp dateParse recipientKey s) := by
  have hcursor := catchUp_cursor dateParse recipientKey s
  rcases pickPendingDelivery_cases dateParse s.ledger recipientKey (s.cursor recipientKey)
      s.acked s.now with
    ⟨pick, heq, hle, hletter, _, hfirst⟩ | ⟨hend, hnone, _⟩
  · rw [heq] at hcursor
    refine { h with within := ?_, behind := ?_, covered := ?_ }
    · rw [hcursor]
      have := Ledger.letter_lt hletter
      exact le_max_of_le_right (by simpa [DeliveryRun.catchUp] using this.le)
    · intro x hx himm
      rw [hcursor]
      exact (h.behind x hx himm).trans_le hle
    · intro idx msg hstart hlt hletter himm
      rw [hcursor] at hlt
      rcases Nat.lt_or_ge idx (s.cursor recipientKey) with hold | hnew
      · exact h.covered idx msg hstart hold hletter himm
      · exact absurd himm (by simp [hfirst idx hnew hlt msg hletter])
  · rw [hend] at hcursor
    refine { h with within := ?_, behind := ?_, covered := ?_ }
    · rw [hcursor]
      exact le_max_right _ _
    · intro x hx _
      rw [hcursor]
      exact Ledger.letter_lt (h.placed x hx).1
    · intro idx msg hstart _ hletter himm
      rcases Nat.lt_or_ge idx (s.cursor recipientKey) with hold | hnew
      · exact h.covered idx msg hstart hold hletter himm
      · exact absurd himm (by simp [hnone idx hnew msg hletter])

/-- Handing over the immediate letter the cursor stands on. -/
theorem Settled.handImmediate (h : Settled dateParse recipientKey start s)
    (hcursor : s.cursor recipientKey = pick.idx)
    (hletter : s.ledger.letter pick.idx = some pick.msg)
    (htest : immediateTo recipientKey pick.msg = true) :
    Settled dateParse recipientKey start (handOver recipientKey s pick) := by
  obtain ⟨hkey, himm⟩ := immediateTo_iff.mp htest
  have hshape : handOver recipientKey s pick =
      { s with cursors := advancePast s.cursors recipientKey pick.idx,
               handed := s.handed ++ [⟨pick.idx, pick.msg, s.now⟩] } := by
    simp [handOver, himm]
  have hnext : (handOver recipientKey s pick).cursor recipientKey = pick.idx + 1 := by
    simp [hshape, DeliveryState.cursor]
  have hdue : isDue dateParse pick.msg s.now = true := by
    have : pick.msg.notBefore = none := by simpa [isConditional] using (by
      simpa [isConditional] using himm : pick.msg.defer = false ∧ pick.msg.notBefore = none).2
    simp [isDue, this]
  constructor
  · rw [hnext, hshape]
    exact le_max_of_le_right (Ledger.letter_lt hletter)
  · intro x hx
    rw [hshape] at hx
    rcases List.mem_append.mp hx with hx | hx
    · rw [hshape]; exact h.placed x hx
    · obtain rfl := List.mem_singleton.mp hx
      rw [hshape]; exact ⟨hletter, hkey⟩
  · intro x hx hcond
    rw [hnext]
    rw [hshape] at hx
    rcases List.mem_append.mp hx with hx | hx
    · have := h.behind x hx hcond
      omega
    · obtain rfl := List.mem_singleton.mp hx
      simp
  · have hlast : Handed.immediate ⟨pick.idx, pick.msg, s.now⟩ = true := by
      simp [Handed.immediate, himm]
    simp only [hshape, List.filter_append, List.map_append, List.filter_singleton, hlast, cond_true,
      List.map_cons, List.map_nil]
    refine List.pairwise_append.mpr ⟨h.ordered, List.pairwise_singleton _ _, ?_⟩
    intro a ha b hb
    obtain rfl := List.mem_singleton.mp hb
    obtain ⟨x, hx, rfl⟩ := List.mem_map.mp ha
    obtain ⟨hmem, hximm⟩ := List.mem_filter.mp hx
    have := h.behind x hmem (by simpa [Handed.immediate] using hximm)
    omega
  · intro idx msg hstart hlt hl himm'
    rw [hnext] at hlt
    rw [hshape] at hl ⊢
    rcases Nat.lt_or_ge idx pick.idx with hlt' | hge
    · obtain ⟨x, hx, hidx⟩ := h.covered idx msg hstart (by omega) hl himm'
      exact ⟨x, List.mem_append_left _ hx, hidx⟩
    · exact ⟨⟨pick.idx, pick.msg, s.now⟩, List.mem_append_right _ (List.mem_singleton_self _),
        by simp only; omega⟩
  · intro x hx hcond
    rw [hshape] at hx ⊢
    rcases List.mem_append.mp hx with hx | hx
    · exact h.resolved x hx hcond
    · obtain rfl := List.mem_singleton.mp hx
      simp [himm] at hcond
  · simpa [hshape, List.filter_append, himm] using h.once
  · intro x hx
    rw [hshape] at hx
    rcases List.mem_append.mp hx with hx | hx
    · exact h.due x hx
    · obtain rfl := List.mem_singleton.mp hx
      exact hdue

/-- Handing over a due conditional letter that was not resolved yet. -/
theorem Settled.handConditional (h : Settled dateParse recipientKey start s)
    (hletter : s.ledger.letter pick.idx = some pick.msg)
    (htest : conditionalTo dateParse recipientKey s.acked s.now pick.msg = true) :
    Settled dateParse recipientKey start (handOver recipientKey s pick) := by
  obtain ⟨hkey, hcond, hid, hdue⟩ := (conditionalTo_iff dateParse).mp htest
  have hshape : handOver recipientKey s pick =
      { s with acked := insert pick.msg.id s.acked,
               handed := s.handed ++ [⟨pick.idx, pick.msg, s.now⟩] } := by
    simp [handOver, hcond]
  rw [hshape]
  constructor
  · exact h.within
  · intro x hx
    rcases List.mem_append.mp hx with hx | hx
    · exact h.placed x hx
    · obtain rfl := List.mem_singleton.mp hx
      exact ⟨hletter, hkey⟩
  · intro x hx himm
    rcases List.mem_append.mp hx with hx | hx
    · exact h.behind x hx himm
    · obtain rfl := List.mem_singleton.mp hx
      simp [hcond] at himm
  · simpa [List.filter_append, Handed.immediate, hcond] using h.ordered
  · intro idx msg hstart hlt hl himm
    obtain ⟨x, hx, hidx⟩ := h.covered idx msg hstart hlt hl himm
    exact ⟨x, List.mem_append_left _ hx, hidx⟩
  · intro x hx hxcond
    rcases List.mem_append.mp hx with hx | hx
    · exact Finset.mem_insert_of_mem (h.resolved x hx hxcond)
    · obtain rfl := List.mem_singleton.mp hx
      exact Finset.mem_insert_self _ _
  · simp only [List.filter_append, List.map_append, List.filter_singleton, hcond, cond_true,
      List.map_cons, List.map_nil]
    apply nodup_grow h.once
    intro hold
    obtain ⟨x, hx, hxid⟩ := List.mem_map.mp hold
    obtain ⟨hmem, hxcond⟩ := List.mem_filter.mp hx
    have hin := h.resolved x hmem hxcond
    rw [hxid] at hin
    exact hid hin
  · intro x hx
    rcases List.mem_append.mp hx with hx | hx
    · exact h.due x hx
    · obtain rfl := List.mem_singleton.mp hx
      exact hdue

theorem Settled.pass (submitted : Bool)
    (h : Settled dateParse recipientKey start s) :
    Settled dateParse recipientKey start (pass dateParse recipientKey s submitted) := by
  have hcaught := h.catchUp
  have hcursor := catchUp_cursor dateParse recipientKey s
  unfold DeliveryRun.pass
  simp only [nextDelivery_pick]
  rcases pickPendingDelivery_cases dateParse s.ledger recipientKey (s.cursor recipientKey)
      s.acked s.now with
    ⟨pick, heq, _, hletter, htest, _⟩ | ⟨_, _, hall⟩
  · rw [heq] at hcursor
    simp only [heq]
    cases submitted with
    | false => exact hcaught
    | true => exact hcaught.handImmediate hcursor hletter htest
  · cases hpick : (pickPendingDelivery dateParse s.ledger recipientKey (s.cursor recipientKey)
        s.acked s.now).1 with
    | none => exact hcaught
    | some pick =>
      obtain ⟨hletter, htest⟩ := hall pick hpick
      cases submitted with
      | false => exact hcaught
      | true => exact hcaught.handConditional hletter htest

theorem Settled.append (more : Ledger)
    (h : Settled dateParse recipientKey start s) :
    Settled dateParse recipientKey start { s with ledger := s.ledger ++ more } := by
  have hcursor : DeliveryState.cursor recipientKey { s with ledger := s.ledger ++ more } =
      s.cursor recipientKey := rfl
  refine { h with within := ?_, placed := ?_, covered := ?_ }
  · rw [hcursor]
    have := h.within
    simp only [List.length_append]
    omega
  · intro x hx
    exact ⟨Ledger.letter_append more (h.placed x hx).1, (h.placed x hx).2⟩
  · intro idx msg hstart hlt hletter himm
    rw [hcursor] at hlt
    have hwithin := h.within
    -- a cursor past the end of the ledger has not moved since the start
    have hold : idx < s.ledger.length := by omega
    rw [Ledger.letter_append_left more hold] at hletter
    exact h.covered idx msg hstart hlt hletter himm

theorem Settled.step {start : Nat} (s : DeliveryState) (e : DeliveryEvent) (t : DeliveryState)
    (h : Settled dateParse recipientKey start s)
    (hstep : step dateParse recipientKey s e = some t) :
    Settled dateParse recipientKey start t := by
  cases e with
  | append more =>
    obtain rfl := Option.some.inj hstep
    exact h.append more
  | ack ids =>
    obtain rfl := Option.some.inj hstep
    refine { h with resolved := ?_ }
    intro x hx hcond
    exact Finset.mem_union_left _ (h.resolved x hx hcond)
  | tick later =>
    simp only [DeliveryRun.step] at hstep
    split at hstep
    · obtain rfl := Option.some.inj hstep
      exact { h with }
    · cases hstep
  | pass submitted =>
    obtain rfl := Option.some.inj hstep
    exact h.pass submitted

theorem Settled.initial (h : s.handed = []) :
    Settled dateParse recipientKey (s.cursor recipientKey) s := by
  constructor <;> simp [h]
  · intro idx msg hstart hlt
    omega

theorem pickPendingDelivery_waiting {ledger : Ledger} {delivered idx : Nat} {msg : ChatMessage}
    (hidx : delivered ≤ idx) (hletter : ledger.letter idx = some msg)
    (himm : immediateTo recipientKey msg = true) :
    ∃ pick, isConditional pick.msg = false ∧ pick.idx ≤ idx ∧
      ∀ acked now, (pickPendingDelivery dateParse ledger recipientKey delivered acked now).1 =
        some pick := by
  cases hscan : scanFrom (immediateTo recipientKey) delivered ledger with
  | none =>
    have := scanFrom_none hscan idx hidx msg hletter
    simp [himm] at this
  | some pick =>
    obtain ⟨_, _, htest, hfirst⟩ := scanFrom_some hscan
    refine ⟨pick, (immediateTo_iff.mp htest).2, ?_, ?_⟩
    · by_contra hlt
      have := hfirst idx hidx (by omega) msg hletter
      simp [himm] at this
    · intro acked now
      simp [pickPendingDelivery, hscan]

/-- Over every run of passes on a growing ledger, ack set and clock: immediate mail is handed over
in ledger order, each letter once, with none at or after the starting cursor left behind the
cursor; conditional mail is handed over once, and never before its time; and while an immediate
letter waits, the next pick is an immediate one, whatever the ack set and the clock. -/
theorem passes_hand_over_in_order {s t : DeliveryState} {events : List DeliveryEvent}
    (hfresh : s.handed = []) (hrun : run (DeliveryRun.step dateParse recipientKey) s events = some t) :
    ((t.handed.filter Handed.immediate).map Handed.idx).Pairwise (· < ·) ∧
    (∀ h ∈ t.handed, t.ledger.letter h.idx = some h.msg ∧
      chatTargetKey h.msg.target = recipientKey) ∧
    (∀ idx msg, s.cursor recipientKey ≤ idx → t.ledger.letter idx = some msg →
      immediateTo recipientKey msg = true →
      idx < (pickPendingDelivery dateParse t.ledger recipientKey (t.cursor recipientKey)
        t.acked t.now).2 → ∃ h ∈ t.handed, h.idx = idx) ∧
    ((t.handed.filter fun h => isConditional h.msg).map fun h => h.msg.id).Nodup ∧
    (∀ h ∈ t.handed, ∀ text at_, h.msg.notBefore = some text → dateParse text = some at_ →
      at_ ≤ h.now) ∧
    (∀ idx msg, s.cursor recipientKey ≤ idx → t.ledger.letter idx = some msg →
      immediateTo recipientKey msg = true → (∀ h ∈ t.handed, h.idx ≠ idx) →
      ∃ pick, isConditional pick.msg = false ∧ pick.idx ≤ idx ∧
        ∀ acked now, (pickPendingDelivery dateParse t.ledger recipientKey (t.cursor recipientKey)
          acked now).1 = some pick) := by
  have ht : Settled dateParse recipientKey (s.cursor recipientKey) t :=
    run_invariant (fun s e t hs hstep => Settled.step s e t hs hstep) hrun (.initial hfresh)
  refine ⟨ht.ordered, ht.placed, ?_, ht.once, ?_, ?_⟩
  · intro idx msg hstart hletter himm hlt
    have hcaught := ht.catchUp
    refine hcaught.covered idx msg hstart ?_ hletter himm
    rw [catchUp_cursor]
    exact hlt
  · intro h hh text at_ htext hat
    exact isDue_notBefore dateParse (ht.due h hh) htext hat
  · intro idx msg hstart hletter himm hwaiting
    refine pickPendingDelivery_waiting ?_ hletter himm
    by_contra hlt
    obtain ⟨h, hmem, hidx⟩ := ht.covered idx msg hstart (by omega) hletter himm
    exact hwaiting h hmem hidx

end

/-- A letter from the shell to an agent session. -/
def letterTo (peer : ManagedPeer) (id : String) (deferred : Bool) : ChatMessage :=
  { id, ts := "2026-01-01T00:00:00Z", sender := .cli "host", target := .managed peer, body := id,
    defer := deferred }

def worker : ManagedPeer := ⟨"host", .claude, "worker", "t1"⟩

/-- A hole, a deferred letter and an immediate one, before the first pass. -/
def twoTracks : DeliveryState :=
  { ledger := [none, some (letterTo worker "later" true), some (letterTo worker "now" false)]
    cursors := ChatCursors.empty
    acked := ∅
    now := 0
    handed := [] }

def twoTracksEnd : DeliveryState :=
  let key := managedPeerKey worker
  pass (fun _ => none) key (pass (fun _ => none) key twoTracks true) true

theorem passes_hand_over_in_order_twoTracks :
    twoTracksEnd.handed.map Handed.idx = [2, 1] ∧
    ((twoTracksEnd.handed.filter Handed.immediate).map Handed.idx).Pairwise (· < ·) := by
  refine ⟨by decide, ?_⟩
  have hrun : run (DeliveryRun.step (fun _ => none) (managedPeerKey worker)) twoTracks
      [.pass true, .pass true] = some twoTracksEnd := rfl
  exact (passes_hand_over_in_order rfl hrun).1

end Ccmux.Chat.DeliveryRun
