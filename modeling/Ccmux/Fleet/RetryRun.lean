/- Module: Ccmux/Fleet/RetryRun
   source: src/fleet/flush.ts, src/commands/receiveChat.ts, src/chat/ledger.ts
   digest: Each letter is stored once, acked when it is stored, and its retry is a duplicate. -/

import Ccmux.Fleet.Retry

namespace Ccmux.Fleet.Retry

open Ccmux.Chat.Admission
open Ccmux.Chat.Envelope (Envelope)
open Ccmux.Fleet.Address (MachineConfig)
open Ccmux.Fleet.Flush
open Ccmux.Fleet.Outbox
open Ccmux.Lib.Machine

@[simp] theorem put_self {α : Type} (entries : Nat → Option α) (key : Nat) (value : Option α) :
    put entries key value key = value := by
  simp [put]

variable {α : Type} {token : Nat} {rec : Outbound}

theorem put_of_ne (entries : Nat → Option α) {key other : Nat} (value : Option α)
    (h : other ≠ key) : put entries key value other = entries other := by
  simp [put, h]

theorem put_some {entries : Nat → Option α} {key other : Nat} {value : Option α} {a : α}
    (h : put entries key value other = some a) :
    (other = key ∧ value = some a) ∨ (other ≠ key ∧ entries other = some a) := by
  by_cases heq : other = key
  · rw [heq, put_self] at h
    exact Or.inl ⟨heq, h⟩
  · rw [put_of_ne _ _ heq] at h
    exact Or.inr ⟨heq, h⟩

def carries (w : World) (token : Nat) (msg : Envelope) : Prop :=
  ∃ stage, w.requests token = some ⟨msg, stage⟩

structure Onward (w v : World) : Prop where
  composed : ∀ msg ∈ w.composed, msg ∈ v.composed
  carries : ∀ token msg, carries w token msg → carries v token msg
  ledger : ∀ slot ∈ w.receiver.ledger, slot ∈ v.receiver.ledger

variable {w : World}

theorem onward_setStage {request : Request} (stage : Stage)
    (h : w.requests token = some request) : Onward w (w.setStage token request stage) := by
  refine ⟨fun _ hmem => hmem, ?_, fun _ hmem => hmem⟩
  intro other msg hcarries
  obtain ⟨old, hold⟩ := hcarries
  by_cases heq : other = token
  · rw [heq, h] at hold
    obtain rfl := Option.some.inj hold
    refine ⟨stage, ?_⟩
    show put w.requests token (some ⟨msg, stage⟩) other = _
    rw [heq, put_self]
  · refine ⟨old, ?_⟩
    show put w.requests token (some ⟨request.envelope, stage⟩) other = _
    rw [put_of_ne _ _ heq, hold]

theorem onward_request (request : Request)
    (h : w.requests token = none) :
    Onward w { w with requests := put w.requests token (some request) } := by
  refine ⟨fun _ hmem => hmem, ?_, fun _ hmem => hmem⟩
  intro other msg hcarries
  obtain ⟨old, hold⟩ := hcarries
  have hne : other ≠ token := by
    intro heq
    rw [heq, h] at hold
    cases hold
  refine ⟨old, ?_⟩
  show put w.requests token (some request) other = _
  rw [put_of_ne _ _ hne, hold]

theorem settle_fields (w : World) (rec : Outbound) (outcome : Outcome) (written : Bool) :
    (w.settle rec outcome written).composed = w.composed ∧
      (w.settle rec outcome written).outbox = w.outbox ∧
      (w.settle rec outcome written).first = w.first ∧
      (w.settle rec outcome written).passes = w.passes ∧
      (w.settle rec outcome written).requests = w.requests ∧
      (w.settle rec outcome written).receiver = w.receiver ∧
      (w.settle rec outcome written).lock = w.lock := by
  unfold World.settle
  split <;> exact ⟨rfl, rfl, rfl, rfl, rfl, rfl, rfl⟩

theorem onward_settle (w : World) (rec : Outbound) (outcome : Outcome) (written : Bool)
    (passes : Nat → Option Draining) :
    Onward w { w.settle rec outcome written with passes := passes } := by
  obtain ⟨hcomposed, _, _, _, hrequests, hreceiver, _⟩ := settle_fields w rec outcome written
  refine ⟨?_, ?_, ?_⟩
  · intro msg hmem
    show msg ∈ (w.settle rec outcome written).composed
    rw [hcomposed]
    exact hmem
  · intro token msg hcarries
    obtain ⟨stage, hstage⟩ := hcarries
    refine ⟨stage, ?_⟩
    show (w.settle rec outcome written).requests token = _
    rw [hrequests, hstage]
  · intro slot hmem
    show slot ∈ (w.settle rec outcome written).receiver.ledger
    rw [hreceiver]
    exact hmem

theorem mem_settle {outcome : Outcome} {written : Bool} {a : Settled}
    (h : a ∈ (w.settle rec outcome written).acked) :
    a ∈ w.acked ∨ (outcome.settles = true ∧ a = ⟨outboundId rec, outcome⟩) := by
  unfold World.settle at h
  split at h
  · rename_i hsettles
    rcases List.mem_append.mp h with hold | hnew
    · exact Or.inl hold
    · simp only [Bool.and_eq_true] at hsettles
      exact Or.inr ⟨hsettles.1, List.mem_singleton.mp hnew⟩
  · exact Or.inl h

theorem mem_retryCandidates {dateParse : String → Option Int} {rows : List Outbound}
    {acked : List String} {now : Int} (h : rec ∈ retryCandidates dateParse rows acked now) :
    rec ∈ rows := by
  obtain ⟨before, after, hsplit⟩ := List.append_of_mem h
  obtain ⟨pre, post, hrows, _⟩ := retryFrom_split hsplit
  rw [hrows]
  simp

theorem mem_messageIds {ledger : List (Option Envelope)} {id : String} :
    id ∈ messageIds ledger ↔ ∃ prior, some prior ∈ ledger ∧ prior.id = id := by
  simp [messageIds]

/-- The sender's records are about letters it composed, and a request carries the letter it was
made for. -/
structure Known (w : World) : Prop where
  ids : (w.composed.map fun msg => msg.id).Nodup
  first : ∀ token msg, w.first token = some msg → msg ∈ w.composed ∧ carries w token msg
  outbox : ∀ row ∈ w.outbox, row.envelope ∈ w.composed
  remaining : ∀ pass d, w.passes pass = some d → ∀ rec ∈ d.remaining, rec.envelope ∈ w.composed
  waiting : ∀ pass d rec token, w.passes pass = some d → d.waiting = some (rec, token) →
    rec.envelope ∈ w.composed ∧ carries w token rec.envelope
  requests : ∀ token msg, carries w token msg → msg ∈ w.composed

/-- The receiver has each composed letter at most once, as the same request; the holder of the lock
has seen all that is stored of its letter. -/
structure Stored (w : World) : Prop where
  same : ∀ msg ∈ w.composed, ∀ prior, some prior ∈ w.receiver.ledger → prior.id = msg.id →
    sameRequest prior msg = true
  once : ∀ msg ∈ w.composed, (messageIds w.receiver.ledger).count msg.id ≤ 1
  held : ∀ token msg seen, w.requests token = some ⟨msg, .locked seen⟩ →
    w.lock = some token ∧ (∀ slot ∈ seen, slot ∈ w.receiver.ledger) ∧
      ∀ prior, some prior ∈ w.receiver.ledger → prior.id = msg.id → some prior ∈ seen
  exited : ∀ token msg, w.requests token = some ⟨msg, .exited 0⟩ →
    msg.id ∈ messageIds w.receiver.ledger

/-- A letter acked as delivered is stored. -/
def Backed (w : World) : Prop :=
  ∀ a ∈ w.acked, a.outcome.settles = true ∧
    (a.outcome = .delivered → a.id ∈ messageIds w.receiver.ledger)

section
variable {dateParse : String → Option Int} {w v : World}

variable {msg : Envelope} {token pass : Nat} {written : Bool} {e : Event}

theorem step_send (h : step dateParse w (.send msg token) = some v) :
    isFresh w msg.id = true ∧ w.requests token = none ∧
      v = { w with
        composed := w.composed ++ [msg]
        first := put w.first token (some msg)
        requests := put w.requests token (some ⟨msg, .sent⟩) } := by
  simp only [step, Option.ite_none_right_eq_some, Option.some.injEq, Bool.and_eq_true] at h
  exact ⟨h.1.1, by simpa using h.1.2, h.2.symm⟩

variable {answer : RemoteResult} {slot : Option Envelope} {other : Nat} {request : Request}
  {stage : Stage} {receiver : Receiver} {rec : Outbound} {outcome : Outcome}
  {passes : Nat → Option Draining}

theorem step_record {detail : String} (h : step dateParse w (.record token answer detail) = some v)
    :
    ∃ msg row, w.first token = some msg ∧ row.envelope = msg ∧
      v = { w with outbox := w.outbox ++ [row], first := put w.first token none } := by
  simp only [step] at h
  cases hfirst : w.first token with
  | none => simp [hfirst] at h
  | some msg =>
    simp only [hfirst, Option.ite_none_right_eq_some, Option.some.injEq] at h
    exact ⟨msg, _, rfl, rfl, h.2.symm⟩

theorem step_start {now : Int} (h : step dateParse w (.start pass now) = some v) :
    ∃ candidates, (∀ rec ∈ candidates, rec ∈ w.outbox) ∧
      v = { w with passes := put w.passes pass (some ⟨candidates, none⟩) } := by
  simp only [step] at h
  cases hpass : w.passes pass with
  | some d => simp [hpass] at h
  | none =>
    simp only [hpass, Option.ite_none_left_eq_some, Option.some.injEq] at h
    exact ⟨_, fun rec hrec => mem_retryCandidates (List.mem_of_mem_take hrec), h.2.symm⟩

theorem step_take (h : step dateParse w (.take pass token written) = some v) :
    ∃ rec rest, w.passes pass = some ⟨rec :: rest, none⟩ ∧
      (v = { w with passes := put w.passes pass (some ⟨rest, none⟩) } ∨
        v = { w.settle rec .unaddressable written with
          passes := put w.passes pass (some ⟨rest, none⟩) } ∨
        (w.requests token = none ∧
          v = { w with
            passes := put w.passes pass (some ⟨rest, some (rec, token)⟩)
            requests := put w.requests token (some ⟨rec.envelope, .sent⟩) })) := by
  simp only [step] at h
  split at h
  · rename_i rec rest hpass
    refine ⟨rec, rest, hpass, ?_⟩
    split at h
    · exact Or.inl (Option.some.inj h).symm
    · exact Or.inr (Or.inl (Option.some.inj h).symm)
    · simp only [Option.ite_none_right_eq_some, Option.some.injEq] at h
      exact Or.inr (Or.inr ⟨by simpa using h.1, h.2.symm⟩)
  · cases h

theorem step_hear (h : step dateParse w (.hear pass answer written) = some v) :
    ∃ rest rec token, w.passes pass = some ⟨rest, some (rec, token)⟩ ∧
      possible w token answer = true ∧
      v = { w.settle rec (readAnswer answer) written with
        passes := put w.passes pass (some ⟨rest, none⟩) } := by
  simp only [step] at h
  split at h
  · rename_i rest rec token hpass
    simp only [Option.ite_none_right_eq_some, Option.some.injEq] at h
    exact ⟨rest, rec, token, hpass, h.1, h.2.symm⟩
  · cases h

theorem step_arrive {caller : Caller} (h : step dateParse w (.arrive token caller) = some v) :
    ∃ msg stage, w.requests token = some ⟨msg, .sent⟩ ∧ (stage = .waiting ∨ stage = .exited 1) ∧
      v = w.setStage token ⟨msg, .sent⟩ stage := by
  simp only [step] at h
  split at h
  · rename_i msg hrequest
    split at h
    · exact ⟨msg, .waiting, hrequest, Or.inl rfl, (Option.some.inj h).symm⟩
    · exact ⟨msg, .exited 1, hrequest, Or.inr rfl, (Option.some.inj h).symm⟩
  · cases h

theorem step_acquire (h : step dateParse w (.acquire token) = some v) :
    ∃ msg, w.requests token = some ⟨msg, .waiting⟩ ∧ w.lock = none ∧
      v = { w.setStage token ⟨msg, .waiting⟩ (.locked w.receiver.ledger) with lock := some token } := by
  simp only [step] at h
  split at h
  · rename_i msg hrequest hlock
    exact ⟨msg, hrequest, hlock, (Option.some.inj h).symm⟩
  · cases h

theorem step_decide (h : step dateParse w (.decide token) = some v) :
    ∃ msg seen, w.requests token = some ⟨msg, .locked seen⟩ ∧
      v = { w.setStage token ⟨msg, .locked seen⟩ (.exited (admitOnce w.receiver seen msg).code) with
        receiver := { w.receiver with
          ledger := (admitOnce w.receiver seen msg).store w.receiver.ledger }
        lock := none } := by
  simp only [step] at h
  split at h
  · rename_i msg seen hrequest
    exact ⟨msg, seen, hrequest, (Option.some.inj h).symm⟩
  · cases h

theorem step_die (h : step dateParse w (.die token) = some v) :
    ∃ request, w.requests token = some request ∧
      v = { w.setStage token request (.exited 1) with
        lock := if w.lock = some token then none else w.lock } := by
  simp only [step] at h
  split at h
  · cases h
  · rename_i request _ hrequest
    exact ⟨request, hrequest, (Option.some.inj h).symm⟩
  · cases h

theorem step_store (h : step dateParse w (.store slot) = some v) :
    (∀ msg, slot = some msg → isFresh w msg.id = true) ∧
      v = { w with receiver := { w.receiver with ledger := w.receiver.ledger ++ [slot] } } := by
  simp only [step, Option.ite_none_right_eq_some, Option.some.injEq] at h
  refine ⟨?_, h.2.symm⟩
  intro msg hslot
  have hall := h.1
  rw [hslot] at hall
  simpa using hall

theorem step_onward (h : step dateParse w e = some v) : Onward w v := by
  cases e with
  | send msg token =>
    obtain ⟨_, hnone, rfl⟩ := step_send h
    have honward := onward_request ⟨msg, .sent⟩ hnone
    exact ⟨fun _ hmem => List.mem_append_left _ hmem, honward.carries, fun _ hmem => hmem⟩
  | record token answer detail =>
    obtain ⟨_, _, _, _, rfl⟩ := step_record h
    exact ⟨fun _ hmem => hmem, fun _ _ hcarries => hcarries, fun _ hmem => hmem⟩
  | start pass now =>
    obtain ⟨_, _, rfl⟩ := step_start h
    exact ⟨fun _ hmem => hmem, fun _ _ hcarries => hcarries, fun _ hmem => hmem⟩
  | take pass token written =>
    obtain ⟨rec, rest, _, rfl | rfl | ⟨hnone, rfl⟩⟩ := step_take h
    · exact ⟨fun _ hmem => hmem, fun _ _ hcarries => hcarries, fun _ hmem => hmem⟩
    · exact onward_settle _ _ _ _ _
    · have honward := onward_request ⟨rec.envelope, .sent⟩ hnone
      exact ⟨fun _ hmem => hmem, honward.carries, fun _ hmem => hmem⟩
  | hear pass answer written =>
    obtain ⟨_, _, _, _, _, rfl⟩ := step_hear h
    exact onward_settle _ _ _ _ _
  | arrive token caller =>
    obtain ⟨_, stage, hrequest, _, rfl⟩ := step_arrive h
    exact onward_setStage stage hrequest
  | acquire token =>
    obtain ⟨_, hrequest, _, rfl⟩ := step_acquire h
    have honward := onward_setStage (.locked w.receiver.ledger) hrequest
    exact ⟨honward.composed, honward.carries, honward.ledger⟩
  | decide token =>
    obtain ⟨msg, seen, hrequest, rfl⟩ := step_decide h
    have honward := onward_setStage (.exited (admitOnce w.receiver seen msg).code) hrequest
    refine ⟨honward.composed, honward.carries, ?_⟩
    intro slot hslot
    show slot ∈ (admitOnce w.receiver seen msg).store w.receiver.ledger
    cases admitOnce w.receiver seen msg with
    | append row => exact List.mem_append_left _ hslot
    | _ => exact hslot
  | die token =>
    obtain ⟨_, hrequest, rfl⟩ := step_die h
    have honward := onward_setStage (.exited 1) hrequest
    exact ⟨honward.composed, honward.carries, honward.ledger⟩
  | store slot =>
    obtain ⟨_, rfl⟩ := step_store h
    exact ⟨fun _ hmem => hmem, fun _ _ hcarries => hcarries, fun _ hmem => List.mem_append_left _ hmem⟩
  | register sessions appThreads =>
    obtain rfl := Option.some.inj h
    exact ⟨fun _ hmem => hmem, fun _ _ hcarries => hcarries, fun _ hmem => hmem⟩

theorem not_mem_of_isFresh {id : String} (h : isFresh w id = true) :
    (∀ msg ∈ w.composed, msg.id ≠ id) ∧ id ∉ messageIds w.receiver.ledger := by
  simp only [isFresh, Bool.and_eq_true, decide_eq_true_eq, List.mem_map, not_exists, not_and] at h
  exact h

theorem Known.quiet (hw : Known w) (hon : Onward w v) (hcomposed : v.composed = w.composed)
    (hcarries : ∀ token msg, carries v token msg → carries w token msg)
    (hfirst : ∀ token msg, v.first token = some msg → w.first token = some msg)
    (houtbox : ∀ row ∈ v.outbox, row.envelope ∈ w.composed)
    (hpasses : ∀ pass d, v.passes pass = some d → w.passes pass = some d ∨
      (∀ rec ∈ d.remaining, rec.envelope ∈ w.composed) ∧ d.waiting = none) : Known v := by
  refine ⟨by rw [hcomposed]; exact hw.ids, ?_, ?_, ?_, ?_, ?_⟩
  · intro token msg h
    obtain ⟨hmem, hcarry⟩ := hw.first token msg (hfirst token msg h)
    exact ⟨hon.composed _ hmem, hon.carries _ _ hcarry⟩
  · intro row hrow
    exact hon.composed _ (houtbox row hrow)
  · intro pass d hd rec hrec
    rcases hpasses pass d hd with hold | ⟨hnew, _⟩
    · exact hon.composed _ (hw.remaining pass d hold rec hrec)
    · exact hon.composed _ (hnew rec hrec)
  · intro pass d rec token hd hwaiting
    rcases hpasses pass d hd with hold | ⟨_, hnone⟩
    · obtain ⟨hmem, hcarry⟩ := hw.waiting pass d rec token hold hwaiting
      exact ⟨hon.composed _ hmem, hon.carries _ _ hcarry⟩
    · rw [hnone] at hwaiting
      cases hwaiting
  · intro token msg h
    exact hon.composed _ (hw.requests token msg (hcarries token msg h))

theorem carries_setStage (hrequest : w.requests token = some request)
    (h : carries (w.setStage token request stage) other msg) :
    carries w other msg := by
  obtain ⟨found, hfound⟩ := h
  rcases put_some hfound with ⟨heq, hsome⟩ | ⟨_, hold⟩
  · obtain rfl := congrArg Request.envelope (Option.some.inj hsome)
    exact ⟨request.stage, by rw [heq, hrequest]⟩
  · exact ⟨found, hold⟩

theorem Known.setStage {lock : Option Nat} (hw : Known w)
    (hrequest : w.requests token = some request)
    (hon : Onward w { w.setStage token request stage with receiver := receiver, lock := lock }) :
    Known { w.setStage token request stage with receiver := receiver, lock := lock } :=
  hw.quiet hon rfl (fun _ _ hcarries => carries_setStage hrequest hcarries)
    (fun _ _ hfirst => hfirst) hw.outbox fun _ _ hd => Or.inl hd

theorem passes_put {pass : Nat} {rest : List Outbound}
    (hrest : ∀ rec ∈ rest, rec.envelope ∈ w.composed) (other : Nat) (d : Draining)
    (hd : put w.passes pass (some ⟨rest, none⟩) other = some d) :
    w.passes other = some d ∨
      (∀ rec ∈ d.remaining, rec.envelope ∈ w.composed) ∧ d.waiting = none := by
  rcases put_some hd with ⟨_, hsome⟩ | ⟨_, hold⟩
  · obtain rfl := Option.some.inj hsome
    exact Or.inr ⟨hrest, rfl⟩
  · exact Or.inl hold

theorem settle_quiet (hw : Known w)
    (hpasses : ∀ pass d, passes pass = some d → w.passes pass = some d ∨
      (∀ rec ∈ d.remaining, rec.envelope ∈ w.composed) ∧ d.waiting = none) :
    Known { w.settle rec outcome written with passes := passes } := by
  obtain ⟨hcomposed, houtbox, hfirst, _, hrequests, _, _⟩ := settle_fields w rec outcome written
  refine hw.quiet (onward_settle _ _ _ _ _) hcomposed ?_ ?_ ?_ hpasses
  · intro token msg hcarries
    obtain ⟨stage, hstage⟩ := hcarries
    exact ⟨stage, by rw [← hrequests]; exact hstage⟩
  · intro token msg h
    rw [← hfirst]
    exact h
  · intro row hrow
    refine hw.outbox row ?_
    rw [← houtbox]
    exact hrow

theorem known_step (hw : Known w) (h : step dateParse w e = some v) : Known v := by
  have hon := step_onward h
  -- a pass that has just been given `rest` to do
  have hrest : ∀ pass rec rest waiting, w.passes pass = some ⟨rec :: rest, waiting⟩ →
      ∀ r ∈ rest, r.envelope ∈ w.composed := by
    intro pass rec rest waiting hpass r hr
    exact hw.remaining pass _ hpass r (List.mem_cons_of_mem _ hr)
  cases e with
  | send msg token =>
    obtain ⟨hfresh, hnone, rfl⟩ := step_send h
    have hnew := (not_mem_of_isFresh hfresh).1
    have hmem : msg ∈ w.composed ++ [msg] := by simp
    refine ⟨?_, ?_, ?_, ?_, ?_, ?_⟩
    · rw [List.map_append, List.nodup_append]
      refine ⟨hw.ids, by simp, ?_⟩
      intro id hid other hother heq
      obtain ⟨old, hold, rfl⟩ := List.mem_map.mp hid
      simp only [List.map_cons, List.map_nil, List.mem_singleton] at hother
      exact hnew old hold (heq.trans hother)
    · intro other found hfound
      rcases put_some hfound with ⟨rfl, hsome⟩ | ⟨_, hold⟩
      · obtain rfl := Option.some.inj hsome
        exact ⟨hmem, .sent, put_self _ _ _⟩
      · obtain ⟨holdmem, hcarry⟩ := hw.first other found hold
        exact ⟨hon.composed _ holdmem, hon.carries _ _ hcarry⟩
    · exact fun row hrow => hon.composed _ (hw.outbox row hrow)
    · exact fun pass d hd rec hrec => hon.composed _ (hw.remaining pass d hd rec hrec)
    · intro pass d rec other hd hwaiting
      obtain ⟨holdmem, hcarry⟩ := hw.waiting pass d rec other hd hwaiting
      exact ⟨hon.composed _ holdmem, hon.carries _ _ hcarry⟩
    · intro other found hcarries
      obtain ⟨stage, hstage⟩ := hcarries
      rcases put_some hstage with ⟨_, hsome⟩ | ⟨_, hold⟩
      · obtain rfl := congrArg Request.envelope (Option.some.inj hsome)
        exact hmem
      · exact hon.composed _ (hw.requests other found ⟨stage, hold⟩)
  | record token answer detail =>
    obtain ⟨msg, row, hfirst, hrow, rfl⟩ := step_record h
    refine hw.quiet hon rfl (fun _ _ hcarries => hcarries) ?_ ?_ fun _ _ hd => Or.inl hd
    · intro other found hfound
      rcases put_some hfound with ⟨_, hsome⟩ | ⟨_, hold⟩
      · cases hsome
      · exact hold
    · intro r hr
      rcases List.mem_append.mp hr with hold | hnew
      · exact hw.outbox r hold
      · rw [List.mem_singleton.mp hnew, hrow]
        exact (hw.first token msg hfirst).1
  | start pass now =>
    obtain ⟨candidates, hcandidates, rfl⟩ := step_start h
    exact hw.quiet hon rfl (fun _ _ hcarries => hcarries) (fun _ _ hfirst => hfirst) hw.outbox
      (passes_put fun rec hrec => hw.outbox rec (hcandidates rec hrec))
  | take pass token written =>
    obtain ⟨rec, rest, hpass, hv⟩ := step_take h
    have hpasses := @passes_put w pass rest (hrest pass rec rest none hpass)
    rcases hv with rfl | rfl | ⟨hnone, rfl⟩
    · exact hw.quiet hon rfl (fun _ _ hcarries => hcarries) (fun _ _ hfirst => hfirst) hw.outbox hpasses
    · exact settle_quiet hw hpasses
    · have hrec : rec.envelope ∈ w.composed := hw.remaining pass _ hpass rec List.mem_cons_self
      refine ⟨hw.ids, ?_, hw.outbox, ?_, ?_, ?_⟩
      · intro other found hfound
        obtain ⟨hmem, hcarry⟩ := hw.first other found hfound
        exact ⟨hmem, hon.carries _ _ hcarry⟩
      · intro other d hd r hr
        rcases put_some hd with ⟨_, hsome⟩ | ⟨_, hold⟩
        · obtain rfl := Option.some.inj hsome
          exact hrest pass rec rest none hpass r hr
        · exact hw.remaining other d hold r hr
      · intro other d r t hd hwaiting
        rcases put_some hd with ⟨_, hsome⟩ | ⟨_, hold⟩
        · obtain rfl := Option.some.inj hsome
          obtain ⟨rfl, rfl⟩ := Prod.mk.inj (Option.some.inj hwaiting)
          exact ⟨hrec, .sent, put_self _ _ _⟩
        · obtain ⟨hmem, hcarry⟩ := hw.waiting other d r t hold hwaiting
          exact ⟨hmem, hon.carries _ _ hcarry⟩
      · intro other found hcarries
        obtain ⟨stage, hstage⟩ := hcarries
        rcases put_some hstage with ⟨_, hsome⟩ | ⟨_, hold⟩
        · obtain rfl := congrArg Request.envelope (Option.some.inj hsome)
          exact hrec
        · exact hw.requests other found ⟨stage, hold⟩
  | hear pass answer written =>
    obtain ⟨rest, rec, token, hpass, _, rfl⟩ := step_hear h
    exact settle_quiet hw (passes_put fun r hr => hw.remaining pass _ hpass r hr)
  | arrive token caller =>
    obtain ⟨msg, stage, hrequest, _, rfl⟩ := step_arrive h
    exact hw.setStage hrequest hon
  | acquire token =>
    obtain ⟨msg, hrequest, _, rfl⟩ := step_acquire h
    exact hw.setStage hrequest hon
  | decide token =>
    obtain ⟨msg, seen, hrequest, rfl⟩ := step_decide h
    exact hw.setStage hrequest hon
  | die token =>
    obtain ⟨request, hrequest, rfl⟩ := step_die h
    exact hw.setStage hrequest hon
  | store slot =>
    obtain ⟨_, rfl⟩ := step_store h
    exact hw.quiet hon rfl (fun _ _ hcarries => hcarries) (fun _ _ hfirst => hfirst) hw.outbox
      fun _ _ hd => Or.inl hd
  | register sessions appThreads =>
    obtain rfl := Option.some.inj h
    exact hw.quiet hon rfl (fun _ _ hcarries => hcarries) (fun _ _ hfirst => hfirst) hw.outbox
      fun _ _ hd => Or.inl hd

theorem Stored.quiet (hw : Stored w) (hcomposed : v.composed = w.composed)
    (hledger : v.receiver.ledger = w.receiver.ledger) (hlock : w.lock = v.lock)
    (hlocked : ∀ token msg seen, v.requests token = some ⟨msg, .locked seen⟩ →
      w.requests token = some ⟨msg, .locked seen⟩)
    (hexited : ∀ token msg, v.requests token = some ⟨msg, .exited 0⟩ →
      w.requests token = some ⟨msg, .exited 0⟩) : Stored v := by
  refine ⟨?_, ?_, ?_, ?_⟩
  · rw [hcomposed, hledger]
    exact hw.same
  · rw [hcomposed, hledger]
    exact hw.once
  · intro token msg seen hrequest
    rw [← hlock, hledger]
    exact hw.held token msg seen (hlocked token msg seen hrequest)
  · intro token msg hrequest
    rw [hledger]
    exact hw.exited token msg (hexited token msg hrequest)

theorem put_stage {fresh found : Request}
    (hfound : put w.requests token (some fresh) other = some found)
    (hne : fresh.stage ≠ found.stage) : w.requests other = some found := by
  rcases put_some hfound with ⟨_, hsome⟩ | ⟨_, hold⟩
  · obtain rfl := Option.some.inj hsome
    exact absurd rfl hne
  · exact hold

theorem stored_send (hw : Stored w)
    (hfresh : isFresh w msg.id = true) :
    Stored { w with
      composed := w.composed ++ [msg]
      first := put w.first token (some msg)
      requests := put w.requests token (some ⟨msg, .sent⟩) } := by
  have habsent := (not_mem_of_isFresh hfresh).2
  refine ⟨?_, ?_, ?_, ?_⟩
  · intro found hfound prior hprior hid
    rcases List.mem_append.mp hfound with hold | hnew
    · exact hw.same found hold prior hprior hid
    · rw [List.mem_singleton.mp hnew] at hid
      exact absurd ((mem_messageIds).mpr ⟨prior, hprior, hid⟩) habsent
  · intro found hfound
    rcases List.mem_append.mp hfound with hold | hnew
    · exact hw.once found hold
    · rw [List.mem_singleton.mp hnew, List.count_eq_zero_of_not_mem habsent]
      exact Nat.zero_le 1
  · intro other found seen hrequest
    exact hw.held other found seen (put_stage hrequest (fun h => nomatch h))
  · intro other found hrequest
    exact hw.exited other found (put_stage hrequest (fun h => nomatch h))

/-- The holder of the lock stores its letter when it has not seen it, and nobody else could. -/
theorem stored_decide {seen : List (Option Envelope)} (hknown : Known w)
    (hw : Stored w) (hrequest : w.requests token = some ⟨msg, .locked seen⟩) :
    Stored { w.setStage token ⟨msg, .locked seen⟩ (.exited (admitOnce w.receiver seen msg).code) with
      receiver := { w.receiver with ledger := (admitOnce w.receiver seen msg).store w.receiver.ledger }
      lock := none } := by
  obtain ⟨hlock, hseen, hall⟩ := hw.held token msg seen hrequest
  have hmsg := hknown.requests token msg ⟨_, hrequest⟩
  have hlocked : ∀ other found snap,
      put w.requests token (some ⟨msg, .exited (admitOnce w.receiver seen msg).code⟩) other =
        some ⟨found, .locked snap⟩ → False := by
    intro other found snap hput
    rcases put_some hput with ⟨_, hsome⟩ | ⟨hne, hold⟩
    · cases hsome
    · have hother := (hw.held other found snap hold).1
      rw [hlock] at hother
      exact hne (Option.some.inj hother).symm
  by_cases hstored : ∃ prior, some prior ∈ seen ∧ prior.id = msg.id
  · -- a retry: nothing is written
    have hduplicate : admitOnce w.receiver seen msg = .duplicate :=
      admitOnce_stored hstored fun prior hprior hid => hw.same msg hmsg prior (hseen _ hprior) hid
    rw [hduplicate] at hlocked ⊢
    refine ⟨hw.same, hw.once, fun other found snap hput => (hlocked other found snap hput).elim, ?_⟩
    intro other found hput
    rcases put_some hput with ⟨_, hsome⟩ | ⟨_, hold⟩
    · obtain rfl := congrArg Request.envelope (Option.some.inj hsome)
      obtain ⟨prior, hprior, hid⟩ := hstored
      exact (mem_messageIds).mpr ⟨prior, hseen _ hprior, hid⟩
    · exact hw.exited other found hold
  · have hnew : ∀ prior, some prior ∈ seen → prior.id ≠ msg.id :=
      fun prior hprior hid => hstored ⟨prior, hprior, hid⟩
    have habsent : msg.id ∉ messageIds w.receiver.ledger := by
      intro hin
      obtain ⟨prior, hprior, hid⟩ := (mem_messageIds).mp hin
      exact hnew prior (hall prior hprior hid) hid
    rcases admitOnce_new (r := w.receiver) hnew with hunavailable | ⟨row, happend, hid, hsame⟩
    · rw [hunavailable] at hlocked ⊢
      refine ⟨hw.same, hw.once, fun other found snap hput => (hlocked other found snap hput).elim, ?_⟩
      intro other found hput
      exact hw.exited other found (put_stage hput (by simp [Verdict.code]))
    · rw [happend] at hlocked ⊢
      have hids : messageIds (w.receiver.ledger ++ [some row]) =
          messageIds w.receiver.ledger ++ [msg.id] := by
        simp [messageIds, hid]
      refine ⟨?_, ?_, fun other found snap hput => (hlocked other found snap hput).elim, ?_⟩
      · intro found hfound prior hprior hprior_id
        rcases List.mem_append.mp hprior with hold | hlast
        · exact hw.same found hfound prior hold hprior_id
        · obtain rfl := Option.some.inj (List.mem_singleton.mp hlast)
          have heq : found = msg :=
            List.inj_on_of_nodup_map hknown.ids hfound hmsg (hprior_id.symm.trans hid)
          rw [heq]
          exact hsame
      · intro found hfound
        show (messageIds (w.receiver.ledger ++ [some row])).count found.id ≤ 1
        have hold := hw.once found hfound
        rw [hids, List.count_append]
        by_cases heq : found.id = msg.id
        · rw [heq, List.count_eq_zero_of_not_mem habsent]
          simp
        · have hzero : [msg.id].count found.id = 0 :=
            List.count_eq_zero_of_not_mem (by simpa using heq)
          omega
      · intro other found hput
        show found.id ∈ messageIds (w.receiver.ledger ++ [some row])
        rw [hids]
        rcases put_some hput with ⟨_, hsome⟩ | ⟨_, hold⟩
        · obtain rfl := congrArg Request.envelope (Option.some.inj hsome)
          simp
        · exact List.mem_append_left _ (hw.exited other found hold)

theorem stored_store (hknown : Known w) (hw : Stored w)
    (hfresh : ∀ msg, slot = some msg → isFresh w msg.id = true) :
    Stored { w with receiver := { w.receiver with ledger := w.receiver.ledger ++ [slot] } } := by
  -- the new slot holds no letter of this sender
  have hother : ∀ msg ∈ w.composed, ∀ prior, some prior ∈ w.receiver.ledger ++ [slot] →
      prior.id = msg.id → some prior ∈ w.receiver.ledger := by
    intro msg hmsg prior hprior hid
    rcases List.mem_append.mp hprior with hold | hnew
    · exact hold
    · have hslot := hfresh prior (List.mem_singleton.mp hnew).symm
      exact absurd hid.symm ((not_mem_of_isFresh hslot).1 msg hmsg)
  refine ⟨?_, ?_, ?_, ?_⟩
  · intro msg hmsg prior hprior hid
    exact hw.same msg hmsg prior (hother msg hmsg prior hprior hid) hid
  · intro msg hmsg
    have hold := hw.once msg hmsg
    have hzero : (messageIds [slot]).count msg.id = 0 := by
      refine List.count_eq_zero_of_not_mem ?_
      intro hin
      obtain ⟨prior, hprior, hid⟩ := (mem_messageIds).mp hin
      have hslot := hfresh prior (List.mem_singleton.mp hprior).symm
      exact (not_mem_of_isFresh hslot).1 msg hmsg hid.symm
    show (messageIds (w.receiver.ledger ++ [slot])).count msg.id ≤ 1
    rw [messageIds, List.filterMap_append, List.count_append]
    simp only [messageIds] at hold hzero
    omega
  · intro token msg seen hrequest
    obtain ⟨hlock, hseen, hall⟩ := hw.held token msg seen hrequest
    refine ⟨hlock, fun found hfound => List.mem_append_left _ (hseen found hfound), ?_⟩
    intro prior hprior hid
    have hmsg := hknown.requests token msg ⟨_, hrequest⟩
    exact hall prior (hother msg hmsg prior hprior hid) hid
  · intro token msg hrequest
    obtain ⟨prior, hprior, hid⟩ := (mem_messageIds).mp (hw.exited token msg hrequest)
    exact (mem_messageIds).mpr ⟨prior, List.mem_append_left _ hprior, hid⟩

theorem stored_settle (hw : Stored w) :
    Stored { w.settle rec outcome written with passes := passes } := by
  obtain ⟨hcomposed, _, _, _, hrequests, hreceiver, hlock⟩ := settle_fields w rec outcome written
  refine hw.quiet hcomposed (congrArg Receiver.ledger hreceiver) hlock.symm ?_ ?_
  · intro token msg seen h
    rw [← hrequests]
    exact h
  · intro token msg h
    rw [← hrequests]
    exact h

theorem stored_step (hknown : Known w) (hw : Stored w)
    (h : step dateParse w e = some v) : Stored v := by
  cases e with
  | send msg token =>
    obtain ⟨hfresh, _, rfl⟩ := step_send h
    exact stored_send hw hfresh
  | record token answer detail =>
    obtain ⟨_, _, _, _, rfl⟩ := step_record h
    exact hw.quiet rfl rfl rfl (fun _ _ _ hold => hold) fun _ _ hold => hold
  | start pass now =>
    obtain ⟨_, _, rfl⟩ := step_start h
    exact hw.quiet rfl rfl rfl (fun _ _ _ hold => hold) fun _ _ hold => hold
  | take pass token written =>
    obtain ⟨rec, rest, _, rfl | rfl | ⟨_, rfl⟩⟩ := step_take h
    · exact hw.quiet rfl rfl rfl (fun _ _ _ hold => hold) fun _ _ hold => hold
    · exact stored_settle hw
    · exact hw.quiet rfl rfl rfl (fun _ _ _ hput => put_stage hput (fun h => nomatch h))
        fun _ _ hput => put_stage hput (fun h => nomatch h)
  | hear pass answer written =>
    obtain ⟨_, _, _, _, _, rfl⟩ := step_hear h
    exact stored_settle hw
  | arrive token caller =>
    obtain ⟨msg, stage, _, hstage, rfl⟩ := step_arrive h
    refine hw.quiet rfl rfl rfl (fun _ _ _ hput => put_stage hput ?_)
      fun _ _ hput => put_stage hput ?_
    · rcases hstage with rfl | rfl <;> simp
    · rcases hstage with rfl | rfl <;> simp
  | acquire token =>
    obtain ⟨msg, _, hfree, rfl⟩ := step_acquire h
    refine ⟨hw.same, hw.once, ?_, ?_⟩
    · intro other found seen hput
      rcases put_some hput with ⟨rfl, hsome⟩ | ⟨_, hold⟩
      · obtain ⟨rfl, hstage⟩ := Request.mk.inj (Option.some.inj hsome)
        obtain rfl := Stage.locked.inj hstage
        exact ⟨rfl, fun _ hslot => hslot, fun _ hprior _ => hprior⟩
      · have hheld := (hw.held other found seen hold).1
        rw [hfree] at hheld
        cases hheld
    · intro other found hput
      exact hw.exited other found (put_stage hput (fun h => nomatch h))
  | decide token =>
    obtain ⟨msg, seen, hrequest, rfl⟩ := step_decide h
    exact stored_decide hknown hw hrequest
  | die token =>
    obtain ⟨request, hrequest, rfl⟩ := step_die h
    refine ⟨hw.same, hw.once, ?_, ?_⟩
    · intro other found seen hput
      rcases put_some hput with ⟨_, hsome⟩ | ⟨hne, hold⟩
      · cases hsome
      · obtain ⟨hlock, hrest⟩ := hw.held other found seen hold
        refine ⟨?_, hrest⟩
        show (if w.lock = some token then none else w.lock) = some other
        rw [hlock, if_neg (fun heq => hne (Option.some.inj heq))]
    · intro other found hput
      exact hw.exited other found (put_stage hput (by simp))
  | store slot =>
    obtain ⟨hfresh, rfl⟩ := step_store h
    exact stored_store hknown hw hfresh
  | register sessions appThreads =>
    obtain rfl := Option.some.inj h
    exact hw.quiet rfl rfl rfl (fun _ _ _ hold => hold) fun _ _ hold => hold

theorem backed_step (hknown : Known w) (hstored : Stored w) (hw : Backed w)
    (h : step dateParse w e = some v) : Backed v := by
  have hledger : ∀ id, id ∈ messageIds w.receiver.ledger → id ∈ messageIds v.receiver.ledger := by
    intro id hid
    obtain ⟨prior, hprior, hsame⟩ := (mem_messageIds).mp hid
    exact (mem_messageIds).mpr ⟨prior, (step_onward h).ledger _ hprior, hsame⟩
  have hkeep : v.acked = w.acked → Backed v := by
    intro hacked a ha
    rw [hacked] at ha
    exact ⟨(hw a ha).1, fun hdelivered => hledger _ ((hw a ha).2 hdelivered)⟩
  cases e with
  | take pass token written =>
    obtain ⟨rec, rest, _, rfl | rfl | ⟨_, rfl⟩⟩ := step_take h
    · exact hkeep rfl
    · intro a ha
      rcases mem_settle ha with hold | ⟨hsettles, rfl⟩
      · exact ⟨(hw a hold).1, fun hdelivered => hledger _ ((hw a hold).2 hdelivered)⟩
      · exact ⟨hsettles, fun hdelivered => nomatch hdelivered⟩
    · exact hkeep rfl
  | hear pass answer written =>
    obtain ⟨rest, rec, token, hpass, hpossible, rfl⟩ := step_hear h
    intro a ha
    rcases mem_settle ha with hold | ⟨hsettles, rfl⟩
    · exact ⟨(hw a hold).1, fun hdelivered => hledger _ ((hw a hold).2 hdelivered)⟩
    · refine ⟨hsettles, fun hdelivered => hledger _ ?_⟩
      obtain ⟨htransport, hcode⟩ := readAnswer_delivered hdelivered
      obtain ⟨_, stage, hstage⟩ := hknown.waiting pass _ rec token hpass rfl
      -- success is the success of the process of this very request
      have hexit : stage = .exited 0 := by
        simpa [possible, htransport, hcode, hstage] using hpossible
      rw [hexit] at hstage
      exact hstored.exited token rec.envelope hstage
  | send msg token =>
    obtain ⟨_, _, rfl⟩ := step_send h
    exact hkeep rfl
  | record token answer detail =>
    obtain ⟨_, _, _, _, rfl⟩ := step_record h
    exact hkeep rfl
  | start pass now =>
    obtain ⟨_, _, rfl⟩ := step_start h
    exact hkeep rfl
  | arrive token caller =>
    obtain ⟨_, _, _, _, rfl⟩ := step_arrive h
    exact hkeep rfl
  | acquire token =>
    obtain ⟨_, _, _, rfl⟩ := step_acquire h
    exact hkeep rfl
  | decide token =>
    obtain ⟨_, _, _, rfl⟩ := step_decide h
    exact hkeep rfl
  | die token =>
    obtain ⟨_, _, rfl⟩ := step_die h
    exact hkeep rfl
  | store slot =>
    obtain ⟨_, rfl⟩ := step_store h
    exact hkeep rfl
  | register sessions appThreads =>
    obtain rfl := Option.some.inj h
    exact hkeep rfl

theorem known_start (config : MachineConfig) (receiver : Receiver) :
    Known (World.start config receiver) := by
  refine ⟨List.nodup_nil, fun _ _ h => (nomatch h), fun _ h => (nomatch h), fun _ _ h => (nomatch h),
    fun _ _ _ _ h => (nomatch h), ?_⟩
  intro token msg h
  obtain ⟨_, hstage⟩ := h
  cases hstage

theorem stored_start (config : MachineConfig) (receiver : Receiver) :
    Stored (World.start config receiver) :=
  ⟨fun _ h => (nomatch h), fun _ h => (nomatch h), fun _ _ _ h => (nomatch h),
    fun _ _ h => (nomatch h)⟩

theorem run_kept {config : MachineConfig} {events : List Event}
    (hrun : run (step dateParse) (World.start config receiver) events = some w) :
    Known w ∧ Stored w ∧ Backed w := by
  have keeps : ∀ u e v, Known u ∧ Stored u ∧ Backed u → step dateParse u e = some v →
      Known v ∧ Stored v ∧ Backed v := by
    intro u e v h hstep
    exact ⟨known_step h.1 hstep, stored_step h.1 h.2.1 hstep, backed_step h.1 h.2.1 h.2.2 hstep⟩
  exact run_invariant keeps hrun ⟨known_start config receiver, stored_start config receiver,
    fun _ h => nomatch h⟩

/-- The receiver stores a composed letter at most once; an ack row says that the letter is stored,
or refused for good, or not addressable from here; and a stored letter that comes again is a
duplicate for the holder of the lock, with success for its answer. -/
theorem letters_are_stored_once {config : MachineConfig} {receiver : Receiver} {events : List Event}
    (hrun : run (step dateParse) (World.start config receiver) events = some w) :
    (∀ msg ∈ w.composed, (messageIds w.receiver.ledger).count msg.id ≤ 1) ∧
      (∀ a ∈ w.acked, a.id ∈ messageIds w.receiver.ledger ∨ a.outcome = .refused ∨
        a.outcome = .unaddressable) ∧
      (∀ token msg seen, w.requests token = some ⟨msg, .locked seen⟩ →
        msg.id ∈ messageIds w.receiver.ledger → admitOnce w.receiver seen msg = .duplicate) ∧
      ∀ row ∈ w.outbox, outboundId row ∈ messageIds w.receiver.ledger → ∀ caller passed,
        receiveGate w.receiver caller (some row.envelope) = .ok passed →
          cmdReceiveChat w.receiver caller (some row.envelope) = (0, w.receiver.ledger) := by
  obtain ⟨hknown, hstored, hbacked⟩ := run_kept hrun
  refine ⟨hstored.once, ?_, ?_, ?_⟩
  · intro a ha
    obtain ⟨hsettles, hdelivered⟩ := hbacked a ha
    cases houtcome : a.outcome with
    | delivered => exact Or.inl (hdelivered houtcome)
    | refused => exact Or.inr (Or.inl rfl)
    | unaddressable => exact Or.inr (Or.inr rfl)
    | skipped => simp [houtcome, Outcome.settles] at hsettles
    | queued => simp [houtcome, Outcome.settles] at hsettles
  · intro token msg seen hrequest hin
    obtain ⟨_, hseen, hall⟩ := hstored.held token msg seen hrequest
    have hmsg := hknown.requests token msg ⟨_, hrequest⟩
    obtain ⟨prior, hprior, hid⟩ := (mem_messageIds).mp hin
    exact admitOnce_stored ⟨prior, hall prior hprior hid, hid⟩
      fun other hother hsame => hstored.same msg hmsg other (hseen _ hother) hsame
  · intro row hrow hin caller passed hgate
    have hpassed : passed = row.envelope := receiveGate_passed hgate
    have hduplicate : admitOnce w.receiver w.receiver.ledger row.envelope = .duplicate :=
      admitOnce_stored ((mem_messageIds).mp hin) fun prior hprior hid =>
        hstored.same row.envelope (hknown.outbox row hrow) prior hprior hid
    rw [cmdReceiveChat, hgate]
    simp only [hpassed, hduplicate]
    rfl

end

/-- A letter from a session of one machine to a session of another. -/
def report : Envelope :=
  { id := "m1"
    ts := "2026-01-01T00:00:00.000Z"
    sender := .managed ⟨"here", .codex, "worker", "71aa"⟩
    target := .managed ⟨"dev", .claude, "api", "5e1f"⟩
    body := "done"
    defer := true
    communicationAuthorization := some
      { basis := some .userInstruction
        whyThisCommunicationIsNecessaryAndWithinTheUserAuthorizedScope :=
          some "the user asked for a report to this peer"
        userAuthorizationQuote := some "tell api when it is done"
        sourceMessageRef := "here:worker · user message" } }

def devSession : Registration :=
  { name := "api"
    uuid := "5e1f"
    agent := .claude
    native := false
    chatEnabled := true
    managedInput := true
    selection := none }

def dev : Receiver := ⟨"dev", [devSession], fun _ => none, []⟩

def here : MachineConfig := ⟨"here", [("dev", "dev")], []⟩

def overSsh : Caller := ⟨false, true⟩

/-- The letter is stored and the answer is lost. -/
def lostAnswer : List Event :=
  [.send report 0, .arrive 0 overSsh, .acquire 0, .decide 0, .record 0 ⟨true, 255, false⟩ "lost"]

def retried : List Event :=
  [.start 0 0, .take 0 1 true, .arrive 1 overSsh, .acquire 1, .decide 1, .hear 0 ⟨false, 0, false⟩ true]

theorem letters_are_stored_once_lost :
    ∃ w, run (step fun _ => some 0) (World.start here dev) (lostAnswer ++ retried) = some w ∧
      w.acked = [⟨"m1", .delivered⟩] ∧ (messageIds w.receiver.ledger).count report.id ≤ 1 := by
  have hrun : run (step fun _ => some 0) (World.start here dev) (lostAnswer ++ retried) = some _ :=
    rfl
  exact ⟨_, hrun, rfl, (letters_are_stored_once hrun).1 report (by decide)⟩

/-- The session is removed before the retry, which is refused although the letter is stored. -/
theorem retry_after_removal_is_refused :
    ¬ ∀ events w, run (step fun _ => some 0) (World.start here dev) events = some w →
      ∀ row ∈ w.outbox, outboundId row ∈ messageIds w.receiver.ledger →
        (cmdReceiveChat w.receiver overSsh (some row.envelope)).1 = 0 := by
  intro h
  have hcode := h (lostAnswer ++ [.register [] fun _ => none]) _ rfl ⟨report, ⟨false, "lost"⟩⟩
    (by decide) (by decide)
  exact absurd hcode (by decide)

end Ccmux.Fleet.Retry
