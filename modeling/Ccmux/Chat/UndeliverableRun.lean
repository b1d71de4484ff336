/- Module: Ccmux/Chat/UndeliverableRun
   source: src/chat/undeliverable.ts (settleUndeliverable)
   digest: When a skipped pass skips nothing, and whose mail no pass touches. -/

import Ccmux.Chat.Undeliverable
import Ccmux.Lib.Keys

namespace Ccmux.Chat.Undeliverable

open Ccmux.Chat.Cursors
open Ccmux.Chat.Identity (chatTargetKey)
open Ccmux.Chat.Message
open Ccmux.Chat.Settlement (LetterState Pending isConditional letterState letterState_pending)
open Ccmux.Lib.Keys (eq_of_key)
open Ccmux.Lib.Machine

variable {msg : ChatMessage} {live : Finset String} {ledger : Ledger} {acks : AckLog}
  {cursors : ChatCursors} {idx : Nat} {row : AckRow} {w v : World} {stamp : Option Stamp}
  {s : Settling} {e : Event}

theorem not_owner_of_managed (h : isManaged msg = true) :
    msg.target ≠ .owner := by
  intro howner
  simp [isManaged, howner] at h

/-- A pending letter to a managed recipient that is absent from the registry. -/
structure Waiting (w : World) (idx : Nat) (msg : ChatMessage) : Prop where
  letter : w.ledger.letter idx = some msg
  managed : isManaged msg = true
  absent : chatTargetKey msg.target ∉ w.live
  pending : Pending w.acks w.cursors.delivered idx msg

def Clean (w : World) : Prop := ∀ idx msg, ¬ Waiting w idx msg

theorem mem_settledLetters :
    (idx, msg) ∈ settledLetters live ledger acks cursors ↔
      ledger.letter idx = some msg ∧ isManaged msg = true ∧ chatTargetKey msg.target ∉ live ∧
        Pending acks cursors.delivered idx msg := by
  have hsettles : settles live acks cursors idx msg = true ↔ isManaged msg = true ∧
      chatTargetKey msg.target ∉ live ∧ Pending acks cursors.delivered idx msg := by
    simp only [settles, Bool.and_eq_true, decide_eq_true_eq, and_assoc]
    refine and_congr_right fun hmanaged => and_congr_right fun _ => ?_
    exact letterState_pending (not_owner_of_managed hmanaged) idx acks _ _
  rw [← hsettles, Ledger.letter_eq_some]
  simp only [settledLetters, List.mem_filterMap, Prod.exists, Option.map_eq_some_iff,
    Option.filter_eq_some_iff, Prod.mk.injEq]
  constructor
  · rintro ⟨slot, index, hmem, found, ⟨hslot, htest⟩, hindex, hfound⟩
    obtain rfl := hindex
    obtain rfl := hfound
    rw [List.mem_zipIdx_iff_getElem?] at hmem
    exact ⟨by rw [← hslot]; exact hmem, htest⟩
  · intro h
    exact ⟨some msg, idx, List.mem_zipIdx_iff_getElem?.mpr h.1, msg, ⟨rfl, h.2⟩, rfl, rfl⟩

section advances

@[grind =]
def advanceOne (record : String → Option Nat) (p : Nat × ChatMessage) : String → Option Nat :=
  if isConditional p.2 then record
  else
    let key := chatTargetKey p.2.target
    assign record key (some (max (position record key) (p.1 + 1)))

theorem advanced_eq (settled : List (Nat × ChatMessage)) :
    advanced settled = settled.foldl advanceOne fun _ => none := rfl

theorem behind_advanceOne (record : String → Option Nat) (p : Nat × ChatMessage) :
    Behind record (advanceOne record p) := by
  intro key
  unfold advanceOne
  split
  · exact le_rfl
  · by_cases hkey : key = chatTargetKey p.2.target
    · rw [hkey, position_assign_self]
      exact le_max_left _ _
    · rw [position, position, assign_of_ne _ _ hkey]

theorem behind_foldl (settled : List (Nat × ChatMessage)) (record : String → Option Nat) :
    Behind record (settled.foldl advanceOne record) := by
  induction settled generalizing record with
  | nil => exact Behind.refl record
  | cons p rest ih => exact (behind_advanceOne record p).trans (ih _)

variable {settled : List (Nat × ChatMessage)}

theorem advanced_past {idx : Nat} {msg : ChatMessage} (h : (idx, msg) ∈ settled)
    (hcond : isConditional msg = false) (record : String → Option Nat) :
    idx < position (settled.foldl advanceOne record) (chatTargetKey msg.target) := by
  induction settled generalizing record with
  | nil => cases h
  | cons p rest ih =>
    rw [List.foldl_cons]
    rcases List.mem_cons.mp h with hfirst | hmore
    · have hone : idx + 1 ≤ position (advanceOne record p) (chatTargetKey msg.target) := by
        rw [← hfirst]
        simp only [advanceOne, hcond, Bool.false_eq_true, if_false, position_assign_self]
        exact le_max_right _ _
      have hlater := behind_foldl rest (advanceOne record p) (chatTargetKey msg.target)
      omega
    · exact ih hmore _

theorem advanced_other {key : String} (h : ∀ p ∈ settled, chatTargetKey p.2.target ≠ key)
    (record : String → Option Nat) :
    (settled.foldl advanceOne record) key = record key := by
  induction settled generalizing record with
  | nil => rfl
  | cons p rest ih =>
    rw [List.foldl_cons, ih (fun q hq => h q (List.mem_cons_of_mem _ hq))]
    unfold advanceOne
    split
    · rfl
    · have hne : key ≠ chatTargetKey p.2.target := fun heq => h p List.mem_cons_self heq.symm
      exact assign_of_ne _ _ hne

end advances

theorem settle_covers (h : (idx, msg) ∈ settledLetters live ledger acks cursors) :
    (isConditional msg = true ∧ ∃ row ∈ (settle live ledger acks cursors).rows, row.id = msg.id) ∨
      (isConditional msg = false ∧ (settle live ledger acks cursors).moved = true ∧
        idx < position (settle live ledger acks cursors).cursors.delivered
          (chatTargetKey msg.target)) := by
  by_cases hcond : isConditional msg = true
  · refine Or.inl ⟨hcond, ⟨msg.id, .undeliverable⟩, ?_, rfl⟩
    simp only [settle, ackRows, List.mem_map, List.mem_filter]
    exact ⟨(idx, msg), ⟨h, hcond⟩, rfl⟩
  · have himm : isConditional msg = false := by simpa using hcond
    refine Or.inr ⟨himm, ?_, ?_⟩
    · simp only [settle, List.any_eq_true]
      exact ⟨(idx, msg), h, by simp [himm]⟩
    · simp only [settle, position_furthest]
      have hpast := advanced_past h himm fun _ => none
      rw [← advanced_eq] at hpast
      omega

theorem settle_rows (h : row ∈ (settle live ledger acks cursors).rows) :
    ∃ idx msg, ledger.letter idx = some msg ∧ isManaged msg = true ∧
      chatTargetKey msg.target ∉ live ∧ msg.id = row.id := by
  simp only [settle, ackRows, List.mem_map, List.mem_filter] at h
  obtain ⟨⟨idx, msg⟩, ⟨hmem, _⟩, hrow⟩ := h
  obtain ⟨hletter, hmanaged, habsent, _⟩ := mem_settledLetters.mp hmem
  exact ⟨idx, msg, hletter, hmanaged, habsent, by rw [← hrow]⟩

theorem settle_cursors {key : String} (h : key ∈ live) :
    position (settle live ledger acks cursors).cursors.delivered key =
      position cursors.delivered key := by
  have hnone : advanced (settledLetters live ledger acks cursors) key = none := by
    rw [advanced_eq]
    apply advanced_other
    intro p hp heq
    have habsent := (mem_settledLetters.mp hp).2.2.1
    rw [heq] at habsent
    exact habsent h
  simp only [settle, position_furthest]
  simp [position, hnone]

/-- Between the registry read and the stamp of the registry. -/
def working : Phase → Bool
  | .idle | .looking => false
  | _ => true

/-- While a pass is at work no registered recipient with waiting mail is dropped from the registry,
and no letter is written to a recipient the pass will not judge any more; and a registry write moves
the stamp that was recorded last. -/
def Allowed (w : World) : Event → Prop
  | .register live stamp =>
    (∀ seen, w.lastPass = some seen → stamp ≠ seen.2) ∧
      (working w.pass = true → ∀ idx msg, w.ledger.letter idx = some msg → isManaged msg = true →
        Pending w.acks w.cursors.delivered idx msg → chatTargetKey msg.target ∈ w.live →
          chatTargetKey msg.target ∈ live)
  | .append slots _ _ =>
    ∀ msg, some msg ∈ slots → isManaged msg = true → chatTargetKey msg.target ∉ w.live →
      match w.pass with
      | .idle | .looking | .ledgerStamped _ => True
      | .registryRead snap => chatTargetKey msg.target ∉ snap
      | _ => False
  | _ => True

/-- The letter is settled by what the pass still has to write. -/
def Found (s : Settling) (idx : Nat) (msg : ChatMessage) : Prop :=
  (isConditional msg = true ∧ ∃ row ∈ s.rows, row.id = msg.id) ∨
    (isConditional msg = false ∧ s.moved = true ∧
      idx < position s.cursors.delivered (chatTargetKey msg.target))

/-- How far a pass has come with the letters that wait. -/
def Underway (w : World) : Phase → Prop
  | .idle | .looking => True
  | .registryRead live => ∀ idx msg, Waiting w idx msg → chatTargetKey msg.target ∉ live
  | .ledgerRead live ledger =>
    ∀ idx msg, Waiting w idx msg →
      ledger.letter idx = some msg ∧ chatTargetKey msg.target ∉ live
  | .acksRead live ledger acks =>
    (∀ idx msg, Waiting w idx msg →
      ledger.letter idx = some msg ∧ chatTargetKey msg.target ∉ live) ∧ acks <+: w.acks
  | .settling s => ∀ idx msg, Waiting w idx msg → Found s idx msg
  | .closing => Clean w
  | .ledgerStamped stamp =>
    sizeOf stamp ≤ sizeOf w.ledgerStamp ∧ (stamp = w.ledgerStamp → Clean w)

structure Kept (w : World) : Prop where
  skip : w.lastPass = some (w.ledgerStamp, w.registryStamp) → Clean w
  sizes : ∀ seen, w.lastPass = some seen → sizeOf seen.1 ≤ sizeOf w.ledgerStamp
  underway : Underway w w.pass

theorem kept_start (live : Finset String) (stamp : Option Stamp) : Kept (World.start live stamp) :=
  ⟨fun h => (nomatch h), fun _ h => (nomatch h), trivial⟩

variable {phase : Phase} {slots : Ledger} {events : List Event}

theorem underway_of_waiting (hwaiting : ∀ idx msg, Waiting v idx msg → Waiting w idx msg)
    (hacks : w.acks <+: v.acks)
    (hstamp : ∀ stamp, phase = .ledgerStamped stamp → v.ledgerStamp = w.ledgerStamp)
    (hw : Underway w phase) : Underway v phase := by
  have hclean : Clean w → Clean v := fun h idx msg hv => h idx msg (hwaiting idx msg hv)
  cases phase with
  | idle => trivial
  | looking => trivial
  | registryRead live => exact fun idx msg hv => hw idx msg (hwaiting idx msg hv)
  | ledgerRead live ledger => exact fun idx msg hv => hw idx msg (hwaiting idx msg hv)
  | acksRead live ledger acks =>
    exact ⟨fun idx msg hv => hw.1 idx msg (hwaiting idx msg hv), hw.2.trans hacks⟩
  | settling s => exact fun idx msg hv => hw idx msg (hwaiting idx msg hv)
  | closing => exact hclean hw
  | ledgerStamped stamp =>
    have hsame := hstamp stamp rfl
    refine ⟨by rw [hsame]; exact hw.1, ?_⟩
    intro heq
    rw [hsame] at heq
    exact hclean (hw.2 heq)

theorem underway_of_resting (h : working phase = false) :
    Underway w phase := by
  cases phase <;> trivial

/-- A world in which no more letters wait and the rest of the files' stamps is as it was. -/
structure Quieter (w v : World) : Prop where
  ledgerStamp : v.ledgerStamp = w.ledgerStamp
  registryStamp : v.registryStamp = w.registryStamp
  lastPass : v.lastPass = w.lastPass
  acks : w.acks <+: v.acks
  waiting : ∀ idx msg, Waiting v idx msg → Waiting w idx msg

theorem Quieter.clean (h : Quieter w v) (hw : Clean w) : Clean v :=
  fun idx msg hwaiting => hw idx msg (h.waiting idx msg hwaiting)

theorem Quieter.underway (h : Quieter w v) {phase : Phase} (hw : Underway w phase) :
    Underway v phase :=
  underway_of_waiting h.waiting h.acks (fun _ _ => h.ledgerStamp) hw

theorem Quieter.kept (h : Quieter w v) (hw : Kept w) (hv : Underway v v.pass) :
    Kept v := by
  refine ⟨?_, ?_, hv⟩
  · intro hlast
    rw [h.lastPass, h.ledgerStamp, h.registryStamp] at hlast
    exact h.clean (hw.skip hlast)
  · intro seen hseen
    rw [h.lastPass] at hseen
    rw [h.ledgerStamp]
    exact hw.sizes seen hseen

theorem quieter_of_files (more : AckLog) (cursors : ChatCursors) (pass : Phase)
    (hforward : Behind w.cursors.delivered cursors.delivered) :
    Quieter w { w with acks := w.acks ++ more, cursors := cursors, pass := pass } := by
  refine ⟨rfl, rfl, rfl, List.prefix_append _ _, ?_⟩
  intro idx msg h
  exact ⟨h.letter, h.managed, h.absent, Pending.back hforward h.pending⟩

theorem quieter_of_cursors (cursors : ChatCursors) (pass : Phase)
    (hforward : Behind w.cursors.delivered cursors.delivered) :
    Quieter w { w with cursors := cursors, pass := pass } := by
  have hquiet := quieter_of_files [] cursors pass hforward
  rw [List.append_nil] at hquiet
  exact hquiet

theorem quieter_of_phase (w : World) (pass : Phase) : Quieter w { w with pass := pass } :=
  ⟨rfl, rfl, rfl, List.prefix_refl _, fun _ _ h => ⟨h.letter, h.managed, h.absent, h.pending⟩⟩

theorem waiting_append
    (h : Waiting { w with ledger := w.ledger ++ slots, ledgerStamp := stamp } idx msg) :
    Waiting w idx msg ∨ some msg ∈ slots := by
  by_cases hold : idx < w.ledger.length
  · refine Or.inl ⟨?_, h.managed, h.absent, h.pending⟩
    have hletter := h.letter
    rw [Ledger.letter_append_left slots hold] at hletter
    exact hletter
  · refine Or.inr ?_
    have hletter := Ledger.letter_eq_some.mp h.letter
    rw [List.getElem?_append_right (by omega)] at hletter
    exact List.mem_of_getElem? hletter

theorem kept_append {mtime bytes : Nat} (hw : Kept w)
    (hallowed : Allowed w (.append slots mtime bytes)) (hbytes : 0 < bytes) :
    Kept { w with
      ledger := w.ledger ++ slots
      ledgerStamp := some ⟨mtime, sizeOf w.ledgerStamp + bytes⟩ } := by
  let v : World := { w with
    ledger := w.ledger ++ slots
    ledgerStamp := some ⟨mtime, sizeOf w.ledgerStamp + bytes⟩ }
  have hsize : sizeOf v.ledgerStamp = sizeOf w.ledgerStamp + bytes := rfl
  have hmoved : ∀ stamp, sizeOf stamp ≤ sizeOf w.ledgerStamp → stamp ≠ v.ledgerStamp := by
    intro stamp hle heq
    rw [heq, hsize] at hle
    omega
  have hunder := hw.underway
  -- a letter that did not wait before is one of the new slots
  have hwaiting : (∀ msg, some msg ∈ slots → isManaged msg = true →
      chatTargetKey msg.target ∉ w.live → False) →
      ∀ idx msg, Waiting v idx msg → Waiting w idx msg := by
    intro hnone idx msg h
    rcases waiting_append h with hold | hslot
    · exact hold
    · exact (hnone msg hslot h.managed h.absent).elim
  have hunderway : Underway v w.pass := by
    simp only [Allowed] at hallowed
    cases hpass : w.pass with
    | idle => trivial
    | looking => trivial
    | registryRead live =>
      rw [hpass] at hunder hallowed
      intro idx msg h
      rcases waiting_append h with hold | hslot
      · exact hunder idx msg hold
      · exact hallowed msg hslot h.managed h.absent
    | ledgerStamped stamp =>
      rw [hpass] at hunder
      refine ⟨?_, ?_⟩
      · rw [hsize]
        exact Nat.le_add_right_of_le hunder.1
      · intro hsame
        exact absurd hsame (hmoved stamp hunder.1)
    | ledgerRead live ledger =>
      rw [hpass] at hunder hallowed
      exact underway_of_waiting (hwaiting hallowed) (List.prefix_refl _) (fun _ h => nomatch h) hunder
    | acksRead live ledger acks =>
      rw [hpass] at hunder hallowed
      exact underway_of_waiting (hwaiting hallowed) (List.prefix_refl _) (fun _ h => nomatch h) hunder
    | settling s =>
      rw [hpass] at hunder hallowed
      exact underway_of_waiting (hwaiting hallowed) (List.prefix_refl _) (fun _ h => nomatch h) hunder
    | closing =>
      rw [hpass] at hunder hallowed
      exact underway_of_waiting (hwaiting hallowed) (List.prefix_refl _) (fun _ h => nomatch h) hunder
  refine ⟨?_, ?_, hunderway⟩
  · intro hlast
    have hle := hw.sizes _ hlast
    exact absurd rfl (hmoved _ hle)
  · intro seen hseen
    have hle := hw.sizes seen hseen
    show sizeOf seen.1 ≤ sizeOf v.ledgerStamp
    rw [hsize]
    omega

theorem kept_register (hw : Kept w)
    (hallowed : Allowed w (.register live stamp)) :
    Kept { w with live := live, registryStamp := stamp } := by
  let v : World := { w with live := live, registryStamp := stamp }
  have hskip : ∀ seen, v.lastPass = some seen → seen ≠ (v.ledgerStamp, v.registryStamp) := by
    intro seen hseen heq
    have hmoved := hallowed.1 seen hseen
    rw [heq] at hmoved
    exact hmoved rfl
  refine ⟨?_, hw.sizes, ?_⟩
  · intro hlast
    exact absurd rfl (hskip _ hlast)
  · show Underway v w.pass
    by_cases hworking : working w.pass = true
    · have hwaiting : ∀ idx msg, Waiting v idx msg → Waiting w idx msg := by
        intro idx msg h
        refine ⟨h.letter, h.managed, ?_, h.pending⟩
        intro hin
        exact h.absent (hallowed.2 hworking idx msg h.letter h.managed h.pending hin)
      exact underway_of_waiting hwaiting (List.prefix_refl _) (fun _ _ => rfl) hw.underway
    · exact underway_of_resting (by simpa using hworking)

theorem underway_settle (h : Underway w (.acksRead live ledger acks)) :
    Underway w (.settling (settle live ledger acks w.cursors)) := by
  intro idx msg hwaiting
  obtain ⟨hletter, habsent⟩ := h.1 idx msg hwaiting
  obtain ⟨more, hmore⟩ := h.2
  have hpending : Pending acks w.cursors.delivered idx msg := by
    have hnow := hwaiting.pending
    rw [← hmore] at hnow
    exact Pending.back (Behind.refl _) hnow
  exact settle_covers (mem_settledLetters.mpr ⟨hletter, hwaiting.managed, habsent, hpending⟩)

theorem underway_appendAck {rest : List AckRow} (h : Underway w (.settling s))
    (hrows : s.rows = row :: rest) (pass : Phase) :
    Underway { w with acks := w.acks ++ [row], pass := pass } (.settling { s with rows := rest }) := by
  intro idx msg hwaiting
  have hold : Waiting w idx msg :=
    ⟨hwaiting.letter, hwaiting.managed, hwaiting.absent,
      Pending.back (Behind.refl _) hwaiting.pending⟩
  rcases h idx msg hold with ⟨hcond, found, hfound, hid⟩ | himm
  · refine Or.inl ⟨hcond, ?_⟩
    rw [hrows] at hfound
    rcases List.mem_cons.mp hfound with hfirst | hmore
    · -- the row is in the log now, so the letter does not wait
      rcases hwaiting.pending with ⟨_, hack⟩ | ⟨himm, _⟩
      · rw [loadAcks_eq_none, mem_loadAckedIds] at hack
        exact absurd ⟨row, by simp, by rw [← hfirst, hid]⟩ hack
      · rw [hcond] at himm
        cases himm
    · exact ⟨found, hmore, hid⟩
  · exact Or.inr himm

theorem clean_save (h : Underway w (.settling s)) (hrows : s.rows = [])
    (hforward : Behind w.cursors.delivered s.cursors.delivered) (pass : Phase) :
    Clean { w with
      cursors := if s.moved then saveCursors w.cursors s.cursors else w.cursors
      pass := pass } := by
  intro idx msg hwaiting
  by_cases hmoved : s.moved = true
  · rw [if_pos hmoved] at hwaiting
    have hback : Pending w.acks w.cursors.delivered idx msg := by
      have hnow := hwaiting.pending
      rw [← List.append_nil w.acks]
      rcases hnow with ⟨hcond, hack⟩ | ⟨hcond, hpos⟩
      · exact Or.inl ⟨hcond, by simpa using hack⟩
      · have hle := hforward (chatTargetKey msg.target)
        have hsaved : position s.cursors.delivered (chatTargetKey msg.target) ≤ idx := hpos
        exact Or.inr ⟨hcond, by omega⟩
    have hold : Waiting w idx msg := ⟨hwaiting.letter, hwaiting.managed, hwaiting.absent, hback⟩
    rcases h idx msg hold with ⟨_, found, hfound, _⟩ | ⟨hcond, _, hpast⟩
    · rw [hrows] at hfound
      cases hfound
    · rcases hwaiting.pending with ⟨hcond', _⟩ | ⟨_, hpos⟩
      · rw [hcond] at hcond'
        cases hcond'
      · have hsaved : position s.cursors.delivered (chatTargetKey msg.target) ≤ idx := hpos
        omega
  · rw [if_neg hmoved] at hwaiting
    have hold : Waiting w idx msg :=
      ⟨hwaiting.letter, hwaiting.managed, hwaiting.absent, hwaiting.pending⟩
    rcases h idx msg hold with ⟨_, found, hfound, _⟩ | ⟨_, hmoved', _⟩
    · rw [hrows] at hfound
      cases hfound
    · exact hmoved hmoved'

theorem step_deliver {moved : String → Option Nat} {pickups : String → Option Pickup}
    {telegram : Option Nat} (h : step w (.deliver moved pickups telegram) = some v) :
    w.pass = .idle ∧ v = { w with
      cursors := ⟨w.cursors.read, furthest w.cursors.delivered moved, pickups, telegram⟩ } := by
  cases hpass : w.pass with
  | idle =>
    simp only [step, hpass, Option.some.injEq] at h
    exact ⟨rfl, h.symm⟩
  | _ => simp [step, hpass] at h

theorem step_look (h : step w .look = some v) :
    v = w ∨ v = { w with pass := .looking } := by
  cases hpass : w.pass with
  | idle =>
    simp only [step, hpass] at h
    split at h
    · exact .inl (Option.some.inj h).symm
    · exact .inr (Option.some.inj h).symm
  | _ => simp [step, hpass] at h

theorem step_readRegistry (h : step w .readRegistry = some v) :
    v = { w with pass := .registryRead w.live } := by
  cases hpass : w.pass with
  | looking =>
    simp only [step, hpass, Option.some.injEq] at h
    exact h.symm
  | _ => simp [step, hpass] at h

theorem step_readLedger (h : step w .readLedger = some v) :
    ∃ live, w.pass = .registryRead live ∧ v = { w with pass := .ledgerRead live w.ledger } := by
  cases hpass : w.pass with
  | registryRead live =>
    simp only [step, hpass, Option.some.injEq] at h
    exact ⟨live, rfl, h.symm⟩
  | _ => simp [step, hpass] at h

theorem step_readAcks (h : step w .readAcks = some v) :
    ∃ live ledger, w.pass = .ledgerRead live ledger ∧
      v = { w with pass := .acksRead live ledger w.acks } := by
  cases hpass : w.pass with
  | ledgerRead live ledger =>
    simp only [step, hpass, Option.some.injEq] at h
    exact ⟨live, ledger, rfl, h.symm⟩
  | _ => simp [step, hpass] at h

theorem step_readCursors (h : step w .readCursors = some v) :
    ∃ live ledger acks, w.pass = .acksRead live ledger acks ∧
      v = { w with pass := .settling (settle live ledger acks w.cursors) } := by
  cases hpass : w.pass with
  | acksRead live ledger acks =>
    simp only [step, hpass, Option.some.injEq] at h
    exact ⟨live, ledger, acks, rfl, h.symm⟩
  | _ => simp [step, hpass] at h

theorem step_stampLedger (h : step w .stampLedger = some v) :
    w.pass = .closing ∧ v = { w with pass := .ledgerStamped w.ledgerStamp } := by
  cases hpass : w.pass with
  | closing =>
    simp only [step, hpass, Option.some.injEq] at h
    exact ⟨rfl, h.symm⟩
  | _ => simp [step, hpass] at h

theorem step_stampRegistry (h : step w .stampRegistry = some v) :
    ∃ stamp, w.pass = .ledgerStamped stamp ∧
      v = { w with lastPass := some (stamp, w.registryStamp), pass := .idle } := by
  cases hpass : w.pass with
  | ledgerStamped stamp =>
    simp only [step, hpass, Option.some.injEq] at h
    exact ⟨stamp, rfl, h.symm⟩
  | _ => simp [step, hpass] at h

theorem step_appendAck (h : step w .appendAck = some v) :
    ∃ s row rest, w.pass = .settling s ∧ s.rows = row :: rest ∧
      v = { w with acks := w.acks ++ [row], pass := .settling { s with rows := rest } } := by
  cases hpass : w.pass with
  | settling s =>
    cases hrows : s.rows with
    | nil => simp [step, hpass, hrows] at h
    | cons row rest =>
      simp only [step, hpass, hrows, Option.some.injEq] at h
      exact ⟨s, row, rest, rfl, hrows, h.symm⟩
  | _ => simp [step, hpass] at h

theorem step_save (h : step w .save = some v) :
    ∃ s, w.pass = .settling s ∧ s.rows = [] ∧
      v = { w with
        cursors := if s.moved then saveCursors w.cursors s.cursors else w.cursors
        pass := .closing } := by
  cases hpass : w.pass with
  | settling s =>
    cases hrows : s.rows with
    | nil =>
      simp only [step, hpass, hrows, Option.some.injEq] at h
      exact ⟨s, rfl, hrows, h.symm⟩
    | cons row rest => simp [step, hpass, hrows] at h
  | _ => simp [step, hpass] at h

/-- What a pass has yet to write leaves the mail of registered recipients alone. -/
structure Sparing (w : World) (s : Settling) : Prop where
  rows : ∀ row ∈ s.rows, ∃ idx msg, w.ledger.letter idx = some msg ∧
    chatTargetKey msg.target ∉ s.live ∧ msg.id = row.id
  forward : Behind w.cursors.delivered s.cursors.delivered
  cursors : ∀ key ∈ s.live, position s.cursors.delivered key = position w.cursors.delivered key
  telegram : s.cursors.telegram = w.cursors.telegram

structure Spared (w : World) : Prop where
  ids : (messageIds w.ledger).Nodup
  passing : match w.pass with
    | .ledgerRead _ ledger => ledger <+: w.ledger
    | .acksRead _ ledger _ => ledger <+: w.ledger
    | .settling s => Sparing w s
    | _ => True

theorem Sparing.of_files {t : Settling} (h : Sparing w s)
    (hledger : w.ledger <+: v.ledger) (hdelivered : v.cursors.delivered = w.cursors.delivered)
    (htelegram : v.cursors.telegram = w.cursors.telegram) (hlive : t.live = s.live)
    (hcursors : t.cursors = s.cursors) (hrows : ∀ row ∈ t.rows, row ∈ s.rows) : Sparing v t := by
  obtain ⟨more, hmore⟩ := hledger
  refine ⟨?_, ?_, ?_, ?_⟩
  · intro row hrow
    obtain ⟨idx, msg, hletter, habsent, hid⟩ := h.rows row (hrows row hrow)
    refine ⟨idx, msg, ?_, by rw [hlive]; exact habsent, hid⟩
    rw [← hmore]
    exact Ledger.letter_append more hletter
  · rw [hdelivered, hcursors]
    exact h.forward
  · intro key hkey
    rw [hlive] at hkey
    rw [hdelivered, hcursors]
    exact h.cursors key hkey
  · rw [hcursors, htelegram]
    exact h.telegram

theorem sparing_settle {pass : Phase} (h : ledger <+: w.ledger) :
    Sparing { w with pass := pass } (settle live ledger acks w.cursors) := by
  obtain ⟨more, hmore⟩ := h
  refine ⟨?_, behind_furthest_left _ _, fun key hkey => settle_cursors hkey, rfl⟩
  intro row hrow
  obtain ⟨idx, msg, hletter, _, habsent, hid⟩ := settle_rows hrow
  refine ⟨idx, msg, ?_, habsent, hid⟩
  show Ledger.letter w.ledger idx = some msg
  rw [← hmore]
  exact Ledger.letter_append more hletter

theorem spared_start (live : Finset String) (stamp : Option Stamp) :
    Spared (World.start live stamp) := ⟨List.nodup_nil, trivial⟩

theorem spared_of_files (hw : Spared w) (hledger : v.ledger = w.ledger)
    (hdelivered : v.cursors.delivered = w.cursors.delivered)
    (htelegram : v.cursors.telegram = w.cursors.telegram) (hpass : v.pass = w.pass) : Spared v := by
  have hpassing := hw.passing
  refine ⟨by rw [hledger]; exact hw.ids, ?_⟩
  rw [hpass, hledger]
  cases hphase : w.pass with
  | ledgerRead live ledger =>
    rw [hphase] at hpassing
    exact hpassing
  | acksRead live ledger acks =>
    rw [hphase] at hpassing
    exact hpassing
  | settling s =>
    rw [hphase] at hpassing
    exact hpassing.of_files (by rw [hledger]) hdelivered htelegram rfl rfl fun _ hrow => hrow
  | _ => trivial

theorem spared_step (hw : Spared w) (h : step w e = some v) :
    Spared v := by
  have hpassing := hw.passing
  have hledger := List.prefix_refl w.ledger
  cases e with
  | append slots mtime bytes =>
    obtain ⟨⟨hids, _⟩, rfl⟩ := by simpa only [step, Option.ite_none_right_eq_some,
      Option.some.injEq] using h
    refine ⟨hids, ?_⟩
    have hmore : w.ledger <+: w.ledger ++ slots := List.prefix_append _ _
    show match w.pass with
      | .ledgerRead _ ledger => ledger <+: w.ledger ++ slots
      | .acksRead _ ledger _ => ledger <+: w.ledger ++ slots
      | .settling s => Sparing _ s
      | _ => True
    cases hpass : w.pass with
    | ledgerRead live ledger =>
      rw [hpass] at hpassing
      exact hpassing.trans hmore
    | acksRead live ledger acks =>
      rw [hpass] at hpassing
      exact hpassing.trans hmore
    | settling s =>
      rw [hpass] at hpassing
      exact hpassing.of_files hmore rfl rfl rfl rfl fun _ hrow => hrow
    | _ => trivial
  | register live stamp =>
    obtain rfl := Option.some.inj h
    exact spared_of_files hw rfl rfl rfl rfl
  | ack rows =>
    obtain rfl := Option.some.inj h
    exact spared_of_files hw rfl rfl rfl rfl
  | inbox recipientKey ledgerLen =>
    obtain rfl := Option.some.inj h
    exact spared_of_files hw rfl rfl rfl rfl
  | deliver moved pickups telegram =>
    obtain ⟨hpass, rfl⟩ := step_deliver h
    exact ⟨hw.ids, by simp only [hpass]⟩
  | look =>
    obtain rfl | rfl := step_look h
    · exact hw
    · exact ⟨hw.ids, trivial⟩
  | readRegistry =>
    obtain rfl := step_readRegistry h
    exact ⟨hw.ids, trivial⟩
  | readLedger =>
    obtain ⟨live, hpass, rfl⟩ := step_readLedger h
    exact ⟨hw.ids, hledger⟩
  | readAcks =>
    obtain ⟨live, ledger, hpass, rfl⟩ := step_readAcks h
    rw [hpass] at hpassing
    exact ⟨hw.ids, hpassing⟩
  | readCursors =>
    obtain ⟨live, ledger, acks, hpass, rfl⟩ := step_readCursors h
    rw [hpass] at hpassing
    exact ⟨hw.ids, sparing_settle hpassing⟩
  | appendAck =>
    obtain ⟨s, row, rest, hpass, hrows, rfl⟩ := step_appendAck h
    rw [hpass] at hpassing
    refine ⟨hw.ids, hpassing.of_files hledger rfl rfl rfl rfl ?_⟩
    intro found hfound
    rw [hrows]
    exact List.mem_cons_of_mem _ hfound
  | save =>
    obtain ⟨s, hpass, hrows, rfl⟩ := step_save h
    exact ⟨hw.ids, trivial⟩
  | stampLedger =>
    obtain ⟨hpass, rfl⟩ := step_stampLedger h
    exact ⟨hw.ids, trivial⟩
  | stampRegistry =>
    obtain ⟨stamp, hpass, rfl⟩ := step_stampRegistry h
    exact ⟨hw.ids, trivial⟩
  | fail =>
    obtain rfl := Option.some.inj h
    exact ⟨hw.ids, trivial⟩

theorem kept_step (hw : Kept w) (hmine : Spared w)
    (hallowed : Allowed w e) (h : step w e = some v) : Kept v := by
  have hunder := hw.underway
  cases e with
  | append slots mtime bytes =>
    obtain ⟨⟨_, hbytes⟩, rfl⟩ := by simpa only [step, Option.ite_none_right_eq_some,
      Option.some.injEq] using h
    exact kept_append hw hallowed hbytes
  | register live stamp =>
    obtain rfl := Option.some.inj h
    exact kept_register hw hallowed
  | ack rows =>
    obtain rfl := Option.some.inj h
    have hquiet := quieter_of_files rows w.cursors w.pass (Behind.refl w.cursors.delivered)
    exact hquiet.kept hw (hquiet.underway hunder)
  | inbox recipientKey ledgerLen =>
    obtain rfl := Option.some.inj h
    have hquiet := quieter_of_cursors (markRead w.cursors recipientKey ledgerLen) w.pass
      (Behind.refl w.cursors.delivered)
    exact hquiet.kept hw (hquiet.underway hunder)
  | deliver moved pickups telegram =>
    obtain ⟨hpass, rfl⟩ := step_deliver h
    have hforward := behind_furthest_left w.cursors.delivered moved
    have hquiet := quieter_of_cursors ⟨w.cursors.read, _, pickups, telegram⟩ w.pass hforward
    rw [hpass] at hquiet ⊢
    exact hquiet.kept hw trivial
  | look =>
    obtain rfl | rfl := step_look h
    · exact hw
    · exact (quieter_of_phase w .looking).kept hw trivial
  | readRegistry =>
    obtain rfl := step_readRegistry h
    exact (quieter_of_phase w _).kept hw fun _ _ hwaiting => hwaiting.absent
  | readLedger =>
    obtain ⟨live, hpass, rfl⟩ := step_readLedger h
    rw [hpass] at hunder
    have hquiet := quieter_of_phase w (.ledgerRead live w.ledger)
    refine hquiet.kept hw fun idx msg hwaiting => ⟨hwaiting.letter, ?_⟩
    exact hquiet.underway hunder idx msg hwaiting
  | readAcks =>
    obtain ⟨live, ledger, hpass, rfl⟩ := step_readAcks h
    rw [hpass] at hunder
    have hquiet := quieter_of_phase w (.acksRead live ledger w.acks)
    exact hquiet.kept hw ⟨hquiet.underway hunder, List.prefix_refl _⟩
  | readCursors =>
    obtain ⟨live, ledger, acks, hpass, rfl⟩ := step_readCursors h
    rw [hpass] at hunder
    have hquiet := quieter_of_phase w (.settling (settle live ledger acks w.cursors))
    exact hquiet.kept hw (hquiet.underway (underway_settle hunder))
  | appendAck =>
    obtain ⟨s, row, rest, hpass, hrows, rfl⟩ := step_appendAck h
    rw [hpass] at hunder
    have hquiet := quieter_of_files [row] w.cursors (.settling { s with rows := rest })
      (Behind.refl w.cursors.delivered)
    exact hquiet.kept hw (underway_appendAck hunder hrows _)
  | save =>
    obtain ⟨s, hpass, hrows, rfl⟩ := step_save h
    rw [hpass] at hunder
    have hmine := hmine.passing
    rw [hpass] at hmine
    have hforward : Behind w.cursors.delivered
        (if s.moved then saveCursors w.cursors s.cursors else w.cursors).delivered := by
      split
      · exact hmine.forward
      · exact Behind.refl _
    exact (quieter_of_cursors _ _ hforward).kept hw (clean_save hunder hrows hmine.forward _)
  | stampLedger =>
    obtain ⟨hpass, rfl⟩ := step_stampLedger h
    rw [hpass] at hunder
    have hquiet := quieter_of_phase w (.ledgerStamped w.ledgerStamp)
    exact hquiet.kept hw ⟨Nat.le_refl _, fun _ => hquiet.clean hunder⟩
  | stampRegistry =>
    obtain ⟨stamp, hpass, rfl⟩ := step_stampRegistry h
    rw [hpass] at hunder
    refine ⟨?_, ?_, trivial⟩
    · intro hlast idx msg hwaiting
      simp only [Option.some.injEq, Prod.mk.injEq] at hlast
      exact hunder.2 hlast.1 idx msg
        ⟨hwaiting.letter, hwaiting.managed, hwaiting.absent, hwaiting.pending⟩
    · intro seen hseen
      obtain rfl := Option.some.inj hseen
      exact hunder.1
  | fail =>
    obtain rfl := Option.some.inj h
    exact (quieter_of_phase w .idle).kept hw trivial

/-- Where a letter stands by the files of a world. -/
def World.letterState (w : World) (idx : Nat) (msg : ChatMessage) : LetterState :=
  Settlement.letterState msg idx (loadAcks w.acks) w.cursors.delivered w.cursors.telegram

theorem letterState_row (h : msg.id ≠ row.id)
    (idx : Nat) (pass : Phase) :
    World.letterState { w with acks := w.acks ++ [row], pass := pass } idx msg =
      w.letterState idx msg := by
  have hack : loadAcks (w.acks ++ [row]) msg.id = loadAcks w.acks msg.id := by
    simp only [loadAcks]
    rw [List.reverse_append, List.reverse_singleton, List.singleton_append, List.find?_cons_of_neg]
    simpa using h.symm
  simp only [World.letterState, Settlement.letterState, hack]

theorem letterState_cursors (hdelivered : position cursors.delivered (chatTargetKey msg.target) =
      position w.cursors.delivered (chatTargetKey msg.target))
    (htelegram : cursors.telegram = w.cursors.telegram) (idx : Nat) (pass : Phase) :
    World.letterState { w with cursors := cursors, pass := pass } idx msg =
      w.letterState idx msg := by
  simp only [World.letterState, Settlement.letterState, htelegram]
  cases htarget : msg.target with
  | owner => rfl
  | _ =>
    rw [htarget] at hdelivered
    simp only [hdelivered]

/-- The writes of a pass leave the letters of registered recipients as they are. -/
theorem Spared.keeps (hw : Spared w) (hpass : w.pass = .settling s)
    (he : e = .appendAck ∨ e = .save)
    (h : step w e = some v) (hletter : w.ledger.letter idx = some msg)
    (hlive : chatTargetKey msg.target ∈ s.live) : v.letterState idx msg = w.letterState idx msg := by
  have hsparing := hw.passing
  rw [hpass] at hsparing
  rcases he with rfl | rfl
  · obtain ⟨t, row, rest, ht, hrows, rfl⟩ := step_appendAck h
    obtain rfl : s = t := by simpa [hpass] using ht
    obtain ⟨other, dead, hdead, habsent, hid⟩ := hsparing.rows row (by simp [hrows])
    refine letterState_row ?_ idx _
    intro heq
    -- the row is for a letter to an absent recipient, and no two letters have one id
    have hids : (w.ledger.filterMap fun slot => slot.map ChatMessage.id).Nodup := hw.ids
    have hsame : some msg = some dead :=
      eq_of_key hids (List.mem_of_getElem? (Ledger.letter_eq_some.mp hletter))
        (List.mem_of_getElem? (Ledger.letter_eq_some.mp hdead)) rfl (by simp [heq, hid])
    obtain rfl := Option.some.inj hsame
    exact habsent hlive
  · obtain ⟨t, ht, _, rfl⟩ := step_save h
    obtain rfl : s = t := by simpa [hpass] using ht
    by_cases hmoved : s.moved = true
    · rw [if_pos hmoved]
      exact letterState_cursors (hsparing.cursors _ hlive) hsparing.telegram idx .closing
    · rw [if_neg hmoved]
      exact letterState_cursors rfl rfl idx .closing

theorem kept_run (hrun : run step (World.start live stamp) events = some w)
    (hall : Along step Allowed (World.start live stamp) events) : Kept w := by
  have keeps : ∀ u e v, Kept u ∧ Spared u → Allowed u e → step u e = some v → Kept v ∧ Spared v := by
    intro u e v h hallowed hstep
    exact ⟨kept_step h.1 h.2 hallowed hstep, spared_step h.2 hstep⟩
  exact (run_invariant_along keeps hrun hall ⟨kept_start live stamp, spared_start live stamp⟩).1

theorem spared_run (hrun : run step (World.start live stamp) events = some w)
    : Spared w :=
  run_invariant (fun _ _ _ h hstep => spared_step h hstep) hrun (spared_start live stamp)

/-- A pass that returns early leaves no letter to an absent recipient behind, when the files change
under the passes as `Allowed` says; and whatever changes, no pass settles the mail of a recipient it
has read from the registry. -/
theorem passes_settle_absent_only {live : Finset String} {stamp : Option Stamp}
    {events : List Event} {w : World}
    (hrun : run step (World.start live stamp) events = some w) :
    (Along step Allowed (World.start live stamp) events →
      w.lastPass = some (w.ledgerStamp, w.registryStamp) → Clean w) ∧
    ∀ s e v, w.pass = .settling s → (e = .appendAck ∨ e = .save) → step w e = some v →
      ∀ idx msg, w.ledger.letter idx = some msg → chatTargetKey msg.target ∈ s.live →
        v.letterState idx msg = w.letterState idx msg := by
  refine ⟨?_, ?_⟩
  · intro hall hlast
    exact (kept_run hrun hall).skip hlast
  · intro s e v hpass he hstep idx msg hletter hlive
    exact (spared_run hrun).keeps hpass he hstep hletter hlive

/-- A letter to a session that is removed while a pass works. -/
def lateLetter : ChatMessage :=
  { id := "m1"
    ts := "2026-01-01T00:00:00.000Z"
    sender := .cli "here"
    target := .managed ⟨"here", .claude, "worker", "5e1f"⟩
    body := "hello"
    defer := false }

/-- A pass over a letter to a session that is gone before the pass begins. -/
def absentPass : List Event :=
  [.look, .readRegistry, .readLedger, .readAcks, .readCursors, .save, .stampLedger, .stampRegistry]

theorem passes_settle_absent_only_once :
    ∃ w, run step (World.start ∅ none) (.append [some lateLetter] 10 100 :: absentPass) = some w ∧
      w.ledger = [some lateLetter] ∧ w.lastPass = some (w.ledgerStamp, w.registryStamp) ∧
      Clean w := by
  have hall : Along step Allowed (World.start ∅ none)
      (.append [some lateLetter] 10 100 :: absentPass) := by
    refine ⟨fun _ _ _ _ => trivial, fun t _ => along_of_forall ?_ t⟩
    intro e he s
    simp only [absentPass, List.mem_cons, List.not_mem_nil, or_false] at he
    rcases he with rfl | rfl | rfl | rfl | rfl | rfl | rfl | rfl <;> trivial
  refine ⟨_, rfl, rfl, rfl, ?_⟩
  exact (passes_settle_absent_only rfl).1 hall rfl

/-- The session is in the registry that the pass reads and gone before the pass takes its stamps. -/
def lateRemoval : List Event :=
  [.append [some lateLetter] 10 100, .look, .readRegistry, .readLedger, .readAcks, .readCursors,
    .register ∅ (some ⟨20, 2⟩), .save, .stampLedger, .stampRegistry]

def afterLateRemoval : World :=
  { World.start ∅ (some ⟨20, 2⟩) with
    ledger := [some lateLetter]
    ledgerStamp := some ⟨10, 100⟩
    lastPass := some (some ⟨10, 100⟩, some ⟨20, 2⟩) }

theorem late_removal_run :
    run step (World.start {chatTargetKey lateLetter.target} (some ⟨1, 60⟩)) lateRemoval =
      some afterLateRemoval := by
  rfl

/-- The next pass returns early, and the letter still waits. -/
theorem late_removal_waits :
    ¬ ∀ live stamp events w, run step (World.start live stamp) events = some w →
      w.lastPass = some (w.ledgerStamp, w.registryStamp) → Clean w := by
  intro h
  have hclean := h _ _ _ _ late_removal_run rfl
  apply hclean 0 lateLetter
  refine ⟨rfl, rfl, ?_, ?_⟩
  · simp [afterLateRemoval, World.start]
  · exact Or.inr ⟨rfl, by decide⟩

end Ccmux.Chat.Undeliverable
