/- Module: Ccmux/Chat/CoalesceRun
   source: src/chat/coalesce.ts, src/commands/stopHook.ts
   digest: What one batch holds, and that repeated drains leave no waiting letter behind. -/

import Mathlib
import Ccmux.Lib.Machine
import Ccmux.Chat.Coalesce

namespace Ccmux.Chat.CoalesceRun

open Ccmux.Lib.Machine
open Ccmux.Chat.Identity (ManagedPeer managedPeerKey)
open Ccmux.Chat.Message
open Ccmux.Chat.Settlement (isConditional isDue)
open Ccmux.Chat.Coalesce

/-- The store as the Stop hook finds it; `returned` is what the hooks handed over so far. -/
structure Queue where
  ledger : Ledger
  acks : AckLog
  returned : List ChatMessage

/-- `acked` holds rows of the other writers: a cancel, the daemon, hooks of other sessions. -/
inductive Event where
  | append (more : Ledger)
  | acked (rows : AckLog)
  | stopHook (now : Int)

section
variable (dateParse : String → Option Int) (recipientKey : String)

/-- `cmdStopHook`: the acks are recorded before the batch is emitted. -/
def cmdStopHook (q : Queue) (now : Int) : Queue :=
  let pending := coalesce dateParse q.ledger recipientKey (loadAckedIds q.acks) now
  { q with
    acks := q.acks ++ pending.map fun msg => ⟨msg.id, .hook⟩
    returned := q.returned ++ pending }

def step (q : Queue) : Event → Option Queue
  | .append more => some { q with ledger := q.ledger ++ more }
  | .acked rows => some { q with acks := q.acks ++ rows }
  | .stopHook now => some (cmdStopHook dateParse recipientKey q now)

/-- A due and unacked conditional letter of the recipient. -/
def Waits (acked : Finset String) (now : Int) (msg : ChatMessage) : Prop :=
  (∃ peer, msg.target = .managed peer ∧ managedPeerKey peer = recipientKey) ∧
    isConditional msg = true ∧ msg.id ∉ acked ∧ isDue dateParse msg now = true

def DistinctIds (ledger : Ledger) (acked : Finset String) (now : Int) : Prop :=
  ((waitingFor dateParse ledger recipientKey acked now).map ChatMessage.id).Nodup

/-- The letters before this one all wait for something else. -/
def IsOldest (ledger : Ledger) (acked : Finset String) (now : Int) (msg : ChatMessage) : Prop :=
  ∃ before after, ledger = before ++ some msg :: after ∧
    Waits dateParse recipientKey acked now msg ∧
    ∀ earlier, some earlier ∈ before → ¬ Waits dateParse recipientKey acked now earlier

/-- Whether the event is a pass at whose clock the letter is due. -/
def isDuePass (msg : ChatMessage) : Event → Bool
  | .stopHook now => isDue dateParse msg now
  | _ => false

def duePasses (msg : ChatMessage) (events : List Event) : Nat :=
  events.countP (isDuePass dateParse msg)

end

/-- The positions up to `idx` whose letter is not in the ack log. -/
def unsettled (q : Queue) (idx : Nat) : Finset Nat :=
  (Finset.range (idx + 1)).filter fun pos =>
    (q.ledger.letter pos).any (fun msg => !decide (msg.id ∈ loadAckedIds q.acks)) = true

/-! ### What was selected is a prefix of the selection order -/

theorem select_prefix (order : List ChatMessage) (selected : Finset String) (bytes : Nat) :
    ∃ taken, taken <+: order ∧ select selected bytes order = selected ∪ ids taken ∧
      ∀ before msg, taken = before ++ [msg] →
        (selected ∪ ids before).card < maxBatch ∧
          (selected ∪ ids before = ∅ ∨ bytes + bodyBytes taken ≤ maxBatchBytes) := by
  induction order generalizing selected bytes with
  | nil => exact ⟨[], List.nil_prefix, by simp [select, ids], by simp⟩
  | cons first rest ih =>
    by_cases hstop : maxBatch ≤ selected.card ∨
        (0 < selected.card ∧ maxBatchBytes < bytes + first.body.utf8ByteSize)
    · have hnone : select selected bytes (first :: rest) = selected := by
        simp only [select, hstop, if_true]
      exact ⟨[], List.nil_prefix, by simp [hnone, ids], by simp⟩
    · obtain ⟨taken, hinitial, hselect, hlast⟩ :=
        ih (insert first.id selected) (bytes + first.body.utf8ByteSize)
      have hids (letters : List ChatMessage) :
          insert first.id selected ∪ ids letters = selected ∪ ids (first :: letters) := by
        rw [ids_cons, Finset.union_insert, Finset.insert_union]
      refine ⟨first :: taken, List.cons_prefix_cons.mpr ⟨rfl, hinitial⟩, ?_, ?_⟩
      · simp only [select, hstop, if_false]
        rw [hselect, hids]
      · intro before msg hsplit
        push Not at hstop
        obtain ⟨hroom, htext⟩ := hstop
        cases before with
        | nil =>
          obtain ⟨rfl, rfl⟩ := List.cons.inj hsplit
          have hnil : selected ∪ ids [] = selected := by simp [ids]
          rw [hnil]
          refine ⟨hroom, ?_⟩
          rcases Nat.eq_zero_or_pos selected.card with hzero | hpos
          · exact .inl (Finset.card_eq_zero.mp hzero)
          · exact .inr (by simpa [bodyBytes] using htext hpos)
        | cons head before =>
          obtain ⟨rfl, hrest⟩ := List.cons.inj hsplit
          obtain ⟨hcard, hfit⟩ := hlast before msg hrest
          rw [hids] at hcard hfit
          refine ⟨hcard, ?_⟩
          rcases hfit with hempty | hfit
          · exact absurd hempty (by simp)
          · right
            rw [bodyBytes_cons]
            omega

theorem personFirst_perm (letters : List ChatMessage) : (personFirst letters).Perm letters := by
  cases letters with
  | nil => exact List.Perm.refl []
  | cons oldest rest => exact (List.filter_append_perm fromPerson rest).cons oldest

variable {α : Type}

theorem prefix_of_mem_right {taken first second : List α} {a : α}
    (hinitial : taken <+: first ++ second) (ha : a ∈ taken) (hnot : a ∉ first) :
    first <+: taken := by
  rcases List.prefix_or_prefix_of_prefix hinitial (List.prefix_append first second) with h | h
  · exact absurd (h.subset ha) hnot
  · exact h

theorem filterMap_filter (test : α → Bool) (slots : List (Option α)) :
    slots.filterMap (fun slot => slot.filter test) = slots.reduceOption.filter test := by
  induction slots with
  | nil => rfl
  | cons slot rest ih =>
    cases slot with
    | none => simpa [List.reduceOption] using ih
    | some a =>
      rw [List.reduceOption_cons_of_some, List.filterMap_cons, List.filter_cons, ← ih]
      cases htest : test a <;> simp [Option.filter, htest]

section
variable {dateParse : String → Option Int} {recipientKey : String} {ledger : Ledger}
  {acked : Finset String} {now : Int}

variable {msg : ChatMessage} {q t : Queue} {idx : Nat} {events : List Event}

theorem mem_waitingFor_iff :
    msg ∈ waitingFor dateParse ledger recipientKey acked now ↔
      some msg ∈ ledger ∧ Waits dateParse recipientKey acked now msg := by
  rw [mem_waitingFor, isWaiting_iff, Waits]

theorem waitingFor_sublist :
    (waitingFor dateParse ledger recipientKey acked now).Sublist ledger.reduceOption := by
  rw [waitingFor, filterMap_filter]
  exact List.filter_sublist

theorem coalesce_sublist :
    (coalesce dateParse ledger recipientKey acked now).Sublist
      (waitingFor dateParse ledger recipientKey acked now) :=
  List.filter_sublist

/-- With distinct ids the batch is, up to its order, a bounded prefix of the selection order. -/
theorem coalesce_perm (hdistinct : DistinctIds dateParse recipientKey ledger acked now) :
    ∃ taken, taken <+: personFirst (waitingFor dateParse ledger recipientKey acked now) ∧
      (coalesce dateParse ledger recipientKey acked now).Perm taken ∧
      taken.length ≤ maxBatch ∧ (taken.length ≤ 1 ∨ bodyBytes taken ≤ maxBatchBytes) := by
  obtain ⟨taken, hinitial, hselect, hlast⟩ :=
    select_prefix (personFirst (waitingFor dateParse ledger recipientKey acked now)) ∅ 0
  have horder := (personFirst_perm (waitingFor dateParse ledger recipientKey acked now))
  have hsub : ∀ msg ∈ taken, msg ∈ waitingFor dateParse ledger recipientKey acked now :=
    fun msg hmsg => horder.subset (hinitial.subset hmsg)
  have htakenIds : (taken.map ChatMessage.id).Nodup :=
    (hinitial.sublist.map _).nodup ((horder.map _).nodup_iff.mpr hdistinct)
  refine ⟨taken, hinitial, ?_, ?_⟩
  · have hwaiting : (waitingFor dateParse ledger recipientKey acked now).Nodup :=
      List.Nodup.of_map _ hdistinct
    refine (List.perm_ext_iff_of_nodup (hwaiting.filter _) (List.Nodup.of_map _ htakenIds)).mpr ?_
    intro msg
    rw [List.mem_filter, hselect, Finset.empty_union, decide_eq_true_eq, ids, List.mem_toFinset,
      List.mem_map]
    constructor
    · rintro ⟨hmsg, other, hother, hid⟩
      obtain rfl := List.inj_on_of_nodup_map hdistinct (hsub other hother) hmsg hid
      exact hother
    · intro hmsg
      exact ⟨hsub msg hmsg, msg, hmsg, rfl⟩
  · rcases List.eq_nil_or_concat taken with rfl | ⟨before, msg, rfl⟩
    · exact ⟨Nat.zero_le _, .inl (Nat.zero_le _)⟩
    · rw [List.concat_eq_append] at *
      obtain ⟨hcard, hfit⟩ := hlast before msg rfl
      have hbefore : (before.map ChatMessage.id).Nodup := by
        rw [List.map_append] at htakenIds
        exact htakenIds.of_append_left
      rw [Finset.empty_union, ids, List.toFinset_card_of_nodup hbefore, List.length_map] at hcard
      rw [Finset.empty_union, Nat.zero_add] at hfit
      refine ⟨by simpa [Nat.succ_le_iff] using hcard, ?_⟩
      rcases hfit with hempty | hfit
      · have hnil : before = [] := by
          cases before with
          | nil => rfl
          | cons head rest => simp at hempty
        exact .inl (by simp [hnil])
      · exact .inr hfit

theorem waitingFor_append {before after : Ledger} :
    waitingFor dateParse (before ++ after) recipientKey acked now =
      waitingFor dateParse before recipientKey acked now ++
        waitingFor dateParse after recipientKey acked now :=
  List.filterMap_append

theorem IsOldest.head (h : IsOldest dateParse recipientKey ledger acked now msg) :
    ∃ rest, waitingFor dateParse ledger recipientKey acked now = msg :: rest := by
  obtain ⟨before, after, rfl, hwaits, hnone⟩ := h
  have hbefore : waitingFor dateParse before recipientKey acked now = [] := by
    rw [List.eq_nil_iff_forall_not_mem]
    intro earlier hearlier
    obtain ⟨hmem, hwait⟩ := (mem_waitingFor_iff).mp hearlier
    exact hnone earlier hmem hwait
  refine ⟨waitingFor dateParse after recipientKey acked now, ?_⟩
  rw [waitingFor_append, hbefore, List.nil_append, waitingFor, List.filterMap_cons,
    Option.filter_some_pos (isWaiting_iff.mpr hwaits)]
  rfl

theorem exists_isOldest (hmem : some msg ∈ ledger)
    (hwaits : Waits dateParse recipientKey acked now msg) :
    ∃ oldest, IsOldest dateParse recipientKey ledger acked now oldest := by
  induction ledger with
  | nil => cases hmem
  | cons slot rest ih =>
    by_cases hslot : ∃ first, slot = some first ∧ Waits dateParse recipientKey acked now first
    · obtain ⟨first, rfl, hfirst⟩ := hslot
      exact ⟨first, [], rest, rfl, hfirst, by simp⟩
    · have hrest : some msg ∈ rest := by
        rcases List.mem_cons.mp hmem with rfl | hrest
        · exact absurd ⟨msg, rfl, hwaits⟩ hslot
        · exact hrest
      obtain ⟨oldest, before, after, rfl, hoff, hnone⟩ := ih hrest
      refine ⟨oldest, slot :: before, after, rfl, hoff, ?_⟩
      intro earlier hearlier hearly
      rcases List.mem_cons.mp hearlier with rfl | hearlier
      · exact hslot ⟨earlier, rfl, hearly⟩
      · exact hnone earlier hearlier hearly

theorem IsOldest.travels (h : IsOldest dateParse recipientKey ledger acked now msg) :
    ∃ rest, coalesce dateParse ledger recipientKey acked now = msg :: rest := by
  obtain ⟨rest, hwaiting⟩ := h.head
  have hfits : Fits (personFirst (waitingFor dateParse ledger recipientKey acked now)) msg.id := by
    rw [hwaiting]
    exact ⟨[], msg, _, rfl, rfl, by simp [ids, maxBatch], .inl rfl⟩
  have hmem : msg ∈ coalesce dateParse ledger recipientKey acked now :=
    mem_coalesce.mpr ⟨by rw [hwaiting]; exact List.mem_cons_self, hfits⟩
  simp only [coalesce] at hmem ⊢
  rw [hwaiting] at hmem ⊢
  have htaken := (List.mem_filter.mp hmem).2
  exact ⟨_, List.filter_cons_of_pos htaken⟩

/-- Besides the oldest no letter of an agent travels while a waiting letter of a person stays. -/
theorem coalesce_person_first (hdistinct : DistinctIds dateParse recipientKey ledger acked now)
    {msg person : ChatMessage} (hmsg : msg ∈ coalesce dateParse ledger recipientKey acked now)
    (hagent : fromPerson msg = false)
    (hlater : ¬ IsOldest dateParse recipientKey ledger acked now msg)
    (hperson : some person ∈ ledger) (hwaits : Waits dateParse recipientKey acked now person)
    (hfrom : fromPerson person = true) :
    person ∈ coalesce dateParse ledger recipientKey acked now := by
  obtain ⟨taken, hinitial, hperm, -, -⟩ := coalesce_perm hdistinct
  obtain ⟨oldest, holdest⟩ := exists_isOldest hperson hwaits
  obtain ⟨rest, hwaiting⟩ := holdest.head
  rw [hwaiting, personFirst, ← List.cons_append] at hinitial
  have hnot : msg ∉ oldest :: rest.filter fromPerson := by
    rw [List.mem_cons, List.mem_filter]
    rintro (rfl | ⟨-, hfrom'⟩)
    · exact hlater holdest
    · rw [hagent] at hfrom'
      cases hfrom'
  have hpersons := prefix_of_mem_right hinitial (hperm.mem_iff.mp hmsg) hnot
  have hmem : person ∈ oldest :: rest := by
    rw [← hwaiting]
    exact (mem_waitingFor_iff).mpr ⟨hperson, hwaits⟩
  refine hperm.mem_iff.mpr (hpersons.subset ?_)
  rcases List.mem_cons.mp hmem with rfl | hmem
  · exact List.mem_cons_self
  · exact List.mem_cons_of_mem _ (List.mem_filter.mpr ⟨hmem, hfrom⟩)

theorem bodyBytes_perm {left right : List ChatMessage} (h : left.Perm right) :
    bodyBytes left = bodyBytes right :=
  (h.map _).sum_nat

theorem coalesce_bounded (hdistinct : DistinctIds dateParse recipientKey ledger acked now) :
    (coalesce dateParse ledger recipientKey acked now).length ≤ maxBatch ∧
      ((coalesce dateParse ledger recipientKey acked now).length ≤ 1 ∨
        bodyBytes (coalesce dateParse ledger recipientKey acked now) ≤ maxBatchBytes) := by
  obtain ⟨taken, -, hperm, hlength, hbytes⟩ := coalesce_perm hdistinct
  rw [hperm.length_eq, bodyBytes_perm hperm]
  exact ⟨hlength, hbytes⟩

/-! ### Draining again and again -/

theorem mem_unsettled {pos : Nat} :
    pos ∈ unsettled q idx ↔ pos < idx + 1 ∧
      ∃ msg, q.ledger.letter pos = some msg ∧ msg.id ∉ loadAckedIds q.acks := by
  simp only [unsettled, Finset.mem_filter, Finset.mem_range, Option.any_eq_true, Bool.not_eq_true',
    decide_eq_false_iff_not]

theorem card_unsettled_le (q : Queue) (idx : Nat) : (unsettled q idx).card ≤ idx + 1 :=
  (Finset.card_filter_le _ _).trans (Finset.card_range _).le

/-- The ledger and the ack log only grow, and so does what was returned. -/
structure Grows (q t : Queue) : Prop where
  ledger : ∃ more, t.ledger = q.ledger ++ more
  acks : ∃ more, t.acks = q.acks ++ more
  returned : ∃ more, t.returned = q.returned ++ more

theorem Grows.refl (q : Queue) : Grows q q :=
  ⟨⟨[], (List.append_nil _).symm⟩, ⟨[], (List.append_nil _).symm⟩, ⟨[], (List.append_nil _).symm⟩⟩

theorem Grows.trans {m : Queue} (h : Grows q m) (h' : Grows m t) : Grows q t := by
  have append {α : Type} {a b c : List α} (h : ∃ more, b = a ++ more) (h' : ∃ more, c = b ++ more) :
      ∃ more, c = a ++ more := by
    obtain ⟨first, rfl⟩ := h
    obtain ⟨second, rfl⟩ := h'
    exact ⟨first ++ second, List.append_assoc _ _ _⟩
  exact ⟨append h.ledger h'.ledger, append h.acks h'.acks, append h.returned h'.returned⟩

theorem Grows.acked_subset (h : Grows q t) :
    loadAckedIds q.acks ⊆ loadAckedIds t.acks := by
  obtain ⟨more, hacks⟩ := h.acks
  rw [hacks]
  exact loadAckedIds_subset_append _ _

theorem Grows.letter (h : Grows q t) {idx : Nat} {msg : ChatMessage}
    (hletter : q.ledger.letter idx = some msg) : t.ledger.letter idx = some msg := by
  obtain ⟨more, hledger⟩ := h.ledger
  rw [hledger]
  exact Ledger.letter_append more hletter

theorem Grows.unsettled (h : Grows q t) {idx : Nat} (hidx : idx < q.ledger.length) :
    unsettled t idx ⊆ unsettled q idx := by
  intro pos hpos
  obtain ⟨hle, msg, hletter, hid⟩ := (mem_unsettled).mp hpos
  refine (mem_unsettled).mpr ⟨hle, msg, ?_, fun hold => hid (h.acked_subset hold)⟩
  obtain ⟨more, hledger⟩ := h.ledger
  rw [hledger, Ledger.letter_append_left more (by omega)] at hletter
  exact hletter

variable {id : String}

theorem mem_acks_cmdStopHook :
    id ∈ loadAckedIds (cmdStopHook dateParse recipientKey q now).acks ↔
      id ∈ loadAckedIds q.acks ∨
        ∃ msg ∈ coalesce dateParse q.ledger recipientKey (loadAckedIds q.acks) now,
          msg.id = id := by
  simp [cmdStopHook, loadAckedIds]

theorem step_grows {e : Event} (hstep : step dateParse recipientKey q e = some t) :
    Grows q t := by
  cases e with
  | append more =>
    obtain rfl := Option.some.inj hstep
    exact ⟨⟨more, rfl⟩, ⟨[], (List.append_nil _).symm⟩, ⟨[], (List.append_nil _).symm⟩⟩
  | acked rows =>
    obtain rfl := Option.some.inj hstep
    exact ⟨⟨[], (List.append_nil _).symm⟩, ⟨rows, rfl⟩, ⟨[], (List.append_nil _).symm⟩⟩
  | stopHook now =>
    obtain rfl := Option.some.inj hstep
    exact ⟨⟨[], (List.append_nil _).symm⟩, ⟨_, rfl⟩, ⟨_, rfl⟩⟩

theorem run_grows (hrun : run (step dateParse recipientKey) q events = some t) : Grows q t :=
  run_relation Grows.refl (fun _ _ _ => Grows.trans) (fun _ _ _ => step_grows) hrun

/-- Where a letter waits, the pass settles the oldest waiting one, which stands no later. -/
theorem cmdStopHook_settles (hletter : q.ledger.letter idx = some msg)
    (hwaits : Waits dateParse recipientKey (loadAckedIds q.acks) now msg) :
    (unsettled (cmdStopHook dateParse recipientKey q now) idx).card < (unsettled q idx).card := by
  have hslot : q.ledger[idx]? = some (some msg) := Ledger.letter_eq_some.mp hletter
  obtain ⟨oldest, holdest⟩ := exists_isOldest (List.mem_of_getElem? hslot) hwaits
  obtain ⟨rest, hbatch⟩ := holdest.travels
  obtain ⟨before, after, hledger, hoff, hnone⟩ := holdest
  have hle : before.length ≤ idx := by
    by_contra hlt
    rw [hledger, List.getElem?_append_left (by omega)] at hslot
    exact hnone msg (List.mem_of_getElem? hslot) hwaits
  have hposition : q.ledger.letter before.length = some oldest := by
    rw [Ledger.letter_eq_some, hledger, List.getElem?_append_right (Nat.le_refl _)]
    simp
  have hsettled : oldest.id ∈ loadAckedIds (cmdStopHook dateParse recipientKey q now).acks := by
    refine (mem_acks_cmdStopHook).mpr (.inr ⟨oldest, ?_, rfl⟩)
    rw [hbatch]
    exact List.mem_cons_self
  apply Finset.card_lt_card
  refine (Finset.ssubset_iff_of_subset ?_).mpr ⟨before.length, ?_, ?_⟩
  · exact (step_grows (e := .stopHook now) rfl).unsettled (Ledger.letter_lt hletter)
  · exact (mem_unsettled).mpr ⟨by omega, oldest, hposition, hoff.2.2.1⟩
  · intro hpos
    obtain ⟨-, other, hother, hid⟩ := (mem_unsettled).mp hpos
    obtain rfl := Option.some.inj (hposition.symm.trans hother)
    exact hid hsettled

/-- As long as a letter is not acked, each pass at which it is due settles one before it. -/
theorem run_settles (hrun : run (step dateParse recipientKey) q events = some t)
    (hletter : q.ledger.letter idx = some msg)
    (htarget : ∃ peer, msg.target = .managed peer ∧ managedPeerKey peer = recipientKey)
    (hcond : isConditional msg = true) (hid : msg.id ∉ loadAckedIds t.acks) :
    (unsettled t idx).card + duePasses dateParse msg events ≤ (unsettled q idx).card := by
  induction events generalizing q with
  | nil =>
    obtain rfl := Option.some.inj hrun
    simp [duePasses]
  | cons e events ih =>
    obtain ⟨m, hstep, hrest⟩ := run_cons.mp hrun
    have hgrows := step_grows hstep
    have htail := ih hrest (hgrows.letter hletter)
    have hsub := Finset.card_le_card (hgrows.unsettled (Ledger.letter_lt hletter))
    have hcount : duePasses dateParse msg (e :: events) =
        duePasses dateParse msg events + if isDuePass dateParse msg e then 1 else 0 :=
      List.countP_cons
    rw [hcount]
    split
    · next hdue =>
      cases e with
      | append more => cases hdue
      | acked rows => cases hdue
      | stopHook now =>
        obtain rfl := Option.some.inj hstep
        have hunacked : msg.id ∉ loadAckedIds q.acks := fun hold =>
          hid ((hgrows.trans (run_grows hrest)).acked_subset hold)
        have hless := cmdStopHook_settles hletter ⟨htarget, hcond, hunacked, hdue⟩
        omega
    · omega

/-- Where no other writer acks an id, the pass that acked it handed over a letter under it. -/
theorem run_returns (hrun : run (step dateParse recipientKey) q events = some t)
    (hothers : ∀ rows, .acked rows ∈ events → ∀ row ∈ rows, row.id ≠ id)
    (hbefore : id ∉ loadAckedIds q.acks) (hafter : id ∈ loadAckedIds t.acks) :
    ∃ now m, .stopHook now ∈ events ∧ Grows q m ∧ id ∉ loadAckedIds m.acks ∧
      Grows (cmdStopHook dateParse recipientKey m now) t ∧
      ∃ msg ∈ coalesce dateParse m.ledger recipientKey (loadAckedIds m.acks) now, msg.id = id := by
  induction events generalizing q with
  | nil =>
    obtain rfl := Option.some.inj hrun
    exact absurd hafter hbefore
  | cons e events ih =>
    obtain ⟨m, hstep, hrest⟩ := run_cons.mp hrun
    have hgrows := step_grows hstep
    have hothers' : ∀ rows, .acked rows ∈ events → ∀ row ∈ rows, row.id ≠ id :=
      fun rows hmem => hothers rows (List.mem_cons_of_mem e hmem)
    by_cases hmid : id ∈ loadAckedIds m.acks
    · cases e with
      | append more =>
        obtain rfl := Option.some.inj hstep
        exact absurd hmid hbefore
      | acked rows =>
        obtain rfl := Option.some.inj hstep
        obtain ⟨row, hrow, hid⟩ := mem_loadAckedIds.mp hmid
        rcases List.mem_append.mp hrow with hold | hnew
        · exact absurd (mem_loadAckedIds.mpr ⟨row, hold, hid⟩) hbefore
        · exact absurd hid (hothers rows List.mem_cons_self row hnew)
      | stopHook now =>
        obtain rfl := Option.some.inj hstep
        rcases (mem_acks_cmdStopHook).mp hmid with hold | hreturned
        · exact absurd hold hbefore
        · exact ⟨now, q, List.mem_cons_self, Grows.refl q, hbefore, run_grows hrest, hreturned⟩
    · obtain ⟨now, m', hmem, hgrows', hrest'⟩ := ih hrest hothers' hmid
      exact ⟨now, m', List.mem_cons_of_mem _ hmem, hgrows.trans hgrows', hrest'⟩

theorem waiting_letter_is_settled (hrun : run (step dateParse recipientKey) q events = some t)
    (hletter : q.ledger.letter idx = some msg)
    (htarget : ∃ peer, msg.target = .managed peer ∧ managedPeerKey peer = recipientKey)
    (hcond : isConditional msg = true) (hpasses : idx < duePasses dateParse msg events) :
    msg.id ∈ loadAckedIds t.acks := by
  by_contra hun
  have hsettles := run_settles hrun hletter htarget hcond hun
  have hle := card_unsettled_le q idx
  have hself : idx ∈ unsettled t idx :=
    (mem_unsettled).mpr ⟨Nat.lt_succ_self idx, msg, (run_grows hrun).letter hletter, hun⟩
  have hpos := Finset.card_pos.mpr ⟨idx, hself⟩
  omega

/-- The settled letter was handed over, where the clock does not run back or nobody else carries
its id. -/
theorem waiting_letter_is_returned {acks : AckLog}
    (hrun : run (step dateParse recipientKey) ⟨ledger, acks, []⟩ events = some t)
    (hletter : ledger.letter idx = some msg)
    (htarget : ∃ peer, msg.target = .managed peer ∧ managedPeerKey peer = recipientKey)
    (hcond : isConditional msg = true) (hid : msg.id ∉ loadAckedIds acks)
    (hothers : ∀ rows, .acked rows ∈ events → ∀ row ∈ rows, row.id ≠ msg.id)
    (hpasses : idx < duePasses dateParse msg events)
    (hclock : (∀ now, .stopHook now ∈ events → isDue dateParse msg now = true) ∨
      ∀ other, some other ∈ t.ledger → other.id = msg.id → other = msg) :
    msg ∈ t.returned := by
  have hacked := waiting_letter_is_settled hrun hletter htarget hcond hpasses
  obtain ⟨now, m, hmem, hbefore, hun, hafter, other, hother, hsame⟩  :=
    run_returns hrun hothers hid hacked
  obtain ⟨more, hreturned⟩ := hafter.returned
  suffices hbatch : msg ∈ coalesce dateParse m.ledger recipientKey (loadAckedIds m.acks) now by
    rw [hreturned]
    exact List.mem_append_left _ (List.mem_append_right _ hbatch)
  obtain ⟨hwaiting, hfits⟩ := mem_coalesce.mp hother
  rcases hclock with hclock | hown
  · have hslot := Ledger.letter_eq_some.mp (hbefore.letter hletter)
    refine mem_coalesce.mpr ⟨(mem_waitingFor_iff).mpr ⟨List.mem_of_getElem? hslot, ?_⟩, hsame ▸ hfits⟩
    exact ⟨htarget, hcond, hun, hclock now hmem⟩
  · obtain ⟨later, hledger⟩ := hafter.ledger
    have hin : some other ∈ t.ledger := by
      rw [hledger]
      exact List.mem_append_left _ ((mem_waitingFor_iff).mp hwaiting).1
    exact hown other hin hsame ▸ hother

end

/-- What one batch is, for any ledger, recipient, ack set and clock. -/
structure BatchLaws (dateParse : String → Option Int) (recipientKey : String) (ledger : Ledger)
    (acked : Finset String) (now : Int) (batch : List ChatMessage) : Prop where
  ordered : batch.Sublist ledger.reduceOption
  waiting : ∀ msg ∈ batch, Waits dateParse recipientKey acked now msg
  oldest : ∀ msg, some msg ∈ ledger → Waits dateParse recipientKey acked now msg →
    ∃ oldest rest, IsOldest dateParse recipientKey ledger acked now oldest ∧ batch = oldest :: rest
  bounded : DistinctIds dateParse recipientKey ledger acked now →
    batch.length ≤ 8 ∧ (batch.length ≤ 1 ∨ bodyBytes batch ≤ 16000)
  personFirst : DistinctIds dateParse recipientKey ledger acked now →
    ∀ msg ∈ batch, fromPerson msg = false →
      ¬ IsOldest dateParse recipientKey ledger acked now msg →
      ∀ person, some person ∈ ledger → Waits dateParse recipientKey acked now person →
        fromPerson person = true → person ∈ batch

theorem coalesce_batchLaws (dateParse : String → Option Int) (recipientKey : String)
    (ledger : Ledger) (acked : Finset String) (now : Int) :
    BatchLaws dateParse recipientKey ledger acked now
      (coalesce dateParse ledger recipientKey acked now) where
  ordered := (coalesce_sublist).trans waitingFor_sublist
  waiting msg hmsg := ((mem_waitingFor_iff).mp ((coalesce_sublist).subset hmsg)).2
  oldest msg hmem hwaits := by
    obtain ⟨oldest, holdest⟩ := exists_isOldest hmem hwaits
    obtain ⟨rest, hbatch⟩ := holdest.travels
    exact ⟨oldest, rest, holdest, hbatch⟩
  bounded := coalesce_bounded
  personFirst hdistinct msg hmsg hagent hlater person hperson hwaits hfrom :=
    coalesce_person_first hdistinct hmsg hagent hlater hperson hwaits hfrom

/-- Every batch keeps the laws, and draining hands over every waiting letter. -/
theorem coalesce_laws (dateParse : String → Option Int) (recipientKey : String) (ledger : Ledger) :
    (∀ acked now, BatchLaws dateParse recipientKey ledger acked now
      (coalesce dateParse ledger recipientKey acked now)) ∧
    ∀ acks events t, run (step dateParse recipientKey) ⟨ledger, acks, []⟩ events = some t →
      ∀ idx msg, ledger.letter idx = some msg →
        (∃ peer, msg.target = .managed peer ∧ managedPeerKey peer = recipientKey) →
        isConditional msg = true → msg.id ∉ loadAckedIds acks →
        (∀ rows, .acked rows ∈ events → ∀ row ∈ rows, row.id ≠ msg.id) →
        idx < duePasses dateParse msg events →
        ((∀ now, .stopHook now ∈ events → isDue dateParse msg now = true) ∨
          ∀ other, some other ∈ t.ledger → other.id = msg.id → other = msg) →
        msg ∈ t.returned := by
  refine ⟨coalesce_batchLaws dateParse recipientKey ledger, ?_⟩
  intro acks events t hrun idx msg hletter htarget hcond hid hothers hpasses hclock
  exact waiting_letter_is_returned hrun hletter htarget hcond hid hothers hpasses hclock

def reviewer : ManagedPeer := ⟨"host", .claude, "reviewer", "t1"⟩

def waitingLetter (id : String) (origin : Option MessageOrigin) : ChatMessage :=
  { id, ts := "2026-01-01T00:00:00Z", sender := .cli "host", target := .managed reviewer, origin,
    body := "note", defer := true }

/-- A person writes behind nine letters of agents. -/
def busyLedger : Ledger :=
  ["a", "b", "c", "d", "e", "f", "g", "h", "i"].map (fun id => some (waitingLetter id none)) ++
    [some (waitingLetter "p" (some ⟨.service, .human, .applicationAttested, none⟩))]

/-- Ten passes; after the first a further letter arrives and another one is cancelled. -/
def busyEvents : List Event :=
  .stopHook 0 :: .append [some (waitingLetter "q" none)] :: .acked [⟨"h", .cancel⟩] ::
    [1, 2, 3, 4, 5, 6, 7, 8, 9].map .stopHook

theorem coalesce_laws_busy :
    BatchLaws (fun _ => none) (managedPeerKey reviewer) busyLedger ∅ 0
        (coalesce (fun _ => none) busyLedger (managedPeerKey reviewer) ∅ 0) ∧
      ∃ t, run (step (fun _ => none) (managedPeerKey reviewer)) ⟨busyLedger, [], []⟩ busyEvents =
          some t ∧ waitingLetter "i" none ∈ t.returned := by
  obtain ⟨hlaws, hdrain⟩ := coalesce_laws (fun _ => none) (managedPeerKey reviewer) busyLedger
  refine ⟨hlaws ∅ 0, _, rfl, ?_⟩
  exact hdrain [] busyEvents _ rfl 8 (waitingLetter "i" none) rfl ⟨reviewer, rfl, rfl⟩ rfl
    (by decide) (by simp [busyEvents, waitingLetter]) (by decide) (.inl fun _ _ => rfl)

/-- One id in nine slots counts as one selected letter. -/
theorem repeated_id_passes_the_bound :
    ¬ ∀ (ledger : Ledger) (acked : Finset String) (now : Int),
      (coalesce (fun _ => none) ledger (managedPeerKey reviewer) acked now).length ≤ 8 := by
  intro hbound
  have hnine := hbound (List.replicate 9 (some (waitingLetter "a" none))) ∅ 0
  revert hnine
  decide

end Ccmux.Chat.CoalesceRun
