/- Module: Ccmux/Chat/Rebuild
   source: src/chat/cursors.ts (armedCursors, loadCursors), src/chat/deliver.ts,
   src/chat/deliverApp.ts, src/chat/nativeRuntime.ts, src/chat/telegram.ts
   digest: After a rebuild of the cursors no track replays the immediate mail it stands past. -/

import Ccmux.Chat.Tracks

namespace Ccmux.Chat.Rebuild

open Ccmux.Lib.Machine
open Ccmux.Chat.Identity
open Ccmux.Chat.Message
open Ccmux.Chat.Settlement
open Ccmux.Chat.Coalesce
open Ccmux.Chat.TurnProgress
open Ccmux.Chat.NativeRuntime
open Ccmux.Chat.NativeRun (UniqueIds)
open Ccmux.Chat.Tracks
open Ccmux.Runtime.Input (RuntimeInput)

/-- An immediate letter the ledger held when the cursors were rebuilt. -/
def OldAt (old : Ledger) (idx : Nat) (msg : ChatMessage) : Prop :=
  old.letter idx = some msg ∧ isConditional msg = false

def Old (old : Ledger) (msg : ChatMessage) : Prop := ∃ idx, OldAt old idx msg

section
variable (machine : String) (native : ManagedPeer → Bool) (old : Ledger)

/-- Every cursor of this machine's sessions stands past the old immediate mail, no pickup names
such a letter, and the mirror starts after it. -/
structure StandsPast (cursors : ChatCursors) : Prop where
  delivered : ∀ idx msg peer, peer.machine = machine → OldAt old idx msg →
    chatTargetKey msg.target = managedPeerKey peer →
    idx < position cursors.delivered (managedPeerKey peer)
  pickups : ∀ peer pickup, peer.machine = machine →
    cursors.pickups (managedPeerKey peer) = some pickup →
    ∀ msg, Old old msg → msg.id ≠ pickup.messageId
  telegram : ∀ at_, cursors.telegram = some at_ → old.length ≤ at_

/-- A pass's ledger snapshot reaches past every old immediate letter of a pane of this machine. -/
def Reaches (snapshot : Ledger) : Prop :=
  ∀ idx msg peer, peer.machine = machine → native peer = false → OldAt old idx msg →
    chatTargetKey msg.target = managedPeerKey peer → idx < snapshot.length

/-- Nothing old is addressed to a Codex App thread of this machine. -/
def NoAppMail : Prop :=
  ∀ msg peer, Old old msg → msg.target = .codexApp peer → peer.machine ≠ machine

/-- The world right after `loadCursors` found no file and persisted the rebuilt one. -/
structure Rebuilt (w : World) : Prop where
  ledger : w.ledger = old
  file : w.file = Cursors.loadCursors none old
  handed : w.handed = []
  mirrored : w.mirrored = []
  unique : UniqueIds old
  snapshot : ∀ ledger startAcks, w.pass = some (.starting ledger startAcks) → ledger <+: old
  loaded : ∀ run, w.pass = some (.running run) → run.ledger <+: old

/-- No old immediate letter is a Codex App thread's, and a pass under way at the rebuild reaches past
the old mail of the panes; the cursors it holds, if it has loaded them, stand past the old mail. -/
structure Spared (w : World) : Prop where
  noApp : NoAppMail machine old
  starting : ∀ ledger startAcks, w.pass = some (.starting ledger startAcks) →
    Reaches machine native old ledger
  running : ∀ run, w.pass = some (.running run) →
    Reaches machine native old run.ledger ∧ StandsPast machine old run.cursors

/-- What a pass knows while it runs: its snapshot is a beginning of the ledger, as the old ledger
is, it reaches past the old mail, and its cursors stand past it. -/
structure Secure (ledger : Ledger) (run : Running) : Prop where
  unique : UniqueIds ledger
  grown : old <+: ledger
  snapshot : run.ledger <+: ledger
  reaches : Reaches machine native old run.ledger
  past : StandsPast machine old run.cursors

variable {machine native old}

theorem letter_grown {ledger grown : Ledger} {idx : Nat} {msg : ChatMessage}
    (h : ledger <+: grown) (hletter : ledger.letter idx = some msg) :
    grown.letter idx = some msg := by
  obtain ⟨more, rfl⟩ := h
  exact Ledger.letter_append more hletter

theorem Secure.same_letter {ledger : Ledger} {run : Running} {idx place : Nat}
    {msg other : ChatMessage} (hs : Secure machine native old ledger run)
    (hletter : run.ledger.letter idx = some msg) (hold : OldAt old place other)
    (hid : other.id = msg.id) : place = idx ∧ other = msg := by
  have hmsg := letter_grown hs.snapshot hletter
  have hother := letter_grown hs.grown hold.1
  have hplace := hs.unique place idx other msg hother hmsg hid
  subst hplace
  rw [hother] at hmsg
  exact ⟨rfl, Option.some.inj hmsg⟩

theorem Secure.conditional_new {ledger : Ledger} {run : Running} {idx : Nat} {msg : ChatMessage}
    (hs : Secure machine native old ledger run) (hletter : run.ledger.letter idx = some msg)
    (hcond : isConditional msg = true) (other : ChatMessage) (hold : Old old other) :
    other.id ≠ msg.id := by
  intro hid
  obtain ⟨place, hplace⟩ := hold
  obtain ⟨_, rfl⟩ := hs.same_letter hletter hplace hid
  rw [hplace.2] at hcond
  cases hcond

theorem StandsPast.save {cursors : ChatCursors} (fresh : ChatCursors)
    (h : StandsPast machine old cursors) :
    StandsPast machine old (Cursors.saveCursors fresh cursors) :=
  ⟨h.delivered, h.pickups, h.telegram⟩

theorem StandsPast.mark {cursors : ChatCursors} (key : String) (len : Nat)
    (h : StandsPast machine old cursors) :
    StandsPast machine old (Cursors.markRead cursors key len) :=
  ⟨h.delivered, h.pickups, h.telegram⟩

theorem StandsPast.read {cursors : ChatCursors} (read : String → Option Nat)
    (h : StandsPast machine old cursors) : StandsPast machine old { cursors with read } :=
  ⟨h.delivered, h.pickups, h.telegram⟩

theorem StandsPast.move {cursors : ChatCursors} {key : String} {at_ : Nat}
    (h : StandsPast machine old cursors)
    (hpast : ∀ idx msg peer, peer.machine = machine → managedPeerKey peer = key →
      OldAt old idx msg → chatTargetKey msg.target = key → idx < at_) :
    StandsPast machine old
      { cursors with delivered := assign cursors.delivered key (some at_) } := by
  refine ⟨?_, h.pickups, h.telegram⟩
  intro idx msg peer hpeer hold htarget
  by_cases hkey : managedPeerKey peer = key
  · rw [hkey] at htarget ⊢
    simpa using hpast idx msg peer hpeer hkey hold htarget
  · have hsame := h.delivered idx msg peer hpeer hold htarget
    simpa [position, assign_of_ne _ _ hkey] using hsame

theorem StandsPast.forward {cursors : ChatCursors} {key : String} {at_ : Nat}
    (h : StandsPast machine old cursors) (hle : position cursors.delivered key ≤ at_) :
    StandsPast machine old
      { cursors with delivered := assign cursors.delivered key (some at_) } := by
  apply h.move
  intro idx msg peer hpeer hkey hold htarget
  rw [← hkey] at htarget hle
  exact (h.delivered idx msg peer hpeer hold htarget).trans_le hle

theorem StandsPast.advance {cursors : ChatCursors} {key : String} {idx : Nat}
    (h : StandsPast machine old cursors) (hle : position cursors.delivered key ≤ idx) :
    StandsPast machine old (advancePast cursors key idx) := by
  have hnext : position cursors.delivered key ≤ idx + 1 := by omega
  exact (h.forward hnext).read _

theorem StandsPast.arm {cursors : ChatCursors} {key : String} (pickup : Pickup)
    (h : StandsPast machine old cursors)
    (hnew : ∀ peer, peer.machine = machine → managedPeerKey peer = key →
      ∀ msg, Old old msg → msg.id ≠ pickup.messageId) :
    StandsPast machine old
      { cursors with pickups := assign cursors.pickups key (some pickup) } := by
  refine ⟨h.delivered, ?_, h.telegram⟩
  intro peer other hpeer hpickup
  by_cases hkey : managedPeerKey peer = key
  · rw [hkey] at hpickup
    have hsame : pickup = other := by simpa using hpickup
    rw [← hsame]
    exact hnew peer hpeer hkey
  · have hkept : cursors.pickups (managedPeerKey peer) = some other := by
      simpa [assign_of_ne _ _ hkey] using hpickup
    exact h.pickups peer other hpeer hkept

theorem StandsPast.drop {cursors : ChatCursors} {key : String}
    (h : StandsPast machine old cursors) :
    StandsPast machine old { cursors with pickups := assign cursors.pickups key none } := by
  refine ⟨h.delivered, ?_, h.telegram⟩
  intro peer other hpeer hpickup
  by_cases hkey : managedPeerKey peer = key
  · simp [hkey] at hpickup
  · have hkept : cursors.pickups (managedPeerKey peer) = some other := by
      simpa [assign_of_ne _ _ hkey] using hpickup
    exact h.pickups peer other hpeer hkept

section
variable {dateParse : String → Option Int}

theorem Secure.pick_new {ledger : Ledger} {run : Running} {cursors : ChatCursors}
    {peer : ManagedPeer} {acked : Finset String} {now : Int} {pick : Pick}
    (hs : Secure machine native old ledger run) (hpast : StandsPast machine old cursors)
    (hpeer : peer.machine = machine)
    (hpick : (pickPendingDelivery dateParse run.ledger (managedPeerKey peer)
      (position cursors.delivered (managedPeerKey peer)) acked now).1 = some pick)
    (msg : ChatMessage) (hold : Old old msg) : msg.id ≠ pick.msg.id := by
  obtain ⟨hletter, hkey⟩ := pickPendingDelivery_letter dateParse hpick
  by_cases hcond : isConditional pick.msg = true
  · exact hs.conditional_new hletter hcond msg hold
  · intro hid
    obtain ⟨place, hplace⟩ := hold
    obtain ⟨rfl, rfl⟩ := hs.same_letter hletter hplace hid
    have hlt := hpast.delivered pick.idx pick.msg peer hpeer hplace hkey
    have hge := pickPendingDelivery_immediate dateParse hpick (by simpa using hcond)
    omega

theorem Secure.caught {ledger : Ledger} {run : Running} {cursors : ChatCursors}
    {peer : ManagedPeer} (hs : Secure machine native old ledger run)
    (hpast : StandsPast machine old cursors) (hpeer : peer.machine = machine)
    (hpane : native peer = false) :
    StandsPast machine old (nextDelivery dateParse run.ledger (managedPeerKey peer) cursors
      run.acked run.now).2.1 := by
  apply hpast.move
  intro idx msg other hother hkey hold htarget
  rw [← hkey] at htarget
  have hbehind := hpast.delivered idx msg other hother hold htarget
  rw [hkey] at hbehind htarget
  rcases pickPendingDelivery_cases dateParse run.ledger (managedPeerKey peer)
      (position cursors.delivered (managedPeerKey peer)) run.acked run.now with
    ⟨pick, heq, hle, _⟩ | ⟨hend, _⟩
  · rw [heq]
    exact hbehind.trans_le hle
  · rw [hend]
    exact hs.reaches idx msg peer hpeer hpane hold htarget

theorem StandsPast.armPickup {cursors : ChatCursors} {key : String} {pick : Pick} {at_ : Int}
    {line : Option Nat} {mark : Option NativePickup} (h : StandsPast machine old cursors)
    (hnew : ∀ peer, peer.machine = machine → managedPeerKey peer = key →
      ∀ msg, Old old msg → msg.id ≠ pick.msg.id)
    (hle : isConditional pick.msg = false → position cursors.delivered key ≤ pick.idx) :
    StandsPast machine old (armPickup cursors key pick at_ line mark) := by
  have harmed := h.arm
    { messageId := pick.msg.id, injectedAt := at_, ledgerIndex := some pick.idx,
      conditional := isConditional pick.msg, transcriptLine := line, native := mark } hnew
  unfold TurnProgress.armPickup
  by_cases hcond : isConditional pick.msg = true
  · rw [if_pos hcond]
    exact harmed
  · rw [if_neg hcond]
    exact harmed.advance (hle (by simpa using hcond))

theorem StandsPast.finishPickup {cursors closed : ChatCursors} {key : String} {rows : AckLog}
    (h : StandsPast machine old cursors)
    (hfinish : finishPickup cursors key = some (rows, closed)) :
    StandsPast machine old closed := by
  obtain ⟨pickup, _, hshape⟩ := Option.map_eq_some_iff.mp hfinish
  obtain ⟨_, rfl⟩ := Prod.mk.inj hshape
  apply StandsPast.drop
  split
  · exact (h.forward (le_max_left _ _)).read _
  · exact h

/-- An effect that keeps only cursors that stand past the old mail and hands over none of it. -/
def Safe (machine : String) (old : Ledger) : Effect → Prop
  | .remember cursors => StandsPast machine old cursors
  | .hand letters => ∀ msg ∈ letters, ¬ Old old msg
  | .queue _ msg _ => ¬ Old old msg
  | _ => True

def Harmless (machine : String) (old : Ledger) (effects : List Effect) : Prop :=
  ∀ effect ∈ effects, Safe machine old effect

@[simp] theorem harmless_nil : Harmless machine old [] := by
  simp [Harmless]

@[simp] theorem harmless_cons {effect : Effect} {rest : List Effect} :
    Harmless machine old (effect :: rest) ↔
      Safe machine old effect ∧ Harmless machine old rest := by
  simp [Harmless]

@[simp] theorem harmless_append {left right : List Effect} :
    Harmless machine old (left ++ right) ↔
      Harmless machine old left ∧ Harmless machine old right := by
  simp only [Harmless, List.mem_append]
  constructor
  · intro h
    exact ⟨fun effect hmem => h effect (Or.inl hmem), fun effect hmem => h effect (Or.inr hmem)⟩
  · intro ⟨hleft, hright⟩ effect hmem
    rcases hmem with hmem | hmem
    · exact hleft effect hmem
    · exact hright effect hmem

@[simp] theorem harmless_acks {α : Type} (id : α → String) (rows : List α) :
    Harmless machine old (rows.map fun row => Effect.ack (id row)) := by
  intro effect hmem
  obtain ⟨row, _, rfl⟩ := List.mem_map.mp hmem
  trivial

theorem Harmless.catching {next : Option Pick × ChatCursors × Bool}
    (h : StandsPast machine old next.2.1) : Harmless machine old (catching next) := by
  unfold Tracks.catching
  split
  · simp only [harmless_cons, harmless_nil]
    exact ⟨h, trivial, trivial⟩
  · simp only [harmless_cons, harmless_nil]
    exact ⟨h, trivial⟩

theorem Harmless.finishing {cursors : ChatCursors} {key : String}
    (h : StandsPast machine old cursors) :
    Harmless machine old (finishing cursors key).1 ∧
      StandsPast machine old (finishing cursors key).2 := by
  unfold Tracks.finishing
  split
  · exact ⟨harmless_nil, h⟩
  · next rows closed hfinish =>
    have hclosed := h.finishPickup hfinish
    simp only [harmless_append, harmless_acks, harmless_cons, harmless_nil, true_and]
    exact ⟨⟨hclosed, trivial, trivial⟩, hclosed⟩

theorem not_old {msg : ChatMessage} (h : ∀ other, Old old other → other.id ≠ msg.id) :
    ¬ Old old msg :=
  fun hold => h msg hold rfl

theorem not_old_conditional {msg : ChatMessage} (hcond : isConditional msg = true) :
    ¬ Old old msg := by
  intro hold
  obtain ⟨idx, _, himm⟩ := hold
  rw [himm] at hcond
  cases hcond

theorem Secure.retryPane {ledger : Ledger} {run : Running} {peer : ManagedPeer} {pickup : Pickup}
    {env : PaneEnv} (hs : Secure machine native old ledger run) (hpeer : peer.machine = machine)
    (hpickup : run.cursors.pickups (managedPeerKey peer) = some pickup) :
    Harmless machine old (retryPane run pickup env) := by
  unfold Tracks.retryPane
  split
  · simp
  · split
    · simp
    · next msg hfound =>
      split
      · simp only [harmless_cons, harmless_nil, and_true]
        intro other hmem
        have hsame : other = msg := by simpa using hmem
        rw [hsame]
        apply not_old
        rw [(findLetter_some hfound).1]
        exact hs.past.pickups peer pickup hpeer hpickup
      · simp

theorem caught_at {slots : Ledger} {cursors : ChatCursors} {key : String} {acked : Finset String}
    {now : Int} {pick : Pick}
    (hpick : (nextDelivery dateParse slots key cursors acked now).1 = some pick)
    (himm : isConditional pick.msg = false) :
    position (nextDelivery dateParse slots key cursors acked now).2.1.delivered key = pick.idx := by
  have hpicked : (pickPendingDelivery dateParse slots key (position cursors.delivered key) acked
      now).1 = some pick := hpick
  simp only [nextDelivery, position_assign_self]
  rcases pickPendingDelivery_cases dateParse slots key (position cursors.delivered key) acked now
    with ⟨found, heq, _⟩ | ⟨_, _, hcond⟩
  · rw [heq] at hpicked ⊢
    rw [Option.some.inj hpicked]
  · have hletter := ((conditionalTo_iff dateParse).mp (hcond pick hpicked).2).2.1
    rw [himm] at hletter
    cases hletter

theorem StandsPast.typePane {run : Running} {key : String} {env : PaneEnv} {caught : ChatCursors}
    {pick : Pick} (hcaught : StandsPast machine old caught)
    (hnew : ∀ msg, Old old msg → msg.id ≠ pick.msg.id)
    (hle : isConditional pick.msg = false → position caught.delivered key ≤ pick.idx) :
    Harmless machine old (typePane dateParse run key env caught pick) := by
  have harmed (line : Option Nat) :
      StandsPast machine old (TurnProgress.armPickup caught key pick run.now line none) :=
    hcaught.armPickup (fun _ _ _ => hnew) hle
  have hhand : Safe machine old (.hand [pick.msg]) := by
    intro msg hmem
    have hsame : msg = pick.msg := by simpa using hmem
    rw [hsame]
    exact not_old hnew
  unfold Tracks.typePane
  split
  · cases env.typing with
    | held => simp
    | lost =>
      simp only [harmless_cons, harmless_nil]
      exact ⟨harmed _, trivial, trivial⟩
    | typed =>
      simp only [harmless_cons, harmless_nil]
      exact ⟨harmed _, trivial, hhand, trivial, trivial⟩
  · cases env.typing with
    | held | lost => simp
    | typed =>
      by_cases hcond : isConditional pick.msg = true
      · simp only [if_pos hcond, harmless_cons, harmless_append, harmless_acks, harmless_nil]
        refine ⟨?_, trivial, trivial, trivial⟩
        intro msg hmem
        have hwaiting := (mem_coalesce.mp hmem).1
        exact not_old_conditional (isWaiting_iff.mp (mem_waitingFor.mp hwaiting).2).2.1
      · simp only [if_neg hcond, harmless_cons, harmless_nil]
        exact ⟨hhand, hcaught.advance (hle (by simpa using hcond)), trivial, trivial⟩

theorem Secure.freshPane {ledger : Ledger} {run : Running} {acks : AckLog} {cursors : ChatCursors}
    {peer : ManagedPeer} {env : PaneEnv} (hs : Secure machine native old ledger run)
    (hpast : StandsPast machine old cursors) (hpeer : peer.machine = machine)
    (hpane : native peer = false) :
    Harmless machine old (freshPane dateParse run acks cursors (managedPeerKey peer) env) := by
  have hcaught : StandsPast machine old (nextDelivery dateParse run.ledger (managedPeerKey peer)
      cursors run.acked run.now).2.1 := hs.caught hpast hpeer hpane
  simp only [Tracks.freshPane, harmless_append]
  refine ⟨Harmless.catching hcaught, ?_⟩
  split
  · simp
  · next pick hpick =>
    split
    · simp
    · apply hcaught.typePane
      · exact hs.pick_new hpast hpeer hpick
      · intro himm
        exact (caught_at hpick himm).le

theorem Secure.visitPane {ledger : Ledger} {run : Running} {acks : AckLog} {peer : ManagedPeer}
    {env : PaneEnv} (hs : Secure machine native old ledger run) (hpeer : peer.machine = machine)
    (hpane : native peer = false) :
    Harmless machine old (visitPane dateParse run acks (managedPeerKey peer) env) := by
  unfold Tracks.visitPane
  split
  · next pickup _ hpickup =>
    split
    · exact hs.retryPane hpeer hpickup
    · split
      · simp
      · obtain ⟨hending, hclosed⟩ := Harmless.finishing hs.past
        simp only [harmless_append, harmless_cons]
        exact ⟨hending, trivial, hs.freshPane hclosed hpeer hpane⟩
  · exact hs.freshPane hs.past hpeer hpane

theorem nativeEffects_harmless {key : String} {letter : Option ChatMessage} {actions : List Action}
    (hkept : ∀ cursors, .remember cursors ∈ actions → StandsPast machine old cursors)
    (hwritten : ∀ msg input, letter = some msg → .writeInput input ∈ actions → ¬ Old old msg) :
    Harmless machine old (nativeEffects key letter actions) := by
  induction actions with
  | nil => simp [nativeEffects]
  | cons action rest ih =>
    have hrest : Harmless machine old (nativeEffects key letter rest) := by
      apply ih
      · intro cursors hmem
        exact hkept cursors (List.mem_cons_of_mem _ hmem)
      · intro msg input hletter hmem
        exact hwritten msg input hletter (List.mem_cons_of_mem _ hmem)
    cases action with
    | remember cursors =>
      simp only [nativeEffects, harmless_cons]
      exact ⟨hkept cursors List.mem_cons_self, hrest⟩
    | appendAck id =>
      simp only [nativeEffects, harmless_cons]
      exact ⟨trivial, hrest⟩
    | saveCursors =>
      simp only [nativeEffects, harmless_cons]
      exact ⟨trivial, hrest⟩
    | writeInput input =>
      simp only [nativeEffects]
      split
      · split
        · simp only [harmless_cons]
          exact ⟨hwritten _ input rfl List.mem_cons_self, hrest⟩
        · simp
      · simp
    | refuse _ => simp [nativeEffects]
    | journal _ _ _ _ | hold _ _ | clearHold => exact hrest

/-- The cursors a native pass keeps: the pickup bound or gone, or the pick armed. -/
theorem Secure.nativeKept {ledger : Ledger} {run : Running} {peer : ManagedPeer} {env : PassEnv}
    {mailbox : Option RuntimeInput} {cursors : ChatCursors}
    (hs : Secure machine native old ledger run) (hpeer : peer.machine = machine)
    (hmem : .remember cursors ∈ (deliverLocked dateParse env (managedPeerKey peer) run.ledger
      run.cursors run.acked mailbox).1) : StandsPast machine old cursors := by
  rcases deliverLocked_cases dateParse env (managedPeerKey peer) run.ledger run.cursors run.acked
      mailbox with
    hquiet | ⟨snapshot, pickup, _, _, heq⟩ |
    ⟨snapshot, pickup, input, hpickup, _, _, _, heq⟩ | ⟨pick, _, hpick, heq⟩
  · rcases hquiet with hnil | ⟨_, _, hhold⟩ | ⟨_, hrefuse⟩
    · simp [hnil] at hmem
    · simp [hhold] at hmem
    · simp [hrefuse] at hmem
  · rw [heq] at hmem
    rcases repair_cases env snapshot run.ledger pickup mailbox with
      ⟨_, hhold⟩ | ⟨_, _, _, _, _, hwrite⟩
    · simp [hhold] at hmem
    · simp [hwrite] at hmem
  · rw [heq] at hmem
    have hbound : StandsPast machine old (bindPickup run.cursors (managedPeerKey peer) pickup
        (Ccmux.Runtime.Input.inputTurnId input)) := by
      apply hs.past.arm
      intro other hother hkey
      rw [← hkey] at hpickup
      exact hs.past.pickups other pickup hother hpickup
    rcases settleAccepted_remembers hmem with hbind | hdrop
    · rw [hbind]
      exact hbound
    · rw [hdrop]
      exact hbound.drop
  · rw [heq] at hmem
    have hsame : cursors = TurnProgress.armPickup run.cursors (managedPeerKey peer) pick env.now
        none (some ⟨.intent, none⟩) := by
      simpa [dispatch] using hmem
    rw [hsame]
    apply hs.past.armPickup
    · intro _ _ _
      exact hs.pick_new hs.past hpeer hpick
    · exact pickPendingDelivery_immediate dateParse hpick

theorem Secure.nativeWritten {ledger : Ledger} {run : Running} {peer : ManagedPeer}
    {env : PassEnv} {mailbox : Option RuntimeInput} {msg : ChatMessage} {input : RuntimeInput}
    (hs : Secure machine native old ledger run) (hpeer : peer.machine = machine)
    (hletter : nativeLetter dateParse run (managedPeerKey peer) = some msg)
    (hmem : .writeInput input ∈ (deliverLocked dateParse env (managedPeerKey peer) run.ledger
      run.cursors run.acked mailbox).1) : ¬ Old old msg := by
  apply not_old
  cases hpickup : run.cursors.pickups (managedPeerKey peer) with
  | some pickup =>
    obtain ⟨snapshot, _, _, _, hrepair⟩ := deliverLocked_pickup hpickup hmem
    obtain ⟨found, hslot, hid, _⟩ := repair_writes hrepair
    have hfound : found = msg := by
      simpa [nativeLetter, hpickup, hslot] using hletter
    rw [← hfound, hid]
    exact hs.past.pickups peer pickup hpeer hpickup
  | none =>
    have hpicked : (pickPendingDelivery dateParse run.ledger (managedPeerKey peer)
        (position run.cursors.delivered (managedPeerKey peer)) run.acked run.now).1.map Pick.msg =
          some msg := by
      simpa [nativeLetter, hpickup] using hletter
    obtain ⟨pick, hpick, rfl⟩ := Option.map_eq_some_iff.mp hpicked
    exact hs.pick_new hs.past hpeer hpick

theorem Secure.visitNative {ledger : Ledger} {run : Running} {peer : ManagedPeer} {env : PassEnv}
    {mailbox : Option RuntimeInput} (hs : Secure machine native old ledger run)
    (hpeer : peer.machine = machine) :
    Harmless machine old (visitNative dateParse run (managedPeerKey peer) env mailbox) := by
  apply nativeEffects_harmless
  · intro cursors hmem
    exact hs.nativeKept hpeer hmem
  · intro msg input hletter hmem
    exact hs.nativeWritten hpeer hletter hmem

theorem NoAppMail.here {msg : ChatMessage} (h : NoAppMail machine old)
    (hhere : addressedHere machine msg = true) : ¬ Old old msg := by
  intro hold
  cases htarget : msg.target with
  | codexApp peer =>
    have hmachine : peer.machine = machine := by simpa [addressedHere, htarget] using hhere
    exact h msg peer hold htarget hmachine
  | managed _ | owner | external _ => simp [addressedHere, htarget] at hhere

theorem NoAppMail.hand {msg : ChatMessage} (h : NoAppMail machine old)
    (hhere : addressedHere machine msg = true) : Safe machine old (.hand [msg]) := by
  intro other hmem
  have hsame : other = msg := by simpa using hmem
  rw [hsame]
  exact h.here hhere

theorem StandsPast.retryApp {run : Running} {key : String} {pickup : Pickup} {env : AppEnv}
    (hpast : StandsPast machine old run.cursors) (hnone : NoAppMail machine old) :
    Harmless machine old (retryApp machine run key pickup env) := by
  have hending : Harmless machine old (finishing run.cursors key).1 := (Harmless.finishing hpast).1
  unfold Tracks.retryApp
  split
  · simp
  · next msg _ =>
    by_cases hhere : addressedHere machine msg = true
    · simp only [hhere, Bool.not_true, Bool.false_eq_true, if_false]
      split
      · exact hending
      · cases env.outcome with
        | held => simp
        | failed submitted => cases submitted <;> simp [hnone.hand hhere]
        | started =>
          simp only [harmless_cons]
          exact ⟨hnone.hand hhere, hending⟩
    · simp [hhere]

theorem StandsPast.freshApp {run : Running} {acks : AckLog} {key : String} {env : AppEnv}
    (hpast : StandsPast machine old run.cursors) (hnone : NoAppMail machine old)
    (hkey : ∀ peer, managedPeerKey peer ≠ key) :
    Harmless machine old (freshApp dateParse machine run acks key env) := by
  have hcaught : StandsPast machine old (nextDelivery dateParse run.ledger key run.cursors
      run.acked run.now).2.1 := by
    apply hpast.move
    intro idx msg peer _ hsame
    exact absurd hsame (hkey peer)
  simp only [Tracks.freshApp, harmless_append]
  refine ⟨Harmless.catching hcaught, ?_⟩
  split
  · simp
  · next pick hpick =>
    split
    · simp
    · have harmed : StandsPast machine old (TurnProgress.armPickup
          (nextDelivery dateParse run.ledger key run.cursors run.acked run.now).2.1 key pick
          run.now none none) := by
        apply hcaught.armPickup
        · intro peer _ hsame
          exact absurd hsame (hkey peer)
        · intro himm
          exact (caught_at hpick himm).le
      simp only [harmless_append, harmless_cons, harmless_nil]
      refine ⟨⟨harmed, trivial, trivial⟩, ?_⟩
      unfold submitApp
      by_cases hhere : addressedHere machine pick.msg = true
      · have hhand : Safe machine old (.hand [pick.msg]) := hnone.hand hhere
        simp only [hhere, Bool.not_true, Bool.false_eq_true, if_false]
        cases env.outcome with
        | held => simp
        | failed submitted => cases submitted <;> simp [hhand]
        | started =>
          simp only [harmless_cons, harmless_append, harmless_nil]
          refine ⟨hhand, ?_, harmed.drop, trivial, trivial⟩
          split
          · simp [Safe]
          · simp
      · simp [hhere]

theorem isAppRecipient_key {slots : Ledger} {key : String}
    (h : isAppRecipient machine slots key = true) (peer : ManagedPeer) :
    managedPeerKey peer ≠ key := by
  obtain ⟨slot, _, hslot⟩ := List.any_eq_true.mp h
  obtain ⟨msg, _, hmsg⟩ := (Option.any_eq_true _ _).mp hslot
  simp only [Bool.and_eq_true, beq_iff_eq] at hmsg
  obtain ⟨hhere, htarget⟩ := hmsg
  rw [← htarget]
  cases hto : msg.target with
  | codexApp app => exact managedPeerKey_ne_codexAppKey peer app
  | managed _ | owner | external _ => simp [addressedHere, hto] at hhere

theorem StandsPast.visitApp {run : Running} {acks : AckLog} {key : String} {env : AppEnv}
    (hpast : StandsPast machine old run.cursors) (hnone : NoAppMail machine old)
    (hkey : ∀ peer, managedPeerKey peer ≠ key) :
    Harmless machine old (visitApp dateParse machine run acks key env) := by
  unfold Tracks.visitApp
  split
  · exact hpast.retryApp hnone
  · exact hpast.freshApp hnone hkey

/-- Every letter the mirror sends stands at or after its start, and its cursor only moves on. -/
theorem mirrorFrom_after {results : Nat → SendResult} {cur : Nat} {slots : Ledger} :
    cur ≤ (mirrorFrom results cur slots).2 ∧
    ∀ msg ∈ (mirrorFrom results cur slots).1, ∃ off, slots.letter off = some msg := by
  induction slots generalizing cur with
  | nil => simp [mirrorFrom]
  | cons slot rest ih =>
    have shifted : ∀ msg ∈ (mirrorFrom results (cur + 1) rest).1,
        ∃ off, Ledger.letter (slot :: rest) off = some msg := by
      intro msg hmem
      obtain ⟨off, hoff⟩ := ih.2 msg hmem
      exact ⟨off + 1, by simpa [Ledger.letter] using hoff⟩
    have hnext : cur ≤ (mirrorFrom results (cur + 1) rest).2 := Nat.le_of_succ_le ih.1
    cases slot with
    | none => exact ⟨hnext, shifted⟩
    | some msg =>
      simp only [mirrorFrom]
      split
      · exact ⟨hnext, shifted⟩
      · split
        · simp
        · exact ⟨hnext, shifted⟩
        · refine ⟨hnext, ?_⟩
          intro other hmem
          rcases List.mem_cons.mp hmem with hfirst | hlater
          · exact ⟨0, by simp [Ledger.letter, hfirst]⟩
          · exact shifted other hlater

end

/-- The files and the record of hand-overs, free of old mail. -/
structure Kept (machine : String) (old : Ledger) (w : World) : Prop where
  unique : UniqueIds w.ledger
  grown : old <+: w.ledger
  file : StandsPast machine old w.file
  handed : ∀ h ∈ w.handed, ¬ Old old h.msg
  mirrored : ∀ msg ∈ w.mirrored, ¬ Old old msg

/-- The invariant of every run after the rebuild. -/
structure Quiet (machine : String) (native : ManagedPeer → Bool) (old : Ledger) (w : World) :
    Prop where
  kept : Kept machine old w
  starting : ∀ ledger startAcks, w.pass = some (.starting ledger startAcks) →
    ledger <+: w.ledger ∧ Reaches machine native old ledger
  running : ∀ run, w.pass = some (.running run) → Secure machine native old w.ledger run

theorem Kept.perform {w : World} {run : Running} {effect : Effect} (hw : Kept machine old w)
    (hpast : StandsPast machine old run.cursors) (hsafe : Safe machine old effect) :
    Kept machine old (perform w run effect).1 ∧
      StandsPast machine old (perform w run effect).2.cursors := by
  cases effect with
  | remember cursors => exact ⟨hw, hsafe⟩
  | changed flag => exact ⟨hw, hpast⟩
  | save => exact ⟨{ hw with file := hpast.save w.file }, hpast⟩
  | ack id => exact ⟨{ hw with }, hpast⟩
  | hand letters =>
    refine ⟨{ hw with handed := ?_ }, hpast⟩
    intro h hmem
    rcases List.mem_append.mp hmem with hold | hnew
    · exact hw.handed h hold
    · obtain ⟨msg, hmsg, rfl⟩ := List.mem_map.mp hnew
      exact hsafe msg hmsg
  | queue key msg input =>
    refine ⟨{ hw with handed := ?_ }, hpast⟩
    intro h hmem
    rcases List.mem_append.mp hmem with hold | hnew
    · exact hw.handed h hold
    · have hsame : h = ⟨msg, run.startAcks⟩ := by simpa using hnew
      rw [hsame]
      exact hsafe

theorem Kept.performAll {w : World} {run : Running} {effects : List Effect}
    (hw : Kept machine old w) (hpast : StandsPast machine old run.cursors)
    (hsafe : Harmless machine old effects) :
    Kept machine old (performAll w run effects).1 ∧
      StandsPast machine old (performAll w run effects).2.cursors := by
  induction effects generalizing w run with
  | nil => exact ⟨hw, hpast⟩
  | cons effect rest ih =>
    obtain ⟨hfirst, hrest⟩ := harmless_cons.mp hsafe
    obtain ⟨hkept, hcursors⟩ := hw.perform hpast hfirst
    exact ih hkept hcursors hrest

theorem Quiet.carryOut {w : World} {run : Running} {effects : List Effect} {stopAfter : Nat}
    {caught : Bool} (hw : Quiet machine native old w) (hpass : w.pass = some (.running run))
    (hsafe : Harmless machine old effects) :
    Quiet machine native old (carryOut w run effects stopAfter caught) := by
  have hs := hw.running run hpass
  have htaken : Harmless machine old (effects.take stopAfter) := by
    intro effect hmem
    exact hsafe effect (List.mem_of_mem_take hmem)
  obtain ⟨hkept, hpast⟩ := hw.kept.performAll hs.past htaken
  obtain ⟨hsnapshot, _, _, hledger, _⟩ := performAll_snapshots w run (effects.take stopAfter)
  unfold Tracks.carryOut
  split
  · refine ⟨⟨hkept.unique, hkept.grown, hkept.file, hkept.handed, hkept.mirrored⟩, by simp, ?_⟩
    intro after hafter
    have hsame : (performAll w run (effects.take stopAfter)).2 = after := by simpa using hafter
    rw [← hsame]
    simp only [hledger]
    exact ⟨hs.unique, hs.grown, by rw [hsnapshot]; exact hs.snapshot,
      by rw [hsnapshot]; exact hs.reaches, hpast⟩
  · exact ⟨⟨hkept.unique, hkept.grown, hkept.file, hkept.handed, hkept.mirrored⟩, by simp, by simp⟩

theorem Kept.saveTelegram {w : World} {at_ : Nat} (hw : Kept machine old w)
    (hle : old.length ≤ at_) (saves : Bool) :
    Kept machine old (w.saveTelegram at_ saves) := by
  unfold World.saveTelegram
  split
  · refine { hw with file := ⟨hw.file.delivered, hw.file.pickups, ?_⟩ }
    intro telegram hsome
    have hsame : at_ = telegram := by simpa [Cursors.saveCursors] using hsome
    omega
  · exact hw

theorem Kept.later_new {w : World} {idx : Nat} {msg : ChatMessage} (hw : Kept machine old w)
    (hle : old.length ≤ idx) (hletter : w.ledger.letter idx = some msg) : ¬ Old old msg := by
  intro hold
  obtain ⟨place, hplace, _⟩ := hold
  have hsame := hw.unique place idx msg msg (letter_grown hw.grown hplace) hletter rfl
  have hlt := Ledger.letter_lt hplace
  omega

theorem Kept.mirror {w : World} {results : Nat → SendResult} {saves : Bool}
    (hw : Kept machine old w) : Kept machine old (mirror w results saves) := by
  have hlength : old.length ≤ w.ledger.length := hw.grown.length_le
  unfold Tracks.mirror
  split
  · exact hw.saveTelegram hlength saves
  · next start hstart =>
    have hle := hw.file.telegram start hstart
    obtain ⟨hstop, hsent⟩ : start ≤ (mirrorFrom results start (w.ledger.drop start)).2 ∧
        ∀ msg ∈ (mirrorFrom results start (w.ledger.drop start)).1,
          ∃ off, Ledger.letter (w.ledger.drop start) off = some msg := mirrorFrom_after
    apply Kept.saveTelegram
    · refine { hw with mirrored := ?_ }
      intro msg hmem
      rcases List.mem_append.mp hmem with hold | hnew
      · exact hw.mirrored msg hold
      · obtain ⟨off, hoff⟩ := hsent msg hnew
        rw [letter_drop] at hoff
        exact hw.later_new (by omega) hoff
    · omega

theorem Secure.grow {ledger grown : Ledger} {run : Running}
    (hs : Secure machine native old ledger run) (hunique : UniqueIds grown)
    (hgrown : ledger <+: grown) : Secure machine native old grown run :=
  { hs with unique := hunique, grown := hs.grown.trans hgrown
            snapshot := hs.snapshot.trans hgrown }

theorem Quiet.send {w : World} {slot : LedgerSlot} (hw : Quiet machine native old w)
    (hnew : isNew w.ledger slot = true) :
    Quiet machine native old { w with ledger := w.ledger ++ [slot] } := by
  have hgrow : w.ledger <+: w.ledger ++ [slot] := List.prefix_append _ _
  have hunique : UniqueIds (w.ledger ++ [slot]) := by
    cases slot with
    | none => exact hw.kept.unique.hole
    | some msg => exact hw.kept.unique.send (by simpa [isNew] using hnew)
  refine ⟨{ hw.kept with unique := hunique, grown := hw.kept.grown.trans hgrow }, ?_, ?_⟩
  · intro ledger startAcks hpass
    obtain ⟨hread, hreaches⟩ := hw.starting ledger startAcks hpass
    exact ⟨hread.trans hgrow, hreaches⟩
  · intro run hpass
    exact (hw.running run hpass).grow hunique hgrow

section
variable {dateParse : String → Option Int}

theorem Quiet.step (hnone : NoAppMail machine old) (w : World) (e : Event) (v : World)
    (hw : Quiet machine native old w) (hstep : step dateParse machine native w e = some v) :
    Quiet machine native old v := by
  cases e with
  | send slot =>
    simp only [Tracks.step] at hstep
    split at hstep
    · next hnew =>
      obtain rfl := Option.some.inj hstep
      exact hw.send hnew
    · cases hstep
  | ack row =>
    obtain rfl := Option.some.inj hstep
    exact ⟨{ hw.kept with }, hw.starting, hw.running⟩
  | mark key len =>
    obtain rfl := Option.some.inj hstep
    exact ⟨{ hw.kept with file := hw.kept.file.mark key len }, hw.starting, hw.running⟩
  | mailbox key input =>
    obtain rfl := Option.some.inj hstep
    exact ⟨{ hw.kept with }, hw.starting, hw.running⟩
  | start =>
    simp only [Tracks.step] at hstep
    split at hstep
    · obtain rfl := Option.some.inj hstep
      refine ⟨{ hw.kept with }, ?_, by simp⟩
      intro ledger startAcks hpass
      have hsame : w.ledger = ledger := by simp_all
      rw [← hsame]
      refine ⟨List.prefix_refl _, ?_⟩
      intro idx msg peer _ _ hold _
      exact (Ledger.letter_lt hold.1).trans_le hw.kept.grown.length_le
    · cases hstep
  | load now =>
    simp only [Tracks.step] at hstep
    split at hstep
    · next ledger startAcks hpass =>
      obtain rfl := Option.some.inj hstep
      obtain ⟨hread, hreaches⟩ := hw.starting ledger startAcks hpass
      refine ⟨{ hw.kept with }, by simp, ?_⟩
      intro run hrun
      obtain rfl : Running.mk ledger startAcks w.file (loadAckedIds w.acks) now false = run := by
        simpa using hrun
      exact ⟨hw.kept.unique, hw.kept.grown, hread, hreaches, hw.kept.file⟩
    · cases hstep
  | visitPane peer env stopAfter =>
    simp only [Tracks.step] at hstep
    split at hstep
    · next run hpass =>
      split at hstep
      · next hpeer =>
        obtain rfl := Option.some.inj hstep
        exact hw.carryOut hpass ((hw.running run hpass).visitPane hpeer.1 hpeer.2)
      · cases hstep
    · cases hstep
  | visitNative peer env stopAfter =>
    simp only [Tracks.step] at hstep
    split at hstep
    · next run hpass =>
      split at hstep
      · next hpeer =>
        obtain rfl := Option.some.inj hstep
        exact hw.carryOut hpass ((hw.running run hpass).visitNative hpeer.1)
      · cases hstep
    · cases hstep
  | visitApp key env stopAfter =>
    simp only [Tracks.step] at hstep
    split at hstep
    · next run hpass =>
      split at hstep
      · next hkey =>
        obtain rfl := Option.some.inj hstep
        exact hw.carryOut hpass
          ((hw.running run hpass).past.visitApp hnone (isAppRecipient_key hkey))
      · cases hstep
    · cases hstep
  | finish =>
    simp only [Tracks.step] at hstep
    split at hstep
    · next run hpass =>
      obtain rfl := Option.some.inj hstep
      have hpast := (hw.running run hpass).past
      refine ⟨{ hw.kept with file := ?_ }, by simp, by simp⟩
      split
      · exact hpast.save w.file
      · exact hw.kept.file
    · cases hstep
  | crash =>
    obtain rfl := Option.some.inj hstep
    exact ⟨{ hw.kept with }, by simp, by simp⟩
  | mirror results saves =>
    simp only [Tracks.step] at hstep
    split at hstep
    · next hpass =>
      obtain rfl := Option.some.inj hstep
      have hidle : (mirror w results saves).pass = none :=
        (mirror_frame w results saves).1.trans hpass
      exact ⟨hw.kept.mirror, by simp [hidle], by simp [hidle]⟩
    · cases hstep

theorem managed_of_key {target : ChatTarget} {peer : ManagedPeer}
    (h : chatTargetKey target = managedPeerKey peer) :
    ∃ other, target = .managed other ∧ managedPeerKey other = managedPeerKey peer := by
  cases target with
  | managed other => exact ⟨other, rfl, h⟩
  | codexApp app => exact absurd h.symm (managedPeerKey_ne_codexAppKey peer app)
  | owner => exact absurd h.symm (managedPeerKey_ne_owner peer)
  | external name => exact absurd h.symm (managedPeerKey_ne_external peer name)

theorem armedCursors_standsPast : StandsPast machine old (Cursors.armedCursors old) := by
  refine ⟨?_, ?_, ?_⟩
  · intro idx msg peer _ hold htarget
    obtain ⟨other, hto, hkey⟩ := managed_of_key htarget
    have harmed := Cursors.armedCursors_managed hold.1 hto
    rw [hkey] at harmed
    simpa [position, harmed] using Ledger.letter_lt hold.1
  · intro peer pickup _ hpickup
    simp [Cursors.armedCursors, ChatCursors.empty] at hpickup
  · intro at_ htelegram
    simp [Cursors.armedCursors, ChatCursors.empty] at htelegram

theorem Quiet.initial {w : World} (h : Rebuilt old w) (hspared : Spared machine native old w) :
    Quiet machine native old w := by
  have hfile : StandsPast machine old w.file := by
    rw [h.file]
    exact armedCursors_standsPast
  have hunique : UniqueIds w.ledger := by
    rw [h.ledger]
    exact h.unique
  refine ⟨⟨hunique, by rw [h.ledger], hfile, by simp [h.handed], by simp [h.mirrored]⟩, ?_, ?_⟩
  · intro ledger startAcks hpass
    rw [h.ledger]
    exact ⟨h.snapshot ledger startAcks hpass, hspared.starting ledger startAcks hpass⟩
  · intro run hpass
    obtain ⟨hreaches, hpast⟩ := hspared.running run hpass
    exact ⟨hunique, by rw [h.ledger], by rw [h.ledger]; exact h.loaded run hpass, hreaches, hpast⟩

/-- After the rebuild of a lost cursors file, in every run of passes on all tracks, with crashes,
other writers and the mirror in between, no immediate letter of the ledger at that moment is handed
over or mirrored again. -/
theorem rebuild_replays_nothing {w t : World} {events : List Event} (hrebuilt : Rebuilt old w)
    (hspared : Spared machine native old w)
    (hrun : run (Tracks.step dateParse machine native) w events = some t) :
    (∀ h ∈ t.handed, isConditional h.msg = false → some h.msg ∉ old) ∧
    (∀ msg ∈ t.mirrored, isConditional msg = false → some msg ∉ old) := by
  have hquiet : Quiet machine native old t :=
    run_invariant (Quiet.step hspared.noApp) hrun (Quiet.initial hrebuilt hspared)
  have hold {msg : ChatMessage} (himm : isConditional msg = false) (hmem : some msg ∈ old) :
      Old old msg := by
    obtain ⟨idx, hidx⟩ := List.getElem?_of_mem hmem
    exact ⟨idx, Ledger.letter_eq_some.mpr hidx, himm⟩
  constructor
  · intro h hmem himm hin
    exact hquiet.kept.handed h hmem (hold himm hin)
  · intro msg hmem himm hin
    exact hquiet.kept.mirrored msg hmem (hold himm hin)

end

end

def thread : CodexAppPeer := ⟨"host", "t9", none⟩

def pane : ManagedPeer := ⟨"host", .claude, "worker", "t1"⟩

def letter (target : ChatTarget) (id : String) : ChatMessage :=
  { id, ts := "2026-01-01T00:00:00Z", sender := .cli "host", target, body := id, defer := false }

/-- The world after the rebuild, with no pass under way. -/
def rebuiltWorld (old : Ledger) : World :=
  { ledger := old, acks := [], file := Cursors.loadCursors none old, mailboxes := fun _ => none,
    pass := none, handed := [], mirrored := [] }

theorem rebuiltWorld_rebuilt {msg : ChatMessage} : Rebuilt [some msg] (rebuiltWorld [some msg]) := by
  refine ⟨rfl, rfl, rfl, rfl, ?_, by simp [rebuiltWorld], by simp [rebuiltWorld]⟩
  intro i j a b hi hj _
  have hlt := Ledger.letter_lt hi
  have hlt' := Ledger.letter_lt hj
  simp only [List.length_singleton] at hlt hlt'
  omega

/-- The history of a Codex App thread is handed over again: the rebuild armed no cursor for it. -/
theorem rebuild_replays_app_mail :
    Rebuilt [some (letter (.codexApp thread) "seen")]
      (rebuiltWorld [some (letter (.codexApp thread) "seen")]) ∧
    ∃ t, run (Tracks.step (fun _ => none) "host" fun _ => false)
        (rebuiltWorld [some (letter (.codexApp thread) "seen")])
        [.start, .load 0, .visitApp (codexAppKey thread) ⟨false, false, .started⟩ 9] = some t ∧
      ∃ h ∈ t.handed, isConditional h.msg = false ∧
        some h.msg ∈ [some (letter (.codexApp thread) "seen")] := by
  refine ⟨rebuiltWorld_rebuilt, _, rfl, ⟨letter (.codexApp thread) "seen", []⟩, ?_⟩
  decide

def readyPane : PaneEnv :=
  { transcriptPickup := true, progress := .awaitingPickup, submittedId := none, retried := true,
    settled := true, deliverable := fun _ => true, typing := .typed, transcriptLine := none }

/-- A letter sent after the rebuild is handed over, the one before it is not. -/
theorem rebuild_replays_nothing_pane :
    ∃ t, run (Tracks.step (fun _ => none) "host" fun _ => false)
        (rebuiltWorld [some (letter (.managed pane) "seen")])
        [.send (some (letter (.managed pane) "new")), .start, .load 0,
          .visitPane pane readyPane 9] = some t ∧
      t.handed.map Handed.msg = [letter (.managed pane) "new"] ∧
      ∀ h ∈ t.handed, isConditional h.msg = false →
        some h.msg ∉ [some (letter (.managed pane) "seen")] := by
  refine ⟨_, rfl, by decide, ?_⟩
  have hspared : Spared "host" (fun _ => false) [some (letter (.managed pane) "seen")]
      (rebuiltWorld [some (letter (.managed pane) "seen")]) := by
    refine ⟨?_, by simp [rebuiltWorld], by simp [rebuiltWorld]⟩
    intro msg peer hold htarget
    obtain ⟨idx, hletter, _⟩ := hold
    have hmem := List.mem_of_getElem? (Ledger.letter_eq_some.mp hletter)
    have hsame : msg = letter (.managed pane) "seen" := by simpa using hmem
    rw [hsame] at htarget
    cases htarget
  exact (rebuild_replays_nothing rebuiltWorld_rebuilt hspared
    (show run (Tracks.step (fun _ => none) "host" fun _ => false) _
      [.send (some (letter (.managed pane) "new")), .start, .load 0, .visitPane pane readyPane 9] =
        some _ from rfl)).1

end Ccmux.Chat.Rebuild
