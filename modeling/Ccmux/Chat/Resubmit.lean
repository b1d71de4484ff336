/- Module: Ccmux/Chat/Resubmit
   source: src/chat/deliver.ts (active pickup retry), src/chat/deliverApp.ts,
   src/chat/nativeRuntime.ts, src/chat/ackLog.ts
   digest: A letter cancelled before the pass reaches its recipient only as the retry of a pickup. -/

import Ccmux.Chat.Store
import Ccmux.Chat.Tracks

namespace Ccmux.Chat.Resubmit

open Ccmux.Lib.Machine
open Ccmux.Chat.Identity (CodexAppPeer ManagedPeer codexAppKey managedPeerKey)
open Ccmux.Chat.Message
open Ccmux.Chat.Settlement
open Ccmux.Chat.Coalesce
open Ccmux.Chat.NativeRuntime
open Ccmux.Chat.Tracks
open Ccmux.Runtime.Input (RuntimeInput)

/-- The log holds a row of `msg cancel` or of a replaced task for the letter. -/
def Cancelled (acks : AckLog) (msg : ChatMessage) : Prop := AckRow.mk msg.id .cancel ∈ acks

instance (acks : AckLog) (msg : ChatMessage) : Decidable (Cancelled acks msg) :=
  inferInstanceAs (Decidable (_ ∈ _))

/-- If the letter is conditional, it was not cancelled when the log was read. -/
def Uncancelled (acks : AckLog) (msg : ChatMessage) : Prop :=
  isConditional msg = true → ¬ Cancelled acks msg

section
variable (dateParse : String → Option Int) (machine : String)

/-- The pane has neither picked the pickup's letter up nor shows it, the grace is over, and the
retry is typed. -/
def PaneRetry (run : Running) (recipientKey : String) (env : PaneEnv) (msg : ChatMessage) : Prop :=
  env.transcriptPickup = true ∧ env.progress = .awaitingPickup ∧ env.retried = true ∧
  ∃ pickup, run.cursors.pickups recipientKey = some pickup ∧
    env.submittedId ≠ some pickup.messageId ∧ pickupGraceMs ≤ run.now - pickup.injectedAt ∧
    findLetter run.ledger pickup.messageId = some msg

/-- The pickup is an intent whose letter is not in the mailbox, which holds nothing unresolved, and
the runtime is idle. -/
def NativeRetry (run : Running) (recipientKey : String) (env : PassEnv)
    (mailbox : Option RuntimeInput) (msg : ChatMessage) : Prop :=
  ∃ pickup snapshot, run.cursors.pickups recipientKey = some pickup ∧
    (pickup.native.any fun native => native.phase == .intent) = true ∧
    pickup.ledgerIndex.bind run.ledger.letter = some msg ∧ msg.id = pickup.messageId ∧
    env.snapshot = some snapshot ∧ snapshot.state = .idle ∧ env.sameIdentity = true ∧
    env.contextPending = false ∧
    (∀ input, mailbox = some input → input.messageId ≠ pickup.messageId) ∧
    previousComplete env snapshot mailbox = true ∧
    (queuedInput env msg pickup.injectedAt).valid = true

/-- The App thread has no turn of the pickup's letter, and the provider starts one. -/
def AppRetry (run : Running) (recipientKey : String) (env : AppEnv) (msg : ChatMessage) : Prop :=
  env.persisted = false ∧ env.outcome.submitted = true ∧ addressedHere machine msg = true ∧
  ∃ pickup, run.cursors.pickups recipientKey = some pickup ∧
    findLetter run.ledger pickup.messageId = some msg

/-- A visit that submits a pickup left behind by an earlier attempt finds its letter uncancelled
in the log its pass started with. -/
def RetriesUncancelled (w : World) : Event → Prop
  | .visitPane peer env stopAfter => ∀ run msg, w.pass = some (.running run) → 0 < stopAfter →
      PaneRetry run (managedPeerKey peer) env msg → Uncancelled run.startAcks msg
  | .visitNative peer env stopAfter => ∀ run msg, w.pass = some (.running run) → 0 < stopAfter →
      NativeRetry run (managedPeerKey peer) env (w.mailboxes (managedPeerKey peer)) msg →
      Uncancelled run.startAcks msg
  | .visitApp recipientKey env stopAfter => ∀ run msg, w.pass = some (.running run) →
      0 < stopAfter → AppRetry machine run recipientKey env msg → Uncancelled run.startAcks msg
  | _ => True

variable {dateParse machine}

theorem nextDelivery_unacked {run : Running} {cursors : ChatCursors} {key : String} {pick : Pick}
    (hpick : (nextDelivery dateParse run.ledger key cursors run.acked run.now).1 = some pick)
    (hcond : isConditional pick.msg = true) : pick.msg.id ∉ run.acked := by
  have h : (pickPendingDelivery dateParse run.ledger key (position cursors.delivered key)
      run.acked run.now).1 = some pick := hpick
  exact (pickPendingDelivery_conditional dateParse h hcond).1

theorem typePane_unacked {run : Running} {key : String} {env : PaneEnv} {caught : ChatCursors}
    {pick : Pick} {msg : ChatMessage}
    (hpick : isConditional pick.msg = true → pick.msg.id ∉ run.acked)
    (hmem : msg ∈ handedBy (typePane dateParse run key env caught pick))
    (hcond : isConditional msg = true) : msg.id ∉ run.acked := by
  unfold typePane at hmem
  split at hmem
  · cases htyping : env.typing <;> simp [htyping] at hmem
    rw [hmem] at hcond ⊢
    exact hpick hcond
  · cases htyping : env.typing <;> simp only [htyping] at hmem
    · simp at hmem
    · simp at hmem
    · split at hmem
      · have hbatch : msg ∈ coalesce dateParse run.ledger key run.acked run.now := by simpa using hmem
        have hwaiting := (mem_coalesce.mp hbatch).1
        exact (isWaiting_iff.mp (mem_waitingFor.mp hwaiting).2).2.2.1
      · next himm =>
        have hsame : msg = pick.msg := by simpa using hmem
        rw [hsame] at hcond
        exact absurd hcond himm

theorem freshPane_unacked {run : Running} {acks : AckLog} {cursors : ChatCursors} {key : String}
    {env : PaneEnv} {msg : ChatMessage}
    (hmem : msg ∈ handedBy (freshPane dateParse run acks cursors key env))
    (hcond : isConditional msg = true) : msg.id ∉ run.acked := by
  simp only [freshPane, handedBy_append, handedBy_catching, List.nil_append] at hmem
  split at hmem
  · simp at hmem
  · next pick hpick =>
    split at hmem
    · simp at hmem
    · exact typePane_unacked (fun h => nextDelivery_unacked hpick h) hmem hcond

/-- A pane's visit hands over the pickup's letter or what the pass picked. -/
theorem visitPane_cases {run : Running} {acks : AckLog} {key : String} {env : PaneEnv}
    {msg : ChatMessage} (hmem : msg ∈ handedBy (visitPane dateParse run acks key env)) :
    PaneRetry run key env msg ∨ (isConditional msg = true → msg.id ∉ run.acked) := by
  unfold visitPane at hmem
  split at hmem
  · next pickup htranscript hpickup =>
    split at hmem
    · next hopen =>
      unfold retryPane at hmem
      split at hmem
      · simp at hmem
      · next hgate =>
        simp only [not_or, not_lt] at hgate
        obtain ⟨hrunning, hshown, hgrace⟩ := hgate
        split at hmem
        · simp at hmem
        · next found hfound =>
          split at hmem
          · next hretried =>
            have hsame : msg = found := by simpa using hmem
            have hawaiting : env.progress = .awaitingPickup := by
              cases hprogress : env.progress <;> simp_all
            exact Or.inl ⟨htranscript, hawaiting, hretried, pickup, hpickup, hshown, hgrace,
              by rw [hsame]; exact hfound⟩
          · simp at hmem
    · split at hmem
      · simp at hmem
      · simp only [handedBy_append, handedBy_finishing, handedBy_changed, List.nil_append] at hmem
        exact Or.inr (freshPane_unacked hmem)
  · exact Or.inr (freshPane_unacked hmem)

theorem PaneRetry.visit {run : Running} {acks : AckLog} {key : String} {env : PaneEnv}
    {msg : ChatMessage} (h : PaneRetry run key env msg) :
    visitPane dateParse run acks key env = [.hand [msg]] := by
  obtain ⟨htranscript, hprogress, hretried, pickup, hpickup, hshown, hgrace, hfound⟩ := h
  have hlate : ¬ run.now - pickup.injectedAt < pickupGraceMs := by omega
  simp [visitPane, htranscript, hpickup, hprogress, retryPane, hshown, hlate, hfound, hretried]

theorem handedBy_submitApp {key : String} {env : AppEnv} {armed : ChatCursors}
    {picked msg : ChatMessage} (hmem : msg ∈ handedBy (submitApp machine key env armed picked)) :
    msg = picked := by
  unfold submitApp at hmem
  split at hmem
  · simp at hmem
  · split at hmem
    · simp at hmem
    · split at hmem
      · simpa using hmem
      · simp at hmem
    · split at hmem <;> simpa using hmem

/-- An App visit hands over the pickup's letter or what the pass picked. -/
theorem visitApp_cases {run : Running} {acks : AckLog} {key : String} {env : AppEnv}
    {msg : ChatMessage} (hmem : msg ∈ handedBy (visitApp dateParse machine run acks key env)) :
    AppRetry machine run key env msg ∨ (isConditional msg = true → msg.id ∉ run.acked) := by
  unfold visitApp at hmem
  split at hmem
  · next pickup hpickup =>
    unfold retryApp at hmem
    split at hmem
    · simp at hmem
    · next found hfound =>
      by_cases hhere : addressedHere machine found = true
      · by_cases hproof : env.persisted = true
        · simp [hhere, hproof] at hmem
        · have hsubmitted : msg = found ∧ env.outcome.submitted = true := by
            cases houtcome : env.outcome with
            | held => simp [hhere, hproof, houtcome] at hmem
            | failed submitted =>
              cases submitted <;> simp_all [AppOutcome.submitted]
            | started => simp_all [AppOutcome.submitted]
          obtain ⟨rfl, hstarted⟩ := hsubmitted
          exact Or.inl ⟨by simpa using hproof, hstarted, hhere, pickup, hpickup, hfound⟩
      · simp [hhere] at hmem
  · simp only [freshApp, handedBy_append, handedBy_catching, List.nil_append] at hmem
    split at hmem
    · simp at hmem
    · next pick hpick =>
      split at hmem
      · simp at hmem
      · have hsame : msg = pick.msg := handedBy_submitApp (by simpa using hmem)
        right
        intro hcond
        rw [hsame] at hcond ⊢
        exact nextDelivery_unacked hpick hcond

theorem AppRetry.visit {run : Running} {acks : AckLog} {key : String} {env : AppEnv}
    {msg : ChatMessage} (h : AppRetry machine run key env msg) :
    ∃ rest, visitApp dateParse machine run acks key env = .hand [msg] :: rest := by
  obtain ⟨hproof, hstarted, hhere, pickup, hpickup, hfound⟩ := h
  cases houtcome : env.outcome with
  | held => simp [houtcome, AppOutcome.submitted] at hstarted
  | failed submitted =>
    have hsubmitted : submitted = true := by simpa [houtcome, AppOutcome.submitted] using hstarted
    exact ⟨[], by simp [visitApp, hpickup, retryApp, hfound, hhere, hproof, houtcome, hsubmitted]⟩
  | started =>
    exact ⟨_, by simp only [visitApp, hpickup, retryApp, hfound, hhere, hproof, houtcome]; rfl⟩

theorem mem_nativeEffects {key : String} {letter : Option ChatMessage} {actions : List Action}
    {msg : ChatMessage} (hmem : msg ∈ handedBy (nativeEffects key letter actions)) :
    letter = some msg ∧ ∃ input, .writeInput input ∈ actions ∧ input.valid = true := by
  induction actions with
  | nil => simp [nativeEffects] at hmem
  | cons action rest ih =>
    have later (h : msg ∈ handedBy (nativeEffects key letter rest)) :
        letter = some msg ∧ ∃ input, .writeInput input ∈ action :: rest ∧ input.valid = true := by
      obtain ⟨hletter, input, hinput, hvalid⟩ := ih h
      exact ⟨hletter, input, List.mem_cons_of_mem _ hinput, hvalid⟩
    cases action with
    | writeInput input =>
      cases hletter : letter with
      | none => simp [nativeEffects, hletter] at hmem
      | some found =>
        by_cases hvalid : input.valid = true
        · simp only [nativeEffects, hletter, hvalid, if_true, handedBy_queue,
            List.mem_cons] at hmem
          rcases hmem with hsame | hrest
          · exact ⟨by rw [hsame], input, List.mem_cons_self, hvalid⟩
          · rw [← hletter]
            exact later (by rw [hletter]; exact hrest)
        · simp [nativeEffects, hletter, hvalid] at hmem
    | refuse _ => simp [nativeEffects] at hmem
    | _ => exact later (by simpa [nativeEffects] using hmem)

theorem visitNative_cases {run : Running} {key : String} {env : PassEnv}
    {mailbox : Option RuntimeInput} {msg : ChatMessage}
    (hmem : msg ∈ handedBy (visitNative dateParse run key env mailbox)) :
    NativeRetry run key env mailbox msg ∨ (isConditional msg = true → msg.id ∉ run.acked) := by
  obtain ⟨hletter, input, hinput, hvalid⟩ := mem_nativeEffects hmem
  cases hpickup : run.cursors.pickups key with
  | some pickup =>
    obtain ⟨snapshot, hlive, hsame, hother, hrepair⟩ := deliverLocked_pickup hpickup hinput
    obtain ⟨found, hslot, hid, hintent, hcomplete, hidle, hcontext, rfl⟩ := repair_writes hrepair
    have hfound : found = msg := by
      simpa [nativeLetter, hpickup, hslot] using hletter
    rw [hfound] at hslot hid hvalid
    exact Or.inl ⟨pickup, snapshot, hpickup, hintent, hslot, hid, hlive, hidle, hsame, hcontext,
      hother, hcomplete, hvalid⟩
  | none =>
    have hpicked : (pickPendingDelivery dateParse run.ledger key
        (position run.cursors.delivered key) run.acked run.now).1.map Pick.msg = some msg := by
      simpa [nativeLetter, hpickup] using hletter
    obtain ⟨pick, hpick, rfl⟩ := Option.map_eq_some_iff.mp hpicked
    exact Or.inr fun hcond => (pickPendingDelivery_conditional dateParse hpick hcond).1

theorem NativeRetry.visit {run : Running} {key : String} {env : PassEnv}
    {mailbox : Option RuntimeInput} {msg : ChatMessage} (h : NativeRetry run key env mailbox msg) :
    ∃ input rest, visitNative dateParse run key env mailbox = .queue key msg input :: rest := by
  obtain ⟨pickup, snapshot, hpickup, hintent, hslot, hid, hlive, hidle, hsame, hcontext, hother,
    hcomplete, hvalid⟩ := h
  have hletter : nativeLetter dateParse run key = some msg := by
    simp [nativeLetter, hpickup, hslot]
  have hrepair : (repair { env with now := run.now } snapshot run.ledger pickup mailbox).1 =
      [.writeInput (queuedInput env msg pickup.injectedAt)] :=
    repair_intent hslot hid hintent hcomplete hidle hcontext
  have hactions : (deliverLocked dateParse { env with now := run.now } key run.ledger run.cursors
      run.acked mailbox).1 = [.writeInput (queuedInput env msg pickup.injectedAt)] := by
    have hpending : pendingMessageId dateParse run.ledger key run.cursors run.acked run.now =
        some pickup.messageId := by
      simp [pendingMessageId, hpickup]
    simp only [deliverLocked, hpending, hpickup, hlive, hsame, Bool.not_true, Bool.false_eq_true,
      if_false]
    cases hmailbox : mailbox with
    | none =>
      rw [hmailbox] at hrepair
      exact hrepair
    | some held =>
      rw [hmailbox] at hrepair
      simp only [ne_eq, hother held hmailbox, not_false_eq_true, if_true]
      exact hrepair
  exact ⟨queuedInput env msg pickup.injectedAt, [],
    by simp [visitNative, hactions, nativeEffects, hletter, hvalid]⟩

/-- What a pass loaded: the log it started with is a beginning of the log, and its ack set was read
after that. -/
structure Loaded (w : World) : Prop where
  starting : ∀ ledger startAcks, w.pass = some (.starting ledger startAcks) → startAcks <+: w.acks
  running : ∀ run, w.pass = some (.running run) → loadAckedIds run.startAcks ⊆ run.acked

theorem loadAckedIds_mono {log grown : AckLog} (h : log <+: grown) :
    loadAckedIds log ⊆ loadAckedIds grown := by
  obtain ⟨more, rfl⟩ := h
  exact loadAckedIds_subset_append log more

theorem Loaded.carryOut {w : World} {run : Running} (hw : Loaded w)
    (hpass : w.pass = some (.running run)) (effects : List Effect) (stopAfter : Nat)
    (caught : Bool) : Loaded (carryOut w run effects stopAfter caught) := by
  obtain ⟨_, hstart, hacked, _, _⟩ := performAll_snapshots w run (effects.take stopAfter)
  unfold Tracks.carryOut
  split
  · refine ⟨by simp, ?_⟩
    intro after hafter
    have hsame : (performAll w run (effects.take stopAfter)).2 = after := by simpa using hafter
    rw [← hsame, hstart, hacked]
    exact hw.running run hpass
  · exact ⟨by simp, by simp⟩

variable {native : ManagedPeer → Bool}

theorem Loaded.step (w : World) (e : Event) (v : World) (hw : Loaded w)
    (hstep : step dateParse machine native w e = some v) : Loaded v := by
  cases e with
  | send slot =>
    simp only [Tracks.step] at hstep
    split at hstep
    · obtain rfl := Option.some.inj hstep
      exact ⟨hw.starting, hw.running⟩
    · cases hstep
  | ack row =>
    obtain rfl := Option.some.inj hstep
    refine ⟨?_, hw.running⟩
    intro ledger startAcks hpass
    exact (hw.starting ledger startAcks hpass).trans (List.prefix_append _ _)
  | mark _ _ | mailbox _ _ =>
    obtain rfl := Option.some.inj hstep
    exact ⟨hw.starting, hw.running⟩
  | start =>
    simp only [Tracks.step] at hstep
    split at hstep
    · obtain rfl := Option.some.inj hstep
      refine ⟨?_, by simp⟩
      intro ledger startAcks hpass
      have hsame : w.acks = startAcks := by simp_all
      rw [← hsame]
    · cases hstep
  | load now =>
    simp only [Tracks.step] at hstep
    split at hstep
    · next ledger startAcks hpass =>
      obtain rfl := Option.some.inj hstep
      refine ⟨by simp, ?_⟩
      intro run hrun
      obtain rfl : Running.mk ledger startAcks w.file (loadAckedIds w.acks) now false = run := by
        simpa using hrun
      exact loadAckedIds_mono (hw.starting ledger startAcks hpass)
    · cases hstep
  | visitPane _ _ _ | visitNative _ _ _ | visitApp _ _ _ =>
    simp only [Tracks.step] at hstep
    split at hstep
    · next run hpass =>
      split at hstep
      · obtain rfl := Option.some.inj hstep
        exact hw.carryOut hpass _ _ _
      · cases hstep
    · cases hstep
  | finish =>
    simp only [Tracks.step] at hstep
    split at hstep
    · obtain rfl := Option.some.inj hstep
      exact ⟨by simp, by simp⟩
    · cases hstep
  | crash =>
    obtain rfl := Option.some.inj hstep
    exact ⟨by simp, by simp⟩
  | mirror results saves =>
    simp only [Tracks.step] at hstep
    split at hstep
    · next hpass =>
      obtain rfl := Option.some.inj hstep
      have hnone : (mirror w results saves).pass = none :=
        (mirror_frame w results saves).1.trans hpass
      exact ⟨by simp [hnone], by simp [hnone]⟩
    · cases hstep

/-- Every submission so far was of a letter not cancelled when its pass started. -/
def NeverCancelled (w : World) : Prop := ∀ h ∈ w.handed, Uncancelled h.startAcks h.msg

/-- A visit submits no cancelled letter exactly when its retries do not. -/
theorem NeverCancelled.visit {w : World} {run : Running} {effects : List Effect}
    {stopAfter : Nat} {caught : Bool} {Retry : Running → ChatMessage → Prop} (hw : Loaded w)
    (hpass : w.pass = some (.running run))
    (hcases : ∀ msg ∈ handedBy effects,
      Retry run msg ∨ (isConditional msg = true → msg.id ∉ run.acked))
    (hfirst : ∀ msg, Retry run msg → ∃ effect rest, effects = effect :: rest ∧
      handedBy [effect] = [msg]) :
    NeverCancelled (carryOut w run effects stopAfter caught) ↔ NeverCancelled w ∧
      ∀ run msg, w.pass = some (.running run) → 0 < stopAfter → Retry run msg →
        Uncancelled run.startAcks msg := by
  unfold NeverCancelled
  simp only [carryOut_handed, List.mem_append, List.mem_map]
  constructor
  · intro hall
    refine ⟨fun h hh => hall h (Or.inl hh), ?_⟩
    intro other msg hother hpos hretry
    obtain rfl : run = other := by simpa [hpass] using hother
    obtain ⟨effect, rest, rfl, hhanded⟩ := hfirst msg hretry
    refine hall ⟨msg, run.startAcks⟩ (Or.inr ⟨msg, ?_, rfl⟩)
    obtain ⟨n, rfl⟩ : ∃ n, stopAfter = n + 1 := ⟨stopAfter - 1, by omega⟩
    have hsplit : handedBy ((effect :: rest).take (n + 1)) =
        handedBy [effect] ++ handedBy (rest.take n) := by
      rw [List.take_succ_cons, ← handedBy_append, List.singleton_append]
    rw [hsplit, hhanded]
    exact List.mem_append_left _ (List.mem_singleton_self msg)
  · intro ⟨hold, hretries⟩ h hh
    rcases hh with hmem | ⟨msg, hmem, rfl⟩
    · exact hold h hmem
    · have hpos : 0 < stopAfter := by
        by_contra hzero
        have hnothing : stopAfter = 0 := by omega
        simp [hnothing] at hmem
      rcases hcases msg (mem_handedBy_take hmem) with hretry | hfresh
      · exact hretries run msg hpass hpos hretry
      · intro hcond hcancel
        apply hfresh hcond
        apply hw.running run hpass
        exact mem_loadAckedIds.mpr ⟨_, hcancel, rfl⟩

/-- A step keeps the submissions free of cancelled letters exactly when it retries none. -/
theorem NeverCancelled.step (w : World) (e : Event) (v : World) (hw : Loaded w)
    (hstep : step dateParse machine native w e = some v) :
    NeverCancelled v ↔ NeverCancelled w ∧ RetriesUncancelled machine w e := by
  have quiet (hhanded : v.handed = w.handed) (hcond : RetriesUncancelled machine w e) :
      NeverCancelled v ↔ NeverCancelled w ∧ RetriesUncancelled machine w e := by
    unfold NeverCancelled
    rw [hhanded]
    exact (and_iff_left hcond).symm
  cases e with
  | visitPane peer env stopAfter =>
    simp only [Tracks.step] at hstep
    split at hstep
    · next run hpass =>
      split at hstep
      · obtain rfl := Option.some.inj hstep
        exact NeverCancelled.visit hw hpass (fun msg hmem => visitPane_cases hmem)
          (fun msg hretry => ⟨_, [], hretry.visit, by simp⟩)
      · cases hstep
    · cases hstep
  | visitNative peer env stopAfter =>
    simp only [Tracks.step] at hstep
    split at hstep
    · next run hpass =>
      split at hstep
      · obtain rfl := Option.some.inj hstep
        refine NeverCancelled.visit hw hpass (fun msg hmem => visitNative_cases hmem) ?_
        intro msg hretry
        obtain ⟨input, rest, hvisit⟩ := hretry.visit
        exact ⟨_, rest, hvisit, by simp⟩
      · cases hstep
    · cases hstep
  | visitApp recipientKey env stopAfter =>
    simp only [Tracks.step] at hstep
    split at hstep
    · next run hpass =>
      split at hstep
      · obtain rfl := Option.some.inj hstep
        refine NeverCancelled.visit hw hpass (fun msg hmem => visitApp_cases hmem) ?_
        intro msg hretry
        obtain ⟨rest, hvisit⟩ := hretry.visit
        exact ⟨_, rest, hvisit, by simp⟩
      · cases hstep
    · cases hstep
  | ack _ | mark _ _ | mailbox _ _ | crash =>
    obtain rfl := Option.some.inj hstep
    exact quiet rfl trivial
  | send _ | start | load _ | finish =>
    simp only [Tracks.step] at hstep
    split at hstep
    · obtain rfl := Option.some.inj hstep
      exact quiet rfl trivial
    · cases hstep
  | mirror results saves =>
    simp only [Tracks.step] at hstep
    split at hstep
    · obtain rfl := Option.some.inj hstep
      exact quiet (mirror_frame w results saves).2.1 trivial
    · cases hstep

/-- Over every run of passes on the three tracks, with crashes, other writers of the ack log and
the mirror in between: no conditional letter cancelled before a pass began is submitted by that
pass exactly when no visit retries a pickup whose letter was cancelled by then. -/
theorem cancelled_never_submitted_iff {w t : World} {events : List Event} (hidle : w.pass = none)
    (hfresh : w.handed = []) (hrun : run (step dateParse machine native) w events = some t) :
    NeverCancelled t ↔
      Along (step dateParse machine native) (RetriesUncancelled machine) w events := by
  have hloaded : Loaded w := ⟨by simp [hidle], by simp [hidle]⟩
  have hclean : NeverCancelled w := by simp [NeverCancelled, hfresh]
  have hexact := run_iff_along Loaded.step NeverCancelled.step hrun hloaded
  rw [hexact]
  exact and_iff_right hclean

end

def thread : CodexAppPeer := ⟨"host", "t9", none⟩

/-- A deferred letter of the task `build` to a Codex App thread. -/
def deferred : ChatMessage :=
  { id := "later", ts := "2026-01-01T00:00:00Z", sender := .cli "host", target := .codexApp thread,
    body := "rebuild", task := some "build", defer := true }

def deferredWorld : World :=
  { ledger := [some deferred], acks := [], file := ChatCursors.empty, mailboxes := fun _ => none,
    pass := none, handed := [], mirrored := [] }

/-- The first pass arms the letter and is held by the provider; then the letter is cancelled. -/
def cancelledWhileHeld : List Event :=
  [.start, .load 0, .visitApp (codexAppKey thread) ⟨false, false, .held⟩ 4, .finish,
    .ack ⟨"later", .cancel⟩, .start, .load 3000,
    .visitApp (codexAppKey thread) ⟨false, false, .started⟩ 4]

theorem cancelledWhileHeld_run :
    ∃ t, run (step (fun _ => none) "host" fun _ => false) deferredWorld cancelledWhileHeld = some t ∧
      t.handed = [⟨deferred, [⟨"later", .cancel⟩]⟩] := by
  refine ⟨_, rfl, ?_⟩
  decide

/-- The row is the one `msg cancel` appends, and the next pass submits the letter all the same. -/
theorem cancelled_pickup_is_submitted :
    Store.msgCancel [some deferred] [] (.cli "host") "build" = [⟨"later", .cancel⟩] ∧
    ∃ t, run (step (fun _ => none) "host" fun _ => false) deferredWorld cancelledWhileHeld = some t ∧
      ¬ NeverCancelled t := by
  refine ⟨by decide, ?_⟩
  obtain ⟨t, hrun, hhanded⟩ := cancelledWhileHeld_run
  refine ⟨t, hrun, ?_⟩
  intro hnever
  have hclean := hnever ⟨deferred, [⟨"later", .cancel⟩]⟩ (by simp [hhanded])
  exact hclean rfl (by decide)

theorem cancelled_never_submitted_iff_held :
    ¬ Along (step (fun _ => none) "host" fun _ => false) (RetriesUncancelled "host")
      deferredWorld cancelledWhileHeld := by
  obtain ⟨t, hrun, hhanded⟩ := cancelledWhileHeld_run
  rw [← cancelled_never_submitted_iff rfl rfl hrun]
  intro hnever
  exact hnever ⟨deferred, [⟨"later", .cancel⟩]⟩ (by simp [hhanded]) rfl (by decide)

end Ccmux.Chat.Resubmit
