/- Module: Ccmux/Session/SleepRun
   source: src/session/sleep/operations.ts, src/session/sleep/store.ts
   digest: The order of sleep and wake operations in every run, and what breaks it. -/

import Ccmux.Session.SleepCalls

namespace Ccmux.Session.Sleep

open Ccmux.Lib.Machine

/-- The operation was taken once, and another one or a wake followed it. -/
def Superseded (h : Host) (operationId : String) : Prop :=
  operationId ∈ h.operations ∧
    ∀ row, h.sleep = some row → row.operationId = operationId → 2 ≤ row.phase.rank

def Request.sameOperation : Request → Request → Bool
  | .sleep left _, .sleep right _ => left == right
  | .wake left, .wake right => left == right
  | _, _ => false

/-- The phases of an operation only move forward, no operation is taken twice, an operation has one
receipt, and every wake was acknowledged by an owner that was started for it. -/
structure Orderly (w : World) : Prop where
  forward : w.host.log.Pairwise fun earlier later =>
    earlier.1 = later.1 → earlier.2.rank ≤ later.2.rank
  once : w.host.operations.Nodup
  replayed : ∀ caller ∈ w.callers, ∀ other ∈ w.callers, ∀ answer given,
    caller.request.sameOperation other.request = true →
    caller.point = .done (.ok (some answer)) → other.point = .done (.ok (some given)) →
    answer.plain = given.plain
  acknowledged : ∀ ack ∈ w.host.acknowledged, ∃ row ∈ w.host.rows,
    row.operationId = ack.operationId ∧ RightfulSighting w.host row ack.sighting

/-- The sleep operation that the next admission of a caller is about. -/
def Point.about : Point → Option String
  | .settling row _ => some row.operationId
  | .entering _ row => some row.operationId
  | .acknowledging _ row _ => some row.operationId
  | .recording expected => some expected
  | _ => none

/-- An owner is started for a wake only once every recorded process is gone, what is superseded is
refused, and what is replayed gets the receipt it had. -/
structure Obeys (v : World) (e : Event) (u : World) : Prop where
  released : u.host.started ≠ v.host.started →
    ∃ row, v.host.sleep = some row ∧ row.phase = .waking ∧ Released v.host row
  superseded : ∀ operationId revision facts reason,
    e = .sleep operationId revision facts reason → Superseded v.host operationId →
    u.host = v.host ∧ ∃ refusal,
      u.callers = v.callers ++ [⟨.sleep operationId revision, .done (.error refusal)⟩]
  late : ∀ i act caller operationId, e = .act i act → act.locks = true →
    v.callers[i]? = some caller → caller.point.about = some operationId →
    (∀ row, v.host.sleep = some row → row.operationId ≠ operationId) →
    u.host = v.host ∧ ∃ refusal, u.callers = v.callers.set i ⟨caller.request, .done (.error refusal)⟩
  awoken : ∀ i caller row duplicate current, e = .act i .settle → v.callers[i]? = some caller →
    caller.point = .settling row duplicate → v.host.sleep = some current →
    2 ≤ current.phase.rank → u.host = v.host ∧
    ∃ refusal, u.callers = v.callers.set i ⟨caller.request, .done (.error refusal)⟩
  sleepAgain : ∀ operationId revision facts reason row,
    e = .sleep operationId revision facts reason → v.host.sleep = some row →
    row.operationId = operationId → row.proof.revision = revision → row.phase.rank ≤ 1 →
    u.host = v.host ∧ u.callers = v.callers ++ [⟨.sleep operationId revision, .releasing row true⟩]
  wakeAgain : ∀ operationId prior result row, e = .wake operationId →
    (v.wakes.find? fun record => record.operationId == operationId) = some prior →
    prior.result = some result → v.host.sleep = some row →
    u.host = v.host ∧
      u.callers = v.callers ++
        [⟨.wake operationId, .done (.ok (some { result with duplicate := true }))⟩]

/-- A caller stands between its idle proof and its row. -/
def Point.proving : Point → Bool
  | .writing _ => true
  | _ => false

/-- No superseded operation is asked for again with the present revision of an idle session that is
awake, the daemon starts no owner between an idle proof and its row, and no process takes over the
pid of a published status. -/
def keepsOrder (w : World) : Event → Bool
  | .sleep operationId revision facts reason =>
    let proof := idleProof w.host facts reason
    !(w.host.operations.contains operationId &&
      (w.host.sleep.all fun row => row.operationId != operationId && row.phase == .awake) &&
      proof.revision == revision && proof.eligible)
  | .starts identity =>
    (w.callers.all fun caller => !caller.point.proving) && keepsPid w.host identity
  | .spawns identity _ => keepsPid w.host identity
  | .act _ (.launch identity) => w.host.hasOwner || keepsPid w.host identity
  | _ => true

/-! The steps of the world. -/

structure Sound (w : World) : Prop where
  base : Base w.host
  wakes : WakesOk w.host w.wakes
  points : ∀ caller ∈ w.callers, PointOk w.host caller.request caller.point
  lock : ∀ (i j : Nat) (caller other : Caller), w.callers[i]? = some caller →
    w.callers[j]? = some other → caller.point.locked = true → other.point.locked = true → i = j

section
variable {w v : World}

theorem not_busy (hfree : w.busy = false) {caller : Caller} (hmem : caller ∈ w.callers) :
    caller.point.locked = false := by
  rw [World.busy, List.any_eq_false] at hfree
  simpa using hfree caller hmem

theorem sound_start (nativeId : String) (releasable : Bool) :
    Sound (startWorld nativeId releasable) := by
  refine ⟨base_start nativeId releasable, ?_, ?_, ?_⟩
  · intro row hrow
    cases hrow
  · intro caller hcaller
    cases hcaller
  · intro i j caller other hi
    cases hi

/-- A caller arrives; it may hold the lock where nobody did. -/
theorem Sound.call (hs : Sound w) {wakes : List WakeOperation} {caller : Caller}
    (hw : WakesOk w.host wakes) (hp : PointOk w.host caller.request caller.point)
    (hfree : caller.point.locked = true → w.busy = false) :
    Sound { w with wakes, callers := w.callers ++ [caller] } := by
  refine ⟨hs.base, hw, ?_, ?_⟩
  · intro other hother
    rcases List.mem_append.mp hother with hold | hlast
    · exact hs.points other hold
    · obtain rfl := List.mem_singleton.mp hlast
      exact hp
  · -- the index of a caller that holds the lock is an old one, or the new one where none was
    have hcases : ∀ i (other : Caller), (w.callers ++ [caller])[i]? = some other →
        other.point.locked = true → w.callers[i]? = some other ∨
          (i = w.callers.length ∧ w.busy = false) := by
      intro i other hi hlocked
      rw [List.getElem?_append] at hi
      split at hi
      · exact .inl hi
      · rename_i hge
        have hindex : i - w.callers.length = 0 := by
          by_contra hne
          rw [List.getElem?_eq_none (by simp; omega)] at hi
          cases hi
        rw [hindex] at hi
        obtain rfl := Option.some.inj hi
        exact .inr ⟨by omega, hfree hlocked⟩
    intro i j caller' other hi hj hlocked hlocked'
    rcases hcases i caller' hi hlocked with hold | ⟨hlast, hnone⟩
    · rcases hcases j other hj hlocked' with hold' | ⟨-, hnone⟩
      · exact hs.lock i j caller' other hold hold' hlocked hlocked'
      · rw [not_busy hnone (List.mem_of_getElem? hold)] at hlocked
        cases hlocked
    · rcases hcases j other hj hlocked' with hold' | ⟨hlast', -⟩
      · rw [not_busy hnone (List.mem_of_getElem? hold')] at hlocked'
        cases hlocked'
      · rw [hlast, hlast']

theorem Sound.moved (hs : Sound w) {host : Host} (hb : Base host) (hl : Later w.host host)
    (hsleep : host.sleep = w.host.sleep)
    (hwriting : ∀ caller ∈ w.callers, ∀ row, caller.point = .writing row →
      Provable w.host row → Provable host row) : Sound { w with host } :=
  ⟨hb, hs.wakes.later hl, fun caller hcaller =>
    (hs.points caller hcaller).moved hl hs.base hsleep (hwriting caller hcaller), hs.lock⟩

/-- A caller goes on. -/
theorem Sound.act (hs : Sound w) {i : Nat} {caller : Caller} {act : Act} {host : Host}
    {wakes : List WakeOperation} {point : Point} (hi : w.callers[i]? = some caller)
    (hfree : act.locks = true → w.busy = false)
    (hpid : ∀ identity, act = .launch identity →
      (w.host.hasOwner || keepsPid w.host identity) = true)
    (hstep : callerStep w.host w.wakes caller act = some (host, wakes, point)) :
    Sound ⟨host, wakes, w.callers.set i { caller with point }⟩ := by
  have hmem := List.mem_of_getElem? hi
  obtain ⟨hb, hw, hp, hl, hhost, hlocks⟩ :=
    (callerStep_called hstep).ok hs.base hs.wakes (hs.points caller hmem) hpid
  have hlength : i < w.callers.length := (List.getElem?_eq_some_iff.mp hi).1
  -- what stands at an index afterwards is the caller that went on, or one that stayed
  have hcases : ∀ j (other : Caller), (w.callers.set i { caller with point })[j]? = some other →
      (i = j ∧ other = { caller with point }) ∨ (i ≠ j ∧ w.callers[j]? = some other) := by
    intro j other hj
    by_cases hij : i = j
    · subst hij
      rw [List.getElem?_set_self hlength] at hj
      exact .inl ⟨rfl, (Option.some.inj hj).symm⟩
    · rw [List.getElem?_set_ne hij] at hj
      exact .inr ⟨hij, hj⟩
  refine ⟨hb, hw, ?_, ?_⟩
  · intro other hother
    obtain ⟨j, hj⟩ := List.getElem?_of_mem hother
    rcases hcases j other hj with ⟨-, rfl⟩ | ⟨hij, hold⟩
    · exact hp
    · have hother_mem := List.mem_of_getElem? hold
      have hother_ok := hs.points other hother_mem
      rcases hhost with rfl | hlock | hheld
      · exact hother_ok
      · exact hother_ok.later hl hs.base (not_busy (hfree hlock) hother_mem)
      · apply hother_ok.later hl hs.base
        by_contra hlocked
        have hlocked' : other.point.locked = true := by simpa using hlocked
        exact hij (hs.lock i j caller other hi hold hheld hlocked')
  · intro j l left right hj hl' hleft hright
    rcases hcases j left hj with ⟨rfl, rfl⟩ | ⟨hij, hold⟩
    · rcases hcases l right hl' with ⟨rfl, -⟩ | ⟨-, hold'⟩
      · rfl
      · have hnone := not_busy (hfree (hlocks hleft)) (List.mem_of_getElem? hold')
        rw [hright] at hnone
        cases hnone
    · rcases hcases l right hl' with ⟨rfl, rfl⟩ | ⟨-, hold'⟩
      · have hnone := not_busy (hfree (hlocks hright)) (List.mem_of_getElem? hold)
        rw [hleft] at hnone
        cases hnone
      · exact hs.lock j l left right hold hold' hleft hright

variable {act : Act} {e : Event} {h : Host}

theorem step_act {i : Nat} (hstep : step w (.act i act) = some v) :
    ∃ caller host wakes point, w.callers[i]? = some caller ∧
      (act.locks = true → w.busy = false) ∧
      callerStep w.host w.wakes caller act = some (host, wakes, point) ∧
      v = ⟨host, wakes, w.callers.set i { caller with point }⟩ := by
  simp only [step] at hstep
  split at hstep
  · rename_i caller hi
    split at hstep
    · cases hstep
    · rename_i hfree
      obtain ⟨⟨host, wakes, point⟩, hcaller, rfl⟩ := Option.map_eq_some_iff.mp hstep
      refine ⟨caller, host, wakes, point, hi, ?_, hcaller, rfl⟩
      intro hlocks
      simpa [hlocks] using hfree
  · cases hstep

theorem step_sound (hs : Sound w) (hkeeps : keepsOrder w e = true)
    (hstep : step w e = some v) : Sound v := by
  cases e with
  | sleep operationId revision facts reason =>
    simp only [step] at hstep
    split at hstep
    · cases hstep
    · rename_i hfree
      obtain rfl := Option.some.inj hstep
      refine hs.call hs.wakes ?_ fun _ => by simpa using hfree
      apply admitSleep_ok hs.base
      intro hawake hrevision heligible hmem
      simp [keepsOrder, hmem, hawake, hrevision, heligible] at hkeeps
  | wake operationId =>
    simp only [step] at hstep
    split at hstep
    · cases hstep
    · rename_i hfree
      obtain rfl := Option.some.inj hstep
      obtain ⟨hjournal, hp⟩ := admitWake_ok hs.wakes operationId
      exact hs.call hjournal hp fun _ => by simpa using hfree
  | messageWake =>
    obtain rfl := Option.some.inj hstep
    refine hs.call hs.wakes rfl ?_
    intro hlocked
    cases hlocked
  | act i act =>
    obtain ⟨caller, host, wakes, point, hi, hfree, hcaller, rfl⟩ := step_act hstep
    refine hs.act hi hfree ?_ hcaller
    rintro identity rfl
    exact hkeeps
  | starts identity =>
    simp only [step] at hstep
    split at hstep
    · cases hstep
    · rename_i hguard
      obtain rfl := Option.some.inj hstep
      simp only [Bool.or_eq_true, Bool.not_eq_true', not_or, Bool.not_eq_true,
        Bool.not_eq_false] at hguard
      obtain ⟨⟨⟨hopen, -⟩, -⟩, hfresh⟩ := hguard
      simp only [keepsOrder, Bool.and_eq_true, List.all_eq_true, Bool.not_eq_true'] at hkeeps
      refine hs.moved (hs.base.startOwner hfresh hkeeps.2 hopen) (later_startOwner hfresh) rfl ?_
      intro caller hcaller row hwriting
      have hproving := hkeeps.1 caller hcaller
      rw [hwriting] at hproving
      cases hproving
  | spawns identity member =>
    simp only [step] at hstep
    split at hstep
    · rename_i hfresh
      obtain rfl := Option.some.inj hstep
      exact hs.moved (hs.base.spawn hfresh hkeeps) (later_spawn member hfresh) rfl
        fun _ _ _ _ hp => hp.spawn identity member
    · cases hstep
  | exits identity =>
    obtain rfl := Option.some.inj hstep
    exact hs.moved (hs.base.leave _) (later_leave _) rfl fun _ _ _ _ hp => hp.leave _
  | publishes providerPid =>
    simp only [step] at hstep
    split at hstep
    · rename_i owner hfind
      obtain rfl := Option.some.inj hstep
      have hmem := List.mem_of_find?_eq_some hfind
      have howner := List.find?_some hfind
      exact hs.moved (hs.base.publish hmem howner providerPid) (later_snapshot _) rfl
        fun _ _ _ _ hp => hp.publish hmem howner providerPid
    · cases hstep
  | expires =>
    obtain rfl := Option.some.inj hstep
    exact hs.moved hs.base.expire (later_snapshot _) rfl fun _ _ _ _ hp => hp.expire
  | endsDelegation =>
    obtain rfl := Option.some.inj hstep
    exact hs.moved hs.base.endsDelegation later_endsDelegation rfl
      fun _ _ _ _ hp => hp.endsDelegation

/-! What the invariant says of a world, and what its steps do. -/

theorem expectedReceipt_same (h : Host) {left right : Request}
    (hsame : left.sameOperation right = true) : expectedReceipt h left = expectedReceipt h right := by
  cases left with
  | sleep operationId revision =>
    cases right with
    | sleep other revision' =>
      obtain rfl : operationId = other := by simpa [Request.sameOperation] using hsame
      rfl
    | wake other => cases hsame
    | message => cases hsame
  | wake operationId =>
    cases right with
    | sleep other revision => cases hsame
    | wake other =>
      obtain rfl : operationId = other := by simpa [Request.sameOperation] using hsame
      rfl
    | message => cases hsame
  | message => cases hsame

theorem Sound.orderly (hs : Sound w) : Orderly w := by
  refine ⟨hs.base.forward, hs.base.once, ?_, hs.base.acknowledged⟩
  intro caller hcaller other hother answer given hsame hanswer hgiven
  have hcaller_ok := hs.points caller hcaller
  have hother_ok := hs.points other hother
  rw [hanswer] at hcaller_ok
  rw [hgiven] at hother_ok
  have hboth : some answer.plain = some given.plain :=
    hcaller_ok.trans ((expectedReceipt_same w.host hsame).trans hother_ok.symm)
  exact Option.some.inj hboth

theorem startOwner_waking {identity : ProcessIdentity}
    (hstarted : (h.startOwner identity).started ≠ h.started) :
    ∃ row, h.sleep = some row ∧ row.phase = .waking := by
  by_contra hnone
  apply hstarted
  have hwakes : h.wakesFor = none := by
    cases hsleep : h.sleep with
    | none => simp [Host.wakesFor, hsleep]
    | some row =>
      have hphase : row.phase ≠ .waking := fun hwaking => hnone ⟨row, hsleep, hwaking⟩
      simp [Host.wakesFor, hsleep, hphase]
  simp [Host.startOwner, hwakes]

theorem settle_started (h : Host) (row : SleepRecord) (duplicate : Bool) :
    (settle h row duplicate).1.started = h.started := by
  unfold settle
  split
  · rfl
  · split
    · rfl
    · simp only
      split <;> rfl

theorem enter_started (h : Host) (expected : Option String) (row : SleepRecord) :
    (enter h expected row).1.started = h.started := by
  unfold enter
  split
  · rfl
  · split
    · rfl
    · split
      · rfl
      · split <;> rfl

theorem acknowledge_started (h : Host) (expected : Option String) (row : SleepRecord)
    (sighting : Sighting) : (acknowledge h expected row sighting).1.started = h.started := by
  unfold acknowledge
  split
  · rfl
  · split
    · rfl
    · split <;> rfl

variable {k : Host} {wakes after : List WakeOperation} {request : Request} {before point : Point}
  {operationId : String}

theorem Called.started (hcalled : Called h wakes request act before k after point)
    (hstarted : k.started ≠ h.started) : ∃ row, h.sleep = some row ∧ row.phase = .waking := by
  cases hcalled with
  | settle row duplicate => exact absurd (settle_started h row duplicate) hstarted
  | enter expected row => exact absurd (enter_started h expected row) hstarted
  | acknowledge expected row sighting =>
    exact absurd (acknowledge_started h expected row sighting) hstarted
  | launch identity expected row hlaunch =>
    unfold Sleep.launch at hlaunch
    split at hlaunch
    · obtain rfl := Option.some.inj hlaunch
      exact absurd rfl hstarted
    · split at hlaunch
      · obtain rfl := Option.some.inj hlaunch
        exact startOwner_waking hstarted
      · cases hlaunch
  | _ => exact absurd rfl hstarted

theorem step_released (hs : Sound w) (hstep : step w e = some v)
    (hstarted : v.host.started ≠ w.host.started) :
    ∃ row, w.host.sleep = some row ∧ row.phase = .waking ∧ Released w.host row := by
  have hwaking : ∃ row, w.host.sleep = some row ∧ row.phase = .waking := by
    cases e with
    | act i act =>
      obtain ⟨caller, host, wakes, point, -, -, hcaller, rfl⟩ := step_act hstep
      exact (callerStep_called hcaller).started hstarted
    | starts identity =>
      simp only [step] at hstep
      split at hstep
      · cases hstep
      · obtain rfl := Option.some.inj hstep
        exact startOwner_waking hstarted
    | _ =>
      simp only [step] at hstep
      first
        | (obtain rfl := Option.some.inj hstep; exact absurd rfl hstarted)
        | (split at hstep <;>
            first
              | (obtain rfl := Option.some.inj hstep; exact absurd rfl hstarted)
              | cases hstep)
  obtain ⟨row, hrow, hphase⟩ := hwaking
  refine ⟨row, hrow, hphase, hs.base.woken row hrow ?_⟩
  rw [hphase]
  decide

theorem sleepAnew_refused {revision : Revision} {proof : IdleProof}
    (hreleasable : h.releasable = true)
    (hkeeps : ¬ (proof.revision = revision ∧ proof.eligible = true)) :
    ∃ refusal, sleepAnew h operationId revision proof = .done (.error refusal) := by
  unfold sleepAnew
  split
  · exact ⟨_, rfl⟩
  · rename_i hrevision
    have hineligible : proof.eligible = false := by
      by_contra heligible
      exact hkeeps ⟨not_not.mp hrevision, by simpa using heligible⟩
    simp [hreleasable, hineligible]

theorem Base.releasable_of_mem (hb : Base h) {operationId : String}
    (hmem : operationId ∈ h.operations) : h.releasable = true := by
  obtain ⟨row, hrow, -⟩ := List.mem_map.mp hmem
  exact hb.releasable row hrow

theorem admitSleep_refused (hb : Base h) {operationId : String} {revision : Revision}
    {proof : IdleProof} (hsuperseded : Superseded h operationId)
    (hkeeps : (h.sleep.all fun row => row.operationId != operationId && row.phase == .awake) = true →
      ¬ (proof.revision = revision ∧ proof.eligible = true)) :
    ∃ refusal, admitSleep h operationId revision proof = .done (.error refusal) := by
  obtain ⟨hmem, hwoken⟩ := hsuperseded
  have hreleasable := hb.releasable_of_mem hmem
  unfold admitSleep
  cases hsleep : h.sleep with
  | none =>
    apply sleepAnew_refused hreleasable
    apply hkeeps
    rw [hsleep]
    rfl
  | some prior =>
    simp only
    split
    · rename_i hid
      split
      · exact ⟨_, rfl⟩
      · have hhigh := hwoken prior hsleep hid
        rw [if_pos]
        · exact ⟨_, rfl⟩
        · cases hphase : prior.phase <;> simp_all [Phase.rank]
    · rename_i hid
      split
      · exact ⟨_, rfl⟩
      · rename_i hawake
        apply sleepAnew_refused hreleasable
        apply hkeeps
        rw [hsleep]
        simpa [hid] using hawake

/-- A caller whose sleep is no longer in the slot is refused by the next admission. -/
theorem Called.late (hcalled : Called h wakes request act before k after point)
    (hlocks : act.locks = true)
    (habout : before.about = some operationId)
    (hother : ∀ row, h.sleep = some row → row.operationId ≠ operationId) :
    k = h ∧ ∃ refusal, point = .done (.error refusal) := by
  cases hcalled with
  | settle row duplicate =>
    obtain rfl := Option.some.inj habout
    unfold Sleep.settle
    cases hsleep : h.sleep with
    | none => exact ⟨rfl, _, rfl⟩
    | some current =>
      simp only [if_pos (Or.inl (hother current hsleep))]
      exact ⟨trivial, _, rfl⟩
  | enter expected row =>
    obtain rfl := Option.some.inj habout
    unfold Sleep.enter
    split
    · exact ⟨rfl, _, rfl⟩
    · cases hsleep : h.sleep with
      | none => exact ⟨rfl, _, rfl⟩
      | some current =>
        simp only [if_pos (hother current hsleep)]
        exact ⟨trivial, _, rfl⟩
  | acknowledge expected row sighting =>
    obtain rfl := Option.some.inj habout
    unfold Sleep.acknowledge
    cases hsleep : h.sleep with
    | none => exact ⟨rfl, _, rfl⟩
    | some current =>
      simp only [if_pos (hother current hsleep)]
      exact ⟨trivial, _, rfl⟩
  | record wakeId expected hwake =>
    obtain rfl := Option.some.inj habout
    have hnot : h.sleep.map (fun row => row.operationId) ≠ some expected := by
      intro hsame
      obtain ⟨row, hrow, hid⟩ := Option.map_eq_some_iff.mp hsame
      exact hother row hrow hid
    simp only [Sleep.record, if_pos hnot]
    exact ⟨trivial, _, rfl⟩
  | _ => cases hlocks

theorem settle_woken {row current : SleepRecord} (duplicate : Bool)
    (hcurrent : h.sleep = some current) (hhigh : 2 ≤ current.phase.rank) :
    settle h row duplicate = (h, .done (.error followedByAnother)) := by
  have hphase : current.phase ≠ .requested ∧ current.phase ≠ .sleeping := by
    cases hp : current.phase <;> simp_all [Phase.rank]
  simp only [settle, hcurrent, if_pos (Or.inr hphase)]

theorem step_obeys (hs : Sound w) (hkeeps : keepsOrder w e = true)
    (hstep : step w e = some v) : Obeys w e v := by
  refine ⟨step_released hs hstep, ?_, ?_, ?_, ?_, ?_⟩
  · rintro operationId revision facts reason rfl hsuperseded
    simp only [step] at hstep
    split at hstep
    · cases hstep
    · obtain rfl := Option.some.inj hstep
      have hmem := hsuperseded.1
      have hnot : (w.host.sleep.all fun row =>
            row.operationId != operationId && row.phase == .awake) = true →
          ¬ ((idleProof w.host facts reason).revision = revision ∧
            (idleProof w.host facts reason).eligible = true) := by
        intro hawake hboth
        simp [keepsOrder, hmem, hawake, hboth.1, hboth.2] at hkeeps
      obtain ⟨refusal, hrefused⟩ := admitSleep_refused hs.base hsuperseded hnot
      exact ⟨rfl, refusal, by rw [hrefused]⟩
  · rintro i act caller operationId rfl hlocks hi habout hother
    obtain ⟨caller', host, wakes, point, hi', -, hcaller, rfl⟩ := step_act hstep
    obtain rfl := Option.some.inj (hi.symm.trans hi')
    obtain ⟨rfl, refusal, rfl⟩ := (callerStep_called hcaller).late hlocks habout hother
    exact ⟨rfl, refusal, rfl⟩
  · rintro i caller row duplicate current rfl hi hpoint hcurrent hhigh
    obtain ⟨caller', host, wakes, point, hi', -, hcaller, rfl⟩ := step_act hstep
    obtain rfl := Option.some.inj (hi.symm.trans hi')
    simp only [callerStep, hpoint, settle_woken duplicate hcurrent hhigh, Option.some.injEq,
      Prod.mk.injEq] at hcaller
    obtain ⟨rfl, rfl, rfl⟩ := hcaller
    exact ⟨rfl, _, rfl⟩
  · rintro operationId revision facts reason row rfl hrow hid hrevision hlow
    simp only [step] at hstep
    split at hstep
    · cases hstep
    · obtain rfl := Option.some.inj hstep
      refine ⟨rfl, ?_⟩
      have hphase : ¬ (row.phase = .awake ∨ row.phase = .waking) := by
        rintro (hphase | hphase) <;> simp [hphase, Phase.rank] at hlow
      simp only [admitSleep, hrow, if_pos hid, hrevision, ne_eq, not_true_eq_false, if_false,
        if_neg hphase]
  · rintro operationId prior result row rfl hfind hresult hrow
    simp only [step] at hstep
    split at hstep
    · cases hstep
    · obtain rfl := Option.some.inj hstep
      simp only [admitWake, hrow, hfind, hresult]
      exact ⟨trivial, trivial⟩

/-- In every run that meets the condition at each step: phases move forward, no operation is taken
twice, an operation has one receipt, a wake is acknowledged by an owner that was started for it; and
each step starts an owner for a wake only once the recorded processes are gone, refuses what is
superseded and answers what is replayed with its receipt. -/
theorem sleep_and_wake_keep_order (nativeId : String) (releasable : Bool) (es : List Event)
    (w : World) (hrun : run step (startWorld nativeId releasable) es = some w)
    (hkeeps : Along step (fun v e => keepsOrder v e = true) (startWorld nativeId releasable) es) :
    Orderly w ∧ Along step (fun v e => ∀ u, step v e = some u → Obeys v e u)
      (startWorld nativeId releasable) es := by
  have hstart := sound_start nativeId releasable
  constructor
  · exact (run_invariant_along (fun _ _ _ hs hk hstep => step_sound hs hk hstep) hrun hkeeps
      hstart).orderly
  · exact along_of_invariant (fun _ _ _ hs hk hstep => step_sound hs hk hstep)
      (fun _ _ hs hk _ hstep => step_obeys hs hk hstep) hkeeps hstart

end

/-! A sleep and its wake, and the runs that break the order. -/

/-- An owner with its provider starts and publishes its status. -/
def owned (pid : Nat) (startTime : String) (start : Event) : List Event :=
  [start, .spawns ⟨pid + 1, startTime⟩ true, .publishes (pid + 1)]

/-- The processes of `owned`, as an idle proof lists them. -/
def proven (pid : Nat) (startTime : String) : Revision :=
  ⟨"idle", [⟨pid, startTime⟩, ⟨pid + 1, startTime⟩]⟩

/-- Caller `i` sleeps the session of these processes. -/
def slept (i : Nat) (operationId : String) (pid : Nat) (startTime : String) : List Event :=
  [.sleep operationId (proven pid startTime) "idle" none, .act i .write,
    .exits ⟨pid, startTime⟩, .act i .poll, .exits ⟨pid + 1, startTime⟩, .act i .poll,
    .act i .settle]

/-- Caller `i` wakes the session with a new owner. -/
def woken (i : Nat) (operationId : String) (pid : Nat) (startTime : String) : List Event :=
  [.wake operationId, .act i .read, .act i .poll, .act i .enter] ++
    owned pid startTime (.act i (.launch ⟨pid, startTime⟩)) ++
    [.act i .see, .act i .acknowledge, .act i .record]

def sleptAndWoken : List Event :=
  owned 10 "t1" (.starts ⟨10, "t1"⟩) ++ slept 0 "a" 10 "t1" ++ woken 1 "w" 20 "t2" ++
    [.wake "w", .sleep "a" (proven 10 "t1") "idle" none]

/-- The first sleep is asked for once more, after a second one and its wake. -/
def askedAgain : List Event :=
  owned 10 "t1" (.starts ⟨10, "t1"⟩) ++ slept 0 "a" 10 "t1" ++ woken 1 "w" 20 "t2" ++
    slept 2 "b" 20 "t2" ++ woken 3 "v" 30 "t3" ++
    [.sleep "a" (proven 30 "t3") "idle" none, .act 4 .write]

/-- The new owner ends, and a process that is none of the session's gets its pid. -/
def takenOver : List Event :=
  owned 10 "t1" (.starts ⟨10, "t1"⟩) ++ slept 0 "a" 10 "t1" ++
    [.wake "w", .act 1 .read, .act 1 .poll, .act 1 .enter] ++
    owned 20 "t2" (.act 1 (.launch ⟨20, "t2"⟩)) ++
    [.exits ⟨20, "t2"⟩, .spawns ⟨20, "t3"⟩ false, .act 1 .see, .act 1 .acknowledge]

/-- The daemon restarts the owner between the idle proof and the row. -/
def restarted : List Event :=
  owned 10 "t1" (.starts ⟨10, "t1"⟩) ++
    [.sleep "a" (proven 10 "t1") "idle" none, .exits ⟨10, "t1"⟩, .exits ⟨11, "t1"⟩] ++
    owned 20 "t2" (.starts ⟨20, "t2"⟩) ++
    [.act 0 .write, .act 0 .poll, .act 0 .settle, .wake "w", .act 1 .read, .act 1 .poll,
      .act 1 .enter, .act 1 (.launch ⟨30, "t3"⟩), .act 1 .see, .act 1 .acknowledge]

theorem sleep_and_wake_keep_order_once :
    ∃ w, run step (startWorld "n" true) sleptAndWoken = some w ∧
      w.host.log = [("a", .requested), ("a", .sleeping), ("a", .waking), ("a", .awake)] ∧
      Orderly w ∧ Along step (fun v e => ∀ u, step v e = some u → Obeys v e u)
        (startWorld "n" true) sleptAndWoken := by
  have hruns : ((run step (startWorld "n" true) sleptAndWoken).any fun w =>
      decide (w.host.log =
        [("a", .requested), ("a", .sleeping), ("a", .waking), ("a", .awake)])) = true := by
    decide
  obtain ⟨w, hrun, hw⟩ := (Option.any_eq_true _ _).mp hruns
  exact ⟨w, hrun, of_decide_eq_true hw, sleep_and_wake_keep_order "n" true sleptAndWoken w hrun
    (along_of_check (C := keepsOrder) (by decide))⟩

/-- An operation goes back to its first phase, a wake is acknowledged for a dead owner, and one by
an owner that was not started for it. -/
theorem sleep_and_wake_lose_order :
    (∃ w, run step (startWorld "n" true) askedAgain = some w ∧
      w.host.log.filter (fun entry => entry.1 == "a") =
        [("a", .requested), ("a", .sleeping), ("a", .waking), ("a", .awake), ("a", .requested)] ∧
      ¬ Orderly w) ∧
    (∃ w, run step (startWorld "n" true) takenOver = some w ∧
      w.host.acknowledged = [⟨"a", ⟨20, "t2"⟩, some ⟨20, "t3"⟩⟩] ∧ ¬ Orderly w) ∧
    ∃ w, run step (startWorld "n" true) restarted = some w ∧
      w.host.acknowledged = [⟨"a", ⟨20, "t2"⟩, some ⟨20, "t2"⟩⟩] ∧ w.host.started = [] ∧
      ¬ Orderly w := by
  refine ⟨?_, ?_, ?_⟩
  · have hruns : ((run step (startWorld "n" true) askedAgain).any fun w =>
        decide (w.host.log.filter (fun entry => entry.1 == "a") =
            [("a", .requested), ("a", .sleeping), ("a", .waking), ("a", .awake),
              ("a", .requested)] ∧ ¬ w.host.operations.Nodup)) = true := by decide
    obtain ⟨w, hrun, hw⟩ := (Option.any_eq_true _ _).mp hruns
    obtain ⟨hlog, htwice⟩ := of_decide_eq_true hw
    exact ⟨w, hrun, hlog, fun h => htwice h.once⟩
  · have hruns : ((run step (startWorld "n" true) takenOver).any fun w =>
        decide (w.host.acknowledged = [⟨"a", ⟨20, "t2"⟩, some ⟨20, "t3"⟩⟩])) = true := by
      decide
    obtain ⟨w, hrun, hw⟩ := (Option.any_eq_true _ _).mp hruns
    have hack := of_decide_eq_true hw
    refine ⟨w, hrun, hack, ?_⟩
    intro h
    obtain ⟨row, -, -, halive, -⟩ := h.acknowledged ⟨"a", ⟨20, "t2"⟩, some ⟨20, "t3"⟩⟩ (by simp [hack])
    simp at halive
  · have hruns : ((run step (startWorld "n" true) restarted).any fun w =>
        decide (w.host.acknowledged = [⟨"a", ⟨20, "t2"⟩, some ⟨20, "t2"⟩⟩] ∧
          w.host.started = [])) = true := by decide
    obtain ⟨w, hrun, hw⟩ := (Option.any_eq_true _ _).mp hruns
    obtain ⟨hack, hstarted⟩ := of_decide_eq_true hw
    refine ⟨w, hrun, hack, hstarted, ?_⟩
    intro h
    obtain ⟨row, -, -, -, hstart, -⟩ := h.acknowledged ⟨"a", ⟨20, "t2"⟩, some ⟨20, "t2"⟩⟩ (by simp [hack])
    rw [hstarted] at hstart
    cases hstart

end Ccmux.Session.Sleep
