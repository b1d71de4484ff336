/- Module: Ccmux/Session/SleepCalls
   source: src/session/sleep/operations.ts
   digest: Where a caller may stand, and what each part of its call leaves. -/

import Ccmux.Session.SleepHost

namespace Ccmux.Session.Sleep

/-- The receipt of an answer, whether it is given again or not. -/
def SleepReceipt.plain (r : SleepReceipt) : SleepReceipt := { r with duplicate := false }

/-- The receipt of a request that is answered. -/
def expectedReceipt (h : Host) : Request → Option SleepReceipt
  | .sleep operationId _ =>
    some (if h.releasable then receipt h operationId .sleeping false else unsupported h operationId)
  | .wake operationId => some (receipt h operationId .awake false)
  | .message => none

/-- A wake by its own id records its result; one for a message is bound to no sleep. -/
def Bound (request : Request) : Option String → Prop
  | some _ => ∃ operationId, request = .wake operationId
  | none => request = .message

def PointOk (h : Host) (request : Request) : Point → Prop
  | .writing row => (∃ revision, request = .sleep row.operationId revision) ∧ Provable h row
  | .releasing row _ => (∃ revision, request = .sleep row.operationId revision) ∧ Known h row
  | .settling row _ => (∃ revision, request = .sleep row.operationId revision) ∧ Known h row
  | .reading expected => Bound request expected
  | .waiting expected row => Bound request expected ∧ Known h row
  | .entering expected row => Bound request expected ∧ Known h row ∧ Released h row
  | .launching expected row => Bound request expected ∧ Known h row ∧
      ∃ current, h.sleep = some current ∧ current.operationId = row.operationId ∧
        current.phase = .waking
  | .watching expected row => Bound request expected ∧ Known h row ∧ Woken h row
  | .acknowledging expected row sighting => Bound request expected ∧ Known h row ∧ Woken h row ∧
      ∀ current, h.sleep = some current → current.operationId = row.operationId →
        current.phase = .waking → RightfulSighting h row sighting
  | .recording expected => Bound request (some expected)
  | .done (.ok answer) => answer.map SleepReceipt.plain = expectedReceipt h request
  | .done (.error _) => True

def WakesOk (h : Host) (wakes : List WakeOperation) : Prop :=
  ∀ row ∈ wakes, ∀ result, row.result = some result →
    result.plain = receipt h row.operationId .awake false

section
variable {h k : Host} {row : SleepRecord}

theorem Later.expected (hl : Later h k) (request : Request) :
    expectedReceipt k request = expectedReceipt h request := by
  cases request <;>
    simp only [expectedReceipt, receipt, unsupported, hl.nativeId, hl.releasable]

/-- A caller that does not hold the lock stands where it stood. -/
theorem PointOk.later (hl : Later h k) (hb : Base h) {request : Request} {point : Point}
    (hp : PointOk h request point) (hfree : point.locked = false) : PointOk k request point := by
  cases point with
  | writing row => cases hfree
  | launching expected row => cases hfree
  | releasing row duplicate => exact ⟨hp.1, hl.known hp.2⟩
  | settling row duplicate => exact ⟨hp.1, hl.known hp.2⟩
  | reading expected => exact hp
  | waiting expected row => exact ⟨hp.1, hl.known hp.2⟩
  | entering expected row =>
    exact ⟨hp.1, hl.known hp.2.1, hl.released hb hp.2.1 hp.2.2⟩
  | watching expected row =>
    exact ⟨hp.1, hl.known hp.2.1, hl.woken hp.2.1 hp.2.2⟩
  | acknowledging expected row sighting =>
    obtain ⟨hbound, hknown, hwoken, hsighting⟩ := hp
    refine ⟨hbound, hl.known hknown, hl.woken hknown hwoken, ?_⟩
    intro current hcurrent hid hwaking
    obtain ⟨before, hbefore, hsame, hle⟩ := hl.before hknown hcurrent hid
    have hlow := hwoken before hbefore hsame
    rw [hwaking] at hle
    exact (hsighting before hbefore hsame (Phase.rank_waking hlow hle)).later hl
  | recording expected => exact hp
  | done answer =>
    cases answer with
    | error refusal => trivial
    | ok answer => exact hp.trans (hl.expected request).symm

theorem WakesOk.later (hl : Later h k) {wakes : List WakeOperation} (hw : WakesOk h wakes) :
    WakesOk k wakes := by
  intro row hrow result hresult
  rw [hw row hrow result hresult]
  simp only [receipt, hl.nativeId]

theorem PointOk.moved (hl : Later h k) (hb : Base h) (hsleep : k.sleep = h.sleep)
    {request : Request} {point : Point}
    (hwriting : ∀ row, point = .writing row → Provable h row → Provable k row)
    (hp : PointOk h request point) : PointOk k request point := by
  cases hlocked : point.locked with
  | false => exact hp.later hl hb hlocked
  | true =>
    cases point with
    | writing row => exact ⟨hp.1, hwriting row rfl hp.2⟩
    | launching expected row =>
      refine ⟨hp.1, hl.known hp.2.1, ?_⟩
      rw [hsleep]
      exact hp.2.2
    | _ => cases hlocked

/-! What each part of a call leaves. -/

variable {facts : String} {reason : Option String} {after : List WakeOperation} {act : Act}
  {before point : Point}

theorem mem_idleProof {process : Process} (hprocess : process ∈ h.table)
    (hmember : process.member = true) :
    process.identity ∈ (idleProof h facts reason).processes :=
  List.mem_map_of_mem (List.mem_filter.mpr ⟨hprocess, hmember⟩)

theorem owned_of_eligible (heligible : (idleProof h facts reason).eligible = true) :
    h.owned = true := by
  cases howned : h.owned with
  | true => rfl
  | false =>
    simp only [IdleProof.eligible, idleProof, howned, Bool.not_false, if_true] at heligible
    split at heligible
    · cases heligible
    · split at heligible
      · cases heligible
      · cases heligible

theorem Base.provable (hb : Base h) {operationId facts : String} {reason : Option String}
    (hfresh : operationId ∉ h.operations) (hreleasable : h.releasable = true)
    (heligible : (idleProof h facts reason).eligible = true) :
    Provable h ⟨operationId, idleProof h facts reason, .requested⟩ := by
  refine ⟨rfl, hfresh, hreleasable, ?_, ?_, ?_⟩
  · intro held hheld
    obtain ⟨process, hprocess, rfl⟩ := List.mem_map.mp hheld
    exact hb.known _ (List.mem_map_of_mem (List.mem_of_mem_filter hprocess))
  · intro process hprocess howner
    exact mem_idleProof hprocess (hb.members process hprocess howner)
  · intro snapshot hsnapshot
    have howned := owned_of_eligible heligible
    simp only [Host.owned, hsnapshot, Option.any_some, Bool.and_eq_true, List.any_eq_true,
      beq_iff_eq] at howned
    obtain ⟨-, process, hprocess, ⟨-, hmember⟩, hpid⟩ := howned
    rw [← hpid]
    exact List.mem_map_of_mem (mem_idleProof hprocess hmember)

theorem sleepAnew_ok (hb : Base h) {operationId facts : String} {reason : Option String}
    {revision : Revision}
    (hkeeps : (idleProof h facts reason).revision = revision →
      (idleProof h facts reason).eligible = true → operationId ∉ h.operations) :
    PointOk h (.sleep operationId revision)
      (sleepAnew h operationId revision (idleProof h facts reason)) := by
  unfold sleepAnew
  split
  · trivial
  · rename_i hrevision
    split
    · rename_i hunsupported
      have hnot : h.releasable = false := by simpa using hunsupported
      simp [PointOk, expectedReceipt, hnot, SleepReceipt.plain, unsupported]
    · rename_i hreleasable
      split
      · trivial
      · rename_i heligible
        have heligible' : (idleProof h facts reason).eligible = true := by simpa using heligible
        refine ⟨⟨revision, rfl⟩, hb.provable ?_ (by simpa using hreleasable) heligible'⟩
        exact hkeeps (not_not.mp hrevision) heligible'

theorem admitSleep_ok (hb : Base h) {operationId facts : String} {reason : Option String}
    {revision : Revision}
    (hkeeps : (h.sleep.all fun row => row.operationId != operationId && row.phase == .awake) = true →
      (idleProof h facts reason).revision = revision →
      (idleProof h facts reason).eligible = true → operationId ∉ h.operations) :
    PointOk h (.sleep operationId revision)
      (admitSleep h operationId revision (idleProof h facts reason)) := by
  unfold admitSleep
  cases hsleep : h.sleep with
  | none =>
    apply sleepAnew_ok hb
    apply hkeeps
    rw [hsleep]
    rfl
  | some prior =>
    simp only
    split
    · rename_i hid
      split
      · trivial
      · split
        · trivial
        · exact ⟨⟨revision, by rw [hid]⟩, hb.slot prior hsleep⟩
    · rename_i hid
      split
      · trivial
      · rename_i hawake
        apply sleepAnew_ok hb
        apply hkeeps
        rw [hsleep]
        simpa [hid] using hawake

variable {wakes : List WakeOperation} {request : Request}

theorem admitWake_ok (hw : WakesOk h wakes) (operationId : String) :
    WakesOk h (admitWake h wakes operationId).1 ∧
      PointOk h (.wake operationId) (admitWake h wakes operationId).2 := by
  unfold admitWake
  cases h.sleep with
  | none => exact ⟨hw, trivial⟩
  | some row =>
    simp only
    split
    · rename_i prior hfind
      have hid : prior.operationId = operationId := by simpa using List.find?_some hfind
      split
      · rename_i result hresult
        refine ⟨hw, ?_⟩
        have hplain := hw prior (List.mem_of_find?_eq_some hfind) result hresult
        rw [hid] at hplain
        exact congrArg some hplain
      · split
        · exact ⟨hw, trivial⟩
        · exact ⟨hw, operationId, rfl⟩
    · split
      · exact ⟨hw, trivial⟩
      · refine ⟨?_, operationId, rfl⟩
        intro other hother result hresult
        rcases List.mem_append.mp hother with hold | hlast
        · exact hw other hold result hresult
        · obtain rfl := List.mem_singleton.mp hlast
          cases hresult

theorem Known.releasable (hb : Base h) (hknown : Known h row) : h.releasable = true := by
  obtain ⟨first, hfirst, -⟩ := hknown
  exact hb.releasable first hfirst

theorem settle_ok (hb : Base h) {request : Request} {duplicate : Bool}
    (hp : PointOk h request (.settling row duplicate)) :
    Base (settle h row duplicate).1 ∧ PointOk (settle h row duplicate).1 request
      (settle h row duplicate).2 ∧ Later h (settle h row duplicate).1 := by
  obtain ⟨⟨revision, rfl⟩, hknown⟩ := hp
  unfold settle
  cases hsleep : h.sleep with
  | none => exact ⟨hb, trivial, .refl h⟩
  | some current =>
    simp only
    split
    · exact ⟨hb, trivial, .refl h⟩
    · have hreleasable := hknown.releasable hb
      by_cases hrequested : current.phase = .requested
      · rw [if_pos hrequested]
        have hle : current.phase.rank ≤ Phase.sleeping.rank := by
          rw [hrequested]
          decide
        refine ⟨hb.writePhase hsleep hle ?_, ?_, later_writePhase hsleep hle⟩
        · intro hhigh
          simp [Phase.rank] at hhigh
        · simp [PointOk, expectedReceipt, Host.writePhase, hreleasable, receipt,
            SleepReceipt.plain]
      · rw [if_neg hrequested]
        refine ⟨hb, ?_, .refl h⟩
        simp [PointOk, expectedReceipt, hreleasable, receipt, SleepReceipt.plain]

theorem returned_ok {expected : Option String} (hbound : Bound request expected) :
    PointOk h request (returned expected) := by
  cases expected with
  | none =>
    obtain rfl := hbound
    rfl
  | some expected => exact hbound

theorem readRow_ok (hb : Base h) {request : Request} {expected : Option String}
    (hbound : Bound request expected) : PointOk h request (readRow h expected) := by
  unfold readRow
  split
  · trivial
  · split
    · trivial
    · split
      · exact returned_ok hbound
      · rename_i row hrow
        split
        · exact returned_ok hbound
        · exact ⟨hbound, hb.slot row hrow⟩

theorem enter_ok (hb : Base h) {request : Request} {expected : Option String}
    (hp : PointOk h request (.entering expected row)) :
    Base (enter h expected row).1 ∧ PointOk (enter h expected row).1 request
      (enter h expected row).2 ∧ Later h (enter h expected row).1 := by
  obtain ⟨hbound, hknown, hreleased⟩ := hp
  unfold enter
  split
  · exact ⟨hb, trivial, .refl h⟩
  · cases hsleep : h.sleep with
    | none => exact ⟨hb, trivial, .refl h⟩
    | some current =>
      simp only
      split
      · exact ⟨hb, trivial, .refl h⟩
      · rename_i hid
        have hid' : current.operationId = row.operationId := not_not.mp hid
        split
        · rename_i hawake
          refine ⟨hb, ⟨hbound, hknown, ?_⟩, .refl h⟩
          intro other hother _
          obtain rfl := Option.some.inj (hsleep.symm.trans hother)
          rw [hawake]
          decide
        · rename_i hawake
          have hle : current.phase.rank ≤ Phase.waking.rank := by
            cases hphase : current.phase <;> simp_all [Phase.rank]
          have hcurrent := hb.slot current hsleep
          have hproof := hknown.proof_eq hb hcurrent hid'.symm
          have hl := later_writePhase hsleep hle
          refine ⟨hb.writePhase hsleep hle fun _ => hreleased.of_proof hproof, ?_, hl⟩
          exact ⟨hbound, hl.known hknown, _, rfl, hid', rfl⟩

theorem launch_ok (hb : Base h) {request : Request} {expected : Option String}
    {identity : ProcessIdentity} (hp : PointOk h request (.launching expected row))
    (hpid : (h.hasOwner || keepsPid h identity) = true) (hlaunch : launch h identity = some k) :
    Base k ∧ PointOk k request (.watching expected row) ∧ Later h k := by
  obtain ⟨hbound, hknown, current, hsleep, hid, hwaking⟩ := hp
  have hwoken : Woken h row := by
    intro other hother _
    obtain rfl := Option.some.inj (hsleep.symm.trans hother)
    rw [hwaking]
    decide
  unfold launch at hlaunch
  split at hlaunch
  · obtain rfl := Option.some.inj hlaunch
    exact ⟨hb, ⟨hbound, hknown, hwoken⟩, .refl h⟩
  · rename_i hnone
    split at hlaunch
    · rename_i hfresh
      obtain rfl := Option.some.inj hlaunch
      have hopen : sleepBlocksStart h = false := by
        simp [sleepBlocksStart, hsleep, hwaking]
      have hl := later_startOwner hfresh
      have hkeeps : keepsPid h identity = true := by simpa [hnone] using hpid
      exact ⟨hb.startOwner hfresh hkeeps hopen,
        ⟨hbound, hl.known hknown, hl.woken hknown hwoken⟩, hl⟩
    · cases hlaunch

/-- A live status of a pid that is not recorded was written by an owner started for the wake. -/
theorem see_ok (hb : Base h) {request : Request} {expected : Option String}
    (hp : PointOk h request (.watching expected row)) : PointOk h request (see h expected row) := by
  obtain ⟨hbound, hknown, hwoken⟩ := hp
  unfold see
  split
  · exact ⟨hbound, hknown, hwoken⟩
  · rename_i snapshot hsnapshot
    split
    · rename_i hsees
      simp only [Bool.and_eq_true, Bool.not_eq_true', List.contains_eq_mem,
        decide_eq_false_iff_not] at hsees
      obtain ⟨hlive, hforeign⟩ := hsees
      refine ⟨hbound, hknown, hwoken, ?_⟩
      intro current hcurrent hid hwaking
      have hproof := (hb.slot current hcurrent).proof_eq hb hknown hid
      rcases (hb.published current hcurrent snapshot hsnapshot).2 hwaking with hin | ⟨hstart, hone⟩
      · rw [pids_of_proof hproof] at hin
        exact absurd hin hforeign
      · rw [hid] at hstart
        refine ⟨?_, hstart, hforeign⟩
        have hpid : snapshot.writer.pid ∈ h.pids := by
          simp only [Host.live, hsnapshot, Option.any_some, Bool.and_eq_true] at hlive
          simpa using hlive.1
        obtain ⟨process, hprocess, hsame⟩ := List.mem_map.mp hpid
        have hfound : (h.table.find? fun process =>
            process.identity.pid == snapshot.writer.pid).isSome = true := by
          rw [List.find?_isSome]
          exact ⟨process, hprocess, by simpa using hsame⟩
        obtain ⟨found, hfind⟩ := Option.isSome_iff_exists.mp hfound
        have hfound_pid : found.identity.pid = snapshot.writer.pid := by
          simpa using List.find?_some hfind
        simp only [Host.sighting, hfind, Option.map_some, Option.some.injEq]
        exact hone found (List.mem_of_find?_eq_some hfind) hfound_pid
    · exact ⟨hbound, hknown, hwoken⟩

theorem acknowledge_ok (hb : Base h) {request : Request} {expected : Option String}
    {sighting : Sighting} (hp : PointOk h request (.acknowledging expected row sighting)) :
    Base (acknowledge h expected row sighting).1 ∧
      PointOk (acknowledge h expected row sighting).1 request
        (acknowledge h expected row sighting).2 ∧
      Later h (acknowledge h expected row sighting).1 := by
  obtain ⟨hbound, hknown, -, hrightful⟩ := hp
  unfold acknowledge
  cases hsleep : h.sleep with
  | none => exact ⟨hb, trivial, .refl h⟩
  | some current =>
    simp only
    split
    · exact ⟨hb, trivial, .refl h⟩
    · rename_i hid
      have hid' : current.operationId = row.operationId := not_not.mp hid
      split
      · rename_i hwaking
        have hle : current.phase.rank ≤ Phase.awake.rank := by
          rw [hwaking]
          decide
        have hreleased : Released h current := by
          apply hb.woken current hsleep
          rw [hwaking]
          decide
        have hafter := hb.writePhase hsleep hle fun _ => hreleased
        have hl := later_writePhase hsleep hle
        refine ⟨?_, returned_ok hbound, ⟨hl.nativeId, hl.releasable, hl.rows, hl.started, hl.gone,
          hl.slot⟩⟩
        refine ⟨hafter.known, hafter.distinct, hafter.members, hafter.recorded, hafter.once,
          hafter.releasable, hafter.slot, hafter.logged, hafter.forward, hafter.woken,
          hafter.owners, hafter.published, ?_⟩
        intro ack hack
        rcases List.mem_append.mp hack with hold | hlast
        · exact hb.acknowledged ack hold
        · obtain rfl := List.mem_singleton.mp hlast
          obtain ⟨first, hfirst, hfirst_id, hproof⟩ := hknown
          obtain ⟨halive, hstart, hforeign⟩ := hrightful current hsleep hid' hwaking
          refine ⟨first, hfirst, hfirst_id.trans hid'.symm, halive, ?_, ?_⟩
          · rw [hfirst_id]
            exact hstart
          · rw [pids_of_proof hproof]
            exact hforeign
      · exact ⟨hb, returned_ok hbound, .refl h⟩

theorem record_ok (hw : WakesOk h wakes)
    (operationId expected : String) :
    WakesOk h (record h wakes operationId expected).1 ∧
      PointOk h (.wake operationId) (record h wakes operationId expected).2 := by
  unfold record
  split
  · exact ⟨hw, trivial⟩
  · refine ⟨?_, rfl⟩
    intro row hrow result hresult
    obtain ⟨before, hbefore, rfl⟩ := List.mem_map.mp hrow
    split at hresult
    · rename_i hid
      obtain rfl := Option.some.inj hresult
      simp [hid, receipt, SleepReceipt.plain]
    · rename_i hid
      rw [if_neg hid]
      exact hw before hbefore result hresult

theorem returned_unlocked (expected : Option String) : (returned expected).locked = false := by
  cases expected <;> rfl

theorem readRow_unlocked (expected : Option String) : (readRow h expected).locked = false := by
  unfold readRow
  split
  · rfl
  · split
    · rfl
    · split
      · exact returned_unlocked expected
      · split
        · exact returned_unlocked expected
        · rfl

theorem see_unlocked (expected : Option String) : (see h expected row).locked = false := by
  unfold see
  split
  · rfl
  · split <;> rfl

inductive Called (h : Host) (wakes : List WakeOperation) (request : Request) :
    Act → Point → Host → List WakeOperation → Point → Prop where
  | write (row : SleepRecord) :
    Called h wakes request .write (.writing row) (h.writeRow row) wakes (.releasing row false)
  | pollRelease (row : SleepRecord) (duplicate : Bool) :
    Called h wakes request .poll (.releasing row duplicate) h wakes
      (if processesReleased h row then .settling row duplicate else .releasing row duplicate)
  | pollWait (expected : Option String) (row : SleepRecord) :
    Called h wakes request .poll (.waiting expected row) h wakes
      (if processesReleased h row then .entering expected row else .waiting expected row)
  | settle (row : SleepRecord) (duplicate : Bool) :
    Called h wakes request .settle (.settling row duplicate) (settle h row duplicate).1 wakes
      (settle h row duplicate).2
  | read (expected : Option String) :
    Called h wakes request .read (.reading expected) h wakes (readRow h expected)
  | enter (expected : Option String) (row : SleepRecord) :
    Called h wakes request .enter (.entering expected row) (enter h expected row).1 wakes
      (enter h expected row).2
  | launch (identity : ProcessIdentity) (expected : Option String) (row : SleepRecord) {k : Host}
      (launched : launch h identity = some k) :
    Called h wakes request (.launch identity) (.launching expected row) k wakes
      (.watching expected row)
  | see (expected : Option String) (row : SleepRecord) :
    Called h wakes request .see (.watching expected row) h wakes (see h expected row)
  | acknowledge (expected : Option String) (row : SleepRecord) (sighting : Sighting) :
    Called h wakes request .acknowledge (.acknowledging expected row sighting)
      (acknowledge h expected row sighting).1 wakes (acknowledge h expected row sighting).2
  | record (operationId expected : String) (wake : request = .wake operationId) :
    Called h wakes request .record (.recording expected) h
      (record h wakes operationId expected).1 (record h wakes operationId expected).2
  | abort (point : Point) : Called h wakes request .abort point h wakes (.done (.error wakePending))

theorem callerStep_called
    (hstep : callerStep h wakes ⟨request, before⟩ act = some (k, after, point)) :
    Called h wakes request act before k after point := by
  unfold callerStep at hstep
  split at hstep
  all_goals rename_i hpoint
  · obtain rfl : before = _ := hpoint
    simp only [Option.some.injEq, Prod.mk.injEq] at hstep
    obtain ⟨rfl, rfl, rfl⟩ := hstep
    exact .write _
  · obtain rfl : before = _ := hpoint
    simp only [Option.some.injEq, Prod.mk.injEq] at hstep
    obtain ⟨rfl, rfl, rfl⟩ := hstep
    exact .pollRelease _ _
  · obtain rfl : before = _ := hpoint
    simp only [Option.some.injEq, Prod.mk.injEq] at hstep
    obtain ⟨rfl, rfl, rfl⟩ := hstep
    exact .pollWait _ _
  · obtain rfl : before = _ := hpoint
    simp only [Option.some.injEq, Prod.mk.injEq] at hstep
    obtain ⟨rfl, rfl, rfl⟩ := hstep
    exact .settle _ _
  · obtain rfl : before = _ := hpoint
    simp only [Option.some.injEq, Prod.mk.injEq] at hstep
    obtain ⟨rfl, rfl, rfl⟩ := hstep
    exact .read _
  · obtain rfl : before = _ := hpoint
    simp only [Option.some.injEq, Prod.mk.injEq] at hstep
    obtain ⟨rfl, rfl, rfl⟩ := hstep
    exact .enter _ _
  · obtain rfl : before = _ := hpoint
    obtain ⟨launched, hlaunch, hsome⟩ := Option.map_eq_some_iff.mp hstep
    simp only [Prod.mk.injEq] at hsome
    obtain ⟨rfl, rfl, rfl⟩ := hsome
    exact .launch _ _ _ hlaunch
  · obtain rfl : before = _ := hpoint
    simp only [Option.some.injEq, Prod.mk.injEq] at hstep
    obtain ⟨rfl, rfl, rfl⟩ := hstep
    exact .see _ _
  · obtain rfl : before = _ := hpoint
    simp only [Option.some.injEq, Prod.mk.injEq] at hstep
    obtain ⟨rfl, rfl, rfl⟩ := hstep
    exact .acknowledge _ _ _
  · obtain rfl : before = _ := hpoint
    split at hstep
    · rename_i hrequest
      simp only [Option.some.injEq, Prod.mk.injEq] at hstep
      obtain ⟨rfl, rfl, rfl⟩ := hstep
      exact .record _ _ hrequest
    · cases hstep
  · cases hstep
  · simp only [Option.some.injEq, Prod.mk.injEq] at hstep
    obtain ⟨rfl, rfl, rfl⟩ := hstep
    exact .abort _
  · cases hstep

/-- A caller keeps what holds of the host, the journal and itself; it changes the host only with the
lock, and takes the lock only with an act that needs it free. -/
theorem Called.ok (hcalled : Called h wakes request act before k after point)
    (hb : Base h) (hw : WakesOk h wakes) (hp : PointOk h request before)
    (hpid : ∀ identity, act = .launch identity → (h.hasOwner || keepsPid h identity) = true) :
    Base k ∧ WakesOk k after ∧ PointOk k request point ∧ Later h k ∧
      (k = h ∨ act.locks = true ∨ before.locked = true) ∧
      (point.locked = true → act.locks = true) := by
  cases hcalled with
  | write row =>
    obtain ⟨hrequest, hprovable⟩ := hp
    have hl := later_writeRow hprovable.fresh
    refine ⟨hb.writeRow hprovable, hw.later hl, ⟨hrequest, ?_⟩, hl, .inr (.inr rfl), ?_⟩
    · exact ⟨row, List.mem_append_right _ List.mem_cons_self, rfl, rfl⟩
    · intro hlocked
      cases hlocked
  | pollRelease row duplicate =>
    refine ⟨hb, hw, ?_, .refl h, .inl rfl, ?_⟩
    · split
      · exact hp
      · exact hp
    · intro hlocked
      split at hlocked <;> cases hlocked
  | pollWait expected row =>
    refine ⟨hb, hw, ?_, .refl h, .inl rfl, ?_⟩
    · split
      · rename_i hreleased
        exact ⟨hp.1, hp.2, processesReleased_iff.mp hreleased⟩
      · exact hp
    · intro hlocked
      split at hlocked <;> cases hlocked
  | settle row duplicate =>
    obtain ⟨hbase, hafter, hl⟩ := settle_ok hb hp
    exact ⟨hbase, hw.later hl, hafter, hl, .inr (.inl rfl), fun _ => rfl⟩
  | read expected =>
    refine ⟨hb, hw, readRow_ok hb hp, .refl h, .inl rfl, ?_⟩
    intro hlocked
    rw [readRow_unlocked] at hlocked
    cases hlocked
  | enter expected row =>
    obtain ⟨hbase, hafter, hl⟩ := enter_ok hb hp
    exact ⟨hbase, hw.later hl, hafter, hl, .inr (.inl rfl), fun _ => rfl⟩
  | launch identity expected row hlaunch =>
    obtain ⟨hbase, hafter, hl⟩ := launch_ok hb hp (hpid identity rfl) hlaunch
    refine ⟨hbase, hw.later hl, hafter, hl, .inr (.inr rfl), ?_⟩
    intro hlocked
    cases hlocked
  | see expected row =>
    refine ⟨hb, hw, see_ok hb hp, .refl h, .inl rfl, ?_⟩
    intro hlocked
    rw [see_unlocked] at hlocked
    cases hlocked
  | acknowledge expected row sighting =>
    obtain ⟨hbase, hafter, hl⟩ := acknowledge_ok hb hp
    exact ⟨hbase, hw.later hl, hafter, hl, .inr (.inl rfl), fun _ => rfl⟩
  | record operationId expected hwake =>
    subst hwake
    obtain ⟨hjournal, hafter⟩ := record_ok hw operationId expected
    exact ⟨hb, hjournal, hafter, .refl h, .inl rfl, fun _ => rfl⟩
  | abort =>
    refine ⟨hb, hw, trivial, .refl h, .inl rfl, ?_⟩
    intro hlocked
    cases hlocked

end

end Ccmux.Session.Sleep
