/- Module: Ccmux/Session/SleepHost
   source: src/session/sleep/operations.ts, src/session/sleep/proof.ts
   digest: What the slot, the processes and the published status keep, whatever moves them. -/

import Ccmux.Session.Sleep

namespace Ccmux.Session.Sleep

open Ccmux.Lib.Machine (nodup_grow)

def Released (h : Host) (row : SleepRecord) : Prop :=
  ∀ held ∈ row.proof.processes, held ∉ h.identities

def Host.operations (h : Host) : List String := h.rows.map fun row => row.operationId

/-- The owner that wrote the status was started for this operation, it is the process that has the
pid, and no recorded process had that pid. -/
def RightfulSighting (h : Host) (row : SleepRecord) (sighting : Sighting) : Prop :=
  sighting.alive = some sighting.writer ∧ (sighting.writer, row.operationId) ∈ h.started ∧
    sighting.writer.pid ∉ row.pids

/-- No process gets the pid of a published status while a wake waits for its owner, unless the
receipt records that pid. -/
def keepsPid (h : Host) (identity : ProcessIdentity) : Bool :=
  h.sleep.all fun row => row.phase != .waking || h.snapshot.all fun snapshot =>
    snapshot.writer.pid != identity.pid || row.pids.contains snapshot.writer.pid

/-! What a step may leave behind. -/

/-- The row is one that was taken, perhaps in a later phase. -/
def Known (h : Host) (row : SleepRecord) : Prop :=
  ∃ first ∈ h.rows, first.operationId = row.operationId ∧ first.proof = row.proof

/-- The operation is not in the slot, or was woken. -/
def Woken (h : Host) (row : SleepRecord) : Prop :=
  ∀ current, h.sleep = some current → current.operationId = row.operationId →
    2 ≤ current.phase.rank

structure Base (h : Host) : Prop where
  known : ∀ identity ∈ h.identities, identity ∈ h.seen
  distinct : h.pids.Nodup
  members : ∀ process ∈ h.table, process.owner = true → process.member = true
  recorded : ∀ row ∈ h.rows, ∀ held ∈ row.proof.processes, held ∈ h.seen
  once : h.operations.Nodup
  releasable : ∀ row ∈ h.rows, h.releasable = true
  slot : ∀ row, h.sleep = some row → Known h row
  logged : ∀ entry ∈ h.log, entry.1 ∈ h.operations ∧
    ∀ row, h.sleep = some row → entry.1 = row.operationId → entry.2.rank ≤ row.phase.rank
  forward : h.log.Pairwise fun earlier later => earlier.1 = later.1 → earlier.2.rank ≤ later.2.rank
  woken : ∀ row, h.sleep = some row → 2 ≤ row.phase.rank → Released h row
  owners : ∀ row, h.sleep = some row → ∀ process ∈ h.table, process.owner = true →
    (row.phase.rank ≤ 1 → process.identity ∈ row.proof.processes) ∧
    (row.phase = .waking → (process.identity, row.operationId) ∈ h.started)
  published : ∀ row, h.sleep = some row → ∀ snapshot, h.snapshot = some snapshot →
    (row.phase.rank ≤ 1 → snapshot.writer.pid ∈ row.pids) ∧
    (row.phase = .waking → snapshot.writer.pid ∈ row.pids ∨
      ((snapshot.writer, row.operationId) ∈ h.started ∧
        ∀ process ∈ h.table, process.identity.pid = snapshot.writer.pid →
          process.identity = snapshot.writer))
  acknowledged : ∀ ack ∈ h.acknowledged, ∃ row ∈ h.rows,
    row.operationId = ack.operationId ∧ RightfulSighting h row ack.sighting

/-- The row that a caller is about to write: its operation is new, and the proof covers the owner. -/
structure Provable (h : Host) (row : SleepRecord) : Prop where
  requested : row.phase = .requested
  fresh : row.operationId ∉ h.operations
  releasable : h.releasable = true
  recorded : ∀ held ∈ row.proof.processes, held ∈ h.seen
  owners : ∀ process ∈ h.table, process.owner = true → process.identity ∈ row.proof.processes
  published : ∀ snapshot, h.snapshot = some snapshot → snapshot.writer.pid ∈ row.pids

/-- What a host keeps of an earlier one: the slot holds the same row in a later phase, or a new
operation. -/
structure Later (h k : Host) : Prop where
  nativeId : k.nativeId = h.nativeId
  releasable : k.releasable = h.releasable
  rows : ∀ row ∈ h.rows, row ∈ k.rows
  started : ∀ start ∈ h.started, start ∈ k.started
  gone : ∀ identity ∈ h.seen, identity ∉ h.identities → identity ∉ k.identities
  slot : ∀ row, k.sleep = some row → row.operationId ∉ h.operations ∨
    ∃ before, h.sleep = some before ∧ before.operationId = row.operationId ∧
      before.phase.rank ≤ row.phase.rank

section
variable {h k : Host} {row : SleepRecord}

theorem Phase.rank_waking {phase : Phase} (hlow : 2 ≤ phase.rank) (hhigh : phase.rank ≤ 2) :
    phase = .waking := by
  cases phase <;> simp_all [Phase.rank]

theorem processesReleased_iff : processesReleased h row = true ↔ Released h row := by
  simp [processesReleased, Released]

theorem Known.mem (hknown : Known h row) : row.operationId ∈ h.operations := by
  obtain ⟨first, hfirst, hid, -⟩ := hknown
  exact hid ▸ List.mem_map_of_mem hfirst

theorem Known.proof_eq (hb : Base h) {other : SleepRecord} (hknown : Known h row)
    (hother : Known h other) (hid : row.operationId = other.operationId) :
    row.proof = other.proof := by
  obtain ⟨first, hfirst, hfirst_id, hproof⟩ := hknown
  obtain ⟨second, hsecond, hsecond_id, hproof'⟩ := hother
  have hsame : first = second := by
    apply List.inj_on_of_nodup_map hb.once hfirst hsecond
    rw [hfirst_id, hsecond_id, hid]
  rw [← hproof, ← hproof', hsame]

theorem Known.seen (hb : Base h) (hknown : Known h row) :
    ∀ held ∈ row.proof.processes, held ∈ h.seen := by
  obtain ⟨first, hfirst, -, hproof⟩ := hknown
  rw [← hproof]
  exact hb.recorded first hfirst

theorem Released.of_proof (hr : Released h row) {other : SleepRecord}
    (hproof : row.proof = other.proof) : Released h other := by
  unfold Released
  rw [← hproof]
  exact hr

theorem pids_of_proof {other : SleepRecord} (hproof : row.proof = other.proof) :
    row.pids = other.pids := by
  unfold SleepRecord.pids
  rw [hproof]

/-! What lasts while the host moves on. -/

theorem Later.refl (h : Host) : Later h h := by
  refine ⟨rfl, rfl, fun _ hmem => hmem, fun _ hmem => hmem, fun _ _ hgone => hgone, ?_⟩
  intro row hrow
  exact .inr ⟨row, hrow, rfl, Nat.le_refl _⟩

theorem Later.known (hl : Later h k) (hknown : Known h row) : Known k row := by
  obtain ⟨first, hfirst, hid, hproof⟩ := hknown
  exact ⟨first, hl.rows first hfirst, hid, hproof⟩

theorem Later.released (hl : Later h k) (hb : Base h) (hknown : Known h row)
    (hr : Released h row) : Released k row := by
  intro held hheld
  exact hl.gone held (hknown.seen hb held hheld) (hr held hheld)

theorem Later.before (hl : Later h k) (hknown : Known h row) {current : SleepRecord}
    (hcurrent : k.sleep = some current) (hid : current.operationId = row.operationId) :
    ∃ before, h.sleep = some before ∧ before.operationId = row.operationId ∧
      before.phase.rank ≤ current.phase.rank := by
  rcases hl.slot current hcurrent with hnew | ⟨before, hbefore, hsame, hle⟩
  · rw [hid] at hnew
    exact absurd hknown.mem hnew
  · exact ⟨before, hbefore, hsame.trans hid, hle⟩

theorem Later.woken (hl : Later h k) (hknown : Known h row) (hwoken : Woken h row) :
    Woken k row := by
  intro current hcurrent hid
  obtain ⟨before, hbefore, hsame, hle⟩ := hl.before hknown hcurrent hid
  have hlow := hwoken before hbefore hsame
  omega

theorem RightfulSighting.later (hl : Later h k) {sighting : Sighting}
    (hs : RightfulSighting h row sighting) : RightfulSighting k row sighting :=
  ⟨hs.1, hl.started _ hs.2.1, hs.2.2⟩

/-! The writes of a row and of its phases. -/

theorem base_start (nativeId : String) (releasable : Bool) : Base (startHost nativeId releasable) := by
  constructor <;> simp [startHost, Host.identities, Host.pids, Host.operations]

theorem later_writePhase (hrow : h.sleep = some row) {phase : Phase}
    (hle : row.phase.rank ≤ phase.rank) : Later h (h.writePhase row phase) := by
  refine ⟨rfl, rfl, fun _ hmem => hmem, fun _ hmem => hmem, fun _ _ hgone => hgone, ?_⟩
  intro after hafter
  obtain rfl := Option.some.inj hafter
  exact .inr ⟨row, hrow, rfl, hle⟩

/-- The row in the slot moves on to a phase; it wakes only once its processes are gone. -/
theorem Base.writePhase (hb : Base h) (hrow : h.sleep = some row) {phase : Phase}
    (hle : row.phase.rank ≤ phase.rank) (hreleased : 2 ≤ phase.rank → Released h row) :
    Base (h.writePhase row phase) := by
  have hknown := hb.slot row hrow
  refine ⟨hb.known, hb.distinct, hb.members, hb.recorded, hb.once, hb.releasable, ?_, ?_, ?_, ?_, ?_, ?_,
    hb.acknowledged⟩
  · intro after hafter
    obtain rfl := Option.some.inj hafter
    exact hknown
  · intro entry hentry
    rcases List.mem_append.mp hentry with hold | hlast
    · refine ⟨(hb.logged entry hold).1, ?_⟩
      intro after hafter hid
      obtain rfl := Option.some.inj hafter
      exact ((hb.logged entry hold).2 row hrow hid).trans hle
    · obtain rfl := List.mem_singleton.mp hlast
      refine ⟨hknown.mem, ?_⟩
      intro after hafter _
      obtain rfl := Option.some.inj hafter
      exact Nat.le_refl _
  · refine List.pairwise_append.mpr ⟨hb.forward, List.pairwise_singleton _ _, ?_⟩
    intro entry hentry last hlast hid
    obtain rfl := List.mem_singleton.mp hlast
    exact ((hb.logged entry hentry).2 row hrow hid).trans hle
  · intro after hafter hwoken
    obtain rfl := Option.some.inj hafter
    exact hreleased hwoken
  · intro after hafter process hprocess howner
    obtain rfl := Option.some.inj hafter
    have howners := hb.owners row hrow process hprocess howner
    refine ⟨fun hlow => howners.1 (hle.trans hlow), ?_⟩
    intro hwaking
    have hphase : phase = .waking := hwaking
    by_cases hlow : row.phase.rank ≤ 1
    · have hgone := hreleased (by simp [hphase, Phase.rank]) _ (howners.1 hlow)
      exact absurd (List.mem_map_of_mem hprocess) hgone
    · apply howners.2
      apply Phase.rank_waking (by omega)
      simpa only [hphase, Phase.rank] using hle
  · intro after hafter snapshot hsnapshot
    obtain rfl := Option.some.inj hafter
    have hpublished := hb.published row hrow snapshot hsnapshot
    refine ⟨fun hlow => hpublished.1 (hle.trans hlow), ?_⟩
    intro hwaking
    have hphase : phase = .waking := hwaking
    by_cases hlow : row.phase.rank ≤ 1
    · exact .inl (hpublished.1 hlow)
    · apply hpublished.2
      apply Phase.rank_waking (by omega)
      simpa only [hphase, Phase.rank] using hle

theorem later_writeRow (hfresh : row.operationId ∉ h.operations) : Later h (h.writeRow row) := by
  refine ⟨rfl, rfl, fun _ hmem => List.mem_append_left _ hmem, fun _ hmem => hmem,
    fun _ _ hgone => hgone, ?_⟩
  intro after hafter
  obtain rfl := Option.some.inj hafter
  exact .inl hfresh

/-- A new operation takes the slot. -/
theorem Base.writeRow (hb : Base h) (hp : Provable h row) : Base (h.writeRow row) := by
  have hoperations : (h.writeRow row).operations = h.operations ++ [row.operationId] := by
    simp [Host.operations, Host.writeRow]
  have hzero : row.phase.rank = 0 := by rw [hp.requested]; rfl
  refine ⟨hb.known, hb.distinct, hb.members, ?_, ?_, fun _ _ => hp.releasable, ?_, ?_, ?_, ?_, ?_, ?_, ?_⟩
  · intro other hother
    rcases List.mem_append.mp hother with hold | hlast
    · exact hb.recorded other hold
    · obtain rfl := List.mem_singleton.mp hlast
      exact hp.recorded
  · rw [hoperations]
    exact nodup_grow hb.once hp.fresh
  · intro after hafter
    obtain rfl := Option.some.inj hafter
    exact ⟨row, List.mem_append_right _ List.mem_cons_self, rfl, rfl⟩
  · intro entry hentry
    rw [hoperations]
    rcases List.mem_append.mp hentry with hold | hlast
    · have hmem := (hb.logged entry hold).1
      refine ⟨List.mem_append_left _ hmem, ?_⟩
      intro after hafter hid
      obtain rfl := Option.some.inj hafter
      rw [hid] at hmem
      exact absurd hmem hp.fresh
    · obtain rfl := List.mem_singleton.mp hlast
      refine ⟨List.mem_append_right _ List.mem_cons_self, ?_⟩
      intro after hafter _
      obtain rfl := Option.some.inj hafter
      exact Nat.le_refl _
  · refine List.pairwise_append.mpr ⟨hb.forward, List.pairwise_singleton _ _, ?_⟩
    intro entry hentry last hlast hid
    obtain rfl := List.mem_singleton.mp hlast
    have hmem := (hb.logged entry hentry).1
    rw [hid] at hmem
    exact absurd hmem hp.fresh
  · intro after hafter hwoken
    obtain rfl := Option.some.inj hafter
    omega
  · intro after hafter process hprocess howner
    obtain rfl := Option.some.inj hafter
    refine ⟨fun _ => hp.owners process hprocess howner, ?_⟩
    intro hwaking
    rw [hp.requested] at hwaking
    cases hwaking
  · intro after hafter snapshot hsnapshot
    obtain rfl := Option.some.inj hafter
    refine ⟨fun _ => hp.published snapshot hsnapshot, ?_⟩
    intro hwaking
    rw [hp.requested] at hwaking
    cases hwaking
  · intro ack hack
    obtain ⟨other, hother, hid, hrightful⟩ := hb.acknowledged ack hack
    exact ⟨other, List.mem_append_left _ hother, hid, hrightful⟩

/-! The processes come and go. -/

variable {identity : ProcessIdentity}

theorem fresh_iff :
    h.fresh identity = true ↔ identity ∉ h.seen ∧ identity.pid ∉ h.pids := by
  simp [Host.fresh]

theorem not_blocked (hfree : sleepBlocksStart h = false) (hrow : h.sleep = some row) :
    2 ≤ row.phase.rank := by
  rw [sleepBlocksStart, hrow] at hfree
  cases hphase : row.phase <;> simp_all [Phase.rank]

theorem later_arrive (process : Process) (hfresh : h.fresh process.identity = true)
    {started : List (ProcessIdentity × String)} (hstarted : ∀ start ∈ h.started, start ∈ started) :
    Later h { h.appear process with started } := by
  refine ⟨rfl, rfl, fun _ hmem => hmem, hstarted, ?_, ?_⟩
  · intro identity hseen hgone hback
    rcases List.mem_map.mp hback with ⟨other, hother, rfl⟩
    rcases List.mem_append.mp hother with hold | hnew
    · exact hgone (List.mem_map_of_mem hold)
    · obtain rfl := List.mem_singleton.mp hnew
      exact (fresh_iff.mp hfresh).1 hseen
  · intro row hrow
    exact .inr ⟨row, hrow, rfl, Nat.le_refl _⟩

/-- A new process that takes over no published pid; an owner only where the sleep does not block it,
and recorded as started for the wake. -/
theorem Base.arrive (hb : Base h) (process : Process) (hfresh : h.fresh process.identity = true)
    (hpid : keepsPid h process.identity = true) {started : List (ProcessIdentity × String)}
    (hstarted : ∀ start ∈ h.started, start ∈ started)
    (hmember : process.owner = true → process.member = true)
    (howner : process.owner = true → sleepBlocksStart h = false ∧ ∀ row, h.sleep = some row →
      row.phase = .waking → (process.identity, row.operationId) ∈ started) :
    Base { h.appear process with started } := by
  have hl := later_arrive process hfresh hstarted
  obtain ⟨hnew, hfree⟩ := fresh_iff.mp hfresh
  refine ⟨?_, ?_, ?_, ?_, hb.once, hb.releasable, hb.slot, hb.logged, hb.forward, ?_, ?_, ?_, ?_⟩
  · intro identity hidentity
    rcases List.mem_map.mp hidentity with ⟨other, hother, rfl⟩
    rcases List.mem_append.mp hother with hold | hlast
    · exact List.mem_append_left _ (hb.known _ (List.mem_map_of_mem hold))
    · obtain rfl := List.mem_singleton.mp hlast
      exact List.mem_append_right _ List.mem_cons_self
  · have hpids : ({ h.appear process with started } : Host).pids =
        h.pids ++ [process.identity.pid] := by
      simp [Host.pids, Host.appear]
    rw [hpids]
    exact nodup_grow hb.distinct hfree
  · intro other hother howns
    rcases List.mem_append.mp hother with hold | hlast
    · exact hb.members other hold howns
    · obtain rfl := List.mem_singleton.mp hlast
      exact hmember howns
  · intro other hother held hheld
    exact List.mem_append_left _ (hb.recorded other hother held hheld)
  · intro row hrow hwoken
    exact hl.released hb (hb.slot row hrow) (hb.woken row hrow hwoken)
  · intro row hrow other hother howns
    rcases List.mem_append.mp hother with hold | hlast
    · obtain ⟨hlow, hwaking⟩ := hb.owners row hrow other hold howns
      exact ⟨hlow, fun hphase => hstarted _ (hwaking hphase)⟩
    · obtain rfl := List.mem_singleton.mp hlast
      obtain ⟨hopen, hrecorded⟩ := howner howns
      have hhigh := not_blocked hopen hrow
      refine ⟨?_, fun hphase => hrecorded row hrow hphase⟩
      intro hlow
      omega
  · intro row hrow snapshot hsnapshot
    obtain ⟨hlow, hwaking⟩ := hb.published row hrow snapshot hsnapshot
    refine ⟨hlow, ?_⟩
    intro hphase
    by_cases hrecorded : snapshot.writer.pid ∈ row.pids
    · exact .inl hrecorded
    · rcases hwaking hphase with hin | ⟨hstart, hunique⟩
      · exact absurd hin hrecorded
      · refine .inr ⟨hstarted _ hstart, ?_⟩
        intro other hother hsame
        rcases List.mem_append.mp hother with hold | hlast
        · exact hunique other hold hsame
        · obtain rfl := List.mem_singleton.mp hlast
          have hrow' : h.sleep = some row := hrow
          have hsnapshot' : h.snapshot = some snapshot := hsnapshot
          simp [keepsPid, hrow', hphase, hsnapshot', hsame, hrecorded] at hpid
  · intro ack hack
    obtain ⟨row, hrow, hid, hrightful⟩ := hb.acknowledged ack hack
    exact ⟨row, hrow, hid, hrightful.later hl⟩

theorem startOwner_started (identity : ProcessIdentity) :
    ∀ row, h.sleep = some row → row.phase = .waking →
      (identity, row.operationId) ∈
        h.started ++ h.wakesFor.toList.map fun operationId => (identity, operationId) := by
  intro row hrow hphase
  simp [Host.wakesFor, hrow, hphase]

theorem Base.startOwner (hb : Base h) {identity : ProcessIdentity}
    (hfresh : h.fresh identity = true) (hpid : keepsPid h identity = true)
    (hopen : sleepBlocksStart h = false) : Base (h.startOwner identity) :=
  hb.arrive ⟨identity, true, true⟩ hfresh hpid (fun _ hmem => List.mem_append_left _ hmem)
    (fun _ => rfl) fun _ => ⟨hopen, startOwner_started identity⟩

theorem later_startOwner (hfresh : h.fresh identity = true) :
    Later h (h.startOwner identity) :=
  later_arrive ⟨identity, true, true⟩ hfresh fun _ hmem => List.mem_append_left _ hmem

theorem Base.spawn (hb : Base h) {identity : ProcessIdentity} {member : Bool}
    (hfresh : h.fresh identity = true) (hpid : keepsPid h identity = true) :
    Base (h.appear ⟨identity, false, member⟩) :=
  hb.arrive ⟨identity, false, member⟩ hfresh hpid (fun _ hmem => hmem)
    (fun howner => Bool.noConfusion howner) fun howner => Bool.noConfusion howner

theorem later_spawn (member : Bool)
    (hfresh : h.fresh identity = true) : Later h (h.appear ⟨identity, false, member⟩) :=
  later_arrive ⟨identity, false, member⟩ hfresh fun _ hmem => hmem

theorem Provable.spawn (hp : Provable h row) (identity : ProcessIdentity) (member : Bool) :
    Provable (h.appear ⟨identity, false, member⟩) row := by
  refine ⟨hp.requested, hp.fresh, hp.releasable, ?_, ?_, hp.published⟩
  · intro held hheld
    exact List.mem_append_left _ (hp.recorded held hheld)
  · intro process hprocess howner
    rcases List.mem_append.mp hprocess with hold | hlast
    · exact hp.owners process hold howner
    · obtain rfl := List.mem_singleton.mp hlast
      cases howner

theorem later_leave (p : Process → Bool) : Later h { h with table := h.table.filter p } := by
  refine ⟨rfl, rfl, fun _ hmem => hmem, fun _ hmem => hmem, ?_, ?_⟩
  · intro identity _ hgone hback
    obtain ⟨process, hprocess, rfl⟩ := List.mem_map.mp hback
    exact hgone (List.mem_map_of_mem (List.mem_of_mem_filter hprocess))
  · intro row hrow
    exact .inr ⟨row, hrow, rfl, Nat.le_refl _⟩

theorem Base.leave (hb : Base h) (p : Process → Bool) :
    Base { h with table := h.table.filter p } := by
  have hl := later_leave (h := h) p
  refine ⟨?_, ?_, ?_, hb.recorded, hb.once, hb.releasable, hb.slot, hb.logged, hb.forward, ?_, ?_,
    ?_, ?_⟩
  · intro identity hidentity
    obtain ⟨process, hprocess, rfl⟩ := List.mem_map.mp hidentity
    exact hb.known _ (List.mem_map_of_mem (List.mem_of_mem_filter hprocess))
  · exact hb.distinct.sublist (List.filter_sublist.map _)
  · intro process hprocess
    exact hb.members process (List.mem_of_mem_filter hprocess)
  · intro row hrow hwoken
    exact hl.released hb (hb.slot row hrow) (hb.woken row hrow hwoken)
  · intro row hrow process hprocess
    exact hb.owners row hrow process (List.mem_of_mem_filter hprocess)
  · intro row hrow snapshot hsnapshot
    obtain ⟨hlow, hwaking⟩ := hb.published row hrow snapshot hsnapshot
    refine ⟨hlow, ?_⟩
    intro hphase
    rcases hwaking hphase with hin | ⟨hstart, hunique⟩
    · exact .inl hin
    · exact .inr ⟨hstart, fun process hprocess =>
        hunique process (List.mem_of_mem_filter hprocess)⟩
  · exact hb.acknowledged

theorem Provable.leave (hp : Provable h row) (p : Process → Bool) :
    Provable { h with table := h.table.filter p } row :=
  ⟨hp.requested, hp.fresh, hp.releasable, hp.recorded,
    fun process hprocess => hp.owners process (List.mem_of_mem_filter hprocess), hp.published⟩

/-! The owner publishes its status, and the lease of a status expires. -/

theorem later_snapshot (snapshot : Option Snapshot) : Later h { h with snapshot } :=
  ⟨rfl, rfl, fun _ hmem => hmem, fun _ hmem => hmem, fun _ _ hgone => hgone,
    fun row hrow => .inr ⟨row, hrow, rfl, Nat.le_refl _⟩⟩

theorem Base.expire (hb : Base h) : Base { h with snapshot := none } := by
  refine ⟨hb.known, hb.distinct, hb.members, hb.recorded, hb.once, hb.releasable, hb.slot, hb.logged,
    hb.forward, hb.woken, hb.owners, ?_, hb.acknowledged⟩
  intro row hrow snapshot hsnapshot
  cases hsnapshot

theorem Base.publish (hb : Base h) {owner : Process} (hmem : owner ∈ h.table)
    (howner : owner.owner = true) (providerPid : Nat) :
    Base { h with snapshot := some ⟨owner.identity, providerPid⟩ } := by
  refine ⟨hb.known, hb.distinct, hb.members, hb.recorded, hb.once, hb.releasable, hb.slot, hb.logged,
    hb.forward, hb.woken, hb.owners, ?_, hb.acknowledged⟩
  intro row hrow snapshot hsnapshot
  obtain rfl := Option.some.inj hsnapshot
  obtain ⟨hlow, hwaking⟩ := hb.owners row hrow owner hmem howner
  refine ⟨fun hphase => List.mem_map_of_mem (hlow hphase), ?_⟩
  intro hphase
  refine .inr ⟨hwaking hphase, ?_⟩
  intro process hprocess hsame
  have hone : process = owner :=
    List.inj_on_of_nodup_map (f := fun process : Process => process.identity.pid) hb.distinct
      hprocess hmem hsame
  rw [hone]

theorem Provable.publish (hp : Provable h row) {owner : Process} (hmem : owner ∈ h.table)
    (howner : owner.owner = true) (providerPid : Nat) :
    Provable { h with snapshot := some ⟨owner.identity, providerPid⟩ } row := by
  refine ⟨hp.requested, hp.fresh, hp.releasable, hp.recorded, hp.owners, ?_⟩
  intro snapshot hsnapshot
  obtain rfl := Option.some.inj hsnapshot
  exact List.mem_map_of_mem (hp.owners owner hmem howner)

theorem Provable.expire (hp : Provable h row) : Provable { h with snapshot := none } row := by
  refine ⟨hp.requested, hp.fresh, hp.releasable, hp.recorded, hp.owners, ?_⟩
  intro snapshot hsnapshot
  cases hsnapshot

theorem later_endsDelegation : Later h { h with delegationStopped := true } :=
  ⟨rfl, rfl, fun _ hmem => hmem, fun _ hmem => hmem, fun _ _ hgone => hgone,
    fun row hrow => .inr ⟨row, hrow, rfl, Nat.le_refl _⟩⟩

theorem Base.endsDelegation (hb : Base h) : Base { h with delegationStopped := true } :=
  ⟨hb.known, hb.distinct, hb.members, hb.recorded, hb.once, hb.releasable, hb.slot, hb.logged, hb.forward,
    hb.woken, hb.owners, hb.published, hb.acknowledged⟩

theorem Provable.endsDelegation (hp : Provable h row) :
    Provable { h with delegationStopped := true } row :=
  ⟨hp.requested, hp.fresh, hp.releasable, hp.recorded, hp.owners, hp.published⟩

end

end Ccmux.Session.Sleep
