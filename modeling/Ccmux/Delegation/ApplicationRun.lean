/- Module: Ccmux/Delegation/ApplicationRun
   source: src/delegation/application.ts
   digest: What every order of opens, renewals and closes keeps of one authority. -/

import Ccmux.Delegation.Application
import Ccmux.Lib.Machine

namespace Ccmux.Delegation.Application

open Ccmux.Chat.Identity (ChatPrincipal)
open Ccmux.Lib.Machine (run run_cons run_invariant)

/-- The journal of one authority, and the last reading of the clock. -/
structure World where
  journal : Option Record := none
  clock : Nat := 0
  deriving DecidableEq, Repr

inductive Event where
  | «open» (principal : ChatPrincipal) (input : OpenInput) (generation : String) (clock : Clock)
  | update (principal : ChatPrincipal) (input : UpdateInput) (close : Bool) (clock : Clock)
  | pass (now : Nat)
  deriving DecidableEq, Repr

/-- The journal after a call; a refused call and a receipt write nothing. -/
@[grind =]
def World.after (w : World) (clock : Clock) : Except Refusal Answer → World
  | .ok answer => { journal := answer.written.or w.journal, clock := clock.write }
  | .error _ => { w with clock := clock.write }

/-- The lock of the authority runs its calls one at a time. -/
def step (m : Host) (id : String) (w : World) : Event → Option World
  | .open principal input generation clock =>
    if input.operationId = id ∧ w.clock ≤ clock.expiry then
      some (w.after clock (openApplicationAuthority m principal input generation clock w.journal))
    else none
  | .update principal input close clock =>
    if input.parent.target.authorityId = id ∧ w.clock ≤ clock.expiry then
      some (w.after clock (updateApplicationAuthority m principal input close clock w.journal))
    else none
  | .pass now => if w.clock ≤ now then some { w with clock := now } else none

variable {m : Host} {id : String} {w v : World} {row next : Record} {journal : Option Record}
  {principal : ChatPrincipal} {input : UpdateInput} {close : Bool} {clock : Clock}
  {grant : ApplicationDelegationGrant} {answer : Answer}

theorem bind_ok {α β : Type} {x : Except Refusal α} {f : α → Except Refusal β} {b : β} :
    (x >>= f) = .ok b ↔ ∃ a, x = .ok a ∧ f a = .ok b := by
  cases x with
  | error refusal => simp [bind, Except.bind]
  | ok a => simp [bind, Except.bind]

theorem clock_le (clock : Clock) : clock.expiry ≤ clock.write :=
  Nat.le_trans clock.ordered.1 clock.ordered.2

theorem read_ok {found : Option Record} (h : read journal = .ok found) : found = journal := by
  cases journal with
  | none => simpa [read] using h.symm
  | some row =>
    simp only [read] at h
    split at h
    · exact (Except.ok.inj h).symm
    · cases h

variable {parent : ApplicationSelector} {generation : String} {now : Nat}
  {transport : Ccmux.Chat.Identity.ServiceTransport} {receipt : Authority}

theorem exactRow_ok (h : exactRow m parent journal = .ok row) :
    journal = some row ∧ row.parent = parent ∧ parent.target.machine = m.rcPrefix := by
  obtain ⟨found, hread, hrow⟩ := (bind_ok).mp h
  obtain rfl := read_ok hread
  cases found with
  | none => cases hrow
  | some found =>
    dsimp only at hrow
    split at hrow
    · cases hrow
    · rename_i hexact
      obtain rfl := Except.ok.inj hrow
      rw [not_or, not_not, not_not] at hexact
      exact ⟨rfl, hexact⟩

theorem exactRow_of (hlength : row.operations.length ≤ 4097)
    (hmachine : row.parent.target.machine = m.rcPrefix) :
    exactRow m row.parent (some row) = .ok row := by
  simp [exactRow, read, hlength, hmachine, bind, Except.bind]

theorem active_ok {row : Authority} {done : Unit} (h : active row clock = .ok done) :
    row.closedAt = none ∧ clock.expiry < row.expiresAt ∧ clock.deadline < row.deadlineAt := by
  unfold active at h
  split at h
  · cases h
  · rename_i hlive
    rw [not_or, not_or, not_not] at hlive
    exact ⟨hlive.1, by omega, by omega⟩

theorem issuer_ok {row : Authority} (h : issuer m principal row = .ok grant) :
    ∃ transport, principal = .service row.caller transport := by
  obtain ⟨current, -, h⟩ := (bind_ok).mp h
  cases principal with
  | service machine transport =>
    dsimp only at h
    split at h
    · cases h
    · rename_i hsame
      rw [not_or, not_not] at hsame
      exact ⟨transport, by rw [hsame.1]⟩
  | managed peer => cases h
  | codexApp peer => cases h
  | cli machine => cases h

theorem issuer_congr {row next : Authority} (hbinding : next.binding = row.binding)
    (hcaller : next.caller = row.caller) (hdigest : next.bindingDigest = row.bindingDigest)
    (hpolicy : next.policy = row.policy) : issuer m principal next = issuer m principal row := by
  simp only [issuer, hbinding, hcaller, hdigest, hpolicy]

variable {machine caller digest : String} {one other : Ccmux.Chat.Identity.ServiceTransport}
  {later : Nat} {es : List Event}

theorem binding_transport {wanted : ApplicationBinding} :
    binding m (.service machine one) wanted = binding m (.service machine other) wanted := by
  cases horigin : m.messageApplications wanted.attribution.applicationId with
  | none => simp only [binding, admitMessageOrigin, horigin]
  | some application => simp only [binding, admitMessageOrigin, horigin]

theorem issuer_transport {row : Authority} :
    issuer m (.service machine one) row = issuer m (.service machine other) row := by
  have hbinding : binding m (.service machine one) row.binding =
      binding m (.service machine other) row.binding := binding_transport
  simp only [issuer, hbinding]

/-- What an open that wrote has done: the first one of this authority. -/
theorem open_wrote {input : OpenInput}
    (h : openApplicationAuthority m principal input generation clock journal = .ok answer)
    (hwritten : answer.written = some next) :
    journal = none ∧ ∃ grant digest caller transport,
      principal = .service caller transport ∧
      binding m principal input.binding = .ok (grant, digest) ∧
      next = opened m caller input grant digest generation clock.write := by
  obtain ⟨⟨grant, digest⟩, hbinding, h⟩ := (bind_ok).mp h
  cases principal with
  | service caller transport =>
    obtain ⟨found, hread, hrow⟩ := (bind_ok).mp h
    obtain rfl := read_ok hread
    cases found with
    | none =>
      obtain rfl := Except.ok.inj hrow
      exact ⟨rfl, grant, digest, caller, transport, rfl, hbinding, (Option.some.inj hwritten).symm⟩
    | some prior =>
      obtain ⟨issued, -, hsame⟩ := (bind_ok).mp hrow
      split at hsame
      · cases hsame
      · obtain ⟨live, -, hreceipt⟩ := (bind_ok).mp hsame
        obtain rfl := Except.ok.inj hreceipt
        cases hwritten
  | managed peer => cases h
  | codexApp peer => cases h
  | cli machine => cases h

/-- What an operation that is new does: a close sets `closedAt` once, and a renewal asks for a
live authority. -/
theorem update_ok (h : update m grant input close clock row = .ok next) :
    row.operations.length < 4097 ∧
      (close = true ∧ next = (row.closed clock.write).logged input close ∨
        close = false ∧ ¬row.Ended clock.expiry ∧ row.operations.length < 4096 ∧
          next = (row.renewed grant.leaseMs clock.write).logged input close) := by
  unfold update at h
  split at h
  · cases h
  · rename_i hroom
    refine ⟨Nat.lt_of_not_le hroom, ?_⟩
    split at h
    · rename_i hclose
      exact .inl ⟨hclose, (Except.ok.inj h).symm⟩
    · rename_i hclose
      obtain ⟨live, hactive, h⟩ := (bind_ok).mp h
      obtain ⟨hopen, hlease, hdeadline⟩ := active_ok hactive
      have hordered := clock.ordered.1
      have hlive : ¬row.Ended clock.expiry := by
        rintro (hclosed | hexpired | hpast)
        · exact hclosed hopen
        · omega
        · omega
      split at h
      · cases h
      · rename_i hslot
        split at h
        · cases h
        · exact .inr ⟨by simpa using hclose, hlive, Nat.lt_of_not_le hslot,
            (Except.ok.inj h).symm⟩

/-- An update that is answered: a replay, or an operation that is new. -/
theorem updateApplicationAuthority_ok
    (h : updateApplicationAuthority m principal input close clock journal = .ok answer) :
    ∃ row grant, journal = some row ∧ row.parent = input.parent ∧
      input.parent.target.machine = m.rcPrefix ∧
      issuer m principal row.toAuthority = .ok grant ∧ input.operationId ≠ row.operationId ∧
      ((∃ prior, row.operations.find? (·.id = input.operationId) = some prior ∧
          prior.fingerprint = (input, close) ∧
          answer = { receipt := { row.receipt with toResult := prior.result }, written := none }) ∨
        ∃ next, row.operations.find? (·.id = input.operationId) = none ∧
          update m grant input close clock row = .ok next ∧
          answer = { receipt := next.receipt, written := some next }) := by
  obtain ⟨row, hexact, h⟩ := (bind_ok).mp h
  obtain ⟨grant, hissuer, h⟩ := (bind_ok).mp h
  obtain ⟨hrow, hparent, hmachine⟩ := exactRow_ok hexact
  split at h
  · cases h
  · rename_i hid
    refine ⟨row, grant, hrow, hparent, hmachine, hissuer, hid, ?_⟩
    split at h
    · rename_i prior hprior
      split at h
      · cases h
      · rename_i hsame
        exact .inl ⟨prior, hprior, not_not.mp hsame, (Except.ok.inj h).symm⟩
    · rename_i hfresh
      obtain ⟨next, hnext, h⟩ := (bind_ok).mp h
      exact .inr ⟨next, hfresh, hnext, (Except.ok.inj h).symm⟩

theorem Authority.Ended.mono {row : Authority} (h : row.Ended now)
    (hle : now ≤ later) : row.Ended later := by
  rcases h with hclosed | hexpired | hpast
  · exact .inl hclosed
  · exact .inr (.inl (Nat.le_trans hexpired hle))
  · exact .inr (.inr (Nat.le_trans hpast hle))

theorem active_ended {row : Authority} (h : row.Ended clock.expiry) :
    active row clock = .error (.delegation "Application parent authority has ended") := by
  have hordered := clock.ordered.1
  refine if_pos ?_
  rcases h with hclosed | hexpired | hpast
  · exact .inl hclosed
  · exact .inr (.inl hexpired)
  · exact .inr (.inr (Nat.le_trans hpast hordered))

/-- An authority has not ended when its row is exact, its issuer unchanged and the row live. -/
theorem applicationAuthorityEnded_eq_false :
    applicationAuthorityEnded m parent clock journal = false ↔
      ∃ row grant, read journal = .ok (some row) ∧ row.parent = parent ∧
        issuer m (.service row.caller .local) row.toAuthority = .ok grant ∧
        active row.toAuthority clock = .ok () := by
  constructor
  · intro h
    unfold applicationAuthorityEnded at h
    dsimp only at h
    split at h
    · rename_i ended hlease
      obtain ⟨found, hread, hrow⟩ := (bind_ok).mp hlease
      cases found with
      | none =>
        obtain rfl := Except.ok.inj hrow
        cases h
      | some row =>
        dsimp only at hrow
        split at hrow
        · obtain rfl := Except.ok.inj hrow
          cases h
        · rename_i hparent
          obtain ⟨grant, hissuer, hlive⟩ := (bind_ok).mp hrow
          obtain ⟨done, hactive, -⟩ := (bind_ok).mp hlive
          exact ⟨row, grant, hread, not_not.mp hparent, hissuer, hactive⟩
    · cases h
  · rintro ⟨row, grant, hread, hparent, hissuer, hactive⟩
    simp [applicationAuthorityEnded, hread, hparent, hissuer, hactive, bind, Except.bind]

theorem applicationAuthorityEnded_of_ended (h : row.Ended clock.expiry) :
    applicationAuthorityEnded m parent clock (some row) = true := by
  by_contra hended
  obtain ⟨found, grant, hread, -, -, hactive⟩ :=
    (applicationAuthorityEnded_eq_false).mp (Bool.not_eq_true _ ▸ hended)
  obtain rfl := Option.some.inj (read_ok hread)
  rw [active_ended h] at hactive
  cases hactive

theorem applicationAuthorityEnded_earlier {before : Clock}
    (h : applicationAuthorityEnded m parent clock journal = false)
    (hle : before.write ≤ clock.expiry) :
    applicationAuthorityEnded m parent before journal = false := by
  obtain ⟨row, grant, hread, hparent, hissuer, hactive⟩ := (applicationAuthorityEnded_eq_false).mp h
  obtain ⟨hopen, hlease, hdeadline⟩ := active_ok hactive
  have hbefore := before.ordered
  have hordered := clock.ordered
  refine (applicationAuthorityEnded_eq_false).mpr ⟨row, grant, hread, hparent, hissuer, ?_⟩
  refine if_neg ?_
  rintro (hclosed | hexpired | hpast)
  · exact hclosed hopen
  · omega
  · omega

/-- The row as its open wrote it under the host's grant, with the lease that the last renewal
asked for. -/
structure Leased (m : Host) (id : String) (now : Nat) (row : Record) : Prop where
  own : row.operationId = id
  machine : row.parent.target.machine = m.rcPrefix
  issued : ∃ grant,
    (∀ transport, issuer m (.service row.caller transport) row.toAuthority = .ok grant) ∧
    ∃ asked, asked ≤ now ∧ row.expiresAt = min (asked + grant.leaseMs) row.deadlineAt
  capacity : row.operations.length ≤ 4097
  reserved : row.closedAt = none → row.operations.length ≤ 4096

/-- What every call keeps of the row: all that the open wrote, the close and the log. -/
structure Kept (row next : Record) : Prop where
  issued : next.toAuthority = { row.toAuthority with toResult := next.toResult }
  closed : ∀ now, row.closedAt = some now → next.closedAt = some now
  expires : row.expiresAt ≤ next.expiresAt
  log : row.operations <+: next.operations

theorem Kept.refl (row : Record) : Kept row row where
  issued := rfl
  closed _ h := h
  expires := Nat.le_refl _
  log := List.prefix_rfl

theorem Kept.trans {last : Record} (h : Kept row next) (h' : Kept next last) : Kept row last where
  issued := by rw [h'.issued, h.issued]
  closed now hnow := h'.closed now (h.closed now hnow)
  expires := Nat.le_trans h.expires h'.expires
  log := h.log.trans h'.log

theorem Leased.mono (h : Leased m id now row) (hle : now ≤ later) :
    Leased m id later row where
  own := h.own
  machine := h.machine
  issued := by
    obtain ⟨grant, hissuer, asked, hasked, hexpires⟩ := h.issued
    exact ⟨grant, hissuer, asked, Nat.le_trans hasked hle, hexpires⟩
  capacity := h.capacity
  reserved := h.reserved

theorem Leased.expires_le (h : Leased m id now row) : row.expiresAt ≤ row.deadlineAt := by
  obtain ⟨grant, -, asked, -, hexpires⟩ := h.issued
  rw [hexpires]
  exact Nat.min_le_right _ _

theorem issuer_opened {input : OpenInput}
    (h : binding m (.service caller transport) input.binding = .ok (grant, digest)) :
    issuer m (.service caller transport)
      (opened m caller input grant digest generation now).toAuthority = .ok grant := by
  refine (bind_ok).mpr ⟨(grant, digest), h, ?_⟩
  simp [opened]

theorem leased_opened {input : OpenInput}
    (h : binding m (.service caller transport) input.binding = .ok (grant, digest)) :
    Leased m input.operationId now (opened m caller input grant digest generation now) where
  own := rfl
  machine := rfl
  issued := by
    refine ⟨grant, fun other => ?_, now, Nat.le_refl now, (Nat.add_min_add_left ..).symm⟩
    have hissuer : issuer m (.service caller transport)
        (opened m caller input grant digest generation now).toAuthority = .ok grant :=
      issuer_opened h
    rw [← hissuer]
    exact issuer_transport
  capacity := Nat.zero_le _
  reserved _ := Nat.zero_le _

theorem logged_length (row : Record) (input : UpdateInput) (close : Bool) :
    (row.logged input close).operations.length = row.operations.length + 1 := by
  simp [Record.logged]

theorem closed_closedAt (row : Record) (now : Nat) : (row.closed now).closedAt ≠ none := by
  simp [Record.closed]

theorem kept_closed (row : Record) (input : UpdateInput) (now : Nat) :
    Kept row ((row.closed now).logged input close) where
  issued := rfl
  closed then_ h := by simp [Record.logged, Record.closed, h]
  expires := Nat.le_refl _
  log := List.prefix_append _ _

theorem leased_closed (h : Leased m id now row) (hroom : row.operations.length < 4097) :
    Leased m id now ((row.closed clock.write).logged input close) where
  own := h.own
  machine := h.machine
  issued := h.issued
  capacity := by
    rw [logged_length]
    exact hroom
  reserved hopen := absurd hopen (closed_closedAt row clock.write)

theorem kept_renewed {asked leaseMs : Nat} (hexpires : row.expiresAt =
    min (asked + leaseMs) row.deadlineAt) (hle : asked ≤ now) :
    Kept row ((row.renewed leaseMs now).logged input close) where
  issued := rfl
  closed _ h := h
  expires := by
    have hmin : min (asked + leaseMs) row.deadlineAt ≤ min (now + leaseMs) row.deadlineAt := by
      omega
    rw [hexpires]
    exact hmin
  log := List.prefix_append _ _

theorem leased_renewed (h : Leased m id now row)
    (hissuer : ∀ transport, issuer m (.service row.caller transport) row.toAuthority = .ok grant)
    (hroom : row.operations.length < 4096) :
    Leased m id now ((row.renewed grant.leaseMs now).logged input close) where
  own := h.own
  machine := h.machine
  issued := ⟨grant, hissuer, now, Nat.le_refl now, rfl⟩
  capacity := by
    rw [logged_length]
    exact Nat.le_succ_of_le hroom
  reserved _ := by
    rw [logged_length]
    exact hroom

theorem Leased.grant_eq (h : Leased m id now row)
    (hissuer : issuer m principal row.toAuthority = .ok grant) :
    (∀ transport, issuer m (.service row.caller transport) row.toAuthority = .ok grant) ∧
      ∃ asked, asked ≤ now ∧ row.expiresAt = min (asked + grant.leaseMs) row.deadlineAt := by
  obtain ⟨issued, hissued, hasked⟩ := h.issued
  obtain ⟨transport, rfl⟩ := issuer_ok hissuer
  obtain rfl := Except.ok.inj ((hissued transport).symm.trans hissuer)
  exact ⟨hissued, hasked⟩

/-- What the calls since `w` have done to the authority. -/
structure Later (w v : World) : Prop where
  clock : w.clock ≤ v.clock
  row : ∀ row, w.journal = some row → ∃ next, v.journal = some next ∧ Kept row next ∧
    (row.Ended w.clock → next.Ended v.clock)

def Sound (m : Host) (id : String) (w : World) : Prop :=
  ∀ row, w.journal = some row → Leased m id w.clock row

theorem Later.refl (w : World) : Later w w where
  clock := Nat.le_refl _
  row row h := ⟨row, h, Kept.refl row, fun hended => hended⟩

theorem Later.trans {u : World} (h : Later w v) (h' : Later v u) : Later w u where
  clock := Nat.le_trans h.clock h'.clock
  row row hrow := by
    obtain ⟨next, hnext, hkept, hended⟩ := h.row row hrow
    obtain ⟨last, hlast, hkept', hended'⟩ := h'.row next hnext
    exact ⟨last, hlast, hkept.trans hkept', fun hend => hended' (hended hend)⟩

theorem later_same (hle : w.clock ≤ v.clock) (hsame : v.journal = w.journal) : Later w v where
  clock := hle
  row row hrow := ⟨row, hsame.trans hrow, Kept.refl row, fun hended => hended.mono hle⟩

theorem sound_same (h : Sound m id w) (hle : w.clock ≤ v.clock) (hsame : v.journal = w.journal) :
    Sound m id v := by
  intro row hrow
  exact (h row (hsame.symm.trans hrow)).mono hle

theorem step_pass (h : Sound m id w) (hle : w.clock ≤ now) :
    Sound m id { w with clock := now } ∧ Later w { w with clock := now } :=
  ⟨sound_same h hle rfl, later_same hle rfl⟩

theorem after_unwritten {outcome : Except Refusal Answer} (hle : w.clock ≤ clock.expiry)
    (h : Sound m id w) (hnone : ∀ answer, outcome = .ok answer → answer.written = none) :
    Sound m id (w.after clock outcome) ∧ Later w (w.after clock outcome) := by
  have hclock := Nat.le_trans hle (clock_le clock)
  cases outcome with
  | error refusal => exact ⟨sound_same h hclock rfl, later_same hclock rfl⟩
  | ok answer =>
    have hsame : (w.after clock (.ok answer)).journal = w.journal := by
      simp [World.after, hnone answer rfl]
    exact ⟨sound_same h hclock hsame, later_same hclock hsame⟩

theorem after_written (hwritten : answer.written = some next) :
    w.after clock (.ok answer) = { journal := some next, clock := clock.write } := by
  simp [World.after, hwritten]

theorem step_open {input : OpenInput} (h : Sound m input.operationId w)
    (hle : w.clock ≤ clock.expiry) :
    let next := w.after clock
      (openApplicationAuthority m principal input generation clock w.journal)
    Sound m input.operationId next ∧ Later w next := by
  intro after
  cases houtcome : openApplicationAuthority m principal input generation clock w.journal with
  | error refusal =>
    simp only [after, houtcome]
    exact after_unwritten hle h (fun answer hanswer => by cases hanswer)
  | ok answer =>
    simp only [after, houtcome]
    cases hwritten : answer.written with
    | none =>
      refine after_unwritten hle h ?_
      intro other hother
      obtain rfl := Except.ok.inj hother
      exact hwritten
    | some next =>
      obtain ⟨hfirst, grant, digest, caller, transport, rfl, hbinding, rfl⟩ :=
        open_wrote houtcome hwritten
      rw [after_written hwritten]
      refine ⟨?_, Nat.le_trans hle (clock_le clock), ?_⟩
      · intro row hrow
        obtain rfl := Option.some.inj hrow
        exact leased_opened hbinding
      · intro row hrow
        rw [hfirst] at hrow
        cases hrow

theorem step_update (h : Sound m id w) (hle : w.clock ≤ clock.expiry) :
    let next := w.after clock (updateApplicationAuthority m principal input close clock w.journal)
    Sound m id next ∧ Later w next := by
  intro after
  have hclock := Nat.le_trans hle (clock_le clock)
  cases houtcome : updateApplicationAuthority m principal input close clock w.journal with
  | error refusal =>
    simp only [after, houtcome]
    exact after_unwritten hle h (fun answer hanswer => by cases hanswer)
  | ok answer =>
    simp only [after, houtcome]
    obtain ⟨row, grant, hrow, -, -, hissuer, -, ⟨prior, -, -, rfl⟩ | ⟨next, -, hnext, rfl⟩⟩ :=
      updateApplicationAuthority_ok houtcome
    · refine after_unwritten hle h ?_
      intro other hother
      obtain rfl := Except.ok.inj hother
      rfl
    · have hleased := h row hrow
      rw [after_written rfl]
      obtain ⟨hroom, ⟨rfl, rfl⟩ | ⟨rfl, hlive, hslot, rfl⟩⟩ := update_ok hnext
      · refine ⟨?_, hclock, ?_⟩
        · intro found hfound
          obtain rfl := Option.some.inj hfound
          exact leased_closed (hleased.mono hclock) hroom
        · intro found hfound
          obtain rfl := Option.some.inj (hrow.symm.trans hfound)
          exact ⟨_, rfl, kept_closed row input clock.write,
            fun _ => .inl (closed_closedAt row clock.write)⟩
      · obtain ⟨hissued, asked, hasked, hexpires⟩ := hleased.grant_eq hissuer
        refine ⟨?_, hclock, ?_⟩
        · intro found hfound
          obtain rfl := Option.some.inj hfound
          exact leased_renewed (hleased.mono hclock) hissued hslot
        · intro found hfound
          obtain rfl := Option.some.inj (hrow.symm.trans hfound)
          refine ⟨_, rfl, kept_renewed hexpires (Nat.le_trans hasked hclock), ?_⟩
          -- An ended authority is not renewed.
          exact fun hended => absurd (hended.mono hle) hlive

theorem step_sound {e : Event} (h : Sound m id w) (hstep : step m id w e = some v) :
    Sound m id v ∧ Later w v := by
  cases e with
  | «open» principal input generation clock =>
    obtain ⟨⟨rfl, hle⟩, hafter⟩ := Option.ite_none_right_eq_some.mp hstep
    obtain rfl := Option.some.inj hafter
    exact step_open h hle
  | update principal input close clock =>
    obtain ⟨⟨-, hle⟩, hafter⟩ := Option.ite_none_right_eq_some.mp hstep
    obtain rfl := Option.some.inj hafter
    exact step_update h hle
  | pass now =>
    obtain ⟨hle, hafter⟩ := Option.ite_none_right_eq_some.mp hstep
    obtain rfl := Option.some.inj hafter
    exact step_pass h hle

theorem run_sound (h : Sound m id w) (hrun : run (step m id) w es = some v) :
    Sound m id v ∧ Later w v := by
  refine run_invariant (P := fun v => Sound m id v ∧ Later w v) ?_ hrun ⟨h, Later.refl w⟩
  rintro u e u' ⟨hsound, hlater⟩ hstep
  obtain ⟨hsound', hlater'⟩ := step_sound hsound hstep
  exact ⟨hsound', hlater.trans hlater'⟩

/-- The operation is in the log with its payload, and the receipt says what it left. -/
def Logged (input : UpdateInput) (close : Bool) (receipt : Authority) (row : Record) : Prop :=
  ∃ operation, row.operations.find? (·.id = input.operationId) = some operation ∧
    operation.fingerprint = (input, close) ∧
    receipt = { row.toAuthority with toResult := operation.result }

theorem find_logged {row : Record} (input : UpdateInput) (close : Bool)
    (hfresh : row.operations.find? (·.id = input.operationId) = none) :
    (row.logged input close).operations.find? (·.id = input.operationId) =
      some { id := input.operationId, fingerprint := (input, close),
             result := (row.logged input close).toResult } := by
  simp [Record.logged, List.find?_append, hfresh]

theorem logged_after
    (h : updateApplicationAuthority m principal input close clock w.journal = .ok answer) :
    ∃ row, (w.after clock (.ok answer)).journal = some row ∧ Logged input close answer.receipt row ∧
      row.parent = input.parent ∧ row.operationId ≠ input.operationId ∧
      ∃ grant, issuer m principal row.toAuthority = .ok grant := by
  obtain ⟨row, grant, hrow, hparent, -, hissuer, hid, ⟨prior, hprior, hsame, rfl⟩ |
    ⟨next, hfresh, hnext, rfl⟩⟩ := updateApplicationAuthority_ok h
  · exact ⟨row, hrow, ⟨prior, hprior, hsame, rfl⟩, hparent, hid.symm, grant, hissuer⟩
  · obtain ⟨-, ⟨-, rfl⟩ | ⟨-, -, -, rfl⟩⟩ := update_ok hnext
    · exact ⟨_, rfl, ⟨_, find_logged input close hfresh, rfl, rfl⟩, hparent, hid.symm, grant,
        hissuer⟩
    · exact ⟨_, rfl, ⟨_, find_logged input close hfresh, rfl, rfl⟩, hparent, hid.symm, grant,
        hissuer⟩

theorem Logged.mono (h : Logged input close receipt row)
    (hkept : Kept row next) : Logged input close receipt next := by
  obtain ⟨operation, hfind, hsame, rfl⟩ := h
  obtain ⟨more, hmore⟩ := hkept.log
  refine ⟨operation, ?_, hsame, ?_⟩
  · rw [← hmore, List.find?_append, hfind]
    rfl
  · rw [hkept.issued]

theorem Kept.parent_eq (h : Kept row next) : next.parent = row.parent := by rw [h.issued]

theorem Kept.operationId_eq (h : Kept row next) : next.operationId = row.operationId := by
  rw [h.issued]

theorem Kept.issuer_eq (h : Kept row next) :
    issuer m principal next.toAuthority = issuer m principal row.toAuthority := by
  refine issuer_congr ?_ ?_ ?_ ?_ <;> rw [h.issued]

theorem update_reaches (hparent : row.parent = input.parent)
    (hmachine : row.parent.target.machine = m.rcPrefix)
    (hcapacity : row.operations.length ≤ 4097) (hid : row.operationId ≠ input.operationId)
    (hissuer : issuer m principal row.toAuthority = .ok grant) :
    updateApplicationAuthority m principal input close clock (some row) =
      match row.operations.find? (·.id = input.operationId) with
      | some prior =>
        if prior.fingerprint ≠ (input, close) then
          .error (.delegation "Application authority operation conflicts")
        else .ok { receipt := { row.receipt with toResult := prior.result }, written := none }
      | none =>
        update m grant input close clock row >>= fun next =>
          .ok { receipt := next.receipt, written := some next } := by
  have hexact : exactRow m input.parent (some row) = .ok row := by
    rw [← hparent]
    exact exactRow_of hcapacity hmachine
  unfold updateApplicationAuthority
  rw [hexact]
  simp only [bind, Except.bind, hissuer]
  refine (if_neg hid.symm).trans ?_
  cases row.operations.find? (·.id = input.operationId) with
  | none => rfl
  | some prior => rfl

theorem update_replayed (hlogged : Logged input close receipt row)
    (hparent : row.parent = input.parent) (hmachine : row.parent.target.machine = m.rcPrefix)
    (hcapacity : row.operations.length ≤ 4097) (hid : row.operationId ≠ input.operationId)
    (hissuer : issuer m principal row.toAuthority = .ok grant) :
    updateApplicationAuthority m principal input close clock (some row) =
      .ok { receipt, written := none } := by
  obtain ⟨operation, hfind, hsame, rfl⟩ := hlogged
  rw [update_reaches hparent hmachine hcapacity hid hissuer, hfind]
  exact if_neg (not_not.mpr hsame)

theorem update_reused {other : UpdateInput} {otherClose : Bool}
    (hlogged : Logged input close receipt row) (hsame : other.operationId = input.operationId)
    (hother : (other, otherClose) ≠ (input, close)) :
    ∃ refusal, updateApplicationAuthority m principal other otherClose clock (some row) =
      .error refusal := by
  cases houtcome : updateApplicationAuthority m principal other otherClose clock (some row) with
  | error refusal => exact ⟨refusal, rfl⟩
  | ok answer =>
    exfalso
    obtain ⟨operation, hfind, hprint, -⟩ := hlogged
    rw [← hsame] at hfind
    obtain ⟨found, _, hfound, -, -, -, -, ⟨prior, hprior, hpayload, -⟩ | ⟨next, hfresh, -⟩⟩ :=
      updateApplicationAuthority_ok houtcome
    · obtain rfl := Option.some.inj hfound
      obtain rfl := Option.some.inj (hfind.symm.trans hprior)
      exact hother (hpayload.symm.trans hprint)
    · obtain rfl := Option.some.inj hfound
      rw [hfind] at hfresh
      cases hfresh

theorem close_admitted (h : Leased m id now row) (hopen : row.closedAt = none)
    (hparent : row.parent = input.parent)
    (hid : row.operationId ≠ input.operationId)
    (hfresh : ∀ operation ∈ row.operations, operation.id ≠ input.operationId) :
    ∃ next, updateApplicationAuthority m (.service row.caller transport) input true clock
        (some row) = .ok { receipt := next.receipt, written := some next } ∧
      next.closedAt = some clock.write := by
  obtain ⟨grant, hissuer, -⟩ := h.issued
  have hfind : row.operations.find? (·.id = input.operationId) = none := by
    refine List.find?_eq_none.mpr fun operation hoperation => ?_
    simpa using hfresh operation hoperation
  have hroom : ¬4097 ≤ row.operations.length := by
    have := h.reserved hopen
    omega
  refine ⟨(row.closed clock.write).logged input true, ?_, ?_⟩
  · rw [update_reaches hparent h.machine h.capacity hid (hissuer transport), hfind]
    simp only [update, if_neg hroom]
    rfl
  · simp [Record.logged, Record.closed, hopen]

/-- The laws of one authority between a state of its run and a later one. -/
structure Laws (m : Host) (id : String) (w : World) (es : List Event) (v : World) : Prop where
  ended : ∀ row, w.journal = some row → ∃ next, v.journal = some next ∧
    (row.Ended w.clock → ∀ clock, v.clock ≤ clock.expiry →
      active next.toAuthority clock =
          .error (.delegation "Application parent authority has ended") ∧
        ∀ parent, applicationAuthorityEnded m parent clock v.journal = true) ∧
    row.expiresAt ≤ next.expiresAt ∧ next.expiresAt ≤ next.deadlineAt ∧
    next.deadlineAt = row.deadlineAt ∧ ∀ now, row.closedAt = some now → next.closedAt = some now
  replayed : ∀ principal input close clock answer rest,
    es = .update principal input close clock :: rest →
    updateApplicationAuthority m principal input close clock w.journal = .ok answer →
    ∀ again, updateApplicationAuthority m principal input close again v.journal =
      .ok { receipt := answer.receipt, written := none }
  reused : ∀ principal input close clock answer rest,
    es = .update principal input close clock :: rest →
    updateApplicationAuthority m principal input close clock w.journal = .ok answer →
    ∀ sender other otherClose again, other.operationId = input.operationId →
      (other, otherClose) ≠ (input, close) →
      ∃ refusal, updateApplicationAuthority m sender other otherClose again v.journal =
        .error refusal
  firstClose : ∀ row, v.journal = some row → row.closedAt = none →
    ∀ input transport clock, input.parent = row.parent → input.operationId ≠ id →
      (∀ operation ∈ row.operations, operation.id ≠ input.operationId) →
      ∃ next, updateApplicationAuthority m (.service row.caller transport) input true clock
          v.journal = .ok { receipt := next.receipt, written := some next } ∧
        next.closedAt = some clock.write

theorem logged_later (hsound : Sound m id w)
    (hrun : run (step m id) w (.update principal input close clock :: es) = some v)
    (h : updateApplicationAuthority m principal input close clock w.journal = .ok answer) :
    ∃ row, v.journal = some row ∧ Logged input close answer.receipt row ∧ Leased m id v.clock row ∧
      row.parent = input.parent ∧ row.operationId ≠ input.operationId ∧
      ∃ grant, issuer m principal row.toAuthority = .ok grant := by
  obtain ⟨u, hstep, hrest⟩ := run_cons.mp hrun
  obtain ⟨hsound', -⟩ := step_sound hsound hstep
  obtain ⟨⟨-, -⟩, hafter⟩ := Option.ite_none_right_eq_some.mp hstep
  obtain rfl := Option.some.inj hafter
  rw [h] at hrest hsound'
  obtain ⟨hlast, hlater⟩ := run_sound hsound' hrest
  obtain ⟨row, hrow, hlogged, hparent, hid, grant, hissuer⟩ := logged_after h
  obtain ⟨next, hnext, hkept, -⟩ := hlater.row row hrow
  exact ⟨next, hnext, hlogged.mono hkept, hlast next hnext, hkept.parent_eq.trans hparent,
    hkept.operationId_eq.trans_ne hid, grant, hkept.issuer_eq.trans hissuer⟩

/-- An ended authority stays ended, its lease is monotone up to the deadline, updates are answered
once and the first close is admitted, in every order of calls. -/
theorem application_authority_laws {before es : List Event}
    (hbefore : run (step m id) {} before = some w) (hrun : run (step m id) w es = some v) :
    Laws m id w es v := by
  have hstart : Sound m id {} := fun row hrow => by cases hrow
  obtain ⟨hsound, -⟩ := run_sound hstart hbefore
  obtain ⟨hlast, hlater⟩ := run_sound hsound hrun
  refine ⟨?_, ?_, ?_, ?_⟩
  · intro row hrow
    obtain ⟨next, hnext, hkept, hended⟩ := hlater.row row hrow
    refine ⟨next, hnext, ?_, hkept.expires, (hlast next hnext).expires_le, ?_, hkept.closed⟩
    · intro hend clock hclock
      have hstill := (hended hend).mono hclock
      refine ⟨active_ended hstill, fun parent => ?_⟩
      rw [hnext]
      exact applicationAuthorityEnded_of_ended hstill
    · rw [hkept.issued]
  · rintro principal input close clock answer rest rfl hanswer again
    obtain ⟨row, hrow, hlogged, hleased, hparent, hid, grant, hissuer⟩ :=
      logged_later hsound hrun hanswer
    rw [hrow]
    exact update_replayed hlogged hparent hleased.machine hleased.capacity hid hissuer
  · rintro principal input close clock answer rest rfl hanswer sender other otherClose again
      hsame hother
    obtain ⟨row, hrow, hlogged, -⟩ := logged_later hsound hrun hanswer
    rw [hrow]
    exact update_reused hlogged hsame hother
  · intro row hrow hopen input transport clock hparent hid hfresh
    have hleased := hlast row hrow
    rw [hrow]
    refine close_admitted hleased hopen hparent.symm ?_ hfresh
    rw [hleased.own]
    exact hid.symm

def exampleBinding : ApplicationBinding :=
  { applicationId := "assistant", channelId := "room", revision := "r1" }

/-- A host with one grant: a lease of a second, and a lifetime of three. -/
def exampleHost : Host where
  rcPrefix := "local"
  messageApplications _ := some
    { revision := "r1", callers := ["gateway"], channels := ["room"], actors := [.agent] }
  applicationDelegationAuthorities :=
    [{ binding := exampleBinding
       policy := { access := .readOnly, workspace := "/work" }
       leaseMs := 1000
       lifetimeMs := 3000 }]
  sha256 application := application.revision
  realpathSync path := some path
  toISOString now := toString now

def exampleOpen : OpenInput :=
  { operationId := "a"
    binding := exampleBinding
    conversationId := "c"
    runId := "r"
    sourceMessageRef := "m"
    authorizationQuote := "go" }

def exampleUpdate (operationId : String) (expectedExpiresAt : Nat) : UpdateInput :=
  { parent :=
      { target := { machine := "local", applicationId := "assistant", authorityId := "a" }
        registrationGeneration := "g" }
    operationId
    expectedExpiresAt := some (toString expectedExpiresAt) }

def exampleGateway : ChatPrincipal := .service "gateway" .declaredService

def exampleBefore : List Event :=
  [.open exampleGateway exampleOpen "g" { expiry := 0, deadline := 0, write := 0 },
    .update exampleGateway (exampleUpdate "b" 1000) false
      { expiry := 500, deadline := 500, write := 501 }]

/-- The renewal once more, a close, and what comes after it. -/
def exampleAfter : List Event :=
  [.update exampleGateway (exampleUpdate "b" 1000) false
      { expiry := 600, deadline := 600, write := 600 },
    .update exampleGateway (exampleUpdate "c" 0) true { expiry := 700, deadline := 700, write := 700 },
    .update exampleGateway (exampleUpdate "d" 1501) false
      { expiry := 800, deadline := 800, write := 800 },
    .open exampleGateway exampleOpen "h" { expiry := 900, deadline := 900, write := 900 },
    .pass 5000]

theorem exampleRun_laws :
    ∃ w v, run (step exampleHost "a") {} exampleBefore = some w ∧
      run (step exampleHost "a") w exampleAfter = some v ∧ w.journal.isSome = true ∧
      (v.journal.map fun row => (row.expiresAt, row.closedAt, row.operations.length)) =
        some (1501, some 700, 2) ∧
      Laws exampleHost "a" w exampleAfter v := by
  have hbefore : ((run (step exampleHost "a") {} exampleBefore).any fun w =>
      w.journal.isSome && (run (step exampleHost "a") w exampleAfter).any fun v =>
        decide ((v.journal.map fun row => (row.expiresAt, row.closedAt, row.operations.length)) =
          some (1501, some 700, 2))) = true := by decide
  obtain ⟨w, hw, hafter⟩ := (Option.any_eq_true _ _).mp hbefore
  obtain ⟨hsome, hany⟩ := Bool.and_eq_true_iff.mp hafter
  obtain ⟨v, hv, hrow⟩ := (Option.any_eq_true _ _).mp hany
  exact ⟨w, v, hw, hv, hsome, of_decide_eq_true hrow, application_authority_laws hw hv⟩

end Ccmux.Delegation.Application
