/- Module: Ccmux/Delegation/ResolveRun
   source: src/delegation/resolve.ts, src/delegation/cancel.ts
   digest: Chains of delegations: what narrows along them, and what stops them. -/

import Ccmux.Delegation.ApplicationRun
import Ccmux.Delegation.Resolve
import Mathlib

namespace Ccmux.Delegation

open Ccmux.Chat.Identity (ManagedPeer ChatPrincipal)
open Ccmux.Lib.Machine (run run_invariant run_invariant_along Along along_of_check
  along_of_invariant)
open Application (Clock bind_ok clock_le applicationAuthorityEnded
  applicationAuthorityEnded_earlier)
open Workspace (segments withinWorkspace_iff)
open Relation (TransGen)

/-- A resolved delegation, what it was resolved from, and whether that was stopped then. -/
structure Link where
  child : ChildDelegation
  parent : Node
  stopped : Bool
  deriving DecidableEq, Repr

structure World where
  disk : Disk := {}
  clock : Nat := 0
  links : List Link := []

/-- The host of each call is the configuration it runs under. -/
inductive Event where
  | create (m : Host) (runtime mode workspace requestId : String) (input : DelegationRequest)
      (principal : Option ChatPrincipal) (readings : Readings)
  | authority (m : Host) (id : String) (call : Application.Event)
  | stop (requestId : String)
  | registry (sessions : List Session)
  | pass (now : Nat)

/-- Whether the node is a child that was stopped at the instant. -/
def Node.stopped (m : Host) (disk : Disk) (now : Nat) : Node → Bool
  | .child delegation => delegation.stopped m disk { expiry := now, deadline := now, write := now,
                                                     ordered := ⟨Nat.le_refl _, Nat.le_refl _⟩ }
  | _ => false

def step (w : World) : Event → Option World
  | .create m runtime mode workspace requestId input principal readings =>
    if w.clock ≤ readings.start then
      match resolveDelegation m w.disk runtime mode workspace requestId input principal readings with
      | .error _ => some { w with clock := readings.last }
      | .ok (node, child) =>
        some
          { w with
            clock := readings.last
            links := w.links ++
              [{ child, parent := node, stopped := node.stopped m w.disk readings.start }] }
    else none
  | .authority m id call =>
    (Application.step m.toHost id { journal := w.disk.journals id, clock := w.clock } call).map
      fun next =>
        { w with
          disk := { w.disk with journals := Function.update w.disk.journals id next.journal }
          clock := next.clock }
  | .stop requestId => some { w with disk := stopDelegationRequest w.disk requestId }
  | .registry sessions =>
    -- Other operations change the registry at will, but a delegation in it was resolved.
    if ∀ session ∈ sessions, ∀ delegation, session.delegation = some delegation →
        delegation ∈ w.links.map Link.child then
      some { w with disk := { w.disk with sessions } }
    else none
  | .pass now => if w.clock ≤ now then some { w with clock := now } else none

/-- What is handed down is at most what was had. -/
structure Narrows (parent child : Inherited) : Prop where
  access : child.policy.access.rank ≤ parent.policy.access.rank
  workspace : segments parent.policy.workspace <+: segments child.policy.workspace
  deadline : ∀ deadline, parent.deadlineAt = some deadline →
    ∃ own, child.deadlineAt = some own ∧ own ≤ deadline
  authority : child.applicationAuthority = parent.applicationAuthority

/-- The node right above a resolved child. -/
def Above (links : List Link) (parent child : Node) : Prop :=
  ∃ link ∈ links, link.parent = parent ∧ child = .child link.child

def Ancestor (links : List Link) : Node → Node → Prop := TransGen (Above links)

variable {m : Host} {disk : Disk} {w v : World} {clock : Clock} {node : Node}
  {child : ChildDelegation} {principal : Option ChatPrincipal} {readings : Readings}
  {parent : DelegationParent} {input : DelegationRequest} {a b c : Inherited}

theorem Narrows.trans (h : Narrows a b) (h' : Narrows b c) : Narrows a c where
  access := Nat.le_trans h'.access h.access
  workspace := h.workspace.trans h'.workspace
  deadline deadline hdeadline := by
    obtain ⟨own, hown, hle⟩ := h.deadline deadline hdeadline
    obtain ⟨last, hlast, hle'⟩ := h'.deadline own hown
    exact ⟨last, hlast, Nat.le_trans hle' hle⟩
  authority := h'.authority.trans h.authority

theorem narrowPolicy_ok {one other : DelegatedPolicy} {done : Unit}
    (h : narrowPolicy one other = .ok done) :
    other.access.rank ≤ one.access.rank ∧ segments one.workspace <+: segments other.workspace := by
  unfold narrowPolicy at h
  split at h
  · cases h
  · rename_i hnarrow
    rw [not_or, Nat.not_lt] at hnarrow
    exact ⟨hnarrow.1, (withinWorkspace_iff _ _).mp (by simpa using hnarrow.2)⟩

theorem earlier_le {parent own : Option Nat} {deadline : Nat} (h : parent = some deadline) :
    ∃ last, earlier parent own = some last ∧ last ≤ deadline := by
  subst h
  cases own with
  | none => exact ⟨deadline, rfl, Nat.le_refl _⟩
  | some own => exact ⟨min deadline own, rfl, Nat.min_le_left _ _⟩

variable {runtime workspace requestId mode : String} {now : Nat} {one other : Node}

theorem narrow_ok (h : narrow m runtime workspace requestId input a now = .ok child) :
    Narrows a (Node.child child).inherited ∧
      ∀ deadline, child.deadlineAt = some deadline → now < deadline := by
  obtain ⟨canonical, -, hrest⟩ := bind_ok.mp h
  dsimp only at hrest
  split at hrest
  · cases hrest
  · rename_i hahead
    obtain ⟨narrowed, hnarrow, hlast⟩ := bind_ok.mp hrest
    split at hlast
    · cases hlast
    · obtain rfl := Except.ok.inj hlast
      obtain ⟨haccess, hworkspace⟩ := narrowPolicy_ok hnarrow
      refine ⟨⟨haccess, hworkspace, fun deadline hdeadline => earlier_le hdeadline, rfl⟩, ?_⟩
      intro deadline hdeadline
      simp only at hdeadline
      rw [hdeadline] at hahead
      simpa using hahead

variable {delegation : ChildDelegation} {links more : List Link} {session : Session} {e : Event}

/-- Under a delegated parent the child is resolved only while the root authority is live. -/
theorem inherit_child
    (h : inherit m disk parent principal readings = .ok (some (.child delegation))) :
    ∃ target session, parent.target = .managed target ∧
      controlTarget m disk.sessions target = .ok session ∧ session.delegation = some delegation ∧
      ∀ root, delegation.applicationAuthority = some root →
        applicationAuthorityEnded m.toHost root readings.ended
          (disk.journals root.target.authorityId) = false := by
  unfold inherit at h
  split at h
  · obtain ⟨row, -, hrow⟩ := bind_ok.mp h
    cases hrow
  · rename_i target htarget
    obtain ⟨session, hsession, hrest⟩ := bind_ok.mp h
    refine ⟨target, session, htarget, hsession, ?_⟩
    split at hrest
    · cases hrest
    · split at hrest
      · cases hrest
      · split at hrest
        · cases hgrant : grantFor m target parent.registrationGeneration with
          | none => simp [hgrant] at hrest
          | some grant => simp [hgrant] at hrest
        · rename_i found hfound
          split at hrest
          · rename_i hroot
            obtain rfl := Node.child.inj (Option.some.inj (Except.ok.inj hrest))
            refine ⟨hfound, fun root hsome => ?_⟩
            rw [hroot] at hsome
            cases hsome
          · rename_i root hroot
            obtain ⟨required, -, hended⟩ := bind_ok.mp hrest
            split at hended
            · cases hended
            · rename_i hlive
              obtain rfl := Node.child.inj (Option.some.inj (Except.ok.inj hended))
              refine ⟨hfound, fun other hsome => ?_⟩
              obtain rfl := Option.some.inj (hroot.symm.trans hsome)
              simpa using hlive

theorem resolveDelegation_ok
    (h : resolveDelegation m disk runtime mode workspace requestId input principal readings =
      .ok (node, child)) :
    inherit m disk input.parent principal readings = .ok (some node) ∧
      narrow m runtime workspace requestId input node.inherited readings.last = .ok child := by
  unfold resolveDelegation at h
  split at h
  · cases h
  · split at h
    · cases h
    · obtain ⟨found, hfound, hrest⟩ := bind_ok.mp h
      cases found with
      | none => cases hrest
      | some found =>
        obtain ⟨delegation, hdelegation, hpair⟩ := bind_ok.mp hrest
        obtain ⟨rfl, rfl⟩ := Prod.mk.inj (Except.ok.inj hpair)
        exact ⟨hfound, hdelegation⟩

/-- Past the checks of the source, only a stop receipt can have stopped the parent. -/
theorem parent_stopped
    (h : resolveDelegation m disk runtime mode workspace requestId input principal readings =
      .ok (.child delegation, child)) :
    (Node.child delegation).stopped m disk readings.start =
      disk.stops.contains delegation.requestId := by
  obtain ⟨hinherit, hnarrow⟩ := resolveDelegation_ok h
  obtain ⟨target, session, -, -, -, hroot⟩ := inherit_child hinherit
  obtain ⟨hlaws, hahead⟩ := narrow_ok hnarrow
  obtain ⟨hrequire, hended, hlast⟩ := readings.ordered
  have hrequired := clock_le readings.require
  have hread := clock_le readings.ended
  have hauthority : ∀ root, delegation.applicationAuthority = some root →
      applicationAuthorityEnded m.toHost root
        { expiry := readings.start, deadline := readings.start, write := readings.start,
          ordered := ⟨Nat.le_refl _, Nat.le_refl _⟩ }
        (disk.journals root.target.authorityId) = false := by
    intro root hsome
    exact applicationAuthorityEnded_earlier (hroot root hsome)
      (show readings.start ≤ readings.ended.expiry by omega)
  have hdeadline : ∀ deadline, delegation.deadlineAt = some deadline →
      readings.start < deadline := by
    intro deadline hsome
    obtain ⟨own, hown, hle⟩ := hlaws.deadline deadline hsome
    have := hahead own hown
    omega
  have hanyAuthority : (delegation.applicationAuthority.any fun root =>
      applicationAuthorityEnded m.toHost root
        { expiry := readings.start, deadline := readings.start, write := readings.start,
          ordered := ⟨Nat.le_refl _, Nat.le_refl _⟩ }
        (disk.journals root.target.authorityId)) = false := by
    cases hsome : delegation.applicationAuthority with
    | none => rfl
    | some root => exact hauthority root hsome
  have hanyDeadline : delegation.deadlineAt.any (· ≤ readings.start) = false := by
    cases hsome : delegation.deadlineAt with
    | none => rfl
    | some deadline => simpa using hdeadline deadline hsome
  simp only [Node.stopped, ChildDelegation.stopped, hanyAuthority, hanyDeadline, Bool.false_or]

/-- What the run keeps: each link narrows, a delegated parent was resolved before, and the registry
holds resolved delegations only. -/
structure Sound (w : World) : Prop where
  narrows : ∀ link ∈ w.links, Narrows link.parent.inherited (Node.child link.child).inherited
  rooted : ∀ link ∈ w.links, ∃ root, (∀ delegation, root ≠ .child delegation) ∧
    Ancestor w.links root (.child link.child)
  registered : ∀ session ∈ w.disk.sessions, ∀ delegation, session.delegation = some delegation →
    delegation ∈ w.links.map Link.child

theorem Above.mono (h : Above links one other) :
    Above (links ++ more) one other := by
  obtain ⟨link, hlink, hparent, hchild⟩ := h
  exact ⟨link, List.mem_append_left more hlink, hparent, hchild⟩

theorem Ancestor.mono (h : Ancestor links one other) :
    Ancestor (links ++ more) one other :=
  TransGen.mono (fun _ _ => Above.mono) one other h

theorem above_last (links : List Link) (link : Link) :
    Above (links ++ [link]) link.parent (.child link.child) :=
  ⟨link, List.mem_append_right links (List.mem_singleton_self link), rfl, rfl⟩

theorem controlTarget_mem {sessions : List Session} {target : ManagedPeer}
    (h : controlTarget m sessions target = .ok session) : session ∈ sessions := by
  unfold controlTarget at h
  split at h
  · cases h
  · rename_i found hfound
    split at h
    · cases h
    · obtain rfl := Except.ok.inj h
      exact List.mem_of_find?_eq_some hfound

theorem rooted_last {link : Link} (h : Sound w)
    (hinherit : inherit m w.disk parent principal readings = .ok (some link.parent)) :
    ∃ root, (∀ delegation, root ≠ .child delegation) ∧
      Ancestor (w.links ++ [link]) root (.child link.child) := by
  cases hparent : link.parent with
  | grant grant =>
    refine ⟨link.parent, ?_, .single (above_last w.links link)⟩
    intro delegation
    rw [hparent]
    exact Node.noConfusion
  | application selector row =>
    refine ⟨link.parent, ?_, .single (above_last w.links link)⟩
    intro delegation
    rw [hparent]
    exact Node.noConfusion
  | child delegation =>
    rw [hparent] at hinherit
    obtain ⟨target, session, -, hsession, hdelegation, -⟩ := inherit_child hinherit
    have hmem := h.registered session (controlTarget_mem hsession) delegation hdelegation
    obtain ⟨before, hbefore, rfl⟩ := List.mem_map.mp hmem
    obtain ⟨root, hroot, hancestor⟩ := h.rooted before hbefore
    have habove := above_last w.links link
    rw [hparent] at habove
    exact ⟨root, hroot, (Ancestor.mono hancestor).tail habove⟩

theorem sound_disk {disk : Disk} (h : Sound w) (hsame : disk.sessions = w.disk.sessions) :
    Sound { w with disk, clock := now } where
  narrows := h.narrows
  rooted := h.rooted
  registered session hsession := h.registered session (hsame ▸ hsession)

theorem sound_create (h : Sound w) (link : Link)
    (hinherit : inherit m w.disk parent principal readings = .ok (some link.parent))
    (hnarrows : Narrows link.parent.inherited (Node.child link.child).inherited) :
    Sound { w with clock := now, links := w.links ++ [link] } where
  narrows other hother := by
    rcases List.mem_append.mp hother with hold | hnew
    · exact h.narrows other hold
    · obtain rfl := List.mem_singleton.mp hnew
      exact hnarrows
  rooted other hother := by
    rcases List.mem_append.mp hother with hold | hnew
    · obtain ⟨root, hroot, hancestor⟩ := h.rooted other hold
      exact ⟨root, hroot, Ancestor.mono hancestor⟩
    · obtain rfl := List.mem_singleton.mp hnew
      exact rooted_last h hinherit
  registered session hsession delegation hdelegation := by
    rw [List.map_append]
    exact List.mem_append_left _ (h.registered session hsession delegation hdelegation)

theorem step_create
    (h : step w (.create m runtime mode workspace requestId input principal readings) = some v) :
    v = { w with clock := readings.last } ∨
      ∃ node child, resolveDelegation m w.disk runtime mode workspace requestId input principal
          readings = .ok (node, child) ∧
        v = { w with
              clock := readings.last
              links := w.links ++
                [{ child, parent := node, stopped := node.stopped m w.disk readings.start }] } := by
  obtain ⟨-, hresolve⟩ := Option.ite_none_right_eq_some.mp h
  split at hresolve
  · exact .inl (Option.some.inj hresolve).symm
  · rename_i node child hok
    exact .inr ⟨node, child, hok, (Option.some.inj hresolve).symm⟩

theorem sound_step (h : Sound w) (hstep : step w e = some v) : Sound v := by
  cases e with
  | create m runtime mode workspace requestId input principal readings =>
    rcases step_create hstep with rfl | ⟨node, child, hok, rfl⟩
    · exact sound_disk h rfl
    · obtain ⟨hinherit, hnarrow⟩ := resolveDelegation_ok hok
      exact sound_create h ⟨child, node, _⟩ hinherit (narrow_ok hnarrow).1
  | authority m id call =>
    obtain ⟨next, -, rfl⟩ := Option.map_eq_some_iff.mp hstep
    exact sound_disk h rfl
  | stop requestId =>
    obtain rfl := Option.some.inj hstep
    exact sound_disk h rfl
  | registry sessions =>
    obtain ⟨hresolved, hnext⟩ := Option.ite_none_right_eq_some.mp hstep
    obtain rfl := Option.some.inj hnext
    exact ⟨h.narrows, h.rooted, hresolved⟩
  | pass now =>
    obtain ⟨-, hnext⟩ := Option.ite_none_right_eq_some.mp hstep
    obtain rfl := Option.some.inj hnext
    exact sound_disk h rfl

theorem narrows_ancestor (h : Sound w) (hancestor : Ancestor w.links one other) :
    Narrows one.inherited other.inherited := by
  induction hancestor with
  | single habove =>
    obtain ⟨link, hlink, rfl, rfl⟩ := habove
    exact h.narrows link hlink
  | tail _ habove ih =>
    obtain ⟨link, hlink, rfl, rfl⟩ := habove
    exact ih.trans (h.narrows link hlink)

theorem stopped_of_narrows {ancestor : Inherited}
    (h : Narrows ancestor (Node.child child).inherited) (hsession : session.delegation = some child)
    (hstop : (∃ root, ancestor.applicationAuthority = some root ∧
        applicationAuthorityEnded m.toHost root clock
          (disk.journals root.target.authorityId) = true) ∨
      ∃ deadline, ancestor.deadlineAt = some deadline ∧ deadline ≤ clock.write) :
    delegationStopped m disk clock session = true := by
  simp only [delegationStopped, hsession, Option.any_some, ChildDelegation.stopped,
    Bool.or_eq_true]
  rcases hstop with ⟨root, hroot, hended⟩ | ⟨deadline, hdeadline, hpast⟩
  · refine .inl (.inl ?_)
    have hsame : child.applicationAuthority = some root := h.authority.trans hroot
    rw [hsame]
    exact hended
  · refine .inl (.inr ?_)
    obtain ⟨own, hown, hle⟩ := h.deadline deadline hdeadline
    have hsame : child.deadlineAt = some own := hown
    rw [hsame]
    exact decide_eq_true (Nat.le_trans hle hpast)

/-- The chains of a state: every child descends from a grant or an application authority, is
narrower than all of its ancestors and stops with them. -/
structure Chains (w : World) : Prop where
  rooted : ∀ link ∈ w.links, ∃ root, (∀ delegation, root ≠ .child delegation) ∧
    Ancestor w.links root (.child link.child)
  narrows : ∀ ancestor child, Ancestor w.links ancestor (.child child) →
    Narrows ancestor.inherited (Node.child child).inherited
  stops : ∀ ancestor child, Ancestor w.links ancestor (.child child) →
    ∀ (m : Host) clock session, session.delegation = some child →
      ((∃ root, ancestor.inherited.applicationAuthority = some root ∧
          applicationAuthorityEnded m.toHost root clock
            (w.disk.journals root.target.authorityId) = true) ∨
        ∃ deadline, ancestor.inherited.deadlineAt = some deadline ∧ deadline ≤ clock.write) →
      delegationStopped m w.disk clock session = true

/-- Where the parent of a create is a delegated child, it has no stop receipt. -/
def ParentUnstopped (w : World) : Event → Prop
  | .create m _ _ _ _ input _ _ =>
    ∀ target session delegation, input.parent.target = .managed target →
      controlTarget m w.disk.sessions target = .ok session →
      session.delegation = some delegation → delegation.requestId ∉ w.disk.stops
  | _ => True

theorem parentUnstopped_of_isEmpty (e : Event) (h : w.disk.stops.isEmpty = true) :
    ParentUnstopped w e := by
  have hempty : w.disk.stops = [] := List.isEmpty_iff.mp h
  cases e with
  | create m runtime mode workspace requestId input principal readings =>
    intro target session delegation _ _ _
    rw [hempty]
    exact List.not_mem_nil
  | _ => trivial

theorem sound_start : Sound {} where
  narrows link hlink := by cases hlink
  rooted link hlink := by cases hlink
  registered session hsession := by cases hsession

/-- No step adds a link to a stopped parent, as long as no stop receipt is looked past. -/
theorem unstopped_step (h : ∀ link ∈ w.links, link.stopped = false)
    (hunstopped : ParentUnstopped w e) (hstep : step w e = some v) :
    ∀ link ∈ v.links, link.stopped = false := by
  cases e with
  | create m runtime mode workspace requestId input principal readings =>
    rcases step_create hstep with rfl | ⟨node, child, hok, rfl⟩
    · exact h
    · intro link hlink
      rcases List.mem_append.mp hlink with hold | hnew
      · exact h link hold
      · obtain rfl := List.mem_singleton.mp hnew
        cases node with
        | grant grant => rfl
        | application selector row => rfl
        | child delegation =>
          obtain ⟨target, session, htarget, hsession, hdelegation, -⟩ :=
            inherit_child (resolveDelegation_ok hok).1
          have hnone := hunstopped target session delegation htarget hsession hdelegation
          rw [parent_stopped hok]
          simpa using hnone
  | authority m id call =>
    obtain ⟨next, -, rfl⟩ := Option.map_eq_some_iff.mp hstep
    exact h
  | stop requestId =>
    obtain rfl := Option.some.inj hstep
    exact h
  | registry sessions =>
    obtain ⟨-, hnext⟩ := Option.ite_none_right_eq_some.mp hstep
    obtain rfl := Option.some.inj hnext
    exact h
  | pass now =>
    obtain ⟨-, hnext⟩ := Option.ite_none_right_eq_some.mp hstep
    obtain rfl := Option.some.inj hnext
    exact h

/-- Chains narrow and stop together in every run; no child is resolved under a stopped parent in a
run that creates none under a parent with a stop receipt. -/
theorem delegation_chains {es : List Event} (hrun : run step {} es = some w) :
    Chains w ∧ (Along step ParentUnstopped {} es → ∀ link ∈ w.links, link.stopped = false) := by
  have hsound : Sound w := run_invariant (fun _ _ _ => sound_step) hrun sound_start
  refine ⟨⟨hsound.rooted, ?_, ?_⟩, ?_⟩
  · intro ancestor child hancestor
    exact narrows_ancestor hsound hancestor
  · intro ancestor child hancestor m clock session hsession hstop
    exact stopped_of_narrows (narrows_ancestor hsound hancestor) hsession hstop
  · intro hall
    refine run_invariant_along (P := fun w => ∀ link ∈ w.links, link.stopped = false) ?_ hrun hall ?_
    · exact fun _ _ _ => unstopped_step
    · intro link hlink
      cases hlink

def examplePeer (session : String) : ManagedPeer :=
  { machine := "local", agent := .codex, session, threadId := session }

def exampleParent (session : String) : DelegationParent :=
  { target := .managed (examplePeer session), registrationGeneration := "g" }

def exampleGrant : DelegationRequest :=
  { parent := exampleParent "lead"
    policy := { access := .workspaceWrite, workspace := "/work" }
    deadlineAt := some 9000 }

def exampleHost : Host where
  toHost := Application.exampleHost
  delegationAuthorities := [exampleGrant]
  policyDigest policy := policy.workspace

def exampleSession (name : String) (delegation : Option ChildDelegation) : Session :=
  { name
    agent := .codex
    uuid := name
    runtime := .appServer
    archived := false
    registrationGeneration := some "g"
    delegation }

def exampleReadings (now : Nat) : Readings :=
  { start := now
    require := { expiry := now, deadline := now, write := now,
                 ordered := ⟨Nat.le_refl _, Nat.le_refl _⟩ }
    ended := { expiry := now, deadline := now, write := now,
               ordered := ⟨Nat.le_refl _, Nat.le_refl _⟩ }
    last := now
    ordered := ⟨Nat.le_refl _, Nat.le_refl _, Nat.le_refl _⟩ }

/-- A child of the session, in a workspace of its own. -/
def exampleCreate (session workspace requestId : String) (now : Nat) : Event :=
  .create exampleHost "codex" "app-server" workspace requestId
    { parent := exampleParent session
      policy := { access := .workspaceWrite, workspace }
      deadlineAt := none }
    none (exampleReadings now)

/-- The delegation that the first of the creates below resolves. -/
def exampleFirst : ChildDelegation :=
  { parent := exampleParent "lead"
    policy := { access := .workspaceWrite, workspace := "/work/a" }
    deadlineAt := some 9000
    requestId := "r1"
    applicationAuthority := none
    policyDigest := "/work/a" }

def exampleChain : List Event :=
  [.registry [exampleSession "lead" none], exampleCreate "lead" "/work/a" "r1" 1000,
    .registry [exampleSession "lead" none, exampleSession "one" (some exampleFirst)],
    exampleCreate "one" "/work/a/b" "r2" 2000]

/-- The first child is cancelled, and another child is created under it. -/
def exampleCancelled : List Event :=
  exampleChain ++ [.stop "r1", exampleCreate "one" "/work/a/c" "r3" 3000]

/-- A child resolved under a parent whose stop receipt is on disk. -/
theorem cancelled_parent_resolves :
    ∃ w, run step {} exampleCancelled = some w ∧ ∃ link ∈ w.links, link.stopped = true ∧
      link.parent = .child exampleFirst ∧ link.child.requestId = "r3" := by
  have hrun : ((run step {} exampleCancelled).any fun w =>
      decide (∃ link ∈ w.links, link.stopped = true ∧ link.parent = .child exampleFirst ∧
        link.child.requestId = "r3")) = true := by decide
  obtain ⟨w, hw, hlink⟩ := (Option.any_eq_true _ _).mp hrun
  exact ⟨w, hw, of_decide_eq_true hlink⟩

theorem exampleChain_laws :
    ∃ w, run step {} exampleChain = some w ∧ w.links.length = 2 ∧ Chains w ∧
      ∀ link ∈ w.links, link.stopped = false := by
  have hrun : ((run step {} exampleChain).any fun w => decide (w.links.length = 2)) = true := by
    decide
  obtain ⟨w, hw, hlength⟩ := (Option.any_eq_true _ _).mp hrun
  obtain ⟨hchains, hunstopped⟩ := delegation_chains hw
  have hnone : Along step (fun (w : World) _ => w.disk.stops.isEmpty = true) {} exampleChain :=
    along_of_check (C := fun (w : World) _ => w.disk.stops.isEmpty) (by decide)
  refine ⟨w, hw, of_decide_eq_true hlength, hchains, hunstopped ?_⟩
  exact along_of_invariant (P := fun _ => True) (fun _ _ _ _ _ _ => trivial)
    (fun w e _ hempty => parentUnstopped_of_isEmpty e hempty) hnone trivial

end Ccmux.Delegation
