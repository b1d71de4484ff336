/- Module: Ccmux/Fleet/Address
   source: src/fleet/address.ts, src/fleet/remoteAdapter.ts (remotePeers),
     src/fleet/transport.ts (peersOf)
   digest: Where an address of another machine's session leads from here. -/

import Mathlib

namespace Ccmux.Fleet.Address

/-- The fleet map and the peers of the remote transport, beside this machine's own label. -/
structure MachineConfig where
  rcPrefix : String
  fleet : List (String × String)
  remoteTransport : List String

def remotePeers (m : MachineConfig) : List String :=
  m.remoteTransport.filter fun peer => peer != m.rcPrefix

structure FleetAddress where
  machine : Option String
  session : String
  deriving DecidableEq, Repr

inductive AddressError where
  | missingMachine | missingSession | extraColon
  deriving DecidableEq, Repr

def parseAddress (token : String) : Except AddressError FleetAddress :=
  match token.toList.span fun c => c != ':' with
  | (_, []) => .ok ⟨none, token⟩
  | (machine, _ :: session) =>
    if machine = [] then .error .missingMachine
    else if session = [] then .error .missingSession
    else if ':' ∈ session then .error .extraColon
    else .ok ⟨some (String.ofList machine), String.ofList session⟩

/-- A machine that only the remote transport reaches has no alias. -/
inductive Route where
  | «local» (session : String)
  | remote (sshAlias : Option String) (machine session : String)
  | error
  deriving DecidableEq, Repr

def routeFor (token : String) (m : MachineConfig) : Route :=
  match parseAddress token with
  | .error _ => .error
  | .ok addr =>
    match addr.machine with
    | none => .local addr.session
    | some machine =>
      if machine = m.rcPrefix then .local addr.session
      else if m.fleet = [] ∧ remotePeers m = [] then .error
      else
        let sshAlias := m.fleet.lookup machine
        if sshAlias = none ∧ machine ∉ remotePeers m then .error
        else .remote sshAlias machine addr.session

def peersOf (m : MachineConfig) : List String :=
  ((m.fleet.map Prod.fst).filter fun machine => machine != m.rcPrefix) ++ remotePeers m

theorem mem_of_lookup {entries : List (String × String)} {machine : String}
    (h : entries.lookup machine ≠ none) : machine ∈ entries.map Prod.fst := by
  induction entries with
  | nil => exact absurd rfl h
  | cons entry rest ih =>
    obtain ⟨label, found⟩ := entry
    by_cases heq : machine = label
    · rw [heq]
      exact List.mem_cons_self
    · have hrest : rest.lookup machine ≠ none := by
        rw [List.lookup_cons, beq_false_of_ne heq] at h
        exact h
      exact List.mem_cons_of_mem _ (ih hrest)

/-- A machine a route leads to is one of the peers. -/
theorem peersOf_of_remote {token : String} {m : MachineConfig} {sshAlias : Option String}
    {machine session : String} (h : routeFor token m = .remote sshAlias machine session) :
    machine ∈ peersOf m := by
  unfold routeFor at h
  cases hparse : parseAddress token with
  | error e => simp [hparse] at h
  | ok addr =>
    rw [hparse] at h
    dsimp only at h
    cases hmachine : addr.machine with
    | none => simp [hmachine] at h
    | some label =>
      rw [hmachine] at h
      dsimp only at h
      split at h
      · cases h
      · rename_i hother
        split at h
        · cases h
        · split at h
          · cases h
          · rename_i hknown
            obtain ⟨_, rfl, _⟩ := Route.remote.inj h
            rw [peersOf, List.mem_append]
            by_cases hremote : label ∈ remotePeers m
            · exact Or.inr hremote
            · refine Or.inl (List.mem_filter.mpr ⟨mem_of_lookup ?_, by simpa using hother⟩)
              intro hnone
              exact hknown ⟨hnone, hremote⟩

end Ccmux.Fleet.Address
