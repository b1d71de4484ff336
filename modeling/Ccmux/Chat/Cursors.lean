/- Module: Ccmux/Chat/Cursors
   source: src/chat/cursors.ts
   digest: Arming a lost cursors file, and the merge that keeps two writers from undoing each other. -/

import Ccmux.Chat.Message

namespace Ccmux.Chat.Cursors

open Ccmux.Chat.Identity (managedPeerKey)
open Ccmux.Chat.Message

/-- The positions `armedCursors` collects: every managed recipient of the slots stands at `len`. -/
def armedPositions (len : Nat) : Ledger → (String → Option Nat)
  | [] => fun _ => none
  | none :: rest => armedPositions len rest
  | some msg :: rest =>
    match msg.target with
    | .managed peer => assign (armedPositions len rest) (managedPeerKey peer) (some len)
    | _ => armedPositions len rest

/-- Cursors for a ledger that has none: everything already written counts as seen. -/
def armedCursors (ledger : Ledger) : ChatCursors :=
  let at_ := armedPositions ledger.length ledger
  { ChatCursors.empty with read := at_, delivered := at_ }

/-- Read the cursors; a missing file is armed at the present, and persisted by the caller's write. -/
def loadCursors (file : Option ChatCursors) (ledger : Ledger) : ChatCursors :=
  file.getD (armedCursors ledger)

/-- The further of two read positions for each recipient. -/
def furthest (a b : String → Option Nat) : String → Option Nat := fun key =>
  match b key with
  | none => a key
  | some at_ => some (max (position a key) at_)

/-- What `saveCursors` writes over the file as it is now. -/
def saveCursors (fresh c : ChatCursors) : ChatCursors :=
  { c with read := furthest fresh.read c.read }

/-- What `markRead` writes over the file as it is now. -/
def markRead (fresh : ChatCursors) (recipientKey : String) (ledgerLen : Nat) : ChatCursors :=
  { fresh with read := furthest fresh.read (assign (fun _ => none) recipientKey (some ledgerLen)) }

/-- Positions are ordered recipient by recipient. -/
def Behind (a b : String → Option Nat) : Prop := ∀ key, position a key ≤ position b key

theorem Behind.refl (a : String → Option Nat) : Behind a a := fun _ => le_rfl

theorem Behind.trans {a b c : String → Option Nat} (hab : Behind a b) (hbc : Behind b c) :
    Behind a c := fun key => (hab key).trans (hbc key)

theorem position_furthest (a b : String → Option Nat) (key : String) :
    position (furthest a b) key = max (position a key) (position b key) := by
  cases h : b key with
  | none => simp [furthest, position, h]
  | some at_ => simp [furthest, position, h]

theorem behind_furthest_left (a b : String → Option Nat) : Behind a (furthest a b) := by
  intro key
  rw [position_furthest]
  exact le_max_left _ _

theorem behind_furthest_right (a b : String → Option Nat) : Behind b (furthest a b) := by
  intro key
  rw [position_furthest]
  exact le_max_right _ _

theorem armedPositions_eq_some {len : Nat} {slots : Ledger} {key : String} {at_ : Nat} :
    armedPositions len slots key = some at_ ↔
      at_ = len ∧ ∃ msg peer, some msg ∈ slots ∧ msg.target = .managed peer ∧
        managedPeerKey peer = key := by
  induction slots with
  | nil => simp [armedPositions]
  | cons slot rest ih =>
    cases slot with
    | none => simp [armedPositions, ih]
    | some msg =>
      cases htarget : msg.target with
      | managed peer =>
        by_cases hkey : key = managedPeerKey peer
        · subst hkey
          simp only [armedPositions, htarget, assign_self, Option.some.injEq, List.mem_cons]
          constructor
          · rintro rfl
            exact ⟨rfl, msg, peer, Or.inl rfl, htarget, rfl⟩
          · rintro ⟨rfl, _⟩
            rfl
        · simp only [armedPositions, htarget, assign_of_ne _ _ hkey, ih, List.mem_cons,
            Option.some.injEq]
          refine and_congr_right fun _ => ⟨?_, ?_⟩
          · rintro ⟨other, to_, hmem, hto, hk⟩
            exact ⟨other, to_, Or.inr hmem, hto, hk⟩
          · rintro ⟨other, to_, rfl | hmem, hto, hk⟩
            · rw [htarget] at hto
              cases hto
              exact absurd hk.symm hkey
            · exact ⟨other, to_, hmem, hto, hk⟩
      | _ =>
        simp only [armedPositions, htarget, ih, List.mem_cons, Option.some.injEq]
        refine and_congr_right fun _ => ⟨?_, ?_⟩
        · rintro ⟨other, to_, hmem, hto, hk⟩
          exact ⟨other, to_, Or.inr hmem, hto, hk⟩
        · rintro ⟨other, to_, rfl | hmem, hto, hk⟩
          · simp [htarget] at hto
          · exact ⟨other, to_, hmem, hto, hk⟩

theorem armedCursors_managed {ledger : Ledger} {msg : ChatMessage} {idx : Nat}
    {peer : Ccmux.Chat.Identity.ManagedPeer} (hletter : ledger.letter idx = some msg)
    (htarget : msg.target = .managed peer) :
    (armedCursors ledger).delivered (managedPeerKey peer) = some ledger.length := by
  have hmem : some msg ∈ ledger :=
    List.mem_of_getElem? (Ledger.letter_eq_some.mp hletter)
  exact (armedPositions_eq_some).mpr ⟨rfl, msg, peer, hmem, htarget, rfl⟩

end Ccmux.Chat.Cursors
