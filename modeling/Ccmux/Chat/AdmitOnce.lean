/- Module: Ccmux/Chat/AdmitOnce
   source: src/chat/ledger.ts (admitOnce)
   digest: A retry under an accepted id is a duplicate exactly when it asks for the same thing. -/

import Ccmux.Agent.Launch.StableJson

namespace Ccmux.Chat.AdmitOnce

open Ccmux.Agent.Launch.StableJson
open Ccmux.Lib.JsonTree
open Ccmux.Lib.Utf16

/-- A message: `fields` is the rest beside the options of the turn, the id included. -/
structure Message where
  id : Units
  turnOptions : Option JsonValue
  fields : JsonValue

inductive Admission where
  | conflict | duplicate | appended
  deriving DecidableEq, Repr

/-- `stableJson` of what may be missing. -/
def optionText (value : Option JsonValue) : Option Units :=
  value.map fun value => stableJson value.json

/-- `ledger.find((item) => item?.id === msg.id)`; an item that could not be read is `none`. -/
def findPrior (ledger : List (Option Message)) (msg : Message) : Option Message :=
  ledger.findSome? fun item => item.filter fun prior => prior.id == msg.id

def admitOnce (ledger : List (Option Message)) (msg : Message) : Admission :=
  match findPrior ledger msg with
  | some prior =>
    if stableJson prior.fields.json ≠ stableJson msg.fields.json ∨
        (msg.turnOptions.isSome ∧ optionText prior.turnOptions ≠ optionText msg.turnOptions) then
      .conflict
    else .duplicate
  | none => .appended

/-- The message repeats what was accepted. The options may be left to the recipient, who has chosen
them by then. -/
def Repeats (prior msg : Message) : Prop :=
  Same prior.fields.json msg.fields.json ∧
    ∀ requested, msg.turnOptions = some requested →
      ∃ accepted, prior.turnOptions = some accepted ∧ Same accepted.json requested.json

theorem optionText_eq (accepted : Option JsonValue) (requested : JsonValue) :
    optionText accepted = optionText (some requested) ↔
      ∃ value, accepted = some value ∧ Same value.json requested.json := by
  cases accepted with
  | none => simp [optionText]
  | some value =>
    rw [optionText, optionText, Option.map_some, Option.map_some, Option.some.injEq, stableJson_eq]
    simp

theorem repeats_iff (prior msg : Message) : Repeats prior msg ↔
    ¬ (stableJson prior.fields.json ≠ stableJson msg.fields.json ∨
      (msg.turnOptions.isSome ∧ optionText prior.turnOptions ≠ optionText msg.turnOptions)) := by
  rw [Repeats, not_or, not_ne_iff, stableJson_eq, not_and, not_ne_iff]
  cases msg.turnOptions with
  | none => simp
  | some requested => simp [optionText_eq]

theorem admitOnce_conflict (ledger : List (Option Message)) (msg : Message) :
    admitOnce ledger msg = .conflict ↔
      ∃ prior, findPrior ledger msg = some prior ∧ ¬ Repeats prior msg := by
  unfold admitOnce
  cases findPrior ledger msg with
  | none => simp
  | some prior =>
    simp only [Option.some.injEq, exists_eq_left', repeats_iff, not_not]
    split <;> simp_all

/-- The comparison of texts tells values apart exactly when they differ beyond the order of keys: so
a known id is refused exactly when it asks for something else, and the digest of a field changes
exactly when the field does. -/
theorem stableJson_tells_apart :
    (∀ a b : JsonValue, stableJson a.json = stableJson b.json ↔ Same a.json b.json) ∧
    (∀ ledger msg, admitOnce ledger msg = .conflict ↔
      ∃ prior, findPrior ledger msg = some prior ∧ ¬ Repeats prior msg) ∧
    ∀ digestOf : Units → Units, Function.Injective digestOf → ∀ a b : Option JsonValue,
      fieldDigest digestOf a = fieldDigest digestOf b ↔
        Option.Rel (fun v w : JsonValue => Same v.json w.json) a b :=
  ⟨stableJson_eq, admitOnce_conflict, fun _ => fieldDigest_eq⟩

theorem stableJson_tells_apart_null : fieldDigest id none = fieldDigest id (some ⟨.null, rfl⟩) ↔
    Option.Rel (fun v w : JsonValue => Same v.json w.json) none (some ⟨.null, rfl⟩) :=
  stableJson_tells_apart.2.2 id Function.injective_id _ _

end Ccmux.Chat.AdmitOnce
