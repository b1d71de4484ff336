/- Module: Ccmux/Chat/External
   source: src/chat/external.ts, src/commands/relay.ts
   digest: Letters to owners outside the fleet: which of them wait, and which one an answer closes. -/

import Ccmux.Lib.Matching
import Ccmux.Chat.CommunicationBasis

namespace Ccmux.Chat.External

open Ccmux.Lib.Matching
open Ccmux.Chat.Identity
open Ccmux.Chat.Message
open Ccmux.Chat.Envelope (CommunicationAuthorization Envelope)
open Ccmux.Chat.CommunicationBasis (DraftReceipt buildEnvelope)

/-- Is this token addressed to someone outside the fleet? -/
def isExternalToken (token : String) : Bool :=
  "owner/".toList.isPrefixOf token.toList && decide ("owner/".length < token.length)

def externalNameOf (token : String) : String := String.ofList (token.toList.drop 6)

def keyOf (name : String) (task : Option String) : String := name ++ "\x00" ++ task.getD ""

/-- A letter sent outside the fleet; `idx` is its position in the ledger. -/
structure OutstandingLetter where
  idx : Nat
  msg : ChatMessage
  name : String
  deriving DecidableEq

def OutstandingLetter.key (letter : OutstandingLetter) : String := keyOf letter.name letter.msg.task

/-- The owner and the task the letter was written for. -/
def OutstandingLetter.about (letter : OutstandingLetter) : String × Option String :=
  (letter.name, letter.msg.task)

/-- The record in this slot, when it is a letter to an owner outside the fleet. -/
def letterAt (idx : Nat) : LedgerSlot → Option OutstandingLetter
  | none => none
  | some msg =>
    match msg.target with
    | .external name => some ⟨idx, msg, name⟩
    | _ => none

/-- Whose answer the record in this slot is, and under which task. -/
def answeredBy : LedgerSlot → Option (String × Option String)
  | none => none
  | some msg =>
    match msg.onBehalfOf with
    | none => none
    | some token => if isExternalToken token then some (externalNameOf token, msg.task) else none

/-- The first loop: how many answers the ledger holds under each key. -/
@[grind =]
def countAnswers (answers : String → Nat) : Ledger → String → Nat
  | [] => answers
  | slot :: rest =>
    match answeredBy slot with
    | none => countAnswers answers rest
    | some (name, task) =>
      let key := keyOf name task
      countAnswers (Function.update answers key (answers key + 1)) rest

/-- The second loop, `answers` being what is left of the counts. -/
@[grind =]
def collect (sender : Option ChatPrincipal) (answers : String → Nat) (idx : Nat) :
    Ledger → List OutstandingLetter
  | [] => []
  | slot :: rest =>
    match letterAt idx slot with
    | none => collect sender answers (idx + 1) rest
    | some letter =>
      let remaining := answers letter.key
      if 0 < remaining then
        collect sender (Function.update answers letter.key (remaining - 1)) (idx + 1) rest
      else if sender.any fun sender => !samePrincipal letter.msg.sender sender then
        collect sender answers (idx + 1) rest
      else letter :: collect sender answers (idx + 1) rest

/-- The letters to `owner/<name>` that nothing has answered yet. -/
def outstandingExternal (ledger : Ledger) (sender : Option ChatPrincipal) :
    List OutstandingLetter :=
  collect sender (countAnswers (fun _ => 0) ledger) 0 ledger

inductive RelayRefusal where
  | usage
  | notExternal
  | undeclared
  | noLetter
  | unauthorized
  deriving DecidableEq

/-- What the command finds on its machine. -/
structure RelayHost where
  rcPrefix : String
  externals : String → Option String
  /-- `findSession`, as the peer a letter is addressed to. -/
  session : String → Option ManagedPeer
  authorization : Option CommunicationAuthorization
  /-- The receipt of a relay to a managed session, or its refusal. -/
  basis : ManagedPeer → Option String → Except String (Option DraftReceipt)

structure RelayCall where
  token : String
  body : String
  task : Option String
  id : String
  ts : String

/-- Back to whoever wrote, and to the owner where no session is left to answer. -/
def relayTarget (host : RelayHost) (letter : OutstandingLetter) : ChatTarget :=
  match letter.msg.sender with
  | .managed peer =>
    match host.session peer.session with
    | some found => .managed found
    | none => .owner
  | _ => .owner

def relayRecord (host : RelayHost) (call : RelayCall) (letter : OutstandingLetter)
    (receipt : Option DraftReceipt) : Envelope :=
  buildEnvelope call.id call.ts (.cli host.rcPrefix) (relayTarget host letter) call.body
    { task := letter.msg.task
      communicationAuthorization := host.authorization
      communicationReceipt := receipt
      defer := false
      onBehalfOf := some (externalAddress letter.name)
      notBefore := none }

/-- The letter the answer is said to close, and the record that is appended for it. -/
def cmdRelay (host : RelayHost) (ledger : Ledger) (call : RelayCall) :
    Except RelayRefusal (OutstandingLetter × ChatMessage) :=
  if call.body = "" then .error .usage
  else if !isExternalToken call.token then .error .notExternal
  else
    let name := externalNameOf call.token
    if (host.externals name).isNone then .error .undeclared
    else
      let waiting := (outstandingExternal ledger none).filter fun letter =>
        letter.name == name && call.task.all fun task => letter.msg.task == some task
      match waiting with
      | [] => .error .noLetter
      | letter :: _ =>
        match relayTarget host letter with
        | .managed peer =>
          match host.basis peer letter.msg.task with
          | .error _ => .error .unauthorized
          | .ok receipt => .ok (letter, (relayRecord host call letter receipt).toChatMessage)
        | _ => .ok (letter, (relayRecord host call letter none).toChatMessage)

/-! ### The two ways to match -/

/-- The ledger as letters and answers under keys: a record answers before it asks. -/
def opsFrom {κ : Type} (keyed : String × Option String → κ) (idx : Nat) :
    Ledger → List (Op κ OutstandingLetter)
  | [] => []
  | slot :: rest =>
    ((answeredBy slot).map fun about => Op.answer (keyed about)).toList ++
      ((letterAt idx slot).map fun letter => Op.letter (keyed letter.about) letter).toList ++
        opsFrom keyed (idx + 1) rest

/-- The ledger under the keys of the code. -/
def codeOps (ledger : Ledger) : List (Op String OutstandingLetter) :=
  opsFrom (fun about => keyOf about.1 about.2) 0 ledger

/-- The ledger under owner and task themselves. -/
def trueOps (ledger : Ledger) : List (Op (String × Option String) OutstandingLetter) :=
  opsFrom id 0 ledger

/-- The letters still open when every answer closes the oldest letter of its owner and task that is
open when it comes. -/
def stillOpen (ledger : Ledger) (letter : OutstandingLetter) : Prop :=
  letter ∈ pendingUnder letter.about (pendingAfter (trueOps ledger))

instance (ledger : Ledger) (letter : OutstandingLetter) : Decidable (stillOpen ledger letter) :=
  inferInstanceAs (Decidable (_ ∈ _))

/-- The list says of each letter what the matching in order says. -/
def ClosedInOrder (ledger : Ledger) : Prop :=
  ∀ idx slot letter, ledger[idx]? = some slot → letterAt idx slot = some letter →
    (letter ∈ outstandingExternal ledger none ↔ stillOpen ledger letter)

/-- Of the first letters under the key, one for each answer under it, those of this owner and
task. -/
def takenFor (ledger : Ledger) (about : String × Option String) : Nat :=
  (((lettersOf (keyOf about.1 about.2) (codeOps ledger)).take
    (answersOf (keyOf about.1 about.2) (codeOps ledger))).filter
      fun letter => letter.about = about).length

/-- For every owner and task these are as many as its answers that did not come too early. -/
def AnswersInTime (ledger : Ledger) : Prop :=
  ∀ about, takenFor ledger about = served about (trueOps ledger)

/-- The record closes this letter and no other one. -/
def ClosesReported (ledger : Ledger) (letter : OutstandingLetter) (record : ChatMessage) : Prop :=
  letter ∈ outstandingExternal ledger none ∧
    outstandingExternal (ledger ++ [some record]) none =
      (outstandingExternal ledger none).erase letter

/-- The ledger holds as many answers under the letter's key as older letters under it. -/
def IsNext (ledger : Ledger) (letter : OutstandingLetter) : Prop :=
  answersOf letter.key (codeOps ledger) =
    (lettersOf letter.key (codeOps (ledger.take letter.idx))).length

instance (ledger : Ledger) (letter : OutstandingLetter) : Decidable (IsNext ledger letter) :=
  inferInstanceAs (Decidable (_ = _))

/-! ### The letters of a ledger -/

/-- The letters to owners outside the fleet, answered or not. -/
@[grind =]
def lettersIn (idx : Nat) : Ledger → List OutstandingLetter
  | [] => []
  | slot :: rest => (letterAt idx slot).toList ++ lettersIn (idx + 1) rest

variable {idx : Nat} {slot : LedgerSlot} {letter : OutstandingLetter} {ledger : Ledger}
  {record : ChatMessage}

theorem letterAt_idx (h : letterAt idx slot = some letter) : letter.idx = idx := by
  unfold letterAt at h
  split at h
  · cases h
  · split at h
    · obtain rfl := Option.some.inj h
      rfl
    · cases h

theorem letterAt_of_ne {msg : ChatMessage} (h : ∀ name, msg.target ≠ .external name) {idx : Nat} :
    letterAt idx (some msg) = none := by
  cases hletter : letterAt idx (some msg) with
  | none => rfl
  | some letter =>
    unfold letterAt at hletter
    dsimp only at hletter
    split at hletter
    · next name htarget => exact absurd htarget (h name)
    · cases hletter

theorem lettersIn_append (idx : Nat) (left right : Ledger) :
    lettersIn idx (left ++ right) = lettersIn idx left ++ lettersIn (idx + left.length) right := by
  induction left generalizing idx with
  | nil => simp [lettersIn]
  | cons slot left ih =>
    have hidx : idx + 1 + left.length = idx + (slot :: left).length := by
      simp only [List.length_cons]
      omega
    simp only [List.cons_append, lettersIn, ih, hidx, List.append_assoc]

theorem le_idx_of_mem (h : letter ∈ lettersIn idx ledger) : idx ≤ letter.idx := by
  induction ledger generalizing idx with
  | nil => cases h
  | cons slot ledger ih =>
    rcases List.mem_append.mp h with hhere | hrest
    · exact (letterAt_idx (Option.mem_toList.mp hhere)).ge
    · exact (Nat.le_succ idx).trans (ih hrest)

theorem lettersIn_nodup (idx : Nat) (ledger : Ledger) : (lettersIn idx ledger).Nodup := by
  induction ledger generalizing idx with
  | nil => exact List.nodup_nil
  | cons slot ledger ih =>
    refine List.nodup_append.mpr ⟨?_, ih (idx + 1), ?_⟩
    · cases letterAt idx slot with
      | none => exact List.nodup_nil
      | some letter => exact List.nodup_singleton letter
    · intro letter hletter other hother hsame
      have hlater := le_idx_of_mem hother
      rw [← hsame, letterAt_idx (Option.mem_toList.mp hletter)] at hlater
      omega

theorem mem_lettersIn_of_slot (hslot : ledger[idx]? = some slot)
    (hletter : letterAt idx slot = some letter) :
    ∃ later, lettersIn 0 ledger = lettersIn 0 (ledger.take idx) ++ letter :: later := by
  obtain ⟨hlt, rfl⟩ := List.getElem?_eq_some_iff.mp hslot
  have hsplit : ledger = ledger.take idx ++ ledger[idx] :: ledger.drop (idx + 1) := by
    rw [← List.drop_eq_getElem_cons hlt, List.take_append_drop]
  have hlength : 0 + (ledger.take idx).length = idx := by
    rw [List.length_take]
    omega
  refine ⟨lettersIn (idx + 1) (ledger.drop (idx + 1)), ?_⟩
  conv_lhs => rw [hsplit]
  rw [lettersIn_append, hlength]
  simp [lettersIn, hletter]

theorem mem_lettersIn (h : letter ∈ lettersIn idx ledger) :
    ∃ slot, ledger[letter.idx - idx]? = some slot ∧ letterAt letter.idx slot = some letter := by
  induction ledger generalizing idx with
  | nil => cases h
  | cons slot ledger ih =>
    rcases List.mem_append.mp h with hhere | hrest
    · have hletter := Option.mem_toList.mp hhere
      have hidx := letterAt_idx hletter
      refine ⟨slot, by simp [hidx], ?_⟩
      rw [hidx]
      exact hletter
    · obtain ⟨found, hfound, hletter⟩ := ih hrest
      have hle := le_idx_of_mem hrest
      refine ⟨found, ?_, hletter⟩
      have hsucc : letter.idx - idx = letter.idx - (idx + 1) + 1 := by omega
      rw [hsucc, List.getElem?_cons_succ]
      exact hfound

section
variable {κ : Type} [DecidableEq κ]

theorem lettersOf_opsFrom (keyed : String × Option String → κ) (key : κ) (idx : Nat)
    (ledger : Ledger) : lettersOf key (opsFrom keyed idx ledger) =
      (lettersIn idx ledger).filter fun letter => keyed letter.about = key := by
  induction ledger generalizing idx with
  | nil => rfl
  | cons slot ledger ih =>
    rw [opsFrom, lettersOf_append, lettersOf_append, ih, lettersIn, List.filter_append]
    have hanswer : lettersOf key
        ((answeredBy slot).map fun about =>
          (Op.answer (keyed about) : Op κ OutstandingLetter)).toList = [] := by
      cases answeredBy slot <;> rfl
    rw [hanswer, List.nil_append]
    congr 1
    cases letterAt idx slot with
    | none => rfl
    | some letter =>
      by_cases hkey : keyed letter.about = key
      · simp [lettersOf, hkey]
      · simp [lettersOf, hkey]

end

theorem lettersOf_codeOps (key : String) (ledger : Ledger) : lettersOf key (codeOps ledger) =
    (lettersIn 0 ledger).filter fun letter => letter.key = key :=
  lettersOf_opsFrom (fun about => keyOf about.1 about.2) key 0 ledger

theorem lettersOf_trueOps (about : String × Option String) (ledger : Ledger) :
    lettersOf about (trueOps ledger) =
      (lettersIn 0 ledger).filter fun letter => letter.about = about :=
  lettersOf_opsFrom id about 0 ledger

theorem lettersOf_about (about : String × Option String) (ledger : Ledger) :
    (lettersOf (keyOf about.1 about.2) (codeOps ledger)).filter (fun letter => letter.about = about)
      = lettersOf about (trueOps ledger) := by
  rw [lettersOf_codeOps, lettersOf_trueOps, List.filter_filter]
  refine List.filter_congr fun letter _ => ?_
  by_cases h : letter.about = about
  · have hkey : letter.key = keyOf about.1 about.2 := by rw [← h]; rfl
    simp [h, hkey]
  · simp [h]

/-! ### What the two loops compute -/

theorem countAnswers_eq (answers : String → Nat) (idx : Nat) (ledger : Ledger) (key : String) :
    countAnswers answers ledger key =
      answers key + answersOf key (opsFrom (fun about => keyOf about.1 about.2) idx ledger) := by
  induction ledger generalizing answers idx with
  | nil => rfl
  | cons slot ledger ih =>
    have hletter : answersOf key ((letterAt idx slot).map fun letter =>
        (Op.letter (keyOf letter.about.1 letter.about.2) letter :
          Op String OutstandingLetter)).toList = 0 := by
      cases letterAt idx slot <;> rfl
    rw [opsFrom, answersOf_append, answersOf_append, hletter]
    cases hanswer : answeredBy slot with
    | none => simp [countAnswers, hanswer, answersOf, ih answers (idx + 1)]
    | some about =>
      obtain ⟨name, task⟩ := about
      simp only [countAnswers, hanswer, ih _ (idx + 1)]
      by_cases hkey : keyOf name task = key
      · simp [answersOf, hkey]
        omega
      · simp [answersOf, hkey, Function.update_of_ne (Ne.symm hkey)]

theorem collect_filter (answers : String → Nat) (idx : Nat) (ledger : Ledger) (key : String) :
    (collect none answers idx ledger).filter (fun letter => letter.key = key) =
      ((lettersIn idx ledger).filter fun letter => letter.key = key).drop (answers key) := by
  induction ledger generalizing answers idx with
  | nil => simp [collect, lettersIn]
  | cons slot ledger ih =>
    rw [lettersIn]
    cases hletter : letterAt idx slot with
    | none => simpa [collect, hletter] using ih answers (idx + 1)
    | some letter =>
      by_cases hpos : 0 < answers letter.key
      · by_cases hkey : letter.key = key
        · have hsucc : answers key = answers key - 1 + 1 := by
            rw [hkey] at hpos
            omega
          rw [hkey] at hpos
          simp only [collect, hletter, hkey, hpos, if_true, ih, Function.update_self]
          simp only [Option.toList_some, List.cons_append, List.nil_append, List.filter_cons, hkey,
            decide_true, if_true]
          conv_rhs => rw [hsucc, List.drop_succ_cons]
        · simp only [collect, hletter, hpos, if_true, ih,
            Function.update_of_ne (Ne.symm hkey)]
          simp [hkey]
      · have hzero : answers letter.key = 0 := by omega
        by_cases hkey : letter.key = key
        · rw [hkey] at hzero
          have hrest := ih answers (idx + 1)
          rw [hzero, List.drop_zero] at hrest
          simp [collect, hletter, hkey, hzero, hrest]
        · simp [collect, hletter, hzero, hkey, ih]

theorem outstanding_filter (ledger : Ledger) (key : String) :
    (outstandingExternal ledger none).filter (fun letter => letter.key = key) =
      (lettersOf key (codeOps ledger)).drop (answersOf key (codeOps ledger)) := by
  rw [outstandingExternal, collect_filter, countAnswers_eq _ 0, Nat.zero_add, lettersOf_codeOps]
  rfl

theorem mem_outstanding :
    letter ∈ outstandingExternal ledger none ↔
      letter ∈ (lettersOf letter.key (codeOps ledger)).drop
        (answersOf letter.key (codeOps ledger)) := by
  rw [← outstanding_filter, List.mem_filter]
  simp

/-! ### The list against the matching in order -/

theorem mem_lettersOf_about (h : letter ∈ lettersIn 0 ledger) :
    letter ∈ lettersOf letter.about (trueOps ledger) := by
  rw [lettersOf_trueOps]
  simpa using h

theorem lettersOf_trueOps_nodup (about : String × Option String) (ledger : Ledger) :
    (lettersOf about (trueOps ledger)).Nodup := by
  rw [lettersOf_trueOps]
  exact (lettersIn_nodup 0 ledger).filter _

theorem stillOpen_iff :
    stillOpen ledger letter ↔ letter ∈ (lettersOf letter.about (trueOps ledger)).drop
      (served letter.about (trueOps ledger)) := by
  rw [stillOpen, (pendingUnder_pendingAfter letter.about (trueOps ledger)).2]

theorem takenFor_le (ledger : Ledger) (about : String × Option String) :
    takenFor ledger about ≤ (lettersOf about (trueOps ledger)).length := by
  rw [← lettersOf_about]
  exact ((List.take_sublist _ _).filter _).length_le

theorem mem_outstanding_iff_drop (h : letter ∈ lettersIn 0 ledger) :
    letter ∈ outstandingExternal ledger none ↔
      letter ∈ (lettersOf letter.about (trueOps ledger)).drop (takenFor ledger letter.about) := by
  have hkey : letter ∈ lettersOf letter.key (codeOps ledger) := by
    rw [lettersOf_codeOps]
    simpa using h
  have hnodup : (lettersOf letter.key (codeOps ledger)).Nodup := by
    rw [lettersOf_codeOps]
    exact (lettersIn_nodup 0 ledger).filter _
  rw [mem_outstanding, mem_drop_iff_notMem_take hnodup hkey,
    mem_drop_iff_notMem_take (lettersOf_trueOps_nodup _ _) (mem_lettersOf_about h), takenFor,
    ← lettersOf_about, ← filter_take, List.mem_filter]
  simp [OutstandingLetter.key, OutstandingLetter.about]

theorem closedInOrder_iff (ledger : Ledger) : ClosedInOrder ledger ↔ AnswersInTime ledger := by
  constructor
  · intro h about
    refine eq_of_mem_drop_iff (lettersOf_trueOps_nodup about ledger) (takenFor_le ledger about)
      (pendingUnder_pendingAfter about (trueOps ledger)).1 ?_
    intro letter hletter
    rw [lettersOf_trueOps, List.mem_filter, decide_eq_true_eq] at hletter
    obtain ⟨hmem, rfl⟩ := hletter
    obtain ⟨slot, hslot, hat⟩ := mem_lettersIn hmem
    rw [← mem_outstanding_iff_drop hmem, ← stillOpen_iff]
    exact h _ slot letter hslot hat
  · intro h idx slot letter hslot hat
    obtain ⟨later, hsplit⟩ := mem_lettersIn_of_slot hslot hat
    have hmem : letter ∈ lettersIn 0 ledger := by
      rw [hsplit]
      exact List.mem_append_right _ List.mem_cons_self
    rw [mem_outstanding_iff_drop hmem, stillOpen_iff, ← h letter.about]

/-! ### What one relay closes -/

theorem countAnswers_append (answers : String → Nat) (left right : Ledger) :
    countAnswers answers (left ++ right) = countAnswers (countAnswers answers left) right := by
  induction left generalizing answers with
  | nil => rfl
  | cons slot left ih =>
    cases hanswer : answeredBy slot with
    | none => simp [countAnswers, hanswer, ih]
    | some about => simp [countAnswers, hanswer, ih]

theorem collect_append_of_none (hslot : ∀ idx, letterAt idx slot = none)
    (answers : String → Nat) (idx : Nat) (ledger : Ledger) :
    collect none answers idx (ledger ++ [slot]) = collect none answers idx ledger := by
  induction ledger generalizing answers idx with
  | nil => simp [collect, hslot]
  | cons first ledger ih =>
    cases hletter : letterAt idx first with
    | none => simp [collect, hletter, ih]
    | some letter => simp [collect, hletter, ih]

theorem collect_answer (answers : String → Nat) (key : String) (idx : Nat) (ledger : Ledger) :
    collect none (Function.update answers key (answers key + 1)) idx ledger =
      (collect none answers idx ledger).eraseP fun letter => letter.key = key := by
  induction ledger generalizing answers idx with
  | nil => rfl
  | cons slot ledger ih =>
    cases hletter : letterAt idx slot with
    | none => simpa [collect, hletter] using ih answers (idx + 1)
    | some letter =>
      by_cases hkey : letter.key = key
      · by_cases hpos : 0 < answers key
        · have hnext := ih (Function.update answers key (answers key - 1)) (idx + 1)
          have hback : answers key - 1 + 1 = answers key := by omega
          rw [Function.update_self, Function.update_idem, hback, Function.update_eq_self] at hnext
          simp [collect, hletter, hkey, hpos, hnext]
        · have hzero : answers key = 0 := by omega
          have hsame : Function.update answers key 0 = answers := by
            rw [← hzero, Function.update_eq_self]
          simp [collect, hletter, hkey, hzero, hsame]
      · by_cases hpos : 0 < answers letter.key
        · have hnext := ih (Function.update answers letter.key (answers letter.key - 1)) (idx + 1)
          rw [Function.update_of_ne (Ne.symm hkey), Function.update_comm hkey] at hnext
          simp [collect, hletter, hkey, hpos, hnext]
        · simp [collect, hletter, hkey, hpos, ih]

variable {name : String} {host : RelayHost} {call : RelayCall}

theorem outstanding_answer {task : Option String}
    (hanswer : answeredBy (some record) = some (name, task))
    (hletter : ∀ idx, letterAt idx (some record) = none) :
    outstandingExternal (ledger ++ [some record]) none =
      (outstandingExternal ledger none).eraseP fun letter => letter.key = keyOf name task := by
  rw [outstandingExternal, collect_append_of_none hletter, countAnswers_append]
  simp only [countAnswers, hanswer]
  rw [collect_answer]
  rfl

theorem externalNameOf_externalAddress (name : String) :
    externalNameOf (externalAddress name) = name := by
  have hdrop : ("owner/" ++ name).toList.drop 6 = name.toList := by
    rw [String.toList_append]
    rfl
  rw [externalNameOf, externalAddress, hdrop, String.ofList_toList]

theorem isExternalToken_externalAddress (h : name ≠ "") :
    isExternalToken (externalAddress name) = true := by
  have hinitial : "owner/".toList.isPrefixOf ("owner/" ++ name).toList = true := by
    rw [String.toList_append, List.isPrefixOf_iff_prefix]
    exact List.prefix_append _ _
  have hpos : 0 < name.length := by
    rw [← String.length_toList, List.length_pos_iff]
    intro hnil
    exact h (String.toList_eq_nil_iff.mp hnil)
  have hlength : "owner/".length < ("owner/" ++ name).length := by
    rw [String.length_append]
    omega
  simp only [isExternalToken, externalAddress, hinitial, Bool.true_and]
  exact decide_eq_true hlength

theorem externalNameOf_ne_empty {token : String} (h : isExternalToken token = true) :
    externalNameOf token ≠ "" := by
  simp only [isExternalToken, Bool.and_eq_true, decide_eq_true_eq] at h
  intro hempty
  have hnil : token.toList.drop 6 = [] := by
    have htoList := congrArg String.toList hempty
    simpa [externalNameOf] using htoList
  have hshort := List.drop_eq_nil_iff.mp hnil
  have hlong : "owner/".length < token.toList.length := by
    rw [String.length_toList]
    exact h.2
  have hsix : "owner/".length = 6 := by decide
  omega

/-- What a relay that goes through has picked, and what it appends. -/
structure Relayed (ledger : Ledger) (letter : OutstandingLetter) (record : ChatMessage) :
    Prop where
  picked : letter ∈ outstandingExternal ledger none
  answer : answeredBy (some record) = some letter.about
  noLetter : ∀ idx, letterAt idx (some record) = none

theorem relayed_record {receipt : Option DraftReceipt}
    (hpicked : letter ∈ outstandingExternal ledger none) (hname : letter.name ≠ "") :
    Relayed ledger letter (relayRecord host call letter receipt).toChatMessage := by
  refine ⟨hpicked, ?_, ?_⟩
  · simp [answeredBy, relayRecord, buildEnvelope, isExternalToken_externalAddress hname,
      externalNameOf_externalAddress, OutstandingLetter.about]
  · intro idx
    have htarget : ∀ name, relayTarget host letter ≠ .external name := by
      intro name
      unfold relayTarget
      split
      · split <;> simp
      · simp
    exact letterAt_of_ne htarget

theorem cmdRelay_relayed (h : cmdRelay host ledger call = .ok (letter, record)) :
    Relayed ledger letter record := by
  unfold cmdRelay at h
  split at h
  · cases h
  split at h
  · cases h
  next htoken =>
  dsimp only at h
  split at h
  · cases h
  split at h
  · cases h
  next first rest hwaiting =>
  have hmem := List.mem_filter.mp (hwaiting ▸ List.mem_cons_self :
    first ∈ (outstandingExternal ledger none).filter fun letter =>
      letter.name == externalNameOf call.token &&
        call.task.all fun task => letter.msg.task == some task)
  have hname : first.name ≠ "" := by
    have heq := (Bool.and_eq_true_iff.mp hmem.2).1
    rw [beq_iff_eq.mp heq]
    exact externalNameOf_ne_empty (by simpa using htoken)
  split at h
  · split at h
    · cases h
    · obtain ⟨rfl, rfl⟩ := Prod.mk.inj (Except.ok.inj h)
      exact relayed_record hmem.1 hname
  · obtain ⟨rfl, rfl⟩ := Prod.mk.inj (Except.ok.inj h)
    exact relayed_record hmem.1 hname

theorem mem_lettersIn_of_outstanding (h : letter ∈ outstandingExternal ledger none) :
    letter ∈ lettersIn 0 ledger := by
  have hmem := List.mem_of_mem_drop (mem_outstanding.mp h)
  rw [lettersOf_codeOps] at hmem
  exact (List.mem_filter.mp hmem).1

theorem collect_sublist (answers : String → Nat) (idx : Nat) (ledger : Ledger) :
    (collect none answers idx ledger).Sublist (lettersIn idx ledger) := by
  induction ledger generalizing answers idx with
  | nil => exact List.Sublist.slnil
  | cons slot ledger ih =>
    cases hletter : letterAt idx slot with
    | none => simpa [collect, lettersIn, hletter] using ih answers (idx + 1)
    | some letter =>
      by_cases hpos : 0 < answers letter.key
      · have hrest := ih (Function.update answers letter.key (answers letter.key - 1)) (idx + 1)
        simpa [collect, lettersIn, hletter, hpos] using hrest.cons letter
      · simpa [collect, lettersIn, hletter, hpos] using (ih answers (idx + 1)).cons_cons letter

theorem outstanding_nodup (ledger : Ledger) : (outstandingExternal ledger none).Nodup :=
  (collect_sublist _ 0 ledger).nodup (lettersIn_nodup 0 ledger)

/-- A letter is the first one open under its key exactly when the answers reach up to it. -/
theorem head_iff_isNext (h : letter ∈ lettersIn 0 ledger) :
    ((outstandingExternal ledger none).filter fun other => other.key = letter.key).head? =
      some letter ↔ IsNext ledger letter := by
  obtain ⟨slot, hslot, hat⟩ := mem_lettersIn h
  obtain ⟨later, hsplit⟩ := mem_lettersIn_of_slot hslot hat
  rw [Nat.sub_zero] at hsplit
  have hletters : lettersOf letter.key (codeOps ledger) =
      lettersOf letter.key (codeOps (ledger.take letter.idx)) ++
        letter :: later.filter fun other => other.key = letter.key := by
    rw [lettersOf_codeOps, lettersOf_codeOps, hsplit, List.filter_append, List.filter_cons]
    simp
  have hnodup : (lettersOf letter.key (codeOps ledger)).Nodup := by
    rw [lettersOf_codeOps]
    exact (lettersIn_nodup 0 ledger).filter _
  rw [outstanding_filter, List.head?_drop, IsNext]
  constructor
  · intro hhead
    obtain ⟨hlt, hget⟩ := List.getElem?_eq_some_iff.mp hhead
    have hplace : (lettersOf letter.key (codeOps ledger))[
        (lettersOf letter.key (codeOps (ledger.take letter.idx))).length]? = some letter := by
      rw [hletters, List.getElem?_append_right (Nat.le_refl _), Nat.sub_self]
      rfl
    obtain ⟨hlt', hget'⟩ := List.getElem?_eq_some_iff.mp hplace
    exact (List.Nodup.getElem_inj_iff hnodup).mp (hget.trans hget'.symm)
  · intro hnext
    rw [hnext, hletters, List.getElem?_append_right (Nat.le_refl _), Nat.sub_self]
    rfl

theorem closesReported_iff (hletter : letter ∈ lettersIn 0 ledger)
    (hanswer : answeredBy (some record) = some letter.about)
    (hnone : ∀ idx, letterAt idx (some record) = none) :
    ClosesReported ledger letter record ↔ IsNext ledger letter := by
  have hkey : decide (letter.key = keyOf letter.name letter.msg.task) = true := decide_eq_true rfl
  rw [ClosesReported, outstanding_answer hanswer hnone, ← head_iff_isNext hletter]
  constructor
  · rintro ⟨hmem, herase⟩
    exact (eraseP_eq_erase_iff (outstanding_nodup ledger) hkey hmem).mp herase
  · intro hhead
    have hmem : letter ∈ outstandingExternal ledger none :=
      (List.mem_filter.mp (List.mem_of_mem_head? hhead)).1
    exact ⟨hmem, (eraseP_eq_erase_iff (outstanding_nodup ledger) hkey hmem).mpr hhead⟩

/-- The list agrees with the matching in order exactly when the answers come in time, and a relay
closes the letter it reports exactly when that letter is still the next of its key when the record
is appended; `more` is what others appended since the relay read the ledger. -/
theorem answers_close_in_order (ledger : Ledger) :
    (ClosedInOrder ledger ↔ AnswersInTime ledger) ∧
      ∀ host call more letter record, cmdRelay host ledger call = .ok (letter, record) →
        (ClosesReported (ledger ++ more) letter record ↔ IsNext (ledger ++ more) letter) := by
  refine ⟨closedInOrder_iff ledger, ?_⟩
  intro host call more letter record hrelay
  obtain ⟨hpicked, hanswer, hnone⟩ := cmdRelay_relayed hrelay
  refine closesReported_iff ?_ hanswer hnone
  rw [lettersIn_append]
  exact List.mem_append_left _ (mem_lettersIn_of_outstanding hpicked)

/-- A letter to `owner/bob`. -/
def toBob (id : String) (task : Option String) : ChatMessage :=
  { id, ts := "2026-01-01T00:00:00Z", sender := .cli "host", target := .external "bob"
    body := "note", task, defer := false }

/-- An answer of `owner/bob`. -/
def fromBob (id : String) (task : Option String) : ChatMessage :=
  { id, ts := "2026-01-01T00:00:00Z", sender := .cli "host", target := .owner
    body := "done", task, defer := false, onBehalfOf := some "owner/bob" }

/-- A shell of a machine that declares the owner. -/
def bobHost : RelayHost :=
  { rcPrefix := "host", externals := fun name => if name = "bob" then some "chat" else none
    session := fun _ => none, authorization := none, basis := fun _ _ => .ok none }

def bobCall : RelayCall := ⟨"owner/bob", "done", none, "r", "2026-01-01T00:00:00Z"⟩

/-- Two letters under two tasks, the second one answered. -/
def bobLedger : Ledger :=
  [some (toBob "a" none), none, some (toBob "b" (some "x")), some (fromBob "c" (some "x"))]

theorem answers_close_in_order_bobLedger :
    ∃ letter record, cmdRelay bobHost bobLedger bobCall = .ok (letter, record) ∧ letter.idx = 0 ∧
      ClosesReported bobLedger letter record := by
  refine ⟨_, _, rfl, rfl, ?_⟩
  exact ((answers_close_in_order bobLedger).2 bobHost bobCall [] _ _ rfl).mpr (by decide)

/-- An answer nobody waited for closes the letter that is written after it. -/
theorem early_answer_closes_later_letter :
    ¬ ∀ ledger, ClosedInOrder ledger := by
  intro hall
  have hopen : stillOpen [some (fromBob "a" none), some (toBob "b" none)]
      ⟨1, toBob "b" none, "bob"⟩ := by
    decide
  have hlist := (hall [some (fromBob "a" none), some (toBob "b" none)] 1 _
    ⟨1, toBob "b" none, "bob"⟩ rfl rfl).mpr hopen
  revert hlist
  decide

end Ccmux.Chat.External
