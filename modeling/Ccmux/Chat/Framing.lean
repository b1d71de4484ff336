/- Module: Ccmux/Chat/Framing
   source: src/chat/format.ts, src/chat/messageSchema.ts, src/chat/identitySchema.ts
   digest: When the letter id and the reply command of a framed letter are the first ones in it, and
     when a shell reads that command as the words it was put together from. -/

import Ccmux.Chat.Format
import Ccmux.Lib.Shell
import Ccmux.Lib.Text

namespace Ccmux.Chat.Framing

open Ccmux.Chat.Format
open Ccmux.Chat.Identity
open Ccmux.Chat.Message
open Ccmux.Lib.Shell
open Ccmux.Lib.Text (after after_cons after_here after_skip after_append_some after_append_none
  stripPrefix_eq_none isSpace)

/-! ### What the schema admits -/

def isHex (c : Char) : Bool := c.isDigit || (c ∈ "abcdefABCDEF".toList)

/-- One place of a uuid: a dash, the version, the variant, or a digit. -/
def fits : Char → Char → Bool
  | '-', c => c == '-'
  | 'v', c => c ∈ "12345678".toList
  | 'n', c => c ∈ "89abAB".toList
  | _, c => isHex c

def matchesShape : Chars → Chars → Bool
  | [], [] => true
  | place :: places, c :: rest => fits place c && matchesShape places rest
  | _, _ => false

/-- `z.uuid()`. -/
def isUuid (text : Chars) : Bool :=
  matchesShape "hhhhhhhh-hhhh-vhhh-nhhh-hhhhhhhhhhhh".toList text ||
    text == "00000000-0000-0000-0000-000000000000".toList ||
    text == "ffffffff-ffff-ffff-ffff-ffffffffffff".toList

/-- `RC_PREFIX_RE`. -/
def isMachine : Chars → Bool
  | [] => false
  | c :: rest => c.isLower && rest.all fun c => c.isLower || c.isDigit || c == '-'

/-- `SESSION_NAME_RE`, of a text that is not empty. -/
def isSessionName (text : Chars) : Bool :=
  !text.isEmpty && text.all fun c => !isSpace c && c ∉ ['|', '#', ':']

/-- `ChatPrincipalSchema`. -/
def admitsPrincipal : ChatPrincipal → Bool
  | .managed peer =>
    isMachine peer.machine.toList && isSessionName peer.session.toList && isUuid peer.threadId.toList
  | .codexApp peer =>
    isMachine peer.machine.toList && isUuid peer.threadId.toList &&
      peer.name.all fun name => 1 ≤ utf16Length name && utf16Length name ≤ 240
  | .cli machine => isMachine machine.toList
  | .service machine _ => isMachine machine.toList

/-- `ChatMessageSchema`, of what is framed; body, task, relay claim and times are any text. -/
def admits (msg : ChatMessage) : Bool := isUuid msg.id.toList && admitsPrincipal msg.sender

variable {c : Char} {text : Chars} {msg : ChatMessage}

theorem fits_mem {place : Char} (h : fits place c = true) : isHex c = true ∨ c = '-' := by
  unfold fits at h
  split at h
  · exact Or.inr (eq_of_beq h)
  · refine Or.inl ?_
    have hall : ("12345678".toList).all isHex = true := by decide
    exact List.all_eq_true.mp hall c (by simpa using h)
  · refine Or.inl ?_
    have hall : ("89abAB".toList).all isHex = true := by decide
    exact List.all_eq_true.mp hall c (by simpa using h)
  · exact Or.inl h

theorem matchesShape_mem {places : Chars} (h : matchesShape places text = true) :
    ∀ c ∈ text, isHex c = true ∨ c = '-' := by
  induction places generalizing text with
  | nil =>
    cases text with
    | nil => simp
    | cons c rest => cases h
  | cons place places ih =>
    cases text with
    | nil => cases h
    | cons c rest =>
      rw [matchesShape, Bool.and_eq_true] at h
      intro d hd
      rcases List.mem_cons.mp hd with rfl | hd
      · exact fits_mem h.1
      · exact ih h.2 d hd

theorem isUuid_mem (h : isUuid text = true) : ∀ c ∈ text, isHex c = true ∨ c = '-' := by
  rw [isUuid, Bool.or_eq_true, Bool.or_eq_true] at h
  have hfixed : ∀ fixed : Chars, fixed.all (fun c => isHex c || c == '-') = true →
      ∀ c ∈ fixed, isHex c = true ∨ c = '-' := by
    intro fixed hall c hc
    simpa using List.all_eq_true.mp hall c hc
  rcases h with (hshape | hnil) | hmax
  · exact matchesShape_mem hshape
  · rw [eq_of_beq hnil]
    exact hfixed _ (by decide)
  · rw [eq_of_beq hmax]
    exact hfixed _ (by decide)

/-! ### The parts of the frame -/

def idTag : Chars := " · id: ".toList

def replyTag : Chars := " · reply: ".toList

def placeholder : Chars := "<your reply>".toList

/-- The frame up to the task or the letter id: who the letter is from. -/
def lead (msg : ChatMessage) : String :=
  let behalf := clause " on behalf of " msg.onBehalfOf
  let sender := principalLabel msg.sender
  let origin := msg.origin.getD unknownMessageOrigin
  if origin.assurance = .unknown then
    "[input via " ++ (if origin.ingress = .unknown then "unknown historical ingress" else sender) ++
      " · author: unknown; no additional execution authority" ++ behalf
  else "[chat from " ++ sender ++ behalf

def replyCommand (msg : ChatMessage) (cli : String) : String :=
  match replyAddress msg.sender with
  | some (machine, address, agent, thread) =>
    cli ++ " msg " ++ machine ++ ":" ++ address ++ " --to-agent " ++ agent ++ " --to-thread " ++
      thread ++ clause " --task " msg.task ++ " \"<your reply>\""
  | none => ""

/-- The words of the command behind the invocation, without the placeholder. -/
def replyWords (msg : ChatMessage) : List Chars :=
  match replyAddress msg.sender with
  | some (machine, address, agent, thread) =>
    ["msg".toList, machine.toList ++ ':' :: address.toList, "--to-agent".toList, agent.toList,
      "--to-thread".toList, thread.toList] ++
      (match msg.task with
      | some task => if task = "" then [] else ["--task".toList, task.toList]
      | none => [])
  | none => []

/-- The first place of the tag is followed by this text. -/
def followedBy (tag own text : Chars) : Bool := (after tag text).any own.isPrefixOf

def SafeToFollow (msg : ChatMessage) (cli : String) : Prop :=
  let text := (formatChatInjection msg cli (some .replyable)).toList
  followedBy idTag msg.id.toList text = true ∧
    followedBy replyTag (replyCommand msg cli).toList text = true ∧
    ∃ ws, shellWords cli.toList = some ws ∧
      shellWords (replyCommand msg cli).toList = some (ws ++ (replyWords msg ++ [placeholder]))

/-- What the frame goes on with behind the blank that ends the lead. -/
def behind (msg : ChatMessage) (cli : String) : Chars :=
  (match msg.task with
  | some task => if task = "" then [] else "· task: ".toList ++ task.toList ++ [' ']
  | none => []) ++
    ("· id: ".toList ++ (msg.id.toList ++ (replyTag ++ ((replyCommand msg cli).toList ++
      ("] ".toList ++ msg.body.toList)))))

section
variable {msg : ChatMessage} {cli machine address agent thread : String}

/-- The frame of a letter that can be answered. -/
theorem framed (haddress : replyAddress msg.sender = some (machine, address, agent, thread))
    (happlication : (msg.origin.getD unknownMessageOrigin).application = none) (cli : String) :
    (formatChatInjection msg cli (some .replyable)).toList =
      (lead msg).toList ++ ' ' :: behind msg cli := by
  have htask : (clause " · task: " msg.task).toList ++ " · id: ".toList =
      ' ' :: ((match msg.task with
        | some task => if task = "" then [] else "· task: ".toList ++ task.toList ++ [' ']
        | none => []) ++ "· id: ".toList) := by
    cases htask : msg.task with
    | none => rfl
    | some task =>
      by_cases hempty : task = ""
      · simp [clause, hempty]
      · simp [clause, hempty]
  have hreply : replyClause msg cli (some .replyable) = " · reply: " ++ replyCommand msg cli := by
    simp [replyClause, replyCommand, haddress, String.append_assoc]
  have hparts : ∀ front : String, (front ++ clause " · task: " msg.task ++ (" · id: " ++ msg.id) ++
      replyClause msg cli (some .replyable) ++ "] " ++ msg.body).toList =
        front.toList ++ ' ' :: behind msg cli := by
    intro front
    simp only [hreply, String.toList_append, List.append_assoc]
    rw [← List.append_assoc (clause " · task: " msg.task).toList, htask]
    simp [behind, replyTag]
  unfold formatChatInjection lead
  simp only [happlication]
  split
  · exact hparts _
  · exact hparts _

/-- A clause of another name, whose value has no blank, is passed over. -/
theorem after_clause {p : Char} {more name value rest : Chars} (hp : p ≠ '·')
    (hblank : ' ' ∉ name) (hdot : '·' ∉ name) (hname : ∀ c ∈ name.head?, c ≠ p) (hne : name ≠ [])
    (hvalue : ' ' ∉ value) :
    after (' ' :: '·' :: ' ' :: p :: more)
        (' ' :: '·' :: ' ' :: (name ++ ' ' :: (value ++ ' ' :: '·' :: rest))) =
      after (' ' :: '·' :: ' ' :: p :: more) (' ' :: '·' :: rest) := by
  obtain ⟨c, name, rfl⟩ := List.exists_cons_of_ne_nil hne
  have hc : c ≠ p := hname c rfl
  have hcdot : c ≠ '·' := fun h => hdot (by simp [h])
  -- the part begins with a blank, and there are three of them
  have hfirst : ¬ ' ' :: '·' :: ' ' :: p :: more <+:
      ' ' :: '·' :: ' ' :: (c :: name ++ ' ' :: (value ++ ' ' :: '·' :: rest)) := by
    simp [List.cons_prefix_cons, Ne.symm hc]
  have hsecond : ¬ ' ' :: '·' :: ' ' :: p :: more <+:
      ' ' :: (c :: name ++ ' ' :: (value ++ ' ' :: '·' :: rest)) := by
    simp [List.cons_prefix_cons, Ne.symm hcdot]
  have hthird : ¬ ' ' :: '·' :: ' ' :: p :: more <+: ' ' :: (value ++ ' ' :: '·' :: rest) := by
    cases value with
    | nil => simp [List.cons_prefix_cons]
    | cons d value =>
      cases value with
      | nil => simp [List.cons_prefix_cons, hp]
      | cons e value =>
        have he : ' ' ≠ e := fun h => hvalue (by simp [← h])
        simp [List.cons_prefix_cons, he]
  have hmark : ' ' ∉ ['·'] := by decide
  have hpastMark := @after_skip ' ' ('·' :: ' ' :: p :: more) ['·'] hmark
    (' ' :: (c :: name ++ ' ' :: (value ++ ' ' :: '·' :: rest)))
  have hpastName := @after_skip ' ' ('·' :: ' ' :: p :: more) (c :: name) hblank
    (' ' :: (value ++ ' ' :: '·' :: rest))
  have hpastValue := @after_skip ' ' ('·' :: ' ' :: p :: more) value hvalue (' ' :: '·' :: rest)
  rw [List.singleton_append] at hpastMark
  rw [after_cons, stripPrefix_eq_none hfirst, Option.none_or, hpastMark, after_cons,
    stripPrefix_eq_none hsecond, Option.none_or, hpastName, after_cons,
    stripPrefix_eq_none hthird, Option.none_or, hpastValue]

theorem idTag_eq : idTag = ' ' :: '·' :: ' ' :: 'i' :: ['d', ':', ' '] := by decide

theorem replyTag_eq : replyTag = ' ' :: '·' :: ' ' :: 'r' :: ['e', 'p', 'l', 'y', ':', ' '] := by
  decide

theorem behind_eq (msg : ChatMessage) (cli : String) : ∃ rest, ' ' :: behind msg cli =
    (match msg.task with
    | some task => if task = "" then [] else
      ' ' :: '·' :: ' ' :: ("task:".toList ++ ' ' :: task.toList)
    | none => []) ++ rest ∧
    rest = idTag ++ (msg.id.toList ++ (replyTag ++ ((replyCommand msg cli).toList ++
      ("] ".toList ++ msg.body.toList)))) := by
  refine ⟨_, ?_, rfl⟩
  have hid : idTag = ' ' :: "· id: ".toList := by decide
  cases htask : msg.task with
  | none => simp [behind, htask, hid]
  | some task =>
    by_cases hempty : task = ""
    · simp [behind, htask, hempty, hid]
    · simp [behind, htask, hempty, hid]

theorem after_behind {p : Char} {more : Chars} (hp : p ≠ '·') (ht : p ≠ 't')
    (htask : ∀ task ∈ msg.task, ' ' ∉ task.toList) (cli : String) :
    after (' ' :: '·' :: ' ' :: p :: more) (' ' :: behind msg cli) =
      after (' ' :: '·' :: ' ' :: p :: more)
        (idTag ++ (msg.id.toList ++ (replyTag ++ ((replyCommand msg cli).toList ++
          ("] ".toList ++ msg.body.toList))))) := by
  obtain ⟨rest, hbehind, rfl⟩ := behind_eq msg cli
  rw [hbehind]
  cases hsome : msg.task with
  | none => rfl
  | some task =>
    by_cases hempty : task = ""
    · simp [hempty]
    · have hclause := @after_clause p more "task:".toList task.toList
        (" id: ".toList ++ (msg.id.toList ++ (replyTag ++ ((replyCommand msg cli).toList ++
          ("] ".toList ++ msg.body.toList))))) hp (by decide) (by decide)
        (by simp [Ne.symm ht]) (by decide) (htask task hsome)
      have hid : idTag = ' ' :: '·' :: " id: ".toList := by decide
      rw [hid]
      simpa [hempty] using hclause

theorem after_id (htask : ∀ task ∈ msg.task, ' ' ∉ task.toList) (cli : String) :
    after idTag (' ' :: behind msg cli) =
      some (msg.id.toList ++ (replyTag ++ ((replyCommand msg cli).toList ++
        ("] ".toList ++ msg.body.toList)))) := by
  have hpast := @after_behind msg 'i' ['d', ':', ' '] (by decide) (by decide) htask cli
  rw [← idTag_eq] at hpast
  rw [hpast]
  exact after_here (by decide) _

theorem after_reply (htask : ∀ task ∈ msg.task, ' ' ∉ task.toList) (hid : ' ' ∉ msg.id.toList)
    (cli : String) :
    after replyTag (' ' :: behind msg cli) =
      some ((replyCommand msg cli).toList ++ ("] ".toList ++ msg.body.toList)) := by
  have hpast := @after_behind msg 'r' ['e', 'p', 'l', 'y', ':', ' '] (by decide)
    (by decide) htask cli
  have hclause := @after_clause 'r' ['e', 'p', 'l', 'y', ':', ' '] "id:".toList msg.id.toList
    (" reply: ".toList ++ ((replyCommand msg cli).toList ++ ("] ".toList ++ msg.body.toList)))
    (by decide) (by decide) (by decide) (by simp) (by decide) hid
  have htag : replyTag = ' ' :: '·' :: " reply: ".toList := by decide
  rw [← replyTag_eq] at hpast hclause
  have hhere := @after_here replyTag (by decide)
    ((replyCommand msg cli).toList ++ ("] ".toList ++ msg.body.toList))
  rw [hpast, ← hhere]
  rw [htag, idTag_eq]
  rw [htag] at hclause
  simpa using hclause

end

/-! ### The words of the reply command -/

/-- What a name or a task keeps clear of to be read as it stands. -/
def specials : Chars :=
  [' ', '\t', '\'', '"', '\\', '|', '&', ';', '<', '>', '(', ')', '$', '`', '\n', '*', '?', '[']

theorem isPlain_of_not_mem (h : c ∉ specials) : isPlain c = true := by
  simp [specials] at h
  simp [isPlain_iff, isBlank, isActive, h]

theorem not_mem_of_class {l : Chars} {p : Char → Bool} (hclear : l.all (fun c => !p c) = true)
    {c : Char} (hc : p c = true) : c ∉ l := by
  intro hmem
  have hnot := List.all_eq_true.mp hclear c hmem
  simp [hc] at hnot

/-- The characters of machine names, thread ids and the address of an application thread. -/
def isAddress (c : Char) : Bool := c.isLower || isHex c || c == '-' || c == '/'

theorem isAddress_plain (h : isAddress c = true) : isPlain c = true :=
  isPlain_of_not_mem (not_mem_of_class (by decide) h)

theorem isAddress_not_leading (h : isAddress c = true) : isLeading c = false := by
  have hnot : c ∉ ['#', '~'] := not_mem_of_class (by decide) h
  simp at hnot
  simp [isLeading, hnot]

theorem isUuid_all (h : isUuid text = true) : text.all isAddress = true := by
  refine List.all_eq_true.mpr fun c hc => ?_
  rcases isUuid_mem h c hc with hhex | rfl
  · simp [isAddress, hhex]
  · decide

theorem isMachine_all (h : isMachine text = true) : text.all isAddress = true := by
  cases text with
  | nil => rfl
  | cons c rest =>
    rw [isMachine, Bool.and_eq_true] at h
    refine List.all_eq_true.mpr fun d hd => ?_
    rcases List.mem_cons.mp hd with rfl | hd
    · simp [isAddress, h.1]
    · have hone := List.all_eq_true.mp h.2 d hd
      simp only [Bool.or_eq_true] at hone
      rcases hone with (hlower | hdigit) | hdash
      · simp [isAddress, hlower]
      · simp [isAddress, isHex, hdigit]
      · simp [isAddress, hdash]

theorem isUuid_ne_nil (h : isUuid text = true) : text ≠ [] := by
  rintro rfl
  exact absurd h (by decide)

theorem isMachine_ne_nil (h : isMachine text = true) : text ≠ [] := by
  rintro rfl
  cases h

theorem plainWord_address (hne : text ≠ []) (h : text.all isAddress = true) :
    plainWord text = true := by
  have hplain : text.all isPlain = true :=
    List.all_eq_true.mpr fun c hc => isAddress_plain (List.all_eq_true.mp h c hc)
  obtain ⟨c, rest, rfl⟩ := List.exists_cons_of_ne_nil hne
  have hleading := isAddress_not_leading (List.all_eq_true.mp h c List.mem_cons_self)
  simp [plainWord, hplain, hleading]

theorem plainWord_machine {machine address : Chars} (h : isMachine machine = true) :
    plainWord (machine ++ ':' :: address) = true ↔ address.all isPlain = true := by
  have hmachine := plainWord_address (isMachine_ne_nil h) (isMachine_all h)
  rw [plainWord, Bool.and_eq_true] at hmachine
  have hhead : (machine ++ ':' :: address).head? = machine.head? := by
    obtain ⟨c, rest, rfl⟩ := List.exists_cons_of_ne_nil (isMachine_ne_nil h)
    rfl
  have hcolon : isPlain ':' = true := by decide
  rw [plainWord, hhead, hmachine.2, Bool.and_true, List.all_append, List.all_cons, hmachine.1,
    hcolon, Bool.true_and, Bool.true_and]

/-- The session name of a managed sender and the task stand for themselves in a shell. -/
def PlainNames (msg : ChatMessage) : Prop :=
  (∀ peer, msg.sender = .managed peer → peer.session.toList.all isPlain = true) ∧
    ∀ task ∈ msg.task, task ≠ "" → plainWord task.toList = true

section
variable {msg : ChatMessage} {machine address agent thread : String}

/-- What the schema says about an address a reply goes to. -/
theorem replyAddress_admitted (hadmits : admits msg = true)
    (h : replyAddress msg.sender = some (machine, address, agent, thread)) :
    isMachine machine.toList = true ∧ isUuid thread.toList = true ∧
      plainWord agent.toList = true ∧
      (address.toList.all isPlain = true ↔
        ∀ peer, msg.sender = .managed peer → peer.session.toList.all isPlain = true) := by
  rw [admits, Bool.and_eq_true] at hadmits
  have hsender := hadmits.2
  cases hcase : msg.sender with
  | managed peer =>
    rw [hcase] at h hsender
    simp only [admitsPrincipal, Bool.and_eq_true] at hsender
    injection h with h
    injection h with h1 h
    injection h with h2 h
    injection h with h3 h4
    subst h1 h2 h3 h4
    have hagent : ∀ kind : AgentKind, plainWord kind.text.toList = true := by
      intro kind
      cases kind <;> decide
    refine ⟨hsender.1.1, hsender.2, hagent _, ?_⟩
    constructor
    · intro hplain other hsame
      injection hsame with hsame
      rw [← hsame]
      exact hplain
    · exact fun hall => hall peer rfl
  | codexApp peer =>
    rw [hcase] at h hsender
    simp only [admitsPrincipal, Bool.and_eq_true] at hsender
    injection h with h
    injection h with h1 h
    injection h with h2 h
    injection h with h3 h4
    subst h1 h2 h3 h4
    refine ⟨hsender.1.1, hsender.1.2, by decide, ?_⟩
    refine iff_of_true ?_ (by simp)
    have hlead : "app/".toList.all isPlain = true := by decide
    have huuid : peer.threadId.toList.all isPlain = true := List.all_eq_true.mpr fun c hc =>
      isAddress_plain (List.all_eq_true.mp (isUuid_all hsender.1.2) c hc)
    rw [codexAppAddress, String.toList_append, List.all_append, hlead, huuid]
    rfl
  | cli machine => rw [hcase] at h; cases h
  | service machine transport => rw [hcase] at h; cases h

theorem plainWords_iff (hadmits : admits msg = true)
    (h : replyAddress msg.sender = some (machine, address, agent, thread)) :
    (∀ w ∈ replyWords msg, plainWord w = true) ↔ PlainNames msg := by
  obtain ⟨hmachine, hthread, hagent, haddress⟩ := replyAddress_admitted hadmits h
  have hmsg : plainWord "msg".toList = true := by decide
  have htoAgent : plainWord "--to-agent".toList = true := by decide
  have htoThread : plainWord "--to-thread".toList = true := by decide
  have htask : plainWord "--task".toList = true := by decide
  have hplainThread := plainWord_address (isUuid_ne_nil hthread) (isUuid_all hthread)
  rw [PlainNames, ← haddress, replyWords, h]
  cases hsome : msg.task with
  | none =>
    simp only [List.append_nil, List.forall_mem_cons, List.not_mem_nil, false_implies, implies_true,
      hmsg, htoAgent, htoThread, hagent, hplainThread, plainWord_machine hmachine, and_true,
      true_and, Option.mem_def, reduceCtorEq]
  | some task =>
    by_cases hempty : task = ""
    · simp only [hempty, if_true, List.append_nil, List.forall_mem_cons, List.not_mem_nil,
        false_implies, implies_true, hmsg, htoAgent, htoThread, hagent, hplainThread,
        plainWord_machine hmachine, and_true, true_and, Option.mem_def, Option.some.injEq]
      simp
    · simp only [if_neg hempty, List.cons_append, List.nil_append, List.forall_mem_cons,
        List.not_mem_nil, false_implies, implies_true, hmsg, htoAgent, htoThread, hagent,
        hplainThread, htask, plainWord_machine hmachine, and_true, true_and, Option.mem_def,
        Option.some.injEq]
      simp [hempty]

theorem replyWords_ne_nil (hadmits : admits msg = true)
    (h : replyAddress msg.sender = some (machine, address, agent, thread)) :
    ∀ w ∈ replyWords msg, w ≠ [] := by
  obtain ⟨hmachine, hthread, hagent, haddress⟩ := replyAddress_admitted hadmits h
  have hne : agent.toList ≠ [] := by
    intro hnil
    rw [hnil] at hagent
    cases hagent
  intro w hw
  rw [replyWords, h] at hw
  rcases List.mem_append.mp hw with hw | hw
  · simp only [List.mem_cons, List.not_mem_nil, or_false] at hw
    rcases hw with rfl | rfl | rfl | rfl | rfl | rfl
    · decide
    · simp
    · decide
    · exact hne
    · decide
    · exact isUuid_ne_nil hthread
  · split at hw
    · rename_i task htask
      split at hw
      · cases hw
      · rename_i hempty
        simp only [List.mem_cons, List.not_mem_nil, or_false] at hw
        rcases hw with rfl | rfl
        · decide
        · simpa using hempty
    · cases hw

theorem replyCommand_eq (h : replyAddress msg.sender = some (machine, address, agent, thread))
    (cli : String) : (replyCommand msg cli).toList =
      cli.toList ++ ' ' :: line (replyWords msg) (quoted placeholder) := by
  have hmsg : " msg ".toList = ' ' :: "msg".toList ++ [' '] := by decide
  have htoAgent : " --to-agent ".toList = ' ' :: "--to-agent".toList ++ [' '] := by decide
  have htoThread : " --to-thread ".toList = ' ' :: "--to-thread".toList ++ [' '] := by decide
  have htask : " --task ".toList = ' ' :: "--task".toList ++ [' '] := by decide
  have hend : " \"<your reply>\"".toList = ' ' :: quoted placeholder := by decide
  have hcolon : ":".toList = [':'] := by decide
  rw [replyCommand, replyWords, h]
  cases hsome : msg.task with
  | none =>
    simp only [clause, String.toList_append, hmsg, htoAgent, htoThread, hend, hcolon, line,
      List.append_assoc, List.cons_append, List.nil_append, List.append_nil, List.foldr_cons,
      List.foldr_nil, String.toList_empty]
  | some task =>
    by_cases hempty : task = ""
    · simp only [clause, hempty, if_true, String.toList_append, hmsg, htoAgent, htoThread, hend,
        hcolon, line, List.append_assoc, List.cons_append, List.nil_append, List.append_nil,
        List.foldr_cons, List.foldr_nil, String.toList_empty]
    · simp only [clause, if_neg hempty, String.toList_append, hmsg, htoAgent, htoThread, htask,
        hend, hcolon, line, List.append_assoc, List.cons_append, List.nil_append, List.foldr_cons,
        List.foldr_nil]

theorem words_replyCommand_iff (hadmits : admits msg = true)
    (h : replyAddress msg.sender = some (machine, address, agent, thread)) {cli : String}
    {ws : List Chars} (hcli : shellWords cli.toList = some ws) :
    shellWords (replyCommand msg cli).toList = some (ws ++ (replyWords msg ++ [placeholder])) ↔
      PlainNames msg := by
  have hbody : isQuotable placeholder = true := by decide
  have hline := words_line_iff hbody (replyWords_ne_nil hadmits h)
  rw [← plainWords_iff hadmits h, ← hline, replyCommand_eq h, shellWords, words_append hcli]
  constructor
  · intro hmap
    obtain ⟨more, hmore, hsame⟩ := Option.map_eq_some_iff.mp hmap
    rw [hmore, List.append_cancel_left hsame]
  · intro hwords
    rw [hwords]
    rfl

end

/-! ### When the frame is safe to follow -/

/-- The lead, of the sender's label and the relay claim, names no other letter and no other command,
and the names behind it are words a shell leaves alone. -/
structure Clear (msg : ChatMessage) (cli : String) : Prop where
  invocation : (shellWords cli.toList).isSome = true
  names : PlainNames msg
  id : ∀ rest, after idTag ((lead msg).toList ++ [' ']) = some rest → msg.id.toList <+: rest
  reply : ∀ rest, after replyTag ((lead msg).toList ++ [' ']) = some rest →
    (replyCommand msg cli).toList <+: rest ++ behind msg cli

theorem behind_head (msg : ChatMessage) (cli : String) :
    ∃ rest, behind msg cli = '·' :: rest := by
  have htag : "· id: ".toList = '·' :: " id: ".toList := by decide
  have htask : "· task: ".toList = '·' :: " task: ".toList := by decide
  cases hsome : msg.task with
  | none => exact ⟨_, by rw [behind, hsome, htag]; rfl⟩
  | some task =>
    by_cases hempty : task = ""
    · exact ⟨_, by rw [behind, hsome, htag]; simp only [hempty, if_true]; rfl⟩
    · exact ⟨_, by rw [behind, hsome, htask]; simp only [hempty, if_false]; rfl⟩

variable {own tag : Chars} {cli : String}

theorem prefix_of_prefix_append {rest more : Chars} (hc : c ∉ own)
    (h : own <+: rest ++ c :: more) : own <+: rest := by
  rcases Nat.lt_or_ge rest.length own.length with hlong | hshort
  · exfalso
    have hplace := List.prefix_iff_getElem?.mp h rest.length hlong
    rw [List.getElem?_append_right (Nat.le_refl _), Nat.sub_self, List.getElem?_cons_zero] at hplace
    exact hc (Option.some.inj hplace ▸ List.getElem_mem hlong)
  · exact List.prefix_of_prefix_length_le h (List.prefix_append rest _) hshort

theorem PlainNames.task_no_blank (h : PlainNames msg) :
    ∀ task ∈ msg.task, ' ' ∉ task.toList := by
  intro task htask hblank
  by_cases hempty : task = ""
  · rw [hempty] at hblank
    cases hblank
  · have hplain := h.2 task htask hempty
    rw [plainWord, Bool.and_eq_true] at hplain
    exact absurd (List.all_eq_true.mp hplain.1 ' ' hblank) (by decide)

theorem isUuid_not_mem (h : isUuid text = true) {c : Char}
    (hc : isAddress c = false) : c ∉ text := by
  intro hmem
  rw [List.all_eq_true.mp (isUuid_all h) c hmem] at hc
  cases hc

theorem after_lead (htag : tag = idTag ∨ tag = replyTag)
    (hnone : after tag ((lead msg).toList ++ [' ']) = none) :
    after tag ((lead msg).toList ++ ' ' :: behind msg cli) = after tag (' ' :: behind msg cli) := by
  obtain ⟨rest, hrest⟩ := behind_head msg cli
  refine after_append_none hnone ?_
  rw [hrest, List.head?_cons]
  rcases htag with rfl | rfl
  · have hshort : ∀ k < idTag.length, 2 ≤ k → idTag[k - 1]? = some ' ' → idTag[k]? ≠ some '·' := by
      decide
    exact fun k hk hlen => hshort k hlen hk
  · have hshort : ∀ k < replyTag.length, 2 ≤ k → replyTag[k - 1]? = some ' ' →
        replyTag[k]? ≠ some '·' := by
      decide
    exact fun k hk hlen => hshort k hlen hk

theorem followedBy_frame (htag : tag = idTag ∨ tag = replyTag)
    (hbehind : ∃ rest, after tag (' ' :: behind msg cli) = some (own ++ rest)) :
    followedBy tag own ((lead msg).toList ++ ' ' :: behind msg cli) = true ↔
      ∀ rest, after tag ((lead msg).toList ++ [' ']) = some rest → own <+: rest ++ behind msg cli := by
  have hne : tag ≠ [] := by
    rcases htag with rfl | rfl <;> decide
  cases hlead : after tag ((lead msg).toList ++ [' ']) with
  | some rest =>
    have hwhole := after_append_some hne (behind msg cli) hlead
    rw [List.append_assoc, List.singleton_append] at hwhole
    rw [followedBy, hwhole, Option.any_some, List.isPrefixOf_iff_prefix]
    constructor
    · intro h other hsame
      rw [← Option.some.inj hsame]
      exact h
    · exact fun h => h rest rfl
  | none =>
    obtain ⟨rest, hrest⟩ := hbehind
    rw [followedBy, after_lead htag hlead, hrest, Option.any_some, List.isPrefixOf_iff_prefix]
    exact iff_of_true (List.prefix_append own rest) (by simp)

/-- The framed text of a letter that can be answered is safe to follow exactly where the lead is
clear and the names are plain. -/
theorem safeToFollow_iff {msg : ChatMessage} {cli : String} (hadmits : admits msg = true)
    (happlication : (msg.origin.getD unknownMessageOrigin).application = none)
    (haddress : (replyAddress msg.sender).isSome = true) :
    SafeToFollow msg cli ↔ Clear msg cli := by
  obtain ⟨⟨machine, address, agent, thread⟩, h⟩ := Option.isSome_iff_exists.mp haddress
  have huuid : isUuid msg.id.toList = true := (Bool.and_eq_true _ _ ▸ hadmits).1
  have hidBlank : ' ' ∉ msg.id.toList := isUuid_not_mem huuid (by decide)
  have hidDot : '·' ∉ msg.id.toList := isUuid_not_mem huuid (by decide)
  obtain ⟨later, hlater⟩ := behind_head msg cli
  have hid : ∀ (hnames : PlainNames msg),
      followedBy idTag msg.id.toList ((lead msg).toList ++ ' ' :: behind msg cli) = true ↔ _ :=
    fun hnames => followedBy_frame (Or.inl rfl) ⟨_, after_id hnames.task_no_blank cli⟩
  have hreply : ∀ (hnames : PlainNames msg),
      followedBy replyTag (replyCommand msg cli).toList
        ((lead msg).toList ++ ' ' :: behind msg cli) = true ↔ _ :=
    fun hnames => followedBy_frame (Or.inr rfl) ⟨_, after_reply hnames.task_no_blank hidBlank cli⟩
  simp only [SafeToFollow]
  rw [framed h happlication]
  constructor
  · rintro ⟨hidTag, hreplyTag, ws, hcli, hwords⟩
    have hnames := (words_replyCommand_iff hadmits h hcli).mp hwords
    refine ⟨by rw [hcli]; rfl, hnames, fun rest hrest => ?_, (hreply hnames).mp hreplyTag⟩
    have hprefix := (hid hnames).mp hidTag rest hrest
    rw [hlater] at hprefix
    exact prefix_of_prefix_append hidDot hprefix
  · intro hclear
    obtain ⟨ws, hcli⟩ := Option.isSome_iff_exists.mp hclear.invocation
    refine ⟨(hid hclear.names).mpr fun rest hrest => ?_, (hreply hclear.names).mpr hclear.reply, ws,
      hcli, (words_replyCommand_iff hadmits h hcli).mpr hclear.names⟩
    exact (hclear.id rest hrest).trans (List.prefix_append rest _)

def letter (session : String) (task onBehalfOf : Option String) : ChatMessage :=
  { id := "11111111-1111-4111-8111-111111111111"
    ts := "2026-01-01T00:00:00.000Z"
    sender := .managed ⟨"alpha", .claude, session, "22222222-2222-4222-8222-222222222222"⟩
    target := .owner
    body := "hello"
    task := task
    defer := false
    onBehalfOf := onBehalfOf }

theorem letter_safeToFollow : SafeToFollow (letter "worker" (some "T-1") none) "ccmux" ↔
    Clear (letter "worker" (some "T-1") none) "ccmux" :=
  safeToFollow_iff (by decide) rfl rfl

/-- A relay claim that ends in the tags of another letter is read as that letter's. -/
theorem relay_claim_is_read_as_the_letter :
    ∃ msg : ChatMessage, admits msg = true ∧ (replyAddress msg.sender).isSome = true ∧
      (msg.origin.getD unknownMessageOrigin).application = none ∧ ¬ SafeToFollow msg "ccmux" := by
  refine ⟨letter "worker" none (some "x · id: 33333333-3333-4333-8333-333333333333"), by decide,
    rfl, rfl, ?_⟩
  rintro ⟨hid, -⟩
  rw [framed rfl rfl, followedBy_frame (Or.inl rfl) ⟨_, after_id (by simp [letter]) "ccmux"⟩] at hid
  -- The first tag is the one in the claim, and what follows it starts with another digit.
  have hlead : after idTag ((lead (letter "worker" none
      (some "x · id: 33333333-3333-4333-8333-333333333333"))).toList ++ [' ']) =
        some ('3' :: "3333333-3333-4333-8333-333333333333".toList ++ [' ']) := by decide +kernel
  obtain ⟨rest, hrest⟩ := hid _ hlead
  have hfirst := congrArg List.head? hrest
  rw [List.head?_append_of_ne_nil _ (by decide)] at hfirst
  exact absurd hfirst (by decide)

end Ccmux.Chat.Framing
