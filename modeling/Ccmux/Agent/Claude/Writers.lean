/- Module: Ccmux/Agent/Claude/Writers
   source: src/agent/claude/writers.ts, src/session/adopt.ts
   digest: Who writes a conversation, as two readings of one process list tell it. -/

import Ccmux.Chat.LogFeed
import Mathlib

namespace Ccmux.Agent.Claude.Writers

open Ccmux.Chat.LogFeed (isSpace)

abbrev Text := List Char

structure PsProc where
  pid : Nat
  ppid : Nat
  command : Text
  deriving DecidableEq, Repr

inductive WriterKind where
  | desktop | cli | self
  deriving DecidableEq, Repr

structure Writer where
  pid : Nat
  kind : WriterKind
  command : Text
  deriving DecidableEq, Repr

/-! ### The pattern -/

/-- `[0-9a-f]` -/
def isHex (c : Char) : Bool := c.isDigit || decide ('a' ≤ c ∧ c ≤ 'f')

def dashes : List Nat := [8, 13, 18, 23]

def isUuid (text : Text) : Bool :=
  text.length == 36 && text.zipIdx.all fun (c, i) => if i ∈ dashes then c == '-' else isHex c

def resume : Text := "--resume".toList

def sessionId : Text := "--session-id".toList

/-- What stands behind the option; neither of the two begins the other. -/
def afterOption (text : Text) : Option (Nat × Text) :=
  if resume <+: text then some (resume.length, text.drop resume.length)
  else if sessionId <+: text then some (sessionId.length, text.drop sessionId.length)
  else none

/-- `RESUME_UUID_RE` at the start of a text: the uuid, and how long the match is. -/
def matchHere (text : Text) : Option (Text × Nat) :=
  match afterOption text with
  | some (n, sep :: rest) =>
    if (sep = '=' ∨ sep = ' ') ∧ isUuid (rest.take 36) = true then some (rest.take 36, n + 37)
    else none
  | _ => none

/-- `matchAll`: a match begins where the one before it has ended, or later. -/
def matchAll : Nat → Text → List Text
  | _, [] => []
  | skip + 1, _ :: rest => matchAll skip rest
  | 0, c :: rest =>
    match matchHere (c :: rest) with
    | some (uuid, n) => uuid :: matchAll (n - 1) rest
    | none => matchAll 0 rest

def resumingUuids (procs : List PsProc) : List Text :=
  procs.flatMap fun p => matchAll 0 p.command

/-! ### Walks to the ancestors -/

/-- `byPid.get`: of two rows with one number the later counts. -/
def byPid (procs : List PsProc) (pid : Nat) : Option PsProc :=
  procs.reverse.find? fun p => p.pid == pid

variable {procs : List PsProc} {pid : Nat} {p : PsProc}

theorem byPid_mem (h : byPid procs pid = some p) :
    pid ∈ procs.map PsProc.pid := by
  have hmem := List.mem_reverse.mp (List.mem_of_find?_eq_some h)
  have hpid : p.pid = pid := by simpa using List.find?_some h
  exact List.mem_map.mpr ⟨p, hmem, hpid⟩

/-- The numbers of the table that a walk has not seen. -/
def unseen (procs : List PsProc) (seen : List Nat) : List Nat :=
  (procs.map PsProc.pid).filter fun pid => pid ∉ seen

theorem unseen_lt {seen : List Nat} (hnew : pid ∉ seen) (h : byPid procs pid = some p) :
    (unseen procs (seen ++ [pid])).length < (unseen procs seen).length := by
  have hsub : unseen procs (seen ++ [pid]) = (unseen procs seen).filter fun q => q ≠ pid := by
    simp only [unseen, List.filter_filter]
    refine List.filter_congr fun q _ => ?_
    by_cases hq : q = pid <;> simp [hq]
  rw [hsub]
  refine List.length_filter_lt_length_iff_exists.mpr ⟨pid, ?_, by simp⟩
  exact List.mem_filter.mpr ⟨byPid_mem h, by simpa using hnew⟩

/-- The loop of `ancestorsOf`. -/
def climb (procs : List PsProc) (seen : List Nat) (pid : Nat) : List Nat :=
  if _hnew : 1 < pid ∧ pid ∉ seen then
    match _hp : byPid procs pid with
    | none => seen ++ [pid]
    | some p => climb procs (seen ++ [pid]) p.ppid
  else seen
termination_by (unseen procs seen).length
decreasing_by exact unseen_lt _hnew.2 _hp

def ancestorsOf (procs : List PsProc) (fromPid : Nat) : List Nat := climb procs [] fromPid

/-- `_run\s` at the start of a text. -/
def startsRun (text : Text) : Bool :=
  decide ("_run".toList <+: text) && (text.drop 4).head?.any isSpace

/-- `/(?:^|\s)_run\s/` -/
def isRunSupervisor (command : Text) : Bool :=
  startsRun command || command.tails.any fun
    | sep :: rest => isSpace sep && startsRun rest
    | [] => false

/-- The loop of `underRun`. -/
def underRunFrom (procs : List PsProc) (seen : List Nat) (pid : Nat) : Bool :=
  if _hnew : 1 < pid ∧ pid ∉ seen then
    match _hp : byPid procs pid with
    | none => false
    | some p => isRunSupervisor p.command || underRunFrom procs (seen ++ [pid]) p.ppid
  else false
termination_by (unseen procs seen).length
decreasing_by exact unseen_lt _hnew.2 _hp

def externalResumingUuids (procs : List PsProc) : List Text :=
  procs.flatMap fun p => if underRunFrom procs [] p.pid then [] else matchAll 0 p.command

/-! ### The writers -/

/-- `Helpers/disclaimer` -/
def isLauncher (p : PsProc) : Bool := decide ("Helpers/disclaimer".toList <:+: p.command)

/-- The conversation stands behind one of the options, with a blank between. -/
def carries (uuid : Text) (p : PsProc) : Bool :=
  decide (resume ++ ' ' :: uuid <:+: p.command) || decide (sessionId ++ ' ' :: uuid <:+: p.command)

def isDesktop (p : PsProc) : Bool := decide ("claude.app/Contents/MacOS".toList <:+: p.command)

def kindOf (ancestors : List Nat) (p : PsProc) : WriterKind :=
  if p.pid ∈ ancestors then .self else if isDesktop p then .desktop else .cli

def classifyWriters (procs : List PsProc) (uuid : Text) (selfPid : Nat) : List Writer :=
  let ancestors := ancestorsOf procs selfPid
  (procs.filter fun p => carries uuid p && !isLauncher p).map fun p =>
    { pid := p.pid, kind := kindOf ancestors p, command := p.command }

def envSelf : Text := "(this very conversation — via CLAUDE_CODE_SESSION_ID)".toList

def addEnvSelf (writers : List Writer) (uuid : Text) (envUuid : Option Text) (selfPid : Nat) :
    List Writer :=
  if envUuid ≠ some uuid ∨ writers.any fun w => w.kind == .self then writers
  else writers ++ [{ pid := selfPid, kind := .self, command := envSelf }]

/-- What the process itself knows: its sessions, its number and its environment. -/
structure Caller where
  sessions : List (Text × Text)
  selfPid : Nat
  envUuid : Option Text

def liveWriters (caller : Caller) (procs : List PsProc) (uuid : Text) : List Writer :=
  addEnvSelf (classifyWriters procs uuid caller.selfPid) uuid caller.envUuid caller.selfPid

/-! ### Adoption -/

inductive AdoptError where
  | alreadyManaged (name : Text)
  | liveWriters (writers : List Writer)
  | ownSession (writer : Writer)
  | stillAlive (writers : List Writer)
  deriving DecidableEq, Repr

def describeWriter (w : Writer) : Text :=
  let pid := Nat.toDigits 10 w.pid ++ ")".toList
  match w.kind with
  | .desktop => "desktop app (pid ".toList ++ pid
  | .self => "THIS session's own process (pid ".toList ++ pid
  | .cli => "cli instance (pid ".toList ++ pid

def describeWriters (writers : List Writer) : Text :=
  ", ".toList.intercalate (writers.map describeWriter)

def AdoptError.message : AdoptError → Text
  | .alreadyManaged name => "already managed as '".toList ++ name ++ "'".toList
  | .liveWriters writers =>
    "session has ".toList ++ Nat.toDigits 10 writers.length ++ " live writer(s): ".toList ++
      describeWriters writers
  | .ownSession writer =>
    "refusing takeover: ".toList ++ describeWriter writer ++
      " — you'd kill the session you're in. Use fork.".toList
  | .stillAlive writers =>
    "takeover failed: still alive after SIGTERM: ".toList ++ describeWriters writers

def pickName (sessions : List (Text × Text)) (base : Text) (wantName : Option Text)
    (uuid : Text) : Text :=
  let name := wantName.getD ("cc-".toList ++ base)
  if sessions.any fun s => s.1 == name then name ++ '-' :: uuid.take 4 else name

/-- `adoptSession`, up to the name that it registers; `base` is the directory's own name. -/
def adoptSession (caller : Caller) (procs : List PsProc) (base uuid : Text)
    (wantName : Option Text) : Except AdoptError Text :=
  match caller.sessions.find? fun s => s.2 == uuid with
  | some already => .error (.alreadyManaged already.1)
  | none =>
    let writers := liveWriters caller procs uuid
    if writers ≠ [] then .error (.liveWriters writers)
    else .ok (pickName caller.sessions base wantName uuid)

/-- `takeoverAdopt`: the processes it signals, and its answer. It lists the processes before, when
it has waited, and once more to adopt. -/
def takeoverAdopt (caller : Caller) (before left last : List PsProc) (base uuid : Text)
    (wantName : Option Text) : List Nat × Except AdoptError Text :=
  let writers := liveWriters caller before uuid
  match writers.find? fun w => w.kind == .self with
  | some own => ([], .error (.ownSession own))
  | none =>
    let still := liveWriters caller left uuid
    (writers.map Writer.pid,
      if still ≠ [] then .error (.stillAlive still)
      else adoptSession caller last base uuid wantName)

end Ccmux.Agent.Claude.Writers
