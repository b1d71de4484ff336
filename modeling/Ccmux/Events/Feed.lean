/- Module: Ccmux/Events/Feed
   source: src/events/feed.ts, src/util/readLines.ts (tailLines), src/util/jsonl.ts (rotateBySize,
     appendJsonl)
   digest: The event feed, the files it rotates through, and the reader that follows it. -/

import Ccmux.Chat.Identity
import Ccmux.Lib.Lines

namespace Ccmux.Events.Feed

open Ccmux.Chat.Identity (AgentKind)
open Ccmux.Lib.Lines

inductive SessionEventKind where
  | turnStart | turnEnd | waiting | resumed | sessionStart | sessionStop | sessionBlocked | inventory
  deriving DecidableEq, Repr

structure SessionEvent where
  id : String
  ts : String
  machine : String
  session : String
  agent : AgentKind
  threadId : String
  event : SessionEventKind
  durationMs : Option Nat := none
  interrupted : Option Bool := none
  detail : Option String := none
  deriving DecidableEq, Repr

/-- `JSON.stringify` of an event, the parse of one line, and `Date.parse`. -/
structure Codec where
  render : SessionEvent → List UInt8
  parse : List UInt8 → Option SessionEvent
  dateParse : String → Option Int

def newline : UInt8 := 10

/-- The line of an event is read back as the event. -/
def Codec.Reads (c : Codec) (event : SessionEvent) : Prop :=
  c.parse (c.render event) = some event ∧ ∀ x ∈ c.render event, x ≠ newline

/-- What `appendJsonl` writes. -/
def Codec.line (c : Codec) (event : SessionEvent) : List UInt8 := c.render event ++ [newline]

def MAX_BYTES : Nat := 5 * 1024 * 1024

structure FollowOptions where
  since : String
  session : Option String := none

/-- The session filter, which backlog and stream share. -/
def selects (opts : FollowOptions) (event : SessionEvent) : Bool :=
  opts.session.all fun session => event.session == session

/-- The cursor is a time: an event before it is no part of the backlog. -/
def isOlder (c : Codec) (opts : FollowOptions) (event : SessionEvent) : Bool :=
  match c.dateParse opts.since, c.dateParse event.ts with
  | some sinceMs, some at_ => decide (at_ < sinceMs)
  | _, _ => false

/-- The events in the whole lines of some bytes. -/
def eventsOf (c : Codec) (bytes : List UInt8) : List SessionEvent :=
  (cut newline bytes).raws.filterMap c.parse

/-- What `readEvents` takes of one file. -/
def backlogOf (c : Codec) (opts : FollowOptions) (bytes : List UInt8) : List SessionEvent :=
  (eventsOf c bytes).filter fun event => selects opts event && !isOlder c opts event

/-- The paths of the feed: `.2`, `.1` and the file that is appended to. -/
inductive Path where
  | second | first | current
  deriving DecidableEq, Repr

structure Directory where
  second : Option Nat
  first : Option Nat
  current : Option Nat
  deriving DecidableEq, Repr

def Directory.file (d : Directory) : Path → Option Nat
  | .second => d.second
  | .first => d.first
  | .current => d.current

def feedFiles (d : Directory) : List Path :=
  [.second, .first, .current].filter fun path => (d.file path).isSome

/-- The renames of `rotateBySize`: the oldest generation is gone, the others are one older. -/
def Directory.rotate (d : Directory) : Directory := ⟨d.first, d.current, none⟩

/-- The position of `tailLines` and the bytes it holds of a line that has no end yet. -/
structure Tail where
  offset : Nat
  carry : List UInt8
  deriving DecidableEq, Repr

def Tail.reset : Tail := ⟨0, []⟩

/-- `read` of `tailLines` over the bytes of the file at the path. -/
def Tail.read (tail : Tail) (bytes : List UInt8) : List (List UInt8) × Tail :=
  let from_ := if bytes.length < tail.offset then Tail.reset else tail
  if bytes.length = from_.offset then ([], from_)
  else
    let found := cut newline (from_.carry ++ bytes.drop from_.offset)
    (found.raws, ⟨bytes.length, found.tail⟩)

/-- Where a call of `appendEvent` stands: the event is built, then the size of the file is read,
the file rotated or not, and the line written to the file that was opened. -/
inductive Phase where
  | built (event : SessionEvent)
  | checked (event : SessionEvent) (full : Bool)
  | ready (event : SessionEvent)
  | writing (event : SessionEvent) (file : Nat) (rest : List UInt8)
  deriving DecidableEq

def Phase.event : Phase → SessionEvent
  | .built event => event
  | .checked event _ => event
  | .ready event => event
  | .writing event _ _ => event

/-- Where `followEvents` stands: not called, in its backlog with the paths still to be read, or
past its start offset. -/
inductive Reader where
  | waiting
  | backlog (paths : List Path)
  | following (tail : Tail)
  deriving DecidableEq

/-- `lock` names the writer whose line a file is in the middle of. Of the reader the world also keeps
the file its position was taken in, and how far each file was read in whole lines; `expected` are
the events completely appended after the instant. -/
structure World where
  now : Int
  contents : Nat → List UInt8
  next : Nat
  directory : Directory
  writers : Nat → Option Phase
  lock : Nat → Option Nat
  reader : Reader
  position : Option Nat
  seen : Nat → Nat
  delivered : List SessionEvent
  expected : List SessionEvent

def put {α : Type} (entries : Nat → α) (key : Nat) (value : α) : Nat → α :=
  fun other => if other = key then value else entries other

@[simp] theorem put_self {α : Type} (entries : Nat → α) (key : Nat) (value : α) :
    put entries key value key = value := by
  simp [put]

theorem put_of_ne {α : Type} (entries : Nat → α) {key other : Nat} (value : α) (h : other ≠ key) :
    put entries key value other = entries other := by
  simp [put, h]

def World.size (w : World) (file : Nat) : Nat := (w.contents file).length

/-- The clock, the steps of the writers, and the steps of the reader. A write adds some bytes of the
line; nobody else writes to the file before the line is whole. -/
inductive Event where
  | tick (now : Int)
  | build (writer : Nat) (event : SessionEvent)
  | check (writer : Nat)
  | rotate (writer : Nat)
  | openFile (writer : Nat)
  | write (writer count : Nat)
  | list
  | readFile
  | stat
  | drain (readable : Bool)
  deriving DecidableEq

section
variable (c : Codec) (opts : FollowOptions)

def isPast (w : World) : Bool := (c.dateParse opts.since).all fun sinceMs => decide (sinceMs ≤ w.now)

/-- A writer appends the next bytes of its line; with the last of them the event is appended. -/
def writeBytes (w : World) (writer count : Nat) (event : SessionEvent) (file : Nat)
    (rest : List UInt8) : World :=
  let left := rest.drop count
  { w with
    contents := put w.contents file (w.contents file ++ rest.take count)
    lock := put w.lock file (if left = [] then none else some writer)
    writers := put w.writers writer (if left = [] then none else some (.writing event file left))
    expected := if left = [] ∧ isPast c opts w = true then w.expected ++ [event] else w.expected }

def readBacklog (w : World) (path : Path) (rest : List Path) : World :=
  match w.directory.file path with
  | none => { w with reader := .backlog rest }
  | some file =>
    { w with
      reader := .backlog rest
      seen := put w.seen file (cut newline (w.contents file)).start
      delivered := w.delivered ++ backlogOf c opts (w.contents file) }

/-- The start offset, where the position is taken. -/
def startAt (w : World) : World :=
  match w.directory.current with
  | none => { w with reader := .following ⟨0, []⟩, position := none }
  | some file => { w with reader := .following ⟨w.size file, []⟩, position := some file }

/-- The position starts over, in no file. -/
def World.reset (w : World) : World := { w with reader := .following Tail.reset, position := none }

/-- A read of the file at the path, whose lines are passed on. -/
def readCurrent (w : World) (tail : Tail) (file : Nat) : World :=
  let out := tail.read (w.contents file)
  { w with
    reader := .following out.2
    position := some file
    seen := put w.seen file (w.size file - out.2.carry.length)
    delivered := w.delivered ++ (out.1.filterMap c.parse).filter (selects opts) }

/-- One drain: a file that is missing or cannot be read resets the position. -/
def drain (w : World) (tail : Tail) (readable : Bool) : World :=
  match w.directory.current, readable with
  | none, _ => w.reset
  | some file, true => readCurrent c opts w tail file
  | some file, false => { w.reset with seen := put w.seen file 0 }

variable {c opts} in
theorem drain_missing {w : World} {readable : Bool} (tail : Tail)
    (h : w.directory.current = none) : drain c opts w tail readable = w.reset := by
  simp [drain, h]

variable {c opts} in
theorem drain_readable {w : World} {file : Nat} (tail : Tail)
    (h : w.directory.current = some file) :
    drain c opts w tail true = readCurrent c opts w tail file := by
  simp [drain, h]

variable {c opts} in
theorem drain_unreadable {w : World} {file : Nat} (tail : Tail)
    (h : w.directory.current = some file) :
    drain c opts w tail false = { w.reset with seen := put w.seen file 0 } := by
  simp [drain, h]

@[grind =]
def step (w : World) : Event → Option World
  | .tick now => if w.now ≤ now then some { w with now := now } else none
  | .build writer event =>
    if w.writers writer = none ∧ c.dateParse event.ts = some w.now then
      some { w with writers := put w.writers writer (some (.built event)) }
    else none
  | .check writer =>
    match w.writers writer with
    | some (.built event) =>
      let full := w.directory.current.any fun file => decide (MAX_BYTES ≤ w.size file)
      some { w with writers := put w.writers writer (some (.checked event full)) }
    | _ => none
  | .rotate writer =>
    match w.writers writer with
    | some (.checked event full) =>
      let directory := if full then w.directory.rotate else w.directory
      some
        { w with
          directory := directory
          writers := put w.writers writer (some (.ready event)) }
    | _ => none
  | .openFile writer =>
    match w.writers writer with
    | some (.ready event) =>
      match w.directory.current with
      | some file =>
        some { w with writers := put w.writers writer (some (.writing event file (c.line event))) }
      | none =>
        some
          { w with
            next := w.next + 1
            directory := { w.directory with current := some w.next }
            writers := put w.writers writer (some (.writing event w.next (c.line event))) }
    | _ => none
  | .write writer count =>
    match w.writers writer with
    | some (.writing event file rest) =>
      if 0 < count ∧ (w.lock file = none ∨ w.lock file = some writer) then
        some (writeBytes c opts w writer count event file rest)
      else none
    | _ => none
  | .list =>
    match w.reader with
    | .waiting => some { w with reader := .backlog (feedFiles w.directory) }
    | _ => none
  | .readFile =>
    match w.reader with
    | .backlog (path :: rest) => some (readBacklog c opts w path rest)
    | _ => none
  | .stat =>
    match w.reader with
    | .backlog [] => some (startAt w)
    | _ => none
  | .drain readable =>
    match w.reader with
    | .following tail => some (drain c opts w tail readable)
    | _ => none

end

def World.start (now : Int) : World :=
  { now := now
    contents := fun _ => []
    next := 0
    directory := ⟨none, none, none⟩
    writers := fun _ => none
    lock := fun _ => none
    reader := .waiting
    position := none
    seen := fun _ => 0
    delivered := []
    expected := [] }

end Ccmux.Events.Feed
