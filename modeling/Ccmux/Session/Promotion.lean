/- Module: Ccmux/Session/Promotion
   source: src/session/promotion.ts, src/session/registry.ts, src/session/pending.ts
   digest: The two registry files, the writes of each mutation, and readers that take no lock. -/

import Ccmux.Session.Registry
import Ccmux.Lib.Machine

namespace Ccmux.Promotion

open Ccmux.Lib.Machine
open Ccmux.Registry

/-- A row of the pending file: a launch, or one whose promotion is journalled. -/
inductive PendingRow where
  | launch (item : PendingSession)
  | promoted (item : PendingSession) (uuid : String)
  deriving DecidableEq

structure Files where
  pending : List PendingRow
  ready : List Session
  deriving DecidableEq

def promotedSession : PendingRow → Option Session
  | .launch _ => none
  | .promoted item uuid =>
    some { item.session with uuid := uuid, registrationGeneration := some item.generation }

def launchOf : PendingRow → Option PendingSession
  | .launch item => some item
  | .promoted _ _ => none

/-- `loadPendingSessions`. -/
def launches (pending : List PendingRow) : List PendingSession := pending.filterMap launchOf

def journal (pending : List PendingRow) : List Session := pending.filterMap promotedSession

/-- The row has the name, the conversation and the generation of the session. -/
def sameIdentity (s t : Session) : Bool :=
  s.name == t.name && s.uuid == t.uuid && s.registrationGeneration == t.registrationGeneration

/-- One promoted row over the ready rows. -/
def addPromoted (ready : List Session) (promoted : Session) : Except String (List Session) :=
  match findSession ready promoted.name with
  | some byName =>
    if sameIdentity byName promoted then .ok ready
    else .error s!"promoted session '{promoted.name}' conflicts with the ready registry"
  | none =>
    if ready.any fun session => session.uuid == promoted.uuid then
      .error s!"promoted uuid '{promoted.uuid}' conflicts with the ready registry"
    else .ok (ready ++ [promoted])

def addAll (ready : List Session) : List Session → Except String (List Session)
  | [] => .ok ready
  | promoted :: rest => (addPromoted ready promoted).bind fun more => addAll more rest

/-- What is read from the two files, the pending rows first. -/
def loadRegistrySessions (pending : List PendingRow) (ready : List Session) :
    Except String (List Session) :=
  addAll ready (journal pending)

inductive Write where
  | pending (rows : List PendingRow)
  | ready (rows : List Session)
  deriving DecidableEq

def Files.apply (f : Files) : Write → Files
  | .pending rows => { f with pending := rows }
  | .ready rows => { f with ready := rows }

/-- The launches as a file of pending rows. -/
def rowsOf (items : List PendingSession) : List PendingRow := items.map .launch

/-- `recoverPromotionsUnlocked`: the ready rows and the writes that bring the files to them. -/
def recoverPromotions (f : Files) : Except String (List Session × List Write) :=
  if journal f.pending = [] then .ok (f.ready, [])
  else
    (loadRegistrySessions f.pending f.ready).map fun ready =>
      let cleaned := Write.pending (rowsOf (launches f.pending))
      (ready, if ready = f.ready then [cleaned] else [.ready ready, cleaned])

inductive Mutation where
  | append (session : Session)
  | updateUuid (name uuid : String)
  | update (name : String) (fields : SessionFields)
  | remove (name : String)
  | removeIfUuid (name uuid : String)
  | removeIfGeneration (name generation : String)
  | reserve (pending : PendingSession)
  | block (generation : String)
  | removePending (generation : String)
  | promote (generation uuid : String) (nativeSession : Option NativeSession)

/-- A pending row in the journal of a promotion. -/
def journalled (generation uuid : String) (nativeSession : Option NativeSession)
    (item : PendingSession) : PendingRow :=
  if item.generation == generation then
    .promoted { item with session := { item.session with
      nativeSession := nativeSession.or item.session.nativeSession } } uuid
  else .launch item

/-- The writes of a mutation after the recovery it begins with; `none` is a throw. A write of rows
that are the stored ones stands for none. -/
@[grind =]
def mutate (r : Rows) : Mutation → Option (List Write)
  | .append session => (appendSession r session).map fun after => [.ready after.sessions]
  | .updateUuid name uuid => (updateSessionUuid r name uuid).map fun after => [.ready after.sessions]
  | .update name fields => some [.ready (updateSession r name fields).sessions]
  | .remove name => some [.ready (removeSession r name).sessions]
  | .removeIfUuid name uuid => some [.ready (removeSessionIfUuid r name uuid).sessions]
  | .removeIfGeneration name generation =>
    some [.ready (removeSessionIfGeneration r name generation).sessions]
  | .reserve pending =>
    (reservePendingSession r pending).map fun after => [.pending (rowsOf after.pending)]
  | .block generation => some [.pending (rowsOf (markPendingBlocked r generation).pending)]
  | .removePending generation =>
    some [.pending (rowsOf (removePendingSession r generation).pending)]
  | .promote generation uuid nativeSession =>
    (promotePendingSession r generation uuid nativeSession).map fun (after, _) =>
      [.pending (r.pending.map (journalled generation uuid nativeSession)), .ready after.sessions,
        .pending (rowsOf after.pending)]

/-- Every write of a mutation. Its owner has the lock of the registry, so what it reads between the
writes is what it wrote. -/
def plan (f : Files) (m : Mutation) : List Write :=
  match recoverPromotions f with
  | .error _ => []
  | .ok (ready, writes) => writes ++ (mutate ⟨ready, launches f.pending⟩ m).getD []

/-- A reader that has read the pending rows, and what the registry held since then. -/
structure Reader where
  pending : List PendingRow
  seen : List (Except String (List Session))

structure Reading where
  result : Except String (List Session)
  seen : List (Except String (List Session))

/-- The files, what the owner of the lock has still to write, and the readers. -/
structure World where
  files : Files
  writing : Option (List Write)
  readers : List Reader
  readings : List Reading

def World.empty : World := ⟨⟨[], []⟩, none, [], []⟩

/-- What a reader that is not interrupted reads. -/
@[grind =]
def contents (f : Files) : Except String (List Session) := loadRegistrySessions f.pending f.ready

inductive Event where
  | lock (m : Mutation)
  | write
  | release
  | crash
  | readPending
  | readReady (reader : Nat)

/-- A reservation is made under a generation that no launch has. -/
def fresh (f : Files) : Mutation → Bool
  | .reserve pending => (launches f.pending).all fun item => item.generation != pending.generation
  | _ => true

def step (w : World) : Event → Option World
  | .lock m =>
    match w.writing with
    | some _ => none
    | none => if fresh w.files m then some { w with writing := some (plan w.files m) } else none
  | .write =>
    match w.writing with
    | some (next :: rest) =>
      let files := w.files.apply next
      some { w with
        files := files
        writing := some rest
        readers := w.readers.map fun r => { r with seen := r.seen ++ [contents files] } }
    | _ => none
  | .release =>
    match w.writing with
    | some [] => some { w with writing := none }
    | _ => none
  | .crash => some { w with writing := none }
  | .readPending => some { w with
      readers := w.readers ++ [⟨w.files.pending, [contents w.files]⟩] }
  | .readReady i => w.readers[i]?.map fun r =>
    { w with
      readers := w.readers.eraseIdx i
      readings := w.readings ++ [⟨loadRegistrySessions r.pending w.files.ready, r.seen⟩] }

end Ccmux.Promotion
