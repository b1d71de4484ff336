/- Module: Ccmux/Util/Jsonl
   source: src/util/jsonl.ts (readJsonl, sameTail)
   digest: The reader of append-only JSON-lines files, which remembers how far it has decoded. -/

import Ccmux.Lib.Lines

namespace Ccmux.Util.Jsonl

open Ccmux.Lib.Lines

/-- What a line that is not JSON means: refuse the file, leave the line out, or hand the decoder a
marker in its place. -/
inductive BadLine where
  | throw
  | skip
  | hole
  deriving DecidableEq

/-- How bytes become JSON values of type `J`; `parse` gives `none` where `JSON.parse` throws. -/
structure Builtins (J : Type) where
  utf8 : List UInt8 → String
  trim : String → String
  parse : String → Option J

/-- The options of a call. A decoder is a reference; what it computes is `decoder` below. -/
structure JsonlOptions (D : Type) where
  label : String
  badLine : BadLine
  decode : D

structure Decoded (D R : Type) where
  identity : String
  /-- Just past a newline. -/
  offset : Nat
  lines : Nat
  records : List R
  decode : D
  /-- The last bytes decoded. -/
  tail : List UInt8

/-- An opened file: what `fstat` says it is, and its bytes. -/
structure File where
  identity : String
  bytes : List UInt8

def FINGERPRINT : Nat := 256

def newline : UInt8 := 10

/-- `buffer.subarray(Math.max(0, buffer.length - FINGERPRINT))`. -/
def lastBytes (bytes : List UInt8) : List UInt8 := bytes.drop (bytes.length - FINGERPRINT)

/-- One `readSync`: at most `length` bytes, and at least one while there are any; how many is the
system's choice `chunk`. -/
def readSync (chunk : Nat → Nat) (bytes : List UInt8) (length position : Nat) : List UInt8 :=
  (bytes.drop position).take (min length (chunk position + 1))

/-- The loop that reads until the buffer is full or nothing comes. -/
def fill (chunk : Nat → Nat) (bytes : List UInt8) : Nat → Nat → Nat → List UInt8
  | 0, _, _ => []
  | fuel + 1, length, position =>
    let part := readSync chunk bytes length position
    if part = [] then []
    else part ++ fill chunk bytes fuel (length - part.length) (position + part.length)

section
variable {J D R : Type} (b : Builtins J) (decoder : D → Option J → Nat → Except String (Option R))

/-- One line of the file, with its number. -/
def decodeLine (options : JsonlOptions D) (line : Nat) (raw : List UInt8) :
    Except String (Option R) :=
  let trimmed := b.trim (b.utf8 raw)
  if trimmed = "" then .ok none
  else
    match b.parse trimmed with
    | some parsed => decoder options.decode (some parsed) line
    | none =>
      match options.badLine with
      | .throw => .error (options.label ++ ":" ++ toString line ++ " — invalid JSON")
      | .skip => .ok none
      | .hole => decoder options.decode none line

/-- The lines that follow line number `line`. -/
def decodeLines (options : JsonlOptions D) : Nat → List (List UInt8) → Except String (List R)
  | _, [] => .ok []
  | line, raw :: rest =>
    match decodeLine b decoder options (line + 1) raw with
    | .error e => .error e
    | .ok record =>
      match decodeLines options (line + 1) rest with
      | .error e => .error e
      | .ok added => .ok (record.toList ++ added)

/-- The bytes before the decoded end are the remembered ones. -/
def sameTail (chunk : Nat → Nat) (bytes : List UInt8) (known : Decoded D R) : Bool :=
  decide (readSync chunk bytes known.tail.length (known.offset - known.tail.length) = known.tail)

variable [DecidableEq D]

def resumes (chunk : Nat → Nat) (file : File) (known : Decoded D R)
    (options : JsonlOptions D) : Bool :=
  decide (known.identity = file.identity) && decide (known.decode = options.decode) &&
    decide (known.offset ≤ file.bytes.length) && sameTail chunk file.bytes known

def baseOf (chunk : Nat → Nat) (file : File) (known : Option (Decoded D R))
    (options : JsonlOptions D) : Decoded D R :=
  (known.filter fun known => resumes chunk file known options).getD
    { identity := file.identity
      offset := 0
      lines := 0
      records := []
      decode := options.decode
      tail := [] }

/-- What a call does to the memory of the file. -/
inductive Effect (D R : Type) where
  | keep
  | delete
  | set (next : Decoded D R)

/-- The answer of a call and what it remembers. -/
def readJsonl (chunk : Nat → Nat) (file : Option File) (known : Option (Decoded D R))
    (options : JsonlOptions D) : Except String (List R) × Effect D R :=
  match file with
  | none => (.ok [], .delete)
  | some file =>
    let base := baseOf chunk file known options
    let length := file.bytes.length - base.offset
    if base.offset = file.bytes.length then (.ok base.records, .keep)
    else
      let buffer := fill chunk file.bytes length length base.offset
      let whole := cut newline buffer
      if whole.lines = [] then (.ok base.records, .set base)
      else
        match decodeLines b decoder options base.lines whole.raws with
        | .error e => (.error e, .keep)
        | .ok added =>
          let consumed := buffer.take whole.start
          let next : Decoded D R :=
            { identity := file.identity
              offset := base.offset + whole.start
              lines := base.lines + whole.raws.length
              records := base.records ++ added
              decode := options.decode
              tail := lastBytes (base.tail ++ lastBytes consumed) }
          (.ok next.records, .set next)

end

/-- What the call is to give: the whole lines of the file decoded from the first byte. -/
def freshDecode {J D R : Type} (b : Builtins J)
    (decoder : D → Option J → Nat → Except String (Option R)) (options : JsonlOptions D) :
    Option File → Except String (List R)
  | none => .ok []
  | some file => decodeLines b decoder options 0 (cut newline file.bytes).raws

end Ccmux.Util.Jsonl
