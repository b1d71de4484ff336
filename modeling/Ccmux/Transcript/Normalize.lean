/- Module: Ccmux/Transcript/Normalize
   source: src/agent/transcript/normalize.ts, src/agent/transcript/lines.ts
   digest: Reading untyped JSON records of a transcript line. -/

import Mathlib
import Ccmux.Usage.Schema

namespace Ccmux.Transcript.Normalize

open Ccmux.Usage.Schema (UsageMetrics)

/-- A parsed JSON value. A number is the double it reads as; `none` is the infinity of a literal out
of range. -/
inductive Json where
  | null
  | bool (value : Bool)
  | num (value : Option ℚ)
  | str (text : String)
  | arr (items : List Json)
  | obj (fields : List (String × Json))

/-- What the program takes from its language: decoding, JSON, dates and digests. -/
structure Builtins where
  /-- `Buffer.toString('utf8')`. -/
  utf8 : List UInt8 → String
  /-- `raw.trim() === ''`. -/
  isBlank : String → Bool
  /-- `JSON.parse`; `none` is a throw. -/
  parseJson : String → Option Json
  /-- `new Date(text).toISOString()` where `Date.parse` gives a finite number. -/
  isoTime : String → Option String
  /-- `z.iso.datetime()`. -/
  isDatetime : String → Bool
  /-- `String(value)` of a number. -/
  numberText : Option ℚ → String
  sha256 : List UInt8 → String
  /-- The digest of `JSON.stringify([epoch, at, metrics])`. -/
  usageId : String → Option String → UsageMetrics → String

/-- `none` stands for `undefined`. An array is a record without named fields. -/
def rec : Option Json → Option Json
  | some (.obj fields) => some (.obj fields)
  | some (.arr items) => some (.arr items)
  | _ => none

def str : Option Json → Option String
  | some (.str text) => some text
  | _ => none

/-- `value?.key`. -/
def field (value : Option Json) (key : String) : Option Json :=
  match value with
  | some (.obj fields) => fields.lookup key
  | _ => none

/-- `Array.isArray(value) ? value : []`. -/
def items : Option Json → List Json
  | some (.arr items) => items
  | _ => []

def nonEmpty (text : String) : Option String := if text = "" then none else some text

/-- The first text that is there and not empty, or else the joined blocks, or else the type. -/
def blockLabel (kind : String) (direct : Option String) (inner : List String) : String :=
  match direct.bind nonEmpty with
  | some text => text
  | none =>
    match inner.filter fun text => text ≠ "" with
    | [] => if kind = "" then "" else "[" ++ kind ++ "]"
    | texts => " ".intercalate texts

mutual

def blockText : Json → String
  | .str text => text
  | .obj fields =>
    let kind := (str (fields.lookup "type")).getD ""
    if kind ∈ ["text", "input_text", "output_text"] then (str (fields.lookup "text")).getD ""
    else if kind ∈ ["image", "input_image", "image_url", "tool_use_image"] then "[image]"
    else
      blockLabel kind ((str (fields.lookup "text")).or (str (fields.lookup "content")))
        (contentTexts fields)
  | _ => ""

/-- `r.content.map(blockText)` of an object's fields. -/
def contentTexts : List (String × Json) → List String
  | [] => []
  | (key, .arr blocks) :: rest =>
    if key = "content" then blockTexts blocks else contentTexts rest
  | (key, _) :: rest => if key = "content" then [] else contentTexts rest

def blockTexts : List Json → List String
  | [] => []
  | block :: rest => blockText block :: blockTexts rest

end

def flattenContent (b : Builtins) : Option Json → Option String
  | none => none
  | some .null => none
  | some (.str text) => some text
  | some (.bool value) => some (if value then "true" else "false")
  | some (.num value) => some (b.numberText value)
  | some (.arr blocks) =>
    match (blockTexts blocks).filter fun text => text ≠ "" with
    | [] => none
    | texts => some (" ".intercalate texts)
  | some (.obj fields) => nonEmpty (blockText (.obj fields))

/-- The JSON records among the lines; blank lines, lines that are no JSON and JSON that is no object
are skipped. -/
def transcriptEntries (b : Builtins) (lines : List String) : List Json :=
  lines.filterMap fun raw => if b.isBlank raw then none else rec (b.parseJson raw)

theorem transcriptEntries_append (b : Builtins) (lines more : List String) :
    transcriptEntries b (lines ++ more) = transcriptEntries b lines ++ transcriptEntries b more :=
  List.filterMap_append

end Ccmux.Transcript.Normalize
