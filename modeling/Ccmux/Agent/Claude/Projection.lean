/- Module: Ccmux/Agent/Claude/Projection
   source: src/agent/claude/native/projection.ts (record, recordTool, appendItem),
     src/agent/claude/native/content.ts (deltaText, toolBlocks, summarise)
   digest: The published items and the index of the texts among them, over every stream of
     messages. -/

import Ccmux.Agent.Claude.Turn
import Ccmux.Lib.Utf16

namespace Ccmux.Agent.Claude.Projection

open Ccmux.Agent.Claude.Turn (ContentKind classifySdkMessage)
open Ccmux.Lib.Utf16

/-! ### What a message carries -/

/-- A block of a message; `input` holds the fields of the tool's input that are strings. -/
structure Block where
  type : String
  id : Option String
  name : Option Units
  toolUseId : Option String
  isError : Bool
  input : Option (List (String × Units))
  deriving DecidableEq, Repr

/-- `event.delta` of a stream event. -/
structure Delta where
  eventType : String
  type : String
  text : Option Units
  deriving DecidableEq, Repr

structure Message where
  type : String
  delta : Option Delta
  blocks : List Block
  deriving DecidableEq, Repr

inductive Lifecycle where
  | running | completed
  deriving DecidableEq, Repr

structure ToolBlock where
  callId : String
  name : Option Units
  lifecycle : Lifecycle
  failed : Bool
  detail : Option Units
  deriving DecidableEq, Repr

def summarise (toolName : Units) (input : Option (List (String × Units))) : Units :=
  match input with
  | none => toolName
  | some fields =>
    match ["command", "file_path", "path", "url", "pattern"].findSome? (List.lookup · fields) with
    | none => toolName
    | some detail => toolName ++ 58 :: 32 :: detail.take 400

def toolBlock (block : Block) : Option ToolBlock :=
  match block.type with
  | "tool_use" => block.id.map fun id =>
    { callId := id
      name := block.name.map (·.take 128)
      lifecycle := .running
      failed := false
      detail := block.name.map fun name => summarise name block.input }
  | "tool_result" => block.toolUseId.map fun id =>
    { callId := id
      name := none
      lifecycle := .completed
      failed := block.isError
      detail := none }
  | _ => none

def toolBlocks (message : Message) : List ToolBlock := message.blocks.filterMap toolBlock

/-- `deltaText(message.event)` of a stream event; an empty fragment is none. -/
def deltaText (message : Message) : Option Units :=
  if message.type = "stream_event" then
    match message.delta with
    | some ⟨"content_block_delta", "text_delta", some text⟩ => if text = [] then none else some text
    | _ => none
  else none

/-! ### The projection -/

inductive ItemKind where
  | assistant | tool | terminal
  deriving DecidableEq, Repr

inductive Stage where
  | started | updated | completed
  deriving DecidableEq, Repr

inductive Status where
  | running | completed | failed
  deriving DecidableEq, Repr

structure Item where
  kind : ItemKind
  stage : Stage
  nativeId : String
  turnId : String
  status : Option Status
  text : Option Units
  tool : Option Units
  sequence : Nat
  deriving DecidableEq, Repr

structure NativeProjection where
  items : List Item := []
  sequence : Nat := 0
  turnId : Option String := none
  /-- The place of each text, so that a stream of fragments is one item. -/
  textItem : List (String × Nat) := []
  deriving DecidableEq, Repr

def MAX_ITEMS : Nat := 256

def excess (items : List Item) : Nat := items.length - MAX_ITEMS

/-- What is left of the index when so many items are dropped at the front. -/
def shiftIndex (dropped : Nat) (index : List (String × Nat)) : List (String × Nat) :=
  index.filterMap fun entry =>
    if entry.2 < dropped then none else some (entry.1, entry.2 - dropped)

@[grind =]
def appendItem (p : NativeProjection) (item : Item) : NativeProjection :=
  let items := p.items ++ [{ item with sequence := p.sequence + 1 }]
  { p with
    sequence := p.sequence + 1
    items := items.drop (excess items)
    textItem := shiftIndex (excess items) p.textItem }

def MAX_TEXT : Nat := 8192

/-- `text.slice(-8_192)` -/
def lastUnits (text : Units) : Units := text.drop (text.length - MAX_TEXT)

def addText (item : Item) (text : Units) : Item :=
  { item with text := some (lastUnits (item.text.getD [] ++ text)) }

def textKey (turnId : String) : String := turnId ++ ":text"

def textItemOf (turnId : String) (text : Units) : Item :=
  { kind := .assistant, stage := .updated, nativeId := textKey turnId, turnId, status := none,
    text := some text, tool := none, sequence := 0 }

/-- A fragment of the turn's text: a new item, or more of the one the index points at. -/
@[grind =]
def recordText (p : NativeProjection) (turnId : String) (text : Units) : NativeProjection :=
  match p.textItem.lookup (textKey turnId) with
  | none =>
    let next := appendItem p (textItemOf turnId text)
    { next with textItem := next.textItem ++ [(textKey turnId, next.items.length - 1)] }
  | some place => { p with items := p.items.modify place (addText · text) }

def toolItem (turnId : String) (block : ToolBlock) : Item :=
  { kind := .tool
    stage := match block.lifecycle with | .completed => .completed | .running => .started
    nativeId := block.callId
    turnId
    status := some (match block.lifecycle with | .completed => .completed | .running => .running)
    text := block.detail
    tool := block.name
    sequence := 0 }

def recordTool (p : NativeProjection) (turnId : String) (blocks : List ToolBlock) :
    NativeProjection :=
  blocks.foldl (fun p block => appendItem p (toolItem turnId block)) p

def terminalItem (turnId : String) (failed : Bool) : Item :=
  { kind := .terminal, stage := .completed, nativeId := turnId ++ ":end", turnId,
    status := some (if failed then .failed else .completed), text := none, tool := none,
    sequence := 0 }

@[grind =]
def record (p : NativeProjection) (message : Message) (kind : ContentKind) (failed : Bool) :
    NativeProjection :=
  let turnId := p.turnId.getD "unknown"
  match kind with
  | .tool => recordTool p turnId (toolBlocks message)
  | .terminal => appendItem p (terminalItem turnId failed)
  | _ =>
    match deltaText message with
    | none => p
    | some text => recordText p turnId text

/-- What happens to a projection: a turn begins, or the stream brings a message. `failed` is
`isFailureResult(message)`. -/
inductive Event where
  | turn (nativeId : String)
  | message (message : Message) (failed : Bool)

@[grind =]
def step (p : NativeProjection) : Event → NativeProjection
  | .turn nativeId => { p with turnId := some nativeId }
  | .message message failed =>
    match classifySdkMessage message.type with
    | .kind kind => record p message kind failed
    | _ => p

def run (events : List Event) : NativeProjection := events.foldl step {}

/-! ### The index -/

/-- The index holds exactly the places of the listed texts. -/
structure Indexed (p : NativeProjection) : Prop where
  keys : (p.textItem.map Prod.fst).Nodup
  sound : ∀ key place, (key, place) ∈ p.textItem →
    ∃ item, p.items[place]? = some item ∧ item.kind = .assistant ∧ item.nativeId = key
  complete : ∀ place item, p.items[place]? = some item → item.kind = .assistant →
    (item.nativeId, place) ∈ p.textItem

variable {index : List (String × Nat)} {place : Nat} {p : NativeProjection}

variable {dropped : Nat} {key : String}

theorem mem_shiftIndex :
    (key, place) ∈ shiftIndex dropped index ↔ (key, place + dropped) ∈ index := by
  simp only [shiftIndex, List.mem_filterMap, Prod.exists]
  constructor
  · rintro ⟨name, old, hmem, hkept⟩
    split at hkept
    · cases hkept
    · next hold =>
      simp only [Option.some.injEq, Prod.mk.injEq] at hkept
      obtain ⟨rfl, rfl⟩ := hkept
      rwa [Nat.sub_add_cancel (Nat.le_of_not_lt hold)]
  · intro hmem
    exact ⟨key, place + dropped, hmem, by simp⟩

theorem keys_shiftIndex_sublist (dropped : Nat) (index : List (String × Nat)) :
    ((shiftIndex dropped index).map Prod.fst).Sublist (index.map Prod.fst) := by
  induction index with
  | nil => exact List.Sublist.refl _
  | cons entry index ih =>
    rw [shiftIndex, List.filterMap_cons]
    by_cases hdropped : entry.2 < dropped
    · simp only [if_pos hdropped, List.map_cons]
      exact ih.cons _
    · simp only [if_neg hdropped, List.map_cons]
      exact ih.cons_cons _

theorem mem_of_lookup (h : index.lookup key = some place) :
    (key, place) ∈ index := by
  induction index with
  | nil => cases h
  | cons entry index ih =>
    obtain ⟨name, old⟩ := entry
    by_cases hname : key = name
    · subst hname
      rw [List.lookup_cons_self, Option.some.injEq] at h
      rw [h]
      exact List.mem_cons_self
    · rw [List.lookup_cons, beq_false_of_ne hname] at h
      exact List.mem_cons_of_mem _ (ih h)

theorem lookup_of_mem (hkeys : (index.map Prod.fst).Nodup)
    {key : String} {place : Nat} (h : (key, place) ∈ index) : index.lookup key = some place := by
  induction index with
  | nil => cases h
  | cons entry index ih =>
    obtain ⟨name, old⟩ := entry
    rw [List.map_cons, List.nodup_cons] at hkeys
    rcases List.mem_cons.mp h with heq | htail
    · obtain ⟨rfl, rfl⟩ := Prod.mk.inj heq
      exact List.lookup_cons_self
    · have hname : key ≠ name := by
        rintro rfl
        exact hkeys.1 (List.mem_map.mpr ⟨_, htail, rfl⟩)
      rw [List.lookup_cons, beq_false_of_ne hname]
      exact ih hkeys.2 htail

theorem appendItem_items (p : NativeProjection) (item : Item) :
    ∃ dropped, dropped ≤ p.items.length ∧ (appendItem p item).items =
        p.items.drop dropped ++ [{ item with sequence := p.sequence + 1 }] ∧
      (appendItem p item).textItem = shiftIndex dropped p.textItem := by
  have hdropped : excess (p.items ++ [{ item with sequence := p.sequence + 1 }]) ≤
      p.items.length := by
    simp only [excess, List.length_append, List.length_singleton, MAX_ITEMS]
    omega
  refine ⟨_, hdropped, ?_, rfl⟩
  rw [appendItem, List.drop_append_of_le_length hdropped]

theorem getElem?_drop_append {items : List Item} {last item : Item}
    (h : (items.drop dropped ++ [last])[place]? = some item) :
    items[place + dropped]? = some item ∨
      (place = (items.drop dropped).length ∧ item = last) := by
  rcases Nat.lt_trichotomy place (items.drop dropped).length with hlt | heq | hgt
  · rw [List.getElem?_append_left hlt, List.getElem?_drop, Nat.add_comm] at h
    exact Or.inl h
  · subst heq
    rw [List.getElem?_concat_length] at h
    exact Or.inr ⟨rfl, (Option.some.inj h).symm⟩
  · have hlength : (items.drop dropped ++ [last]).length ≤ place := by
      simp only [List.length_append, List.length_singleton]
      omega
    rw [List.getElem?_eq_none hlength] at h
    cases h

theorem sound_shift (h : Indexed p) {dropped : Nat} (last : Item)
    {key : String} {place : Nat} (hmem : (key, place) ∈ shiftIndex dropped p.textItem) :
    ∃ item, (p.items.drop dropped ++ [last])[place]? = some item ∧ item.kind = .assistant ∧
      item.nativeId = key := by
  obtain ⟨item, hitem, hkind, hkey⟩ := h.sound key _ (mem_shiftIndex.mp hmem)
  refine ⟨item, ?_, hkind, hkey⟩
  have hlt := (List.getElem?_eq_some_iff.mp hitem).1
  rw [List.getElem?_append_left (by rw [List.length_drop]; omega), List.getElem?_drop, Nat.add_comm]
  exact hitem

theorem appendItem_indexed (h : Indexed p) {item : Item}
    (hkind : item.kind ≠ .assistant) : Indexed (appendItem p item) := by
  obtain ⟨dropped, -, hitems, hindex⟩ := appendItem_items p item
  refine ⟨?_, ?_, ?_⟩
  · rw [hindex]
    exact h.keys.sublist (keys_shiftIndex_sublist dropped p.textItem)
  · intro key place hmem
    rw [hindex] at hmem
    rw [hitems]
    exact sound_shift h _ hmem
  · intro place other hother hassistant
    rw [hitems] at hother
    rw [hindex, mem_shiftIndex]
    rcases getElem?_drop_append hother with hold | ⟨-, rfl⟩
    · exact h.complete _ other hold hassistant
    · exact absurd hassistant hkind

/-- A turn without a listed text gets one at the end. -/
theorem recordText_new (h : Indexed p) {turnId : String} (text : Units)
    (hnone : p.textItem.lookup (textKey turnId) = none) :
    Indexed (recordText p turnId text) := by
  obtain ⟨dropped, hdropped, hitems, hindex⟩ := appendItem_items p (textItemOf turnId text)
  have habsent : ∀ place, (textKey turnId, place) ∉ p.textItem := by
    intro place hmem
    rw [lookup_of_mem h.keys hmem] at hnone
    cases hnone
  have hlast : (appendItem p (textItemOf turnId text)).items.length - 1 =
      (p.items.drop dropped).length := by
    rw [hitems, List.length_append, List.length_singleton, Nat.add_sub_cancel]
  rw [recordText, hnone]
  refine ⟨?_, ?_, ?_⟩
  · dsimp only
    rw [hindex, List.map_append, List.nodup_append]
    refine ⟨h.keys.sublist (keys_shiftIndex_sublist dropped p.textItem), by simp, ?_⟩
    intro key hkey other hother
    rintro rfl
    obtain rfl : key = textKey turnId := by simpa using hother
    obtain ⟨⟨name, place⟩, hentry, rfl⟩ := List.mem_map.mp hkey
    exact habsent _ (mem_shiftIndex.mp hentry)
  · intro key place hmem
    dsimp only at hmem ⊢
    rw [hindex, hlast] at hmem
    rw [hitems]
    rcases List.mem_append.mp hmem with hold | hnew
    · exact sound_shift h _ hold
    · obtain ⟨rfl, rfl⟩ := Prod.mk.inj (List.mem_singleton.mp hnew)
      exact ⟨_, List.getElem?_concat_length, rfl, rfl⟩
  · intro place other hother hassistant
    dsimp only at hother ⊢
    rw [hitems] at hother
    rw [hindex, hlast, List.mem_append, mem_shiftIndex]
    rcases getElem?_drop_append hother with hold | ⟨rfl, rfl⟩
    · exact Or.inl (h.complete _ other hold hassistant)
    · exact Or.inr (List.mem_singleton.mpr rfl)

theorem recordText_indexed (h : Indexed p) (turnId : String) (text : Units) :
    Indexed (recordText p turnId text) := by
  cases hlookup : p.textItem.lookup (textKey turnId) with
  | none => exact recordText_new h text hlookup
  | some changed =>
    rw [recordText, hlookup]
    refine ⟨h.keys, ?_, ?_⟩
    · intro key place hmem
      obtain ⟨item, hitem, hkind, hkey⟩ := h.sound key place hmem
      dsimp only
      rw [List.getElem?_modify, hitem]
      by_cases hplace : changed = place
      · exact ⟨addText item text, by simp [hplace], hkind, hkey⟩
      · exact ⟨item, by simp [hplace], hkind, hkey⟩
    · intro place other hother hassistant
      dsimp only at hother
      rw [List.getElem?_modify, Option.map_eq_map, Option.map_eq_some_iff] at hother
      obtain ⟨item, hitem, rfl⟩ := hother
      by_cases hplace : changed = place
      · rw [if_pos hplace] at hassistant ⊢
        exact h.complete place item hitem hassistant
      · rw [if_neg hplace] at hassistant ⊢
        exact h.complete place item hitem hassistant

theorem recordTool_indexed (h : Indexed p) (turnId : String)
    (blocks : List ToolBlock) : Indexed (recordTool p turnId blocks) := by
  induction blocks generalizing p with
  | nil => exact h
  | cons block blocks ih =>
    have hkind : (toolItem turnId block).kind ≠ .assistant := by simp [toolItem]
    have hrest := ih (appendItem_indexed h hkind)
    rwa [recordTool, List.foldl_cons, ← recordTool]

theorem step_indexed (h : Indexed p) (event : Event) :
    Indexed (step p event) := by
  cases event with
  | turn nativeId => exact ⟨h.keys, h.sound, h.complete⟩
  | message message failed =>
    rw [step]
    split
    · next kind _ =>
      unfold record
      cases kind with
      | tool => exact recordTool_indexed h _ _
      | terminal => exact appendItem_indexed h (by simp [terminalItem])
      | _ =>
        dsimp only
        split
        · exact h
        · exact recordText_indexed h _ _
    · exact h

theorem run_indexed (events : List Event) : Indexed (run events) := by
  induction events using List.reverseRecOn with
  | nil => exact ⟨List.nodup_nil, nofun, nofun⟩
  | append_singleton events event ih =>
    rw [run, List.foldl_append, List.foldl_cons, List.foldl_nil]
    exact step_indexed ih event

/-! ### A fragment changes one item -/

theorem step_delta (p : NativeProjection) {message : Message} (failed : Bool) {text : Units}
    (h : deltaText message = some text) :
    step p (.message message failed) = recordText p (p.turnId.getD "unknown") text := by
  have htype : message.type = "stream_event" := by
    by_contra htype
    rw [deltaText, if_neg htype] at h
    cases h
  have hkind : classifySdkMessage message.type = .kind .assistant := by
    rw [htype]
    rfl
  rw [step, hkind]
  dsimp only
  unfold record
  simp only [h]

/-- The turn's listed text grows, or a new one is listed: no other item changes. -/
theorem recordText_items (h : Indexed p) (turnId : String) (text : Units) :
    (∃ place item, p.items[place]? = some item ∧ item.kind = .assistant ∧
      item.nativeId = textKey turnId ∧
      (recordText p turnId text).items = p.items.set place (addText item text)) ∨
    ((∀ item ∈ p.items, item.kind = .assistant → item.nativeId ≠ textKey turnId) ∧
      ∃ dropped, (recordText p turnId text).items =
        p.items.drop dropped ++ [{ textItemOf turnId text with sequence := p.sequence + 1 }]) := by
  cases hlookup : p.textItem.lookup (textKey turnId) with
  | none =>
    refine Or.inr ⟨?_, ?_⟩
    · intro item hitem hkind hkey
      obtain ⟨place, hplace⟩ := List.mem_iff_getElem?.mp hitem
      have hlisted := lookup_of_mem h.keys (h.complete place item hplace hkind)
      rw [hkey, hlookup] at hlisted
      cases hlisted
    · obtain ⟨dropped, -, hitems, -⟩ := appendItem_items p (textItemOf turnId text)
      refine ⟨dropped, ?_⟩
      rw [recordText, hlookup]
      dsimp only
      rw [hitems]
  | some place =>
    obtain ⟨item, hitem, hkind, hkey⟩ := h.sound _ place (mem_of_lookup hlookup)
    refine Or.inl ⟨place, item, hitem, hkind, hkey, ?_⟩
    rw [recordText, hlookup]
    dsimp only
    rw [List.modify_eq_set_getElem?, hitem]
    rfl

/-- A turn has at most one listed text, the index points at each of them, and a fragment changes
nothing but the text of its turn. -/
theorem run_texts (events : List Event) :
    (∀ place item, (run events).items[place]? = some item → item.kind = .assistant →
      (run events).textItem.lookup item.nativeId = some place) ∧
    (∀ key place, (run events).textItem.lookup key = some place →
      ∃ item, (run events).items[place]? = some item ∧ item.kind = .assistant ∧
        item.nativeId = key) ∧
    (∀ (i j : Nat) (first second : Item), (run events).items[i]? = some first →
      (run events).items[j]? = some second → first.kind = .assistant →
      second.kind = .assistant → first.nativeId = second.nativeId → i = j) ∧
    ∀ message failed text, deltaText message = some text →
      let turnId := (run events).turnId.getD "unknown"
      let next := step (run events) (.message message failed)
      (∃ place item, (run events).items[place]? = some item ∧ item.kind = .assistant ∧
        item.nativeId = textKey turnId ∧
        next.items = (run events).items.set place (addText item text)) ∨
      ((∀ item ∈ (run events).items, item.kind = .assistant → item.nativeId ≠ textKey turnId) ∧
        ∃ dropped, next.items = (run events).items.drop dropped ++
          [{ textItemOf turnId text with sequence := (run events).sequence + 1 }]) := by
  have hindexed := run_indexed events
  have hpoints : ∀ place item, (run events).items[place]? = some item → item.kind = .assistant →
      (run events).textItem.lookup item.nativeId = some place := by
    intro place item hitem hkind
    exact lookup_of_mem hindexed.keys (hindexed.complete place item hitem hkind)
  refine ⟨hpoints, fun key place h => hindexed.sound key place (mem_of_lookup h), ?_, ?_⟩
  · intro i j first second hi hj hfirst hsecond hkey
    have hplace := hpoints i first hi hfirst
    rw [hkey, hpoints j second hj hsecond] at hplace
    exact (Option.some.inj hplace).symm
  · intro message failed text hdelta
    dsimp only
    rw [step_delta _ failed hdelta]
    exact recordText_items hindexed _ text

def toolResult (callId : String) : Event :=
  .message ⟨"user", none, [⟨"tool_result", none, none, some callId, false, none⟩]⟩ false

/-- Each event of a call is an item of its own, under the id of the call. -/
theorem calls_share_ids : ¬ ∀ events, ((run events).items.map Item.nativeId).Nodup := by
  intro hall
  exact absurd (hall [.turn "t", toolResult "c", toolResult "c"]) (by decide)

end Ccmux.Agent.Claude.Projection
