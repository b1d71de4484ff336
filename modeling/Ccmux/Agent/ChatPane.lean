/- Module: Ccmux/Agent/ChatPane
   source: src/agent/claude/pane.ts (inputBusy, inspectChatPane), src/agent/codex/pane.ts
     (composerLine, composerOccupied, inspectInput)
   digest: When a pane is called deliverable, against what stands in its composer. -/

import Ccmux.Util.Ansi

namespace Ccmux.Agent.ChatPane

open Ccmux.Lib.Text (Chars isSpace trim)
open Ccmux.Util.Ansi

universe u

inductive PaneState where
  | menu | inputBusy | notDrawn | deliverable | queuedInput | working | unknown
  deriving DecidableEq, Repr

/-! ### Lines and marks

The functions read a text by its characters, or a drawn pane by its cells. -/

section
variable {α : Type u} (charOf : α → Option Char)

def isMark (mark : Char) (x : α) : Bool := charOf x == some mark

def linesOf (xs : List α) : List (List α) := xs.splitOnP (isMark charOf '\n')

def lastOf {β : Type u} (count : Nat) (xs : List β) : List β := xs.drop (xs.length - count)

def behind (mark : Char) (line : List α) : List α :=
  (line.dropWhile fun x => !isMark charOf mark x).tail

/-- The rows from the last one on that passes. -/
def lastFrom {β : Type u} (passes : β → Bool) : List β → Option (List β)
  | [] => none
  | row :: rest => (lastFrom passes rest).or (if passes row then some (row :: rest) else none)

/-- What follows the mark in the last line of the tail that has one. -/
def claudeAfter (xs : List α) : Option (List α) :=
  ((lastOf 12 (linesOf charOf xs)).reverse.find? fun line => line.any (isMark charOf '❯')).map
    (behind charOf '❯')

end

/-! ### Claude -/

/-- What is read of the pane without its attributes. -/
structure ClaudeReading where
  atMenu : Chars → Bool
  ready : Chars → Bool

def claudeBusy (styled : Chars) : Bool :=
  match claudeAfter some styled with
  | none => false
  | some after => typedText after != []

def inspectClaude (reading : ClaudeReading) (styled : Chars) : PaneState :=
  let pane := stripAnsi styled
  if reading.atMenu pane then .menu
  else if claudeBusy styled then .inputBusy
  else if reading.ready pane then .deliverable
  else .notDrawn

/-! ### Codex -/

/-- What is read of the pane without its attributes: a menu's title, a turn that is under way, and
the two footers. -/
structure CodexReading where
  menu : Chars → Bool
  working : Chars → Bool
  footer : Chars → Bool
  draftFooter : Chars → Bool

/-- The text behind the sequences at its start. -/
def skipAnsi : Nat → Chars → Chars
  | _, [] => []
  | skip + 1, _ :: rest => skipAnsi skip rest
  | 0, c :: rest =>
    match ansi (c :: rest) with
    | some (n + 1) => skipAnsi n rest
    | _ => c :: rest

/-- `/^\s*(?:\u001b\[[0-9;]*m)*›/` -/
def startsComposer (line : Chars) : Bool :=
  (skipAnsi 0 (line.dropWhile isSpace)).head? == some '›'

def CodexReading.ends (reading : CodexReading) (plain : Chars) : Bool :=
  reading.footer plain || reading.draftFooter plain

def composerLine (reading : CodexReading) (styled : Chars) : Option Chars :=
  match lastFrom startsComposer (lastOf 40 (linesOf some styled)) with
  | some (line :: later) =>
    some (['\n'].intercalate
      (line :: later.takeWhile fun text => !reading.ends (stripAnsi text)))
  | _ => none

def composerOccupied (line : Option Chars) : Bool :=
  match line with
  | none => false
  | some line => typedText (behind some '›' line) != []

def inspectCodex (reading : CodexReading) (inspectActivity : Bool) (styled : Chars) : PaneState :=
  let plain := stripAnsi styled
  let composer := composerLine reading styled
  if reading.menu plain then .menu
  else if inspectActivity && reading.working plain then
    if composerOccupied composer then .queuedInput else .working
  else if trim plain = [] then .notDrawn
  else if composerOccupied composer && reading.ends plain then .inputBusy
  else if composer.isNone || !reading.footer plain then .unknown
  else .deliverable

/-! ### The drawn pane -/

/-- A piece with the attribute it is drawn with. -/
abbrev Cell := Piece × Bool

def draw : Bool → List Piece → List Cell
  | _, [] => []
  | dim, piece :: rest => (piece, dim) :: draw (piece.dim dim) rest

def Cell.char : Cell → Option Char
  | (.char c _, _) => some c
  | (.sgr _ _, _) => none

def Cell.text (cell : Cell) : Chars := cell.1.text

def pieces (cells : List Cell) : List Piece := cells.map Prod.fst

/-- A character that is drawn without the attribute, and is no white space. -/
def Typed (cells : List Cell) : Prop :=
  ∃ c drawn, (Piece.char c drawn, false) ∈ cells ∧ isSpace c = false

/-- A character that no literal run drops, and that is no white space. -/
def Shows (cells : List Cell) : Prop :=
  ∃ front c, Stands (pieces cells) front c ∧ runAfter front = false

def newline : Cell := (.char '\n' (by decide), false)

def isBlank (cell : Cell) : Bool := cell.char.any isSpace

def startsCells (line : List Cell) : Bool :=
  ((line.dropWhile isBlank).dropWhile fun cell => cell.char.isNone).head?.any fun cell =>
    cell.char == some '›'

/-- The composer of a drawn pane, behind its mark. -/
def codexAfter (reading : CodexReading) (cells : List Cell) : Option (List Cell) :=
  match lastFrom startsCells (lastOf 40 (linesOf Cell.char cells)) with
  | some (line :: later) =>
    some (behind Cell.char '›' ([newline].intercalate
      (line :: later.takeWhile fun row => !reading.ends (chars (pieces row)))))
  | _ => none

/-- No pane is deliverable over a text that a person typed. -/
def ClaudeSafe (reading : ClaudeReading) (pane : List Piece) : Prop :=
  inspectClaude reading (render pane) = .deliverable →
    ∀ after, claudeAfter Cell.char (draw false pane) = some after → ¬ Typed after

/-- A text that is typed in a pane without a menu shows outside of the literal runs. -/
def ClaudeSpelled (reading : ClaudeReading) (pane : List Piece) : Prop :=
  reading.atMenu (chars pane) = false → reading.ready (chars pane) = true →
    ∀ after, claudeAfter Cell.char (draw false pane) = some after → Typed after → Shows after

def CodexSafe (reading : CodexReading) (inspectActivity : Bool) (pane : List Piece) : Prop :=
  inspectCodex reading inspectActivity (render pane) = .deliverable →
    ∀ after, codexAfter reading (draw false pane) = some after → ¬ Typed after

/-- A text that is typed in an idle pane with its footer shows outside of the literal runs. -/
def CodexSpelled (reading : CodexReading) (inspectActivity : Bool) (pane : List Piece) : Prop :=
  reading.menu (chars pane) = false →
    (inspectActivity && reading.working (chars pane)) = false →
    reading.footer (chars pane) = true → trim (chars pane) ≠ [] →
    ∀ after, codexAfter reading (draw false pane) = some after → Typed after → Shows after

/-! ### The text of a drawn pane -/

theorem pieces_draw (dim : Bool) (pane : List Piece) : pieces (draw dim pane) = pane := by
  induction pane generalizing dim with
  | nil => rfl
  | cons piece rest ih => exact congrArg (List.cons piece) (ih _)

theorem render_pieces (cells : List Cell) : render (pieces cells) = cells.flatMap Cell.text := by
  rw [render, pieces, List.flatMap_map]
  rfl

theorem render_draw (dim : Bool) (pane : List Piece) :
    render pane = (draw dim pane).flatMap Cell.text := by
  rw [← render_pieces, pieces_draw]

variable {cell : Cell}

variable {c : Char} {β γ : Type u}

theorem text_of_char (h : cell.char = some c) : cell.text = [c] := by
  obtain ⟨piece, dim⟩ := cell
  cases piece with
  | char d drawn =>
    obtain rfl := Option.some.inj h
    rfl
  | sgr params plain => cases h

theorem text_of_sgr (h : cell.char = none) {mark : Char}
    (hmark : mark ∈ ['\n', '❯', '›']) : ∀ c ∈ cell.text, isMark some mark c = false := by
  obtain ⟨piece, dim⟩ := cell
  cases piece with
  | char d drawn => cases h
  | sgr params plain =>
    intro c hc
    have hsequence : c ∈ esc :: '[' :: (params ++ ['m']) := hc
    have hne : c ≠ mark := by
      rintro rfl
      simp only [List.mem_cons, List.mem_append, List.not_mem_nil, or_false] at hmark hsequence
      rcases hsequence with hesc | hbracket | hparam | hlast
      · rcases hmark with rfl | rfl | rfl <;> exact absurd hesc (by decide)
      · rcases hmark with rfl | rfl | rfl <;> exact absurd hbracket (by decide)
      · have hplain := List.all_eq_true.mp plain c hparam
        rcases hmark with rfl | rfl | rfl <;> exact absurd hplain (by decide)
      · rcases hmark with rfl | rfl | rfl <;> exact absurd hlast (by decide)
    simpa [isMark] using hne

theorem isMark_cell (h : cell.char = some c) (mark : Char) :
    isMark Cell.char mark cell = isMark some mark c := by
  rw [isMark, isMark, h]

theorem isMark_sgr (h : cell.char = none) (mark : Char) :
    isMark Cell.char mark cell = false := by
  rw [isMark, h]
  rfl

theorem splitOnP_append {α : Type u} {p : α → Bool} {front : List α} (rest : List α)
    (h : ∀ x ∈ front, p x = false) :
    (front ++ rest).splitOnP p = (rest.splitOnP p).modifyHead (front ++ ·) := by
  induction front with
  | nil =>
    cases hsplit : rest.splitOnP p with
    | nil => simp [hsplit]
    | cons row rows => simp [hsplit]
  | cons x front ih =>
    rw [List.cons_append, List.splitOnP_cons_eq_if_modifyHead, h x List.mem_cons_self,
      if_neg Bool.false_ne_true, ih fun y hy => h y (List.mem_cons_of_mem x hy)]
    cases rest.splitOnP p with
    | nil => rfl
    | cons row rows => rfl

theorem linesOf_text (cells : List Cell) :
    linesOf some (cells.flatMap Cell.text) =
      (linesOf Cell.char cells).map fun row => row.flatMap Cell.text := by
  unfold linesOf
  induction cells with
  | nil => rfl
  | cons cell rest ih =>
    have hhead : ∀ rows : List (List Cell),
        (rows.map fun row => row.flatMap Cell.text).modifyHead (cell.text ++ ·) =
          (rows.modifyHead (cell :: ·)).map fun row => row.flatMap Cell.text := by
      intro rows
      cases rows with
      | nil => rfl
      | cons row rows => rfl
    rw [List.flatMap_cons, List.splitOnP_cons_eq_if_modifyHead]
    cases hchar : cell.char with
    | none =>
      rw [splitOnP_append _ (text_of_sgr hchar (by decide)), ih, isMark_sgr hchar,
        if_neg Bool.false_ne_true, hhead]
    | some c =>
      have htext := text_of_char hchar
      rw [isMark_cell hchar]
      by_cases hmark : isMark some '\n' c = true
      · rw [if_pos hmark, htext, List.singleton_append, List.splitOnP_cons_eq_if_modifyHead,
          if_pos hmark, ih]
        rfl
      · rw [if_neg hmark, splitOnP_append _ (by simpa [htext] using hmark), ih, hhead]

theorem any_text (mark : Char) (hmark : mark ∈ ['\n', '❯', '›']) (row : List Cell) :
    (row.flatMap Cell.text).any (isMark some mark) = row.any (isMark Cell.char mark) := by
  induction row with
  | nil => rfl
  | cons cell rest ih =>
    rw [List.flatMap_cons, List.any_append, ih, List.any_cons]
    congr 1
    cases hchar : cell.char with
    | none =>
      rw [isMark_sgr hchar, List.any_eq_false]
      intro c hc
      rw [text_of_sgr hchar hmark c hc]
      exact Bool.false_ne_true
    | some c => rw [isMark_cell hchar, text_of_char hchar, List.any_cons, List.any_nil, Bool.or_false]

theorem behind_text (mark : Char) (hmark : mark ∈ ['\n', '❯', '›']) (row : List Cell) :
    behind some mark (row.flatMap Cell.text) = (behind Cell.char mark row).flatMap Cell.text := by
  unfold behind
  induction row with
  | nil => rfl
  | cons cell rest ih =>
    rw [List.flatMap_cons, List.dropWhile_cons]
    cases hchar : cell.char with
    | none =>
      have hall : ∀ c ∈ cell.text, (!isMark some mark c) = true := fun c hc => by
        rw [text_of_sgr hchar hmark c hc]
        rfl
      rw [isMark_sgr hchar, List.dropWhile_append_of_pos hall, if_pos (by rfl), ih]
    | some c =>
      rw [isMark_cell hchar, text_of_char hchar, List.singleton_append, List.dropWhile_cons]
      cases isMark some mark c with
      | false => rw [Bool.not_false, if_pos rfl, if_pos rfl, ih]
      | true =>
        rw [Bool.not_true, if_neg Bool.false_ne_true, if_neg Bool.false_ne_true]
        rfl

theorem lastOf_map (f : β → γ) (count : Nat) (rows : List β) :
    lastOf count (rows.map f) = (lastOf count rows).map f := by
  rw [lastOf, lastOf, List.length_map, List.map_drop]

theorem claudeAfter_text (cells : List Cell) :
    claudeAfter some (cells.flatMap Cell.text) =
      (claudeAfter Cell.char cells).map fun row => row.flatMap Cell.text := by
  unfold claudeAfter
  rw [linesOf_text, lastOf_map, ← List.map_reverse, List.find?_map, Option.map_map, Option.map_map]
  have hany : ((fun line : Chars => line.any (isMark some '❯')) ∘ fun row : List Cell =>
      row.flatMap Cell.text) = fun row => row.any (isMark Cell.char '❯') :=
    funext fun row => any_text '❯' (by decide) row
  rw [hany]
  refine congrArg (Option.map · _) (funext fun row => ?_)
  exact behind_text '❯' (by decide) row

theorem lastFrom_map (f : β → γ) (passes : γ → Bool) (rows : List β) :
    lastFrom passes (rows.map f) = (lastFrom (passes ∘ f) rows).map (List.map f) := by
  induction rows with
  | nil => rfl
  | cons row rest ih =>
    rw [List.map_cons, lastFrom, lastFrom, ih, Option.map_or]
    congr 1
    rw [Function.comp_apply]
    split
    · rfl
    · rfl

theorem dropBlanks_text (row : List Cell) :
    (row.flatMap Cell.text).dropWhile isSpace = (row.dropWhile isBlank).flatMap Cell.text := by
  induction row with
  | nil => rfl
  | cons cell rest ih =>
    rw [List.flatMap_cons, List.dropWhile_cons]
    cases hchar : cell.char with
    | none =>
      obtain ⟨piece, dim⟩ := cell
      cases piece with
      | char c drawn => cases hchar
      | sgr params plain =>
        have hblank : isBlank (.sgr params plain, dim) = false := rfl
        have hesc : isSpace esc = false := by decide
        have htext : Cell.text (.sgr params plain, dim) = esc :: '[' :: (params ++ ['m']) := rfl
        rw [hblank, if_neg Bool.false_ne_true, List.flatMap_cons, htext, List.cons_append,
          List.dropWhile_cons, hesc, if_neg Bool.false_ne_true]
    | some c =>
      have hblank : isBlank cell = isSpace c := by rw [isBlank, hchar]; rfl
      rw [hblank, text_of_char hchar, List.singleton_append, List.dropWhile_cons]
      cases isSpace c with
      | true => rw [if_pos rfl, if_pos rfl, ih]
      | false =>
        rw [if_neg Bool.false_ne_true, if_neg Bool.false_ne_true, List.flatMap_cons,
          text_of_char hchar]
        rfl

theorem skipAnsi_append (taken rest : Chars) :
    skipAnsi taken.length (taken ++ rest) = skipAnsi 0 rest := by
  induction taken with
  | nil => rfl
  | cons c taken ih => exact ih

theorem skipAnsi_text (row : List Cell) : skipAnsi 0 (row.flatMap Cell.text) =
    (row.dropWhile fun cell => cell.char.isNone).flatMap Cell.text := by
  induction row with
  | nil => rfl
  | cons cell rest ih =>
    obtain ⟨piece, dim⟩ := cell
    cases piece with
    | char c drawn =>
      have htext : (((Piece.char c drawn, dim) :: rest : List Cell).flatMap Cell.text) =
          c :: rest.flatMap Cell.text := rfl
      rw [htext, skipAnsi, ansi_none drawn]
      rfl
    | sgr params plain =>
      have htext : (((Piece.sgr params plain, dim) :: rest : List Cell).flatMap Cell.text) =
          sequence params ++ rest.flatMap Cell.text := rfl
      have htail : sequence params ++ rest.flatMap Cell.text =
          esc :: (('[' :: (params ++ ['m'])) ++ rest.flatMap Cell.text) := rfl
      have hlength : params.length + 2 = ('[' :: (params ++ ['m'])).length := by simp
      rw [htext, htail, skipAnsi, ← htail, ansi_sequence plain]
      dsimp only
      rw [hlength, skipAnsi_append, ih]
      rfl

theorem startsComposer_text (row : List Cell) :
    startsComposer (row.flatMap Cell.text) = startsCells row := by
  unfold startsComposer startsCells
  rw [dropBlanks_text, skipAnsi_text]
  cases hrow : (row.dropWhile isBlank).dropWhile fun cell => cell.char.isNone with
  | nil => rfl
  | cons cell rest =>
    have hcell : cell.char.isNone = false := by
      have hhead := List.head?_dropWhile_not (fun cell : Cell => cell.char.isNone)
        (row.dropWhile isBlank)
      rw [hrow] at hhead
      simpa using hhead
    obtain ⟨c, hchar⟩ : ∃ c, cell.char = some c := by
      cases hchar : cell.char with
      | none =>
        rw [hchar] at hcell
        cases hcell
      | some c => exact ⟨c, rfl⟩
    rw [List.flatMap_cons, text_of_char hchar]
    show (some c == some '›') = (cell.char == some '›')
    rw [hchar]

theorem join_text (rows : List (List Cell)) :
    ['\n'].intercalate (rows.map fun row => row.flatMap Cell.text) =
      ([newline].intercalate rows).flatMap Cell.text := by
  induction rows with
  | nil => rfl
  | cons row rest ih =>
    cases rest with
    | nil => simp [List.intercalate]
    | cons next more =>
      simp only [List.intercalate, List.map_cons, List.intersperse_cons_cons, List.flatten_cons,
        List.flatMap_append] at ih ⊢
      rw [ih]
      rfl

theorem plain_text (row : List Cell) : stripAnsi (row.flatMap Cell.text) = chars (pieces row) := by
  rw [← render_pieces, stripAnsi_render]

theorem composerLine_text (reading : CodexReading) (cells : List Cell) :
    (composerLine reading (cells.flatMap Cell.text)).map (behind some '›') =
      (codexAfter reading cells).map fun row => row.flatMap Cell.text := by
  have hstarts : (startsComposer ∘ fun row : List Cell => row.flatMap Cell.text) = startsCells :=
    funext startsComposer_text
  unfold composerLine codexAfter
  rw [linesOf_text, lastOf_map, lastFrom_map, hstarts]
  cases hrows : lastFrom startsCells (lastOf 40 (linesOf Cell.char cells)) with
  | none => rfl
  | some rows =>
    cases rows with
    | nil => rfl
    | cons line later =>
      have hends : ((fun text => !reading.ends (stripAnsi text)) ∘ fun row : List Cell =>
          row.flatMap Cell.text) = fun row => !reading.ends (chars (pieces row)) :=
        funext fun row => by rw [Function.comp_apply, plain_text]
      simp only [Option.map_some, List.map_cons, List.takeWhile_map, hends]
      rw [← behind_text '›' (by decide), ← join_text, List.map_cons]

/-! ### What is called deliverable -/

theorem typedText_ne_nil_iff (cells : List Cell) :
    (typedText (cells.flatMap Cell.text) != []) = true ↔ Shows cells := by
  rw [bne_iff_ne, ← render_pieces, ne_eq, typedText_eq_nil_iff]
  constructor
  · intro h
    by_contra hnone
    refine h fun front c hstands => ?_
    by_contra hrun
    exact hnone ⟨front, c, hstands, by simpa using hrun⟩
  · rintro ⟨front, c, hstands, hrun⟩ h
    rw [h front c hstands] at hrun
    cases hrun

theorem claudeBusy_iff (pane : List Piece) : claudeBusy (render pane) = true ↔
    ∃ after, claudeAfter Cell.char (draw false pane) = some after ∧ Shows after := by
  rw [claudeBusy, render_draw false, claudeAfter_text]
  cases claudeAfter Cell.char (draw false pane) with
  | none => simp
  | some after =>
    simp only [Option.map_some, typedText_ne_nil_iff, Option.some.injEq, exists_eq_left']

theorem composerOccupied_iff (reading : CodexReading) (pane : List Piece) :
    composerOccupied (composerLine reading (render pane)) = true ↔
      ∃ after, codexAfter reading (draw false pane) = some after ∧ Shows after := by
  have hcomposer := composerLine_text reading (draw false pane)
  rw [← render_draw] at hcomposer
  cases hline : composerLine reading (render pane) with
  | none =>
    rw [hline] at hcomposer
    have hnone := Option.map_eq_none_iff.mp hcomposer.symm
    simp [composerOccupied, hnone]
  | some line =>
    rw [hline] at hcomposer
    obtain ⟨after, hafter, htext⟩ := Option.map_eq_some_iff.mp hcomposer.symm
    rw [composerOccupied, ← htext, typedText_ne_nil_iff, hafter]
    simp

theorem inspectClaude_deliverable (reading : ClaudeReading) (pane : List Piece) :
    inspectClaude reading (render pane) = .deliverable ↔
      reading.atMenu (chars pane) = false ∧ claudeBusy (render pane) = false ∧
        reading.ready (chars pane) = true := by
  unfold inspectClaude
  dsimp only
  rw [stripAnsi_render]
  cases reading.atMenu (chars pane) with
  | true => simp
  | false =>
    cases claudeBusy (render pane) with
    | true => simp
    | false => cases reading.ready (chars pane) <;> simp

theorem claudeSafe_iff (reading : ClaudeReading) (pane : List Piece) :
    ClaudeSafe reading pane ↔ ClaudeSpelled reading pane := by
  unfold ClaudeSafe ClaudeSpelled
  rw [inspectClaude_deliverable]
  constructor
  · intro h hmenu hready after hafter htyped
    by_contra hhidden
    have hquiet : claudeBusy (render pane) = false := by
      by_contra hbusy
      obtain ⟨after', hafter', hshows⟩ := (claudeBusy_iff pane).mp (by simpa using hbusy)
      obtain rfl := Option.some.inj (hafter.symm.trans hafter')
      exact hhidden hshows
    exact h ⟨hmenu, hquiet, hready⟩ after hafter htyped
  · rintro h ⟨hmenu, hquiet, hready⟩ after hafter htyped
    have hbusy := (claudeBusy_iff pane).mpr ⟨after, hafter, h hmenu hready after hafter htyped⟩
    rw [hquiet] at hbusy
    cases hbusy

theorem inspectCodex_deliverable (reading : CodexReading) (inspectActivity : Bool)
    (pane : List Piece) :
    inspectCodex reading inspectActivity (render pane) = .deliverable ↔
      reading.menu (chars pane) = false ∧
        (inspectActivity && reading.working (chars pane)) = false ∧
        trim (chars pane) ≠ [] ∧ composerOccupied (composerLine reading (render pane)) = false ∧
        (composerLine reading (render pane)).isNone = false ∧
        reading.footer (chars pane) = true := by
  unfold inspectCodex CodexReading.ends
  dsimp only
  rw [stripAnsi_render]
  cases reading.menu (chars pane) with
  | true => simp
  | false =>
    cases inspectActivity && reading.working (chars pane) with
    | true => cases composerOccupied (composerLine reading (render pane)) <;> simp
    | false =>
      by_cases hdrawn : trim (chars pane) = []
      · simp [hdrawn]
      · cases composerOccupied (composerLine reading (render pane)) <;>
          cases reading.footer (chars pane) <;>
          cases (composerLine reading (render pane)).isNone <;>
          cases reading.draftFooter (chars pane) <;> simp [hdrawn]

theorem codexSafe_iff (reading : CodexReading) (inspectActivity : Bool) (pane : List Piece) :
    CodexSafe reading inspectActivity pane ↔ CodexSpelled reading inspectActivity pane := by
  unfold CodexSafe CodexSpelled
  rw [inspectCodex_deliverable]
  constructor
  · intro h hmenu hactivity hfooter hdrawn after hafter htyped
    by_contra hhidden
    have hfree : composerOccupied (composerLine reading (render pane)) = false := by
      by_contra hbusy
      obtain ⟨after', hafter', hshows⟩ := (composerOccupied_iff reading pane).mp (by simpa using hbusy)
      obtain rfl := Option.some.inj (hafter.symm.trans hafter')
      exact hhidden hshows
    have hline : (composerLine reading (render pane)).isNone = false := by
      have hcomposer := composerLine_text reading (draw false pane)
      rw [← render_draw, hafter] at hcomposer
      cases hline : composerLine reading (render pane) with
      | none =>
        rw [hline] at hcomposer
        cases hcomposer
      | some line => rfl
    exact h ⟨hmenu, hactivity, hdrawn, hfree, hline, hfooter⟩ after hafter htyped
  · rintro h ⟨hmenu, hactivity, hdrawn, hfree, -, hfooter⟩ after hafter htyped
    have hbusy := (composerOccupied_iff reading pane).mpr
      ⟨after, hafter, h hmenu hactivity hfooter hdrawn after hafter htyped⟩
    rw [hfree] at hbusy
    cases hbusy

/-- A styled line is read as it is drawn, and no pane is deliverable over a typed text, exactly where
the attribute begins and ends with the sequences that the pattern knows. -/
theorem typed_iff (claude : ClaudeReading) (codex : CodexReading) (inspectActivity : Bool)
    (line pane : List Piece) :
    (LineAgrees line ↔ LineSpelled line) ∧
      (ClaudeSafe claude pane ↔ ClaudeSpelled claude pane) ∧
      (CodexSafe codex inspectActivity pane ↔ CodexSpelled codex inspectActivity pane) :=
  ⟨lineAgrees_iff line, claudeSafe_iff claude pane, codexSafe_iff codex inspectActivity pane⟩

/-- A dim completion, and bold text behind it: the terminal ends one attribute and begins the other
in one sequence. -/
def boldBehindDim : List Piece :=
  [.sgr ['2'] (by decide), .char 'g' (by decide), .sgr ['0', ';', '1'] (by decide),
    .char 'h' (by decide)]

theorem bold_behind_dim_is_dropped :
    typedText (render boldBehindDim) = [] ∧ ¬ LineAgrees boldBehindDim ∧
      ¬ ClaudeSafe ⟨fun _ => false, fun _ => true⟩ (.char '❯' (by decide) :: boldBehindDim) := by
  refine ⟨by decide, fun h => ?_, fun h => ?_⟩
  · have hstands : Stands boldBehindDim (boldBehindDim.take 3) 'h' :=
      ⟨by decide, by decide, [], rfl⟩
    exact absurd (h.kept _ _ hstands (by decide)) (by decide)
  · refine h (by decide) (draw false boldBehindDim) (by rfl) ⟨'h', by decide, ?_, by decide⟩
    exact List.mem_of_getElem? (show (draw false boldBehindDim)[3]? = _ from rfl)

end Ccmux.Agent.ChatPane
