/- Module: Ccmux/Util/Ansi
   source: src/util/ansi.ts
   digest: What is left of a styled line when the literal dim runs are dropped, against what a terminal
     draws without the dim attribute. -/

import Ccmux.Lib.Text
import Mathlib

namespace Ccmux.Util.Ansi

open Ccmux.Lib.Text (Chars isSpace trim trimEnd)

def esc : Char := Char.ofNat 27

/-- `[0-9;]` -/
def isParam (c : Char) : Bool := c.isDigit || c == ';'

/-! ### The patterns -/

/-- What a global `replace` by nothing keeps: which characters are outside of every match. -/
def mask (pattern : Chars → Option Nat) : Nat → Chars → List Bool
  | _, [] => []
  | skip + 1, _ :: rest => false :: mask pattern skip rest
  | 0, c :: rest =>
    match pattern (c :: rest) with
    | some (n + 1) => false :: mask pattern n rest
    | _ => true :: mask pattern 0 rest

def keep (flags : List Bool) (text : Chars) : Chars :=
  (text.zip flags).filterMap fun entry => if entry.2 then some entry.1 else none

def removeAll (pattern : Chars → Option Nat) (text : Chars) : Chars :=
  keep (mask pattern 0 text) text

/-- `ANSI_RE` at the start of a text: how long the match is. -/
def ansi : Chars → Option Nat
  | a :: b :: rest =>
    if a = esc ∧ b = '[' ∧ (rest.dropWhile isParam).head? = some 'm' then
      some ((rest.takeWhile isParam).length + 3)
    else none
  | _ => none

def sequence (params : Chars) : Chars := esc :: '[' :: (params ++ ['m'])

/-- How far a dim run goes behind its start. -/
def runLength : Chars → Nat
  | [] => 0
  | c :: rest =>
    if sequence ['0'] <+: c :: rest then 4
    else if sequence ['2', '2'] <+: c :: rest then 5
    else runLength rest + 1

/-- `DIM_RUN_RE` at the start of a text. -/
def dimRun (text : Chars) : Option Nat :=
  if sequence ['2'] <+: text then some (4 + runLength (text.drop 4)) else none

def stripAnsi (text : Chars) : Chars := removeAll ansi text

/-- What a person actually typed after a composer prompt. -/
def typedText (styled : Chars) : Chars := trim (stripAnsi (removeAll dimRun styled))

/-! ### Styled lines -/

/-- A character that is drawn, or a sequence of attributes. -/
inductive Piece where
  | char (c : Char) (drawn : c ≠ esc)
  | sgr (params : Chars) (plain : params.all isParam = true)

def Piece.text : Piece → Chars
  | .char c _ => [c]
  | .sgr params _ => sequence params

def render (line : List Piece) : Chars := line.flatMap Piece.text

def numberOf (digits : Chars) : Nat := digits.foldl (fun n c => 10 * n + (c.toNat - 48)) 0

/-- How many parameters of a colour follow. -/
def colourLength : List Nat → Nat
  | 5 :: _ => 2
  | 2 :: _ => 4
  | _ => 0

/-- The dim attribute behind the parameters; those of a colour are skipped. -/
def applySgr : Nat → List Nat → Bool → Bool
  | _, [], dim => dim
  | skip + 1, _ :: rest, dim => applySgr skip rest dim
  | 0, n :: rest, dim =>
    if n = 38 ∨ n = 48 then applySgr (colourLength rest) rest dim
    else applySgr 0 rest (if n = 2 then true else if n = 0 ∨ n = 22 then false else dim)

/-- The attribute of the terminal; an empty list is a reset. -/
def Piece.dim (dim : Bool) : Piece → Bool
  | .char _ _ => dim
  | .sgr params _ => applySgr 0 ((params.splitOn ';').map numberOf) dim

def dimAfter (line : List Piece) : Bool := line.foldl Piece.dim false

/-- A run is opened by the one sequence with the parameter 2, and closed by those with 0 or 22. -/
def Piece.run (run : Bool) : Piece → Bool
  | .char _ _ => run
  | .sgr params _ => if run then params != ['0'] && params != ['2', '2'] else params == ['2']

def runAfter (line : List Piece) : Bool := line.foldl Piece.run false

/-- The character is drawn behind this part of the line, and is no white space. -/
def Stands (line front : List Piece) (c : Char) : Prop :=
  isSpace c = false ∧ ∃ drawn back, line = front ++ .char c drawn :: back

/-- What is expected of a line: it counts as empty just if all that is drawn without the attribute
is white space, and no other character drawn so is dropped. -/
structure LineAgrees (line : List Piece) : Prop where
  empty : typedText (render line) = [] ↔ ∀ front c, Stands line front c → dimAfter front = true
  kept : ∀ front c, Stands line front c → dimAfter front = false →
    (mask dimRun 0 (render line))[(render front).length]? = some true

/-- No character stands in an open run after the attribute has ended; and if one is drawn dim outside
of the runs, some other one is drawn without the attribute. -/
structure LineSpelled (line : List Piece) : Prop where
  hidden : ∀ front c, Stands line front c → runAfter front = true → dimAfter front = true
  shown : (∃ front c, Stands line front c ∧ runAfter front = false ∧ dimAfter front = true) →
    ∃ front c, Stands line front c ∧ dimAfter front = false

/-! ### The patterns on a rendered line -/

section
variable {pattern : Chars → Option Nat}

theorem mask_skip (taken rest : Chars) (more : Nat) :
    mask pattern (taken.length + more) (taken ++ rest) =
      List.replicate taken.length false ++ mask pattern more rest := by
  induction taken with
  | nil => rw [List.length_nil, Nat.zero_add]; rfl
  | cons c taken ih =>
    rw [List.length_cons, Nat.add_right_comm, List.cons_append, mask, ih]
    rfl

theorem mask_free {taken : Chars} (rest : Chars)
    (h : ∀ c ∈ taken, ∀ more, pattern (c :: more) = none) :
    mask pattern 0 (taken ++ rest) = List.replicate taken.length true ++ mask pattern 0 rest := by
  induction taken with
  | nil => rfl
  | cons c taken ih =>
    rw [List.cons_append, mask, h c List.mem_cons_self]
    dsimp only
    rw [ih fun d hd => h d (List.mem_cons_of_mem c hd)]
    rfl

theorem keep_append {flags : List Bool} {text : Chars} (h : text.length = flags.length)
    (moreFlags : List Bool) (more : Chars) :
    keep (flags ++ moreFlags) (text ++ more) = keep flags text ++ keep moreFlags more := by
  rw [keep, List.zip_append h, List.filterMap_append]
  rfl

theorem keep_true (text : Chars) : keep (List.replicate text.length true) text = text := by
  induction text with
  | nil => rfl
  | cons c rest ih =>
    rw [List.length_cons, List.replicate_succ]
    exact congrArg (List.cons c) ih

theorem keep_false (text : Chars) : keep (List.replicate text.length false) text = [] := by
  induction text with
  | nil => rfl
  | cons c rest ih => exact ih

end

theorem not_param_m : isParam 'm' = false := by decide

variable {params : Chars} {c : Char}

theorem params_end (h : params.all isParam = true) (rest : Chars) :
    (params ++ 'm' :: rest).takeWhile isParam = params ∧
      (params ++ 'm' :: rest).dropWhile isParam = 'm' :: rest := by
  have hall : ∀ c ∈ params, isParam c = true := List.all_eq_true.mp h
  rw [List.takeWhile_append_of_pos hall, List.dropWhile_append_of_pos hall]
  simp [not_param_m]

theorem sequence_starts {other : Chars} (h : params.all isParam = true)
    (hother : other.all isParam = true) (rest : Chars) :
    sequence other <+: sequence params ++ rest ↔ params = other := by
  constructor
  · rintro ⟨more, hmore⟩
    simp only [sequence, List.cons_append, List.append_assoc, List.nil_append, List.cons.injEq,
      true_and] at hmore
    have htake := congrArg (List.takeWhile isParam) hmore
    rw [(params_end hother more).1, (params_end h rest).1] at htake
    exact htake.symm
  · rintro rfl
    exact List.prefix_append _ _

theorem not_starts (hc : c ≠ esc) (params rest : Chars) :
    ¬ sequence params <+: c :: rest := by
  rintro ⟨more, hmore⟩
  exact hc (List.cons.inj hmore).1.symm

theorem dimRun_none (hc : c ≠ esc) (rest : Chars) : dimRun (c :: rest) = none :=
  if_neg (not_starts hc _ _)

theorem ansi_none (hc : c ≠ esc) (rest : Chars) : ansi (c :: rest) = none := by
  cases rest with
  | nil => rfl
  | cons d rest => exact if_neg fun h => hc h.1

theorem ansi_sequence (h : params.all isParam = true) (rest : Chars) :
    ansi (sequence params ++ rest) = some (params.length + 2 + 1) := by
  have hends := params_end h rest
  have htext : sequence params ++ rest = esc :: '[' :: (params ++ 'm' :: rest) := by
    simp [sequence]
  rw [htext, ansi, if_pos ⟨rfl, rfl, by rw [hends.2]; rfl⟩, hends.1]

theorem runLength_cons (hc : c ≠ esc) (rest : Chars) :
    runLength (c :: rest) = runLength rest + 1 := by
  rw [runLength, if_neg (not_starts hc _ _), if_neg (not_starts hc _ _)]

theorem runLength_append {taken : Chars} (h : ∀ c ∈ taken, c ≠ esc) (rest : Chars) :
    runLength (taken ++ rest) = taken.length + runLength rest := by
  induction taken with
  | nil => rw [List.length_nil, Nat.zero_add]; rfl
  | cons c taken ih =>
    rw [List.cons_append, runLength_cons (h c List.mem_cons_self),
      ih fun d hd => h d (List.mem_cons_of_mem c hd), List.length_cons]
    omega

theorem sequence_tail (h : params.all isParam = true) :
    ∀ c ∈ '[' :: (params ++ ['m']), c ≠ esc := by
  intro c hc
  rcases List.mem_cons.mp hc with rfl | hc
  · decide
  rcases List.mem_append.mp hc with hparam | hlast
  · rintro rfl
    exact absurd (List.all_eq_true.mp h esc hparam) (by decide)
  · rw [List.mem_singleton.mp hlast]
    decide

/-- The flags of a line, piece by piece, in or out of a run. -/
def pieceMask : Bool → List Piece → List Bool
  | _, [] => []
  | run, piece :: rest =>
    List.replicate piece.text.length (!(run || piece.run run)) ++ pieceMask (piece.run run) rest

/-- The pattern drops what stands in the literal runs. -/
theorem mask_render (run : Bool) (line : List Piece) :
    mask dimRun (if run then runLength (render line) else 0) (render line) = pieceMask run line := by
  induction line generalizing run with
  | nil => cases run <;> rfl
  | cons piece rest ih =>
    have hrender : render (piece :: rest) = piece.text ++ render rest := rfl
    rw [hrender, pieceMask]
    cases piece with
    | char c drawn =>
      have htext : (Piece.char c drawn).text = [c] := rfl
      rw [htext]
      cases run with
      | false =>
        rw [if_neg Bool.false_ne_true, mask_free _ fun d hd more => by
          rw [List.mem_singleton.mp hd]
          exact dimRun_none drawn more]
        exact congrArg _ (ih false)
      | true =>
        rw [if_pos rfl, runLength_append (fun d hd => by
          rw [List.mem_singleton.mp hd]
          exact drawn), mask_skip]
        exact congrArg _ (ih true)
    | sgr params plain =>
      have htext : (Piece.sgr params plain).text = sequence params := rfl
      have htail : sequence params = esc :: ('[' :: (params ++ ['m'])) := rfl
      rw [htext]
      cases run with
      | false =>
        rw [if_neg Bool.false_ne_true]
        by_cases hopen : params = ['2']
        · subst hopen
          have hmatch : dimRun (sequence ['2'] ++ render rest) =
              some (3 + runLength (render rest) + 1) := by
            rw [dimRun, if_pos (List.prefix_append _ _)]
            have hdrop : (sequence ['2'] ++ render rest).drop 4 = render rest := rfl
            rw [hdrop]
            congr 1
            omega
          have hmask := @mask_skip dimRun ['[', '2', 'm'] (render rest)
            (runLength (render rest))
          have hcons : sequence ['2'] ++ render rest = esc :: (['[', '2', 'm'] ++ render rest) := rfl
          rw [hcons, mask, ← hcons, hmatch]
          dsimp only
          rw [show 3 = ['[', '2', 'm'].length from rfl, hmask]
          exact congrArg (List.replicate 4 false ++ ·) (ih true)
        · have hmatch : dimRun (sequence params ++ render rest) = none :=
            if_neg fun h => hopen ((sequence_starts plain (by decide) _).mp h)
          have hstays : Piece.run false (.sgr params plain) = false := by
            simpa [Piece.run] using hopen
          have hcons : sequence params ++ render rest =
            esc :: ('[' :: (params ++ ['m']) ++ render rest) := rfl
          rw [hcons, mask, ← hcons, hmatch, hstays]
          dsimp only
          rw [mask_free _ fun d hd more => dimRun_none (sequence_tail plain d hd) more]
          exact congrArg (List.replicate (sequence params).length true ++ ·) (ih false)
      | true =>
        rw [if_pos rfl]
        by_cases hclose : params = ['0'] ∨ params = ['2', '2']
        · have hlength : runLength (sequence params ++ render rest) =
              (sequence params).length + 0 := by
            rcases hclose with rfl | rfl
            · have hhead : sequence ['0'] <+: sequence ['0'] ++ render rest :=
                List.prefix_append _ _
              exact if_pos hhead
            · have hnot : ¬ sequence ['0'] <+: sequence ['2', '2'] ++ render rest := fun h =>
                absurd ((sequence_starts (by decide) (by decide) _).mp h) (by decide)
              have hhead : sequence ['2', '2'] <+: sequence ['2', '2'] ++ render rest :=
                List.prefix_append _ _
              exact (if_neg hnot).trans (if_pos hhead)
          have hends : Piece.run true (.sgr params plain) = false := by
            rcases hclose with rfl | rfl <;> rfl
          rw [hlength, mask_skip, hends]
          exact congrArg _ (ih false)
        · rw [not_or] at hclose
          have hlength : runLength (sequence params ++ render rest) =
              (sequence params).length + runLength (render rest) := by
            have hzero : ¬ sequence ['0'] <+: sequence params ++ render rest := fun h =>
              hclose.1 ((sequence_starts plain (by decide) _).mp h)
            have htwo : ¬ sequence ['2', '2'] <+: sequence params ++ render rest := fun h =>
              hclose.2 ((sequence_starts plain (by decide) _).mp h)
            have hstep : runLength (sequence params ++ render rest) =
                runLength ('[' :: (params ++ ['m']) ++ render rest) + 1 :=
              (if_neg hzero).trans (if_neg htwo)
            rw [hstep, runLength_append (sequence_tail plain), htail]
            simp only [List.length_cons]
            omega
          have hstays : Piece.run true (.sgr params plain) = true := by
            simp [Piece.run, hclose.1, hclose.2]
          rw [hlength, mask_skip, hstays]
          exact congrArg _ (ih true)

/-! ### What is left of a line -/

/-- The pieces outside of the literal runs. -/
def outside : Bool → List Piece → List Piece
  | _, [] => []
  | run, piece :: rest =>
    if run || piece.run run then outside (piece.run run) rest
    else piece :: outside (piece.run run) rest

def chars : List Piece → Chars
  | [] => []
  | .char c _ :: rest => c :: chars rest
  | .sgr _ _ :: rest => chars rest

theorem keep_pieceMask (run : Bool) (line : List Piece) :
    keep (pieceMask run line) (render line) = render (outside run line) := by
  induction line generalizing run with
  | nil => rfl
  | cons piece rest ih =>
    have hrender : ∀ more, render (piece :: more) = piece.text ++ render more := fun _ => rfl
    rw [pieceMask, hrender, keep_append (List.length_replicate).symm, ih, outside]
    cases run || piece.run run with
    | false =>
      rw [Bool.not_false, keep_true, if_neg Bool.false_ne_true, hrender]
    | true =>
      rw [Bool.not_true, keep_false, if_pos rfl, List.nil_append]

theorem removeAll_dimRun (line : List Piece) :
    removeAll dimRun (render line) = render (outside false line) := by
  have hmask := mask_render false line
  rw [if_neg Bool.false_ne_true] at hmask
  rw [removeAll, hmask, keep_pieceMask]

/-- `ANSI_RE` takes the sequences away, and nothing else. -/
theorem stripAnsi_render (line : List Piece) : stripAnsi (render line) = chars line := by
  unfold stripAnsi removeAll
  induction line with
  | nil => rfl
  | cons piece rest ih =>
    have hrender : render (piece :: rest) = piece.text ++ render rest := rfl
    rw [hrender]
    cases piece with
    | char c drawn =>
      have htext : (Piece.char c drawn).text = [c] := rfl
      have hfree : ∀ d ∈ [c], ∀ more, ansi (d :: more) = none := fun d hd more => by
        rw [List.mem_singleton.mp hd]
        exact ansi_none drawn more
      rw [htext, mask_free _ hfree, keep_append (List.length_replicate).symm, keep_true, ih]
      rfl
    | sgr params plain =>
      have htext : (Piece.sgr params plain).text = sequence params := rfl
      have htail : sequence params ++ render rest =
          esc :: (('[' :: (params ++ ['m'])) ++ render rest) := rfl
      have hlength : params.length + 2 = ('[' :: (params ++ ['m'])).length + 0 := by simp
      have hflags : mask ansi 0 (sequence params ++ render rest) =
          List.replicate (sequence params).length false ++ mask ansi 0 (render rest) := by
        rw [htail, mask, ← htail, ansi_sequence plain]
        dsimp only
        rw [hlength, mask_skip]
        rfl
      rw [htext, hflags, keep_append (List.length_replicate).symm, keep_false, ih]
      rfl

theorem trim_eq_nil {text : Chars} : trim text = [] ↔ ∀ c ∈ text, isSpace c = true := by
  have hback : ∀ more : Chars, trimEnd more = [] ↔ ∀ c ∈ more, isSpace c = true := by
    intro more
    simp [trimEnd, List.dropWhile_eq_nil_iff]
  rw [trim, hback]
  constructor
  · intro h c hc
    rw [← List.takeWhile_append_dropWhile (p := isSpace) (l := text)] at hc
    rcases List.mem_append.mp hc with hfront | hrest
    · exact List.mem_takeWhile_imp hfront
    · exact h c hrest
  · intro h c hc
    exact h c ((List.dropWhile_sublist isSpace).mem hc)

theorem typedText_eq_nil (line : List Piece) :
    typedText (render line) = [] ↔ ∀ c ∈ chars (outside false line), isSpace c = true := by
  rw [typedText, removeAll_dimRun, stripAnsi_render, trim_eq_nil]

theorem place_cons {P : List Piece → Prop} {piece : Piece} {rest : List Piece} :
    (∃ front drawn back, piece :: rest = front ++ .char c drawn :: back ∧ P front) ↔
      (∃ drawn, piece = .char c drawn ∧ P []) ∨
        ∃ front drawn back, rest = front ++ .char c drawn :: back ∧ P (piece :: front) := by
  constructor
  · rintro ⟨front, drawn, back, hline, hplace⟩
    cases front with
    | nil => exact .inl ⟨drawn, (List.cons.inj hline).1, hplace⟩
    | cons first front =>
      rw [List.cons_append] at hline
      obtain ⟨rfl, hrest⟩ := List.cons.inj hline
      exact .inr ⟨front, drawn, back, hrest, hplace⟩
  · rintro (⟨drawn, rfl, hplace⟩ | ⟨front, drawn, back, rfl, hplace⟩)
    · exact ⟨[], drawn, rest, rfl, hplace⟩
    · exact ⟨piece :: front, drawn, back, rfl, hplace⟩

/-- The characters that are left, by their places in the line. -/
theorem mem_outside {run : Bool} {line : List Piece} :
    c ∈ chars (outside run line) ↔ ∃ front drawn back,
      line = front ++ .char c drawn :: back ∧ front.foldl Piece.run run = false := by
  induction line generalizing run with
  | nil => simp [outside, chars]
  | cons piece rest ih =>
    rw [place_cons, outside]
    simp only [List.foldl_cons, List.foldl_nil]
    rw [← ih]
    cases piece with
    | char d drawn =>
      have hkeeps : Piece.run run (.char d drawn) = run := rfl
      rw [hkeeps, Bool.or_self]
      cases run with
      | false =>
        rw [if_neg Bool.false_ne_true, chars, List.mem_cons]
        refine or_congr_left ⟨?_, ?_⟩
        · rintro rfl
          exact ⟨drawn, rfl, rfl⟩
        · rintro ⟨other, hpiece, -⟩
          exact (Piece.char.inj hpiece).symm
      | true =>
        rw [if_pos rfl]
        simp
    | sgr params plain =>
      have hnone : ∀ kept : List Piece, (c ∈ chars (if (run || Piece.run run (.sgr params plain)) = true
          then kept else .sgr params plain :: kept)) ↔ c ∈ chars kept := by
        intro kept
        split
        · exact Iff.rfl
        · exact Iff.rfl
      rw [hnone]
      simp

theorem typedText_eq_nil_iff (line : List Piece) : typedText (render line) = [] ↔
    ∀ front c, Stands line front c → runAfter front = true := by
  rw [typedText_eq_nil]
  constructor
  · rintro h front c ⟨hvisible, drawn, back, hline⟩
    by_contra hopen
    have hleft := h c (mem_outside.mpr ⟨front, drawn, back, hline, by simpa [runAfter] using hopen⟩)
    rw [hvisible] at hleft
    cases hleft
  · intro h c hc
    obtain ⟨front, drawn, back, hline, hrun⟩ := mem_outside.mp hc
    by_contra hvisible
    have hopen := h front c ⟨by simpa using hvisible, drawn, back, hline⟩
    rw [runAfter, hrun] at hopen
    cases hopen

theorem mask_place (front back : List Piece) {c : Char} (drawn : c ≠ esc) :
    (mask dimRun 0 (render (front ++ .char c drawn :: back)))[(render front).length]? =
      some !(runAfter front) := by
  have hsplit : ∀ run (front : List Piece),
      (pieceMask run (front ++ .char c drawn :: back))[(render front).length]? =
        some !(front.foldl Piece.run run) := by
    intro run front
    induction front generalizing run with
    | nil =>
      have hflags : pieceMask run (.char c drawn :: back) =
          (!(run || run)) :: pieceMask run back := rfl
      rw [List.nil_append, hflags, Bool.or_self]
      rfl
    | cons piece rest ih =>
      have hrender : render (piece :: rest) = piece.text ++ render rest := rfl
      rw [List.cons_append, pieceMask, hrender, List.length_append,
        List.getElem?_append_right (by rw [List.length_replicate]; omega), List.length_replicate,
        Nat.add_sub_cancel_left, ih]
      rfl
  have hmask := mask_render false (front ++ .char c drawn :: back)
  rw [if_neg Bool.false_ne_true] at hmask
  rw [hmask, hsplit]
  rfl

/-- A line is read as it is drawn exactly where its runs are spelled as the pattern has them. -/
theorem lineAgrees_iff (line : List Piece) : LineAgrees line ↔ LineSpelled line := by
  have hkept : ∀ front c, Stands line front c →
      ((mask dimRun 0 (render line))[(render front).length]? = some true ↔
        runAfter front = false) := by
    rintro front c ⟨-, drawn, back, rfl⟩
    rw [mask_place]
    simp
  constructor
  · intro h
    refine ⟨?_, ?_⟩
    · intro front c hstands hrun
      by_contra hdim
      have hflag := (hkept front c hstands).mp (h.kept front c hstands (by simpa using hdim))
      rw [hrun] at hflag
      cases hflag
    · rintro ⟨front, c, hstands, hrun, -⟩
      by_contra hnone
      have hempty : typedText (render line) = [] := h.empty.mpr fun front' c' hstands' => by
        by_contra hdim
        exact hnone ⟨front', c', hstands', by simpa using hdim⟩
      have hopen := (typedText_eq_nil_iff line).mp hempty front c hstands
      rw [hrun] at hopen
      cases hopen
  · intro h
    refine ⟨?_, ?_⟩
    · rw [typedText_eq_nil_iff]
      constructor
      · intro hrun front c hstands
        exact h.hidden front c hstands (hrun front c hstands)
      · intro hdim front c hstands
        by_contra hclosed
        obtain ⟨front', c', hstands', hplain⟩ :=
          h.shown ⟨front, c, hstands, by simpa using hclosed, hdim front c hstands⟩
        rw [hdim front' c' hstands'] at hplain
        cases hplain
    · intro front c hstands hdim
      refine (hkept front c hstands).mpr ?_
      by_contra hopen
      rw [h.hidden front c hstands (by simpa using hopen)] at hdim
      cases hdim

end Ccmux.Util.Ansi
