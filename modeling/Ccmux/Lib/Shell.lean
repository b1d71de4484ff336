/- Module: Ccmux/Lib/Shell
   digest: The words a POSIX shell reads of a simple command, as long as nothing in it is expanded;
     and which texts it reads back as the words they were spliced as. -/

import Mathlib

namespace Ccmux.Lib.Shell

abbrev Chars := List Char

inductive Mode where
  | plain | escaped | single | double | doubleEscaped
  deriving DecidableEq, Repr

def isBlank (c : Char) : Bool := c == ' ' || c == '\t'

/-- Outside of quotes: an operator, an expansion, or a pattern that depends on the directory. -/
def isActive (c : Char) : Bool :=
  c ∈ ['|', '&', ';', '<', '>', '(', ')', '$', '`', '\n', '*', '?', '[']

/-- At the head of a word: a comment, a home directory. -/
def isLeading (c : Char) : Bool := c == '#' || c == '~'

def isQuote (c : Char) : Bool := c == '\'' || c == '"' || c == '\\'

/-- What stands for itself outside of quotes. -/
def isPlain (c : Char) : Bool := !isBlank c && !isQuote c && !isActive c

/-- Adds a character to the word that is being read. -/
@[grind =]
def put (cur : Option Chars) (c : Char) : Option Chars := some (cur.getD [] ++ [c])

/-- The words of the rest of a line; `none` is an open quote, an operator or an expansion. -/
@[grind =]
def words : Mode → Option Chars → Chars → Option (List Chars)
  | .plain, cur, [] => some cur.toList
  | .escaped, _, [] => none
  | .single, _, [] => none
  | .double, _, [] => none
  | .doubleEscaped, _, [] => none
  | .plain, cur, c :: rest =>
    if isBlank c then (words .plain none rest).map (cur.toList ++ ·)
    else if c = '\'' then words .single (some (cur.getD [])) rest
    else if c = '"' then words .double (some (cur.getD [])) rest
    else if c = '\\' then words .escaped cur rest
    else if isActive c || (cur.isNone && isLeading c) then none
    else words .plain (put cur c) rest
  | .escaped, cur, c :: rest =>
    -- a line that is continued
    if c = '\n' then words .plain cur rest else words .plain (put cur c) rest
  | .single, cur, c :: rest =>
    if c = '\'' then words .plain cur rest else words .single (put cur c) rest
  | .double, cur, c :: rest =>
    if c = '"' then words .plain cur rest
    else if c = '\\' then words .doubleEscaped cur rest
    else if c ∈ ['$', '`'] then none
    else words .double (put cur c) rest
  | .doubleEscaped, cur, c :: rest =>
    if c = '\n' then words .double cur rest
    else if c ∈ ['$', '`', '"', '\\'] then words .double (put cur c) rest
    else words .double (put (put cur '\\') c) rest

def shellWords (line : Chars) : Option (List Chars) := words .plain none line

@[grind =]
def plainWord (w : Chars) : Bool := w.all isPlain && w.head?.any fun c => !isLeading c

/-- A text that stands for itself between double quotes. -/
def isQuotable (body : Chars) : Bool := body.all fun c => c ∉ ['"', '\\', '$', '`']

/-! ### What is read is what is there -/

/-- What the reader holds: the word, and a backslash that may stay. -/
@[grind =]
def held (mode : Mode) (cur : Option Chars) : Chars :=
  cur.getD [] ++ if mode = .doubleEscaped then ['\\'] else []

theorem countP_words (p : Char → Bool) {mode : Mode} {cur : Option Chars} {input : Chars}
    {ws : List Chars} (h : words mode cur input = some ws) :
    ws.flatten.countP p ≤ (held mode cur).countP p + input.countP p := by
  fun_induction words mode cur input generalizing ws with
  | case1 cur =>
    obtain rfl := Option.some.inj h
    cases cur <;> simp [held]
  | case2 | case3 | case4 | case5 | case10 | case18 => cases h
  | case6 cur c rest hblank ih =>
    obtain ⟨more, hmore, rfl⟩ := Option.map_eq_some_iff.mp h
    have hrest := ih hmore
    cases cur <;> simp [held, List.countP_append, List.countP_cons] at hrest ⊢ <;> omega
  | _ =>
    rename_i ih
    have hrest := ih h
    simp [held, put, List.countP_append, List.countP_cons] at hrest ⊢
    omega

variable {mode : Mode} {cur : Option Chars} {input w : Chars} {ws : List Chars}

theorem blanks_words (h : words mode cur input = some ws) :
    ws.length + ws.flatten.countP isBlank ≤
      1 + (held mode cur).countP isBlank + input.countP isBlank := by
  fun_induction words mode cur input generalizing ws with
  | case1 cur =>
    obtain rfl := Option.some.inj h
    cases cur <;> simp [held]
  | case2 | case3 | case4 | case5 | case10 | case18 => cases h
  | case6 cur c rest hblank ih =>
    obtain ⟨more, hmore, rfl⟩ := Option.map_eq_some_iff.mp h
    have hrest := ih hmore
    cases cur <;> simp [held, List.countP_append, hblank] at hrest ⊢ <;> omega
  | _ =>
    rename_i ih
    have hrest := ih h
    simp [held, put, List.countP_append, List.countP_cons] at hrest ⊢
    omega

/-- The reader has taken this character away somewhere. -/
@[grind =]
def Loses (c : Char) (mode : Mode) (cur : Option Chars) (input : Chars) (ws : List Chars) : Prop :=
  ws.flatten.count c < (held mode cur).count c + input.count c

/-- A double quote is kept only behind a backslash or between single quotes, which are taken away. -/
theorem count_quote_words (hmode : mode = .plain ∨ mode = .double ∨ mode = .doubleEscaped)
    (h : words mode cur input = some ws) :
    Loses '\'' mode cur input ws ∨ Loses '\\' mode cur input ws ∨
      ws.flatten.count '"' ≤ (cur.getD []).count '"' := by
  fun_induction words mode cur input generalizing ws with
  | case1 cur =>
    obtain rfl := Option.some.inj h
    refine Or.inr (Or.inr ?_)
    cases cur <;> simp
  | case2 | case3 | case4 | case5 | case10 | case18 => cases h
  | case6 cur c rest hblank ih =>
    obtain ⟨more, hmore, rfl⟩ := Option.map_eq_some_iff.mp h
    have hrest := ih (Or.inl rfl) hmore
    cases cur <;>
      simp [Loses, held, List.count_append, List.count_cons] at hrest ⊢ <;> omega
  | case7 cur rest =>
    -- the quotes themselves are taken away
    have hcount := countP_words (· == '\'') h
    refine Or.inl ?_
    simp [Loses, held, List.count] at hcount ⊢
    omega
  | case8 cur rest hblank hsingle ih =>
    have hrest := ih (Or.inr (Or.inl rfl)) h
    simp [Loses, held] at hrest ⊢
    omega
  | case9 cur rest =>
    have hcount := countP_words (· == '\\') h
    refine Or.inr (Or.inl ?_)
    simp [Loses, held, List.count] at hcount ⊢
    omega
  | case11 cur c rest hblank hsingle hdouble hback hplain ih =>
    have hrest := ih (Or.inl rfl) h
    simp [Loses, held, put, List.count_append, List.count_cons, hdouble] at hrest ⊢
    omega
  | case12 | case13 | case14 | case15 => simp at hmode
  | case16 cur rest ih =>
    have hrest := ih (Or.inl rfl) h
    simp [Loses, held] at hrest ⊢
    omega
  | case17 cur rest hdouble ih =>
    have hrest := ih (Or.inr (Or.inr rfl)) h
    simp [Loses, held, List.count_append] at hrest ⊢
    omega
  | case19 cur c rest hdouble hback hactive ih =>
    have hrest := ih (Or.inr (Or.inl rfl)) h
    simp [Loses, held, put, List.count_append, List.count_cons, hdouble] at hrest ⊢
    omega
  | case20 cur rest =>
    have hcount := countP_words (· == '\\') h
    refine Or.inr (Or.inl ?_)
    simp [Loses, held, List.count, List.countP_append] at hcount ⊢
    omega
  | case21 cur c rest =>
    have hcount := countP_words (· == '\\') h
    refine Or.inr (Or.inl ?_)
    simp [Loses, held, put, List.count, List.countP_append, List.countP_cons] at hcount ⊢
    omega
  | case22 cur c rest hline hkept ih =>
    have hdouble : c ≠ '"' := fun hc => hkept (by simp [hc])
    have hrest := ih (Or.inr (Or.inl rfl)) h
    simp [Loses, held, put, List.count_append, List.count_cons, hdouble] at hrest ⊢
    omega

/-! ### Words without quotes -/

theorem isPlain_iff {c : Char} : isPlain c = true ↔
    isBlank c = false ∧ (c ≠ '\'' ∧ c ≠ '"' ∧ c ≠ '\\') ∧ isActive c = false := by
  simp [isPlain, isQuote, and_assoc]

theorem words_plain (hw : w.all isPlain = true) (cur input : Chars) :
    words .plain (some cur) (w ++ input) = words .plain (some (cur ++ w)) input := by
  induction w generalizing cur with
  | nil => simp
  | cons c rest ih =>
    rw [List.all_cons, Bool.and_eq_true] at hw
    obtain ⟨hblank, ⟨hsingle, hdouble, hback⟩, hactive⟩ := (isPlain_iff).mp hw.1
    rw [List.cons_append, words, if_neg (by simp [hblank]), if_neg hsingle, if_neg hdouble,
      if_neg hback, if_neg (by simp [hactive])]
    rw [put, Option.getD_some, ih hw.2, List.append_assoc, List.singleton_append]

theorem words_plainWord (hw : plainWord w = true) (input : Chars) :
    words .plain none (w ++ ' ' :: input) = (words .plain none input).map (w :: ·) := by
  cases w with
  | nil => simp [plainWord] at hw
  | cons c rest =>
    simp only [plainWord, List.all_cons, List.head?_cons, Option.any_some, Bool.and_eq_true,
      Bool.not_eq_true'] at hw
    obtain ⟨⟨hc, hrest⟩, hleading⟩ := hw
    obtain ⟨hblank, ⟨hsingle, hdouble, hback⟩, hactive⟩ := (isPlain_iff).mp hc
    rw [List.cons_append, words, if_neg (by simp [hblank]), if_neg hsingle, if_neg hdouble,
      if_neg hback, if_neg (by simp [hactive, hleading])]
    have hword := words_plain hrest [c] (' ' :: input)
    rw [put, Option.getD_none, List.nil_append, hword, words, if_pos (by decide)]
    rfl

theorem words_quoted {body : Chars} (hbody : isQuotable body = true) :
    words .plain none ('"' :: body ++ ['"']) = some [body] := by
  have hinside : ∀ (body cur : Chars), isQuotable body = true →
      words .double (some cur) (body ++ ['"']) = some [cur ++ body] := by
    intro body
    induction body with
    | nil =>
      intro cur _
      simp [words]
    | cons c rest ih =>
      intro cur h
      simp only [isQuotable, List.all_cons, Bool.and_eq_true, decide_eq_true_eq, List.mem_cons,
        List.not_mem_nil, or_false, not_or] at h
      obtain ⟨⟨hdouble, hback, hdollar, htick⟩, hrest⟩ := h
      have hnext := ih (cur ++ [c]) (by simpa [isQuotable] using hrest)
      rw [List.cons_append, words, if_neg hdouble, if_neg hback,
        if_neg (by simp [hdollar, htick]), put, Option.getD_some, hnext, List.append_assoc,
        List.singleton_append]
  have hbegin := hinside body [] hbody
  rw [List.cons_append, words, if_neg (by decide), if_neg (by decide), if_pos rfl]
  simpa using hbegin

theorem foldl_put (hw : w ≠ []) (cur : Option Chars) :
    w.foldl put cur = some (cur.getD [] ++ w) := by
  induction w generalizing cur with
  | nil => exact absurd rfl hw
  | cons c rest ih =>
    rw [List.foldl_cons]
    by_cases hrest : rest = []
    · rw [hrest]
      rfl
    · rw [ih hrest, put, Option.getD_some, List.append_assoc, List.singleton_append]

/-- A part without blanks and double quotes of which no quote is taken away is plain. -/
theorem all_isPlain_of_words (h : words .plain cur (w ++ input) = some ws)
    (hsingle : ¬ Loses '\'' .plain cur (w ++ input) ws)
    (hback : ¬ Loses '\\' .plain cur (w ++ input) ws)
    (hdouble : '"' ∉ w) (hblank : ∀ c ∈ w, isBlank c = false) :
    w.all isPlain = true ∧ (cur = none → w.head?.all (fun c => !isLeading c) = true) ∧
      words .plain (w.foldl put cur) input = some ws := by
  induction w generalizing cur with
  | nil => exact ⟨rfl, fun _ => rfl, h⟩
  | cons c rest ih =>
    have hcblank : isBlank c = false := hblank c List.mem_cons_self
    have hcdouble : c ≠ '"' := fun hc => hdouble (by simp [hc])
    have hcsingle : c ≠ '\'' := by
      rintro rfl
      rw [List.cons_append, words, if_neg (by decide), if_pos rfl] at h
      have hcount := countP_words (· == '\'') h
      refine hsingle ?_
      simp [Loses, held, List.count, List.countP_append] at hcount ⊢
      omega
    have hcback : c ≠ '\\' := by
      rintro rfl
      rw [List.cons_append, words, if_neg (by decide), if_neg (by decide), if_neg (by decide),
        if_pos rfl] at h
      have hcount := countP_words (· == '\\') h
      refine hback ?_
      simp [Loses, held, List.count, List.countP_append] at hcount ⊢
      omega
    rw [List.cons_append, words, if_neg (by simp [hcblank]), if_neg hcsingle, if_neg hcdouble,
      if_neg hcback] at h
    split at h
    · cases h
    · rename_i hopen
      rw [Bool.not_eq_true, Bool.or_eq_false_iff] at hopen
      have hplain : isPlain c = true :=
        (isPlain_iff).mpr ⟨hcblank, ⟨hcsingle, hcdouble, hcback⟩, hopen.1⟩
      obtain ⟨hrest, _, hwords⟩ := ih h
        (by simpa [Loses, held, put, List.count_append, List.count_cons, Nat.add_assoc,
          Nat.add_comm, Nat.add_left_comm] using hsingle)
        (by simpa [Loses, held, put, List.count_append, List.count_cons, Nat.add_assoc,
          Nat.add_comm, Nat.add_left_comm] using hback)
        (fun hmem => hdouble (List.mem_cons_of_mem c hmem))
        (fun d hd => hblank d (List.mem_cons_of_mem c hd))
      refine ⟨by rw [List.all_cons, hplain, hrest]; rfl, ?_, hwords⟩
      rintro rfl
      simpa using hopen.2

/-- Words with one blank behind each, and what ends the line. -/
def line (us : List Chars) (last : Chars) : Chars := us.foldr (fun w rest => w ++ ' ' :: rest) last

theorem countP_line (p : Char → Bool) (us : List Chars) (last : Chars) :
    (line us last).countP p =
      us.flatten.countP p + us.length * (if p ' ' = true then 1 else 0) + last.countP p := by
  induction us with
  | nil => simp [line]
  | cons w rest ih =>
    have hnext : line (w :: rest) last = w ++ ' ' :: line rest last := rfl
    rw [hnext, List.countP_append, List.countP_cons, ih, List.flatten_cons, List.countP_append,
      List.length_cons, Nat.add_mul]
    omega

@[grind =]
def quoted (body : Chars) : Chars := '"' :: body ++ ['"']

section
variable {us : List Chars} {body : Chars}

theorem not_loses_line {c : Char} (hblank : c ≠ ' ') (hdouble : c ≠ '"') :
    ¬ Loses c .plain none (line us (quoted body)) (us ++ [body]) := by
  have hcount := countP_line (· == c) us (quoted body)
  simp [quoted, List.countP_append, Ne.symm hblank, Ne.symm hdouble] at hcount
  simp [Loses, held, List.count, quoted, hcount]

theorem quote_not_mem_of_words
    (h : words .plain none (line us (quoted body)) = some (us ++ [body])) :
    '"' ∉ us.flatten := by
  have hfew : (us ++ [body]).flatten.count '"' ≤ 0 := by
    rcases count_quote_words (Or.inl rfl) h with hsingle | hback | hkept
    · exact absurd hsingle (not_loses_line (by decide) (by decide))
    · exact absurd hback (not_loses_line (by decide) (by decide))
    · simpa using hkept
  intro hmem
  have hsome : 0 < us.flatten.count '"' := List.count_pos_iff.mpr hmem
  rw [List.flatten_append, List.count_append] at hfew
  omega

/-- The first word of a line that is read back is plain. -/
theorem plainWord_of_words {w : Chars} (hw : w ≠ []) (hdouble : '"' ∉ w)
    (h : words .plain none (line (w :: us) (quoted body)) = some (w :: (us ++ [body]))) :
    plainWord w = true ∧ words .plain none (line us (quoted body)) = some (us ++ [body]) := by
  obtain ⟨head, hhead⟩ : ∃ head, head = w.takeWhile fun c => !isBlank c := ⟨_, rfl⟩
  obtain ⟨tail, htail⟩ : ∃ tail, tail = w.dropWhile fun c => !isBlank c := ⟨_, rfl⟩
  have hparts : head ++ tail = w := by
    rw [hhead, htail]
    exact List.takeWhile_append_dropWhile
  have hline : line (w :: us) (quoted body) = head ++ (tail ++ ' ' :: line us (quoted body)) := by
    rw [← List.append_assoc, hparts]
    rfl
  have hblank : ∀ c ∈ head, isBlank c = false := by
    intro c hc
    rw [hhead] at hc
    have hall := @List.all_takeWhile _ (fun c => !isBlank c) w
    simpa using List.all_eq_true.mp hall c hc
  have hsingle := @not_loses_line (w :: us) body '\'' (by decide) (by decide)
  have hback := @not_loses_line (w :: us) body '\\' (by decide) (by decide)
  rw [hline] at h hsingle hback
  obtain ⟨hplain, hleading, hrest⟩ := all_isPlain_of_words h hsingle hback
    (fun hmem => hdouble (hparts ▸ List.mem_append_left tail hmem)) hblank
  cases tail with
  | nil =>
    obtain rfl : head = w := by simpa using hparts
    rw [List.nil_append, foldl_put hw, words, if_pos (by decide)] at hrest
    obtain ⟨more, hmore, hsame⟩ := Option.map_eq_some_iff.mp hrest
    have hwords : more = us ++ [body] := (List.cons.inj hsame).2
    refine ⟨?_, hwords ▸ hmore⟩
    obtain ⟨c, rest, rfl⟩ := List.exists_cons_of_ne_nil hw
    have hfirst := hleading rfl
    rw [plainWord, hplain]
    simpa using hfirst
  | cons z later =>
    have hz : isBlank z = true := by
      have hstop := List.head?_dropWhile_not (fun c => !isBlank c) w
      rw [← htail] at hstop
      simpa using hstop
    exfalso
    rw [List.cons_append, words, if_pos hz] at hrest
    obtain ⟨more, hmore, hsame⟩ := Option.map_eq_some_iff.mp hrest
    by_cases hhead' : head = []
    · -- the blank the word begins with is taken away, and one is missing for the words behind it
      have hcount := blanks_words hmore
      have hword : w = z :: later := by rw [← hparts, hhead', List.nil_append]
      rw [hhead', List.foldl_nil, Option.toList_none, List.nil_append] at hsame
      rw [hsame, hword] at hcount
      have hblanks := countP_line isBlank us (quoted body)
      have hspace : isBlank ' ' = true := by decide
      have hmark : isBlank '"' = false := by decide
      simp [held, quoted, List.countP_append, List.countP_cons, hz, hspace, hmark]
        at hcount hblanks
      omega
    · rw [foldl_put hhead'] at hsame
      have hfirst : head = w := by simpa using (List.cons.inj hsame).1
      have hlength := congrArg List.length hparts
      rw [List.length_append, hfirst] at hlength
      simp at hlength

/-- A line of words and a quoted text is read as these words exactly where each of them is plain. -/
theorem words_line_iff (hbody : isQuotable body = true) (hne : ∀ w ∈ us, w ≠ []) :
    words .plain none (line us (quoted body)) = some (us ++ [body]) ↔
      ∀ w ∈ us, plainWord w = true := by
  constructor
  · intro h
    have hdouble := quote_not_mem_of_words h
    induction us with
    | nil => simp
    | cons w rest ih =>
      rw [List.flatten_cons, List.mem_append, not_or] at hdouble
      obtain ⟨hplain, hwords⟩ :=
        plainWord_of_words (hne w List.mem_cons_self) hdouble.1 h
      intro v hv
      rcases List.mem_cons.mp hv with rfl | hv
      · exact hplain
      · exact ih (fun u hu => hne u (List.mem_cons_of_mem w hu)) hwords hdouble.2 v hv
  · intro h
    clear hne
    induction us with
    | nil => exact words_quoted hbody
    | cons w rest ih =>
      have hrest := ih fun v hv => h v (List.mem_cons_of_mem w hv)
      have hline : line (w :: rest) (quoted body) = w ++ ' ' :: line rest (quoted body) := rfl
      rw [hline, words_plainWord (h w List.mem_cons_self), hrest]
      rfl

end

theorem words_append {front : Chars} (h : words mode cur front = some ws) (input : Chars) :
    words mode cur (front ++ ' ' :: input) = (words .plain none input).map (ws ++ ·) := by
  fun_induction words mode cur front generalizing ws with
  | case1 cur =>
    obtain rfl := Option.some.inj h
    rw [List.nil_append, words, if_pos (by decide)]
  | case2 | case3 | case4 | case5 | case10 | case18 => cases h
  | case6 cur c rest hblank ih =>
    obtain ⟨more, hmore, rfl⟩ := Option.map_eq_some_iff.mp h
    rw [List.cons_append, words, if_pos hblank, ih hmore, Option.map_map]
    simp [Function.comp_def, List.append_assoc]
  | _ =>
    rename_i ih
    have hrest := ih h
    simp_all [words]

end Ccmux.Lib.Shell
