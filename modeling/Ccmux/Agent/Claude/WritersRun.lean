/- Module: Ccmux/Agent/Claude/WritersRun
   source: src/agent/claude/writers.ts, src/session/adopt.ts
   digest: Where the two readings of one process list name the same writers. -/

import Ccmux.Agent.Claude.Writers

namespace Ccmux.Agent.Claude.Writers

/-! ### What the pattern finds -/

/-- The option stands ahead of the conversation, with this character between. -/
def Spelled (uuid command : Text) (sep : Char) : Prop :=
  resume ++ sep :: uuid <:+: command ∨ sessionId ++ sep :: uuid <:+: command

/-- The two dashes every match begins with. -/
def Opens (text : Text) : Prop := text[0]? = some '-' ∧ text[1]? = some '-'

variable {uuid text : Text} {procs : List PsProc}

theorem length_of_isUuid (h : isUuid uuid = true) : uuid.length = 36 := by
  simp only [isUuid, Bool.and_eq_true, beq_iff_eq] at h
  exact h.1

theorem dash_of_isUuid (h : isUuid uuid = true) {i : Nat}
    (hi : uuid[i]? = some '-') : i ∈ dashes := by
  simp only [isUuid, Bool.and_eq_true, List.all_eq_true] at h
  have hchar := h.2 ('-', i) (List.mem_zipIdx_iff_getElem?.mpr hi)
  by_contra hnot
  simp only [hnot, if_false] at hchar
  exact absurd hchar (by decide)

variable {n : Nat} {p : PsProc} {caller : Caller} {base : Text} {wantName : Option Text}

theorem afterOption_eq_some {rest : Text} (h : afterOption text = some (n, rest)) :
    ∃ option, (option = resume ∨ option = sessionId) ∧ option.length = n ∧
      text = option ++ rest := by
  unfold afterOption at h
  split at h
  · rename_i hresume
    obtain ⟨rfl, rfl⟩ := Prod.mk.inj (Option.some.inj h)
    exact ⟨resume, .inl rfl, rfl, (List.prefix_iff_eq_append.mp hresume).symm⟩
  · split at h
    · rename_i hsession
      obtain ⟨rfl, rfl⟩ := Prod.mk.inj (Option.some.inj h)
      exact ⟨sessionId, .inr rfl, rfl, (List.prefix_iff_eq_append.mp hsession).symm⟩
    · cases h

theorem afterOption_resume (rest : Text) :
    afterOption (resume ++ rest) = some (resume.length, rest) := by
  rw [afterOption, if_pos (List.prefix_append _ _), List.drop_left]

theorem afterOption_sessionId (rest : Text) :
    afterOption (sessionId ++ rest) = some (sessionId.length, rest) := by
  have hnot : ¬ resume <+: sessionId ++ rest := by
    rintro ⟨more, hmore⟩
    have hresume : resume[2]? = some 'r' := rfl
    have hsession : sessionId[2]? = some 's' := rfl
    have hthird := congrArg (fun text : Text => text[2]?) hmore
    rw [List.getElem?_append_left (by decide), List.getElem?_append_left (by decide), hresume,
      hsession] at hthird
    exact absurd hthird (by decide)
  rw [afterOption, if_neg hnot, if_pos (List.prefix_append _ _), List.drop_left]

theorem matchHere_eq_some (h : matchHere text = some (uuid, n)) :
    ∃ option sep rest, (option = resume ∨ option = sessionId) ∧ (sep = '=' ∨ sep = ' ') ∧
      isUuid uuid = true ∧ n = option.length + 37 ∧ text = option ++ sep :: (uuid ++ rest) := by
  unfold matchHere at h
  split at h
  · rename_i k sep rest hoption
    split at h
    · rename_i hgood
      obtain ⟨rfl, rfl⟩ := Prod.mk.inj (Option.some.inj h)
      obtain ⟨option, hwhich, rfl, rfl⟩ := afterOption_eq_some hoption
      exact ⟨option, sep, rest.drop 36, hwhich, hgood.1, hgood.2, rfl,
        by rw [List.take_append_drop]⟩
    · cases h
  · cases h

theorem matchHere_spelled {option uuid rest : Text} {sep : Char}
    (hoption : option = resume ∨ option = sessionId) (hsep : sep = '=' ∨ sep = ' ')
    (huuid : isUuid uuid = true) :
    matchHere (option ++ sep :: (uuid ++ rest)) = some (uuid, option.length + 37) := by
  have htake : (uuid ++ rest).take 36 = uuid := by
    rw [← length_of_isUuid huuid, List.take_left]
  unfold matchHere
  rcases hoption with rfl | rfl
  · rw [afterOption_resume]
    simp only [htake, hsep, huuid, and_self, if_true]
  · rw [afterOption_sessionId]
    simp only [htake, hsep, huuid, and_self, if_true]

theorem opens_of_matchHere {found : Text × Nat} (h : matchHere text = some found) :
    Opens text := by
  obtain ⟨option, sep, rest, hoption, -, -, -, rfl⟩ := matchHere_eq_some h
  rcases hoption with rfl | rfl
  · exact ⟨rfl, rfl⟩
  · exact ⟨rfl, rfl⟩

/-- No match begins inside another one. -/
theorem not_opens_inside {text uuid : Text} {n k : Nat} (h : matchHere text = some (uuid, n))
    (hlow : 0 < k) (hhigh : k < n) : ¬ Opens (text.drop k) := by
  obtain ⟨option, sep, rest, hoption, hsep, huuid, rfl, rfl⟩ := matchHere_eq_some h
  have hlength := length_of_isUuid huuid
  have hdash : sep ≠ '-' := by rcases hsep with rfl | rfl <;> decide
  have hinside : ∀ j < option.length, 0 < j →
      ¬ (option[j]? = some '-' ∧ option[j + 1]? = some '-') := by
    rcases hoption with rfl | rfl <;> decide
  rintro ⟨hfirst, hsecond⟩
  rw [List.getElem?_drop, Nat.add_zero] at hfirst
  rw [List.getElem?_drop] at hsecond
  rcases Nat.lt_trichotomy k option.length with hk | hk | hk
  · rw [List.getElem?_append_left hk] at hfirst
    rcases Nat.lt_or_ge (k + 1) option.length with hnext | hnext
    · rw [List.getElem?_append_left hnext] at hsecond
      exact hinside k hk hlow ⟨hfirst, hsecond⟩
    · rw [List.getElem?_append_right hnext, show k + 1 - option.length = 0 by omega] at hsecond
      exact hdash (Option.some.inj hsecond)
  · rw [List.getElem?_append_right (by omega), show k - option.length = 0 by omega] at hfirst
    exact hdash (Option.some.inj hfirst)
  · obtain ⟨j, rfl⟩ : ∃ j, k = option.length + (j + 1) := ⟨k - option.length - 1, by omega⟩
    have hj : j < uuid.length := by omega
    rw [List.getElem?_append_right (by omega),
      show option.length + (j + 1) - option.length = j + 1 by omega,
      List.getElem?_cons_succ, List.getElem?_append_left hj] at hfirst
    have hmem := dash_of_isUuid huuid hfirst
    have hsmall : j + 1 < uuid.length := by
      simp only [dashes, List.mem_cons, List.not_mem_nil, or_false] at hmem
      omega
    rw [List.getElem?_append_right (by omega),
      show option.length + (j + 1) + 1 - option.length = j + 1 + 1 by omega,
      List.getElem?_cons_succ, List.getElem?_append_left hsmall] at hsecond
    have hnext := dash_of_isUuid huuid hsecond
    simp only [dashes, List.mem_cons, List.not_mem_nil, or_false] at hmem hnext
    omega

theorem matchAll_sound {skip : Nat} (h : uuid ∈ matchAll skip text) :
    ∃ behind n, behind <:+ text ∧ matchHere behind = some (uuid, n) := by
  induction text generalizing skip with
  | nil => cases skip <;> cases h
  | cons c rest ih =>
    have hmore : ∀ {m}, uuid ∈ matchAll m rest →
        ∃ behind n, behind <:+ c :: rest ∧ matchHere behind = some (uuid, n) := by
      intro m hmem
      obtain ⟨behind, n, hsuffix, hmatch⟩ := ih hmem
      exact ⟨behind, n, hsuffix.trans (List.suffix_cons c rest), hmatch⟩
    cases skip with
    | succ skip => exact hmore h
    | zero =>
      simp only [matchAll] at h
      split at h
      · rename_i found n hmatch
        rcases List.mem_cons.mp h with rfl | hmem
        · exact ⟨c :: rest, n, List.suffix_refl _, hmatch⟩
        · exact hmore hmem
      · exact hmore h

/-- A match that the characters to skip leave free is found. -/
theorem matchAll_complete {text front behind uuid : Text} {n skip : Nat}
    (htext : text = front ++ behind) (hmatch : matchHere behind = some (uuid, n))
    (hskip : ∀ k, k < skip → ¬ Opens (text.drop k)) : uuid ∈ matchAll skip text := by
  induction front generalizing text skip with
  | nil =>
    rw [List.nil_append] at htext
    subst htext
    have hopens := opens_of_matchHere hmatch
    cases skip with
    | succ skip => exact absurd hopens (hskip 0 (Nat.succ_pos _))
    | zero =>
      cases hbehind : text with
      | nil =>
        rw [hbehind] at hopens
        cases hopens.1
      | cons c rest =>
        rw [hbehind] at hmatch
        simp only [matchAll, hmatch]
        exact List.mem_cons_self
  | cons c front ih =>
    subst htext
    rw [List.cons_append] at hskip ⊢
    cases skip with
    | succ skip =>
      refine @ih (front ++ behind) skip rfl fun k hk => ?_
      exact hskip (k + 1) (by omega)
    | zero =>
      simp only [matchAll]
      split
      · rename_i found m hfound
        refine List.mem_cons_of_mem _ (@ih (front ++ behind) (m - 1) rfl fun k hk => ?_)
        exact @not_opens_inside (c :: (front ++ behind)) found m (k + 1) hfound (Nat.succ_pos k)
          (by omega)
      · exact @ih (front ++ behind) 0 rfl fun k hk => absurd hk (Nat.not_lt_zero k)

/-- The pattern finds a conversation exactly in its two spellings. -/
theorem mem_matchAll {command : Text} : uuid ∈ matchAll 0 command ↔
    isUuid uuid = true ∧ (Spelled uuid command '=' ∨ Spelled uuid command ' ') := by
  constructor
  · intro h
    obtain ⟨behind, n, ⟨front, hfront⟩, hmatch⟩ := matchAll_sound h
    obtain ⟨option, sep, rest, hoption, hsep, huuid, -, rfl⟩ := matchHere_eq_some hmatch
    have hinfix : option ++ sep :: uuid <:+: command := ⟨front, rest, by
      rw [← hfront]
      simp⟩
    refine ⟨huuid, ?_⟩
    rcases hoption with rfl | rfl <;> rcases hsep with rfl | rfl
    · exact .inl (.inl hinfix)
    · exact .inr (.inl hinfix)
    · exact .inl (.inr hinfix)
    · exact .inr (.inr hinfix)
  · rintro ⟨huuid, hspelled⟩
    have hfind : ∀ option sep, (option = resume ∨ option = sessionId) → (sep = '=' ∨ sep = ' ') →
        option ++ sep :: uuid <:+: command → uuid ∈ matchAll 0 command := by
      rintro option sep hoption hsep ⟨front, rest, hcommand⟩
      have hmatch := @matchHere_spelled option uuid rest sep hoption hsep huuid
      refine @matchAll_complete command front _ uuid _ 0 ?_ hmatch fun k hk => absurd hk (Nat.not_lt_zero k)
      rw [← hcommand]
      simp
    rcases hspelled with (h | h) | (h | h)
    · exact hfind _ _ (.inl rfl) (.inl rfl) h
    · exact hfind _ _ (.inr rfl) (.inl rfl) h
    · exact hfind _ _ (.inl rfl) (.inr rfl) h
    · exact hfind _ _ (.inr rfl) (.inr rfl) h

/-! ### The walk to the ancestors -/

/-- The processes above one, itself included. -/
inductive Ancestor (procs : List PsProc) : Nat → Nat → Prop where
  | itself {pid : Nat} : Ancestor procs pid pid
  | parent {pid top : Nat} {p : PsProc} : byPid procs pid = some p → Ancestor procs p.ppid top →
      Ancestor procs pid top

/-- Those among them that are reached by numbers above one. -/
inductive Above (procs : List PsProc) : Nat → Nat → Prop where
  | itself {pid : Nat} : 1 < pid → Above procs pid pid
  | parent {pid top : Nat} {p : PsProc} : 1 < pid → byPid procs pid = some p →
      Above procs p.ppid top → Above procs pid top

section
variable {procs : List PsProc} {pid top : Nat}

theorem Above.ancestor (h : Above procs pid top) : Ancestor procs pid top := by
  induction h with
  | itself _ => exact .itself
  | parent _ hp _ ih => exact .parent hp ih

theorem Above.low (h : Above procs pid top) : 1 < pid := by
  cases h with
  | itself hlow => exact hlow
  | parent hlow _ _ => exact hlow

theorem Above.mem {seen : List Nat} (hclosed : ∀ x ∈ seen, ∀ p, byPid procs x = some p →
    1 < p.ppid → p.ppid ∈ seen) (h : Above procs pid top) (hpid : pid ∈ seen) : top ∈ seen := by
  induction h with
  | itself _ => exact hpid
  | parent _ hp hrest ih => exact ih (hclosed _ hpid _ hp hrest.low)

theorem above_iff : Above procs pid top ↔
    1 < pid ∧ (top = pid ∨ ∃ p, byPid procs pid = some p ∧ Above procs p.ppid top) := by
  constructor
  · intro h
    cases h with
    | itself hlow => exact ⟨hlow, .inl rfl⟩
    | parent hlow hp hrest => exact ⟨hlow, .inr ⟨_, hp, hrest⟩⟩
  · rintro ⟨hlow, rfl | ⟨p, hp, hrest⟩⟩
    · exact .itself hlow
    · exact .parent hlow hp hrest

/-- What the walk has seen stays, and what is above its place comes to it. -/
theorem mem_climb (seen : List Nat) (pid : Nat) (hclosed : ∀ x ∈ seen, ∀ p,
    byPid procs x = some p → 1 < p.ppid → p.ppid ∈ seen ∨ p.ppid = pid) :
    top ∈ climb procs seen pid ↔ top ∈ seen ∨ Above procs pid top := by
  induction seen, pid using climb.induct procs with
  | case1 seen pid hnew hnone =>
    rw [climb, dif_pos hnew]
    split
    · rw [above_iff]
      simp [hnew.1, hnone]
    · next p hp => exact absurd (hnone.symm.trans hp) nofun
  | case2 seen pid hnew p hp ih =>
    have hgrown : ∀ x ∈ seen ++ [pid], ∀ q, byPid procs x = some q → 1 < q.ppid →
        q.ppid ∈ seen ++ [pid] ∨ q.ppid = p.ppid := by
      intro x hx q hq hlow
      rcases List.mem_append.mp hx with hold | hlast
      · left
        rcases hclosed x hold q hq hlow with hmem | rfl
        · exact List.mem_append_left _ hmem
        · exact List.mem_append_right _ (List.mem_singleton_self _)
      · rw [List.mem_singleton.mp hlast, hp] at hq
        exact .inr (congrArg PsProc.ppid (Option.some.inj hq)).symm
    rw [climb, dif_pos hnew]
    split
    · next hnone => exact absurd (hnone.symm.trans hp) nofun
    · next q hq =>
      obtain rfl := Option.some.inj (hp.symm.trans hq)
      rw [ih hgrown, @above_iff procs pid, List.mem_append, List.mem_singleton]
      simp [hnew.1, hp, or_assoc]
  | case3 seen pid hstop =>
    rw [climb, dif_neg hstop]
    refine ⟨.inl, fun h => ?_⟩
    rcases h with hmem | habove
    · exact hmem
    · have hpid : pid ∈ seen := by
        by_contra hnew
        exact hstop ⟨habove.low, hnew⟩
      refine habove.mem (fun x hx p hp hlow => ?_) hpid
      rcases hclosed x hx p hp hlow with hnext | hnext
      · exact hnext
      · exact hnext ▸ hpid

theorem mem_ancestorsOf : top ∈ ancestorsOf procs pid ↔ Above procs pid top := by
  rw [ancestorsOf, mem_climb [] pid nofun]
  simp

end

/-! ### The two readings -/

/-- The snapshot shows the conversation in a process that is no launcher. -/
def Live (procs : List PsProc) (uuid : Text) : Prop :=
  ∃ p ∈ procs, isLauncher p = false ∧ uuid ∈ resumingUuids [p]

/-- What is expected of the writers: there is one where the conversation is live, just the
ancestors of the caller are its own, and the conversation is then not adopted. -/
def Agrees (procs : List PsProc) (uuid : Text) (selfPid : Nat) : Prop :=
  (Live procs uuid → classifyWriters procs uuid selfPid ≠ []) ∧
    (∀ w ∈ classifyWriters procs uuid selfPid, w.kind = .self ↔ Ancestor procs selfPid w.pid) ∧
    ∀ caller base wantName, caller.selfPid = selfPid → Live procs uuid →
      ∃ e, adoptSession caller procs base uuid wantName = .error e

/-- A conversation that is spelled with `=` is also spelled with a blank, and no writer is an
ancestor that only numbers up to one lead to. -/
def SpelledAlike (procs : List PsProc) (uuid : Text) (selfPid : Nat) : Prop :=
  (isUuid uuid = true → (∃ p ∈ procs, isLauncher p = false ∧ Spelled uuid p.command '=') →
    ∃ p ∈ procs, isLauncher p = false ∧ Spelled uuid p.command ' ') ∧
    ∀ p ∈ procs, isLauncher p = false → Spelled uuid p.command ' ' →
      Ancestor procs selfPid p.pid → Above procs selfPid p.pid

theorem carries_iff :
    carries uuid p = true ↔ Spelled uuid p.command ' ' := by
  simp [carries, Spelled]

theorem mem_classifyWriters {selfPid : Nat} {w : Writer} :
    w ∈ classifyWriters procs uuid selfPid ↔
      ∃ p ∈ procs, isLauncher p = false ∧ Spelled uuid p.command ' ' ∧
        w = ⟨p.pid, kindOf (ancestorsOf procs selfPid) p, p.command⟩ := by
  simp only [classifyWriters, List.mem_map, List.mem_filter, Bool.and_eq_true, carries_iff,
    Bool.not_eq_true']
  constructor
  · rintro ⟨p, ⟨hp, hspelled, hlauncher⟩, rfl⟩
    exact ⟨p, hp, hlauncher, hspelled, rfl⟩
  · rintro ⟨p, hp, hlauncher, hspelled, rfl⟩
    exact ⟨p, ⟨hp, hspelled, hlauncher⟩, rfl⟩

theorem kindOf_self {ancestors : List Nat} :
    kindOf ancestors p = .self ↔ p.pid ∈ ancestors := by
  unfold kindOf
  split
  · next h => exact ⟨fun _ => h, fun _ => rfl⟩
  · next h =>
    refine ⟨fun hkind => ?_, fun hmem => absurd hmem h⟩
    split at hkind
    · cases hkind
    · cases hkind

theorem live_iff : Live procs uuid ↔
    isUuid uuid = true ∧ ∃ p ∈ procs, isLauncher p = false ∧
      (Spelled uuid p.command '=' ∨ Spelled uuid p.command ' ') := by
  simp only [Live, resumingUuids, List.flatMap_singleton, mem_matchAll]
  constructor
  · rintro ⟨p, hp, hlauncher, huuid, hspelled⟩
    exact ⟨huuid, p, hp, hlauncher, hspelled⟩
  · rintro ⟨huuid, p, hp, hlauncher, hspelled⟩
    exact ⟨p, hp, hlauncher, huuid, hspelled⟩

theorem adoptSession_refuses (h : classifyWriters procs uuid caller.selfPid ≠ []) :
    ∃ e, adoptSession caller procs base uuid wantName = .error e := by
  unfold adoptSession
  cases caller.sessions.find? fun s => s.2 == uuid with
  | some already => exact ⟨_, rfl⟩
  | none =>
    have hlive : liveWriters caller procs uuid ≠ [] := by
      unfold liveWriters addEnvSelf
      split
      · exact h
      · simp
    exact ⟨_, if_pos hlive⟩

/-- The writers are those of the pattern, and the caller's own are its ancestors, exactly where the
two spellings name the same conversations and no ancestor is behind a number up to one. -/
theorem agrees_iff (procs : List PsProc) (uuid : Text) (selfPid : Nat) :
    Agrees procs uuid selfPid ↔ SpelledAlike procs uuid selfPid := by
  constructor
  · rintro ⟨hfound, hself, -⟩
    refine ⟨?_, ?_⟩
    · rintro huuid ⟨p, hp, hlauncher, hspelled⟩
      obtain ⟨w, hw⟩ := List.exists_mem_of_ne_nil _
        (hfound (live_iff.mpr ⟨huuid, p, hp, hlauncher, .inl hspelled⟩))
      obtain ⟨q, hq, hq', hblank, -⟩ := mem_classifyWriters.mp hw
      exact ⟨q, hq, hq', hblank⟩
    · intro p hp hlauncher hspelled hancestor
      have hwriter : ⟨p.pid, kindOf (ancestorsOf procs selfPid) p, p.command⟩ ∈
          classifyWriters procs uuid selfPid :=
        mem_classifyWriters.mpr ⟨p, hp, hlauncher, hspelled, rfl⟩
      have hkind := (hself _ hwriter).mpr hancestor
      exact mem_ancestorsOf.mp (kindOf_self.mp hkind)
  · rintro ⟨halike, habove⟩
    have hfound : Live procs uuid → classifyWriters procs uuid selfPid ≠ [] := by
      intro hlive
      obtain ⟨huuid, p, hp, hlauncher, hspelled⟩ := live_iff.mp hlive
      have hblank : ∃ q ∈ procs, isLauncher q = false ∧ Spelled uuid q.command ' ' := by
        rcases hspelled with hequals | hblank
        · exact halike huuid ⟨p, hp, hlauncher, hequals⟩
        · exact ⟨p, hp, hlauncher, hblank⟩
      obtain ⟨q, hq, hq', hblank⟩ := hblank
      exact List.ne_nil_of_mem (mem_classifyWriters.mpr ⟨q, hq, hq', hblank, rfl⟩)
    refine ⟨hfound, ?_, ?_⟩
    · intro w hw
      obtain ⟨p, hp, hlauncher, hspelled, rfl⟩ := mem_classifyWriters.mp hw
      rw [kindOf_self, mem_ancestorsOf]
      exact ⟨Above.ancestor, habove p hp hlauncher hspelled⟩
    · rintro caller base wantName rfl hlive
      exact adoptSession_refuses (hfound hlive)

/-- A takeover ends no process that the walk from the caller comes to. -/
theorem takeoverAdopt_spares {before left last : List PsProc} {pid : Nat}
    (h : pid ∈ (takeoverAdopt caller before left last base uuid wantName).1) :
    ¬ Above before caller.selfPid pid := by
  unfold takeoverAdopt at h
  dsimp only at h
  split at h
  · cases h
  · next hnone =>
    obtain ⟨w, hw, rfl⟩ := List.mem_map.mp h
    have hkind : w.kind ≠ .self := by simpa using List.find?_eq_none.mp hnone w hw
    unfold liveWriters addEnvSelf at hw
    have hwriter : w ∈ classifyWriters before uuid caller.selfPid := by
      split at hw
      · exact hw
      · rcases List.mem_append.mp hw with hold | hnew
        · exact hold
        · exact absurd (congrArg Writer.kind (List.mem_singleton.mp hnew)) hkind
    obtain ⟨p, -, -, -, rfl⟩ := mem_classifyWriters.mp hwriter
    exact fun habove => hkind (kindOf_self.mpr (mem_ancestorsOf.mpr habove))

/-- The caller, its shell, and a writer that neither is under. -/
def threeProcesses : List PsProc :=
  [⟨7, 1, "claude --resume 0b1c2d3e-4f5a-4b6c-9d7e-8f9a0b1c2d3e".toList⟩, ⟨8, 1, "sh".toList⟩,
    ⟨9, 8, "node".toList⟩]

/-- A process that was started with `--resume=`. -/
def oneResumed : List PsProc :=
  [⟨7, 1, "claude --resume=0b1c2d3e-4f5a-4b6c-9d7e-8f9a0b1c2d3e".toList⟩]

def resumedUuid : Text := "0b1c2d3e-4f5a-4b6c-9d7e-8f9a0b1c2d3e".toList

theorem takeoverAdopt_spares_caller :
    (takeoverAdopt ⟨[], 9, none⟩ threeProcesses [] [] "work".toList resumedUuid none).1 = [7] ∧
      ¬ Above threeProcesses 9 7 := by
  have hended : (takeoverAdopt ⟨[], 9, none⟩ threeProcesses [] [] "work".toList resumedUuid
      none).1 = [7] := by decide +kernel
  exact ⟨hended, takeoverAdopt_spares (by rw [hended]; exact List.mem_singleton_self 7)⟩

theorem resumed_is_no_writer :
    Live oneResumed resumedUuid ∧ classifyWriters oneResumed resumedUuid 9 = [] ∧
      adoptSession ⟨[], 9, none⟩ oneResumed "work".toList resumedUuid none = .ok "cc-work".toList ∧
      ¬ Agrees oneResumed resumedUuid 9 := by
  have hlive : Live oneResumed resumedUuid :=
    ⟨_, List.mem_singleton_self _, by decide, by decide⟩
  have hnone : classifyWriters oneResumed resumedUuid 9 = [] := by decide
  refine ⟨hlive, hnone, by decide, fun hagrees => hagrees.1 hlive hnone⟩

end Ccmux.Agent.Claude.Writers
