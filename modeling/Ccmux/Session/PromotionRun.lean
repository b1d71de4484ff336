/- Module: Ccmux/Session/PromotionRun
   source: src/session/promotion.ts, src/session/registry.ts, src/session/pending.ts
   digest: A promotion survives a crash between any two writes, and what its readers see. -/

import Ccmux.Session.Promotion
import Mathlib

namespace Ccmux.Promotion

open Ccmux.Lib.Machine
open Ccmux.Registry

@[grind =]
def namesOf (sessions : List Session) : List String := sessions.map fun s => s.name

@[grind =]
def uuidsOf (sessions : List Session) : List String := sessions.map fun s => s.uuid

@[grind =]
def launchNames (items : List PendingSession) : List String := items.map fun item => item.session.name

/-- The name and the conversation of a session are nobody else's. -/
structure Free (ready : List Session) (items : List PendingSession) (q : Session) : Prop where
  name : q.name ∉ namesOf ready
  uuid : q.uuid ∉ uuidsOf ready
  launch : q.name ∉ launchNames items

/-- What holds of the two rows of any file state without a journal. -/
structure Apart (ready : List Session) (items : List PendingSession) : Prop where
  names : (namesOf ready).Nodup
  uuids : (uuidsOf ready).Nodup
  launches : (launchNames items).Nodup
  generations : (items.map fun item => item.generation).Nodup
  disjoint : ∀ name ∈ namesOf ready, name ∉ launchNames items

/-- At most one promotion is journalled, and its session is in the ready rows or free to be. -/
inductive Journalled (ready : List Session) (items : List PendingSession) : List Session → Prop where
  | none : Journalled ready items []
  | open_ (q : Session) (h : Free ready items q) : Journalled ready items [q]
  | written (q : Session) (h : q ∈ ready) : Journalled ready items [q]

structure Sound (f : Files) : Prop where
  apart : Apart f.ready (launches f.pending)
  journal : Journalled f.ready (launches f.pending) (journal f.pending)

inductive Legal (f : Files) : Write → Prop where
  | journal (q : Session) (rows : List PendingRow) (hnone : journal f.pending = [])
    (hrows : Promotion.journal rows = [q]) (hsub : (launches rows).Sublist (launches f.pending))
    (hfree : Free f.ready (launches rows) q) : Legal f (.pending rows)
  | promoted (q : Session) (hone : Promotion.journal f.pending = [q])
    (hfree : Free f.ready (launches f.pending) q) : Legal f (.ready (f.ready ++ [q]))
  | cleaned (q : Session) (hone : Promotion.journal f.pending = [q]) (hready : q ∈ f.ready) :
    Legal f (.pending (rowsOf (launches f.pending)))
  | ready (rows : List Session) (hnone : Promotion.journal f.pending = [])
    (hapart : Apart rows (launches f.pending)) : Legal f (.ready rows)
  | pending (items : List PendingSession) (hnone : Promotion.journal f.pending = [])
    (hapart : Apart f.ready items) : Legal f (.pending (rowsOf items))

def Planned : Files → List Write → Prop
  | _, [] => True
  | f, next :: rest => Legal f next ∧ Planned (f.apply next) rest

def afterWrites (f : Files) (writes : List Write) : Files := writes.foldl Files.apply f

section
variable {f : Files} {ready : List Session} {items : List PendingSession} {q s t : Session}

@[simp] theorem launches_rowsOf : launches (rowsOf items) = items := by
  induction items with
  | nil => rfl
  | cons item rest ih => simpa [launches, rowsOf, launchOf] using ih

@[simp] theorem journal_rowsOf : journal (rowsOf items) = [] := by
  simp [journal, rowsOf, promotedSession]

theorem rowsOf_launches {rows : List PendingRow} (h : journal rows = []) :
    rowsOf (launches rows) = rows := by
  induction rows with
  | nil => rfl
  | cons row rest ih =>
    cases row with
    | launch item =>
      have hrest : journal rest = [] := by simpa [journal, promotedSession] using h
      simpa [rowsOf, launches, launchOf] using ih hrest
    | promoted item uuid => simp [journal, promotedSession] at h

variable {name uuid generation : String} {writes : List Write} {native : Option NativeSession}
  {after : Rows} {m : Mutation}

theorem mem_namesOf : name ∈ namesOf ready ↔ ∃ s ∈ ready, s.name = name := by
  simp [namesOf]

theorem mem_uuidsOf : uuid ∈ uuidsOf ready ↔ ∃ s ∈ ready, s.uuid = uuid := by
  simp [uuidsOf]

theorem mem_launchNames :
    name ∈ launchNames items ↔ ∃ item ∈ items, item.session.name = name := by
  simp [launchNames]

theorem names_joined (h : (namesOf ready).Nodup) (hq : q.name ∉ namesOf ready) :
    (namesOf (ready ++ [q])).Nodup := by
  rw [namesOf, List.map_append, List.nodup_append]
  refine ⟨h, by simp, ?_⟩
  intro name hname other hother
  simp only [List.map_cons, List.map_nil, List.mem_singleton] at hother
  rw [hother]
  intro hsame
  exact hq (hsame ▸ hname)

theorem Apart.joined (h : Apart ready items) (hfree : Free ready items q) :
    Apart (ready ++ [q]) items := by
  refine ⟨?_, ?_, h.launches, h.generations, ?_⟩
  · exact names_joined h.names hfree.name
  · rw [uuidsOf, List.map_append, List.nodup_append]
    refine ⟨h.uuids, by simp, ?_⟩
    intro uuid huuid other hother
    simp only [List.map_cons, List.map_nil, List.mem_singleton] at hother
    rw [hother]
    intro hsame
    exact hfree.uuid (hsame ▸ huuid)
  · intro name hname
    rw [namesOf, List.map_append, List.mem_append] at hname
    rcases hname with hold | hnew
    · exact h.disjoint name hold
    · simp only [List.map_cons, List.map_nil, List.mem_singleton] at hnew
      rw [hnew]
      exact hfree.launch

theorem Apart.fewer {fewer : List PendingSession} (h : Apart ready items)
    (hsub : fewer.Sublist items) : Apart ready fewer := by
  refine ⟨h.names, h.uuids, h.launches.sublist (hsub.map _), h.generations.sublist (hsub.map _), ?_⟩
  intro name hname hlaunch
  exact h.disjoint name hname ((hsub.map _).subset hlaunch)

theorem addPromoted_free (h : Free ready items q) : addPromoted ready q = .ok (ready ++ [q]) := by
  have hnone : findSession ready q.name = none := by
    simp only [findSession, List.find?_eq_none, beq_iff_eq]
    intro s hs hname
    exact h.name ((mem_namesOf).mpr ⟨s, hs, hname⟩)
  have huuid : (ready.any fun session => session.uuid == q.uuid) = false := by
    simp only [List.any_eq_false, beq_iff_eq]
    intro s hs hsame
    exact h.uuid ((mem_uuidsOf).mpr ⟨s, hs, hsame⟩)
  simp [addPromoted, hnone, huuid]

theorem sameIdentity_iff : sameIdentity s t = true ↔
    s.name = t.name ∧ s.uuid = t.uuid ∧ s.registrationGeneration = t.registrationGeneration := by
  simp [sameIdentity, and_assoc]

theorem addPromoted_present (h : (namesOf ready).Nodup) (hs : s ∈ ready)
    (hsame : sameIdentity s q = true) : addPromoted ready q = .ok ready := by
  obtain ⟨hname, _, _⟩ := (sameIdentity_iff).mp hsame
  cases hfind : findSession ready q.name with
  | none =>
    simp only [findSession, List.find?_eq_none, beq_iff_eq] at hfind
    exact absurd hname (hfind s hs)
  | some byName =>
    have hmem := List.mem_of_find?_eq_some hfind
    have hfound : byName.name = q.name := by
      have hpred := List.find?_some hfind
      simpa using hpred
    have heq : byName = s := List.inj_on_of_nodup_map h hmem hs (hfound.trans hname.symm)
    simp [addPromoted, hfind, heq, hsame]

theorem sameIdentity_refl (s : Session) : sameIdentity s s = true :=
  (sameIdentity_iff).mpr ⟨rfl, rfl, rfl⟩

theorem addAll_one (q : Session) : addAll ready [q] = addPromoted ready q := by
  cases h : addPromoted ready q with
  | error message => simp [addAll, h, Except.bind]
  | ok more => simp [addAll, h, Except.bind]

theorem contents_none (h : journal f.pending = []) : contents f = .ok f.ready := by
  simp [contents, loadRegistrySessions, h, addAll]

theorem contents_free (h : journal f.pending = [q]) (hfree : Free f.ready items q) :
    contents f = .ok (f.ready ++ [q]) := by
  rw [contents, loadRegistrySessions, h, addAll_one, addPromoted_free hfree]

theorem contents_written (hnames : (namesOf f.ready).Nodup) (h : journal f.pending = [q])
    (hq : q ∈ f.ready) : contents f = .ok f.ready := by
  rw [contents, loadRegistrySessions, h, addAll_one,
    addPromoted_present hnames hq (sameIdentity_refl q)]

variable {next : Write} {change : Session → Session} {r : Reader} {w : World}

theorem sound_apply (h : Sound f) (hlegal : Legal f next) : Sound (f.apply next) := by
  cases hlegal with
  | journal q rows hnone hrows hsub hfree =>
    refine ⟨h.apart.fewer hsub, ?_⟩
    show Journalled f.ready (launches rows) (journal rows)
    rw [hrows]
    exact .open_ q hfree
  | promoted q hone hfree =>
    refine ⟨h.apart.joined hfree, ?_⟩
    show Journalled (f.ready ++ [q]) (launches f.pending) (journal f.pending)
    rw [hone]
    exact .written q (by simp)
  | cleaned q hone hready =>
    refine ⟨?_, ?_⟩
    · show Apart f.ready (launches (rowsOf (launches f.pending)))
      rw [launches_rowsOf]
      exact h.apart
    · show Journalled f.ready _ (journal (rowsOf (launches f.pending)))
      rw [journal_rowsOf]
      exact .none
  | ready rows hnone hapart =>
    refine ⟨hapart, ?_⟩
    show Journalled rows (launches f.pending) (journal f.pending)
    rw [hnone]
    exact .none
  | pending items hnone hapart =>
    refine ⟨?_, ?_⟩
    · show Apart f.ready (launches (rowsOf items))
      rw [launches_rowsOf]
      exact hapart
    · show Journalled f.ready _ (journal (rowsOf items))
      rw [journal_rowsOf]
      exact .none

theorem sound_afterWrites (h : Sound f) (hplanned : Planned f writes) :
    Sound (afterWrites f writes) := by
  induction writes generalizing f with
  | nil => exact h
  | cons next rest ih => exact ih (sound_apply h hplanned.1) hplanned.2

/-- What recovery does: it writes what an uninterrupted read shows, and the launches that are left. -/
structure Recovery (f : Files) (ready : List Session) (writes : List Write) : Prop where
  run : recoverPromotions f = .ok (ready, writes)
  view : contents f = .ok ready
  planned : Planned f writes
  files : afterWrites f writes = ⟨rowsOf (launches f.pending), ready⟩
  still : ∀ k, contents (afterWrites f (writes.take k)) = .ok ready

theorem sound_recovery (h : Sound f) : ∃ ready writes, Recovery f ready writes := by
  have hjournal := h.journal
  cases hj : journal f.pending with
  | nil =>
    refine ⟨f.ready, [], ?_, contents_none hj, trivial, ?_, ?_⟩
    · simp [recoverPromotions, hj]
    · rw [rowsOf_launches hj]
      rfl
    · intro k
      rw [List.take_nil]
      exact contents_none hj
  | cons q rest =>
    rw [hj] at hjournal
    cases hjournal with
    | open_ _ hfree =>
      have hview := contents_free hj hfree
      have hother : f.ready ++ [q] ≠ f.ready := by simp
      refine ⟨f.ready ++ [q], [.ready (f.ready ++ [q]), .pending (rowsOf (launches f.pending))], ?_,
        hview, ⟨.promoted q hj hfree, .cleaned q hj (by simp [Files.apply]), trivial⟩, rfl, ?_⟩
      · have hread := hview
        simp only [contents] at hread
        simp [recoverPromotions, hj, hread, Except.map]
      · intro k
        match k with
        | 0 => exact hview
        | 1 =>
          have hnames := (h.apart.joined hfree).names
          exact @contents_written ⟨f.pending, f.ready ++ [q]⟩ q hnames hj (by simp)
        | k + 2 =>
          rw [List.take_of_length_le (by simp)]
          exact @contents_none ⟨rowsOf _, f.ready ++ [q]⟩ journal_rowsOf
    | written _ hq =>
      have hview := contents_written h.apart.names hj hq
      refine ⟨f.ready, [.pending (rowsOf (launches f.pending))], ?_, hview,
        ⟨.cleaned q hj hq, trivial⟩, rfl, ?_⟩
      · have hread := hview
        simp only [contents] at hread
        simp [recoverPromotions, hj, hread, Except.map]
      · intro k
        match k with
        | 0 => exact hview
        | k + 1 =>
          rw [List.take_of_length_le (by simp)]
          exact @contents_none ⟨rowsOf _, f.ready⟩ journal_rowsOf

/-- The journal rows of a promotion of the one launch with the generation. -/
theorem journal_journalled {generation uuid : String} {native : Option NativeSession}
    {item : PendingSession} (hitem : item ∈ items) (hgeneration : item.generation = generation)
    (hunique : (items.map fun item => item.generation).Nodup) :
    journal (items.map (journalled generation uuid native)) =
      [Registry.promoted item uuid native] ∧
    launches (items.map (journalled generation uuid native)) =
      items.filter fun other => other.generation != generation := by
  induction items with
  | nil => cases hitem
  | cons first rest ih =>
    rw [List.map_cons, List.nodup_cons] at hunique
    have hclean : ∀ others : List PendingSession, (∀ other ∈ others, other.generation ≠ generation) →
        journal (others.map (journalled generation uuid native)) = [] ∧
        launches (others.map (journalled generation uuid native)) =
          others.filter fun other => other.generation != generation := by
      intro others hothers
      have hrows : others.map (journalled generation uuid native) = rowsOf others := by
        apply List.map_congr_left
        intro other hother
        simp [journalled, hothers other hother]
      have hall : others.filter (fun other => other.generation != generation) = others := by
        rw [List.filter_eq_self]
        intro other hother
        simpa using hothers other hother
      rw [hrows, hall]
      exact ⟨journal_rowsOf, launches_rowsOf⟩
    rcases List.mem_cons.mp hitem with hfirst | hmore
    · obtain ⟨hjournal, hlaunches⟩ := hclean rest fun other hother hsame =>
        hunique.1 (List.mem_map.mpr ⟨other, hother, by rw [hsame, ← hgeneration, hfirst]⟩)
      rw [← hfirst]
      refine ⟨?_, ?_⟩
      · rw [journal, List.map_cons, List.filterMap_cons]
        simp only [journalled, hgeneration, beq_self_eq_true, if_pos, promotedSession]
        rw [show (rest.map (journalled generation uuid native)).filterMap promotedSession = []
          from hjournal]
        simp [Registry.promoted, hgeneration]
      · rw [launches, List.map_cons, List.filterMap_cons]
        simp only [journalled, hgeneration, beq_self_eq_true, if_pos, launchOf]
        rw [List.filter_cons_of_neg (by simp [hgeneration])]
        exact hlaunches
    · have hne : first.generation ≠ generation := by
        intro hsame
        exact hunique.1 (List.mem_map.mpr ⟨item, hmore, by rw [hgeneration, hsame]⟩)
      obtain ⟨hjournal, hlaunches⟩ := ih hmore hunique.2
      refine ⟨?_, ?_⟩
      · rw [journal, List.map_cons, List.filterMap_cons]
        simp only [journalled, hne, beq_iff_eq, if_neg, not_false_eq_true, promotedSession]
        exact hjournal
      · rw [launches, List.map_cons, List.filterMap_cons]
        simp only [journalled, hne, beq_iff_eq, if_neg, not_false_eq_true, launchOf]
        rw [List.filter_cons_of_pos (by simpa using hne)]
        exact congrArg (first :: ·) hlaunches

theorem Apart.left {fewer : List Session} (h : Apart ready items) (hsub : fewer.Sublist ready) :
    Apart fewer items :=
  ⟨h.names.sublist (hsub.map _), h.uuids.sublist (hsub.map _), h.launches, h.generations,
    fun name hname => h.disjoint name ((hsub.map _).subset hname)⟩

theorem Apart.changed (h : Apart ready items)
    (hname : ∀ s, (change s).name = s.name) (huuids : (uuidsOf (ready.map change)).Nodup) :
    Apart (ready.map change) items := by
  have hnames : namesOf (ready.map change) = namesOf ready := by
    rw [namesOf, List.map_map]
    exact List.map_congr_left fun s _ => hname s
  exact ⟨hnames ▸ h.names, huuids, h.launches, h.generations, hnames ▸ h.disjoint⟩

theorem uuids_kept (h : ∀ s, (change s).uuid = s.uuid) :
    uuidsOf (ready.map change) = uuidsOf ready := by
  rw [uuidsOf, List.map_map]
  exact List.map_congr_left fun s _ => h s

theorem uuids_updated (h : Apart ready items)
    (hfree : ∀ s ∈ ready, s.name ≠ name → s.uuid ≠ uuid) :
    (uuidsOf (ready.map fun s => if s.name == name then { s with uuid := uuid } else s)).Nodup := by
  have hnames := h.names
  have huuids := h.uuids
  rw [namesOf, List.Nodup, List.pairwise_map] at hnames
  rw [uuidsOf, List.Nodup, List.pairwise_map] at huuids
  rw [uuidsOf, List.map_map, List.Nodup, List.pairwise_map]
  refine (hnames.and huuids).imp_of_mem ?_
  intro a b ha hb hab
  obtain ⟨hname, huuid⟩ := hab
  show (if a.name == name then { a with uuid := uuid } else a).uuid ≠
    (if b.name == name then { b with uuid := uuid } else b).uuid
  by_cases hanamed : a.name = name
  · have hbnamed : b.name ≠ name := fun hsame => hname (hanamed.trans hsame.symm)
    rw [if_pos (by simpa using hanamed), if_neg (by simpa using hbnamed)]
    exact (hfree b hb hbnamed).symm
  · rw [if_neg (by simpa using hanamed)]
    by_cases hbnamed : b.name = name
    · rw [if_pos (by simpa using hbnamed)]
      exact hfree a ha hanamed
    · rw [if_neg (by simpa using hbnamed)]
      exact huuid

/-- A new launch has a name and a generation that nothing has. -/
theorem Apart.launched {p : PendingSession} (h : Apart ready items)
    (hready : ∀ s ∈ ready, s.name ≠ p.session.name)
    (hitems : ∀ item ∈ items, item.session.name ≠ p.session.name)
    (hgeneration : ∀ item ∈ items, item.generation ≠ p.generation) : Apart ready (items ++ [p]) := by
  refine ⟨h.names, h.uuids, ?_, ?_, ?_⟩
  · rw [launchNames, List.map_append, List.nodup_append]
    refine ⟨h.launches, by simp, ?_⟩
    intro name hname other hother
    obtain ⟨item, hitem, rfl⟩ := List.mem_map.mp hname
    simp only [List.map_cons, List.map_nil, List.mem_singleton] at hother
    rw [hother]
    exact hitems item hitem
  · rw [List.map_append, List.nodup_append]
    refine ⟨h.generations, by simp, ?_⟩
    intro generation hmem other hother
    obtain ⟨item, hitem, rfl⟩ := List.mem_map.mp hmem
    simp only [List.map_cons, List.map_nil, List.mem_singleton] at hother
    rw [hother]
    exact hgeneration item hitem
  · intro name hname hlaunch
    rw [launchNames, List.map_append, List.mem_append] at hlaunch
    rcases hlaunch with hold | hnew
    · exact h.disjoint name hname hold
    · simp only [List.map_cons, List.map_nil, List.mem_singleton] at hnew
      obtain ⟨s, hs, hsname⟩ := (mem_namesOf).mp hname
      exact hready s hs (hsname.trans hnew)

theorem Apart.blocked (h : Apart ready items) (generation : String) :
    Apart ready (markPendingBlocked ⟨ready, items⟩ generation).pending := by
  have hkeeps : ∀ {α : Type} (key : PendingSession → α),
      (∀ item : PendingSession, key { item with status := .blocked } = key item) →
      (markPendingBlocked ⟨ready, items⟩ generation).pending.map key = items.map key := by
    intro α key hkey
    rw [markPendingBlocked, List.map_map]
    apply List.map_congr_left
    intro item _
    show key (if item.generation == generation then { item with status := .blocked } else item) = _
    split
    · exact hkey item
    · rfl
  have hnames : launchNames (markPendingBlocked ⟨ready, items⟩ generation).pending =
      launchNames items := hkeeps _ fun _ => rfl
  refine ⟨h.names, h.uuids, hnames ▸ h.launches, ?_, hnames ▸ h.disjoint⟩
  rw [hkeeps _ fun _ => rfl]
  exact h.generations

/-- What a promotion writes to its journal and what it relies on. -/
theorem promote_facts (h : Sound f)
    (hpromote : promotePendingSession ⟨f.ready, launches f.pending⟩ generation uuid native =
      some (after, q)) :
    journal ((launches f.pending).map (journalled generation uuid native)) = [q] ∧
      launches ((launches f.pending).map (journalled generation uuid native)) = after.pending ∧
      Free f.ready after.pending q ∧ after.sessions = f.ready ++ [q] ∧
      after.pending.Sublist (launches f.pending) := by
  obtain ⟨item, hitem, hgeneration, hq, hname, hsessions, hpending⟩ :=
    promotePendingSession_some hpromote
  obtain ⟨hjournal, hlaunches⟩ :=
    @journal_journalled _ generation uuid native item hitem hgeneration h.apart.generations
  refine ⟨hq ▸ hjournal, hlaunches.trans hpending.symm, ⟨?_, ?_, ?_⟩, hsessions, ?_⟩
  · intro hmem
    obtain ⟨s, hs, hsame⟩ := (mem_namesOf).mp hmem
    exact hname s hs (hsame.trans (by rw [hq]; rfl))
  · intro hmem
    obtain ⟨s, hs, hsame⟩ := (mem_uuidsOf).mp hmem
    exact promotePendingSession_uuid hpromote s hs (hsame.trans (by rw [hq]; rfl))
  · intro hmem
    obtain ⟨other, hother, hsame⟩ := (mem_launchNames).mp hmem
    rw [hpending] at hother
    obtain ⟨hin, hne⟩ := List.mem_filter.mp hother
    have hitemname : other.session.name = item.session.name := hsame.trans (by rw [hq]; rfl)
    have heq : other = item := List.inj_on_of_nodup_map h.apart.launches hin hitem hitemname
    rw [heq, hgeneration] at hne
    simp at hne
  · rw [hpending]
    exact List.filter_sublist

theorem promote_planned (h : Sound f) (hnone : journal f.pending = [])
    (hpromote : promotePendingSession ⟨f.ready, launches f.pending⟩ generation uuid native =
      some (after, q)) :
    Planned f ((mutate ⟨f.ready, launches f.pending⟩ (.promote generation uuid native)).getD []) := by
  obtain ⟨hjournal, hlaunches, hfree, hsessions, hsub⟩ := promote_facts h hpromote
  simp only [mutate, hpromote, Option.map_some, Option.getD_some]
  refine ⟨.journal q _ hnone hjournal ?_ ?_, ?_, ?_, trivial⟩
  · rw [hlaunches]
    exact hsub
  · rw [hlaunches]
    exact hfree
  · rw [hsessions]
    refine .promoted q hjournal ?_
    show Free f.ready (launches _) q
    rw [Files.apply, hlaunches]
    exact hfree
  · rw [← hlaunches]
    refine .cleaned q hjournal ?_
    rw [hsessions]
    simp [Files.apply]

/-- After the recovery, each write of a mutation is a legal one. -/
theorem mutate_planned (h : Sound f) (hnone : journal f.pending = [])
    (hfresh : fresh f m = true) : Planned f ((mutate ⟨f.ready, launches f.pending⟩ m).getD []) := by
  have hready : ∀ rows, Apart rows (launches f.pending) → Planned f [.ready rows] :=
    fun rows hapart => ⟨.ready rows hnone hapart, trivial⟩
  have hpending : ∀ items, Apart f.ready items → Planned f [.pending (rowsOf items)] :=
    fun items hapart => ⟨.pending items hnone hapart, trivial⟩
  cases m with
  | append session =>
    cases happend : appendSession ⟨f.ready, launches f.pending⟩ session with
    | none => simp [mutate, happend, Planned]
    | some after =>
      obtain ⟨hname, hlaunch, hafter⟩ := appendSession_some happend
      have hfree : Free f.ready (launches f.pending) session := by
        refine ⟨?_, ?_, ?_⟩
        · intro hmem
          obtain ⟨s, hs, hsame⟩ := (mem_namesOf).mp hmem
          exact hname s hs hsame
        · intro hmem
          obtain ⟨s, hs, hsame⟩ := (mem_uuidsOf).mp hmem
          exact appendSession_uuid happend s hs hsame
        · intro hmem
          obtain ⟨item, hitem, hsame⟩ := (mem_launchNames).mp hmem
          exact hlaunch item hitem hsame
      simp only [mutate, happend, Option.map_some, Option.getD_some, hafter]
      exact hready _ (h.apart.joined hfree)
  | updateUuid name uuid =>
    simp only [mutate, updateSessionUuid]
    split
    · simpa using hready f.ready h.apart
    · split
      · trivial
      · rename_i hother
        refine hready _ (h.apart.changed ?_ (uuids_updated h.apart ?_))
        · intro s
          show (if s.name == name then { s with uuid := uuid } else s).name = s.name
          split <;> rfl
        · intro s hs hsname hsame
          apply hother
          rw [List.any_eq_true]
          exact ⟨s, hs, by simp [hsname, hsame]⟩
  | update name fields =>
    refine hready _ (h.apart.changed ?_ ?_)
    · intro s
      show (if s.name == name then
        { s with toSessionFields := { fields with name := s.name } } else s).name = s.name
      split <;> rfl
    · rw [uuids_kept]
      · exact h.apart.uuids
      · intro s
        show (if s.name == name then
          { s with toSessionFields := { fields with name := s.name } } else s).uuid = s.uuid
        split <;> rfl
  | remove name => exact hready _ (h.apart.left List.filter_sublist)
  | removeIfUuid name uuid =>
    refine hready _ ?_
    rcases @removeSessionIfUuid_cases ⟨f.ready, launches f.pending⟩ name uuid with
      hsame | ⟨hremoved, _⟩
    · rw [hsame]
      exact h.apart
    · rw [hremoved]
      exact h.apart.left List.filter_sublist
  | removeIfGeneration name generation =>
    refine hready _ ?_
    rcases @removeSessionIfGeneration_cases ⟨f.ready, launches f.pending⟩ name generation with
      hsame | ⟨hremoved, _⟩
    · rw [hsame]
      exact h.apart
    · rw [hremoved]
      exact h.apart.left List.filter_sublist
  | reserve pending =>
    cases hreserve : reservePendingSession ⟨f.ready, launches f.pending⟩ pending with
    | none => simp [mutate, hreserve, Planned]
    | some after =>
      obtain ⟨hname, hlaunch, hafter⟩ := reservePendingSession_some hreserve
      simp only [mutate, hreserve, Option.map_some, Option.getD_some, hafter]
      refine hpending _ (h.apart.launched hname hlaunch ?_)
      intro item hitem
      have hgeneration := List.all_eq_true.mp hfresh item hitem
      simpa using hgeneration
  | block generation => exact hpending _ (h.apart.blocked generation)
  | removePending generation => exact hpending _ (h.apart.fewer List.filter_sublist)
  | promote generation uuid native =>
    cases hpromote : promotePendingSession ⟨f.ready, launches f.pending⟩ generation uuid native with
    | none => simp [mutate, hpromote, Planned]
    | some result =>
      obtain ⟨after, ready⟩ := result
      exact promote_planned h hnone hpromote

theorem afterWrites_append (writes more : List Write) :
    afterWrites f (writes ++ more) = afterWrites (afterWrites f writes) more :=
  List.foldl_append

theorem planned_append {more : List Write} (h : Planned f writes)
    (hmore : Planned (afterWrites f writes) more) : Planned f (writes ++ more) := by
  induction writes generalizing f with
  | nil => exact hmore
  | cons next rest ih => exact ⟨h.1, ih h.2 hmore⟩

theorem planned_take (h : Planned f writes) (k : Nat) :
    Planned f (writes.take k) := by
  induction writes generalizing f k with
  | nil => simpa using h
  | cons next rest ih =>
    cases k with
    | zero => trivial
    | succ k => exact ⟨h.1, ih h.2 k⟩

theorem plan_eq (h : Recovery f ready writes) :
    plan f m = writes ++ (mutate ⟨ready, launches f.pending⟩ m).getD [] := by
  simp [plan, h.run]

theorem plan_planned (h : Sound f) (hfresh : fresh f m = true) :
    Planned f (plan f m) := by
  obtain ⟨ready, writes, hrecovery⟩ := sound_recovery h
  rw [plan_eq hrecovery]
  apply planned_append hrecovery.planned
  have hsound := sound_afterWrites h hrecovery.planned
  rw [hrecovery.files] at hsound ⊢
  have hlater : fresh ⟨rowsOf (launches f.pending), ready⟩ m = true := by
    cases m with
    | reserve pending => simpa [fresh] using hfresh
    | _ => rfl
  have hplanned := mutate_planned hsound journal_rowsOf hlater
  rw [launches_rowsOf] at hplanned
  exact hplanned

/-- What the files recover to: the journalled session is there once, no name and no conversation is
there twice, and the recovery is done once. -/
structure Recovers (f : Files) (ready : List Session) : Prop where
  view : contents f = .ok ready
  recovery : ∃ writes, recoverPromotions f = .ok (ready, writes) ∧
    contents (afterWrites f writes) = .ok ready ∧
      recoverPromotions (afterWrites f writes) = .ok (ready, [])
  once : ∀ q ∈ journal f.pending, ready.count q = 1
  names : (namesOf ready ++ launchNames (launches f.pending)).Nodup
  uuids : (uuidsOf ready).Nodup

theorem recovers_of_contents (h : Sound f) (hview : contents f = .ok ready) : Recovers f ready := by
  obtain ⟨found, writes, hrecovery⟩ := sound_recovery h
  have hsame : found = ready := Except.ok.inj (hrecovery.view.symm.trans hview)
  rw [hsame] at hrecovery
  have hsound := sound_afterWrites h hrecovery.planned
  have hapart := hsound.apart
  rw [hrecovery.files] at hapart
  simp only [launches_rowsOf] at hapart
  have hnodup : ready.Nodup := List.Nodup.of_map _ hapart.names
  refine ⟨hview, ⟨writes, hrecovery.run, ?_, ?_⟩, ?_, ?_, hapart.uuids⟩
  · rw [hrecovery.files]
    exact contents_none journal_rowsOf
  · rw [hrecovery.files]
    simp [recoverPromotions]
  · intro q hq
    apply List.count_eq_one_of_mem hnodup
    have hjournal := h.journal
    cases hj : journal f.pending with
    | nil =>
      rw [hj] at hq
      cases hq
    | cons first rest =>
      rw [hj] at hjournal hq
      cases hjournal with
      | open_ _ hfree =>
        rw [contents_free hj hfree] at hview
        rw [← Except.ok.inj hview, List.mem_singleton.mp hq]
        simp
      | written _ hready =>
        rw [contents_written h.apart.names hj hready] at hview
        rw [← Except.ok.inj hview, List.mem_singleton.mp hq]
        exact hready
  · rw [List.nodup_append]
    refine ⟨hapart.names, hapart.launches, ?_⟩
    intro name hname other hother hsame
    exact hapart.disjoint name hname (hsame ▸ hother)

/-- A crash after any number of the writes of a promotion, also of those of the recovery it begins
with: once the journal is written, the promoted session is recovered, and nothing else changes. -/
theorem promotion_crash (h : Sound f) (hrecovery : Recovery f ready writes)
    (hpromote : promotePendingSession ⟨ready, launches f.pending⟩ generation uuid native =
      some (after, q)) (k : Nat) :
    Recovers (afterWrites f ((plan f (.promote generation uuid native)).take k))
      (if k ≤ writes.length then ready else ready ++ [q]) := by
  have hplanned := plan_planned (m := .promote generation uuid native) h rfl
  apply recovers_of_contents (sound_afterWrites h (planned_take hplanned k))
  rw [plan_eq hrecovery]
  by_cases hk : k ≤ writes.length
  · rw [if_pos hk, List.take_append_of_le_length hk]
    exact hrecovery.still k
  · rw [if_neg hk]
    obtain ⟨j, rfl⟩ : ∃ j, k = writes.length + (j + 1) := ⟨k - writes.length - 1, by omega⟩
    rw [List.take_length_add_append, afterWrites_append, hrecovery.files]
    have hsound := sound_afterWrites h hrecovery.planned
    rw [hrecovery.files] at hsound
    have hlaunch : promotePendingSession ⟨(⟨rowsOf (launches f.pending), ready⟩ : Files).ready,
        launches (rowsOf (launches f.pending))⟩ generation uuid native = some (after, q) := by
      rw [launches_rowsOf]
      exact hpromote
    obtain ⟨hjournal, hlaunches, hfree, hsessions, _⟩ := promote_facts hsound hlaunch
    rw [launches_rowsOf] at hjournal hlaunches
    simp only [mutate, hpromote, Option.map_some, Option.getD_some]
    match j with
    | 0 => exact @contents_free ⟨_, ready⟩ _ q hjournal hfree
    | 1 =>
      rw [hsessions]
      have hnames := names_joined hsound.apart.names hfree.name
      exact @contents_written ⟨_, ready ++ [q]⟩ q hnames hjournal (by simp)
    | j + 2 =>
      rw [hsessions, List.take_of_length_le (by simp)]
      exact @contents_none ⟨rowsOf _, ready ++ [q]⟩ journal_rowsOf

/-- What a reader has read is still the journal, or was carried to the ready rows that it will read. -/
structure ReaderOk (f : Files) (r : Reader) : Prop where
  current : contents f ∈ r.seen
  one : (journal r.pending).length ≤ 1
  carried : journal r.pending = journal f.pending ∨
    (.ok f.ready ∈ r.seen ∧ ∀ p ∈ journal r.pending, ∃ s ∈ f.ready, sameIdentity s p = true)

/-- The ready rows that are written hold each session whose journalled promotion a reader has read:
it is neither removed nor given another conversation. -/
def allowed (w : World) : Event → Bool
  | .write =>
    match w.writing with
    | some (.ready rows :: _) => w.readers.all fun r =>
      (journal r.pending).all fun p => rows.any fun s => sameIdentity s p
    | _ => true
  | _ => true

structure Inv (w : World) : Prop where
  sound : Sound w.files
  planned : ∀ writes, w.writing = some writes → Planned w.files writes
  readers : ∀ r ∈ w.readers, ReaderOk w.files r
  readings : ∀ x ∈ w.readings, ∃ sessions, x.result = .ok sessions ∧ .ok sessions ∈ x.seen

theorem journal_one (h : Sound f) : (journal f.pending).length ≤ 1 := by
  have hjournal := h.journal
  cases hj : journal f.pending with
  | nil => exact Nat.zero_le 1
  | cons q rest =>
    rw [hj] at hjournal
    cases hjournal <;> exact Nat.le_refl 1

theorem reading_ok (h : Sound f) (hreader : ReaderOk f r) :
    ∃ sessions, loadRegistrySessions r.pending f.ready = .ok sessions ∧ .ok sessions ∈ r.seen := by
  rcases hreader.carried with hsame | ⟨hseen, hheld⟩
  · obtain ⟨ready, _, hrecovery⟩ := sound_recovery h
    have hview := hrecovery.view
    refine ⟨ready, ?_, hview ▸ hreader.current⟩
    rw [loadRegistrySessions, hsame]
    exact hview
  · refine ⟨f.ready, ?_, hseen⟩
    rw [loadRegistrySessions]
    cases hj : journal r.pending with
    | nil => rfl
    | cons p rest =>
      have hone := hreader.one
      rw [hj, List.length_cons] at hone
      have hrest : rest = [] := List.eq_nil_of_length_eq_zero (by omega)
      obtain ⟨s, hs, hsame⟩ := hheld p (by rw [hj]; exact List.mem_cons_self)
      rw [hrest, addAll_one]
      exact addPromoted_present h.apart.names hs hsame

/-- A write keeps what a reader stands on, where the ready rows keep the sessions it has read of. -/
theorem reader_write (h : Sound f) (hlegal : Legal f next)
    (hreader : ReaderOk f r)
    (hkept : ∀ rows, next = .ready rows → ∀ p ∈ journal r.pending, ∃ s ∈ rows,
      sameIdentity s p = true) :
    ReaderOk (f.apply next) { r with seen := r.seen ++ [contents (f.apply next)] } := by
  have hold : ∀ {x : Except String (List Session)}, x ∈ r.seen →
      x ∈ r.seen ++ [contents (f.apply next)] := fun hx => List.mem_append_left _ hx
  have hnew : contents (f.apply next) ∈ r.seen ++ [contents (f.apply next)] :=
    List.mem_append_right _ (List.mem_singleton.mpr rfl)
  refine ⟨hnew, hreader.one, ?_⟩
  cases hlegal with
  | journal q rows hnone hrows hsub hfree =>
    refine Or.inr ?_
    rcases hreader.carried with hsame | ⟨hseen, hheld⟩
    · refine ⟨hold ?_, ?_⟩
      · have hcurrent := hreader.current
        rw [contents_none hnone] at hcurrent
        exact hcurrent
      · intro p hp
        rw [hsame, hnone] at hp
        cases hp
    · exact ⟨hold hseen, hheld⟩
  | promoted q hone hfree =>
    rcases hreader.carried with hsame | ⟨_, hheld⟩
    · exact Or.inl hsame
    · refine Or.inr ⟨?_, ?_⟩
      · have hnames := names_joined h.apart.names hfree.name
        have hview := @contents_written ⟨f.pending, f.ready ++ [q]⟩ q hnames hone (by simp)
        exact hview ▸ hnew
      · intro p hp
        obtain ⟨s, hs, hsame⟩ := hheld p hp
        exact ⟨s, List.mem_append_left _ hs, hsame⟩
  | cleaned q hone hready =>
    refine Or.inr ?_
    rcases hreader.carried with hsame | ⟨hseen, hheld⟩
    · refine ⟨hold ?_, ?_⟩
      · have hcurrent := hreader.current
        rw [contents_written h.apart.names hone hready] at hcurrent
        exact hcurrent
      · intro p hp
        rw [hsame, hone, List.mem_singleton] at hp
        exact ⟨q, hready, hp ▸ sameIdentity_refl q⟩
    · exact ⟨hold hseen, hheld⟩
  | ready rows hnone hapart =>
    refine Or.inr ⟨?_, hkept rows rfl⟩
    have hview := @contents_none ⟨f.pending, rows⟩ hnone
    exact hview ▸ hnew
  | pending items hnone hapart =>
    rcases hreader.carried with hsame | ⟨hseen, hheld⟩
    · refine Or.inl ?_
      show journal r.pending = journal (rowsOf items)
      rw [hsame, hnone, journal_rowsOf]
    · exact Or.inr ⟨hold hseen, hheld⟩

theorem inv_step {v : World} {e : Event} (h : Inv w) (hallowed : allowed w e = true)
    (hstep : step w e = some v) : Inv v := by
  cases e with
  | lock m =>
    simp only [step] at hstep
    split at hstep
    · cases hstep
    · split at hstep
      · rename_i hfresh
        obtain rfl := Option.some.inj hstep
        refine ⟨h.sound, ?_, h.readers, h.readings⟩
        intro writes hwrites
        rw [← Option.some.inj hwrites]
        exact plan_planned h.sound hfresh
      · cases hstep
  | write =>
    simp only [step] at hstep
    split at hstep
    · rename_i next rest hwriting
      obtain rfl := Option.some.inj hstep
      obtain ⟨hlegal, hrest⟩ := h.planned _ hwriting
      refine ⟨sound_apply h.sound hlegal, ?_, ?_, h.readings⟩
      · intro writes hwrites
        rw [← Option.some.inj hwrites]
        exact hrest
      · intro r hr
        obtain ⟨old, hold, rfl⟩ := List.mem_map.mp hr
        apply reader_write h.sound hlegal (h.readers old hold)
        intro rows hrows p hp
        simp only [allowed, hwriting, hrows, List.all_eq_true] at hallowed
        obtain ⟨s, hs, hsame⟩ := List.any_eq_true.mp (hallowed old hold p hp)
        exact ⟨s, hs, hsame⟩
    · cases hstep
  | release =>
    simp only [step] at hstep
    split at hstep
    · obtain rfl := Option.some.inj hstep
      exact ⟨h.sound, (fun _ hwrites => by cases hwrites), h.readers, h.readings⟩
    · cases hstep
  | crash =>
    obtain rfl := Option.some.inj hstep
    exact ⟨h.sound, (fun _ hwrites => by cases hwrites), h.readers, h.readings⟩
  | readPending =>
    obtain rfl := Option.some.inj hstep
    refine ⟨h.sound, h.planned, ?_, h.readings⟩
    intro r hr
    rcases List.mem_append.mp hr with hold | hnew
    · exact h.readers r hold
    · rw [List.mem_singleton.mp hnew]
      exact ⟨List.mem_singleton.mpr rfl, journal_one h.sound, Or.inl rfl⟩
  | readReady i =>
    obtain ⟨r, hr, rfl⟩ := Option.map_eq_some_iff.mp hstep
    have hmem := List.mem_of_getElem? hr
    refine ⟨h.sound, h.planned, ?_, ?_⟩
    · intro other hother
      exact h.readers other (List.mem_of_mem_eraseIdx hother)
    · intro x hx
      rcases List.mem_append.mp hx with hold | hnew
      · exact h.readings x hold
      · rw [List.mem_singleton.mp hnew]
        exact reading_ok h.sound (h.readers r hmem)

theorem inv_empty : Inv World.empty := by
  have happly : Apart [] [] := by
    refine ⟨by simp [namesOf], by simp [uuidsOf], by simp [launchNames], by simp, ?_⟩
    intro name hname
    cases hname
  refine ⟨⟨happly, .none⟩, ?_, ?_, ?_⟩
  · intro writes hwrites
    cases hwrites
  · intro r hr
    cases hr
  · intro x hx
    cases hx

/-- What is to hold in every state: the files recover, also after a crash between any two writes of
a promotion that begins here; and what was read is what the registry held at some moment between
the two reads. -/
structure Holds (w : World) : Prop where
  recovers : ∃ ready writes, recoverPromotions w.files = .ok (ready, writes) ∧
    Recovers w.files ready ∧ ∀ generation uuid native after q,
      promotePendingSession ⟨ready, launches w.files.pending⟩ generation uuid native =
        some (after, q) → ∀ k,
          Recovers (afterWrites w.files ((plan w.files (.promote generation uuid native)).take k))
            (if k ≤ writes.length then ready else ready ++ [q])
  readings : ∀ x ∈ w.readings, ∃ sessions, x.result = .ok sessions ∧ .ok sessions ∈ x.seen

theorem Inv.holds (h : Inv w) : Holds w := by
  obtain ⟨ready, writes, hrecovery⟩ := sound_recovery h.sound
  refine ⟨⟨ready, writes, hrecovery.run, recovers_of_contents h.sound hrecovery.view, ?_⟩, h.readings⟩
  intro generation uuid native after q hpromote k
  exact promotion_crash h.sound hrecovery hpromote k

/-- A recovery may itself stop after any of its writes: the next one finds the same rows. -/
theorem recovery_survives_crashes {events : List Event} {w : World}
    (hrun : run step World.empty events = some w)
    (hall : Along step (fun w e => allowed w e = true) World.empty events) :
    ∃ ready writes, recoverPromotions w.files = .ok (ready, writes) ∧
      ∀ k, Recovers (afterWrites w.files (writes.take k)) ready := by
  have h : Inv w := run_invariant_along
    (fun _ _ _ h hallowed hstep => inv_step h hallowed hstep) hrun hall inv_empty
  obtain ⟨ready, writes, hrecovery⟩ := sound_recovery h.sound
  refine ⟨ready, writes, hrecovery.run, ?_⟩
  intro k
  exact recovers_of_contents (sound_afterWrites h.sound (planned_take hrecovery.planned k))
    (hrecovery.still k)

/-- In every run in which no write of the ready rows removes or re-pins a session whose journalled
promotion a reader has read that has not yet read the ready rows. -/
theorem promotions_are_seen_once {events : List Event} {w : World}
    (hrun : run step World.empty events = some w)
    (hall : Along step (fun w e => allowed w e = true) World.empty events) : Holds w :=
  (run_invariant_along (fun _ _ _ h hallowed hstep => inv_step h hallowed hstep) hrun hall
    inv_empty).holds

end

def agentFields (name : String) : SessionFields :=
  { name := name
    dir := "/work"
    agent := .codex
    flags := []
    runtime := some .appServer
    delegation := none
    initialization := none
    envFile := none
    launchRecipe := none
    modelSelection := none
    applicationPolicy := none
    nativeSession := none }

/-- A reader reads the pending rows while the promotion is journalled, and the ready rows after
the promotion is cleaned up. -/
def readDuringPromotion : List Event :=
  [.lock (.reserve ⟨"g", .create, agentFields "agent-a", .pending⟩), .write, .release,
    .lock (.promote "g" "u" none), .write, .readPending, .write, .write, .release, .readReady 0]

theorem promotions_are_seen_once_reader : ∃ w, run step World.empty readDuringPromotion = some w ∧
    Holds w := by
  have hsome : (run step World.empty readDuringPromotion).isSome = true := by decide
  obtain ⟨w, hw⟩ := Option.isSome_iff_exists.mp hsome
  refine ⟨w, hw, promotions_are_seen_once hw ?_⟩
  apply along_of_check
  decide

/-- The promotion is journalled, and its session not yet in the ready rows. -/
def crashedPromotion : List Event := readDuringPromotion.take 6

theorem recovery_survives_crashes_promotion : ∃ w, run step World.empty crashedPromotion = some w ∧
    journal w.files.pending ≠ [] ∧ ∃ ready writes, recoverPromotions w.files = .ok (ready, writes) ∧
      ∀ k, Recovers (afterWrites w.files (writes.take k)) ready := by
  have hruns : ((run step World.empty crashedPromotion).any fun w =>
      decide (journal w.files.pending ≠ [])) = true := by decide
  obtain ⟨w, hw, hopen⟩ := (Option.any_eq_true _ _).mp hruns
  refine ⟨w, hw, of_decide_eq_true hopen, recovery_survives_crashes hw ?_⟩
  apply along_of_check
  decide

/-- The session is re-pinned before the reader reads the ready rows. -/
def repinDuringRead : List Event :=
  [.lock (.reserve ⟨"g", .create, agentFields "agent-a", .pending⟩), .write, .release,
    .lock (.promote "g" "u" none), .write, .readPending, .write, .write, .release,
    .lock (.updateUuid "agent-a" "v"), .write, .release, .readReady 0]

/-- The reader throws for a duplicate that never was. -/
theorem repinned_session_throws : ∃ w, run step World.empty repinDuringRead = some w ∧
    ∃ x ∈ w.readings,
      x.result = .error "promoted session 'agent-a' conflicts with the ready registry" := by
  have hrun : ((run step World.empty repinDuringRead).any fun w => w.readings.any fun x =>
      match x.result with
      | .error message =>
        decide (message = "promoted session 'agent-a' conflicts with the ready registry")
      | .ok _ => false) = true := by
    decide
  obtain ⟨w, hw, hany⟩ := (Option.any_eq_true _ _).mp hrun
  obtain ⟨x, hx, hmessage⟩ := List.any_eq_true.mp hany
  refine ⟨w, hw, x, hx, ?_⟩
  cases hresult : x.result with
  | error message =>
    rw [hresult] at hmessage
    rw [of_decide_eq_true hmessage]
  | ok sessions =>
    rw [hresult] at hmessage
    cases hmessage

end Ccmux.Promotion
