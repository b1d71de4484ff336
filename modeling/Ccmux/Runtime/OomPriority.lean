/- Module: Ccmux/Runtime/OomPriority
   source: src/runtime/oomPriority.ts (oomPlan), src/runtime/procTable.ts (ProcRow)
   digest: Which processes the pass may return to 0: everything below the agents and the daemon that
     is not spine, unless spine processes only form a cycle. -/

import Ccmux.Lib.Walk

namespace Ccmux.Runtime.OomPriority

open Ccmux.Lib.Walk
open Relation (ReflTransGen TransGen)

/-- One process of a snapshot, as the plan reads it. -/
structure ProcRow where
  pid : Nat
  parent : Nat
  deriving DecidableEq, Repr

structure ProcTable where
  rows : List ProcRow
  runners : List Nat
  deriving DecidableEq, Repr

/-- The map from a parent to its children. -/
def children (rows : List ProcRow) (parent : Nat) : List Nat :=
  (rows.filter fun row => row.parent = parent).map ProcRow.pid

/-- The map from a process to its parent: of two rows of one process the later one counts. -/
def parentOf (rows : List ProcRow) (pid : Nat) : Option Nat :=
  (rows.reverse.find? fun row => row.pid = pid).map ProcRow.parent

/-- The agents are the children of the runners. -/
def agents (table : ProcTable) : List Nat :=
  table.runners.flatMap (children table.rows)

/-- A set in the order of its first insertions. -/
def addNew (set : List Nat) (pid : Nat) : List Nat :=
  if pid ∈ set then set else set ++ [pid]

/-- A runner is spine, and so are the server that is its parent and its agents. -/
def addRunner (table : ProcTable) (spine : List Nat) (runner : Nat) : List Nat :=
  let spine := addNew spine runner
  let spine := match parentOf table.rows runner with
    | some server => if server > 1 then addNew spine server else spine
    | none => spine
  (children table.rows runner).foldl addNew spine

/-- The daemon, and what comes with each runner. -/
def spine (table : ProcTable) (selfPid : Nat) : List Nat :=
  table.runners.foldl (addRunner table) [selfPid]

structure OomPlan where
  spine : List Nat
  below : List Nat
  deriving DecidableEq, Repr

def roots (table : ProcTable) (selfPid : Nat) : List Nat := selfPid :: agents table

/-- Which processes the pass lowers, and which it may return to 0. The fuel is the depth of the
call stack: a plan that no fuel is enough for does not return. -/
def oomPlan (fuel : Nat) (table : ProcTable) (selfPid : Nat) : Option OomPlan :=
  let spine := spine table selfPid
  (walkAll (children table.rows) (fun pid => decide (pid ∈ spine)) fuel (roots table selfPid) []).map
    fun below => ⟨spine, below⟩

/-- One process started another, as the table has it. -/
def Started (table : ProcTable) (parent child : Nat) : Prop :=
  ⟨child, parent⟩ ∈ table.rows

instance (table : ProcTable) (parent child : Nat) : Decidable (Started table parent child) :=
  inferInstanceAs (Decidable (_ ∈ table.rows))

/-- What the plan is for: it returns, and what it may return to 0 is exactly what descends from a
root and is not spine. -/
def Covers (table : ProcTable) (selfPid : Nat) : Prop :=
  ∃ fuel plan, (∀ more, fuel ≤ more → oomPlan more table selfPid = some plan) ∧
    (∀ pid ∈ plan.below, pid ∉ plan.spine) ∧
    plan.spine = spine table selfPid ∧
    ∀ pid, pid ∈ plan.below ↔ pid ∉ plan.spine ∧
      ∃ root ∈ roots table selfPid, ReflTransGen (Started table) root pid

/-- No process that descends from a root is its own descendant by way of spine processes only. -/
def SpineUnlooped (table : ProcTable) (selfPid : Nat) : Prop :=
  ∀ root ∈ roots table selfPid, ∀ pid, ReflTransGen (Started table) root pid →
    ¬ TransGen (fun parent child => Started table parent child ∧ child ∈ spine table selfPid) pid pid

theorem mem_children {rows : List ProcRow} {parent child : Nat} :
    child ∈ children rows parent ↔ ⟨child, parent⟩ ∈ rows := by
  simp only [children, List.mem_map, List.mem_filter, decide_eq_true_eq]
  constructor
  · rintro ⟨⟨pid, above⟩, ⟨hmem, rfl⟩, rfl⟩
    exact hmem
  · intro hmem
    exact ⟨_, ⟨hmem, rfl⟩, rfl⟩

@[simp] theorem mem_addNew {set : List Nat} {pid other : Nat} :
    other ∈ addNew set pid ↔ other ∈ set ∨ other = pid := by
  unfold addNew
  split
  · rename_i hmem
    constructor
    · exact Or.inl
    · rintro (h | rfl)
      · exact h
      · exact hmem
  · simp

variable {set : List Nat} {table : ProcTable}

theorem mem_foldl_addNew {pids : List Nat} {other : Nat} :
    other ∈ pids.foldl addNew set ↔ other ∈ set ∨ other ∈ pids := by
  induction pids generalizing set with
  | nil => simp
  | cons pid rest ih =>
    rw [List.foldl_cons, ih, mem_addNew, List.mem_cons, or_assoc]

variable {pid selfPid fuel : Nat}

theorem mem_addRunner {runner : Nat} (h : pid ∈ set ∨ pid ∈ children table.rows runner) :
    pid ∈ addRunner table set runner := by
  refine mem_foldl_addNew.mpr ?_
  rcases h with hset | hchild
  · have hrunner : pid ∈ addNew set runner := mem_addNew.mpr (Or.inl hset)
    refine Or.inl ?_
    split
    · split
      · exact mem_addNew.mpr (Or.inl hrunner)
      · exact hrunner
    · exact hrunner
  · exact Or.inr hchild

theorem mem_foldl_addRunner {runners : List Nat}
    (h : pid ∈ set ∨ pid ∈ runners.flatMap (children table.rows)) :
    pid ∈ runners.foldl (addRunner table) set := by
  induction runners generalizing set with
  | nil => simpa using h
  | cons runner rest ih =>
    refine ih ?_
    rw [List.flatMap_cons, List.mem_append, ← or_assoc] at h
    rcases h with hfirst | hrest
    · exact Or.inl (mem_addRunner hfirst)
    · exact Or.inr hrest

theorem roots_spine {root : Nat} (h : root ∈ roots table selfPid) :
    root ∈ spine table selfPid := by
  refine mem_foldl_addRunner ?_
  rcases List.mem_cons.mp h with rfl | hagent
  · exact Or.inl (List.mem_singleton_self _)
  · exact Or.inr hagent

theorem child_eq_started (table : ProcTable) : Child (children table.rows) = Started table := by
  funext parent child
  exact propext mem_children

theorem through_eq_spine (table : ProcTable) (selfPid : Nat) :
    Through (children table.rows) (fun pid => decide (pid ∈ spine table selfPid)) =
      fun parent child => Started table parent child ∧ child ∈ spine table selfPid := by
  funext parent child
  exact propext (and_congr mem_children (by simp))

theorem oomPlan_ends_iff (table : ProcTable) (selfPid : Nat) :
    (∃ fuel plan, oomPlan fuel table selfPid = some plan) ↔ SpineUnlooped table selfPid := by
  have hall : ∀ pid, ∀ child ∈ children table.rows pid, child ∈ table.rows.map ProcRow.pid :=
    fun pid child hchild => List.mem_map.mpr ⟨_, mem_children.mp hchild, rfl⟩
  have hends := @walkAll_ends_iff _ _ _ (fun pid => decide (pid ∈ spine table selfPid)) _ hall
    (roots table selfPid)
  simp only [Unlooped, child_eq_started, through_eq_spine] at hends
  rw [SpineUnlooped, ← hends]
  constructor
  · rintro ⟨fuel, plan, hplan⟩
    obtain ⟨below, hbelow, _⟩ := Option.map_eq_some_iff.mp hplan
    exact ⟨fuel, below, hbelow⟩
  · rintro ⟨fuel, below, hbelow⟩
    exact ⟨fuel, _, Option.map_eq_some_iff.mpr ⟨below, hbelow, rfl⟩⟩

theorem oomPlan_exact {plan : OomPlan} (h : oomPlan fuel table selfPid = some plan) :
    plan.spine = spine table selfPid ∧ ∀ pid, pid ∈ plan.below ↔ pid ∉ plan.spine ∧
      ∃ root ∈ roots table selfPid, ReflTransGen (Started table) root pid := by
  obtain ⟨below, hbelow, rfl⟩ := Option.map_eq_some_iff.mp h
  have hmem := mem_walkAll hbelow
  rw [child_eq_started] at hmem
  refine ⟨rfl, fun pid => ?_⟩
  rw [hmem, decide_eq_false_iff_not]
  refine and_congr_right fun hnot => exists_congr fun root => and_congr_right fun hroot => ?_
  constructor
  · exact TransGen.to_reflTransGen
  · intro hreach
    rcases ReflTransGen.cases_head hreach with rfl | ⟨first, hfirst, hrest⟩
    · exact absurd (roots_spine hroot) hnot
    · exact TransGen.head' hfirst hrest

theorem oomPlan_mono {more : Nat} (hle : fuel ≤ more) {table : ProcTable} {selfPid : Nat}
    {plan : OomPlan} (h : oomPlan fuel table selfPid = some plan) :
    oomPlan more table selfPid = some plan := by
  obtain ⟨below, hbelow, rfl⟩ := Option.map_eq_some_iff.mp h
  exact Option.map_eq_some_iff.mpr ⟨below, walkAll_mono hle hbelow, rfl⟩

/-- The plan returns and covers what it is for exactly where no cycle of spine processes is below
a root. -/
theorem oomPlan_covers_iff (table : ProcTable) (selfPid : Nat) :
    Covers table selfPid ↔ SpineUnlooped table selfPid := by
  rw [← oomPlan_ends_iff]
  constructor
  · rintro ⟨fuel, plan, hplan, _⟩
    exact ⟨fuel, plan, hplan fuel (Nat.le_refl fuel)⟩
  · rintro ⟨fuel, plan, hplan⟩
    obtain ⟨hspine, hexact⟩ := oomPlan_exact hplan
    exact ⟨fuel, plan, fun more hmore => oomPlan_mono hmore hplan,
      fun pid hpid => ((hexact pid).mp hpid).1, hspine, hexact⟩

/-- A daemon and a runner that are each other's parent. -/
def crossed : ProcTable :=
  { rows := [⟨100, 200⟩, ⟨200, 100⟩]
    runners := [200] }

/-- No depth of calls is enough for them. -/
theorem crossed_does_not_return :
    (∀ fuel, oomPlan fuel crossed 100 = none) ∧ ¬ Covers crossed 100 := by
  have hlooped : ¬ SpineUnlooped crossed 100 := by
    intro h
    refine h 100 (by decide) 100 ReflTransGen.refl (TransGen.head (show _ ∧ 200 ∈ _ from ?_) ?_)
    · exact ⟨by decide, by decide⟩
    · exact TransGen.single ⟨by decide, by decide⟩
  have hnone : ∀ fuel, oomPlan fuel crossed 100 = none := by
    intro fuel
    cases hplan : oomPlan fuel crossed 100 with
    | none => rfl
    | some plan => exact absurd ((oomPlan_ends_iff _ _).mp ⟨fuel, plan, hplan⟩) hlooped
  refine ⟨hnone, ?_⟩
  rintro ⟨fuel, plan, hplan, _⟩
  have hsome := hplan fuel (Nat.le_refl fuel)
  rw [hnone] at hsome
  cases hsome

end Ccmux.Runtime.OomPriority
