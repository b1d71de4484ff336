/- Module: Ccmux/Lib/Walk
   digest: A walk over a graph that remembers what it has found, except the nodes it passes over. It
     ends exactly where no cycle runs through such nodes only, and then finds all the others. -/

import Mathlib

namespace Ccmux.Lib.Walk

open Relation (ReflTransGen TransGen)

section
variable {V : Type} [DecidableEq V]

/-- A child that has not been found is remembered, unless it is passed over, and gone into. -/
def visit (skip : V → Bool) (go : V → List V → Option (List V)) (found : List V) (child : V) :
    Option (List V) :=
  if child ∈ found then some found
  else go child (if skip child then found else found ++ [child])

/-- Everything below a node. The fuel is the depth of the calls. -/
def walk (next : V → List V) (skip : V → Bool) : Nat → V → List V → Option (List V)
  | 0, _, _ => none
  | fuel + 1, node, found => (next node).foldlM (visit skip (walk next skip fuel)) found

def walkAll (next : V → List V) (skip : V → Bool) (fuel : Nat) (roots : List V) (found : List V) :
    Option (List V) :=
  roots.foldlM (fun found root => walk next skip fuel root found) found

variable {next : V → List V} {skip : V → Bool}

def Child (next : V → List V) (a b : V) : Prop := b ∈ next a

/-- One step to a node that is passed over. -/
def Through (next : V → List V) (skip : V → Bool) (a b : V) : Prop :=
  b ∈ next a ∧ skip b = true

/-- No cycle of nodes that are all passed over can be reached. -/
def Unlooped (next : V → List V) (skip : V → Bool) (root : V) : Prop :=
  ∀ v, ReflTransGen (Child next) root v → ¬ TransGen (Through next skip) v v

/-- A node is found, or passed over with all its children handled. -/
inductive Handled (next : V → List V) (skip : V → Bool) (found : List V) : V → Prop
  | found {v : V} (h : v ∈ found) : Handled next skip found v
  | passed {v : V} (h : skip v = true) (hall : ∀ child ∈ next v, Handled next skip found child) :
      Handled next skip found v

omit [DecidableEq V] in
theorem Handled.mono {found later : List V} {v : V} (h : Handled next skip found v)
    (hsub : ∀ w ∈ found, w ∈ later) : Handled next skip later v := by
  induction h with
  | found h => exact Handled.found (hsub _ h)
  | passed h _ ih => exact Handled.passed h ih

omit [DecidableEq V] in
theorem Handled.unlooped {found : List V} {v : V} (h : Handled next skip found v)
    (hfound : ∀ w ∈ found, skip w = false) : ¬ TransGen (Through next skip) v v := by
  have hskip : ∀ w, TransGen (Through next skip) w w → skip w = true := by
    intro w hw
    obtain ⟨_, _, hlast⟩ := TransGen.tail'_iff.mp hw
    exact hlast.2
  induction h with
  | found h =>
    intro hloop
    exact absurd (hskip _ hloop) (by simp [hfound _ h])
  | passed h _ ih =>
    intro hloop
    obtain ⟨child, hchild, hback⟩ := TransGen.head'_iff.mp hloop
    exact ih child hchild.1 (TransGen.tail' hback hchild)

/-- What a walk over the children `from_` adds to what had been found. -/
structure Adds (next : V → List V) (skip : V → Bool) (from_ : List V) (found later : List V) :
    Prop where
  kept : ∀ v ∈ found, v ∈ later
  below : ∀ v ∈ later, v ∈ found ∨
    skip v = false ∧ ∃ child ∈ from_, ReflTransGen (Child next) child v
  handled : ∀ child ∈ from_, Handled next skip later child
  closed : ∀ v ∈ later, v ∉ found → ∀ child ∈ next v, Handled next skip later child

omit [DecidableEq V] in
theorem Adds.refl (found : List V) : Adds next skip [] found found :=
  ⟨fun _ h => h, fun _ h => Or.inl h, by simp, fun _ h hnot => absurd h hnot⟩

theorem Adds.trans {first second : List V} {found middle later : List V}
    (hfirst : Adds next skip first found middle) (hsecond : Adds next skip second middle later) :
    Adds next skip (first ++ second) found later := by
  refine ⟨fun v h => hsecond.kept v (hfirst.kept v h), ?_, ?_, ?_⟩
  · intro v hv
    rcases hsecond.below v hv with hmiddle | ⟨hskip, child, hchild, hreach⟩
    · rcases hfirst.below v hmiddle with hfound | ⟨hskip, child, hchild, hreach⟩
      · exact Or.inl hfound
      · exact Or.inr ⟨hskip, child, List.mem_append_left _ hchild, hreach⟩
    · exact Or.inr ⟨hskip, child, List.mem_append_right _ hchild, hreach⟩
  · intro child hchild
    rcases List.mem_append.mp hchild with hold | hnew
    · exact (hfirst.handled child hold).mono hsecond.kept
    · exact hsecond.handled child hnew
  · intro v hv hnot child hchild
    by_cases hmiddle : v ∈ middle
    · exact (hfirst.closed v hmiddle hnot child hchild).mono hsecond.kept
    · exact hsecond.closed v hv hmiddle child hchild

/-- What going into one child adds, if going into a node adds what is below it. -/
theorem visit_adds {go : V → List V → Option (List V)} {found later : List V} {child : V}
    (hgo : ∀ v found later, go v found = some later → Adds next skip (next v) found later)
    (h : visit skip go found child = some later) : Adds next skip [child] found later := by
  unfold visit at h
  split at h
  · rename_i hmem
    obtain rfl := Option.some.inj h
    exact ⟨fun _ h => h, fun _ h => Or.inl h, by simpa using Handled.found hmem,
      fun _ h hnot => absurd h hnot⟩
  · rename_i hnew
    have hadds := hgo _ _ _ h
    have hfound : ∀ v, v ∈ (if skip child then found else found ++ [child]) ↔
        v ∈ found ∨ skip child = false ∧ v = child := by
      intro v
      split <;> simp [*]
    refine ⟨fun v hv => hadds.kept v ((hfound v).mpr (Or.inl hv)), ?_, ?_, ?_⟩
    · intro v hv
      rcases hadds.below v hv with hold | ⟨hskip, below, hbelow, hreach⟩
      · rcases (hfound v).mp hold with hold | ⟨hskip, rfl⟩
        · exact Or.inl hold
        · exact Or.inr ⟨hskip, v, List.mem_singleton_self v, ReflTransGen.refl⟩
      · exact Or.inr ⟨hskip, child, List.mem_singleton_self child, ReflTransGen.head hbelow hreach⟩
    · intro c hc
      obtain rfl := List.mem_singleton.mp hc
      cases hskip : skip c with
      | true => exact Handled.passed hskip hadds.handled
      | false => exact Handled.found (hadds.kept c ((hfound c).mpr (Or.inr ⟨hskip, rfl⟩)))
    · intro v hv hnot c hc
      by_cases hstart : v ∈ (if skip child then found else found ++ [child])
      · rcases (hfound v).mp hstart with hold | ⟨_, rfl⟩
        · exact absurd hold hnot
        · exact hadds.handled c hc
      · exact hadds.closed v hv hstart c hc

theorem foldlM_adds {f : List V → V → Option (List V)} {into : V → List V} {found later : List V}
    {from_ : List V} (hf : ∀ found v later, f found v = some later →
      Adds next skip (into v) found later)
    (h : from_.foldlM f found = some later) : Adds next skip (from_.flatMap into) found later := by
  induction from_ generalizing found with
  | nil =>
    obtain rfl := Option.some.inj h
    exact Adds.refl found
  | cons v rest ih =>
    obtain ⟨middle, hmiddle, hrest⟩ := Option.bind_eq_some_iff.mp h
    exact (hf _ _ _ hmiddle).trans (ih hrest)

theorem walk_adds {fuel : Nat} {v : V} {found later : List V}
    (h : walk next skip fuel v found = some later) : Adds next skip (next v) found later := by
  induction fuel generalizing v found later with
  | zero => cases h
  | succ fuel ih =>
    have hadds : Adds next skip ((next v).flatMap fun child => [child]) found later :=
      foldlM_adds (fun _ _ _ hstep => visit_adds (fun _ _ _ hgo => ih hgo) hstep) h
    rwa [List.flatMap_singleton'] at hadds

theorem walkAll_adds {fuel : Nat} {roots found later : List V}
    (h : walkAll next skip fuel roots found = some later) :
    Adds next skip (roots.flatMap next) found later :=
  foldlM_adds (fun _ _ _ hstep => walk_adds hstep) h

omit [DecidableEq V] in
theorem Adds.reaches {from_ later : List V} (h : Adds next skip from_ [] later) {child v : V}
    (hchild : child ∈ from_) (hreach : ReflTransGen (Child next) child v) :
    Handled next skip later v := by
  induction hreach with
  | refl => exact h.handled child hchild
  | tail _ hstep ih =>
    cases ih with
    | found hmem => exact h.closed _ hmem (List.not_mem_nil) _ hstep
    | passed _ hall => exact hall _ hstep

theorem mem_walkAll {fuel : Nat} {roots found : List V}
    (h : walkAll next skip fuel roots [] = some found) (v : V) :
    v ∈ found ↔ skip v = false ∧ ∃ root ∈ roots, TransGen (Child next) root v := by
  have hadds := walkAll_adds h
  constructor
  · intro hv
    rcases hadds.below v hv with hnone | ⟨hskip, child, hchild, hreach⟩
    · cases hnone
    · obtain ⟨root, hroot, hstep⟩ := List.mem_flatMap.mp hchild
      exact ⟨hskip, root, hroot, TransGen.head' hstep hreach⟩
  · rintro ⟨hskip, root, hroot, hreach⟩
    obtain ⟨child, hchild, hrest⟩ := TransGen.head'_iff.mp hreach
    cases hadds.reaches (List.mem_flatMap.mpr ⟨root, hroot, hchild⟩) hrest with
    | found hmem => exact hmem
    | passed hpassed _ => rw [hskip] at hpassed; cases hpassed

/-! ### Where a walk ends -/

omit [DecidableEq V] in
theorem foldlM_imp {f g : List V → V → Option (List V)}
    (hfg : ∀ found v later, f found v = some later → g found v = some later) {from_ : List V}
    {found later : List V} (h : from_.foldlM f found = some later) :
    from_.foldlM g found = some later := by
  induction from_ generalizing found with
  | nil => exact h
  | cons v rest ih =>
    obtain ⟨middle, hmiddle, hrest⟩ := Option.bind_eq_some_iff.mp h
    exact Option.bind_eq_some_iff.mpr ⟨middle, hfg _ _ _ hmiddle, ih hrest⟩

theorem visit_imp {go more : V → List V → Option (List V)}
    (hgo : ∀ v found later, go v found = some later → more v found = some later)
    (found : List V) (v : V) (later : List V) (h : visit skip go found v = some later) :
    visit skip more found v = some later := by
  unfold visit at h ⊢
  split at h
  · rename_i hmem
    rw [if_pos hmem]
    exact h
  · rename_i hnew
    rw [if_neg hnew]
    exact hgo _ _ _ h

theorem walk_mono {fuel more : Nat} (hle : fuel ≤ more) (v : V) (found later : List V)
    (h : walk next skip fuel v found = some later) : walk next skip more v found = some later := by
  induction fuel generalizing more v found later with
  | zero => cases h
  | succ fuel ih =>
    obtain ⟨more, rfl⟩ := Nat.exists_eq_add_of_lt hle
    exact foldlM_imp (visit_imp fun v found later hgo => ih (by omega) v found later hgo) h

theorem walkAll_mono {fuel more : Nat} (hle : fuel ≤ more) {roots found later : List V}
    (h : walkAll next skip fuel roots found = some later) :
    walkAll next skip more roots found = some later :=
  foldlM_imp (fun found v later hstep => walk_mono hle v found later hstep) h

/-- The nodes that a walk can still find. -/
def remaining (all found : List V) : Nat := (all.filter fun v => v ∉ found).length

theorem remaining_le {all found later : List V} (h : ∀ v ∈ found, v ∈ later) :
    remaining all later ≤ remaining all found := by
  refine (List.monotone_filter_right all ?_).length_le
  intro v hv
  simp only [decide_eq_true_eq] at hv ⊢
  exact fun hmem => hv (h v hmem)

theorem remaining_lt {all found : List V} {v : V} (hall : v ∈ all) (hnew : v ∉ found) :
    remaining all (found ++ [v]) < remaining all found := by
  unfold remaining
  induction all with
  | nil => cases hall
  | cons w rest ih =>
    have hle : remaining rest (found ++ [v]) ≤ remaining rest found :=
      remaining_le fun _ h => List.mem_append_left _ h
    unfold remaining at hle
    by_cases heq : w = v
    · subst heq
      simpa [hnew] using Nat.lt_succ_of_le hle
    · have hlt := ih ((List.mem_cons.mp hall).resolve_left fun h => heq h.symm)
      by_cases hw : w ∈ found
      · simpa [List.filter_cons, hw, heq] using hlt
      · simpa [List.filter_cons, hw, heq] using hlt

theorem children_end {all : List V} {bound : Nat} {children : List V}
    (hchild : ∀ child ∈ children, ∀ found, remaining all found ≤ bound → child ∉ found →
      ∃ fuel later, walk next skip fuel child (if skip child then found else found ++ [child]) =
        some later) {found : List V} (hfound : remaining all found ≤ bound) :
    ∃ fuel later, children.foldlM (visit skip (walk next skip fuel)) found = some later := by
  induction children generalizing found with
  | nil => exact ⟨0, found, rfl⟩
  | cons child rest ih =>
    have hrest : ∀ middle, remaining all middle ≤ bound → ∃ fuel later,
        rest.foldlM (visit skip (walk next skip fuel)) middle = some later := fun middle hmiddle =>
      ih (fun c hc => hchild c (List.mem_cons_of_mem child hc)) hmiddle
    have hfirst : ∃ fuel middle, visit skip (walk next skip fuel) found child = some middle := by
      by_cases hmem : child ∈ found
      · exact ⟨0, found, if_pos hmem⟩
      · obtain ⟨fuel, middle, hwalk⟩ := hchild child List.mem_cons_self found hfound hmem
        exact ⟨fuel, middle, by rw [visit, if_neg hmem]; exact hwalk⟩
    obtain ⟨fuel, middle, hvisit⟩ := hfirst
    have hadds := visit_adds (fun _ _ _ hgo => walk_adds hgo) hvisit
    obtain ⟨more, later, hmore⟩ := hrest middle ((remaining_le hadds.kept).trans hfound)
    refine ⟨max fuel more, later, Option.bind_eq_some_iff.mpr ⟨middle, ?_, ?_⟩⟩
    · exact visit_imp (walk_mono (Nat.le_max_left fuel more)) _ _ _ hvisit
    · exact foldlM_imp (visit_imp (walk_mono (Nat.le_max_right fuel more))) hmore

/-- A walk ends whose root reaches no cycle of nodes that are all passed over. -/
theorem walk_ends {all : List V} (hall : ∀ v, ∀ child ∈ next v, child ∈ all) {root : V}
    (hloop : Unlooped next skip root) (found : List V) :
    ∃ fuel later, walk next skip fuel root found = some later := by
  let Node := {v : V // v ∈ root :: all ∧ ReflTransGen (Child next) root v}
  let Below : Node → Node → Prop := fun b a => TransGen (Through next skip) a.1 b.1
  have : Finite Node := ((root :: all).finite_toSet.subset fun v hv => hv.1).to_subtype
  have : IsTrans Node Below := ⟨fun _ _ _ hab hbc => hbc.trans hab⟩
  have : Std.Irrefl Below := ⟨fun a hself => hloop a.1 a.2.2 hself⟩
  have hwf : WellFounded Below := Finite.wellFounded_of_trans_of_irrefl Below
  have hends : ∀ bound, ∀ node : Node, ∀ found, remaining all found ≤ bound →
      ∃ fuel later, walk next skip fuel node.1 found = some later := by
    intro bound
    induction bound using Nat.strong_induction_on with
    | _ bound ihbound =>
      intro node
      induction node using hwf.induction with
      | _ node ihnode =>
        intro found hfound
        have hchild : ∀ child ∈ next node.1, ∀ found, remaining all found ≤ bound →
            child ∉ found → ∃ fuel later, walk next skip fuel child
              (if skip child then found else found ++ [child]) = some later := by
          intro child hmem found hfound hnew
          have hnode : child ∈ root :: all ∧ ReflTransGen (Child next) root child :=
            ⟨List.mem_cons_of_mem root (hall _ child hmem), node.2.2.tail hmem⟩
          cases hskip : skip child with
          | true => exact ihnode ⟨child, hnode⟩ (TransGen.single ⟨hmem, hskip⟩) found hfound
          | false =>
            have hlt := remaining_lt (hall _ child hmem) hnew
            exact ihbound _ (hlt.trans_le hfound) ⟨child, hnode⟩ _ (Nat.le_refl _)
        obtain ⟨fuel, later, hlater⟩ := children_end hchild hfound
        exact ⟨fuel + 1, later, hlater⟩
  exact hends _ ⟨root, List.mem_cons_self, ReflTransGen.refl⟩ found (Nat.le_refl _)

/-- The walk from all roots ends exactly where none of them reaches such a cycle. -/
theorem walkAll_ends_iff {all : List V} (hall : ∀ v, ∀ child ∈ next v, child ∈ all)
    (roots : List V) :
    (∃ fuel later, walkAll next skip fuel roots [] = some later) ↔
      ∀ root ∈ roots, Unlooped next skip root := by
  constructor
  · rintro ⟨fuel, later, h⟩ root hroot v hreach hloop
    have hadds := walkAll_adds h
    have hfound : ∀ w ∈ later, skip w = false := fun w hw => ((mem_walkAll h w).mp hw).1
    obtain ⟨child, hstep, hback⟩ := TransGen.head'_iff.mp hloop
    have hchild : Handled next skip later child := by
      rcases ReflTransGen.cases_head hreach with rfl | ⟨first, hfirst, hrest⟩
      · exact hadds.handled child (List.mem_flatMap.mpr ⟨root, hroot, hstep.1⟩)
      · exact hadds.reaches (List.mem_flatMap.mpr ⟨root, hroot, hfirst⟩) (hrest.tail hstep.1)
    exact hchild.unlooped hfound (TransGen.tail' hback hstep)
  · intro hloop
    have hends : ∀ found, ∃ fuel later, walkAll next skip fuel roots found = some later := by
      induction roots with
      | nil => exact fun found => ⟨0, found, rfl⟩
      | cons root rest ih =>
        intro found
        obtain ⟨fuel, middle, hwalk⟩ := walk_ends hall (hloop root List.mem_cons_self) found
        obtain ⟨more, later, hmore⟩ :=
          ih (fun r hr => hloop r (List.mem_cons_of_mem root hr)) middle
        refine ⟨max fuel more, later, Option.bind_eq_some_iff.mpr ⟨middle, ?_, ?_⟩⟩
        · exact walk_mono (Nat.le_max_left fuel more) _ _ _ hwalk
        · exact walkAll_mono (Nat.le_max_right fuel more) hmore
    exact hends []

end

end Ccmux.Lib.Walk
