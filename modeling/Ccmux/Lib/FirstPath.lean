/- Module: Ccmux/Lib/FirstPath
   digest: A walk over a graph that goes a bounded number of steps deep and remembers every node it
     has met. The path on which it meets a node is the first one, in the order of the edges, among
     the paths that go on from the first path of another node; so which nodes it misses can be read
     off the graph. -/

import Mathlib

namespace Ccmux.Lib.FirstPath

/-! ### The order of paths -/

/-- A path is the edges it takes, each by its place among the edges of its node. -/
abbrev Route := List Nat

/-- The order in which a walk that goes deep first takes its paths. -/
def Before (p q : Route) : Prop := List.Lex (· < ·) p q

theorem before_irrefl (p : Route) : ¬ Before p p := List.lex_irrefl Nat.lt_irrefl p

theorem Before.trans {p q r : Route} (hpq : Before p q) (hqr : Before q r) : Before p r :=
  List.lex_trans (fun h h' => Nat.lt_trans h h') hpq hqr

theorem Before.asymm {p q : Route} (h : Before p q) : ¬ Before q p :=
  fun hback => before_irrefl p (h.trans hback)

theorem before_or_eq {p q : Route} (h : ¬ Before q p) : p = q ∨ Before p q := by
  by_contra hnot
  rw [not_or] at hnot
  exact hnot.1 ((inferInstance : Std.Trichotomous (List.Lex (α := Nat) (· < ·))).trichotomous p q
    hnot.2 h)

theorem before_append (p : Route) (i : Nat) (more : Route) : Before p (p ++ i :: more) := by
  have h := List.Lex.append_left (· < ·) (List.Lex.nil (a := i) (l := more)) p
  rwa [List.append_nil] at h

theorem before_of_prefix {p q : Route} {i j : Nat} (h : p ++ [i] <+: q) (hij : i < j) :
    Before q (p ++ [j]) := by
  obtain ⟨more, rfl⟩ := h
  rw [List.append_assoc]
  exact List.Lex.append_left (· < ·) (List.Lex.rel hij) p

/-- Among paths of a bounded length there is a first one. -/
theorem exists_first {S : Set Route} {n : Nat} (hlength : ∀ p ∈ S, p.length ≤ n)
    (hne : S.Nonempty) : ∃ p ∈ S, ∀ q ∈ S, ¬ Before q p := by
  induction n generalizing S with
  | zero =>
    obtain ⟨p, hp⟩ := hne
    refine ⟨p, hp, fun q _ hq => ?_⟩
    rw [List.eq_nil_of_length_eq_zero (Nat.le_zero.mp (hlength p hp))] at hq
    cases hq
  | succ n ih =>
    by_cases hnil : [] ∈ S
    · refine ⟨[], hnil, fun q _ hq => ?_⟩
      cases hq
    · have hheads : ∃ i more, i :: more ∈ S := by
        obtain ⟨p, hp⟩ := hne
        cases p with
        | nil => exact absurd hp hnil
        | cons i more => exact ⟨i, more, hp⟩
      classical
      have hmore := Nat.find_spec hheads
      have hbelow := fun i => @Nat.find_min _ _ hheads i
      obtain ⟨more, hin, hfirst⟩ :=
        @ih {more | Nat.find hheads :: more ∈ S}
          (fun more hin => Nat.le_of_succ_le_succ (hlength _ hin)) hmore
      refine ⟨Nat.find hheads :: more, hin, fun q hq hbefore => ?_⟩
      cases hbefore with
      | nil => exact hnil hq
      | cons h => exact hfirst _ hq h
      | rel h => exact hbelow _ h ⟨_, hq⟩

/-! ### First paths -/

section
variable {V : Type} {next : V → List V} {limit : Nat} {root : V}

/-- A path that goes on, by one edge, from the path of a node that is not too deep. -/
def GoesOn (next : V → List V) (limit : Nat) (P : V → Route → Prop) (v : V) (p : Route) : Prop :=
  ∃ u q i, P u q ∧ q.length < limit ∧ (next u)[i]? = some v ∧ p = q ++ [i]

/-- Each node has at most one path, and that is the first of those that go on from such a path. -/
structure FirstPaths (next : V → List V) (limit : Nat) (root : V) (P : V → Route → Prop) : Prop where
  start : P root []
  one : ∀ v p q, P v p → P v q → p = q
  goesOn : ∀ v p, P v p → v = root ∧ p = [] ∨ GoesOn next limit P v p
  first : ∀ v p, GoesOn next limit P v p → ∃ q, P v q ∧ ¬ Before p q

variable {P Q : V → Route → Prop}

theorem FirstPaths.length_le (hP : FirstPaths next limit root P) {v : V} {p : Route} (h : P v p) :
    p.length ≤ limit := by
  rcases hP.goesOn v p h with ⟨_, rfl⟩ | ⟨u, q, i, _, hlength, _, rfl⟩
  · exact Nat.zero_le limit
  · rw [List.length_append, List.length_singleton]
    exact hlength

/-- The first difference between two such assignments of paths is none. -/
theorem FirstPaths.eq (hP : FirstPaths next limit root P) (hQ : FirstPaths next limit root Q) :
    P = Q := by
  have hone : ∀ {P Q : V → Route → Prop}, FirstPaths next limit root P →
      FirstPaths next limit root Q → ∀ p, (∀ v q, Before q p → (P v q ↔ Q v q)) →
        ∀ v, P v p → Q v p := by
    intro P Q hP hQ p hbefore v hp
    rcases hP.goesOn v p hp with ⟨rfl, rfl⟩ | ⟨u, q, i, hq, hlength, hedge, rfl⟩
    · exact hQ.start
    · have hparent : Q u q := (hbefore u q (before_append q i [])).mp hq
      obtain ⟨r, hr, hfirst⟩ := hQ.first v (q ++ [i]) ⟨u, q, i, hparent, hlength, hedge, rfl⟩
      rcases before_or_eq hfirst with rfl | hearlier
      · exact hr
      · have hsame := hP.one v _ _ hp ((hbefore v r hearlier).mpr hr)
        exact absurd (hsame ▸ hearlier) (before_irrefl r)
  by_contra hne
  obtain ⟨p, ⟨v, hdiffer⟩, hfirst⟩ := @exists_first {p | ∃ v, ¬ (P v p ↔ Q v p)} limit
    (by
      rintro p ⟨v, hdiffer⟩
      by_cases hp : P v p
      · exact hP.length_le hp
      · by_cases hq : Q v p
        · exact hQ.length_le hq
        · exact absurd (iff_of_false hp hq) hdiffer)
    (by
      by_contra hempty
      refine hne (funext fun v => funext fun p => propext ?_)
      by_contra hdiffer
      exact hempty ⟨p, v, hdiffer⟩)
  have hbefore : ∀ v q, Before q p → (P v q ↔ Q v q) := by
    intro w q hq
    by_contra hother
    exact hfirst q ⟨w, hother⟩ hq
  exact hdiffer ⟨hone hP hQ p hbefore v, hone hQ hP p (fun w q hq => (hbefore w q hq).symm) v⟩

end

/-! ### The walk -/

section
variable {V : Type} [DecidableEq V]

/-- What is found from a node on; the budget is one more than the steps that are left. -/
def walk (next : V → List V) : Nat → V → List V → List V
  | 0, _, found => found
  | budget + 1, v, found =>
    if v ∈ found then found
    else (next v).foldl (fun found child => walk next budget child found) (found ++ [v])

/-- The walk that writes down the path on which it meets each node. -/
def trail (next : V → List V) : Nat → V → Route → List (V × Route) → List (V × Route)
  | 0, _, _, found => found
  | budget + 1, v, p, found =>
    if v ∈ found.map Prod.fst then found
    else (next v).zipIdx.foldl (fun found edge => trail next budget edge.1 (p ++ [edge.2]) found)
      (found ++ [(v, p)])

theorem map_trail (next : V → List V) (budget : Nat) (v : V) (p : Route)
    (found : List (V × Route)) :
    (trail next budget v p found).map Prod.fst = walk next budget v (found.map Prod.fst) := by
  induction budget generalizing v p found with
  | zero => rfl
  | succ budget ih =>
    have hloop : ∀ (children : List V) (k : Nat) (found : List (V × Route)),
        ((children.zipIdx k).foldl
          (fun found edge => trail next budget edge.1 (p ++ [edge.2]) found) found).map Prod.fst =
        children.foldl (fun found child => walk next budget child found) (found.map Prod.fst) := by
      intro children
      induction children with
      | nil => exact fun _ _ => rfl
      | cons child rest ihrest =>
        intro k found
        rw [List.zipIdx_cons, List.foldl_cons, List.foldl_cons, ihrest, ih]
    rw [trail, walk]
    split
    · rfl
    · rw [hloop, List.map_append]
      rfl

variable {next : V → List V} {limit : Nat}

/-- What one call, or one loop over children, adds to what had been found. -/
structure Grows (next : V → List V) (limit : Nat) (start : V × Route → Prop)
    (found later : List (V × Route)) : Prop where
  kept : ∀ x ∈ found, x ∈ later
  fresh : ∀ x ∈ later, x ∈ found ∨ start x ∨
    ∃ y ∈ later, ∃ i, y.2.length < limit ∧ (next y.1)[i]? = some x.1 ∧ x.2 = y.2 ++ [i]
  closed : ∀ x ∈ later, x ∉ found → x.2.length < limit → ∀ i w, (next x.1)[i]? = some w →
    ∃ q, (w, q) ∈ later ∧ ¬ Before (x.2 ++ [i]) q
  nodup : (found.map Prod.fst).Nodup → (later.map Prod.fst).Nodup

structure Visits (next : V → List V) (limit : Nat) (v : V) (p : Route)
    (found later : List (V × Route)) : Prop extends Grows next limit (· = (v, p)) found later where
  below : ∀ x ∈ later, x ∈ found ∨ p <+: x.2
  met : p.length ≤ limit → ∃ q, (v, q) ∈ later ∧ ¬ Before p q

/-- What a loop over the children from one place on adds. -/
structure Follows (next : V → List V) (limit : Nat) (p : Route) (children : List V) (k : Nat)
    (found later : List (V × Route)) : Prop extends
    Grows next limit (fun _ => False) found later where
  below : ∀ x ∈ later, x ∈ found ∨ p <+: x.2
  met : p.length < limit → ∀ i w, children[i]? = some w →
    ∃ q, (w, q) ∈ later ∧ ¬ Before (p ++ [k + i]) q

omit [DecidableEq V] in
theorem Visits.refl {v : V} {p : Route} {found : List (V × Route)}
    (h : p.length ≤ limit → ∃ q, (v, q) ∈ found ∧ ¬ Before p q) :
    Visits next limit v p found found where
  kept := fun _ hx => hx
  fresh := fun _ hx => Or.inl hx
  closed := fun _ hx hnot => absurd hx hnot
  nodup := id
  below := fun _ hx => Or.inl hx
  met := h

/-- A loop, if each call it makes does what calls do. -/
theorem follows_loop {go : V → Route → List (V × Route) → List (V × Route)} {u : V} {p : Route}
    {children : List V} {k : Nat} {found : List (V × Route)}
    (hgo : ∀ v i found, (∀ x ∈ found, Before x.2 (p ++ [i])) →
      Visits next limit v (p ++ [i]) found (go v (p ++ [i]) found))
    (hdeep : ∀ v q found, limit ≤ p.length → go v q found = found)
    (hplace : ∀ i w, children[i]? = some w → (next u)[k + i]? = some w)
    (hfound : (u, p) ∈ found) (hbefore : ∀ x ∈ found, Before x.2 (p ++ [k])) :
    Follows next limit p children k found ((children.zipIdx k).foldl
      (fun found edge => go edge.1 (p ++ [edge.2]) found) found) := by
  induction children generalizing k found with
  | nil =>
    exact ⟨⟨fun _ hx => hx, fun _ hx => Or.inl hx, fun _ hx hnot => absurd hx hnot, id⟩,
      fun _ hx => Or.inl hx, fun _ i w h => by simp at h⟩
  | cons child rest ih =>
    rw [List.zipIdx_cons, List.foldl_cons]
    have hfirst := hgo child k found hbefore
    obtain ⟨middle, hmiddle⟩ : ∃ middle, middle = go child (p ++ [k]) found := ⟨_, rfl⟩
    rw [← hmiddle] at hfirst ⊢
    have hrest := @ih (k + 1) middle
      (fun i w h => by
        have hw := hplace (i + 1) w (by rwa [List.getElem?_cons_succ])
        rwa [Nat.add_assoc, Nat.add_comm 1 i])
      (hfirst.kept _ hfound)
      (fun x hx => by
        rcases hfirst.below x hx with hold | hnew
        · refine (hbefore x hold).trans ?_
          exact before_of_prefix (List.prefix_refl _) (Nat.lt_succ_self k)
        · exact before_of_prefix hnew (Nat.lt_succ_self k))
    refine ⟨⟨fun x hx => hrest.kept x (hfirst.kept x hx), ?_, ?_, fun h => hrest.nodup (hfirst.nodup h)⟩,
      ?_, ?_⟩
    · intro x hx
      rcases hrest.fresh x hx with hold | hnone | hlater
      · rcases hfirst.fresh x hold with hold | rfl | ⟨y, hy, hedge⟩
        · exact Or.inl hold
        · by_cases hdepth : limit ≤ p.length
          · rw [hdeep child _ found hdepth] at hmiddle
            exact Or.inl (hmiddle ▸ hold)
          · exact Or.inr (Or.inr ⟨(u, p), hrest.kept _ (hfirst.kept _ hfound), k,
              Nat.lt_of_not_le hdepth, hplace 0 child rfl, rfl⟩)
        · exact Or.inr (Or.inr ⟨y, hrest.kept y hy, hedge⟩)
      · exact hnone.elim
      · exact Or.inr (Or.inr hlater)
    · intro x hx hnot hlength i w hedge
      by_cases hold : x ∈ middle
      · obtain ⟨q, hq, hfirst⟩ := hfirst.closed x hold hnot hlength i w hedge
        exact ⟨q, hrest.kept _ hq, hfirst⟩
      · exact hrest.closed x hx hold hlength i w hedge
    · intro x hx
      rcases hrest.below x hx with hold | hnew
      · rcases hfirst.below x hold with hold | hnew
        · exact Or.inl hold
        · exact Or.inr ((List.prefix_append p [k]).trans hnew)
      · exact Or.inr hnew
    · intro hlength i w h
      cases i with
      | zero =>
        obtain rfl : child = w := Option.some.inj h
        obtain ⟨q, hq, hnot⟩ := hfirst.met (by rw [List.length_append]; exact hlength)
        exact ⟨q, hrest.kept _ hq, hnot⟩
      | succ i =>
        rw [List.getElem?_cons_succ] at h
        have hmet := hrest.met hlength i w h
        rwa [Nat.add_assoc, Nat.add_comm 1 i] at hmet

/-- What a call adds, if everything found so far comes before its path. -/
theorem visits_trail {budget : Nat} {v : V} {p : Route} {found : List (V × Route)}
    (hbudget : p.length + budget = limit + 1) (hbefore : ∀ x ∈ found, Before x.2 p) :
    Visits next limit v p found (trail next budget v p found) := by
  induction budget generalizing v p found with
  | zero => exact Visits.refl fun hlength => absurd hbudget (by omega)
  | succ budget ih =>
    rw [trail]
    split
    · rename_i hmem
      obtain ⟨⟨w, q⟩, hq, rfl⟩ := List.mem_map.mp hmem
      exact Visits.refl fun _ => ⟨q, hq, (hbefore _ hq).asymm⟩
    · rename_i hnew
      have hgo : ∀ w i found, (∀ x ∈ found, Before x.2 (p ++ [i])) →
          Visits next limit w (p ++ [i]) found (trail next budget w (p ++ [i]) found) := by
        intro w i found h
        refine ih ?_ h
        rw [List.length_append, List.length_singleton]
        omega
      have hdeep : ∀ w q found, limit ≤ p.length → trail next budget w q found = found := by
        intro w q found hdepth
        obtain rfl : budget = 0 := by omega
        rfl
      have hloop := @follows_loop V _ next limit (trail next budget) v p (next v) 0
        (found ++ [(v, p)]) hgo hdeep (fun i w h => by rwa [Nat.zero_add])
        (List.mem_append_right _ List.mem_cons_self)
        (fun x hx => by
          rcases List.mem_append.mp hx with hold | hself
          · exact (hbefore x hold).trans (before_append p 0 [])
          · rw [List.mem_singleton.mp hself]
            exact before_append p 0 [])
      have hself : (v, p) ∈ found ++ [(v, p)] := List.mem_append_right _ List.mem_cons_self
      refine ⟨⟨fun x hx => hloop.kept x (List.mem_append_left _ hx), ?_, ?_, ?_⟩, ?_, ?_⟩
      · intro x hx
        rcases hloop.fresh x hx with hold | hnone | hlater
        · rcases List.mem_append.mp hold with hold | hself
          · exact Or.inl hold
          · exact Or.inr (Or.inl (List.mem_singleton.mp hself))
        · exact hnone.elim
        · exact Or.inr (Or.inr hlater)
      · intro x hx hnot hlength i w hedge
        by_cases hold : x ∈ found ++ [(v, p)]
        · have hx : x = (v, p) := by
            rcases List.mem_append.mp hold with hold | hself
            · exact absurd hold hnot
            · exact List.mem_singleton.mp hself
          rw [hx] at hedge hlength ⊢
          have hmet := hloop.met hlength i w hedge
          rwa [Nat.zero_add] at hmet
        · exact hloop.closed x hx hold hlength i w hedge
      · intro hnodup
        refine hloop.nodup ?_
        rw [List.map_append, List.nodup_append]
        refine ⟨hnodup, List.nodup_singleton v, ?_⟩
        rintro a ha b hb rfl
        rw [List.map_singleton, List.mem_singleton] at hb
        exact hnew (by rwa [hb] at ha)
      · intro x hx
        rcases hloop.below x hx with hold | hbelow
        · rcases List.mem_append.mp hold with hold | hself
          · exact Or.inl hold
          · rw [List.mem_singleton.mp hself]
            exact Or.inr (List.prefix_refl p)
        · exact Or.inr hbelow
      · exact fun _ => ⟨p, hloop.kept _ hself, before_irrefl p⟩

theorem firstPaths_trail (next : V → List V) (limit : Nat) (root : V) :
    FirstPaths next limit root fun v p => (v, p) ∈ trail next (limit + 1) root [] [] := by
  have hvisits : Visits next limit root [] [] (trail next (limit + 1) root [] []) :=
    visits_trail (by simp) (by simp)
  refine ⟨?_, ?_, ?_, ?_⟩
  · obtain ⟨q, hq, hfirst⟩ := hvisits.met (Nat.zero_le limit)
    cases q with
    | nil => exact hq
    | cons i more => exact absurd List.Lex.nil hfirst
  · intro v p q hp hq
    have hnodup := hvisits.nodup List.nodup_nil
    have hsame := List.inj_on_of_nodup_map hnodup hp hq rfl
    exact congrArg Prod.snd hsame
  · intro v p hp
    rcases hvisits.fresh _ hp with hnone | hroot | ⟨y, hy, i, hlength, hedge, hp⟩
    · cases hnone
    · exact Or.inl ⟨congrArg Prod.fst hroot, congrArg Prod.snd hroot⟩
    · exact Or.inr ⟨y.1, y.2, i, hy, hlength, hedge, hp⟩
  · rintro v p ⟨u, q, i, hq, hlength, hedge, rfl⟩
    exact hvisits.closed _ hq List.not_mem_nil hlength i v hedge

theorem mem_walk_iff {root : V} {P : V → Route → Prop} (hP : FirstPaths next limit root P) (v : V) :
    v ∈ walk next (limit + 1) root [] ↔ ∃ p, P v p := by
  have hsame := hP.eq (firstPaths_trail next limit root)
  have hmap := map_trail next (limit + 1) root [] []
  rw [List.map_nil] at hmap
  rw [← hmap, List.mem_map, hsame]
  constructor
  · rintro ⟨⟨w, p⟩, hp, rfl⟩
    exact ⟨p, hp⟩
  · rintro ⟨p, hp⟩
    exact ⟨(v, p), hp, rfl⟩

/-! ### What the walk misses -/

/-- A node a bounded number of steps away. -/
inductive Within (next : V → List V) (root : V) : Nat → V → Prop
  | root (n : Nat) : Within next root n root
  | step {n : Nat} {u v : V} (h : Within next root n u) (hedge : v ∈ next u) :
    Within next root (n + 1) v

omit [DecidableEq V] in
theorem Within.mono {root v : V} {n m : Nat} (h : Within next root n v) (hle : n ≤ m) :
    Within next root m v := by
  induction h generalizing m with
  | root n => exact Within.root m
  | step h hedge ih =>
    cases m with
    | zero => omega
    | succ m => exact (ih (by omega)).step hedge

theorem walk_complete_iff {root : V} {P : V → Route → Prop}
    (hP : FirstPaths next (limit + 1) root P) :
    (∀ v, Within next root (limit + 1) v → v ∈ walk next (limit + 2) root []) ↔
      ∀ v p, Within next root limit v → P v p → p.length = limit + 1 → ∀ w ∈ next v, ∃ q, P w q := by
  constructor
  · intro hall v p hv _ _ w hw
    exact (mem_walk_iff hP w).mp (hall w (hv.step hw))
  · intro hhidden v hv
    have hmet : ∀ n v, Within next root n v → n ≤ limit + 1 → ∃ p, P v p := by
      intro n v hv
      induction hv with
      | root n => exact fun _ => ⟨[], hP.start⟩
      | @step n u w hu hedge ih =>
        intro hn
        obtain ⟨p, hp⟩ := ih (by omega)
        rcases Nat.lt_or_ge p.length (limit + 1) with hshort | hlong
        · obtain ⟨i, hi⟩ := List.getElem?_of_mem hedge
          obtain ⟨q, hq, _⟩ := hP.first w (p ++ [i]) ⟨u, p, i, hp, hshort, hi, rfl⟩
          exact ⟨q, hq⟩
        · have hlimit : Within next root limit u := hu.mono (by omega)
          exact hhidden u p hlimit hp (Nat.le_antisymm (hP.length_le hp) hlong) w hedge
    exact (mem_walk_iff hP v).mpr (hmet _ v hv (Nat.le_refl _))

end

end Ccmux.Lib.FirstPath
