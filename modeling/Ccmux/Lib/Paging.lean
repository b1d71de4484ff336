/- Module: Ccmux/Lib/Paging
   digest: Rows served in pages under a budget, and what a reader gets that follows the cursors. -/

import Mathlib

namespace Ccmux.Lib.Paging

universe u v

variable {α : Type u} {γ : Type v}

/-- The rows from the front that fit in the budget beside what is used already. -/
@[grind =]
def fitting (size : α → Nat) (budget : Nat) : Nat → List α → List α
  | _, [] => []
  | used, row :: rest =>
    if budget < used + size row then [] else row :: fitting size budget (used + size row) rest

/-- One page, and the cursor of the next. -/
structure Page (α : Type u) (γ : Type v) where
  rows : List α
  next : Option γ

/-- The pages of a reader that follows the cursors; `none` when the pages outlast the fuel. -/
@[grind =]
def follow (read : Option γ → Page α γ) : Nat → Option γ → Option (List (Page α γ))
  | 0, _ => none
  | fuel + 1, cursor =>
    match (read cursor).next with
    | none => some [read cursor]
    | some next => (follow read fuel (some next)).map fun pages => read cursor :: pages

/-- How pages are cut: their most rows, the bytes of a row, and the bytes used by and open to a
page. -/
structure Cut (α : Type u) where
  limit : Nat
  size : α → Nat
  used : Nat
  budget : Nat

/-- The rows of the page from `start` on. -/
def Cut.pageAt (cut : Cut α) (rows : List α) (start : Nat) : List α :=
  fitting cut.size cut.budget cut.used ((rows.drop start).take cut.limit)

def Cut.Takes (cut : Cut α) (row : α) : Prop := cut.used + cut.size row ≤ cut.budget

/-- The reader's page starts where its cursor stands, and points on exactly while rows are left. -/
structure Serves (cut : Cut α) (rows : List α) (start : Option γ → Nat)
    (read : Option γ → Page α γ) : Prop where
  start_none : start none = 0
  rows_eq : ∀ cursor, (read cursor).rows = cut.pageAt rows (start cursor)
  start_next : ∀ cursor next, (read cursor).next = some next →
    start (some next) = start cursor + (read cursor).rows.length
  next_none : ∀ cursor, (read cursor).next = none ↔
    rows.length ≤ start cursor + (read cursor).rows.length

/-- The pages of a walk from the start: every row once and in order, no page empty but the last,
and each cursor beyond the one before it. -/
structure Covers (rows : List α) (start : Option γ → Nat) (read : Option γ → Page α γ)
    (pages : List (Page α γ)) : Prop where
  ends : follow read (rows.length + 1) none = some pages
  rows_eq : pages.flatMap Page.rows = rows
  filled : ∀ page ∈ pages.dropLast, page.rows ≠ []
  moves : ((start none) :: pages.filterMap fun page => page.next.map fun next =>
    start (some next)).Pairwise (· < ·)

section
variable {size : α → Nat} {budget used : Nat}

theorem prefix_of_fitting (used : Nat) (rows : List α) :
    fitting size budget used rows <+: rows := by
  induction rows generalizing used with
  | nil => exact List.prefix_refl _
  | cons row rest ih =>
    rw [fitting]
    split
    · exact List.nil_prefix
    · exact List.cons_prefix_cons.mpr ⟨rfl, ih _⟩

theorem fitting_le (used : Nat) {rows : List α} {row : α}
    (h : row ∈ fitting size budget used rows) : used + size row ≤ budget := by
  induction rows generalizing used with
  | nil => exact absurd h List.not_mem_nil
  | cons first rest ih =>
    rw [fitting] at h
    split at h
    · exact absurd h List.not_mem_nil
    · rename_i hfits
      rcases List.mem_cons.mp h with rfl | hrest
      · omega
      · have hnext := ih _ hrest
        omega

theorem fitting_sum (rows : List α) (h : used ≤ budget) :
    used + ((fitting size budget used rows).map size).sum ≤ budget := by
  induction rows generalizing used with
  | nil => simpa [fitting] using h
  | cons row rest ih =>
    rw [fitting]
    split
    · simpa using h
    · rename_i hfits
      have hroom : used + size row ≤ budget := by omega
      have hnext := ih hroom
      rw [List.map_cons, List.sum_cons]
      omega

theorem fitting_map {β : Type u} (f : β → α) (used : Nat) (rows : List β) :
    fitting size budget used (rows.map f) =
      (fitting (fun row => size (f row)) budget used rows).map f := by
  induction rows generalizing used with
  | nil => rfl
  | cons row rest ih =>
    rw [List.map_cons, fitting, fitting]
    split
    · rfl
    · rw [ih, List.map_cons]

theorem fitting_cons_ne_nil {row : α} (rest : List α) (h : used + size row ≤ budget) :
    fitting size budget used (row :: rest) ≠ [] := by
  rw [fitting, if_neg (by omega)]
  exact List.cons_ne_nil _ _

end

variable {cut : Cut α} {rows : List α} {start : Option γ → Nat} {read : Option γ → Page α γ}

theorem Cut.rows_from (cut : Cut α) (rows : List α) (start : Nat) :
    cut.pageAt rows start <+: rows.drop start :=
  (prefix_of_fitting _ _).trans (List.take_prefix _ _)

theorem Cut.pageAt_length_le (cut : Cut α) (rows : List α) (start : Nat) :
    (cut.pageAt rows start).length ≤ cut.limit := by
  have hprefix : cut.pageAt rows start <+: (rows.drop start).take cut.limit := prefix_of_fitting _ _
  have htake := hprefix.length_le
  rw [List.length_take] at htake
  omega

theorem Cut.pageAt_append (cut : Cut α) (rows : List α) (start : Nat) :
    cut.pageAt rows start ++ rows.drop (start + (cut.pageAt rows start).length) =
      rows.drop start := by
  obtain ⟨rest, hrest⟩ := cut.rows_from rows start
  have hdrop : rows.drop (start + (cut.pageAt rows start).length) = rest := by
    rw [← List.drop_drop, ← hrest, List.drop_left]
  rw [hdrop, hrest]

theorem Cut.pageAt_ne_nil (hlimit : 0 < cut.limit) (hfits : ∀ row ∈ rows, cut.Takes row)
    {start : Nat} (hstart : start < rows.length) : cut.pageAt rows start ≠ [] := by
  obtain ⟨limit, hlimit⟩ := Nat.exists_eq_succ_of_ne_zero (Nat.pos_iff_ne_zero.mp hlimit)
  unfold Cut.pageAt
  rw [List.drop_eq_getElem_cons hstart, hlimit, List.take_succ_cons]
  exact fitting_cons_ne_nil _ (hfits _ (List.getElem_mem hstart))

theorem serves_of_next (mk : Nat → γ) (hstart : start none = 0)
    (hmk : ∀ place, start (some (mk place)) = place)
    (hrows : ∀ cursor, (read cursor).rows = cut.pageAt rows (start cursor))
    (hnext : ∀ cursor, (read cursor).next =
      if start cursor + (read cursor).rows.length < rows.length then
        some (mk (start cursor + (read cursor).rows.length))
      else none) :
    Serves cut rows start read := by
  refine ⟨hstart, hrows, ?_, ?_⟩
  · intro cursor next hsome
    rw [hnext cursor] at hsome
    split at hsome
    · obtain rfl := Option.some.inj hsome
      exact hmk _
    · exact absurd hsome (Option.some_ne_none _).symm
  · intro cursor
    rw [hnext cursor]
    split
    · rename_i hmore
      exact iff_of_false (Option.some_ne_none _) (by omega)
    · rename_i hdone
      exact iff_of_true rfl (by omega)

variable {fuel : Nat} {cursor : Option γ}

theorem follow_last (h : (read cursor).next = none) :
    follow read (fuel + 1) cursor = some [read cursor] := by
  rw [follow, h]

theorem follow_step {next : γ} (h : (read cursor).next = some next) :
    follow read (fuel + 1) cursor =
      (follow read fuel (some next)).map fun pages => read cursor :: pages := by
  rw [follow, h]

/-- A walk that ends has served each row from its start on, and each fits on an empty page. -/
theorem Serves.follow_some (h : Serves cut rows start read) {fuel : Nat} {cursor : Option γ}
    {pages : List (Page α γ)} (hfollow : follow read fuel cursor = some pages) :
    pages.flatMap Page.rows = rows.drop (start cursor) ∧
      ∀ row ∈ rows.drop (start cursor), cut.Takes row := by
  induction fuel generalizing cursor pages with
  | zero => exact absurd hfollow (by simp [follow])
  | succ fuel ih =>
    have hsplit := cut.pageAt_append rows (start cursor)
    have hpage : ∀ row ∈ cut.pageAt rows (start cursor), cut.Takes row := fun row hrow =>
      fitting_le cut.used hrow
    rw [← h.rows_eq cursor] at hsplit hpage
    cases hnext : (read cursor).next with
    | none =>
      rw [follow_last hnext] at hfollow
      obtain rfl := Option.some.inj hfollow
      rw [List.drop_eq_nil_of_le ((h.next_none cursor).mp hnext), List.append_nil] at hsplit
      rw [← hsplit]
      exact ⟨List.flatMap_singleton .., hpage⟩
    | some next =>
      rw [follow_step hnext] at hfollow
      obtain ⟨later, hlater, rfl⟩ := Option.map_eq_some_iff.mp hfollow
      obtain ⟨hrows, hfits⟩ := ih hlater
      rw [h.start_next cursor next hnext] at hrows hfits
      refine ⟨?_, ?_⟩
      · rw [List.flatMap_cons, hrows, hsplit]
      · intro row hrow
        rw [← hsplit] at hrow
        rcases List.mem_append.mp hrow with hhere | hthere
        · exact hpage row hhere
        · exact hfits row hthere

theorem follow_ne_nil {pages : List (Page α γ)} (h : follow read fuel cursor = some pages) :
    pages ≠ [] := by
  cases fuel with
  | zero => exact absurd h (by simp [follow])
  | succ fuel =>
    cases hnext : (read cursor).next with
    | none =>
      rw [follow_last hnext] at h
      obtain rfl := Option.some.inj h
      exact List.cons_ne_nil _ _
    | some next =>
      rw [follow_step hnext] at h
      obtain ⟨later, _, rfl⟩ := Option.map_eq_some_iff.mp h
      exact List.cons_ne_nil _ _

theorem Serves.next_filled (h : Serves cut rows start read) (hlimit : 0 < cut.limit)
    (hfits : ∀ row ∈ rows, cut.Takes row) {cursor : Option γ} {next : γ}
    (hnext : (read cursor).next = some next) :
    (read cursor).rows ≠ [] ∧ start cursor < start (some next) := by
  have hleft : ¬ rows.length ≤ start cursor + (read cursor).rows.length := by
    intro hend
    have hnone := (h.next_none cursor).mpr hend
    rw [hnext] at hnone
    exact absurd hnone (Option.some_ne_none _)
  have hfilled : (read cursor).rows ≠ [] := by
    rw [h.rows_eq cursor]
    exact Cut.pageAt_ne_nil hlimit hfits (by omega)
  have hpos := List.length_pos_of_ne_nil hfilled
  have hplace := h.start_next cursor next hnext
  exact ⟨hfilled, by omega⟩

/-- While every row fits, the walk from a cursor ends and each page moves it. -/
theorem Serves.follow_exists (h : Serves cut rows start read) (hlimit : 0 < cut.limit)
    (hfits : ∀ row ∈ rows, cut.Takes row) {fuel : Nat} {cursor : Option γ}
    (hfuel : rows.length - start cursor < fuel) :
    ∃ pages, follow read fuel cursor = some pages ∧
      (∀ page ∈ pages.dropLast, page.rows ≠ []) ∧
      (start cursor :: pages.filterMap fun page => page.next.map fun next =>
        start (some next)).Pairwise (· < ·) := by
  induction fuel generalizing cursor with
  | zero => exact absurd hfuel (Nat.not_lt_zero _)
  | succ fuel ih =>
    cases hnext : (read cursor).next with
    | none =>
      refine ⟨[read cursor], follow_last hnext, by simp, ?_⟩
      simp [hnext]
    | some next =>
      obtain ⟨hfilled, hmoved⟩ := h.next_filled hlimit hfits hnext
      have hleft : start cursor < rows.length := by
        by_contra hpast
        have hend := (h.next_none cursor).mpr (by omega)
        rw [hnext] at hend
        exact absurd hend (Option.some_ne_none _)
      have hrest : rows.length - start (some next) < fuel := by omega
      obtain ⟨pages, hpages, hinner, hplaces⟩ := ih hrest
      refine ⟨read cursor :: pages, ?_, ?_, ?_⟩
      · rw [follow_step hnext, hpages, Option.map_some]
      · rw [List.dropLast_cons_of_ne_nil (follow_ne_nil hpages)]
        exact List.forall_mem_cons.mpr ⟨hfilled, hinner⟩
      · rw [List.filterMap_cons_some (b := start (some next)) (by rw [hnext, Option.map_some])]
        refine List.pairwise_cons.mpr ⟨?_, hplaces⟩
        intro place hplace
        rcases List.mem_cons.mp hplace with rfl | hlater
        · exact hmoved
        · have hafter := (List.pairwise_cons.mp hplaces).1 place hlater
          omega

theorem Serves.covers_iff (h : Serves cut rows start read) (hlimit : 0 < cut.limit) :
    (∃ pages, Covers rows start read pages) ↔ ∀ row ∈ rows, cut.Takes row := by
  constructor
  · rintro ⟨pages, hcovers⟩
    have hserved := (h.follow_some hcovers.ends).2
    rwa [h.start_none, List.drop_zero] at hserved
  · intro hfits
    have hfuel : rows.length - start none < rows.length + 1 := by omega
    obtain ⟨pages, hpages, hfilled, hmoves⟩ := h.follow_exists hlimit hfits hfuel
    have hrows := (h.follow_some hpages).1
    rw [h.start_none, List.drop_zero] at hrows
    exact ⟨pages, hpages, hrows, hfilled, hmoves⟩

theorem Serves.follow_stuck (h : Serves cut rows start read) {cursor : Option γ}
    (hrow : ∃ row ∈ rows.drop (start cursor), ¬ cut.Takes row) (fuel : Nat) :
    follow read fuel cursor = none := by
  obtain ⟨row, hmem, hlarge⟩ := hrow
  cases hfollow : follow read fuel cursor with
  | none => rfl
  | some pages => exact absurd ((h.follow_some hfollow).2 row hmem) hlarge

theorem Serves.page_stuck (h : Serves cut rows start read) {cursor : Option γ} {row : α}
    {rest : List α} (hrow : rows.drop (start cursor) = row :: rest) (hlarge : ¬ cut.Takes row) :
    (read cursor).rows = [] ∧
      ∃ next, (read cursor).next = some next ∧ start (some next) = start cursor := by
  have hempty : (read cursor).rows = [] := by
    rw [h.rows_eq, Cut.pageAt, hrow]
    cases hlimit : cut.limit with
    | zero => rfl
    | succ limit =>
      have hover : cut.budget < cut.used + cut.size row := Nat.lt_of_not_le hlarge
      rw [List.take_succ_cons, fitting, if_pos hover]
  refine ⟨hempty, ?_⟩
  cases hnext : (read cursor).next with
  | none =>
    have hend := (h.next_none cursor).mp hnext
    rw [hempty, List.length_nil] at hend
    have hlength := congrArg List.length hrow
    rw [List.length_drop, List.length_cons] at hlength
    omega
  | some next =>
    have hplace := h.start_next cursor next hnext
    rw [hempty, List.length_nil, Nat.add_zero] at hplace
    exact ⟨next, rfl, hplace⟩

end Ccmux.Lib.Paging
