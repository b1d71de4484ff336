/- Module: Ccmux/Lib/Matching
   digest: Letters and answers under keys: an answer closes the oldest letter of its key that is
     open when it comes, and how many answers come too early for that. -/

import Mathlib

namespace Ccmux.Lib.Matching

universe u v

variable {κ : Type u} {α : Type v} [DecidableEq κ]

inductive Op (κ : Type u) (α : Type v) where
  | answer (key : κ)
  | letter (key : κ) (mail : α)

/-- The letters under the key, oldest first. -/
def lettersOf (key : κ) : List (Op κ α) → List α
  | [] => []
  | .answer _ :: ops => lettersOf key ops
  | .letter other mail :: ops =>
    if other = key then mail :: lettersOf key ops else lettersOf key ops

def answersOf (key : κ) : List (Op κ α) → Nat
  | [] => 0
  | .answer other :: ops => (if other = key then 1 else 0) + answersOf key ops
  | .letter _ _ :: ops => answersOf key ops

/-- The open letters after one more operation; an answer that finds none is lost. -/
def receive (pending : List (κ × α)) : Op κ α → List (κ × α)
  | .answer key => pending.eraseP fun item => item.1 = key
  | .letter key mail => pending ++ [(key, mail)]

def pendingAfter (ops : List (Op κ α)) : List (κ × α) := ops.foldl receive []

def pendingUnder (key : κ) (pending : List (κ × α)) : List α :=
  (pending.filter fun item => item.1 = key).map Prod.snd

/-- How far the answers of the key ever ran ahead of its letters. -/
def surplus (key : κ) (ops : List (Op κ α)) : Nat :=
  (Finset.range (ops.length + 1)).sup fun n =>
    answersOf key (ops.take n) - (lettersOf key (ops.take n)).length

/-- The answers of the key that found a letter to close. -/
def served (key : κ) (ops : List (Op κ α)) : Nat := answersOf key ops - surplus key ops

/-! ### Counting -/

theorem lettersOf_append (key : κ) (left right : List (Op κ α)) :
    lettersOf key (left ++ right) = lettersOf key left ++ lettersOf key right := by
  induction left with
  | nil => rfl
  | cons op left ih =>
    cases op with
    | answer other => simpa [lettersOf] using ih
    | letter other mail =>
      by_cases hkey : other = key
      · simp [lettersOf, hkey, ih]
      · simp [lettersOf, hkey, ih]

theorem answersOf_append (key : κ) (left right : List (Op κ α)) :
    answersOf key (left ++ right) = answersOf key left + answersOf key right := by
  induction left with
  | nil => simp [answersOf]
  | cons op left ih =>
    cases op with
    | answer other => simp [answersOf, ih, Nat.add_assoc]
    | letter other mail => simpa [answersOf] using ih

theorem excess_le_surplus (key : κ) {early ops : List (Op κ α)} (h : early <+: ops) :
    answersOf key early - (lettersOf key early).length ≤ surplus key ops := by
  have htake : early = ops.take early.length := List.prefix_iff_eq_take.mp h
  have hmem : early.length ∈ Finset.range (ops.length + 1) :=
    Finset.mem_range.mpr (Nat.lt_succ_of_le h.length_le)
  have hle : answersOf key (ops.take early.length) -
      (lettersOf key (ops.take early.length)).length ≤ surplus key ops :=
    @Finset.le_sup Nat Nat _ _ _ (fun n =>
      answersOf key (ops.take n) - (lettersOf key (ops.take n)).length) _ hmem
  rwa [← htake] at hle

theorem surplus_le {key : κ} {ops : List (Op κ α)} {bound : Nat}
    (h : ∀ early, early <+: ops → answersOf key early - (lettersOf key early).length ≤ bound) :
    surplus key ops ≤ bound :=
  Finset.sup_le fun n _ => h (ops.take n) (List.take_prefix n ops)

theorem surplus_le_answersOf (key : κ) (ops : List (Op κ α)) :
    surplus key ops ≤ answersOf key ops := by
  refine surplus_le fun early hearly => ?_
  obtain ⟨rest, rfl⟩ := hearly
  rw [answersOf_append]
  omega

theorem surplus_concat (key : κ) (ops : List (Op κ α)) (op : Op κ α) :
    surplus key (ops ++ [op]) = max (surplus key ops)
      (answersOf key (ops ++ [op]) - (lettersOf key (ops ++ [op])).length) := by
  apply Nat.le_antisymm
  · refine surplus_le fun early hearly => ?_
    rcases List.prefix_concat_iff.mp hearly with rfl | hshort
    · exact Nat.le_max_right _ _
    · exact (excess_le_surplus key hshort).trans (Nat.le_max_left _ _)
  · refine Nat.max_le.mpr ⟨surplus_le fun early hearly => ?_, ?_⟩
    · exact excess_le_surplus key (hearly.trans (List.prefix_append ops [op]))
    · exact excess_le_surplus key (List.prefix_refl _)

/-! ### Who is open -/

theorem pendingUnder_eraseP_self (key : κ) (pending : List (κ × α)) :
    pendingUnder key (pending.eraseP fun item => item.1 = key) =
      (pendingUnder key pending).tail := by
  induction pending with
  | nil => rfl
  | cons item pending ih =>
    by_cases hkey : item.1 = key
    · simp [pendingUnder, hkey]
    · simpa [pendingUnder, hkey] using ih

theorem pendingUnder_eraseP_of_ne {key other : κ} (h : other ≠ key) (pending : List (κ × α)) :
    pendingUnder key (pending.eraseP fun item => item.1 = other) = pendingUnder key pending := by
  induction pending with
  | nil => rfl
  | cons item pending ih =>
    by_cases hother : item.1 = other
    · have hkey : item.1 ≠ key := fun hkey => h (hother.symm.trans hkey)
      simp [pendingUnder, hother, h]
    · by_cases hkey : item.1 = key
      · simpa [pendingUnder, hkey, Ne.symm h] using ih
      · simpa [pendingUnder, hother, hkey] using ih

theorem pendingAfter_concat (ops : List (Op κ α)) (op : Op κ α) :
    pendingAfter (ops ++ [op]) = receive (pendingAfter ops) op := by
  simp [pendingAfter]

/-- Under each key the oldest letters are closed, one for each answer that was not too early. -/
theorem pendingUnder_pendingAfter (key : κ) (ops : List (Op κ α)) :
    served key ops ≤ (lettersOf key ops).length ∧
      pendingUnder key (pendingAfter ops) = (lettersOf key ops).drop (served key ops) := by
  induction ops using List.reverseRecOn with
  | nil => exact ⟨Nat.zero_le _, rfl⟩
  | append_singleton ops op ih =>
    obtain ⟨hle, hopen⟩ := ih
    have hself := excess_le_surplus key (List.prefix_refl ops)
    have hbound := surplus_le_answersOf key ops
    rw [pendingAfter_concat, served, surplus_concat, answersOf_append, lettersOf_append]
    unfold served at hle hopen
    cases op with
    | letter other mail =>
      by_cases hkey : other = key
      · have hcount : answersOf key ops + answersOf key [Op.letter other mail] -
            max (surplus key ops)
              (answersOf key ops + answersOf key [Op.letter other mail] -
                (lettersOf key ops ++ lettersOf key [Op.letter other mail]).length) =
            answersOf key ops - surplus key ops := by
          simp only [answersOf, lettersOf, hkey, if_true, List.length_append, List.length_singleton]
          omega
        rw [hcount]
        refine ⟨by simp; omega, ?_⟩
        rw [List.drop_append_of_le_length hle, ← hopen]
        simp [receive, pendingUnder, lettersOf, hkey]
      · have hnone : lettersOf key [Op.letter other mail] = [] := by simp [lettersOf, hkey]
        have hcount : answersOf key ops + answersOf key [Op.letter other mail] -
            max (surplus key ops)
              (answersOf key ops + answersOf key [Op.letter other mail] -
                (lettersOf key ops ++ lettersOf key [Op.letter other mail]).length) =
            answersOf key ops - surplus key ops := by
          simp only [answersOf, hnone, List.append_nil]
          omega
        rw [hcount, hnone, List.append_nil]
        refine ⟨hle, ?_⟩
        rw [← hopen]
        simp [receive, pendingUnder, hkey]
    | answer other =>
      have hnone : lettersOf key ([Op.answer other] : List (Op κ α)) = [] := rfl
      rw [hnone, List.append_nil]
      by_cases hkey : other = key
      · have hone : answersOf key ([Op.answer other] : List (Op κ α)) = 1 := by
          simp [answersOf, hkey]
        rw [hone, receive, hkey, pendingUnder_eraseP_self, hopen, List.tail_drop]
        -- with a letter open the surplus stays; with none open this answer is one too many
        by_cases hroom : answersOf key ops - surplus key ops < (lettersOf key ops).length
        · have hcount : answersOf key ops + 1 -
              max (surplus key ops) (answersOf key ops + 1 - (lettersOf key ops).length) =
              answersOf key ops - surplus key ops + 1 := by omega
          rw [hcount]
          exact ⟨by omega, rfl⟩
        · have hcount : answersOf key ops + 1 -
              max (surplus key ops) (answersOf key ops + 1 - (lettersOf key ops).length) =
              answersOf key ops - surplus key ops := by omega
          rw [hcount]
          refine ⟨hle, ?_⟩
          have hdone : (lettersOf key ops).drop (answersOf key ops - surplus key ops) = [] :=
            List.drop_eq_nil_of_le (Nat.le_of_not_lt hroom)
          rw [← List.tail_drop, hdone, List.tail_nil]
      · have hzero : answersOf key ([Op.answer other] : List (Op κ α)) = 0 := by
          simp [answersOf, hkey]
        have hcount : answersOf key ops + 0 -
            max (surplus key ops) (answersOf key ops + 0 - (lettersOf key ops).length) =
            answersOf key ops - surplus key ops := by omega
        rw [hzero, hcount, receive, pendingUnder_eraseP_of_ne hkey]
        exact ⟨hle, hopen⟩

/-! ### Closed prefixes -/

variable {β : Type v}

theorem filter_take (p : β → Bool) (n : Nat) (items : List β) :
    (items.take n).filter p = (items.filter p).take ((items.take n).filter p).length := by
  have hsplit : items.filter p = (items.take n).filter p ++ (items.drop n).filter p := by
    rw [← List.filter_append, List.take_append_drop]
  rw [hsplit, List.take_left]

theorem mem_drop_iff_notMem_take {items : List β} (hnodup : items.Nodup) {item : β}
    (hmem : item ∈ items) (n : Nat) : item ∈ items.drop n ↔ item ∉ items.take n := by
  have hsplit : items.take n ++ items.drop n = items := List.take_append_drop n items
  constructor
  · intro hdrop htake
    rw [← hsplit] at hnodup
    exact (List.nodup_append.mp hnodup).2.2 item htake item hdrop rfl
  · intro htake
    rw [← hsplit] at hmem
    exact (List.mem_append.mp hmem).resolve_left htake

theorem eq_of_mem_drop_iff {items : List β} (hnodup : items.Nodup) {m n : Nat}
    (hm : m ≤ items.length) (hn : n ≤ items.length)
    (h : ∀ item ∈ items, item ∈ items.drop m ↔ item ∈ items.drop n) : m = n := by
  have half {a b : Nat} (ha : a ≤ items.length) (hb : b ≤ items.length)
      (hsub : ∀ item ∈ items, item ∈ items.drop a → item ∈ items.drop b) : b ≤ a := by
    by_contra hlt
    have halt : a < items.length := by omega
    have hmem : items[a] ∈ items := List.getElem_mem halt
    have hdrop : items[a] ∈ items.drop a := by
      rw [List.drop_eq_getElem_cons halt]
      exact List.mem_cons_self
    have htake : items[a] ∈ items.take b := by
      rw [List.mem_take_iff_getElem]
      exact ⟨a, by omega, rfl⟩
    exact (mem_drop_iff_notMem_take hnodup hmem b).mp (hsub _ hmem hdrop) htake
  apply Nat.le_antisymm
  · exact half hn hm fun item hmem hitem => (h item hmem).mpr hitem
  · exact half hm hn fun item hmem hitem => (h item hmem).mp hitem

theorem eraseP_eq_erase_iff [DecidableEq β] {p : β → Bool} {items : List β}
    (hnodup : items.Nodup) {item : β} (hitem : p item = true) (hmem : item ∈ items) :
    items.eraseP p = items.erase item ↔ (items.filter p).head? = some item := by
  induction items with
  | nil => cases hmem
  | cons first rest ih =>
    obtain ⟨hfirst, hrest⟩ := List.nodup_cons.mp hnodup
    by_cases hsame : first = item
    · rw [hsame]
      simp [hitem]
    · have hin : item ∈ rest := (List.mem_cons.mp hmem).resolve_left (Ne.symm hsame)
      by_cases hp : p first = true
      · rw [List.eraseP_cons_of_pos hp, List.erase_cons_tail (by simpa using hsame),
          List.filter_cons_of_pos hp]
        refine iff_of_false ?_ ?_
        · intro heq
          rw [heq] at hfirst
          exact hfirst List.mem_cons_self
        · intro heq
          exact hsame (Option.some.inj heq)
      · rw [List.eraseP_cons_of_neg hp, List.erase_cons_tail (by simpa using hsame),
          List.filter_cons_of_neg hp, List.cons_inj_right]
        exact ih hrest hin

end Ccmux.Lib.Matching
