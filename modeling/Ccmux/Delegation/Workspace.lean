/- Module: Ccmux/Delegation/Workspace
   source: src/delegation/resolve.ts
   digest: One path inside another: the relative path of two absolute ones. -/

import Mathlib

namespace Ccmux.Delegation.Workspace

/-- One component of an absolute path, as `path.resolve` walks it. -/
def enter (walked : List String) (part : String) : List String :=
  if part = "" ∨ part = "." then walked
  else if part = ".." then walked.dropLast
  else walked ++ [part]

/-- The components of an absolute path after `path.resolve`. -/
def segments (path : String) : List String :=
  ((path.toList.splitOn '/').map String.ofList).foldl enter []

@[grind =]
def commonLength : List String → List String → Nat
  | a :: as, b :: bs => if a = b then commonLength as bs + 1 else 0
  | _, _ => 0

/-- `path.relative` of two absolute paths, as the components it joins with slashes. -/
def relative (root path : String) : List String :=
  let common := commonLength (segments root) (segments path)
  List.replicate ((segments root).length - common) ".." ++ (segments path).drop common

/-- No relative path is absolute, so `isAbsolute` has nothing to refuse. -/
def withinWorkspace (root path : String) : Bool :=
  let part := relative root path
  part == [] || (part != [".."] && !(part.head? == some ".." && 1 < part.length))

variable {as bs : List String}

theorem commonLength_le_left : ∀ as bs : List String, commonLength as bs ≤ as.length
  | a :: as, b :: bs => by
    unfold commonLength
    split
    · exact Nat.succ_le_succ (commonLength_le_left as bs)
    · exact Nat.zero_le _
  | [], _ => Nat.zero_le _
  | _ :: _, [] => Nat.zero_le _

theorem take_commonLength :
    ∀ as bs : List String, as.take (commonLength as bs) = bs.take (commonLength as bs)
  | a :: as, b :: bs => by
    unfold commonLength
    split
    · rename_i hab
      rw [List.take_succ_cons, List.take_succ_cons, hab, take_commonLength as bs]
    · rfl
  | [], _ => by simp [commonLength]
  | _ :: _, [] => by simp [commonLength]

theorem commonLength_eq_length (h : as <+: bs) : commonLength as bs = as.length := by
  induction as generalizing bs with
  | nil => rfl
  | cons a as ih =>
    obtain ⟨more, rfl⟩ := h
    have htail : commonLength as (as ++ more) = as.length := ih ⟨more, rfl⟩
    simp [commonLength, htail]

theorem prefix_of_commonLength (h : commonLength as bs = as.length) : as <+: bs := by
  have htake := take_commonLength as bs
  rw [h, List.take_length] at htake
  rw [htake]
  exact List.take_prefix _ _

theorem enter_clean {walked : List String} {part : String} (h : ".." ∉ walked) :
    ".." ∉ enter walked part := by
  unfold enter
  split
  · exact h
  · split
    · exact fun hmem => h (List.dropLast_subset walked hmem)
    · rename_i hpart
      rw [List.mem_append, List.mem_singleton, not_or]
      exact ⟨h, fun heq => hpart heq.symm⟩

theorem foldl_enter_clean (parts : List String) {walked : List String} (h : ".." ∉ walked) :
    ".." ∉ parts.foldl enter walked := by
  induction parts generalizing walked with
  | nil => exact h
  | cons part parts ih => exact ih (enter_clean h)

theorem segments_clean (path : String) : ".." ∉ segments path :=
  foldl_enter_clean _ List.not_mem_nil

/-- The test of the source is containment: the components of the root come first. -/
theorem withinWorkspace_iff (root path : String) :
    withinWorkspace root path = true ↔ segments root <+: segments path := by
  have hle := commonLength_le_left (segments root) (segments path)
  by_cases hcommon : commonLength (segments root) (segments path) = (segments root).length
  · refine iff_of_true ?_ (prefix_of_commonLength hcommon)
    have hpart : relative root path = (segments path).drop (segments root).length := by
      simp [relative, hcommon]
    have hclean : (relative root path).head? ≠ some ".." := by
      intro hhead
      have hmem := List.mem_of_head? hhead
      rw [hpart] at hmem
      exact segments_clean path (List.mem_of_mem_drop hmem)
    have hsingle : relative root path ≠ [".."] := by
      intro heq
      exact hclean (by rw [heq]; rfl)
    simp [withinWorkspace, hclean, hsingle]
  · refine iff_of_false ?_ fun hprefix => hcommon (commonLength_eq_length hprefix)
    obtain ⟨up, hup⟩ : ∃ up, (segments root).length -
        commonLength (segments root) (segments path) = up + 1 :=
      Nat.exists_eq_succ_of_ne_zero (by omega)
    have hpart : relative root path = ".." :: (List.replicate up ".." ++
        (segments path).drop (commonLength (segments root) (segments path))) := by
      simp only [relative, hup, List.replicate_succ, List.cons_append]
    have hlength : relative root path ≠ [".."] → 1 < (relative root path).length := by
      intro hne
      rw [hpart] at hne ⊢
      rw [List.length_cons]
      refine Nat.succ_lt_succ (List.length_pos_of_ne_nil ?_)
      exact fun hnil => hne (by rw [hnil])
    by_cases hsingle : relative root path = [".."]
    · simp [withinWorkspace, hsingle]
    · have hmore := hlength hsingle
      have hhead : (relative root path).head? = some ".." := by rw [hpart]; rfl
      have hnil : relative root path ≠ [] := by rw [hpart]; exact List.cons_ne_nil _ _
      simp [withinWorkspace, hnil, hhead, hmore]

end Ccmux.Delegation.Workspace
