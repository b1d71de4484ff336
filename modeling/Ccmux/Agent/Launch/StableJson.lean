/- Module: Ccmux/Agent/Launch/StableJson
   source: src/agent/launch/launchInputs.ts (stableJson, jsonFieldDigest)
   digest: JSON with sorted keys: two values have one text if and only if they differ in nothing but
     the order of keys. -/

import Ccmux.Lib.JsonTree
import Mathlib

namespace Ccmux.Agent.Launch.StableJson

open Ccmux.Lib.JsonTree
open Ccmux.Lib.Utf16

abbrev Fields := List (Units × Json)

/-! ### The objects of the language -/

mutual

/-- No object in the value has a key twice. -/
@[grind =]
def distinct : Json → Bool
  | .arr items => distinctItems items
  | .obj fields => decide (fields.map Prod.fst).Nodup && distinctFields fields
  | _ => true

def distinctItems : List Json → Bool
  | [] => true
  | item :: rest => distinct item && distinctItems rest

def distinctFields : Fields → Bool
  | [] => true
  | (_, value) :: rest => distinct value && distinctFields rest

end

/-- A value of the language: an object holds each of its keys once. -/
structure JsonValue where
  json : Json
  distinct : distinct json = true

/-- A number as a key: in its canonical text, and below the last unsigned 32-bit value. -/
def isIndex (key : Units) : Bool :=
  key.all isDigit && (key.head?.any (· ≠ 48) || key == [48]) &&
    key.foldl (fun n c => 10 * n + (c - 48)) 0 < 4294967295

def indexOf (key : Units) : Nat := key.foldl (fun n c => 10 * n + (c - 48)) 0

/-- `Object.fromEntries`: the object lists the keys that are numbers first, in their order, then the
others as they were added. -/
def fromEntries (entries : Fields) : Fields :=
  (entries.filter fun field => isIndex field.1).insertionSort (fun f g => indexOf f.1 ≤ indexOf g.1) ++
    entries.filter fun field => !isIndex field.1

/-- The order of `Array.prototype.sort`: by code units. -/
@[grind =]
def unitsLe : Units → Units → Bool
  | [], _ => true
  | _ :: _, [] => false
  | a :: x, b :: y => a < b || (a == b && unitsLe x y)

/-- `Object.keys(..).sort()` -/
def sortKeys (fields : Fields) : Fields := fields.insertionSort fun f g => unitsLe f.1 g.1

/-! ### The stable text -/

mutual

/-- `walk`. A value keeps its key, so it does not matter that the keys are sorted afterwards. -/
@[grind =]
def walk : Json → Json
  | .arr items => .arr (walkItems items)
  | .obj fields => .obj (fromEntries (sortKeys (walkFields fields)))
  | v => v

def walkItems : List Json → List Json
  | [] => []
  | item :: rest => walk item :: walkItems rest

def walkFields : Fields → Fields
  | [] => []
  | (key, value) :: rest => (key, walk value) :: walkFields rest

end

def stableJson (value : Json) : Units := stringify (walk value)

/-- `jsonFieldDigest` of a document that could be read: `value` is what it has under the field. -/
def fieldDigest (digestOf : Units → Units) (value : Option JsonValue) : Units :=
  match value with
  | none => digestOf (units "<absent>")
  | some value => digestOf (stableJson value.json)

/-! ### Equal up to the order of keys -/

mutual

/-- Equal up to the order of keys at every depth. -/
inductive Same : Json → Json → Prop where
  | null : Same .null .null
  | bool (value : Bool) : Same (.bool value) (.bool value)
  | num (value : Numeral) : Same (.num value) (.num value)
  | str (text : Units) : Same (.str text) (.str text)
  | arr {items others : List Json} : SameItems items others → Same (.arr items) (.arr others)
  | obj {fields others : Fields} : SameFields fields others → Same (.obj fields) (.obj others)

inductive SameItems : List Json → List Json → Prop where
  | nil : SameItems [] []
  | cons {item other : Json} {items others : List Json} : Same item other →
      SameItems items others → SameItems (item :: items) (other :: others)

/-- Each field has its own partner under the same key. -/
inductive SameFields : Fields → Fields → Prop where
  | nil : SameFields [] []
  | cons {key : Units} {value other : Json} {fields others rest : Fields} :
      others.Perm ((key, other) :: rest) → Same value other → SameFields fields rest →
      SameFields ((key, value) :: fields) others

end

/-! ### Canonicity -/

theorem unitsLe_total (x y : Units) : unitsLe x y = true ∨ unitsLe y x = true := by
  induction x generalizing y with
  | nil => simp [unitsLe]
  | cons a x ih =>
    cases y with
    | nil => simp [unitsLe]
    | cons b y =>
      simp only [unitsLe, Bool.or_eq_true, Bool.and_eq_true, decide_eq_true_eq, beq_iff_eq]
      rcases Nat.lt_trichotomy a b with hab | rfl | hab
      · exact Or.inl (Or.inl hab)
      · exact (ih y).imp (fun h => Or.inr ⟨rfl, h⟩) (fun h => Or.inr ⟨rfl, h⟩)
      · exact Or.inr (Or.inl hab)

theorem unitsLe_trans {x y z : Units} (hxy : unitsLe x y = true) (hyz : unitsLe y z = true) :
    unitsLe x z = true := by
  induction x generalizing y z with
  | nil => rfl
  | cons a x ih =>
    cases y with
    | nil => cases hxy
    | cons b y =>
      cases z with
      | nil => cases hyz
      | cons c z =>
        simp only [unitsLe, Bool.or_eq_true, Bool.and_eq_true, decide_eq_true_eq,
          beq_iff_eq] at hxy hyz ⊢
        rcases hxy with hab | ⟨rfl, hxy⟩
        · rcases hyz with hbc | ⟨rfl, hyz⟩
          · exact Or.inl (hab.trans hbc)
          · exact Or.inl hab
        · exact hyz.imp id fun h => ⟨h.1, ih hxy h.2⟩

theorem unitsLe_antisymm {x y : Units} (hxy : unitsLe x y = true) (hyx : unitsLe y x = true) :
    x = y := by
  induction x generalizing y with
  | nil =>
    cases y with
    | nil => rfl
    | cons b y => cases hyx
  | cons a x ih =>
    cases y with
    | nil => cases hxy
    | cons b y =>
      simp only [unitsLe, Bool.or_eq_true, Bool.and_eq_true, decide_eq_true_eq,
        beq_iff_eq] at hxy hyx
      rcases hxy with hab | ⟨rfl, hxy⟩
      · rcases hyx with hba | ⟨rfl, -⟩
        · exact absurd (hab.trans hba) (Nat.lt_irrefl a)
        · exact absurd hab (Nat.lt_irrefl b)
      · rcases hyx with haa | ⟨-, hyx⟩
        · exact absurd haa (Nat.lt_irrefl a)
        · rw [ih hxy hyx]

theorem distinctFields_iff (fields : Fields) :
    distinctFields fields = true ↔ ∀ field ∈ fields, distinct field.2 = true := by
  induction fields with
  | nil => simp [distinctFields]
  | cons field fields ih => simp [distinctFields, ih]

theorem walkFields_eq_map (fields : Fields) :
    walkFields fields = fields.map fun field => (field.1, walk field.2) := by
  induction fields with
  | nil => rfl
  | cons field fields ih => simp [walkFields, ih]

theorem keys_walkFields (fields : Fields) :
    (walkFields fields).map Prod.fst = fields.map Prod.fst := by
  simp [walkFields_eq_map, Function.comp_def]

theorem fromEntries_perm (entries : Fields) : (fromEntries entries).Perm entries := by
  refine (List.Perm.append_right _ (List.perm_insertionSort _ _)).trans ?_
  exact List.filter_append_perm (fun field => isIndex field.1) entries

theorem sorted_perm (fields : Fields) : (fromEntries (sortKeys fields)).Perm fields :=
  (fromEntries_perm _).trans (List.perm_insertionSort _ _)

theorem sortKeys_eq {fields others : Fields} (h : fields.Perm others)
    (hkeys : (fields.map Prod.fst).Nodup) : sortKeys fields = sortKeys others := by
  have hsorted : ∀ l : Fields, (sortKeys l).Pairwise fun f g => unitsLe f.1 g.1 = true := by
    intro l
    have htotal : Std.Total fun f g : Units × Json => unitsLe f.1 g.1 = true :=
      ⟨fun f g => unitsLe_total f.1 g.1⟩
    have htrans : IsTrans (Units × Json) fun f g => unitsLe f.1 g.1 = true :=
      ⟨fun _ _ _ hfg hgk => unitsLe_trans hfg hgk⟩
    exact List.pairwise_insertionSort _ l
  have hfirst : (sortKeys fields).Perm fields := List.perm_insertionSort _ _
  have hsecond : (sortKeys others).Perm others := List.perm_insertionSort _ _
  refine List.Perm.eq_of_pairwise ?_ (hsorted fields) (hsorted others)
    (hfirst.trans (h.trans hsecond.symm))
  intro f g hf hg hle hge
  have hfield : f ∈ fields := hfirst.mem_iff.mp hf
  have hother : g ∈ fields := h.mem_iff.mpr (hsecond.mem_iff.mp hg)
  exact List.inj_on_of_nodup_map hkeys hfield hother (unitsLe_antisymm hle hge)

mutual

theorem walk_eq_of_same {v w : Json} (h : Same v w) (hv : distinct v = true)
    (hw : distinct w = true) : walk v = walk w := by
  match h with
  | .null => rfl
  | .bool value => rfl
  | .num value => rfl
  | .str text => rfl
  | .arr hitems =>
    rw [walk, walk, walkItems_eq_of_same hitems hv hw]
  | @Same.obj fields others hfields =>
    simp only [distinct, Bool.and_eq_true, decide_eq_true_eq] at hv hw
    have hperm := walkFields_perm_of_same hfields ((distinctFields_iff fields).mp hv.2)
      ((distinctFields_iff others).mp hw.2)
    rw [walk, walk, sortKeys_eq hperm (by rw [keys_walkFields]; exact hv.1)]

theorem walkItems_eq_of_same {vs ws : List Json} (h : SameItems vs ws)
    (hv : distinctItems vs = true) (hw : distinctItems ws = true) :
    walkItems vs = walkItems ws := by
  match h with
  | .nil => rfl
  | .cons hitem hrest =>
    simp only [distinctItems, Bool.and_eq_true] at hv hw
    rw [walkItems, walkItems, walk_eq_of_same hitem hv.1 hw.1,
      walkItems_eq_of_same hrest hv.2 hw.2]

theorem walkFields_perm_of_same {fs gs : Fields} (h : SameFields fs gs)
    (hf : ∀ field ∈ fs, distinct field.2 = true) (hg : ∀ field ∈ gs, distinct field.2 = true) :
    (walkFields fs).Perm (walkFields gs) := by
  match h with
  | .nil => exact List.Perm.refl _
  | @SameFields.cons key value other fields _ rest hperm hvalue hrest =>
    have hrest := walkFields_perm_of_same hrest
      (fun field hfield => hf field (List.mem_cons_of_mem _ hfield))
      (fun field hfield => hg field (hperm.mem_iff.mpr (List.mem_cons_of_mem _ hfield)))
    have hsame := walk_eq_of_same hvalue (hf _ List.mem_cons_self)
      (hg (key, other) (hperm.mem_iff.mpr List.mem_cons_self))
    have hmapped := (hperm.map fun field : Units × Json => (field.1, walk field.2)).symm
    rw [← walkFields_eq_map, ← walkFields_eq_map] at hmapped
    refine List.Perm.trans ?_ hmapped
    rw [walkFields, walkFields, hsame]
    exact hrest.cons _

end

mutual

theorem same_of_walk_eq (v w : Json) (h : walk v = walk w) : Same v w := by
  cases v with
  | null => cases w <;> first | exact .null | cases h
  | bool value => cases w <;> first | (obtain rfl := Json.bool.inj h; exact .bool _) | cases h
  | num value => cases w <;> first | (obtain rfl := Json.num.inj h; exact .num _) | cases h
  | str text => cases w <;> first | (obtain rfl := Json.str.inj h; exact .str _) | cases h
  | arr items =>
    cases w with
    | arr others => exact .arr (same_of_walkItems_eq items others (Json.arr.inj h))
    | _ => cases h
  | obj fields =>
    cases w with
    | obj others =>
      refine .obj (same_of_walkFields_perm fields others ?_)
      have hperm := sorted_perm (walkFields fields)
      rw [Json.obj.inj h] at hperm
      exact hperm.symm.trans (sorted_perm (walkFields others))
    | _ => cases h

theorem same_of_walkItems_eq (vs ws : List Json) (h : walkItems vs = walkItems ws) :
    SameItems vs ws := by
  match vs, ws with
  | [], [] => exact .nil
  | [], _ :: _ => cases h
  | _ :: _, [] => cases h
  | v :: vs, w :: ws =>
    obtain ⟨hfirst, hrest⟩ := List.cons.inj h
    exact .cons (same_of_walk_eq v w hfirst) (same_of_walkItems_eq vs ws hrest)

theorem same_of_walkFields_perm (fs gs : Fields) (h : (walkFields fs).Perm (walkFields gs)) :
    SameFields fs gs := by
  match fs with
  | [] =>
    have hnil := h.length_eq
    rw [walkFields_eq_map gs] at hnil
    obtain rfl := List.length_eq_zero_iff.mp ((List.length_map _).symm.trans hnil.symm)
    exact .nil
  | (key, value) :: fs =>
    have hmem : (key, walk value) ∈ walkFields gs := h.mem_iff.mp List.mem_cons_self
    rw [walkFields_eq_map] at hmem
    obtain ⟨⟨other, partner⟩, hpartner, heq⟩ := List.mem_map.mp hmem
    obtain ⟨rfl, hwalk⟩ := Prod.mk.inj heq
    obtain ⟨before, after, rfl⟩ := List.append_of_mem hpartner
    have hperm : (before ++ (other, partner) :: after).Perm ((other, partner) :: (before ++ after)) :=
      List.perm_middle
    refine .cons hperm (same_of_walk_eq value partner hwalk.symm)
      (same_of_walkFields_perm fs (before ++ after) ?_)
    have hmapped := hperm.map fun field : Units × Json => (field.1, walk field.2)
    rw [← walkFields_eq_map, ← walkFields_eq_map, walkFields, hwalk] at hmapped
    exact (h.trans hmapped).cons_inv

end

theorem stableJson_eq (a b : JsonValue) :
    stableJson a.json = stableJson b.json ↔ Same a.json b.json := by
  constructor
  · intro h
    exact same_of_walk_eq a.json b.json (stringify_injective h)
  · intro h
    rw [stableJson, stableJson, walk_eq_of_same h a.distinct b.distinct]

example : stableJson (.obj [(units "b", .null), (units "a", .arr []), (units "7", .bool true)]) =
    units "\x7b\"7\":true,\"a\":[],\"b\":null\x7d" := by decide

theorem stableJson_ne_absent (value : Json) : stableJson value ≠ units "<absent>" := by
  intro h
  obtain ⟨c, rest, htext, hopens⟩ := stringify_head (walk value)
  rw [stableJson, htext] at h
  obtain rfl : c = 60 := (List.cons.inj h).1
  revert hopens
  cases walk value with
  | bool value => cases value <;> simp [opens]
  | _ => simp [opens, isDigit]

theorem fieldDigest_eq {digestOf : Units → Units} (hdigest : Function.Injective digestOf)
    (a b : Option JsonValue) : fieldDigest digestOf a = fieldDigest digestOf b ↔
      Option.Rel (fun v w : JsonValue => Same v.json w.json) a b := by
  cases a with
  | none =>
    cases b with
    | none => exact ⟨fun _ => .none, fun _ => rfl⟩
    | some value =>
      refine ⟨fun h => ?_, nofun⟩
      exact absurd (hdigest h).symm (stableJson_ne_absent value.json)
  | some value =>
    cases b with
    | none =>
      refine ⟨fun h => ?_, nofun⟩
      exact absurd (hdigest h) (stableJson_ne_absent value.json)
    | some other =>
      rw [Option.rel_some_some, ← stableJson_eq]
      exact hdigest.eq_iff

end Ccmux.Agent.Launch.StableJson
