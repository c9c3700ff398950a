import Mathlib.Data.List.Basic
import Mathlib.Data.List.Induction
import Mathlib.Data.List.Nodup
import Mathlib.Tactic.Common

/-!
# Lists in which the first record of a key wins

`addNew key xs x` puts a record at the end of a list unless one with the same key is
already there; `addAll` does so for a whole list of candidates. The keys in the result
are those of the candidates, each once, and the record of a key is the first candidate
that has it. Records stay in the order in which they were added.
-/

namespace FirstWins

variable {α κ : Type*} [DecidableEq κ] (key : α → κ)

def addNew (xs : List α) (x : α) : List α :=
  if key x ∈ xs.map key then xs else xs ++ [x]

def addAll (xs candidates : List α) : List α := candidates.foldl (addNew key) xs

theorem addAll_nil (xs : List α) : addAll key xs [] = xs := rfl

theorem addAll_cons (xs : List α) (x : α) (candidates : List α) :
    addAll key xs (x :: candidates) = addAll key (addNew key xs x) candidates := rfl

theorem addAll_append (xs as bs : List α) :
    addAll key xs (as ++ bs) = addAll key (addAll key xs as) bs := List.foldl_append ..

variable {key} {xs candidates pre post : List α} {x : α} {k : κ}

theorem addNew_of_mem (h : key x ∈ xs.map key) : addNew key xs x = xs := if_pos h

theorem addNew_of_notMem (h : key x ∉ xs.map key) : addNew key xs x = xs ++ [x] := if_neg h

theorem addNew_keys : k ∈ (addNew key xs x).map key ↔ k ∈ xs.map key ∨ k = key x := by
  by_cases h : key x ∈ xs.map key
  · rw [addNew_of_mem h]
    constructor
    · exact Or.inl
    · rintro (hk | rfl)
      · exact hk
      · exact h
  · rw [addNew_of_notMem h, List.map_append, List.mem_append, List.map_singleton,
      List.mem_singleton]

theorem addNew_nodup (h : (xs.map key).Nodup) : ((addNew key xs x).map key).Nodup := by
  by_cases hx : key x ∈ xs.map key
  · rwa [addNew_of_mem hx]
  · rw [addNew_of_notMem hx, List.map_append, List.map_singleton, ← List.concat_eq_append]
    exact h.concat hx

theorem addAll_keys (xs candidates : List α) :
    k ∈ (addAll key xs candidates).map key ↔ k ∈ xs.map key ∨ k ∈ candidates.map key := by
  induction candidates generalizing xs with
  | nil => simp [addAll_nil]
  | cons x candidates ih =>
      rw [addAll_cons, ih, addNew_keys, List.map_cons, List.mem_cons, or_assoc]

theorem addAll_nodup (h : (xs.map key).Nodup) (candidates : List α) :
    ((addAll key xs candidates).map key).Nodup := by
  induction candidates generalizing xs with
  | nil => exact h
  | cons x candidates ih => exact ih (addNew_nodup h)

/-- What has been added stays in front. -/
theorem prefix_addAll (xs candidates : List α) : xs <+: addAll key xs candidates := by
  induction candidates generalizing xs with
  | nil => exact List.prefix_refl xs
  | cons x candidates ih =>
      rw [addAll_cons]
      refine List.IsPrefix.trans ?_ (ih _)
      by_cases hx : key x ∈ xs.map key
      · simp only [addNew_of_mem hx, List.prefix_refl]
      · rw [addNew_of_notMem hx]
        exact List.prefix_append _ _

/-- The first candidate of a key is the record of that key. -/
theorem mem_addAll (h : key x ∉ pre.map key) : x ∈ addAll key [] (pre ++ x :: post) := by
  have hnew : key x ∉ (addAll key [] pre).map key := fun hmem =>
    h (((addAll_keys [] pre).mp hmem).resolve_left (by simp))
  rw [addAll_append, addAll_cons, addNew_of_notMem hnew]
  exact (prefix_addAll _ _).subset (by simp)

/-- A key of an earlier candidate is recorded before it. -/
theorem sublist_addAll (hk : k ∈ pre.map key) (h : key x ∉ pre.map key) :
    ∃ y, key y = k ∧ [y, x].Sublist (addAll key [] (pre ++ x :: post)) := by
  obtain ⟨y, hy, hkey⟩ := List.mem_map.mp ((addAll_keys [] pre).mpr (Or.inr hk))
  have hnew : key x ∉ (addAll key [] pre).map key := fun hmem =>
    h (((addAll_keys [] pre).mp hmem).resolve_left (by simp))
  refine ⟨y, hkey, ?_⟩
  rw [addAll_append, addAll_cons, addNew_of_notMem hnew]
  refine List.Sublist.trans ?_ (prefix_addAll _ _).sublist
  exact (List.singleton_sublist.mpr hy).append (List.Sublist.refl [x])

/-- Reordering the candidates leaves the keys as they are. -/
theorem addAll_keys_perm {as bs : List α} (h : as.Perm bs) :
    k ∈ (addAll key [] as).map key ↔ k ∈ (addAll key [] bs).map key := by
  rw [addAll_keys, addAll_keys, (h.map key).mem_iff]

/-- Every candidate's key has a first candidate. -/
theorem exists_first (h : k ∈ candidates.map key) :
    ∃ pre x post, candidates = pre ++ x :: post ∧ key x = k ∧ k ∉ pre.map key := by
  induction candidates with
  | nil => exact absurd h (by simp)
  | cons x candidates ih =>
      by_cases hx : key x = k
      · exact ⟨[], x, candidates, rfl, hx, by simp⟩
      · have hmem : k ∈ candidates.map key := by
          rw [List.map_cons, List.mem_cons] at h
          exact h.resolve_left fun he => hx he.symm
        obtain ⟨pre, y, post, rfl, hy, hpre⟩ := ih hmem
        refine ⟨x :: pre, y, post, rfl, hy, ?_⟩
        rw [List.map_cons, List.mem_cons]
        rintro (he | he)
        · exact hx he.symm
        · exact hpre he

/-- Records made of others are added as those are. -/
theorem addAll_map {β : Type*} (f : β → α) (ys candidates : List β) :
    addAll key (ys.map f) (candidates.map f) = (addAll (key ∘ f) ys candidates).map f := by
  induction candidates generalizing ys with
  | nil => rfl
  | cons y candidates ih =>
      have hnew : addNew key (ys.map f) (f y) = (addNew (key ∘ f) ys y).map f := by
        have hkeys : (ys.map f).map key = ys.map (key ∘ f) := List.map_map
        by_cases hy : (key ∘ f) y ∈ ys.map (key ∘ f)
        · rw [addNew_of_mem hy, addNew_of_mem (by rwa [hkeys])]
        · rw [addNew_of_notMem hy, addNew_of_notMem (by rwa [hkeys]), List.map_append,
            List.map_singleton]
      rw [List.map_cons, addAll_cons, hnew, ih, addAll_cons]

theorem mem_of_mem_addAll (h : x ∈ addAll key xs candidates) : x ∈ xs ∨ x ∈ candidates := by
  induction candidates generalizing xs with
  | nil => exact Or.inl h
  | cons y candidates ih =>
      rcases ih h with hmem | hmem
      · unfold addNew at hmem
        split_ifs at hmem
        · exact Or.inl hmem
        · rcases List.mem_append.mp hmem with hmem | hmem
          · exact Or.inl hmem
          · rw [List.mem_singleton.mp hmem]
            exact Or.inr List.mem_cons_self
      · exact Or.inr (List.mem_cons_of_mem _ hmem)

end FirstWins
