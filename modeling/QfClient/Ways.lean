import Mathlib.Data.Fintype.Pigeonhole
import Mathlib.SetTheory.Cardinal.Finite
import Mathlib.Tactic.Common

/-!
# Ways through a labelled graph

A way follows labelled steps from one node to another. In a finite graph a way with as
many steps as there are nodes comes by one of them twice, so the graph has a cycle that
can be reached; around a cycle there are ways of any length.
-/

namespace Ways

variable {ν α : Type*} (step : ν → α → ν → Prop)

inductive Way : ν → List α → ν → Prop
  | nil (i : ν) : Way i [] i
  | cons {i j k : ν} {a : α} {as : List α} : step i a j → Way j as k → Way i (a :: as) k

def Acyclic (i : ν) : Prop := ∀ front j, Way step i front j → ∀ more, Way step j more j → more = []

def Unambiguous (i : ν) : Prop := ∀ as bs k, Way step i as k → Way step i bs k → as = bs

variable {step} {i j k : ν} {as bs : List α}

theorem Way.append (h : Way step i as j) (h' : Way step j bs k) : Way step i (as ++ bs) k := by
  induction h with
  | nil => exact h'
  | cons hstep _ ih => exact .cons hstep (ih h')

theorem Way.split (h : Way step i (as ++ bs) k) : ∃ j, Way step i as j ∧ Way step j bs k := by
  induction as generalizing i with
  | nil => exact ⟨i, .nil i, h⟩
  | cons a as ih =>
      cases h with
      | cons hstep hrest =>
          obtain ⟨j, hfront, hback⟩ := ih hrest
          exact ⟨j, .cons hstep hfront, hback⟩

/-- Around a cycle there are ways of any length. -/
theorem Way.around (h : Way step j as j) (hne : as ≠ []) (n : ℕ) :
    ∃ bs, Way step j bs j ∧ n ≤ bs.length := by
  induction n with
  | zero => exact ⟨[], .nil j, Nat.le_refl 0⟩
  | succ n ih =>
      obtain ⟨bs, hbs, hlength⟩ := ih
      have hpos := List.length_pos_of_ne_nil hne
      refine ⟨as ++ bs, h.append hbs, ?_⟩
      rw [List.length_append]
      omega

/-- The nodes that a way comes by, one after the other. -/
theorem Way.exists_nodes (h : Way step i as k) :
    ∃ node : ℕ → ν, node 0 = i ∧
      ∀ s d, s + d ≤ as.length → Way step (node s) ((as.drop s).take d) (node (s + d)) := by
  induction h with
  | nil i =>
      refine ⟨fun _ => i, rfl, fun s d _ => ?_⟩
      rw [List.drop_nil, List.take_nil]
      exact .nil i
  | @cons i j k a as hstep _ ih =>
      obtain ⟨node, hzero, hway⟩ := ih
      refine ⟨fun t => t.casesOn i node, rfl, fun s d hle => ?_⟩
      cases s with
      | zero =>
          cases d with
          | zero => exact .nil i
          | succ d =>
              have hrest := hway 0 d (by simpa using hle)
              rw [hzero, Nat.zero_add, List.drop_zero] at hrest
              rw [Nat.zero_add]
              exact .cons hstep hrest
      | succ s =>
          rw [Nat.succ_add]
          rw [Nat.succ_add, List.length_cons] at hle
          exact hway s d (Nat.le_of_succ_le_succ hle)

/-- A long way through a finite graph leads to a cycle. -/
theorem Way.exists_cycle [Finite ν] (h : Way step i as k) (hlong : Nat.card ν ≤ as.length) :
    ∃ front j more, Way step i front j ∧ Way step j more j ∧ more ≠ [] := by
  obtain ⟨node, rfl, hway⟩ := h.exists_nodes
  have := Fintype.ofFinite ν
  have hcard : Fintype.card ν < Fintype.card (Fin (as.length + 1)) := by
    rw [Fintype.card_fin, ← Nat.card_eq_fintype_card]
    omega
  obtain ⟨s, t, hne, heq⟩ :=
    Fintype.exists_ne_map_eq_of_card_lt (fun t : Fin (as.length + 1) => node t) hcard
  -- The cycle starts at that of the two places which comes first.
  have hcycle : ∀ s t : Fin (as.length + 1), s < t → node s = node t →
      ∃ front j more, Way step (node 0) front j ∧ Way step j more j ∧ more ≠ [] := by
    intro s t hlt heq
    have hle := Nat.le_of_lt_succ t.isLt
    have hst : s.val + (t.val - s.val) = t.val := by omega
    have hfront := hway 0 s.val (by omega)
    have hmore := hway s.val (t.val - s.val) (by omega)
    rw [Nat.zero_add] at hfront
    rw [hst, ← heq] at hmore
    refine ⟨_, node s, _, hfront, hmore, ?_⟩
    apply List.ne_nil_of_length_pos
    rw [List.length_take, List.length_drop]
    omega
  rcases lt_or_gt_of_ne hne with hlt | hlt
  · exact hcycle s t hlt heq
  · exact hcycle t s hlt heq.symm

theorem Unambiguous.acyclic (h : Unambiguous step i) : Acyclic step i := by
  intro front j hfront more hmore
  have heq := h front (front ++ more) j hfront (hfront.append hmore)
  exact List.self_eq_append_right.mp heq

end Ways
