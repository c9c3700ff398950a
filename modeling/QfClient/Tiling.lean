import Mathlib.Data.List.Basic
import Mathlib.Tactic.Common

/-!
# Tilings of an interval

`Tiles a ivs b`: the intervals of `ivs` follow each other without a gap from
`a` to `b`, and none of them is empty.
-/

namespace Tiling

structure Interval where
  start : ℕ
  length : ℕ
  deriving DecidableEq, Repr

def Interval.stop (iv : Interval) : ℕ := iv.start + iv.length

inductive Tiles : ℕ → List Interval → ℕ → Prop
  | nil (a : ℕ) : Tiles a [] a
  | cons {iv : Interval} {ivs : List Interval} {b : ℕ} :
      0 < iv.length → Tiles iv.stop ivs b → Tiles iv.start (iv :: ivs) b

variable {a b : ℕ} {iv : Interval} {ivs : List Interval}

theorem Tiles.le (h : Tiles a ivs b) : a ≤ b := by
  induction h with
  | nil => exact Nat.le_refl _
  | cons _ _ ih => exact Nat.le_trans (Nat.le_add_right _ _) ih

theorem Tiles.length_pos (h : Tiles a ivs b) : ∀ iv ∈ ivs, 0 < iv.length := by
  induction h with
  | nil => simp
  | cons hpos _ ih => exact List.forall_mem_cons.mpr ⟨hpos, ih⟩

theorem Tiles.start_le (h : Tiles a ivs b) : ∀ iv ∈ ivs, a ≤ iv.start := by
  induction h with
  | nil => simp
  | @cons iv ivs b _ _ ih =>
      refine List.forall_mem_cons.mpr ⟨Nat.le_refl _, fun iv' hiv' => ?_⟩
      exact Nat.le_trans (Nat.le_add_right _ _) (ih iv' hiv')

/-- The intervals are disjoint and in ascending order. -/
theorem Tiles.pairwise (h : Tiles a ivs b) :
    ivs.Pairwise (fun iv iv' => iv.stop ≤ iv'.start) := by
  induction h with
  | nil => exact List.Pairwise.nil
  | cons _ hrest ih => exact List.Pairwise.cons hrest.start_le ih

/-- The intervals cover exactly what lies between the two ends. -/
theorem Tiles.mem_iff (h : Tiles a ivs b) (x : ℕ) :
    (∃ iv ∈ ivs, iv.start ≤ x ∧ x < iv.stop) ↔ a ≤ x ∧ x < b := by
  induction h with
  | nil => simp
  | @cons iv ivs b hpos hrest ih =>
      have hle := hrest.le
      have hstop : iv.stop = iv.start + iv.length := rfl
      simp only [List.exists_mem_cons_iff, ih]
      omega

theorem Tiles.stop_le (h : Tiles a ivs b) (hiv : iv ∈ ivs) : iv.stop ≤ b := by
  have hpos := h.length_pos iv hiv
  have hstop : iv.stop = iv.start + iv.length := rfl
  obtain ⟨-, hlt⟩ := (h.mem_iff (iv.stop - 1)).mp ⟨iv, hiv, by omega, by omega⟩
  omega

theorem Tiles.eq_nil_iff (h : Tiles a ivs b) : ivs = [] ↔ a = b := by
  cases h with
  | nil => simp
  | @cons iv ivs _ hpos hrest =>
      have hle := hrest.le
      have hstop : iv.stop = iv.start + iv.length := rfl
      simp only [reduceCtorEq, false_iff]
      omega

end Tiling
