import Mathlib.Data.List.Forall2
import Mathlib.Data.Option.Basic
import QfClient.Machine

/-!
# Two machines in lockstep

Two machines are in lockstep when related inputs take related states to related
states with related observations, and are enabled in both or in neither. A secret
is kept when a machine is in lockstep with itself for a relation that forgets the
secret and compares the observations. The rules carry one step to whole runs.
-/

namespace Machine

variable {σ ι ω σ' ι' ω' : Type*} {step : Step σ ι ω} {step' : Step σ' ι' ω'}

def Lockstep (step : Step σ ι ω) (step' : Step σ' ι' ω') (R : σ → σ' → Prop) (L : ι → ι' → Prop)
    (V : ω → ω' → Prop) : Prop :=
  ∀ s s' i i', R s s' → L i i' →
    Option.Rel (fun r r' => R r.1 r'.1 ∧ V r.2 r'.2) (step s i) (step' s' i')

variable {R : σ → σ' → Prop} {L : ι → ι' → Prop} {V : ω → ω' → Prop}

/-- Related inputs lead from related states to related traces. -/
theorem Lockstep.run (h : Lockstep step step' R L V) {s : σ} {s' : σ'} (hs : R s s') {is : List ι}
    {is' : List ι'} (his : List.Forall₂ L is is') :
    Option.Rel (fun r r' => R r.1 r'.1 ∧
        List.Forall₂ (fun e e' => L e.1 e'.1 ∧ V e.2 e'.2) r.2 r'.2)
      (Machine.run step s is) (Machine.run step' s' is') := by
  induction his generalizing s s' with
  | nil => exact .some ⟨hs, .nil⟩
  | @cons i i' is is' hi _ ih =>
      have hstep := h s s' i i' hs hi
      simp only [Machine.run]
      generalize step s i = r at hstep ⊢
      generalize step' s' i' = r' at hstep ⊢
      cases hstep with
      | none => exact .none
      | @some r r' hr =>
          have hrest := ih hr.1
          simp only
          generalize Machine.run step r.1 is = q at hrest ⊢
          generalize Machine.run step' r'.1 is' = q' at hrest ⊢
          cases hrest with
          | none => exact .none
          | some hq => exact .some ⟨hq.1, .cons ⟨hi, hr.2⟩ hq.2⟩

/-- With equal observations the two runs look the same. -/
theorem Lockstep.run_observations {V : ω → ω → Prop} {step' : Step σ' ι' ω}
    (h : Lockstep step step' R L V) (hV : ∀ o o', V o o' → o = o') {s : σ} {s' : σ'}
    (hs : R s s') {is : List ι} {is' : List ι'} (his : List.Forall₂ L is is') :
    (Machine.run step s is).map (fun r => r.2.map Prod.snd) =
      (Machine.run step' s' is').map (fun r => r.2.map Prod.snd) := by
  have hrun := h.run hs his
  generalize Machine.run step s is = r at hrun ⊢
  generalize Machine.run step' s' is' = r' at hrun ⊢
  cases hrun with
  | none => rfl
  | some hr =>
      rw [Option.map_some, Option.map_some, Option.some.injEq, ← List.forall₂_eq_eq_eq,
        List.forall₂_map_left_iff, List.forall₂_map_right_iff]
      exact hr.2.imp fun _ _ he => hV _ _ he.2

/-- The first step of a run. -/
theorem run_cons_eq_some {s s₁ : σ} {i : ι} {is : List ι} {t : Trace ι ω}
    (h : Machine.run step s (i :: is) = some (s₁, t)) :
    ∃ s₂ o u, step s i = some (s₂, o) ∧ Machine.run step s₂ is = some (s₁, u) ∧
      t = (i, o) :: u := by
  rw [Machine.run] at h
  cases hs : step s i with
  | none => simp [hs] at h
  | some r =>
      obtain ⟨s₂, o⟩ := r
      simp only [hs] at h
      cases hrest : Machine.run step s₂ is with
      | none => simp [hrest] at h
      | some q =>
          obtain ⟨s₃, u⟩ := q
          simp only [hrest, Option.some.injEq, Prod.mk.injEq] at h
          exact ⟨s₂, o, u, rfl, by rw [hrest, h.1], h.2.symm⟩

/-- What one step keeps, a run keeps. -/
theorem Execution.invariant {I : σ → Prop} {s s₁ : σ} {t : Trace ι ω}
    (hI : ∀ s i s' o, I s → step s i = some (s', o) → I s') (h₀ : I s)
    (h : Execution step s t s₁) : I s₁ := by
  induction h with
  | nil => exact h₀
  | snoc _ hs ih => exact hI _ _ _ _ ih hs

/-- What each step does from a state that keeps the invariant, each event of a run is. -/
theorem Execution.forall_events {I : σ → Prop} {P : ι × ω → Prop} {s s₁ : σ} {t : Trace ι ω}
    (hI : ∀ s i s' o, I s → step s i = some (s', o) → I s' ∧ P (i, o)) (h₀ : I s)
    (h : Execution step s t s₁) : ∀ e ∈ t, P e := by
  induction h with
  | nil => exact fun e he => absurd he List.not_mem_nil
  | @snoc t s₁ s₂ i o ht hs ih =>
      have hkept : I s₁ := ht.invariant (fun s i s' o hs hstep => (hI s i s' o hs hstep).1) h₀
      intro e he
      rcases List.mem_append.mp he with he | he
      · exact ih e he
      · rw [List.mem_singleton.mp he]
        exact (hI _ _ _ _ hkept hs).2

end Machine
