import Mathlib.Logic.Basic
import Mathlib.Tactic.TypeStar

/-!
# Executions of partial Mealy machines

A machine is a partial step function: a state and an input give the next state
together with what the step let an observer see, or `none` where the input is
not enabled. An `Execution` records the inputs with their observations, so a
statement about a trace is a statement about every order of steps that leads to
it. The rules below split an execution at one of its events, relate each event to
the trace before it, and project an execution onto a smaller machine.
-/

namespace Machine

variable {σ ι ω σ' ι' ω' : Type*}

abbrev Step (σ ι ω : Type*) := σ → ι → Option (σ × ω)

abbrev Trace (ι ω : Type*) := List (ι × ω)

/-- `Execution step s t s'`: from `s` the machine can run through `t` to `s'`. -/
inductive Execution (step : Step σ ι ω) (s : σ) : Trace ι ω → σ → Prop
  | nil : Execution step s [] s
  | snoc {t : Trace ι ω} {s₁ s₂ : σ} {i : ι} {o : ω} :
      Execution step s t s₁ → step s₁ i = some (s₂, o) → Execution step s (t ++ [(i, o)]) s₂

def run (step : Step σ ι ω) (s : σ) : List ι → Option (σ × Trace ι ω)
  | [] => some (s, [])
  | i :: is =>
      match step s i with
      | none => none
      | some (s₁, o) =>
          match run step s₁ is with
          | none => none
          | some (s₂, t) => some (s₂, (i, o) :: t)

theorem filterMap_singleton {α β : Type*} (f : α → Option β) (a : α) :
    [a].filterMap f = (f a).toList := by
  cases h : f a with
  | none => rw [List.filterMap_cons_none h, List.filterMap_nil, Option.toList_none]
  | some b => rw [List.filterMap_cons_some h, List.filterMap_nil, Option.toList_some]

theorem filterMap_snoc {α β : Type*} (f : α → Option β) (l : List α) (a : α) :
    (l ++ [a]).filterMap f = l.filterMap f ++ (f a).toList := by
  rw [List.filterMap_append, filterMap_singleton]

variable {step : Step σ ι ω} {s s₁ s₂ : σ} {t u : Trace ι ω} {i : ι} {o : ω}

theorem Execution.single (h : step s i = some (s₁, o)) : Execution step s [(i, o)] s₁ :=
  Execution.snoc (t := []) .nil h

theorem Execution.append (h : Execution step s t s₁) (h' : Execution step s₁ u s₂) :
    Execution step s (t ++ u) s₂ := by
  induction h' with
  | nil => simpa only [List.append_nil] using h
  | snoc _ hs ih => simpa only [List.append_assoc] using Execution.snoc ih hs

theorem Execution.cons (hs : step s i = some (s₁, o)) (h : Execution step s₁ t s₂) :
    Execution step s ((i, o) :: t) s₂ :=
  (Execution.single hs).append h

theorem Execution.split (h : Execution step s (t ++ u) s₂) :
    ∃ s₁, Execution step s t s₁ ∧ Execution step s₁ u s₂ := by
  generalize htu : t ++ u = v at h
  induction h generalizing u with
  | nil =>
      obtain ⟨rfl, rfl⟩ := List.append_eq_nil_iff.mp htu
      exact ⟨s, .nil, .nil⟩
  | @snoc v s₃ s₄ i o hv hs ih =>
      rcases List.eq_nil_or_concat u with rfl | ⟨u, x, rfl⟩
      · rw [List.append_nil] at htu
        subst htu
        exact ⟨s₄, .snoc hv hs, .nil⟩
      · rw [List.concat_eq_append, ← List.append_assoc] at htu
        obtain ⟨hv', hx⟩ := List.append_inj' htu rfl
        obtain rfl : x = (i, o) := List.singleton_inj.mp hx
        obtain ⟨s₁, h₁, h₂⟩ := ih hv'
        exact ⟨s₁, h₁, by rw [List.concat_eq_append]; exact .snoc h₂ hs⟩

/-- The state in which an event of the trace happened. -/
theorem Execution.at_event (h : Execution step s (t ++ (i, o) :: u) s₂) :
    ∃ s₃ s₄, Execution step s t s₃ ∧ step s₃ i = some (s₄, o) ∧ Execution step s₄ u s₂ := by
  rw [List.append_cons] at h
  obtain ⟨s₄, h₄, hu⟩ := h.split
  obtain ⟨s₃, h₃, hlast⟩ := h₄.split
  generalize hv : [(i, o)] = v at hlast
  cases hlast with
  | nil => cases hv
  | @snoc v s₅ _ i' o' hv' hs =>
      obtain ⟨hnil, hio⟩ := @List.append_inj' _ [] _ _ _ hv rfl
      obtain ⟨rfl, rfl⟩ : i = i' ∧ o = o' := by simpa using hio
      subst hnil
      generalize hw : ([] : Trace ι ω) = w at hv'
      cases hv' with
      | nil => exact ⟨_, _, h₃, hs, hu⟩
      | snoc _ _ => exact absurd hw (by simp)

/-- Every event of the trace stands in the relation `P` to the trace before it. -/
def EachEvent (P : Trace ι ω → ι × ω → Prop) (t : Trace ι ω) : Prop :=
  ∀ u e v, t = u ++ e :: v → P u e

theorem eachEvent_snoc {P : Trace ι ω → ι × ω → Prop} {e : ι × ω} :
    EachEvent P (t ++ [e]) ↔ EachEvent P t ∧ P t e := by
  constructor
  · intro h
    refine ⟨fun u e' v ht => h u e' (v ++ [e]) ?_, h t e [] rfl⟩
    rw [ht, List.append_assoc, List.cons_append]
  · rintro ⟨hall, hlast⟩ u e' v ht
    rcases List.eq_nil_or_concat v with rfl | ⟨v, x, rfl⟩
    · obtain ⟨rfl, he⟩ := List.append_inj' ht rfl
      obtain rfl := List.singleton_inj.mp he
      exact hlast
    · rw [List.concat_eq_append, ← List.cons_append, ← List.append_assoc] at ht
      exact hall u e' v (List.append_inj' ht rfl).1

theorem Execution.of_run {is : List ι} (h : run step s is = some (s₁, t)) :
    Execution step s t s₁ := by
  induction is generalizing s t with
  | nil =>
      simp only [run, Option.some.injEq, Prod.mk.injEq] at h
      obtain ⟨rfl, rfl⟩ := h
      exact .nil
  | cons i is ih =>
      cases hs : step s i with
      | none => simp [run, hs] at h
      | some p =>
          obtain ⟨s₃, o⟩ := p
          cases hr : run step s₃ is with
          | none => simp [run, hs, hr] at h
          | some q =>
              simp only [run, hs, hr, Option.some.injEq, Prod.mk.injEq] at h
              obtain ⟨rfl, rfl⟩ := h
              exact .cons hs (ih hr)

def DoesEvent (step : Step σ ι ω) (s s' : σ) : Option (ι × ω) → Prop
  | none => s' = s
  | some (i, o) => step s i = some (s', o)

/-- A simulation: `f` maps the states, and an event is either mapped to one of
the smaller machine or leaves its state alone. Only inputs in `P` occur. -/
theorem Execution.project {step' : Step σ' ι' ω'} {I : σ → Prop} {P : ι → Prop} (f : σ → σ')
    (g : ι × ω → Option (ι' × ω'))
    (hinv : ∀ s i s' o, I s → P i → step s i = some (s', o) → I s')
    (hsim : ∀ s i s' o, I s → P i → step s i = some (s', o) →
      DoesEvent step' (f s) (f s') (g (i, o)))
    (h₀ : I s) (hP : ∀ e ∈ t, P e.1) (h : Execution step s t s₁) :
    Execution step' (f s) (t.filterMap g) (f s₁) ∧ I s₁ := by
  induction h with
  | nil => exact ⟨.nil, h₀⟩
  | @snoc t s₁ s₂ i o ht hs ih =>
      obtain ⟨hexec, hI⟩ := ih fun e he => hP e (List.mem_append_left _ he)
      have hi : P i := hP (i, o) (by simp)
      have hm := hsim _ _ _ _ hI hi hs
      refine ⟨?_, hinv _ _ _ _ hI hi hs⟩
      rw [List.filterMap_append]
      cases hg : g (i, o) with
      | none =>
          have hsame : f s₂ = f s₁ := by rwa [hg] at hm
          rw [List.filterMap_cons_none hg, List.filterMap_nil, List.append_nil, hsame]
          exact hexec
      | some p =>
          obtain ⟨i', o'⟩ := p
          rw [hg] at hm
          rw [List.filterMap_cons_some hg, List.filterMap_nil]
          exact .snoc hexec hm

end Machine
