import Mathlib.Logic.Relation

/-!
# Invariants of transition systems

A step relation `r` on states, and the states reachable by its reflexive-transitive
closure.  A property that every step keeps holds of every state reachable from one that
has it (`invariant`); one that every step keeps only in the presence of another invariant
is carried together with it (`invariant_of_and`).  A loop over a list is a run too
(`foldl_invariant`).
-/

namespace Transition

open Relation

variable {σ : Type*} {r : σ → σ → Prop}

/-- The run rule: a property kept by every step holds along every run. -/
theorem invariant (P : σ → Prop) (hstep : ∀ s s', P s → r s s' → P s') {s s' : σ}
    (hrun : ReflTransGen r s s') (hs : P s) : P s' := by
  induction hrun with
  | refl => exact hs
  | tail _ hlast ih => exact hstep _ _ ih hlast

/-- A property kept by every step from states that also satisfy an invariant `I`. -/
theorem invariant_of_and (I P : σ → Prop) (hI : ∀ s s', I s → r s s' → I s')
    (hP : ∀ s s', I s → P s → r s s' → P s') {s s' : σ} (hrun : ReflTransGen r s s')
    (hIs : I s) (hPs : P s) : I s' ∧ P s' :=
  invariant (fun s => I s ∧ P s)
    (fun _ _ h hr => ⟨hI _ _ h.1 hr, hP _ _ h.1 h.2 hr⟩) hrun ⟨hIs, hPs⟩

/-- The loop rule: a property kept by each step of a fold holds of its result. -/
theorem foldl_invariant {α β : Type*} (P : β → Prop) (f : β → α → β) :
    ∀ (l : List α), (∀ b a, a ∈ l → P b → P (f b a)) → ∀ b, P b → P (l.foldl f b)
  | [], _, _, hb => hb
  | a :: l, hf, b, hb =>
    foldl_invariant P f l (fun b' a' ha' => hf b' a' (List.mem_cons_of_mem a ha'))
      (f b a) (hf b a List.mem_cons_self hb)

/-- A run of a step relation with labels, and the labels of its steps in order. -/
inductive Trace {α : Type*} (r : σ → List α → σ → Prop) : σ → List α → σ → Prop
  | refl (s : σ) : Trace r s [] s
  | tail {s s₁ s₂ : σ} {l l₁ : List α} : Trace r s l s₁ → r s₁ l₁ s₂ → Trace r s (l ++ l₁) s₂

/-- The run rule for a property of the labels so far and the state. -/
theorem Trace.invariant {α : Type*} {r : σ → List α → σ → Prop} (P : List α → σ → Prop)
    (hstep : ∀ l s l₁ s', P l s → r s l₁ s' → P (l ++ l₁) s') {s s' : σ} {l : List α}
    (htrace : Trace r s l s') (hs : P [] s) : P l s' := by
  induction htrace with
  | refl => exact hs
  | tail _ hlast ih => exact hstep _ _ _ _ ih hlast

/-- The states of a run are reachable by the steps with their labels forgotten. -/
theorem Trace.reflTransGen {α : Type*} {r : σ → List α → σ → Prop} {s s' : σ} {l : List α}
    (htrace : Trace r s l s') : ReflTransGen (fun a b => ∃ l, r a l b) s s' := by
  induction htrace with
  | refl => exact .refl
  | tail _ hlast ih => exact ih.tail ⟨_, hlast⟩

end Transition
