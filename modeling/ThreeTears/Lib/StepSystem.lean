import Mathlib.Algebra.GroupWithZero.Nat
import Mathlib.Tactic.Common

/-!
# Systems that take one action at a time

A system is a partial step function: an action is either enabled in a state and leads to one
state, or it is not enabled. Every choice the environment has (which party moves next, which
answer a call gets) is part of the action, so a list of actions determines the run.
-/

/-- A partial step function: `none` is an action that is not enabled in the state. -/
structure StepSystem (σ α : Type*) where
  step : σ → α → Option σ

namespace StepSystem

variable {σ α : Type*} (S : StepSystem σ α) {s s' : σ} {a : α} {as bs : List α}

/-- The state after a list of actions, `none` as soon as one of them is not enabled. -/
def run : σ → List α → Option σ
  | s, [] => some s
  | s, a :: as => (S.step s a).bind fun s' => run s' as

@[simp] lemma run_cons (s : σ) (a : α) (as : List α) :
    S.run s (a :: as) = (S.step s a).bind fun s' => S.run s' as := rfl

/-- A run on a concrete input, by evaluation of the facts about the state it ends in. -/
lemma exists_run_of_any {p : σ → Prop} [DecidablePred p]
    (h : (S.run s as).any (fun t => decide (p t)) = true) : ∃ t, S.run s as = some t ∧ p t := by
  cases hr : S.run s as with rw [hr] at h
  | none => cases h
  | some t => exact ⟨t, rfl, of_decide_eq_true h⟩

lemma exists_run_imp {p q : σ → Prop} [DecidablePred p]
    (h : (S.run s as).any (fun t => decide (p t)) = true)
    (hq : ∀ t, S.run s as = some t → p t → q t) : ∃ t, S.run s as = some t ∧ q t := by
  obtain ⟨t, hr, hp⟩ := S.exists_run_of_any h
  exact ⟨t, hr, hq t hr hp⟩

lemma exists_run_and {p q : σ → Prop} [DecidablePred p]
    (h : (S.run s as).any (fun t => decide (p t)) = true)
    (hq : ∀ t, S.run s as = some t → p t → q t) : ∃ t, S.run s as = some t ∧ p t ∧ q t :=
  S.exists_run_imp h fun t hr hp => ⟨hp, hq t hr hp⟩

-- named, so that a numeral of `Fin 2` or `Fin 3` is one term in every module
instance : NeZero 2 := ⟨by decide⟩

instance : NeZero 3 := ⟨by decide⟩

variable {I : σ → Prop}

/-- What every step by one of the run's actions keeps, the run keeps. -/
theorem run_invariant_mem (he : ∀ s, ∀ a ∈ as, ∀ s', I s → S.step s a = some s' → I s') (hs : I s)
    (hr : S.run s as = some s') : I s' := by
  induction as generalizing s with
  | nil =>
    cases hr
    exact hs
  | cons a as ih =>
    rw [run_cons, Option.bind_eq_some_iff] at hr
    obtain ⟨t, ht, hr⟩ := hr
    exact ih (fun s b hb => he s b (List.mem_cons_of_mem _ hb))
      (he s a List.mem_cons_self t hs ht) hr

/-- What every step keeps, every run keeps. -/
theorem run_invariant (ht : ∀ s a s', I s → S.step s a = some s' → I s') (hs : I s)
    (hr : S.run s as = some s') : I s' :=
  S.run_invariant_mem (fun s a _ => ht s a) hs hr

def states : σ → List α → List σ
  | s, [] => [s]
  | s, a :: as => s :: ((S.step s a).map fun s' => states s' as).getD []

/-- What every step keeps of the state and of those before it, every run keeps. -/
theorem run_invariant_states {I : List σ → σ → Prop}
    (he : ∀ past s a s', I past s → S.step s a = some s' → I (past ++ [s']) s') (hs : I [s] s)
    (hr : S.run s as = some s') : I (S.states s as) s' := by
  suffices h : ∀ past s, I (past ++ [s]) s → S.run s as = some s' →
      I (past ++ S.states s as) s' from h [] s hs hr
  clear hs hr
  intro past s hs hr
  induction as generalizing past s with
  | nil =>
    cases hr
    exact hs
  | cons a as ih =>
    rw [run_cons, Option.bind_eq_some_iff] at hr
    obtain ⟨t, ht, hr⟩ := hr
    have h := ih (past ++ [s]) t (he _ s a t hs ht) hr
    simpa [states, ht] using h

/-! ### Runs whose steps all meet a condition -/

/-- The system that only takes the steps that meet `ok`. -/
def guard (ok : σ → α → Prop) [∀ s a, Decidable (ok s a)] : StepSystem σ α where
  step s a := if ok s a then S.step s a else none

variable {ok : σ → α → Prop} [∀ s a, Decidable (ok s a)]

lemma guard_step_eq_some_iff : (S.guard ok).step s a = some s' ↔ ok s a ∧ S.step s a = some s' := by
  simp only [guard]
  split_ifs with h <;> simp [h]

/-- What every step that meets the condition keeps, every run of such steps keeps. -/
theorem run_guard_invariant (he : ∀ s a s', I s → ok s a → S.step s a = some s' → I s') (hs : I s)
    (hr : (S.guard ok).run s as = some s') : I s' := by
  refine run_invariant _ (fun s a s' h hg => ?_) hs hr
  obtain ⟨ho, ht⟩ := S.guard_step_eq_some_iff.1 hg
  exact he s a s' h ho ht

lemma run_of_run_guard (hr : (S.guard ok).run s as = some s') : S.run s as = some s' := by
  induction as generalizing s with
  | nil => exact hr
  | cons a as ih =>
    rw [run_cons, Option.bind_eq_some_iff] at hr ⊢
    obtain ⟨t, ht, hr⟩ := hr
    exact ⟨t, ((S.guard_step_eq_some_iff).1 ht).2, ih hr⟩

end StepSystem
