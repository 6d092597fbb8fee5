import Mathlib.Logic.Relation
import Mathlib.Tactic.SplitIfs

/-!
# Runs of a labelled transition system

A system is a relation `step s a s'`: in state `s`, the action `a` may lead to `s'`. A run
from `s` to `s'` whose every step meets a side condition `ok` on the state before it and
its action is `Runs step ok s s'`; with the trivial condition it is just reachability.

The one rule the development runs on is `Runs.invariant`: what holds at the start and is
preserved by every admissible step holds at every state a run reaches. `Runs.of_foldlM` makes
a run of a list of actions, for systems whose steps are computed.
-/

/-- Some run leads from `s` to `s'`, each of its steps meeting `ok` in the state before it. -/
def Runs {σ ι : Type} (step : σ → ι → σ → Prop) (ok : σ → ι → Prop) : σ → σ → Prop :=
  Relation.ReflTransGen fun s s' => ∃ a, ok s a ∧ step s a s'

namespace Runs

variable {σ ι : Type} {step : σ → ι → σ → Prop} {ok ok' : σ → ι → Prop} {s s' s'' : σ}

theorem refl (s : σ) : Runs step ok s s := Relation.ReflTransGen.refl

theorem snoc {a : ι} (h : Runs step ok s s') (hok : ok s' a) (hs : step s' a s'') :
    Runs step ok s s'' :=
  Relation.ReflTransGen.tail h ⟨a, hok, hs⟩

theorem trans (h : Runs step ok s s') (h' : Runs step ok s' s'') : Runs step ok s s'' :=
  Relation.ReflTransGen.trans h h'

/-- **The invariant rule**: a property of the first state that every admissible step
preserves is a property of every state reached. -/
theorem invariant {P : σ → Prop} (h : Runs step ok s s') (hinit : P s)
    (hstep : ∀ {t a t'}, P t → ok t a → step t a t' → P t') : P s' := by
  induction h with
  | refl => exact hinit
  | tail _ hlast ih =>
    obtain ⟨a, hok, hs⟩ := hlast
    exact hstep ih hok hs

/-- A run meeting a condition meets every weaker one. -/
theorem mono (h : Runs step ok s s') (himp : ∀ t a, ok t a → ok' t a) : Runs step ok' s s' :=
  Relation.ReflTransGen.mono (fun _ _ ⟨a, hok, hs⟩ => ⟨a, himp _ a hok, hs⟩) _ _ h

/-! ### Runs of a step function -/

/-- The steps of a function that says where an action leads, or that it is not possible. -/
def ofFn (f : σ → ι → Option σ) (s : σ) (a : ι) (s' : σ) : Prop := f s a = some s'

/-- A list of actions carried out one after the other, each under the side condition, is a
run. -/
theorem of_foldlM {f : σ → ι → Option σ} {ok : σ → ι → Prop} [∀ s a, Decidable (ok s a)]
    {actions : List ι} {s s' : σ}
    (h : actions.foldlM (fun s a => if ok s a then f s a else none) s = some s') :
    Runs (ofFn f) ok s s' := by
  induction actions generalizing s with
  | nil =>
    cases h
    exact refl _
  | cons a actions ih =>
    rw [List.foldlM_cons] at h
    obtain ⟨t, ht, h⟩ := Option.bind_eq_some_iff.mp h
    split_ifs at ht with hok
    exact Relation.ReflTransGen.head ⟨a, hok, ht⟩ (ih h)

/-- A list of actions whose last state passes a test. -/
theorem exists_of_foldlM {f : σ → ι → Option σ} {C : σ → ι → Prop} [∀ s a, Decidable (C s a)]
    {p : σ → Bool} (actions : List ι) {s : σ}
    (h : (actions.foldlM (fun s a => if C s a then f s a else none) s).map p = some true) :
    ∃ s', Runs (ofFn f) C s s' ∧ p s' = true := by
  rcases hr : actions.foldlM (fun s a => if C s a then f s a else none) s with _ | s'
  · rw [hr] at h
    cases h
  · rw [hr] at h
    exact ⟨s', of_foldlM hr, Option.some.inj h⟩

end Runs
