import Mathlib.Logic.Basic

/-!
# Labelled transition systems with run conditions

A system is a predicate on initial states and a guarded step function:
`next s l` is the state after the label `l`, or `none` when `l` is not
enabled at `s`. The labels carry every choice the environment makes, so a
run is determined by its labels, a schedule can be replayed by evaluation,
and a proof reads the guards off the same definition the replay ran.

A run may be restricted by a condition on its steps, `ok s l`, which sees
the state before the step and the label. The unrestricted runs are those of
`fun _ _ => True`. A result about every run whose steps all meet a condition
is a result about `Run` at that condition, proved once by `Run.preserves`
from what one step does.
-/

namespace Dyad.Conc

/-- A labelled transition system: which states a run may start in, and the
state a label leads to, when it is enabled. -/
structure Lts (σ ℓ : Type) where
  init : σ → Prop
  next : σ → ℓ → Option σ

namespace Lts

variable {σ ℓ : Type} (L : Lts σ ℓ) (ok : σ → ℓ → Prop)

/-- `Run L ok s s'`: some sequence of enabled labels leads from `s` to `s'`,
and every one of its steps meets `ok`. -/
inductive Run (s : σ) : σ → Prop
  | refl : Run s s
  | step {s' s'' : σ} {l : ℓ} :
      Run s s' → ok s' l → L.next s' l = some s'' → Run s s''

/-- The states some run from an initial state reaches. -/
def Reach (s : σ) : Prop := ∃ s₀, L.init s₀ ∧ L.Run ok s₀ s

variable {L ok}

theorem Run.trans {s s' s'' : σ} (h : L.Run ok s s') (h' : L.Run ok s' s'') :
    L.Run ok s s'' := by
  induction h' with
  | refl => exact h
  | step _ hok hn ih => exact Run.step ih hok hn

theorem Reach.run {s s' : σ} (h : L.Reach ok s) (h' : L.Run ok s s') :
    L.Reach ok s' := by
  obtain ⟨s₀, hi, hr⟩ := h
  exact ⟨s₀, hi, hr.trans h'⟩

/-- What every step preserves, every run preserves. -/
theorem Run.preserves {P : σ → Prop}
    (hstep : ∀ s l s', P s → ok s l → L.next s l = some s' → P s')
    {s s' : σ} (h : L.Run ok s s') (hs : P s) : P s' := by
  induction h with
  | refl => exact hs
  | step _ hok hn ih => exact hstep _ _ _ ih hok hn

/-- A preorder that every step from an invariant state follows relates the
two ends of every run. -/
theorem Run.relates {P : σ → Prop} {G : σ → σ → Prop}
    (hrefl : ∀ s, G s s) (htrans : ∀ s s' s'', G s s' → G s' s'' → G s s'')
    (hstep : ∀ s l s', P s → ok s l → L.next s l = some s' → P s' ∧ G s s')
    {s s' : σ} (h : L.Run ok s s') (hs : P s) : P s' ∧ G s s' := by
  induction h with
  | refl => exact ⟨hs, hrefl s⟩
  | step _ hok hn ih =>
    obtain ⟨hP, hG⟩ := hstep _ _ _ ih.1 hok hn
    exact ⟨hP, htrans _ _ _ ih.2 hG⟩

/-- An invariant holds of every reachable state once it holds initially and
every step preserves it. -/
theorem Reach.invariant {P : σ → Prop} (hinit : ∀ s, L.init s → P s)
    (hstep : ∀ s l s', P s → ok s l → L.next s l = some s' → P s')
    {s : σ} (h : L.Reach ok s) : P s := by
  obtain ⟨s₀, hi, hr⟩ := h
  exact hr.preserves hstep (hinit s₀ hi)

variable (L ok)

/-- The state after a list of labels, or `none` once one is not enabled. -/
def replay (s : σ) : List ℓ → Option σ
  | [] => some s
  | l :: ls =>
    match L.next s l with
    | some s' => replay s' ls
    | none => none

/-- The labels of a schedule meet the condition, each at the state it is
taken from. -/
def Meets (s : σ) : List ℓ → Prop
  | [] => True
  | l :: ls =>
    ok s l ∧
      match L.next s l with
      | some s' => Meets s' ls
      | none => True

/-- Whether every step of a schedule passes a check. -/
def checks (φ : σ → ℓ → Bool) (s : σ) : List ℓ → Bool
  | [] => true
  | l :: ls =>
    φ s l &&
      match L.next s l with
      | some s' => checks φ s' ls
      | none => true

variable {L ok}

theorem meets_of_checks {φ : σ → ℓ → Bool}
    (hok : ∀ s l, φ s l = true → ok s l) {s : σ} {ls : List ℓ}
    (h : L.checks φ s ls = true) : L.Meets ok s ls := by
  induction ls generalizing s with
  | nil => exact True.intro
  | cons l ls ih =>
    simp only [checks, Bool.and_eq_true] at h
    refine ⟨hok s l h.1, ?_⟩
    cases hn : L.next s l with
    | none => exact True.intro
    | some s' =>
      rw [hn] at h
      exact ih h.2

/-- A schedule that replays is a run. -/
theorem Run.of_replay {s s' : σ} {ls : List ℓ} (hm : L.Meets ok s ls)
    (h : L.replay s ls = some s') : L.Run ok s s' := by
  induction ls generalizing s with
  | nil =>
    simp only [replay, Option.some.injEq] at h
    subst h
    exact Run.refl
  | cons l ls ih =>
    obtain ⟨hok, hm⟩ := hm
    simp only [replay] at h
    cases hn : L.next s l with
    | none => simp [hn] at h
    | some s₁ =>
      simp only [hn] at h hm
      exact (Run.step Run.refl hok hn).trans (ih hm h)

/-- Where any step will do, a schedule only has to replay. -/
theorem Run.replayed {s s' : σ} {ls : List ℓ} (h : L.replay s ls = some s') :
    L.Run (fun _ _ => True) s s' := by
  refine Run.of_replay ?_ h
  refine meets_of_checks (φ := fun _ _ => true) (fun _ _ _ => True.intro) ?_
  clear h
  induction ls generalizing s with
  | nil => rfl
  | cons l ls ih =>
    rw [checks, Bool.true_and]
    split
    · exact ih
    · rfl

/-- The end of a schedule that replays from an initial state and passes a
check is reachable. The state is the replay's own, so that a property of it
can be evaluated. -/
theorem Reach.of_replay {s₀ : σ} {ls : List ℓ} {φ : σ → ℓ → Bool}
    (hi : L.init s₀) (hok : ∀ s l, φ s l = true → ok s l)
    (hc : L.checks φ s₀ ls = true)
    (h : (L.replay s₀ ls).isSome = true) :
    L.Reach ok ((L.replay s₀ ls).getD s₀) := by
  obtain ⟨s, hs⟩ := Option.isSome_iff_exists.1 h
  refine ⟨s₀, hi, Run.of_replay (meets_of_checks hok hc) ?_⟩
  rw [hs]
  rfl

end Lts

end Dyad.Conc
