import Dyad.Conc.Handles
import Mathlib.Logic.Function.Basic

/-!
# Handles in variables

A program keeps each handle it has obtained in a variable of its own, and knows
at every point which of its variables hold one. `Held t s` is that knowledge
about a history: it is proper, and what is live in it is what the variables
hold. Each event has a rule that says what the variables hold after it, so a
proof that walks a program carries the variables along, and at the end of it
nothing is live exactly if they are all empty.
-/

namespace Dyad.Conc

/-- A handle, and the variable it is kept in. -/
structure InSlot (κ η : Type) where
  slot : κ
  handle : η
deriving DecidableEq

namespace HandleEvent

variable {κ η : Type} {t : List (HandleEvent (InSlot κ η))} {s : κ → Option η}
  {k : κ} {x : η}

/-- What is live is in the variables. -/
structure Held (t : List (HandleEvent (InSlot κ η))) (s : κ → Option η) :
    Prop where
  proper : Proper t
  live : ∀ k x, Live t ⟨k, x⟩ ↔ s k = some x

/-- Everything was given back. -/
def Settled (t : List (HandleEvent (InSlot κ η))) : Prop :=
  Proper t ∧ ∀ y, ¬ Live t y

theorem Held.nil : Held ([] : List (HandleEvent (InSlot κ η))) fun _ => none :=
  ⟨True.intro, fun _ _ => iff_of_false id (by simp)⟩

theorem Held.use (h : Held t s) (hk : s k = some x) :
    Held (.used ⟨k, x⟩ :: t) s :=
  ⟨⟨(h.live k x).2 hk, h.proper⟩, h.live⟩

variable [DecidableEq κ]

theorem Held.obtain (h : Held t s) (hk : s k = none)
    (hx : HandleEvent.obtained ⟨k, x⟩ ∉ t) :
    Held (.obtained ⟨k, x⟩ :: t) (Function.update s k (some x)) := by
  refine ⟨⟨hx, h.proper⟩, fun j y => ?_⟩
  show (⟨j, y⟩ : InSlot κ η) = ⟨k, x⟩ ∨ Live t ⟨j, y⟩ ↔ _
  rw [h.live, InSlot.mk.injEq]
  by_cases hj : j = k
  · subst hj
    rw [Function.update_self, hk]
    simp [eq_comm]
  · rw [Function.update_of_ne hj]
    simp [hj]

theorem Held.free (h : Held t s) (hk : s k = some x) :
    Held (.freed ⟨k, x⟩ :: t) (Function.update s k none) := by
  refine ⟨⟨(h.live k x).2 hk, h.proper⟩, fun j y => ?_⟩
  show (⟨j, y⟩ : InSlot κ η) ≠ ⟨k, x⟩ ∧ Live t ⟨j, y⟩ ↔ _
  rw [h.live, ne_eq, InSlot.mk.injEq]
  by_cases hj : j = k
  · subst hj
    rw [Function.update_self, hk]
    simp [eq_comm]
  · rw [Function.update_of_ne hj]
    simp [hj]

omit [DecidableEq κ]

theorem Held.settled_iff (h : Held t s) : Settled t ↔ ∀ k, s k = none := by
  constructor
  · rintro ⟨-, hnone⟩ k
    cases hk : s k with
    | none => rfl
    | some x => exact absurd ((h.live k x).2 hk) (hnone _)
  · refine fun hs => ⟨h.proper, fun y hy => ?_⟩
    have := (h.live y.slot y.handle).1 hy
    rw [hs] at this
    cases this

/-- A variable that is lost still holds what it held. -/
theorem Held.not_settled (h : Held t s) (hk : s k = some x) : ¬ Settled t :=
  fun hs => hs.2 _ ((h.live k x).2 hk)

end HandleEvent

end Dyad.Conc
