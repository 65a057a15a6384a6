import Mathlib.Data.List.Count

/-!
# Handles that are obtained, used and freed

A library hands out handles and wants each back exactly once. What a program
does with them is a history of events, the newest first. `Live` is what has
been obtained and not freed yet; a history is `Proper` when no handle is
obtained twice and only a live one is used or freed.

A proper history at whose end nothing is live is one where every handle was
freed once and none was used after that: `Proper.released`. Carrying `Proper`
along with the handles that are live is therefore all a program has to do.
-/

namespace Dyad.Conc

/-- What is done with a handle. -/
inductive HandleEvent (η : Type)
  | obtained (h : η)
  | freed (h : η)
  | used (h : η)
deriving DecidableEq

namespace HandleEvent

variable {η : Type} {t : List (HandleEvent η)} {x : η}

/-- A handle that was obtained and has not been freed since. -/
def Live : List (HandleEvent η) → η → Prop
  | [], _ => False
  | .obtained h :: t, x => x = h ∨ Live t x
  | .freed h :: t, x => x ≠ h ∧ Live t x
  | .used _ :: t, x => Live t x

/-- Handles are obtained anew, and used and freed only while they are live. -/
def Proper : List (HandleEvent η) → Prop
  | [] => True
  | .obtained h :: t => .obtained h ∉ t ∧ Proper t
  | .freed h :: t => Live t h ∧ Proper t
  | .used h :: t => Live t h ∧ Proper t

/-- Each handle that was obtained was freed once, and none was used after it
had been freed. -/
structure Released [DecidableEq η] (t : List (HandleEvent η)) : Prop where
  once : ∀ x, .obtained x ∈ t → t.count (.freed x) = 1
  unused : ∀ l x r, t = l ++ .used x :: r → .freed x ∉ r

theorem Live.obtained (h : Live t x) : HandleEvent.obtained x ∈ t := by
  induction t with
  | nil => exact h.elim
  | cons e t ih =>
    cases e with
    | obtained y =>
      rcases h with rfl | h
      · exact List.mem_cons_self
      · exact List.mem_cons_of_mem _ (ih h)
    | freed y => exact List.mem_cons_of_mem _ (ih h.2)
    | used y => exact List.mem_cons_of_mem _ (ih h)

theorem Proper.of_append {l : List (HandleEvent η)} (h : Proper (l ++ t)) :
    Proper t := by
  induction l with
  | nil => exact h
  | cons e l ih =>
    cases e with
    | obtained y => exact ih h.2
    | freed y => exact ih h.2
    | used y => exact ih h.2

/-- Only what was obtained is freed. -/
theorem Proper.obtained_of_freed (h : Proper t)
    (hx : HandleEvent.freed x ∈ t) : HandleEvent.obtained x ∈ t := by
  induction t with
  | nil => exact absurd hx (by simp)
  | cons e t ih =>
    rcases List.mem_cons.1 hx with rfl | hx
    · exact List.mem_cons_of_mem _ h.1.obtained
    · have hp : Proper t := Proper.of_append (l := [e]) h
      exact List.mem_cons_of_mem _ (ih hp hx)

/-- What is live has not been freed. -/
theorem Proper.not_freed (h : Proper t) (hx : Live t x) :
    HandleEvent.freed x ∉ t := by
  induction t with
  | nil => simp
  | cons e t ih =>
    have hp : Proper t := Proper.of_append (l := [e]) h
    cases e with
    | obtained y =>
      intro hmem
      have hfreed : HandleEvent.freed x ∈ t := by simpa using hmem
      rcases hx with rfl | hx
      · exact h.1 (hp.obtained_of_freed hfreed)
      · exact ih hp hx hfreed
    | freed y =>
      intro hmem
      rcases List.mem_cons.1 hmem with heq | hmem
      · exact hx.1 (HandleEvent.freed.inj heq)
      · exact ih hp hx.2 hmem
    | used y =>
      intro hmem
      exact ih hp hx (by simpa using hmem)

/-- What was obtained is live, or was freed once. -/
theorem Proper.live_or_freed [DecidableEq η] (h : Proper t)
    (hx : HandleEvent.obtained x ∈ t) : Live t x ∨ t.count (.freed x) = 1 := by
  induction t with
  | nil => exact absurd hx (by simp)
  | cons e t ih =>
    have hp : Proper t := Proper.of_append (l := [e]) h
    cases e with
    | obtained y =>
      rw [List.count_cons_of_ne (by simp)]
      rcases List.mem_cons.1 hx with heq | hx
      · exact Or.inl (Or.inl (HandleEvent.obtained.inj heq))
      · exact (ih hp hx).imp_left Or.inr
    | freed y =>
      have hx : HandleEvent.obtained x ∈ t := by simpa using hx
      by_cases hxy : x = y
      · subst hxy
        refine Or.inr ?_
        rw [List.count_cons_self, List.count_eq_zero_of_not_mem
          (hp.not_freed h.1)]
      · rw [List.count_cons_of_ne (fun heq =>
          hxy (HandleEvent.freed.inj heq).symm)]
        exact (ih hp hx).imp_left fun hl => ⟨hxy, hl⟩
    | used y =>
      rw [List.count_cons_of_ne (by simp)]
      exact ih hp (by simpa using hx)

/-- At the end of a proper history with nothing live, everything was
released. -/
theorem Proper.released [DecidableEq η] (h : Proper t)
    (hnone : ∀ x, ¬ Live t x) : Released t where
  once x hx := (h.live_or_freed hx).resolve_left (hnone x)
  unused l x r heq := by
    have hp : Proper (.used x :: r) := Proper.of_append (heq ▸ h)
    exact hp.2.not_freed hp.1

/-- Freeing handles one after the other, each of them live. -/
theorem Proper.free_all {l : List η} (h : Proper t) (hnodup : l.Nodup)
    (hlive : ∀ x ∈ l, Live t x) :
    Proper ((l.map HandleEvent.freed).reverse ++ t) ∧
      ∀ x, Live ((l.map HandleEvent.freed).reverse ++ t) x ↔
        Live t x ∧ x ∉ l := by
  induction l generalizing t with
  | nil => exact ⟨h, fun x => by simp⟩
  | cons y l ih =>
    obtain ⟨hy, hl⟩ := List.nodup_cons.1 hnodup
    have hlive' : ∀ x ∈ l, Live (.freed y :: t) x := by
      intro x hx
      exact ⟨fun heq => hy (heq ▸ hx), hlive x (List.mem_cons_of_mem _ hx)⟩
    obtain ⟨hp, hiff⟩ := ih (t := .freed y :: t)
      ⟨hlive y List.mem_cons_self, h⟩ hl hlive'
    rw [List.map_cons, List.reverse_cons, List.append_assoc]
    refine ⟨hp, fun x => ?_⟩
    rw [show [HandleEvent.freed y] ++ t = .freed y :: t from rfl, hiff]
    show (x ≠ y ∧ Live t x) ∧ x ∉ l ↔ _
    rw [List.mem_cons, not_or]
    tauto

end HandleEvent

end Dyad.Conc
