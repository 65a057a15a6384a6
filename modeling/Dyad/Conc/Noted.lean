import Dyad.Conc.RelyGuarantee

/-!
# A machine with a history

What a run has done is not always to be read off the state it has come to: how
often a call was made, say, or how much was written. `Machine.noted` is a
machine that keeps a note beside its world, brought up to date at each call
that is answered. No step looks at the note, so every run of the machine has one
(`reach_noted`): what holds of the noted machine holds of every run of the
machine, about its history.
-/

namespace Dyad.Conc.Machine

variable {ω τ π κ ι J γ : Type} {ρ : ι → Type} {res : J → Type}

/-- The machine, and beside its world a note of the calls so far. -/
def noted (M : Machine ω τ π κ ρ res) (note : ω → (c : ι) → ρ c → γ → γ) :
    Machine (ω × γ) τ π κ ρ res where
  proc := M.proc
  exec w t c x :=
    (M.exec w.1 t c x).map fun a => ((a.1, note w.1 c a.2 w.2), a.2)
  crash w p := (M.crash w.1 p, w.2)
  enter w t j := (M.enter w.1 t j, w.2)
  leave w t j := (M.leave w.1 t j, w.2)
  job := M.job

variable {M : Machine ω τ π κ ρ res} {note : ω → (c : ι) → ρ c → γ → γ}

theorem noted_exec {w w' : ω × γ} {t : τ} {c : ι} {x : κ} {r : ρ c} :
    (M.noted note).exec w t c x = some (w', r) ↔
      M.exec w.1 t c x = some (w'.1, r) ∧ w'.2 = note w.1 c r w.2 := by
  obtain ⟨w₁, n⟩ := w'
  simp only [noted, Option.map_eq_some_iff, Prod.mk.injEq]
  constructor
  · rintro ⟨a, hex, ⟨rfl, rfl⟩, rfl⟩
    exact ⟨hex, rfl⟩
  · rintro ⟨hex, rfl⟩
    exact ⟨_, hex, ⟨rfl, rfl⟩, rfl⟩

/-- A configuration without the note. -/
def Cfg.forget (s : Cfg (ω × γ) τ ρ res) : Cfg ω τ ρ res :=
  ⟨s.world.1, s.thread⟩

/-- A condition on the steps, which the note has no part in. -/
def Guard.noted (g : Guard M) (note : ω → (c : ι) → ρ c → γ → γ) :
    Guard (M.noted note) where
  act w := g.act w.1
  crash w := g.crash w.1
  start w := g.start w.1

variable {g : Guard M}

theorem allows_forget {s : Cfg (ω × γ) τ ρ res} {l : Label τ π κ J} :
    (g.noted note).Allows s l ↔ g.Allows s.forget l := by
  cases l <;> exact Iff.rfl

variable [DecidableEq τ] [DecidableEq π]

/-- Every step of the machine is one with the note too. -/
theorem next_noted {s : Cfg (ω × γ) τ ρ res} {s' : Cfg ω τ ρ res}
    {l : Label τ π κ J} (h : M.next s.forget l = some s') :
    ∃ s₁, (M.noted note).next s l = some s₁ ∧ s₁.forget = s' := by
  cases l with
  | start t j =>
    simp only [next] at h
    split at h
    · next p hth hj =>
      obtain rfl := Option.some.inj h
      refine ⟨⟨(M.noted note).enter s.world t j,
        Function.update s.thread t (some ⟨j, p⟩)⟩, ?_, rfl⟩
      simp only [next]
      rw [show s.thread t = none from hth,
        show (M.noted note).job t j = some p from hj]
    · exact absurd h (by simp)
  | act t x =>
    simp only [next] at h
    split at h
    · next j c k hth =>
      split at h
      · next w r hex =>
        obtain rfl := Option.some.inj h
        refine ⟨⟨(w, note s.world.1 c r s.world.2),
          Function.update s.thread t (some ⟨j, k r⟩)⟩, ?_, rfl⟩
        simp only [next]
        rw [show s.thread t = some ⟨j, .call c k⟩ from hth]
        simp only [show (M.noted note).exec s.world t c x =
          some ((w, note s.world.1 c r s.world.2), r) from
            noted_exec.2 ⟨hex, rfl⟩]
      · exact absurd h (by simp)
    · exact absurd h (by simp)
  | finish t =>
    simp only [next] at h
    split at h
    · next j a hth =>
      obtain rfl := Option.some.inj h
      refine ⟨⟨(M.noted note).leave s.world t j,
        Function.update s.thread t none⟩, ?_, rfl⟩
      simp only [next]
      rw [show s.thread t = some ⟨j, .pure a⟩ from hth]
    · exact absurd h (by simp)
  | crash p =>
    obtain rfl := Option.some.inj h
    exact ⟨_, rfl, rfl⟩

variable {init : ω → Prop} {n₀ : γ}

/-- The states a noted machine may start in: those of the machine, with the
note of nothing done yet. -/
def notedInit (init : ω → Prop) (n₀ : γ) (w : ω × γ) : Prop :=
  init w.1 ∧ w.2 = n₀

/-- Every state the machine reaches is reached with some note. -/
theorem reach_noted (note : ω → (c : ι) → ρ c → γ → γ) (n₀ : γ)
    {s : Cfg ω τ ρ res} (h : (M.lts init).Reach g.Allows s) :
    ∃ n, ((M.noted note).lts (notedInit init n₀)).Reach (g.noted note).Allows
      ⟨(s.world, n), s.thread⟩ := by
  obtain ⟨s₀, hi, hr⟩ := h
  induction hr with
  | refl => exact ⟨n₀, ⟨(s₀.world, n₀), s₀.thread⟩, ⟨⟨hi.1, rfl⟩, hi.2⟩, .refl⟩
  | @step s' s'' l _ hok hn ih =>
    obtain ⟨n, s₁, hi₁, hr₁⟩ := ih
    have hstep : ∃ s₂, (M.noted note).next ⟨(s'.world, n), s'.thread⟩ l =
        some s₂ ∧ s₂.forget = s'' := next_noted hn
    obtain ⟨s₂, hn₂, rfl⟩ := hstep
    exact ⟨s₂.world.2, s₁, hi₁, hr₁.step (allows_forget.2 hok) hn₂⟩

end Dyad.Conc.Machine
