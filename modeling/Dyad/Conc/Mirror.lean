import Dyad.Conc.Prog

/-!
# Programs that go the same way by different calls

Two programs over different calls can be the same function seen twice, with
what is one call here a program there. A table says which pieces stand for each
other: the entry `T s t R` is that `s` does with its calls what `t` does with
other calls, and that what they return is then related by `R`.

`Mirrors T p q Q` says that `p` goes the way of `q`: every run of `p` can be cut
into pieces so that the pieces that stand for them make up a run of `q`, and
what is returned at the end is related by `Q`. The rules below put such pairs
together as the programs are, a call and its continuation at a time.
-/

namespace Dyad.Conc.Prog

variable {ι κ : Type} {ρ : ι → Type} {σ : κ → Type}

/-- Pieces that stand for each other, with how their results are related. -/
abbrev Table (ρ : ι → Type) (σ : κ → Type) :=
  ⦃α β : Type⦄ → Prog ρ α → Prog σ β → (α → β → Prop) → Prop

section

variable (may : (c : ι) → ρ c → Prop) (T : Table ρ σ)

/-- The traces are made of pieces that stand for each other. -/
inductive InStep : List (Event ρ) → List (Event σ) → Prop
  | nil : InStep [] []
  | piece {α β : Type} {s : Prog ρ α} {t : Prog σ β} {R : α → β → Prop}
      {x : α} {y : β} {tr tl : List (Event ρ)} {tr' tl' : List (Event σ)} :
      T s t R → Runs may s tr x → Runs (fun _ _ => True) t tr' y → R x y →
      InStep tl tl' → InStep (tr ++ tl) (tr' ++ tl')

/-- Every run of `p` is in step with a run of `q`, and returns what is related
to what that returns. -/
def Mirrors {α β : Type} (p : Prog ρ α) (q : Prog σ β) (Q : α → β → Prop) :
    Prop :=
  ∀ tr a, Runs may p tr a →
    ∃ tr' b, Runs (fun _ _ => True) q tr' b ∧ InStep may T tr tr' ∧ Q a b

/-- Whatever the first of two pieces returns, the other can return something
that is related to it. -/
def Table.Sound : Prop :=
  ∀ ⦃α β : Type⦄ (s : Prog ρ α) (t : Prog σ β) (R : α → β → Prop), T s t R →
    ∀ x, Returns may s x → ∃ y, Returns (fun _ _ => True) t y ∧ R x y

end

variable {may : (c : ι) → ρ c → Prop} {T : Table ρ σ} {α β γ δ : Type}
  {p s : Prog ρ α} {q t : Prog σ β} {Q R : α → β → Prop}

theorem InStep.append {tr tl : List (Event ρ)} {tr' tl' : List (Event σ)}
    (h : InStep may T tr tr') (hl : InStep may T tl tl') :
    InStep may T (tr ++ tl) (tr' ++ tl') := by
  induction h with
  | nil => exact hl
  | piece hT hs ht hR _ ih =>
    rw [List.append_assoc, List.append_assoc]
    exact .piece hT hs ht hR ih

/-- A call can answer anything. -/
theorem returns_perform {d : κ} {P : σ d → Prop} (y : σ d) (h : P y) :
    ∃ y, Returns (fun _ _ => True) (perform d : Prog σ (σ d)) y ∧ P y :=
  ⟨y, .call y True.intro (.pure y), h⟩

namespace Mirrors

theorem pure {a : α} {b : β} (h : Q a b) :
    Mirrors may T (.pure a) (.pure b) Q := by
  intro tr a' hr
  obtain ⟨rfl, rfl⟩ := runs_pure.1 hr
  exact ⟨[], b, .pure b, .nil, h⟩

theorem piece (hT : T.Sound may) (h : T s t R) : Mirrors may T s t R := by
  intro tr x hr
  obtain ⟨y, ⟨tr', ht⟩, hR⟩ := hT s t R h x ⟨tr, hr⟩
  have hstep := InStep.piece h hr ht hR .nil
  rw [List.append_nil, List.append_nil] at hstep
  exact ⟨tr', y, ht, hstep, hR⟩

theorem bind {f : α → Prog ρ γ} {g : β → Prog σ δ} {Q' : γ → δ → Prop}
    (h : Mirrors may T s t R)
    (hk : ∀ x y, R x y → Mirrors may T (f x) (g y) Q') :
    Mirrors may T (s.bind f) (t.bind g) Q' := by
  intro tr a hr
  obtain ⟨x, tr₁, tr₂, h₁, h₂, rfl⟩ := runs_bind.1 hr
  obtain ⟨tr₁', y, ht, hstep, hR⟩ := h tr₁ x h₁
  obtain ⟨tr₂', b, hg, hstep', hQ⟩ := hk x y hR tr₂ a h₂
  exact ⟨tr₁' ++ tr₂', b, runs_bind.2 ⟨y, tr₁', tr₂', ht, hg, rfl⟩,
    hstep.append hstep', hQ⟩

theorem imp (h : Mirrors may T p q R) (hQ : ∀ a b, R a b → Q a b) :
    Mirrors may T p q Q := by
  intro tr a hr
  obtain ⟨tr', b, hq, hstep, hR⟩ := h tr a hr
  exact ⟨tr', b, hq, hstep, hQ a b hR⟩

/-- A call without an answer leaves nothing to follow. -/
theorem stuck {c : ι} {k : ρ c → Prog ρ α} (h : ρ c → False) :
    Mirrors may T (.call c k) q Q := by
  intro tr a hr
  obtain ⟨r, -⟩ := runs_call.1 hr
  exact (h r).elim

/-- A piece of both, and what follows it. -/
theorem step (hT : T.Sound may) {f : α → Prog ρ γ} {g : β → Prog σ δ}
    {Q' : γ → δ → Prop} (h : T s t R)
    (hk : ∀ x y, R x y → Mirrors may T (f x) (g y) Q') :
    Mirrors may T (s.bind f) (t.bind g) Q' :=
  bind (piece hT h) hk

/-- A part of the first that the second does without. -/
theorem skip {f : α → Prog ρ γ} {b : β} {q : Prog σ δ} {Q' : γ → δ → Prop}
    (h : Mirrors may T s (.pure b) R)
    (hk : ∀ x y, R x y → Mirrors may T (f x) q Q') :
    Mirrors may T (s.bind f) q Q' :=
  bind (g := fun _ => q) h hk

/-- A piece of the first that the second does without. -/
theorem left (hT : T.Sound may) {R : α → Unit → Prop} {f : α → Prog ρ γ}
    {q : Prog σ δ} {Q' : γ → δ → Prop} (h : T s (.pure ()) R)
    (hk : ∀ x, R x () → Mirrors may T (f x) q Q') :
    Mirrors may T (s.bind f) q Q' :=
  skip (piece hT h) fun x _ hR => hk x hR

/-- A piece of the second that the first does without. -/
theorem right (hT : T.Sound may) {R : Unit → β → Prop} {p : Prog ρ γ}
    {g : β → Prog σ δ} {Q' : γ → δ → Prop} (h : T (.pure ()) t R)
    (hk : ∀ y, R () y → Mirrors may T p (g y) Q') :
    Mirrors may T p (t.bind g) Q' :=
  bind (f := fun _ : Unit => p) (piece hT h) fun _ y hR => hk y hR

/-- A piece at the start of the first part of a program. -/
theorem assoc {f : α → Prog ρ γ} {ε : Type} {k : γ → Prog ρ ε} {q : Prog σ δ}
    {Q' : ε → δ → Prop}
    (h : Mirrors may T (s.bind fun x => (f x).bind k) q Q') :
    Mirrors may T ((s.bind f).bind k) q Q' := by
  rwa [bind_assoc]

theorem assoc_right {g : β → Prog σ δ} {ε : Type} {k : δ → Prog σ ε}
    {p : Prog ρ γ} {Q' : γ → ε → Prop}
    (h : Mirrors may T p (t.bind fun y => (g y).bind k) Q') :
    Mirrors may T p ((t.bind g).bind k) Q' := by
  rwa [bind_assoc]

/-- All that the second does, where the first has nothing to do. -/
theorem silent (hT : T.Sound may) {R : Unit → β → Prop} {a : α}
    (h : T (.pure ()) t R) (hQ : ∀ y, Q a y) :
    Mirrors may T (.pure a) t Q := by
  rw [← bind_pure t]
  exact right hT h fun y _ => pure (hQ y)

/-- What the second does at its end. -/
theorem last {g : β → Prog σ δ} {Q' : α → δ → Prop}
    (h : Mirrors may T p q R)
    (hk : ∀ a b, R a b → Mirrors may T (.pure a) (g b) Q') :
    Mirrors may T p (q.bind g) Q' := by
  rw [← bind_pure p]
  exact bind h hk

/-- What the first does at its end. -/
theorem ahead {f : α → Prog ρ γ} {Q' : γ → β → Prop}
    (h : Mirrors may T p q R)
    (hk : ∀ a b, R a b → Mirrors may T (f a) (.pure b) Q') :
    Mirrors may T (p.bind f) q Q' := by
  rw [← bind_pure q]
  exact bind h hk

end Mirrors

end Dyad.Conc.Prog
