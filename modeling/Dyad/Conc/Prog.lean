import Mathlib.Logic.Basic

/-!
# Programs that issue calls

A sequential program, seen from outside, is a tree: it has returned a value,
or it issues a call and continues with whatever the call answers. `Prog ρ α`
is that tree over a type of calls `ι`, where `ρ c` is what the call `c`
answers with. A program says nothing about what its calls do; the systems
that run programs say that, one call at a time, so that other threads can
step between two calls.

`Prog` is a monad, and `do` blocks over it elaborate to the tree. The simp
lemmas below push `bind` through the constructors, which is how a proof
walks a `do` block call by call.

A program on its own is read sequentially: its environment answers each call
with whatever a relation `may` allows. `Runs` collects the complete paths, as
the calls issued with their answers and the value returned; `Along` says that
every call on every path, complete or not, is good where it is issued. Where
the answers depend on what came before, `Path` is a path up to some point, and
`wp` says what holds along it and at its end.
-/

namespace Dyad.Conc

/-- A program over the calls `ι`: returned, or at a call with the rest of
the program waiting for its answer. -/
inductive Prog {ι : Type} (ρ : ι → Type) (α : Type) : Type
  | pure (a : α) : Prog ρ α
  | call (c : ι) (k : ρ c → Prog ρ α) : Prog ρ α

namespace Prog

variable {ι : Type} {ρ : ι → Type} {α β γ : Type}

/-- Sequencing: the calls of `p`, then those of `f` at the value `p`
returned. -/
def bind : Prog ρ α → (α → Prog ρ β) → Prog ρ β
  | .pure a, f => f a
  | .call c k, f => .call c fun r => (k r).bind f

/-- One call, returning its answer. -/
def perform (c : ι) : Prog ρ (ρ c) := .call c .pure

instance : Monad (Prog ρ) where
  pure := Prog.pure
  bind := Prog.bind

@[simp] theorem pure_bind (a : α) (f : α → Prog ρ β) :
    (Prog.pure a : Prog ρ α).bind f = f a := rfl

@[simp] theorem call_bind (c : ι) (k : ρ c → Prog ρ α) (f : α → Prog ρ β) :
    (Prog.call c k).bind f = .call c fun r => (k r).bind f := rfl

@[simp] theorem perform_bind (c : ι) (f : ρ c → Prog ρ β) :
    (perform c).bind f = .call c f := rfl

@[simp] theorem pure_eq (a : α) : (Pure.pure a : Prog ρ α) = Prog.pure a := rfl

@[simp] theorem bind_eq (p : Prog ρ α) (f : α → Prog ρ β) :
    (p >>= f) = p.bind f := rfl

theorem bind_assoc (p : Prog ρ α) (f : α → Prog ρ β) (g : β → Prog ρ γ) :
    (p.bind f).bind g = p.bind fun a => (f a).bind g := by
  induction p with
  | pure a => rfl
  | call c k ih =>
    simp only [call_bind]
    exact congrArg (Prog.call c) (funext ih)

theorem bind_pure (p : Prog ρ α) : p.bind Prog.pure = p := by
  induction p with
  | pure a => rfl
  | call c k ih =>
    rw [call_bind]
    exact congrArg (Prog.call c) (funext ih)

/-! ## Paths -/

/-- A call that was issued, and its answer. -/
abbrev Event (ρ : ι → Type) := Σ c, ρ c

/-- `Runs may p tr a`: with the answers of `tr`, all of them allowed, `p`
issues the calls of `tr` in order and returns `a`. -/
inductive Runs (may : (c : ι) → ρ c → Prop) :
    Prog ρ α → List (Event ρ) → α → Prop
  | pure (a : α) : Runs may (.pure a) [] a
  | call {c : ι} {k : ρ c → Prog ρ α} {r : ρ c} {tr : List (Event ρ)} {a : α} :
      may c r → Runs may (k r) tr a → Runs may (.call c k) (⟨c, r⟩ :: tr) a

/-- Every call `p` can come to is `good` after the calls before it, which
are listed newest first. -/
def Along (may : (c : ι) → ρ c → Prop) (good : List (Event ρ) → ι → Prop) :
    List (Event ρ) → Prog ρ α → Prop
  | _, .pure _ => True
  | h, .call c k =>
    good h c ∧ ∀ r, may c r → Along may good (⟨c, r⟩ :: h) (k r)

variable {may : (c : ι) → ρ c → Prop} {good : List (Event ρ) → ι → Prop}

theorem runs_pure {a b : α} {tr : List (Event ρ)} :
    Runs may (.pure a) tr b ↔ tr = [] ∧ b = a := by
  constructor
  · intro h
    cases h
    exact ⟨rfl, rfl⟩
  · rintro ⟨rfl, rfl⟩
    exact .pure b

theorem runs_call {c : ι} {k : ρ c → Prog ρ α} {tr : List (Event ρ)} {a : α} :
    Runs may (.call c k) tr a ↔
      ∃ r tr', may c r ∧ Runs may (k r) tr' a ∧ tr = ⟨c, r⟩ :: tr' := by
  constructor
  · intro h
    cases h with
    | call hr hk => exact ⟨_, _, hr, hk, rfl⟩
  · rintro ⟨r, tr', hr, hk, rfl⟩
    exact .call hr hk

theorem runs_step {c : ι} {f : ρ c → Prog ρ α} {tr : List (Event ρ)} {a : α} :
    Runs may ((perform c).bind f) tr a ↔
      ∃ r tr', may c r ∧ Runs may (f r) tr' a ∧ tr = ⟨c, r⟩ :: tr' :=
  runs_call

theorem runs_bind {p : Prog ρ α} {f : α → Prog ρ β} {tr : List (Event ρ)}
    {b : β} :
    Runs may (p.bind f) tr b ↔
      ∃ a tr₁ tr₂, Runs may p tr₁ a ∧ Runs may (f a) tr₂ b ∧
        tr = tr₁ ++ tr₂ := by
  induction p generalizing tr with
  | pure a =>
    simp only [pure_bind, runs_pure]
    constructor
    · exact fun h => ⟨a, [], tr, ⟨rfl, rfl⟩, h, rfl⟩
    · rintro ⟨_, _, tr₂, ⟨rfl, rfl⟩, h, rfl⟩
      exact h
  | call c k ih =>
    simp only [call_bind, runs_call, ih]
    constructor
    · rintro ⟨r, _, hr, ⟨a, tr₁, tr₂, h₁, h₂, rfl⟩, rfl⟩
      exact ⟨a, _, tr₂, ⟨r, tr₁, hr, h₁, rfl⟩, h₂, rfl⟩
    · rintro ⟨a, _, tr₂, ⟨r, tr₁, hr, h₁, rfl⟩, h₂, rfl⟩
      exact ⟨r, _, hr, ⟨a, tr₁, tr₂, h₁, h₂, rfl⟩, rfl⟩

/-- A path decides what is returned. -/
theorem Runs.unique {p : Prog ρ α} {tr : List (Event ρ)} {a b : α}
    (ha : Runs may p tr a) (hb : Runs may p tr b) : a = b := by
  induction ha with
  | pure a => exact (runs_pure.1 hb).2.symm
  | call _ _ ih =>
    cases hb with
    | call _ hb => exact ih hb

theorem Along.step {c : ι} {f : ρ c → Prog ρ α} {h : List (Event ρ)}
    (hg : good h c)
    (hf : ∀ r, may c r → Along may good (⟨c, r⟩ :: h) (f r)) :
    Along may good h ((perform c).bind f) :=
  ⟨hg, hf⟩

theorem Along.issued {c : ι} {f : ρ c → Prog ρ α} {h : List (Event ρ)}
    (ha : Along may good h ((perform c).bind f)) : good h c :=
  ha.1

theorem Along.answer {c : ι} {f : ρ c → Prog ρ α} {h : List (Event ρ)}
    (ha : Along may good h ((perform c).bind f)) (r : ρ c) (hr : may c r) :
    Along may good (⟨c, r⟩ :: h) (f r) :=
  ha.2 r hr

theorem Along.bind {p : Prog ρ α} {f : α → Prog ρ β} {h : List (Event ρ)}
    (hp : Along may good h p)
    (hf : ∀ tr a, Runs may p tr a → Along may good (tr.reverse ++ h) (f a)) :
    Along may good h (p.bind f) := by
  induction p generalizing h with
  | pure a => exact hf [] a (.pure a)
  | call c k ih =>
    refine ⟨hp.1, fun r hr => ih r (hp.2 r hr) fun tr a htr => ?_⟩
    have := hf (⟨c, r⟩ :: tr) a (.call hr htr)
    rwa [List.reverse_cons, List.append_assoc] at this

/-- Along one of the paths of `p`, what follows is good. -/
theorem Along.of_bind {p : Prog ρ α} {f : α → Prog ρ β} {h : List (Event ρ)}
    (hb : Along may good h (p.bind f)) {tr : List (Event ρ)} {a : α}
    (hr : Runs may p tr a) : Along may good (tr.reverse ++ h) (f a) := by
  induction hr generalizing h with
  | pure a => exact hb
  | call hm _ ih =>
    rw [List.reverse_cons, List.append_assoc]
    exact ih (hb.2 _ hm)

variable (may) in
/-- `p` can return `a`. -/
def Returns (p : Prog ρ α) (a : α) : Prop := ∃ tr, Runs may p tr a

theorem Returns.pure (a : α) : Returns may (.pure a : Prog ρ α) a :=
  ⟨[], .pure a⟩

theorem Returns.call {c : ι} {k : ρ c → Prog ρ α} {a : α} (r : ρ c)
    (hr : may c r) (h : Returns may (k r) a) : Returns may (.call c k) a := by
  obtain ⟨tr, h⟩ := h
  exact ⟨_, .call hr h⟩

theorem Returns.step {c : ι} {f : ρ c → Prog ρ α} {a : α} (r : ρ c)
    (hr : may c r) (h : Returns may (f r) a) :
    Returns may ((perform c).bind f) a :=
  .call r hr h

theorem Returns.bind {p : Prog ρ α} {f : α → Prog ρ β} {a : α} {b : β}
    (hp : Returns may p a) (hf : Returns may (f a) b) :
    Returns may (p.bind f) b := by
  obtain ⟨tr₁, h₁⟩ := hp
  obtain ⟨tr₂, h₂⟩ := hf
  exact ⟨_, runs_bind.2 ⟨a, tr₁, tr₂, h₁, h₂, rfl⟩⟩

theorem Returns.value {a b : α} (h : Returns may (.pure a : Prog ρ α) b) :
    b = a := by
  obtain ⟨tr, h⟩ := h
  exact (runs_pure.1 h).2

/-- What one call returns is its answer. -/
theorem Returns.answer {c : ι} {r : ρ c} (h : Returns may (perform c) r) :
    may c r := by
  obtain ⟨tr, h⟩ := h
  obtain ⟨r', tr', hr, hk, -⟩ := runs_call.1 h
  obtain ⟨-, rfl⟩ := runs_pure.1 hk
  exact hr

/-- Behind a call without an answer nothing is returned. -/
theorem Returns.stuck {c : ι} {k : ρ c → Prog ρ α} {a : α}
    (h : Returns may (.call c k) a) (hc : ρ c → False) : False := by
  obtain ⟨tr, h⟩ := h
  obtain ⟨r, -⟩ := runs_call.1 h
  exact hc r

theorem Returns.of_bind {p : Prog ρ α} {f : α → Prog ρ β} {b : β}
    (h : Returns may (p.bind f) b) :
    ∃ a, Returns may p a ∧ Returns may (f a) b := by
  obtain ⟨tr, h⟩ := h
  obtain ⟨a, tr₁, tr₂, h₁, h₂, -⟩ := runs_bind.1 h
  exact ⟨a, ⟨tr₁, h₁⟩, ⟨tr₂, h₂⟩⟩

theorem Along.of_returns {p : Prog ρ α} {f : α → Prog ρ β}
    {h : List (Event ρ)} (hb : Along may good h (p.bind f)) {a : α}
    (hr : Returns may p a) : ∃ h', Along may good h' (f a) := by
  obtain ⟨tr, hr⟩ := hr
  exact ⟨_, hb.of_bind hr⟩

/-! ## Logged programs -/

/-- The program, returning the calls it made with their answers too. -/
def logged : Prog ρ α → Prog ρ (List (Event ρ) × α)
  | .pure a => .pure ([], a)
  | .call c k => .call c fun r =>
    (logged (k r)).bind fun x => .pure (⟨c, r⟩ :: x.1, x.2)

/-- Nothing else is different. -/
theorem logged_bind (p : Prog ρ α) (f : α → Prog ρ β) :
    (p.logged.bind fun x => f x.2) = p.bind f := by
  induction p with
  | pure a => rfl
  | call c k ih =>
    refine congrArg (Prog.call c) (funext fun r => ?_)
    rw [bind_assoc]
    exact ih r

/-- The log is the path. -/
theorem runs_logged {p : Prog ρ α} {tr : List (Event ρ)}
    {x : List (Event ρ) × α} :
    Runs may p.logged tr x ↔ x.1 = tr ∧ Runs may p tr x.2 := by
  induction p generalizing tr x with
  | pure a =>
    rw [logged, runs_pure, runs_pure]
    constructor
    · rintro ⟨rfl, rfl⟩
      exact ⟨rfl, rfl, rfl⟩
    · rintro ⟨rfl, hnil, hx⟩
      exact ⟨hnil, Prod.ext hnil hx⟩
  | call c k ih =>
    rw [logged, runs_call, runs_call]
    constructor
    · rintro ⟨r, tr', hr, hk, rfl⟩
      obtain ⟨y, tr₁, tr₂, h₁, h₂, rfl⟩ := runs_bind.1 hk
      obtain ⟨rfl, rfl⟩ := runs_pure.1 h₂
      obtain ⟨rfl, h₁⟩ := ih r |>.1 h₁
      rw [List.append_nil]
      exact ⟨rfl, r, _, hr, h₁, rfl⟩
    · rintro ⟨rfl, r, tr', hr, hk, heq⟩
      refine ⟨r, tr', hr, runs_bind.2 ⟨(tr', x.2), tr', [], ?_, ?_, ?_⟩, heq⟩
      · exact (ih r).2 ⟨rfl, hk⟩
      · exact runs_pure.2 ⟨rfl, Prod.ext heq rfl⟩
      · rw [List.append_nil]

/-! ## Playing a program -/

/-- The path of a program whose calls are answered one way each, if all of
them are. -/
def play (env : (c : ι) → Option (ρ c)) :
    Prog ρ α → Option (List (Event ρ) × α)
  | .pure a => some ([], a)
  | .call c k =>
    match env c with
    | some r => (play env (k r)).map fun (tr, a) => (⟨c, r⟩ :: tr, a)
    | none => none

theorem runs_play {env : (c : ι) → Option (ρ c)}
    (hmay : ∀ c r, env c = some r → may c r) {p : Prog ρ α}
    {tr : List (Event ρ)} {a : α} (h : p.play env = some (tr, a)) :
    Runs may p tr a := by
  induction p generalizing tr a with
  | pure b =>
    obtain ⟨rfl, rfl⟩ := Prod.mk.inj (Option.some.inj h)
    exact .pure b
  | call c k ih =>
    rw [play] at h
    split at h
    · next r hr =>
      obtain ⟨⟨tr', a'⟩, hk, heq⟩ := Option.map_eq_some_iff.1 h
      obtain ⟨rfl, rfl⟩ := Prod.mk.inj heq
      exact .call (hmay c r hr) (ih r hk)
    · exact absurd h (by simp)

/-! ## Evaluation

An environment that answers each call one way, by what was called before, makes
a program a function: to the history it leaves and the value it returns. -/

/-- What `p` comes to after the history `h`, if every call is answered. -/
def eval (env : List (Event ρ) → (c : ι) → Option (ρ c)) :
    Prog ρ α → List (Event ρ) → Option (List (Event ρ) × α)
  | .pure a, h => some (h, a)
  | .call c k, h =>
    match env h c with
    | some r => eval env (k r) (⟨c, r⟩ :: h)
    | none => none

section

variable {env : List (Event ρ) → (c : ι) → Option (ρ c)} {h : List (Event ρ)}

theorem eval_call {c : ι} {k : ρ c → Prog ρ α} {r : ρ c}
    (hr : env h c = some r) :
    (Prog.call c k).eval env h = (k r).eval env (⟨c, r⟩ :: h) := by
  rw [eval, hr]

theorem eval_step {c : ι} {f : ρ c → Prog ρ α} {r : ρ c}
    (hr : env h c = some r) :
    ((perform c).bind f).eval env h = (f r).eval env (⟨c, r⟩ :: h) :=
  eval_call hr

theorem eval_bind (p : Prog ρ α) (f : α → Prog ρ β) :
    (p.bind f).eval env h =
      (p.eval env h).bind fun x => (f x.2).eval env x.1 := by
  induction p generalizing h with
  | pure a => rfl
  | call c k ih =>
    rw [call_bind, eval, eval]
    cases env h c with
    | none => rfl
    | some r => exact ih r

/-- The value of the first part of a program decides how the rest goes on. -/
theorem eval_seq {p : Prog ρ α} {f : α → Prog ρ β} {h' : List (Event ρ)}
    {a : α} (hp : p.eval env h = some (h', a)) :
    (p.bind f).eval env h = (f a).eval env h' := by
  rw [eval_bind, hp]
  rfl

end

/-! ## Runs over a state

A system that takes each call with its state makes a program a function of the
state, and leaves it where a call is not taken. -/

/-- What `p` comes to from the state `s`, if every call is taken. -/
def exec {σ : Type} (step : σ → (c : ι) → Option (σ × ρ c)) :
    Prog ρ α → σ → Option (σ × α)
  | .pure a, s => some (s, a)
  | .call c k, s =>
    match step s c with
    | some (s', r) => exec step (k r) s'
    | none => none

section

variable {σ : Type} {step : σ → (c : ι) → Option (σ × ρ c)} {s s' : σ}

theorem exec_call {c : ι} {k : ρ c → Prog ρ α} {r : ρ c}
    (h : step s c = some (s', r)) :
    (Prog.call c k).exec step s = (k r).exec step s' := by
  rw [exec, h]

theorem exec_step {c : ι} {f : ρ c → Prog ρ α} {r : ρ c}
    (h : step s c = some (s', r)) :
    ((perform c).bind f).exec step s = (f r).exec step s' :=
  exec_call h

theorem exec_stuck {c : ι} {f : ρ c → Prog ρ α} (h : step s c = none) :
    ((perform c).bind f).exec step s = none := by
  rw [perform_bind, exec, h]

theorem exec_bind (p : Prog ρ α) (f : α → Prog ρ β) :
    (p.bind f).exec step s =
      (p.exec step s).bind fun x => (f x.2).exec step x.1 := by
  induction p generalizing s with
  | pure a => rfl
  | call c k ih =>
    rw [call_bind, exec, exec]
    cases step s c with
    | none => rfl
    | some x => exact ih x.2

theorem exec_seq {p : Prog ρ α} {f : α → Prog ρ β} {a : α}
    (hp : p.exec step s = some (s', a)) :
    (p.bind f).exec step s = (f a).exec step s' := by
  rw [exec_bind, hp]
  rfl

theorem exec_none {p : Prog ρ α} {f : α → Prog ρ β}
    (hp : p.exec step s = none) : (p.bind f).exec step s = none := by
  rw [exec_bind, hp]
  rfl

end

/-- Such a run is one of the paths. -/
theorem runs_exec {σ : Type} {step : σ → (c : ι) → Option (σ × ρ c)} {s s' : σ}
    {p : Prog ρ α} {a : α} (h : p.exec step s = some (s', a)) :
    ∃ tr, Runs (fun _ _ => True) p tr a := by
  induction p generalizing s with
  | pure b =>
    obtain ⟨-, rfl⟩ := Prod.mk.inj (Option.some.inj h)
    exact ⟨[], .pure b⟩
  | call c k ih =>
    rw [exec] at h
    split at h
    · next s₁ r _ =>
      obtain ⟨tr, htr⟩ := ih r h
      exact ⟨_, .call True.intro htr⟩
    · cases h

/-! ## Calls of one kind -/

/-- Every call of `p` is of the kind `φ`. -/
def All (φ : ι → Prop) : Prog ρ α → Prop
  | .pure _ => True
  | .call c k => φ c ∧ ∀ r, All φ (k r)

variable {φ : ι → Prop}

theorem All.step {c : ι} {f : ρ c → Prog ρ α} (hc : φ c)
    (hf : ∀ r, All φ (f r)) : All φ ((perform c).bind f) :=
  ⟨hc, hf⟩

theorem All.bind {p : Prog ρ α} {f : α → Prog ρ β} (hp : All φ p)
    (hf : ∀ a, All φ (f a)) : All φ (p.bind f) := by
  induction p with
  | pure a => exact hf a
  | call c k ih => exact ⟨hp.1, fun r => ih r (hp.2 r)⟩

theorem All.imp {ψ : ι → Prop} {p : Prog ρ α} (hp : All φ p)
    (h : ∀ c, φ c → ψ c) : All ψ p := by
  induction p with
  | pure a => exact hp
  | call c k ih => exact ⟨h c hp.1, fun r => ih r (hp.2 r)⟩

/-- Every call of a run is of the kind. -/
theorem Runs.all {may : (c : ι) → ρ c → Prop} {p : Prog ρ α}
    {tr : List (Event ρ)} {a : α} (h : Runs may p tr a) (hp : All φ p) :
    ∀ e ∈ tr, φ e.1 := by
  induction h with
  | pure => exact fun e he => absurd he List.not_mem_nil
  | call hr hrun ih =>
    intro e he
    rcases List.mem_cons.1 he with rfl | he
    · exact hp.1
    · exact ih (hp.2 _) e he

/-- Where a program makes only calls that two systems take alike, it comes to
the same in both. -/
theorem exec_map {σ τ : Type} {step : σ → (c : ι) → Option (σ × ρ c)}
    {step' : τ → (c : ι) → Option (τ × ρ c)} {f : σ → τ}
    (hstep : ∀ s c, φ c →
      step' (f s) c = (step s c).map fun x => (f x.1, x.2))
    {p : Prog ρ α} (hp : All φ p) {s : σ} :
    p.exec step' (f s) = (p.exec step s).map fun x => (f x.1, x.2) := by
  induction p generalizing s with
  | pure a => rfl
  | call c k ih =>
    rw [exec, exec, hstep s c hp.1]
    cases step s c with
    | none => rfl
    | some x => exact ih x.2 (hp.2 x.2)

/-- What every call of a kind keeps of the state, a program of such calls
keeps. -/
theorem exec_keeps {σ : Type} {step : σ → (c : ι) → Option (σ × ρ c)}
    {P : σ → Prop}
    (hP : ∀ s c x, φ c → P s → step s c = some x → P x.1)
    {p : Prog ρ α} (hp : All φ p) {s : σ} (hs : P s) {x : σ × α}
    (h : p.exec step s = some x) : P x.1 := by
  induction p generalizing s with
  | pure a =>
    obtain rfl := Option.some.inj h
    exact hs
  | call c k ih =>
    rw [exec] at h
    split at h
    · next s' r hr => exact ih r (hp.2 r) (hP s c _ hp.1 hs hr) h
    · exact absurd h (by simp)

/-! ## Histories

What a program may be answered can depend on what came before. A history lists
the calls made so far with their answers, the newest first. -/

section

variable (may : List (Event ρ) → (c : ι) → ρ c → Prop)

/-- `Path may p h q`: the calls of the history `h`, answered as they may be,
lead from `p` to `q`. -/
inductive Path (p : Prog ρ α) : List (Event ρ) → Prog ρ α → Prop
  | refl : Path p [] p
  | step {h : List (Event ρ)} {c : ι} {k : ρ c → Prog ρ α} {r : ρ c} :
      Path p h (.call c k) → may h c r → Path p (⟨c, r⟩ :: h) (k r)

/-- After the history `h`, every call `p` comes to is `good` where it is
issued, and `p` ends in `Q`. -/
def wp (good : List (Event ρ) → ι → Prop) (Q : List (Event ρ) → α → Prop) :
    Prog ρ α → List (Event ρ) → Prop
  | .pure a, h => Q h a
  | .call c k, h =>
    good h c ∧ ∀ r, may h c r → wp good Q (k r) (⟨c, r⟩ :: h)

variable {may} {good : List (Event ρ) → ι → Prop}
  {Q Q' : List (Event ρ) → α → Prop} {h : List (Event ρ)}

theorem wp_pure {a : α} : wp may good Q (.pure a) h ↔ Q h a := Iff.rfl

theorem wp_call {c : ι} {k : ρ c → Prog ρ α} :
    wp may good Q (.call c k) h ↔
      good h c ∧ ∀ r, may h c r → wp may good Q (k r) (⟨c, r⟩ :: h) :=
  Iff.rfl

theorem wp_bind {p : Prog ρ α} {f : α → Prog ρ β}
    {R : List (Event ρ) → β → Prop} :
    wp may good R (p.bind f) h ↔
      wp may good (fun h a => wp may good R (f a) h) p h := by
  induction p generalizing h with
  | pure a => exact Iff.rfl
  | call c k ih =>
    rw [call_bind, wp_call, wp_call]
    exact and_congr_right fun _ => forall₂_congr fun r _ => ih r

theorem wp_step {c : ι} {f : ρ c → Prog ρ α} (hg : good h c)
    (hf : ∀ r, may h c r → wp may good Q (f r) (⟨c, r⟩ :: h)) :
    wp may good Q ((perform c).bind f) h :=
  ⟨hg, hf⟩

theorem wp_imp {p : Prog ρ α} (hp : wp may good Q p h)
    (hQ : ∀ h a, Q h a → Q' h a) : wp may good Q' p h := by
  induction p generalizing h with
  | pure a => exact hQ h a hp
  | call c k ih => exact ⟨hp.1, fun r hr => ih r (hp.2 r hr)⟩

/-- What every call of a kind keeps of the history, a program of such calls
keeps, and its calls are good where all of that kind are. -/
theorem wp_of_all {φ : ι → Prop} {P : List (Event ρ) → Prop}
    (hgood : ∀ h c, φ c → good h c)
    (hP : ∀ h c r, P h → φ c → may h c r → P (⟨c, r⟩ :: h)) {p : Prog ρ α}
    (hp : All φ p) (hh : P h) : wp may good (fun h _ => P h) p h := by
  induction p generalizing h with
  | pure a => exact hh
  | call c k ih =>
    exact ⟨hgood h c hp.1, fun r hr => ih r (hp.2 r) (hP h c r hh hp.1 hr)⟩

theorem Path.nil {p q : Prog ρ α} (hp : Path may p [] q) : q = p := by
  cases hp
  rfl

theorem Path.wp {p q : Prog ρ α} (hp : Path may p h q)
    (hw : wp may good Q p []) : wp may good Q q h := by
  induction hp with
  | refl => exact hw
  | step _ hr ih => exact ih.2 _ hr

/-- Every call of a path was good where it was issued. -/
theorem Path.issued {p q : Prog ρ α} (hp : Path may p h q)
    (hw : Prog.wp may good Q p []) {c : ι} {r : ρ c} {h' : List (Event ρ)}
    (hsuffix : (⟨c, r⟩ :: h') <:+ h) : good h' c := by
  induction hp with
  | refl => exact absurd (List.suffix_nil.1 hsuffix) (List.cons_ne_nil _ _)
  | step hp hr ih =>
    rcases List.suffix_cons_iff.1 hsuffix with heq | hsuffix
    · obtain ⟨heq, rfl⟩ := List.cons.inj heq
      cases heq
      exact (hp.wp hw).1
    · exact ih hsuffix

end

/-- So does evaluating it. -/
theorem Path.of_eval {may : List (Event ρ) → (c : ι) → ρ c → Prop}
    {env : List (Event ρ) → (c : ι) → Option (ρ c)}
    {P : List (Event ρ) → Prop}
    (hP : ∀ h c r, P h → env h c = some r → may h c r ∧ P (⟨c, r⟩ :: h))
    {p q : Prog ρ α} {h h' : List (Event ρ)} {a : α} (hh : P h)
    (hp : Path may p h q) (hq : q.eval env h = some (h', a)) :
    Path may p h' (.pure a) := by
  induction q generalizing h with
  | pure b =>
    obtain ⟨rfl, rfl⟩ := Prod.mk.inj (Option.some.inj hq)
    exact hp
  | call c k ih =>
    rw [eval] at hq
    split at hq
    · next r hr =>
      obtain ⟨hmay, hnext⟩ := hP h c r hh hr
      exact ih r hnext (hp.step hmay) hq
    · cases hq

end Prog

end Dyad.Conc
