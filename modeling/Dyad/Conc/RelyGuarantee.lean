import Mathlib.Logic.Function.Basic
import Dyad.Conc.Lts
import Dyad.Conc.Prog

/-!
# Rely-guarantee reasoning about threads that share a world

A machine is a world that threads act on through calls, one call at a time
and in any order. A thread belongs to a process; a process may die between
any two steps, which ends all its threads at once. The jobs a thread may be
given are programs (`Prog`), so between two calls of one thread every other
thread may take any number of steps.

A `Spec` is a proof outline for a machine. It names an invariant of the
world, what each thread relies on the others to leave alone (`Rely`, a
preorder for each thread), what every step guarantees (`Guar`, one
preorder), what must hold when a call is issued (`Req`), what a finished job
promises (`Post`), and the condition the steps of the run are assumed to
meet (`guard`). `Safe` says what a thread must do to keep
the outline: it is by recursion on the program, closing under the thread's
rely at every call, so a proof about one program never looks at another.

`Sound.reach` is the composition: when every job is safe where it starts,
every state of every run satisfies the invariant and has all its threads
safe. What a thread returned, what it is about to call, and how far two
states of a run may differ are then read off (`Good.post`, `Good.req`,
`Sound.run_guar`).
-/

namespace Dyad.Conc

/-- Threads `τ`, grouped into processes `π`, acting on a world `ω`. The
answer to a call may depend on a choice `κ` of the environment's; a call
that is not enabled at a choice answers `none`. -/
structure Machine (ω τ π κ : Type) {ι : Type} (ρ : ι → Type) {J : Type}
    (res : J → Type) where
  proc : τ → π
  exec : ω → τ → (c : ι) → κ → Option (ω × ρ c)
  crash : ω → π → ω
  enter : ω → τ → J → ω
  leave : ω → τ → J → ω
  job : τ → (j : J) → Option (Prog ρ (res j))

namespace Machine

variable {ω τ π κ ι J : Type} {ρ : ι → Type} {res : J → Type}

/-- A configuration: the world, and what is left of each thread's job. -/
structure Cfg (ω τ : Type) {ι : Type} (ρ : ι → Type) {J : Type}
    (res : J → Type) where
  world : ω
  thread : τ → Option (Σ j : J, Prog ρ (res j))

/-- A step: a thread is given a job, issues the call it stands at, or hands
its result over; or a process dies. -/
inductive Label (τ π κ J : Type) where
  | start (t : τ) (j : J)
  | act (t : τ) (x : κ)
  | finish (t : τ)
  | crash (p : π)

variable (M : Machine ω τ π κ ρ res)

/-- One step of the machine. -/
def next [DecidableEq τ] [DecidableEq π] (s : Cfg ω τ ρ res) : Label τ π κ J → Option (Cfg ω τ ρ res)
  | .start t j =>
    match s.thread t, M.job t j with
    | none, some p =>
      some ⟨M.enter s.world t j, Function.update s.thread t (some ⟨j, p⟩)⟩
    | _, _ => none
  | .act t x =>
    match s.thread t with
    | some ⟨j, .call c k⟩ =>
      match M.exec s.world t c x with
      | some (w, r) => some ⟨w, Function.update s.thread t (some ⟨j, k r⟩)⟩
      | none => none
    | _ => none
  | .finish t =>
    match s.thread t with
    | some ⟨j, .pure _⟩ =>
      some ⟨M.leave s.world t j, Function.update s.thread t none⟩
    | _ => none
  | .crash p =>
    some ⟨M.crash s.world p,
      fun u => if M.proc u = p then none else s.thread u⟩

/-- A condition on the steps of a run: on each call where it is issued and
the choice it meets, on where processes die, and on which jobs start. -/
structure Guard (M : Machine ω τ π κ ρ res) where
  act : ω → τ → ι → κ → Prop
  crash : ω → π → Prop
  start : ω → τ → J → Prop

variable {M} in
/-- The steps that meet a condition. -/
def Guard.Allows (g : Guard M) (s : Cfg ω τ ρ res) : Label τ π κ J → Prop
  | .start t j => g.start s.world t j
  | .act t x => ∀ j c k, s.thread t = some ⟨j, .call c k⟩ →
      g.act s.world t c x
  | .finish _ => True
  | .crash p => g.crash s.world p

/-- The runs of a machine start with every thread free. -/
def lts [DecidableEq τ] [DecidableEq π] (init : ω → Prop) :
    Lts (Cfg ω τ ρ res) (Label τ π κ J) where
  init s := init s.world ∧ ∀ t, s.thread t = none
  next := M.next

variable {M} [DecidableEq τ] [DecidableEq π]

/-- Tests of the three kinds of step, as a test of the steps of a schedule. -/
def check (act : ω → τ → ι → κ → Bool) (crash : ω → π → Bool)
    (start : ω → τ → J → Bool) (s : Cfg ω τ ρ res) : Label τ π κ J → Bool
  | .start t j => start s.world t j
  | .act t x =>
    match s.thread t with
    | some ⟨_, .call c _⟩ => act s.world t c x
    | _ => true
  | .finish _ => true
  | .crash p => crash s.world p

omit [DecidableEq τ] [DecidableEq π] in
theorem Guard.allows_of_check {g : Guard M} {act : ω → τ → ι → κ → Bool}
    {crash : ω → π → Bool} {start : ω → τ → J → Bool}
    (hact : ∀ w t c x, act w t c x = true → g.act w t c x)
    (hcrash : ∀ w p, crash w p = true → g.crash w p)
    (hstart : ∀ w t j, start w t j = true → g.start w t j)
    (s : Cfg ω τ ρ res) (l : Label τ π κ J)
    (h : check act crash start s l = true) : g.Allows s l := by
  cases l with
  | start t j => exact hstart _ t j h
  | act t x =>
    intro j c k hth
    simp only [check, hth] at h
    exact hact _ t c x h
  | finish t => exact True.intro
  | crash p => exact hcrash _ p h

/-- What is asked of the jobs that start holds of the jobs that run. -/
theorem reach_started {init : ω → Prop} {g : Guard M} {φ : τ → J → Prop}
    (hg : ∀ w t j, g.start w t j → φ t j) {s : Cfg ω τ ρ res}
    (h : (M.lts init).Reach g.Allows s) {t : τ} {j : J}
    {p : Prog ρ (res j)} (hth : s.thread t = some ⟨j, p⟩) : φ t j := by
  refine h.invariant
    (P := fun s => ∀ t j (p : Prog ρ (res j)),
      s.thread t = some ⟨j, p⟩ → φ t j)
    (fun s hi t j p hth => absurd ((hi.2 t).symm.trans hth) (by simp))
    (fun s l s' ih hok hn t j p hth => ?_) t j p hth
  -- only a start puts a job on a thread that had another or none
  have hstep : ∀ u (o : Option (Σ j : J, Prog ρ (res j))),
      (∀ j p, o = some ⟨j, p⟩ → φ u j) →
      Function.update s.thread u o t = some ⟨j, p⟩ → φ t j := by
    intro u o ho heq
    by_cases htu : t = u
    · subst htu
      rw [Function.update_self] at heq
      exact ho j p heq
    · rw [Function.update_of_ne htu] at heq
      exact ih t j p heq
  cases l with
  | start u i =>
    simp only [lts, next] at hn
    split at hn
    · obtain rfl := Option.some.inj hn
      refine hstep u _ (fun j p h => ?_) hth
      obtain ⟨rfl, -⟩ := Sigma.mk.inj (Option.some.inj h)
      exact hg _ u i hok
    · exact absurd hn (by simp)
  | act u x =>
    simp only [lts, next] at hn
    split at hn
    · next i c k hu =>
      split at hn
      · obtain rfl := Option.some.inj hn
        refine hstep u _ (fun j p h => ?_) hth
        obtain ⟨rfl, -⟩ := Sigma.mk.inj (Option.some.inj h)
        exact ih u i _ hu
      · exact absurd hn (by simp)
    · exact absurd hn (by simp)
  | finish u =>
    simp only [lts, next] at hn
    split at hn
    · obtain rfl := Option.some.inj hn
      exact hstep u none (fun j p h => absurd h (by simp)) hth
    · exact absurd hn (by simp)
  | crash q =>
    obtain rfl := Option.some.inj hn
    have hth' : (if M.proc t = q then none else s.thread t) =
      some ⟨j, p⟩ := hth
    split at hth'
    · exact absurd hth' (by simp)
    · exact ih t j p hth'

/-- A run under a condition is a run under another, when each step that meets
the one meets the other; a call may be compared knowing what was asked of the
job that makes it. -/
theorem run_mono {init init' : ω → Prop} {g g' : Guard M}
    {φ : τ → J → Prop} (hφ : ∀ w t j, g.start w t j → φ t j)
    (hact : ∀ w t j c x, φ t j → g.act w t c x → g'.act w t c x)
    (hcrash : ∀ w p, g.crash w p → g'.crash w p)
    (hstart : ∀ w t j, g.start w t j → g'.start w t j)
    {s₀ s : Cfg ω τ ρ res} (hi : (M.lts init).init s₀)
    (hr : (M.lts init).Run g.Allows s₀ s) :
    (M.lts init').Run g'.Allows s₀ s := by
  induction hr with
  | refl => exact .refl
  | @step s' s'' l hrun hok hn ih =>
    refine .step ih ?_ hn
    cases l with
    | start t j => exact hstart _ t j hok
    | act t x =>
      exact fun j c k hth => hact _ t j c x
        (reach_started hφ ⟨s₀, hi, hrun⟩ hth) (hok j c k hth)
    | finish t => exact True.intro
    | crash p => exact hcrash _ p hok

/-- So are the states reached, from initial states that are initial there
too. -/
theorem reach_mono {init init' : ω → Prop} {g g' : Guard M}
    {φ : τ → J → Prop} (hinit : ∀ w, init w → init' w)
    (hφ : ∀ w t j, g.start w t j → φ t j)
    (hact : ∀ w t j c x, φ t j → g.act w t c x → g'.act w t c x)
    (hcrash : ∀ w p, g.crash w p → g'.crash w p)
    (hstart : ∀ w t j, g.start w t j → g'.start w t j) {s : Cfg ω τ ρ res}
    (h : (M.lts init).Reach g.Allows s) :
    (M.lts init').Reach g'.Allows s := by
  obtain ⟨s₀, hi, hr⟩ := h
  exact ⟨s₀, ⟨hinit _ hi.1, hi.2⟩, run_mono hφ hact hcrash hstart hi hr⟩

end Machine

/-- A proof outline for a machine. -/
structure Spec {ω τ π κ ι J : Type} {ρ : ι → Type} {res : J → Type}
    (M : Machine ω τ π κ ρ res) where
  Inv : ω → Prop
  Rely : τ → ω → ω → Prop
  Guar : ω → ω → Prop
  Req : ω → τ → ι → Prop
  Idle : τ → ω → Prop
  Post : τ → (j : J) → res j → ω → Prop
  guard : Machine.Guard M
  rely_refl : ∀ t w, Rely t w w
  rely_trans : ∀ t w w' w'', Rely t w w' → Rely t w' w'' → Rely t w w''
  guar_refl : ∀ w, Guar w w
  guar_trans : ∀ w w' w'', Guar w w' → Guar w' w'' → Guar w w''

namespace Spec

variable {ω τ π κ ι J : Type} {ρ : ι → Type} {res : J → Type}
  {M : Machine ω τ π κ ρ res} (S : Spec M)

open Machine

/-- What one step of `t` must do for everyone else: keep the invariant, meet
the guarantee, and stay within what every other thread relies on. -/
structure Moves (t : τ) (w w' : ω) : Prop where
  inv : S.Inv w'
  guar : S.Guar w w'
  rely : ∀ u, u ≠ t → S.Rely u w w'

/-- A step that changes nothing is within every outline. -/
theorem Moves.stay {S : Spec M} {t : τ} {w : ω} (h : S.Inv w) :
    S.Moves t w w :=
  ⟨h, S.guar_refl w, fun u _ => S.rely_refl u w⟩

/-- `t` may run `p` from `w`: whatever the others do meanwhile, each call is
issued where it may be, and leaves the rest safe; the value returned at the
end satisfies `Q`, and goes on satisfying it. -/
def Safe {α : Type} (t : τ) (Q : α → ω → Prop) : Prog ρ α → ω → Prop
  | .pure a, w => ∀ w', S.Inv w' → S.Rely t w w' → Q a w'
  | .call c k, w => ∀ w', S.Inv w' → S.Rely t w w' →
      S.Req w' t c ∧
        ∀ x w'' r, M.exec w' t c x = some (w'', r) → S.guard.act w' t c x →
          S.Moves t w' w'' ∧ Safe t Q (k r) w''

variable {S} {α β : Type} {t : τ}

/-- The others' steps keep a thread safe. -/
theorem Safe.stable {Q : α → ω → Prop} {p : Prog ρ α} {w w' : ω}
    (h : S.Safe t Q p w) (hr : S.Rely t w w') : S.Safe t Q p w' := by
  cases p with
  | pure a => exact fun w₁ hi hr₁ => h w₁ hi (S.rely_trans _ _ _ _ hr hr₁)
  | call c k => exact fun w₁ hi hr₁ => h w₁ hi (S.rely_trans _ _ _ _ hr hr₁)

theorem Safe.bind {Q : β → ω → Prop} {Q' : α → ω → Prop} {p : Prog ρ α}
    {f : α → Prog ρ β} {w : ω} (h : S.Safe t Q' p w)
    (hf : ∀ a w', S.Inv w' → Q' a w' → S.Safe t Q (f a) w') (hw : S.Inv w) :
    S.Safe t Q (p.bind f) w := by
  induction p generalizing w with
  | pure a => exact hf a w hw (h w hw (S.rely_refl t w))
  | call c k ih =>
    intro w' hi hr
    obtain ⟨hreq, hact⟩ := h w' hi hr
    refine ⟨hreq, fun x w'' r hex hok => ?_⟩
    obtain ⟨hm, hs⟩ := hact x w'' r hex hok
    exact ⟨hm, ih r hs hm.inv⟩

/-- A weaker promise is kept too. -/
theorem Safe.imp {Q Q' : α → ω → Prop} {p : Prog ρ α} {w : ω}
    (h : S.Safe t Q p w) (hQ : ∀ a w', S.Inv w' → Q a w' → Q' a w') :
    S.Safe t Q' p w := by
  induction p generalizing w with
  | pure a => exact fun w' hi hr => hQ a w' hi (h w' hi hr)
  | call c k ih =>
    intro w' hi hr
    obtain ⟨hreq, hact⟩ := h w' hi hr
    refine ⟨hreq, fun x w'' r hex hok => ?_⟩
    obtain ⟨hm, hs⟩ := hact x w'' r hex hok
    exact ⟨hm, ih r hs⟩

/-! ## Triples

The form in which the functions of a program are specified: from a
precondition on the world, with the invariant holding. -/

variable (S) in
/-- From every world that satisfies `P`, `t` may run `p` and ends in `Q`. -/
def Triple {α : Type} (t : τ) (P : ω → Prop) (p : Prog ρ α)
    (Q : α → ω → Prop) : Prop :=
  ∀ w, S.Inv w → P w → S.Safe t Q p w

variable (S) in
/-- The other threads cannot make `P` false while `t` stands still. -/
def Stable (t : τ) (P : ω → Prop) : Prop :=
  ∀ w w', S.Inv w → S.Inv w' → S.Rely t w w' → P w → P w'

variable (S) in
/-- One call of `t`, from `P` to `P'`: it may be issued, it moves within the
outline, and every answer leaves `P'` at that answer. -/
def Atomic (t : τ) (P : ω → Prop) (c : ι) (P' : ρ c → ω → Prop) : Prop :=
  ∀ w, S.Inv w → P w → S.Req w t c ∧
    ∀ x w' r, M.exec w t c x = some (w', r) → S.guard.act w t c x →
      S.Moves t w w' ∧ P' r w'

theorem Stable.and {P Q : ω → Prop} (hP : S.Stable t P) (hQ : S.Stable t Q) :
    S.Stable t (fun w => P w ∧ Q w) :=
  fun w w' hi hi' hr h => ⟨hP w w' hi hi' hr h.1, hQ w w' hi hi' hr h.2⟩

theorem Stable.const (φ : Prop) : S.Stable t (fun _ => φ) :=
  fun _ _ _ _ _ h => h

theorem Stable.true : S.Stable t (fun _ => True) := Stable.const True

theorem Triple.pure {P : ω → Prop} {Q : α → ω → Prop} {a : α}
    (hP : S.Stable t P) (h : ∀ w, S.Inv w → P w → Q a w) :
    S.Triple t P (.pure a) Q :=
  fun w hi hp w' hi' hr => h w' hi' (hP w w' hi hi' hr hp)

theorem Triple.call {P : ω → Prop} {Q : α → ω → Prop} {c : ι}
    {k : ρ c → Prog ρ α} {A : ρ c → ω → Prop} (hP : S.Stable t P)
    (hc : S.Atomic t P c A) (hk : ∀ r, S.Triple t (A r) (k r) Q) :
    S.Triple t P (.call c k) Q := by
  intro w hi hp w' hi' hr
  obtain ⟨hreq, hact⟩ := hc w' hi' (hP w w' hi hi' hr hp)
  refine ⟨hreq, fun x w'' r hex hok => ?_⟩
  obtain ⟨hm, hp'⟩ := hact x w'' r hex hok
  exact ⟨hm, hk r w'' hm.inv hp'⟩

/-- A call at the head of a `do` block. -/
theorem Triple.step {P : ω → Prop} {Q : α → ω → Prop} {c : ι}
    {f : ρ c → Prog ρ α} {A : ρ c → ω → Prop} (hP : S.Stable t P)
    (hc : S.Atomic t P c A) (hk : ∀ r, S.Triple t (A r) (f r) Q) :
    S.Triple t P ((Prog.perform c).bind f) Q :=
  Triple.call hP hc hk

theorem Triple.bind {P : ω → Prop} {Q : β → ω → Prop} {Q' : α → ω → Prop}
    {p : Prog ρ α} {f : α → Prog ρ β} (hp : S.Triple t P p Q')
    (hf : ∀ a, S.Triple t (Q' a) (f a) Q) : S.Triple t P (p.bind f) Q :=
  fun w hi h => (hp w hi h).bind (fun a w' hi' hq => hf a w' hi' hq) hi

theorem Triple.imp {P P' : ω → Prop} {Q Q' : α → ω → Prop} {p : Prog ρ α}
    (h : S.Triple t P' p Q') (hP : ∀ w, S.Inv w → P w → P' w)
    (hQ : ∀ a w, S.Inv w → Q' a w → Q a w) : S.Triple t P p Q :=
  fun w hi hp => (h w hi (hP w hi hp)).imp hQ

theorem Triple.pre {P R : ω → Prop} {Q : α → ω → Prop} {p : Prog ρ α}
    (h : S.Triple t R p Q) (hP : ∀ w, S.Inv w → P w → R w) :
    S.Triple t P p Q :=
  h.imp hP fun _ _ _ hq => hq

/-- A fact about values only may be taken out of the precondition. -/
theorem Triple.assume {φ : Prop} {P : ω → Prop} {Q : α → ω → Prop}
    {p : Prog ρ α} (h : φ → S.Triple t P p Q) :
    S.Triple t (fun w => φ ∧ P w) p Q :=
  fun w hi hp => h hp.1 w hi hp.2

theorem Atomic.imp {P Q : ω → Prop} {c : ι} {P' Q' : ρ c → ω → Prop}
    (h : S.Atomic t P c P') (hP : ∀ w, S.Inv w → Q w → P w)
    (hQ : ∀ r w, S.Inv w → P' r w → Q' r w) : S.Atomic t Q c Q' := by
  intro w hi hq
  obtain ⟨hreq, hact⟩ := h w hi (hP w hi hq)
  refine ⟨hreq, fun x w' r hex hok => ?_⟩
  obtain ⟨hm, hp⟩ := hact x w' r hex hok
  exact ⟨hm, hQ r w' hm.inv hp⟩

/-- What every call of a kind keeps, a program of such calls keeps. -/
theorem Triple.of_all {P : ω → Prop} {φ : ι → Prop} {p : Prog ρ α}
    (hP : S.Stable t P) (hc : ∀ c, φ c → S.Atomic t P c fun _ => P)
    (hp : p.All φ) : S.Triple t P p fun _ => P := by
  induction p with
  | pure a => exact Triple.pure hP fun _ _ h => h
  | call c k ih => exact Triple.call hP (hc c hp.1) fun r => ih r (hp.2 r)

/-! ## Composition -/

variable (S) in
/-- What a thread promises between two steps. -/
def Holds (t : τ) (w : ω) : Option (Σ j : J, Prog ρ (res j)) → Prop
  | none => S.Idle t w
  | some ⟨j, p⟩ => S.Safe t (S.Post t j) p w

variable (S) in
/-- A configuration the outline covers. -/
structure Good (s : Cfg ω τ ρ res) : Prop where
  inv : S.Inv s.world
  holds : ∀ t, S.Holds t s.world (s.thread t)

/-- What a finished job promised holds. -/
theorem Good.post {s : Cfg ω τ ρ res} (hg : S.Good s) {j : J} {a : res j}
    (hth : s.thread t = some ⟨j, .pure a⟩) : S.Post t j a s.world := by
  have := hg.holds t
  rw [hth] at this
  exact this _ hg.inv (S.rely_refl t _)

/-- A call about to be issued may be. -/
theorem Good.req {s : Cfg ω τ ρ res} (hg : S.Good s) {j : J} {c : ι}
    {k : ρ c → Prog ρ (res j)} (hth : s.thread t = some ⟨j, .call c k⟩) :
    S.Req s.world t c := by
  have := hg.holds t
  rw [hth] at this
  exact (this _ hg.inv (S.rely_refl t _)).1

variable (S) in
/-- The obligations of an outline: what starting, finishing and dying do,
and that every job is safe where it starts. -/
structure Sound [DecidableEq π] : Prop where
  idle_stable : ∀ t, S.Stable t (S.Idle t)
  start : ∀ w t j p, S.Inv w → S.Idle t w → S.guard.start w t j →
    M.job t j = some p →
      S.Moves t w (M.enter w t j) ∧
        S.Safe t (S.Post t j) p (M.enter w t j)
  finish : ∀ w t j a, S.Inv w → S.Post t j a w →
    S.Moves t w (M.leave w t j) ∧ S.Idle t (M.leave w t j)
  crash : ∀ w p, S.Inv w → S.guard.crash w p →
    S.Inv (M.crash w p) ∧ S.Guar w (M.crash w p) ∧
      ∀ u, if M.proc u = p then S.Idle u (M.crash w p)
        else S.Rely u w (M.crash w p)

theorem Sound.holds_stable [DecidableEq π] (h : S.Sound) {u : τ} {w w' : ω}
    {o : Option (Σ j : J, Prog ρ (res j))} (hi : S.Inv w) (hi' : S.Inv w')
    (hr : S.Rely u w w') (hh : S.Holds u w o) : S.Holds u w' o := by
  match o, hh with
  | none, hh => exact h.idle_stable u w w' hi hi' hr hh
  | some ⟨_, _⟩, hh => exact Safe.stable hh hr

variable [DecidableEq τ] [DecidableEq π]

/-- A step of `t` alone: the others keep what they promised. -/
theorem Sound.moves_good (h : S.Sound) {s : Cfg ω τ ρ res} {w : ω}
    {o : Option (Σ j : J, Prog ρ (res j))} (hg : S.Good s)
    (hm : S.Moves t s.world w) (ho : S.Holds t w o) :
    S.Good ⟨w, Function.update s.thread t o⟩ := by
  refine ⟨hm.inv, fun u => ?_⟩
  by_cases hu : u = t
  · subst hu
    simpa using ho
  · simp only [Function.update_of_ne hu]
    exact h.holds_stable hg.inv hm.inv (hm.rely u hu) (hg.holds u)

/-- One step of the machine stays within the outline. -/
theorem Sound.step (h : S.Sound) {s s' : Cfg ω τ ρ res}
    {l : Label τ π κ J} (hg : S.Good s) (hok : S.guard.Allows s l)
    (hn : M.next s l = some s') : S.Good s' ∧ S.Guar s.world s'.world := by
  cases l with
  | start t j =>
    simp only [Machine.next] at hn
    split at hn
    · next p hth hj =>
      obtain rfl := Option.some.inj hn
      have hidle : S.Idle t s.world := by
        have := hg.holds t
        rwa [hth] at this
      obtain ⟨hm, hs⟩ := h.start _ t j p hg.inv hidle hok hj
      exact ⟨h.moves_good hg hm hs, hm.guar⟩
    · exact absurd hn (by simp)
  | act t x =>
    simp only [Machine.next] at hn
    split at hn
    · next j c k hth =>
      split at hn
      · next w r hex =>
        obtain rfl := Option.some.inj hn
        have hsafe : S.Safe t (S.Post t j) (.call c k) s.world := by
          have := hg.holds t
          rwa [hth] at this
        obtain ⟨-, hact⟩ := hsafe _ hg.inv (S.rely_refl t _)
        obtain ⟨hm, hs⟩ := hact x w r hex (hok j c k hth)
        exact ⟨h.moves_good hg hm hs, hm.guar⟩
      · exact absurd hn (by simp)
    · exact absurd hn (by simp)
  | finish t =>
    simp only [Machine.next] at hn
    split at hn
    · next j a hth =>
      obtain rfl := Option.some.inj hn
      have hpost : S.Post t j a s.world := by
        have := hg.holds t
        rw [hth] at this
        exact this _ hg.inv (S.rely_refl t _)
      obtain ⟨hm, hidle⟩ := h.finish _ t j a hg.inv hpost
      exact ⟨h.moves_good hg hm hidle, hm.guar⟩
    · exact absurd hn (by simp)
  | crash p =>
    obtain rfl := Option.some.inj hn
    obtain ⟨hi, hgu, hu⟩ := h.crash _ p hg.inv hok
    refine ⟨⟨hi, fun u => ?_⟩, hgu⟩
    have := hu u
    by_cases hp : M.proc u = p
    · simpa only [if_pos hp, Holds] using this
    · simp only [if_neg hp] at this ⊢
      exact h.holds_stable hg.inv hi this (hg.holds u)

theorem Sound.run_guar (h : S.Sound) {init : ω → Prop}
    {s s' : Cfg ω τ ρ res} (hg : S.Good s)
    (hr : (M.lts init).Run S.guard.Allows s s') :
    S.Good s' ∧ S.Guar s.world s'.world :=
  Lts.Run.relates (G := fun s s' => S.Guar s.world s'.world)
    (fun _ => S.guar_refl _) (fun _ _ _ => S.guar_trans _ _ _)
    (fun _ _ _ hg hok hn => h.step hg hok hn) hr hg

/-- Every state of every run the outline allows is one it covers. -/
theorem Sound.reach (h : S.Sound) {init : ω → Prop}
    (hinit : ∀ w, init w → S.Inv w ∧ ∀ t, S.Idle t w)
    {s : Cfg ω τ ρ res} (hr : (M.lts init).Reach S.guard.Allows s) :
    S.Good s := by
  obtain ⟨s₀, ⟨hi, hth⟩, hrun⟩ := hr
  refine (h.run_guar ⟨(hinit _ hi).1, fun t => ?_⟩ hrun).1
  rw [hth t]
  exact (hinit _ hi).2 t

end Spec

end Dyad.Conc
