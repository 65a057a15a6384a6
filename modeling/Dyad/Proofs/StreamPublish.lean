import Dyad.Stream.StreamApi
import Mathlib.Logic.Equiv.Basic

/-!
# What the streams publish

`close` and the destructor publish the name the object remembers, whatever its
standard stream has open. So the name is the right one as long as object and
stream stay together while a file is open: the name stays behind when the
stream is moved or swapped away, `close` repeats it when no file is open, an
assignment closes a file without it, and an `ofstream` that opens a file
outside the managed directory keeps the one before.

`InStep` excludes these operations, each only where the cores involved
publish. Under it an object that publishes remembers the name of the file it
has open, through every sequence of operations, and that is all `close` and the
destructor need.
-/

namespace Dyad

open Conc

variable {b : StreamBuild} {s s' : Streams} {x y : Nat} {o o' : StreamObj}
  {log : List StreamEvent} {l : Opening}

/-- The core is a producer's, and initialised. -/
def StreamCore.publishes (core : StreamCore) : Bool :=
  core.initialized && core.isProd

theorem closeSync_eq (core : StreamCore) (path : CString) :
    core.closeSync path = if core.publishes then some path else none := by
  rw [StreamCore.closeSync, StreamCore.publishes]
  cases core.initialized <;> cases core.isProd <;> rfl

/-- A producer-managed file opened for writing. -/
def Opening.mustPublish (l : Opening) : Bool :=
  l.write && l.managed && l.producer

/-- The operation keeps names and files together. -/
def InStep (b : StreamBuild) (s : Streams) : StreamOp → Prop
  -- a producer's `ofstream` opens managed files only
  | .open x name _ ok =>
    ∀ o, s.objs x = some o → o.opens name ok = true →
      o.core.publishes = true → o.remembers b name = true
  -- a producer's stream is closed once
  | .close x =>
    ∀ o, s.objs x = some o → o.stream = some ⟨none⟩ →
      o.core.publishes = false
  -- a producer's stream is not moved away with a file open
  | .moveConstruct _ y =>
    ∀ o, s.objs y = some o → o.file.isSome = true → o.core.publishes = false
  -- and not overwritten while it has one that is still to be published
  | .moveAssign x y =>
    x ≠ y →
      (∀ o, s.objs y = some o → o.file.isSome = true →
        o.core.publishes = false) ∧
      ∀ o l, s.objs x = some o → o.file = some l → l.mustPublish = false
  | .swap x y =>
    x ≠ y → ∀ o o', s.objs x = some o → s.objs y = some o' →
      o.file.isSome = true ∨ o'.file.isSome = true →
      o.core.publishes = false ∧ o'.core.publishes = false
  | _ => True

/-- The log of a process that published every managed file once. -/
structure PublishedOnce (s : Streams) : Prop where
  /-- A file that was opened is still open, or was closed. -/
  ended : ∀ l, .opened l ∈ s.log →
    (∃ x o, s.objs x = some o ∧ o.file = some l) ∨ .closed l ∈ s.log
  /-- A managed file that was closed was published next, under its name. -/
  published : ∀ l, .closed l ∈ s.log → l.mustPublish = true →
    ∃ later earlier, s.log =
      later ++ .published l.name (some l) :: .closed l :: earlier
  /-- No opening is published twice. -/
  once : ∀ l name, s.log.count (.published name (some l)) ≤ 1
  /-- Every publication is of a file just closed, under its name. -/
  named : ∀ name closing, .published name closing ∈ s.log →
    ∃ l, closing = some l ∧ .closed l ∈ s.log ∧ name = l.name ∧ name ≠ []

/-! ## The log -/

/-- What the log says of the publications, the files left aside. -/
structure Orderly (log : List StreamEvent) : Prop where
  published : ∀ l, .closed l ∈ log → l.mustPublish = true →
    ∃ later earlier, log =
      later ++ .published l.name (some l) :: .closed l :: earlier
  once : ∀ l name, log.count (.published name (some l)) ≤ 1
  named : ∀ name closing, .published name closing ∈ log →
    ∃ l, closing = some l ∧ .closed l ∈ log ∧ name = l.name ∧ name ≠ []

theorem Orderly.nil : Orderly [] where
  published := nofun
  once _ _ := Nat.zero_le 1
  named := nofun

/-- A file that is opened. -/
theorem Orderly.opened (h : Orderly log) : Orderly (.opened l :: log) where
  published m hm hmust := by
    rcases List.mem_cons.1 hm with hm | hm
    · cases hm
    · obtain ⟨later, earlier, heq⟩ := h.published m hm hmust
      exact ⟨.opened l :: later, earlier, by rw [heq]; rfl⟩
  once m name := by
    rw [List.count_cons_of_ne (by simp)]
    exact h.once m name
  named name closing hp := by
    rcases List.mem_cons.1 hp with hp | hp
    · cases hp
    · obtain ⟨m, hc, hm, hname⟩ := h.named name closing hp
      exact ⟨m, hc, List.mem_cons_of_mem _ hm, hname⟩

/-- A file that is closed and need not be published. -/
theorem Orderly.closed (h : Orderly log) (hmust : l.mustPublish = false) :
    Orderly (.closed l :: log) where
  published m hm hmust' := by
    rcases List.mem_cons.1 hm with hm | hm
    · cases hm
      exact absurd (hmust.symm.trans hmust') nofun
    · obtain ⟨later, earlier, heq⟩ := h.published m hm hmust'
      exact ⟨.closed l :: later, earlier, by rw [heq]; rfl⟩
  once m name := by
    rw [List.count_cons_of_ne (by simp)]
    exact h.once m name
  named name closing hp := by
    rcases List.mem_cons.1 hp with hp | hp
    · cases hp
    · obtain ⟨m, hc, hm, hname⟩ := h.named name closing hp
      exact ⟨m, hc, List.mem_cons_of_mem _ hm, hname⟩

/-- A file that is closed and published. -/
theorem Orderly.publish (h : Orderly log) (hnew : .closed l ∉ log)
    (hne : l.name ≠ []) :
    Orderly (.published l.name (some l) :: .closed l :: log) where
  published m hm hmust := by
    rcases List.mem_cons.1 hm with hm | hm
    · cases hm
    rcases List.mem_cons.1 hm with hm | hm
    · cases hm
      exact ⟨[], log, rfl⟩
    · obtain ⟨later, earlier, heq⟩ := h.published m hm hmust
      exact ⟨.published l.name (some l) :: .closed l :: later, earlier,
        by rw [heq]; rfl⟩
  once m name := by
    by_cases heq : StreamEvent.published l.name (some l) = .published name (some m)
    · -- nothing was published for this file before: it was not closed
      have hzero : log.count (.published name (some m)) = 0 := by
        rw [List.count_eq_zero]
        intro hp
        obtain ⟨m', hc, hm', _⟩ := h.named _ _ hp
        cases heq
        cases hc
        exact hnew hm'
      rw [heq, List.count_cons_self, List.count_cons_of_ne (by simp), hzero]
    · rw [List.count_cons_of_ne heq, List.count_cons_of_ne (by simp)]
      exact h.once m name
  named name closing hp := by
    rcases List.mem_cons.1 hp with hp | hp
    · cases hp
      exact ⟨l, rfl, by simp, rfl, hne⟩
    rcases List.mem_cons.1 hp with hp | hp
    · cases hp
    · obtain ⟨m, hc, hm, hname⟩ := h.named name closing hp
      exact ⟨m, hc, by simp [hm], hname⟩

/-! ## The invariant -/

/-- An object and the file it has open belong together: it was opened by a core
that publishes as the object's does, and an object that publishes remembers its
name. -/
structure StreamObj.Keeps (o : StreamObj) (l : Opening) : Prop where
  role : l.producer = o.core.publishes
  name : o.core.publishes = true → o.filename = l.name
  nonempty : l.name ≠ []

/-- The invariant: objects and files belong together, no file is open twice, no
file that was closed is open, and the log is in order. -/
structure Kept (s : Streams) : Prop where
  keeps : ∀ x o l, s.objs x = some o → o.file = some l → o.Keeps l
  fresh : ∀ x o l, s.objs x = some o → o.file = some l → l.id < s.nextId
  apart : ∀ x x' o o' l l', s.objs x = some o → o.file = some l →
    s.objs x' = some o' → o'.file = some l' → l.id = l'.id → x = x'
  old : ∀ l, .closed l ∈ s.log → l.id < s.nextId
  gone : ∀ l x o l', .closed l ∈ s.log → s.objs x = some o →
    o.file = some l' → l'.id ≠ l.id
  ended : ∀ l, .opened l ∈ s.log →
    (∃ x o, s.objs x = some o ∧ o.file = some l) ∨ .closed l ∈ s.log
  orderly : Orderly s.log

theorem Kept.start : Kept Streams.fresh where
  keeps _ _ _ ho := nomatch ho
  fresh _ _ _ ho := nomatch ho
  apart _ _ _ _ _ _ ho := nomatch ho
  old _ hl := absurd hl List.not_mem_nil
  gone _ _ _ _ hl := absurd hl List.not_mem_nil
  ended _ hl := absurd hl List.not_mem_nil
  orderly := Orderly.nil

/-- Files that change hands: each is still open once, in an object it belongs
to. `from x` is the object whose file `x` has now. -/
theorem Kept.carry (h : Kept s) (f : Nat → Nat)
    (hinj : ∀ x x', f x = f x' → x = x')
    (hheld : ∀ x o l, s'.objs x = some o → o.file = some l →
      (∃ o₀, s.objs (f x) = some o₀ ∧ o₀.file = some l) ∧ o.Keeps l)
    (hback : ∀ x o l, s.objs x = some o → o.file = some l →
      ∃ x' o', s'.objs x' = some o' ∧ o'.file = some l)
    (hid : s'.nextId = s.nextId) (hlog : s'.log = s.log) : Kept s' where
  keeps x o l ho hl := (hheld x o l ho hl).2
  fresh x o l ho hl := by
    obtain ⟨⟨o₀, ho₀, hl₀⟩, _⟩ := hheld x o l ho hl
    rw [hid]
    exact h.fresh _ _ _ ho₀ hl₀
  apart x x' o o' l l' ho hl ho' hl' heq := by
    obtain ⟨⟨o₀, ho₀, hl₀⟩, _⟩ := hheld x o l ho hl
    obtain ⟨⟨o₁, ho₁, hl₁⟩, _⟩ := hheld x' o' l' ho' hl'
    exact hinj _ _ (h.apart _ _ _ _ _ _ ho₀ hl₀ ho₁ hl₁ heq)
  old l hl := by
    rw [hlog] at hl
    rw [hid]
    exact h.old l hl
  gone l x o l' hl ho hl' := by
    rw [hlog] at hl
    obtain ⟨⟨o₀, ho₀, hl₀⟩, _⟩ := hheld x o l' ho hl'
    exact h.gone _ _ _ _ hl ho₀ hl₀
  ended l hl := by
    rw [hlog] at hl ⊢
    rcases h.ended l hl with ⟨x, o, ho, hfile⟩ | hclosed
    · exact Or.inl (hback x o l ho hfile)
    · exact Or.inr hclosed
  orderly := by
    rw [hlog]
    exact h.orderly

/-- The state with a file closed. -/
def Streams.shut (s : Streams) (x : Nat) (o : StreamObj)
    (log : List StreamEvent) : Streams :=
  { s.set x (some { o with stream := some ⟨none⟩ }) with log := log }

theorem shut_objs (z : Nat) :
    (s.shut x o log).objs z =
      if z = x then some { o with stream := some ⟨none⟩ } else s.objs z := rfl

/-- A file that is closed: nothing has it open any more. -/
theorem Kept.shut (h : Kept s) (ho : s.objs x = some o)
    (hfile : o.file = some l) (horderly : Orderly log)
    (hclosed : ∀ m, .closed m ∈ log ↔ m = l ∨ .closed m ∈ s.log)
    (hopened : ∀ m, .opened m ∈ log ↔ .opened m ∈ s.log) :
    Kept (s.shut x o log) := by
  have hheld {z o' m} (ho' : (s.shut x o log).objs z = some o')
      (hm : o'.file = some m) : z ≠ x ∧ s.objs z = some o' := by
    rw [shut_objs] at ho'
    by_cases hz : z = x
    · rw [if_pos hz] at ho'
      cases ho'
      exact nomatch hm
    · rw [if_neg hz] at ho'
      exact ⟨hz, ho'⟩
  refine { keeps := ?_, fresh := ?_, apart := ?_, old := ?_, gone := ?_,
           ended := ?_, orderly := horderly }
  · intro z o' m ho' hm
    exact h.keeps _ _ _ (hheld ho' hm).2 hm
  · intro z o' m ho' hm
    exact h.fresh _ _ _ (hheld ho' hm).2 hm
  · intro z z' o₁ o₂ m m' h₁ hm h₂ hm' heq
    exact h.apart _ _ _ _ _ _ (hheld h₁ hm).2 hm (hheld h₂ hm').2 hm' heq
  · intro m hm
    rcases (hclosed m).1 hm with rfl | hm
    · exact h.fresh _ _ _ ho hfile
    · exact h.old m hm
  · intro m z o' m' hm ho' hm' heq
    obtain ⟨hz, ho'⟩ := hheld ho' hm'
    rcases (hclosed m).1 hm with rfl | hm
    · exact hz (h.apart _ _ _ _ _ _ ho' hm' ho hfile heq)
    · exact h.gone _ _ _ _ hm ho' hm' heq
  · intro m hm
    rcases h.ended m ((hopened m).1 hm) with ⟨z, o', ho', hm'⟩ | hm
    · by_cases hz : z = x
      · subst hz
        obtain rfl := Option.some.inj (ho.symm.trans ho')
        obtain rfl := Option.some.inj (hfile.symm.trans hm')
        exact Or.inr ((hclosed l).2 (Or.inl rfl))
      · refine Or.inl ⟨z, o', ?_, hm'⟩
        rw [shut_objs, if_neg hz, ho']
    · exact Or.inr ((hclosed m).2 (Or.inr hm))

/-- A file that is open was never closed. -/
theorem Kept.notClosed (h : Kept s) (ho : s.objs x = some o)
    (hfile : o.file = some l) : .closed l ∉ s.log :=
  fun hl => h.gone l x o l hl ho hfile rfl

/-- `close` and the destructor, on an object that has a file open. -/
theorem Kept.finish (h : Kept s) (ho : s.objs x = some o)
    (hfile : o.file = some l) : Kept (s.shut x o (o.finish s.log)) := by
  have hkeeps := h.keeps x o l ho hfile
  have hnew := h.notClosed ho hfile
  have hfin : o.finish s.log =
      if o.core.publishes then
        .published o.filename (some l) :: .closed l :: s.log
      else .closed l :: s.log := by
    rw [StreamObj.finish, hfile, closeSync_eq]
    cases o.core.publishes <;> rfl
  refine h.shut ho hfile ?_ ?_ ?_
  · rw [hfin]
    cases hpub : o.core.publishes with
    | true =>
      rw [if_pos rfl, hkeeps.name hpub]
      exact h.orderly.publish hnew hkeeps.nonempty
    | false =>
      refine h.orderly.closed ?_
      rw [Opening.mustPublish, hkeeps.role, hpub, Bool.and_false]
  · intro m
    rw [hfin]
    cases o.core.publishes <;> simp
  · intro m
    rw [hfin]
    cases o.core.publishes <;> simp

/-! ## The operations -/

theorem set_objs (o : Option StreamObj) (z : Nat) :
    (s.set x o).objs z = if z = x then o else s.objs z := rfl

/-- A change of one object that leaves the file it has open. -/
theorem Kept.set (h : Kept s) {o' : Option StreamObj}
    (hkeeps : ∀ o₁ l, o' = some o₁ → o₁.file = some l →
      (∃ o₀, s.objs x = some o₀ ∧ o₀.file = some l) ∧ o₁.Keeps l)
    (hback : ∀ o₀ l, s.objs x = some o₀ → o₀.file = some l →
      ∃ o₁, o' = some o₁ ∧ o₁.file = some l) : Kept (s.set x o') := by
  refine h.carry id (fun _ _ heq => heq) ?_ ?_ rfl rfl
  · intro z o₁ l ho hl
    rw [set_objs] at ho
    by_cases hz : z = x
    · subst hz
      rw [if_pos rfl] at ho
      exact hkeeps o₁ l ho hl
    · rw [if_neg hz] at ho
      exact ⟨⟨o₁, ho, hl⟩, h.keeps _ _ _ ho hl⟩
  · intro z o₀ l ho hl
    by_cases hz : z = x
    · subst hz
      obtain ⟨o₁, ho₁, hl₁⟩ := hback o₀ l ho hl
      refine ⟨z, o₁, ?_, hl₁⟩
      rw [set_objs, if_pos rfl, ho₁]
    · refine ⟨z, o₀, ?_, hl⟩
      rw [set_objs, if_neg hz, ho]

/-- A file that is opened. -/
theorem Kept.open (h : Kept s) (ho : s.objs x = some o) {name : CString}
    {write ok : Bool} (hopens : o.opens name ok = true)
    (hremembers : o.core.publishes = true → o.remembers b name = true) :
    Kept { s.set x (some (o.opened b (o.opening b s.nextId name write))) with
      nextId := s.nextId + 1
      log := .opened (o.opening b s.nextId name write) :: s.log } := by
  rw [StreamObj.opens, Bool.and_eq_true, Bool.and_eq_true, decide_eq_true_eq,
    decide_eq_true_eq] at hopens
  obtain ⟨⟨hclosed, _⟩, hname⟩ := hopens
  have hnofile : o.file = none := by rw [StreamObj.file, hclosed]; rfl
  have hheld {z o' l}
      (ho' : (s.set x (some (o.opened b
        (o.opening b s.nextId name write)))).objs z = some o')
      (hl : o'.file = some l) :
      z = x ∧ o' = o.opened b (o.opening b s.nextId name write) ∧
          l = o.opening b s.nextId name write ∨
        z ≠ x ∧ s.objs z = some o' := by
    rw [set_objs] at ho'
    by_cases hz : z = x
    · rw [if_pos hz] at ho'
      obtain rfl := Option.some.inj ho'
      exact Or.inl ⟨hz, rfl, (Option.some.inj hl).symm⟩
    · rw [if_neg hz] at ho'
      exact Or.inr ⟨hz, ho'⟩
  refine { keeps := ?_, fresh := ?_, apart := ?_, old := ?_, gone := ?_,
           ended := ?_, orderly := h.orderly.opened }
  · intro z o' l ho' hl
    rcases hheld ho' hl with ⟨_, rfl, rfl⟩ | ⟨_, ho'⟩
    · refine ⟨?_, fun hpub => ?_, ?_⟩
      · show (o.core.closeSync name).isSome = o.core.publishes
        rw [closeSync_eq]
        cases o.core.publishes <;> rfl
      · exact if_pos (hremembers hpub)
      · exact fun hnil => hname (List.length_eq_zero_iff.2 hnil)
    · exact h.keeps _ _ _ ho' hl
  · intro z o' l ho' hl
    rcases hheld ho' hl with ⟨_, rfl, rfl⟩ | ⟨_, ho'⟩
    · exact Nat.lt_succ_self _
    · exact Nat.lt_succ_of_lt (h.fresh _ _ _ ho' hl)
  · intro z z' o₁ o₂ l l' h₁ hl h₂ hl' heq
    rcases hheld h₁ hl with ⟨hz, _, rfl⟩ | ⟨hz, h₁⟩
    · rcases hheld h₂ hl' with ⟨hz', _, _⟩ | ⟨_, h₂⟩
      · rw [hz, hz']
      · exact absurd heq.symm (Nat.ne_of_lt (h.fresh _ _ _ h₂ hl'))
    · rcases hheld h₂ hl' with ⟨_, _, rfl⟩ | ⟨_, h₂⟩
      · exact absurd heq (Nat.ne_of_lt (h.fresh _ _ _ h₁ hl))
      · exact h.apart _ _ _ _ _ _ h₁ hl h₂ hl' heq
  · intro l hl
    rcases List.mem_cons.1 hl with hl | hl
    · cases hl
    · exact Nat.lt_succ_of_lt (h.old l hl)
  · intro l z o' l' hl ho' hl' heq
    rcases List.mem_cons.1 hl with hl | hl
    · cases hl
    rcases hheld ho' hl' with ⟨_, _, rfl⟩ | ⟨_, ho'⟩
    · exact absurd heq.symm (Nat.ne_of_lt (h.old l hl))
    · exact h.gone _ _ _ _ hl ho' hl' heq
  · intro l hl
    rcases List.mem_cons.1 hl with hl | hl
    · cases hl
      exact Or.inl ⟨x, o.opened b (o.opening b s.nextId name write),
        (set_objs _ x).trans (if_pos rfl), rfl⟩
    · rcases h.ended l hl with ⟨z, o', ho', hl'⟩ | hl
      · refine Or.inl ⟨z, o', ?_, hl'⟩
        have hz : z ≠ x := by
          rintro rfl
          obtain rfl := Option.some.inj (ho.symm.trans ho')
          exact nomatch hnofile.symm.trans hl'
        exact (set_objs _ z).trans ((if_neg hz).trans ho')
      · exact Or.inr (List.mem_cons_of_mem _ hl)

theorem file_of_stream {f : FileStream} (h : o.stream = some f) :
    o.file = f.file := by
  rw [StreamObj.file, h]
  rfl

/-- The stream of one object handed to another, which has no file open itself.
`o` is what the receiver is then. -/
theorem Kept.handOver (h : Kept s) {o₁ : StreamObj} (hxy : x ≠ y)
    (hy : s.objs y = some o₁)
    (hfree : ∀ o₀, s.objs x = some o₀ → o₀.file = none)
    (hfile : o.file = o₁.file) (hkeeps : ∀ l, o.file = some l → o.Keeps l) :
    Kept ((s.set y (some { o₁ with stream := none })).set x (some o)) := by
  have hobjs (z) : ((s.set y (some { o₁ with stream := none })).set x
      (some o)).objs z =
        if z = x then some o
        else if z = y then some { o₁ with stream := none } else s.objs z := rfl
  refine h.carry (Equiv.swap x y) (fun _ _ => (Equiv.injective _).eq_iff.1)
    ?_ ?_ rfl rfl
  · intro z o' l ho' hl
    rw [hobjs] at ho'
    by_cases hzx : z = x
    · rw [if_pos hzx] at ho'
      obtain rfl := Option.some.inj ho'
      rw [hzx, Equiv.swap_apply_left]
      exact ⟨⟨o₁, hy, hfile.symm.trans hl⟩, hkeeps l hl⟩
    · rw [if_neg hzx] at ho'
      by_cases hzy : z = y
      · rw [if_pos hzy] at ho'
        obtain rfl := Option.some.inj ho'
        exact nomatch hl
      · rw [if_neg hzy] at ho'
        rw [Equiv.swap_apply_of_ne_of_ne hzx hzy]
        exact ⟨⟨o', ho', hl⟩, h.keeps _ _ _ ho' hl⟩
  · intro z o₀ l ho hl
    by_cases hzx : z = x
    · subst hzx
      exact nomatch (hfree o₀ ho).symm.trans hl
    · by_cases hzy : z = y
      · subst hzy
        obtain rfl := Option.some.inj (hy.symm.trans ho)
        exact ⟨x, o, (hobjs x).trans (if_pos rfl), hfile.trans hl⟩
      · exact ⟨z, o₀, by rw [hobjs, if_neg hzx, if_neg hzy, ho], hl⟩

/-- What is done to an object that was shut hides that it was. -/
theorem set_shut (p : Option StreamObj) :
    (s.shut x o log).set x p = { s.set x p with log := log } := by
  rw [Streams.shut, Streams.set, Streams.set, Streams.set, Streams.mk.injEq]
  refine ⟨?_, rfl, rfl⟩
  funext z
  dsimp only
  split <;> rfl

theorem set_set_shut (p q : Option StreamObj) :
    ((s.shut x o log).set y p).set x q =
      { (s.set y p).set x q with log := log } := by
  refine congrArg (fun objs => Streams.mk objs s.nextId log) ?_
  funext z
  show (if z = x then q else if z = y then p else (s.shut x o log).objs z) =
    if z = x then q else if z = y then p else s.objs z
  by_cases hz : z = x
  · rw [if_pos hz, if_pos hz]
  · rw [if_neg hz, if_neg hz, shut_objs, if_neg hz]

/-- The assignment of one object to another. -/
theorem Kept.moveAssign (h : Kept s) (hxy : x ≠ y) (hx : s.objs x = some o)
    (hy : s.objs y = some o')
    (hquiet : o'.file.isSome = true → o'.core.publishes = false)
    (hdone : ∀ l, o.file = some l → l.mustPublish = false) :
    Kept { (s.set y (some { o' with stream := none })).set x
        (some { o with stream := o'.stream, core := o'.core }) with
      log := dropFile o.file s.log } := by
  have hkeeps (l) (hl : o'.file = some l) :
      StreamObj.Keeps { o with stream := o'.stream, core := o'.core } l := by
    have hold := h.keeps y o' l hy hl
    refine ⟨hold.role, fun hpub => ?_, hold.nonempty⟩
    exact absurd ((hquiet (Option.isSome_iff_exists.2 ⟨l, hl⟩)).symm.trans
      hpub) nofun
  cases hfile : o.file with
  | none =>
    refine h.handOver hxy hy (fun o₀ ho₀ => ?_) rfl hkeeps
    obtain rfl := Option.some.inj (hx.symm.trans ho₀)
    exact hfile
  | some l =>
    have hshut := h.shut hx hfile (h.orderly.closed (hdone l hfile))
      (fun m => by simp) (fun m => by simp)
    rw [← set_set_shut (o := o)]
    refine hshut.handOver hxy ?_ (fun o₀ ho₀ => ?_) rfl hkeeps
    · rw [shut_objs, if_neg hxy.symm, hy]
    · rw [shut_objs, if_pos rfl] at ho₀
      obtain rfl := Option.some.inj ho₀
      rfl

/-- The swap of what two objects have open. -/
theorem Kept.swap (h : Kept s) (hxy : x ≠ y) (hx : s.objs x = some o)
    (hy : s.objs y = some o') {f f' : FileStream} (hf : o.stream = some f)
    (hf' : o'.stream = some f')
    (hquiet : o.file.isSome = true ∨ o'.file.isSome = true →
      o.core.publishes = false ∧ o'.core.publishes = false) :
    Kept ((s.set x (some { o with stream := some f' })).set y
      (some { o' with stream := some f })) := by
  have hobjs (z) : ((s.set x (some { o with stream := some f' })).set y
      (some { o' with stream := some f })).objs z =
        if z = y then some { o' with stream := some f }
        else if z = x then some { o with stream := some f' } else s.objs z := rfl
  have hfile := file_of_stream hf
  have hfile' := file_of_stream hf'
  refine h.carry (Equiv.swap x y) (fun _ _ => (Equiv.injective _).eq_iff.1)
    ?_ ?_ rfl rfl
  · intro z o₁ l ho hl
    rw [hobjs] at ho
    by_cases hzy : z = y
    · rw [if_pos hzy] at ho
      obtain rfl := Option.some.inj ho
      rw [hzy, Equiv.swap_apply_right]
      have hl' : o.file = some l := hfile.trans hl
      have hold := h.keeps x o l hx hl'
      have hq := hquiet (Or.inl (Option.isSome_iff_exists.2 ⟨l, hl'⟩))
      refine ⟨⟨o, hx, hl'⟩, ?_, fun hpub => ?_, hold.nonempty⟩
      · exact (hold.role.trans hq.1).trans hq.2.symm
      · exact absurd (hq.2.symm.trans hpub) nofun
    · rw [if_neg hzy] at ho
      by_cases hzx : z = x
      · rw [if_pos hzx] at ho
        obtain rfl := Option.some.inj ho
        rw [hzx, Equiv.swap_apply_left]
        have hl' : o'.file = some l := hfile'.trans hl
        have hold := h.keeps y o' l hy hl'
        have hq := hquiet (Or.inr (Option.isSome_iff_exists.2 ⟨l, hl'⟩))
        refine ⟨⟨o', hy, hl'⟩, ?_, fun hpub => ?_, hold.nonempty⟩
        · exact (hold.role.trans hq.2).trans hq.1.symm
        · exact absurd (hq.1.symm.trans hpub) nofun
      · rw [if_neg hzx] at ho
        rw [Equiv.swap_apply_of_ne_of_ne hzx hzy]
        exact ⟨⟨o₁, ho, hl⟩, h.keeps _ _ _ ho hl⟩
  · intro z o₀ l ho hl
    by_cases hzx : z = x
    · subst hzx
      obtain rfl := Option.some.inj (hx.symm.trans ho)
      exact ⟨y, { o' with stream := some f }, (hobjs y).trans (if_pos rfl),
        hfile.symm.trans hl⟩
    · by_cases hzy : z = y
      · subst hzy
        obtain rfl := Option.some.inj (hy.symm.trans ho)
        refine ⟨x, { o with stream := some f' }, ?_, hfile'.symm.trans hl⟩
        rw [hobjs, if_neg hxy, if_pos rfl]
      · exact ⟨z, o₀, by rw [hobjs, if_neg hzy, if_neg hzx, ho], hl⟩

/-- One operation. -/
theorem Kept.next (h : Kept s) {op : StreamOp} (hstep : InStep b s op)
    (hn : s.next b op = some s') : Kept s' := by
  cases op with
  | construct x kind core =>
    simp only [Streams.next] at hn
    split at hn
    · rename_i hx
      obtain rfl := Option.some.inj hn
      refine h.set ?_ fun o₀ l ho => nomatch hx.symm.trans ho
      intro o₁ l ho hl
      obtain rfl := Option.some.inj ho
      exact nomatch hl
    · cases hn
  | «open» x name write ok =>
    simp only [Streams.next] at hn
    split at hn
    · rename_i o ho
      split at hn
      · rename_i hopens
        obtain rfl := Option.some.inj hn
        exact h.open ho hopens (hstep o ho hopens)
      · obtain rfl := Option.some.inj hn
        exact h
    · cases hn
  | close x =>
    simp only [Streams.next] at hn
    split at hn
    · rename_i o ho
      split at hn
      · obtain rfl := Option.some.inj hn
        exact h
      · rename_i f hf
        split at hn
        · cases hn
        · obtain rfl := Option.some.inj hn
          cases hfile : f.file with
          | some l => exact h.finish ho ((file_of_stream hf).trans hfile)
          | none =>
            have hf' : o.stream = some ⟨none⟩ := by
              rw [hf, ← hfile]
            have hlog : o.finish s.log = s.log := by
              rw [StreamObj.finish, file_of_stream hf, hfile, closeSync_eq,
                hstep o ho hf']
              rfl
            rw [hlog]
            refine h.set ?_ ?_
            · intro o₁ l ho₁ hl
              obtain rfl := Option.some.inj ho₁
              exact nomatch hl
            · intro o₀ l ho₀ hl
              obtain rfl := Option.some.inj (ho.symm.trans ho₀)
              exact nomatch ((file_of_stream hf).trans hfile).symm.trans hl
    · cases hn
  | moveConstruct x y =>
    simp only [Streams.next] at hn
    split at hn
    · rename_i o hx hy
      obtain rfl := Option.some.inj hn
      have hxy : x ≠ y := by
        rintro rfl
        exact nomatch hx.symm.trans hy
      refine h.handOver hxy hy (fun o₀ ho₀ => nomatch hx.symm.trans ho₀) rfl ?_
      intro l hl
      have hkeeps := h.keeps y o l hy hl
      have hquiet : o.core.publishes = false := 
        hstep o hy (Option.isSome_iff_exists.2 ⟨l, hl⟩)
      refine ⟨hkeeps.role, fun hpub => ?_, hkeeps.nonempty⟩
      exact absurd (hquiet.symm.trans hpub) nofun
    · cases hn
  | moveAssign x y =>
    simp only [Streams.next] at hn
    split at hn
    · rename_i o o' hx hy
      split at hn
      · cases hn
      · split at hn
        · obtain rfl := Option.some.inj hn
          exact h
        · rename_i hxy
          obtain rfl := Option.some.inj hn
          obtain ⟨hquiet, hdone⟩ := hstep hxy
          exact h.moveAssign hxy hx hy (hquiet o' hy)
            fun l hl => hdone o l hx hl
    · cases hn
  | swap x y =>
    simp only [Streams.next] at hn
    split at hn
    · rename_i o o' hx hy
      split at hn
      · cases hn
      · split at hn
        · obtain rfl := Option.some.inj hn
          exact h
        · cases hn
        · rename_i f f' hf hf'
          split at hn
          · obtain rfl := Option.some.inj hn
            exact h
          · rename_i hxy
            obtain rfl := Option.some.inj hn
            exact h.swap hxy hx hy hf hf' (hstep hxy o o' hx hy)
    · cases hn
  | destroy x =>
    simp only [Streams.next] at hn
    split at hn
    · rename_i o ho
      split at hn
      · rename_i hfile
        obtain rfl := Option.some.inj hn
        refine h.set (fun _ _ hnone => nomatch hnone) fun o₀ l ho₀ hl => ?_
        obtain rfl := Option.some.inj (ho.symm.trans ho₀)
        exact nomatch hfile.symm.trans hl
      · rename_i l hfile
        split at hn
        · cases hn
        · obtain rfl := Option.some.inj hn
          rw [← set_shut (o := o)]
          refine (h.finish ho hfile).set (fun _ _ hnone => nomatch hnone)
            fun o₀ m ho₀ hm => ?_
          rw [shut_objs, if_pos rfl] at ho₀
          obtain rfl := Option.some.inj ho₀
          exact nomatch hm
    · cases hn

/-- In every run whose operations keep names and files together, every managed
file opened for writing is published once it is closed, once, and under its
name. -/
theorem published_once {s : Streams}
    (h : (streamProgram b).Reach (InStep b) s) : PublishedOnce s := by
  have hkept : Kept s := by
    refine h.invariant (P := Kept) ?_ ?_
    · rintro _ rfl
      exact Kept.start
    · exact fun _ _ _ hs hok hn => hs.next hok hn
  exact ⟨hkept.ended, hkept.orderly.published, hkept.orderly.once,
    hkept.orderly.named⟩

/-! ## A stream that is closed, and one that is moved -/

/-- A build with the descriptors, where every path is the producer's. -/
def StreamBuild.managing : StreamBuild where
  hasStdFstreamFd := true
  managed _ := true

/-- The core of a producer. -/
def StreamCore.producing : StreamCore where
  ctx := true
  initialized := true
  isProd := true
  isCons := false

/-- A stream is opened and closed. -/
def plainUse : List StreamOp :=
  [.construct 0 .ofstream .producing, .open 0 ['f'] true true, .close 0,
    .destroy 0]

theorem published_once_plain :
    PublishedOnce
      (((streamProgram .managing).replay .fresh plainUse).getD .fresh) := by
  have hmeets : (streamProgram .managing).Meets (InStep .managing) .fresh
      plainUse := by
    refine ⟨True.intro, ?_, ?_, True.intro, True.intro⟩
    · rintro _ ⟨⟩ _ _
      rfl
    · rintro _ ⟨⟩ hf
      exact nomatch hf
  exact published_once ⟨.fresh, rfl, Lts.Run.of_replay hmeets rfl⟩

/-- A stream is moved while it has a file open, and then closed. -/
def movedUse : List StreamOp :=
  [.construct 0 .ofstream .producing, .open 0 ['f'] true true,
    .moveConstruct 1 0, .close 1]

/-- The stream that was moved publishes the empty name. -/
theorem moved_publishes_nothing :
    ¬ ∀ (b : StreamBuild) (s : Streams),
      (streamProgram b).Reach (fun _ _ => True) s → PublishedOnce s := by
  intro h
  have hreplay : (streamProgram .managing).replay .fresh movedUse = some
      (((streamProgram .managing).replay .fresh movedUse).getD .fresh) := rfl
  have hlast := h .managing _ ⟨.fresh, rfl, Lts.Run.replayed hreplay⟩
  obtain ⟨_, _, _, _, hne⟩ := hlast.named [] _ (List.mem_cons_self ..)
  exact hne rfl

end Dyad
