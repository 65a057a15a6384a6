import Dyad.Service.Pool

/-!
# The worker pool loses no item and no wake-up

However the reactor, the workers and the watcher interleave, an accepted item
is in one place: in the work queue, with a worker, in the completion queue, in
the batch the watcher is answering, or answered. The two queues are linked
lists whose pointers fit, and each holds what was put in last, in the order in
which it was put in: the work queue the last of the accepted items, the
completion queue, behind the batch, the last of the pushed ones. While the
completion queue holds something, a byte is in the pipe, or a worker is about to
write one, or the watcher has yet to take the queue.

The invariant names the place of every item by one function (`Placed`), so
that no item can be in two. A step moves one item to another place, or, when
the watcher takes the completion queue, all the items of that place at once.
-/

namespace Dyad

open Conc Posix

/-- Where an item can be. -/
inductive Place
  | work
  | worker (w : Nat)
  | completion
  | batch
  | finished
deriving DecidableEq

namespace Pool

/-- Item `i` is at a place. It is finished once its response has been sent and
it has been destroyed. -/
def At (s : Pool) (i : Nat) : Place → Prop
  | .work => ∃ l, s.work.Holds s.next l ∧ i ∈ l
  | .worker w => (s.worker w).item = some i
  | .completion => ∃ l, s.completion.Holds s.next l ∧ i ∈ l
  | .batch => ∃ l, Chain s.next s.reactor.batch l ∧ i ∈ l
  | .finished => s.responses i ≠ [] ∧ 0 < s.destroyed i

end Pool

/-- What the pool promises of a state. -/
structure PoolSafe (s : Pool) : Prop where
  onePlace : ∀ i, i < s.accepted → ∃ p, s.At i p ∧ ∀ p', s.At i p' → p' = p
  onlyAccepted : ∀ i p, s.At i p → i < s.accepted
  finishedOnce : ∀ i, (s.responses i).length ≤ 1 ∧ s.destroyed i ≤ 1
  workQueue : ∃ l, s.work.Holds s.next l ∧ l <:+ List.range s.accepted
  completionQueue : ∃ b l, Chain s.next s.reactor.batch b ∧
    s.completion.Holds s.next l ∧ b ++ l <:+ s.pushed
  wakeUp : s.completion.head ≠ none →
    0 < s.completionPipe ∨ (∃ w, s.worker w = .writing) ∨
      s.reactor = .draining ∨ s.reactor = .taking

/-- The items are where `place` says, in the queues and the batch as listed. -/
structure Placed (place : Nat → Option Place) (wl cl bl : List Nat)
    (s : Pool) : Prop where
  work : s.work.Holds s.next wl
  completion : s.completion.Holds s.next cl
  batch : Chain s.next s.reactor.batch bl
  inWork : ∀ i, i ∈ wl ↔ place i = some .work
  inWorker : ∀ w i, (s.worker w).item = some i ↔ place i = some (.worker w)
  inCompletion : ∀ i, i ∈ cl ↔ place i = some .completion
  inBatch : ∀ i, i ∈ bl ↔ place i = some .batch
  accepted : ∀ i, (place i).isSome = true ↔ i < s.accepted
  answered : ∀ i, (s.responses i).length =
    if place i = some .finished then 1 else 0
  destroyed : ∀ i, s.destroyed i = if place i = some .finished then 1 else 0
  ordered : wl <:+ List.range s.accepted
  pushed : bl ++ cl <:+ s.pushed

/-- Nothing sleeps on a completion queue with something in it. -/
def Woken (s : Pool) : Prop :=
  s.completion.head ≠ none →
    0 < s.completionPipe ∨ (∃ w, s.worker w = .writing) ∨
      s.reactor = .draining ∨ s.reactor = .taking

/-- The invariant of the pool. -/
def PoolInv (s : Pool) : Prop :=
  (∃ place wl cl bl, Placed place wl cl bl s) ∧ Woken s

/-! ## One item moves -/

section

variable {place : Nat → Option Place} {i j : Nat} {o : Option Place}
  {p q : Place}

theorem place_new : Function.update place i (some p) j = some p ↔
    j = i ∨ place j = some p := by
  by_cases hj : j = i
  · subst hj
    simp
  · rw [Function.update_of_ne hj]
    simp [hj]

theorem place_old (hi : place i = some q) (hpq : p ≠ q) :
    Function.update place i (some p) j = some q ↔
      j ≠ i ∧ place j = some q := by
  by_cases hj : j = i
  · subst hj
    simp [hpq]
  · rw [Function.update_of_ne hj]
    simp [hj]

theorem place_other (hi : place i = o) (hp : q ≠ p) (ho : o ≠ some q) :
    Function.update place i (some p) j = some q ↔ place j = some q := by
  by_cases hj : j = i
  · subst hj
    rw [Function.update_self, hi]
    simp [Ne.symm hp, ho]
  · rw [Function.update_of_ne hj]

theorem place_isSome (hi : (place i).isSome = true) :
    (Function.update place i (some p) j).isSome = (place j).isSome := by
  by_cases hj : j = i
  · subst hj
    rw [Function.update_self, hi]
    rfl
  · rw [Function.update_of_ne hj]

end

namespace Placed

variable {place : Nat → Option Place} {wl cl bl : List Nat} {s s' : Pool}

/-- A step that moves no item. -/
theorem frame (h : Placed place wl cl bl s) (hnext : s'.next = s.next)
    (hwork : s'.work = s.work) (hcomp : s'.completion = s.completion)
    (hbatch : s'.reactor.batch = s.reactor.batch)
    (hworker : ∀ w, (s'.worker w).item = (s.worker w).item)
    (hacc : s'.accepted = s.accepted) (hpushed : s'.pushed = s.pushed)
    (hresp : s'.responses = s.responses)
    (hdest : s'.destroyed = s.destroyed) : Placed place wl cl bl s' where
  work := by rw [hwork, hnext]; exact h.work
  completion := by rw [hcomp, hnext]; exact h.completion
  batch := by rw [hbatch, hnext]; exact h.batch
  inWork := h.inWork
  inWorker w i := by rw [hworker]; exact h.inWorker w i
  inCompletion := h.inCompletion
  inBatch := h.inBatch
  accepted i := by rw [hacc]; exact h.accepted i
  answered i := by rw [hresp]; exact h.answered i
  destroyed i := by rw [hdest]; exact h.destroyed i
  ordered := by rw [hacc]; exact h.ordered
  pushed := by rw [hpushed]; exact h.pushed

/-- A worker goes on with the item it has, or without one. -/
theorem setWorker (h : Placed place wl cl bl s) {w : Nat} {p : Worker}
    (hp : p.item = (s.worker w).item) :
    Placed place wl cl bl (s.setWorker w p) := by
  refine h.frame rfl rfl rfl rfl (fun v => ?_) rfl rfl rfl rfl
  by_cases hv : v = w
  · subst hv
    rw [Pool.setWorker_worker, Function.update_self, hp]
  · rw [Pool.setWorker_worker, Function.update_of_ne hv]

theorem broadcast (h : Placed place wl cl bl s) :
    Placed place wl cl bl s.broadcast := by
  refine h.frame rfl rfl rfl rfl (fun w => ?_) rfl rfl rfl rfl
  rw [Pool.broadcast]
  dsimp only
  split
  · next hw => rw [hw]; rfl
  · rfl

theorem signal {cfg : PoolConfig} (h : Placed place wl cl bl s)
    {o : Option Nat} (hs : s.signal cfg o = some s') :
    Placed place wl cl bl s' := by
  cases o with
  | none =>
    rw [Pool.signal, Option.ite_none_right_eq_some] at hs
    obtain rfl := Option.some.inj hs.2
    exact h
  | some w =>
    rw [Pool.signal, Option.ite_none_right_eq_some] at hs
    obtain ⟨⟨-, hw⟩, hs⟩ := hs
    obtain rfl := Option.some.inj hs
    exact h.setWorker (by rw [hw]; rfl)

/-- The next item has no place yet. -/
theorem fresh (h : Placed place wl cl bl s) : place s.accepted = none := by
  have := (h.accepted s.accepted).not.2 (Nat.lt_irrefl _)
  simpa using this

/-! The places exclude each other. -/

theorem work_not_completion (h : Placed place wl cl bl s) (i : Nat)
    (hi : i ∈ wl) : i ∉ cl := fun hi' => by
  have hw := (h.inWork i).1 hi
  rw [(h.inCompletion i).1 hi'] at hw
  exact absurd hw (by simp)

theorem work_not_batch (h : Placed place wl cl bl s) (i : Nat)
    (hi : i ∈ wl) : i ∉ bl := fun hi' => by
  have hw := (h.inWork i).1 hi
  rw [(h.inBatch i).1 hi'] at hw
  exact absurd hw (by simp)

theorem completion_not_batch (h : Placed place wl cl bl s) (i : Nat)
    (hi : i ∈ cl) : i ∉ bl := fun hi' => by
  have hc := (h.inCompletion i).1 hi
  rw [(h.inBatch i).1 hi'] at hc
  exact absurd hc (by simp)

/-- An item at another place is not in the lists. -/
theorem not_mem (h : Placed place wl cl bl s) {i : Nat} {o : Option Place}
    (hi : place i = o) (hw : o ≠ some .work) (hc : o ≠ some .completion)
    (hb : o ≠ some .batch) : i ∉ wl ∧ i ∉ cl ∧ i ∉ bl := by
  refine ⟨fun hm => hw ?_, fun hm => hc ?_, fun hm => hb ?_⟩
  · rw [← hi, (h.inWork i).1 hm]
  · rw [← hi, (h.inCompletion i).1 hm]
  · rw [← hi, (h.inBatch i).1 hm]

/-! ## The moves -/

theorem enqueue (h : Placed place wl cl bl s) (item : WorkItem) :
    Placed (Function.update place s.accepted (some .work))
      (wl ++ [s.accepted]) cl bl (s.enqueue item) := by
  have hfresh := h.fresh
  obtain ⟨hw, hc, hb⟩ := h.not_mem hfresh (by simp) (by simp) (by simp)
  refine ⟨h.work.push hw, h.work.apart_pushNext h.completion hc
    h.work_not_completion, h.work.chain_pushNext h.batch hb
    h.work_not_batch, fun i => ?_, fun w i => ?_, fun i => ?_, fun i => ?_,
    fun i => ?_, fun i => ?_, fun i => ?_, ?_, h.pushed⟩
  · rw [List.mem_append, List.mem_singleton, h.inWork, place_new, or_comm]
  · rw [place_other hfresh (by simp) (by simp)]
    exact h.inWorker w i
  · rw [place_other hfresh (by simp) (by simp)]
    exact h.inCompletion i
  · rw [place_other hfresh (by simp) (by simp)]
    exact h.inBatch i
  · show _ ↔ i < s.accepted + 1
    by_cases hi : i = s.accepted
    · subst hi
      simp
    · rw [Function.update_of_ne hi, h.accepted i]
      omega
  · simp only [place_other hfresh (p := .work) (q := .finished)
      (by simp) (by simp)]
    exact h.answered i
  · simp only [place_other hfresh (p := .work) (q := .finished)
      (by simp) (by simp)]
    exact h.destroyed i
  · show _ <:+ List.range (s.accepted + 1)
    rw [List.range_succ]
    exact List.suffix_append_self_iff.2 h.ordered

/-- A worker without an item takes the first one. -/
theorem takeWork {i w : Nat} (h : Placed place (i :: wl) cl bl s)
    (hw : (s.worker w).item = none) :
    Placed (Function.update place i (some (.worker w))) wl cl bl
      ({ s with work := s.work.pop s.next i }.setWorker w (.took i)) := by
  have hi : place i = some .work := (h.inWork i).1 (by simp)
  have hnot : i ∉ wl := (List.nodup_cons.1 h.work.chain.nodup).1
  refine ⟨h.work.pop, h.completion, h.batch, fun j => ?_, fun v j => ?_,
    fun j => ?_, fun j => ?_, fun j => ?_, fun j => ?_, fun j => ?_,
    (List.suffix_cons i wl).trans h.ordered, h.pushed⟩
  · rw [place_old hi (by simp), ← h.inWork, List.mem_cons]
    constructor
    · intro hj
      exact ⟨fun hji => hnot (hji ▸ hj), Or.inr hj⟩
    · rintro ⟨hji, hj⟩
      exact hj.resolve_left hji
  · rw [Pool.setWorker_worker]
    by_cases hv : v = w
    · subst hv
      rw [Function.update_self, place_new]
      have hnone : place j ≠ some (.worker v) := by
        rw [Ne, ← h.inWorker, hw]
        simp
      simp [Worker.item, hnone, eq_comm]
    · rw [Function.update_of_ne hv, place_other hi (by simp [hv]) (by simp)]
      exact h.inWorker v j
  · rw [place_other hi (by simp) (by simp)]
    exact h.inCompletion j
  · rw [place_other hi (by simp) (by simp)]
    exact h.inBatch j
  · rw [place_isSome (by rw [hi]; rfl)]
    exact h.accepted j
  · simp only [place_other hi (p := .worker w) (q := .finished)
      (by simp) (by simp)]
    exact h.answered j
  · simp only [place_other hi (p := .worker w) (q := .finished)
      (by simp) (by simp)]
    exact h.destroyed j

theorem process {i w : Nat} (h : Placed place wl cl bl s)
    (hw : s.worker w = .took i) (item : WorkItem) :
    Placed place wl cl bl (s.process w i item) := by
  have hi : place i = some (.worker w) := (h.inWorker w i).1 (by rw [hw]; rfl)
  obtain ⟨hwl, hcl, hbl⟩ := h.not_mem hi (by simp) (by simp) (by simp)
  have hs : Placed place wl cl bl { s with
      next := Function.update s.next i none
      item := Function.update s.item i item } :=
    ⟨h.work.update hwl, h.completion.update hcl, h.batch.update hbl, h.inWork,
      h.inWorker, h.inCompletion, h.inBatch, h.accepted, h.answered,
      h.destroyed, h.ordered, h.pushed⟩
  exact hs.setWorker (by rw [hw]; rfl)

/-- A worker hands over its item. -/
theorem push {i w : Nat} (h : Placed place wl cl bl s)
    (hw : (s.worker w).item = some i) :
    Placed (Function.update place i (some .completion)) wl (cl ++ [i]) bl
      (s.push w i) := by
  have hi : place i = some (.worker w) := (h.inWorker w i).1 hw
  obtain ⟨hwl, hcl, hbl⟩ := h.not_mem hi (by simp) (by simp) (by simp)
  refine ⟨h.completion.apart_pushNext h.work hwl
    (fun j hj hj' => h.work_not_completion j hj' hj),
    h.completion.push hcl, h.completion.chain_pushNext h.batch hbl
    h.completion_not_batch, fun j => ?_, fun v j => ?_, fun j => ?_,
    fun j => ?_, fun j => ?_, fun j => ?_, fun j => ?_, h.ordered, ?_⟩
  · rw [place_other hi (by simp) (by simp)]
    exact h.inWork j
  · rw [Pool.push, Pool.setWorker_worker]
    by_cases hv : v = w
    · subst hv
      rw [Function.update_self, place_old hi (by simp), ← h.inWorker, hw]
      simp [Worker.item, eq_comm]
    · rw [Function.update_of_ne hv,
        place_other hi (by simp) (by simp [Ne.symm hv])]
      exact h.inWorker v j
  · rw [List.mem_append, List.mem_singleton, h.inCompletion, place_new,
      or_comm]
  · rw [place_other hi (by simp) (by simp)]
    exact h.inBatch j
  · rw [place_isSome (by rw [hi]; rfl)]
    exact h.accepted j
  · simp only [place_other hi (p := .completion) (q := .finished)
      (by simp) (by simp)]
    exact h.answered j
  · simp only [place_other hi (p := .completion) (q := .finished)
      (by simp) (by simp)]
    exact h.destroyed j
  · rw [← List.append_assoc]
    exact List.suffix_append_self_iff.2 h.pushed

/-- The watcher takes the whole completion queue. -/
theorem take (h : Placed place wl cl bl s) (hr : s.reactor = .taking) :
    Placed (fun i => if place i = some .completion then some .batch
      else place i) wl [] cl s.take := by
  have hbl : bl = [] := by
    have hb := h.batch
    rw [hr] at hb
    exact hb.unique rfl
  subst hbl
  have hother : ∀ {p : Place} {i : Nat}, p ≠ .completion → p ≠ .batch →
      ((if place i = some .completion then some .batch else place i) =
        some p ↔ place i = some p) := by
    intro p i hc hb
    split
    · next hi => simp [hi, Ne.symm hc, Ne.symm hb]
    · rfl
  refine ⟨h.work, Fifo.Holds.of_empty, h.completion.chain, fun i => ?_,
    fun w i => ?_, fun i => ?_, fun i => ?_, fun i => ?_, fun i => ?_,
    fun i => ?_, h.ordered, ?_⟩
  · rw [hother (by simp) (by simp)]
    exact h.inWork i
  · rw [hother (by simp) (by simp)]
    exact h.inWorker w i
  · split
    · simp
    · next hi => simp [hi]
  · have hb : place i ≠ some .batch := by
      rw [Ne, ← h.inBatch]
      simp
    rw [h.inCompletion]
    split
    · next hi => simp [hi]
    · next hi => simp [hi, hb]
  · refine Iff.trans ?_ (h.accepted i)
    split
    · next hi => simp [hi]
    · rfl
  · simp only [hother (p := .finished) (by simp) (by simp)]
    exact h.answered i
  · simp only [hother (p := .finished) (by simp) (by simp)]
    exact h.destroyed i
  · rw [List.append_nil]
    exact h.pushed

/-- The watcher answers the first item of its batch. -/
theorem complete {i : Nat} (h : Placed place wl cl bl s)
    (hr : s.reactor = .completing (some i)) :
    ∃ bl', Placed (Function.update place i (some .finished)) wl cl bl'
      (s.complete i) := by
  have hb := h.batch
  rw [hr] at hb
  cases bl with
  | nil => exact absurd (show some i = none from hb) (by simp)
  | cons j bl =>
    obtain ⟨hij, hbl⟩ := hb
    obtain rfl := Option.some.inj hij
    have hi : place i = some .batch := (h.inBatch i).1 (by simp)
    have hnot : i ∉ bl := (List.nodup_cons.1 h.batch.nodup).1
    have hwl : i ∉ wl := fun hm => h.work_not_batch i hm (by simp)
    have hcl : i ∉ cl := fun hm => h.completion_not_batch i hm (by simp)
    refine ⟨bl, h.work.update hwl, h.completion.update hcl, hbl.update hnot,
      fun j => ?_, fun w j => ?_, fun j => ?_, fun j => ?_, fun j => ?_,
      fun j => ?_, fun j => ?_, h.ordered,
      (List.suffix_cons i (bl ++ cl)).trans h.pushed⟩
    · rw [place_other hi (by simp) (by simp)]
      exact h.inWork j
    · rw [place_other hi (by simp) (by simp)]
      exact h.inWorker w j
    · rw [place_other hi (by simp) (by simp)]
      exact h.inCompletion j
    · rw [place_old hi (by simp), ← h.inBatch, List.mem_cons]
      constructor
      · intro hj
        exact ⟨fun hji => hnot (hji ▸ hj), Or.inr hj⟩
      · rintro ⟨hji, hj⟩
        exact hj.resolve_left hji
    · rw [place_isSome (by rw [hi]; rfl)]
      exact h.accepted j
    · show (Function.update s.responses i _ j).length = _
      by_cases hj : j = i
      · subst hj
        have hnil := h.answered j
        rw [hi] at hnil
        rw [Function.update_self, Function.update_self, List.length_append,
          hnil]
        rfl
      · rw [Function.update_of_ne hj, Function.update_of_ne hj]
        exact h.answered j
    · show Function.update s.destroyed i _ j = _
      by_cases hj : j = i
      · subst hj
        have hnil := h.destroyed j
        rw [hi] at hnil
        rw [Function.update_self, Function.update_self, hnil]
        rfl
      · rw [Function.update_of_ne hj, Function.update_of_ne hj]
        exact h.destroyed j

end Placed

/-! ## The wake-up -/

section

variable {cfg : PoolConfig} {s s' : Pool}

/-- A step that takes no byte out of the pipe and no writer from it, and that
the watcher does not make. -/
theorem Woken.frame (h : Woken s) (hc : s'.completion = s.completion)
    (hp : s'.completionPipe = s.completionPipe)
    (hw : ∀ w, s.worker w = .writing → s'.worker w = .writing)
    (hr : s.reactor = .draining ∨ s.reactor = .taking →
      s'.reactor = .draining ∨ s'.reactor = .taking) : Woken s' := by
  intro hne
  rw [hc] at hne
  rw [hp]
  rcases h hne with h | ⟨w, h⟩ | h
  · exact Or.inl h
  · exact Or.inr (Or.inl ⟨w, hw w h⟩)
  · exact Or.inr (Or.inr (hr h))

theorem Woken.setWorker {w : Nat} {p : Worker} (h : Woken s)
    (hw : s.worker w ≠ .writing) : Woken (s.setWorker w p) := by
  refine h.frame rfl rfl (fun v hv => ?_) id
  have hvw : v ≠ w := fun hvw => hw (hvw ▸ hv)
  rw [Pool.setWorker_worker, Function.update_of_ne hvw, hv]

theorem Woken.signal {o : Option Nat} (h : Woken s)
    (hs : s.signal cfg o = some s') : Woken s' := by
  cases o with
  | none =>
    rw [Pool.signal, Option.ite_none_right_eq_some] at hs
    obtain rfl := Option.some.inj hs.2
    exact h
  | some w =>
    rw [Pool.signal, Option.ite_none_right_eq_some] at hs
    obtain ⟨⟨-, hw⟩, hs⟩ := hs
    obtain rfl := Option.some.inj hs
    exact h.setWorker (by rw [hw]; simp)

theorem Woken.broadcast (h : Woken s) : Woken s.broadcast := by
  refine h.frame rfl rfl (fun w hw => ?_) id
  rw [Pool.broadcast]
  dsimp only
  rw [hw]
  rfl

theorem PoolInv.look (h : PoolInv s) {w : Nat} (hw : s.worker w = .locking) :
    PoolInv (s.look w) := by
  obtain ⟨⟨place, wl, cl, bl, hp⟩, hwoken⟩ := h
  have hnone : (s.worker w).item = none := by rw [hw]; rfl
  have hne : s.worker w ≠ .writing := by rw [hw]; simp
  cases hh : s.work.head with
  | some i =>
    obtain ⟨wl', rfl⟩ := hp.work.head_eq_some hh
    rw [Pool.look, hh]
    refine ⟨⟨_, _, _, _, hp.takeWork hnone⟩, ?_⟩
    exact Woken.setWorker (s := { s with work := s.work.pop s.next i })
      (hwoken.frame rfl rfl (fun _ h => h) id) hne
  | none =>
    rw [Pool.look, hh]
    dsimp only
    split
    · exact ⟨⟨_, _, _, _, hp.setWorker (by rw [hw]; rfl)⟩, hwoken.setWorker hne⟩
    · exact ⟨⟨_, _, _, _, hp.setWorker (by rw [hw]; rfl)⟩, hwoken.setWorker hne⟩

theorem PoolInv.write (h : PoolInv s) {w : Nat} {x : Outcome}
    (hw : s.worker w = .writing) (hs : s.write cfg w x = some s') :
    PoolInv s' := by
  obtain ⟨⟨place, wl, cl, bl, hp⟩, hwoken⟩ := h
  cases x with
  | ok =>
    rw [Pool.write, Option.ite_none_right_eq_some] at hs
    obtain rfl := Option.some.inj hs.2
    have hp' : Placed place wl cl bl
        { s with completionPipe := s.completionPipe + 1 } :=
      hp.frame rfl rfl rfl rfl (fun _ => rfl) rfl rfl rfl rfl
    have hitem : Worker.item .locking = (s.worker w).item := by rw [hw]; rfl
    exact ⟨⟨_, _, _, _, hp'.setWorker hitem⟩,
      fun _ => Or.inl (Nat.succ_pos _)⟩
  | fail e =>
    rw [Pool.write] at hs
    split at hs
    · obtain rfl := Option.some.inj hs
      exact ⟨⟨_, _, _, _, hp⟩, hwoken⟩
    · -- the pipe is full: a byte is in it
      rw [Option.ite_none_right_eq_some] at hs
      obtain ⟨⟨-, hfull⟩, hs⟩ := hs
      obtain rfl := Option.some.inj hs
      refine ⟨⟨_, _, _, _, hp.setWorker (by rw [hw]; rfl)⟩,
        fun _ => Or.inl ?_⟩
      show 0 < s.completionPipe
      rw [hfull]
      exact cfg.capacity_pos
  | short n => exact absurd hs (by simp [Pool.write])

theorem PoolInv.read (h : PoolInv s) {x : Outcome}
    (hr : s.reactor = .draining) (hs : s.read x = some s') :
    PoolInv s' := by
  obtain ⟨⟨place, wl, cl, bl, hp⟩, hwoken⟩ := h
  have hbatch : s.reactor.batch = none := by rw [hr]; rfl
  have htaking : PoolInv { s with reactor := .taking } :=
    ⟨⟨_, _, _, _, hp.frame rfl rfl rfl hbatch.symm (fun _ => rfl) rfl rfl rfl rfl⟩,
      fun _ => Or.inr (Or.inr (Or.inr rfl))⟩
  cases x with
  | ok =>
    rw [Pool.read] at hs
    split at hs
    · obtain rfl := Option.some.inj hs
      exact htaking
    · obtain rfl := Option.some.inj hs
      exact ⟨⟨_, _, _, _, hp.frame rfl rfl rfl rfl (fun _ => rfl) rfl rfl rfl rfl⟩,
        fun _ => Or.inr (Or.inr (Or.inl hr))⟩
  | fail e =>
    rw [Pool.read, Option.ite_none_right_eq_some] at hs
    obtain rfl := Option.some.inj hs.2
    exact htaking
  | short n => exact absurd hs (by simp [Pool.read])

/-- The reactor moves between two states without a batch, neither of which has
to do with the pipe. -/
theorem PoolInv.setReactor (h : PoolInv s) {r : Reactor}
    (hb : r.batch = s.reactor.batch)
    (hr : s.reactor = .draining ∨ s.reactor = .taking →
      r = .draining ∨ r = .taking) : PoolInv { s with reactor := r } := by
  obtain ⟨⟨place, wl, cl, bl, hp⟩, hwoken⟩ := h
  exact ⟨⟨_, _, _, _, hp.frame rfl rfl rfl hb (fun _ => rfl) rfl rfl rfl rfl⟩,
    hwoken.frame rfl rfl (fun _ h => h) hr⟩

theorem PoolInv.stop (h : PoolInv s) (hr : s.reactor = .idle) :
    PoolInv (s.stop cfg) := by
  rw [Pool.stop]
  split
  · have hj : PoolInv { s with reactor := .joining 0 } :=
      h.setReactor (by rw [hr]; rfl) (by rw [hr]; simp)
    obtain ⟨⟨place, wl, cl, bl, hp⟩, hwoken⟩ := hj
    refine ⟨⟨_, _, _, _, Placed.broadcast
      (hp.frame rfl rfl rfl rfl (fun _ => rfl) rfl rfl rfl rfl)⟩, ?_⟩
    exact Woken.broadcast (hwoken.frame rfl rfl (fun _ h => h) id)
  · exact h.setReactor (by rw [hr]; rfl) (by rw [hr]; simp)

/-- Every step keeps the invariant. -/
theorem PoolInv.step (h : PoolInv s) {l : PoolLabel}
    (hs : s.step cfg l = some s') : PoolInv s' := by
  cases l with
  | enqueue item o =>
    simp only [Pool.step, Option.ite_none_right_eq_some] at hs
    obtain ⟨⟨place, wl, cl, bl, hp⟩, hwoken⟩ := h
    refine ⟨⟨_, _, _, _, (hp.enqueue item).signal hs.2⟩, ?_⟩
    exact Woken.signal (s := s.enqueue item)
      (hwoken.frame rfl rfl (fun _ h => h) id) hs.2
  | wakeUp w =>
    simp only [Pool.step, Option.ite_none_right_eq_some] at hs
    obtain ⟨⟨-, hw⟩, hs⟩ := hs
    obtain rfl := Option.some.inj hs
    obtain ⟨⟨place, wl, cl, bl, hp⟩, hwoken⟩ := h
    exact ⟨⟨_, _, _, _, hp.setWorker (by rw [hw]; rfl)⟩,
      hwoken.setWorker (by rw [hw]; simp)⟩
  | look w =>
    simp only [Pool.step, Option.ite_none_right_eq_some] at hs
    obtain ⟨⟨-, hw⟩, hs⟩ := hs
    obtain rfl := Option.some.inj hs
    exact h.look hw
  | process w item =>
    simp only [Pool.step] at hs
    split at hs
    · next i hw =>
      obtain rfl := Option.some.inj hs
      obtain ⟨⟨place, wl, cl, bl, hp⟩, hwoken⟩ := h
      refine ⟨⟨_, _, _, _, hp.process hw item⟩, ?_⟩
      exact Woken.setWorker (hwoken.frame rfl rfl (fun _ h => h) id)
        (by rw [hw]; simp)
    · exact absurd hs (by simp)
  | push w =>
    simp only [Pool.step] at hs
    split at hs
    · next i hw =>
      obtain rfl := Option.some.inj hs
      obtain ⟨⟨place, wl, cl, bl, hp⟩, hwoken⟩ := h
      refine ⟨⟨_, _, _, _, hp.push (by rw [hw]; rfl)⟩, fun _ => ?_⟩
      exact Or.inr (Or.inl ⟨w, Function.update_self ..⟩)
    · exact absurd hs (by simp)
  | write w x =>
    simp only [Pool.step, Option.ite_none_right_eq_some] at hs
    exact h.write hs.1 hs.2
  | callback =>
    simp only [Pool.step, Option.ite_none_right_eq_some] at hs
    obtain ⟨⟨hr, -⟩, hs⟩ := hs
    obtain rfl := Option.some.inj hs
    exact h.setReactor (by rw [hr]; rfl) fun _ => Or.inl rfl
  | read x =>
    simp only [Pool.step, Option.ite_none_right_eq_some] at hs
    exact h.read hs.1 hs.2
  | take =>
    simp only [Pool.step, Option.ite_none_right_eq_some] at hs
    obtain ⟨hr, hs⟩ := hs
    obtain rfl := Option.some.inj hs
    obtain ⟨⟨place, wl, cl, bl, hp⟩, hwoken⟩ := h
    exact ⟨⟨_, _, _, _, hp.take hr⟩, fun hne => absurd rfl hne⟩
  | complete =>
    simp only [Pool.step] at hs
    split at hs
    · next i hr =>
      obtain rfl := Option.some.inj hs
      obtain ⟨⟨place, wl, cl, bl, hp⟩, hwoken⟩ := h
      obtain ⟨bl', hp'⟩ := hp.complete hr
      exact ⟨⟨_, _, _, _, hp'⟩, hwoken.frame rfl rfl (fun _ h => h)
        (by rw [hr]; simp)⟩
    · next hr =>
      obtain rfl := Option.some.inj hs
      exact h.setReactor (by rw [hr]; rfl) (by rw [hr]; simp)
    · exact absurd hs (by simp)
  | stop =>
    simp only [Pool.step, Option.ite_none_right_eq_some] at hs
    obtain ⟨hr, hs⟩ := hs
    obtain rfl := Option.some.inj hs
    exact h.stop hr
  | join =>
    simp only [Pool.step] at hs
    split at hs
    · next k hr =>
      have hset : ∀ r : Reactor, r.batch = none →
          PoolInv { s with reactor := r } := fun r hb =>
        h.setReactor (by rw [hr]; exact hb) (by rw [hr]; simp)
      split at hs
      · rw [Option.ite_none_right_eq_some] at hs
        obtain rfl := Option.some.inj hs.2
        exact hset _ rfl
      · obtain rfl := Option.some.inj hs
        exact hset _ rfl
    · exact absurd hs (by simp)

theorem PoolStarted.inv (h : PoolStarted s) : PoolInv s := by
  refine ⟨⟨fun _ => none, [], [], [], ?_⟩, fun hne => ?_⟩
  · refine ⟨?_, ?_, ?_, by simp, fun w i => ?_, by simp, by simp, by simp [h.accepted],
      fun i => ?_, fun i => ?_, List.nil_suffix, List.nil_suffix⟩
    · rw [h.work]
      exact Fifo.Holds.of_empty
    · rw [h.completion]
      exact Fifo.Holds.of_empty
    · rw [h.reactor]
      rfl
    · rw [h.worker]
      simp [Worker.item]
    · simp [h.responses]
    · simp [h.destroyed]
  · rw [h.completion] at hne
    exact absurd rfl hne

theorem pool_inv {ok : Pool → PoolLabel → Prop}
    (h : (pool cfg).Reach ok s) : PoolInv s :=
  h.invariant (fun _ => PoolStarted.inv) fun _ _ _ hi _ hn => hi.step hn

/-- What the placing says of an item is where it is. -/
theorem Placed.at_iff {place : Nat → Option Place} {wl cl bl : List Nat}
    (h : Placed place wl cl bl s) {i : Nat} {p : Place} :
    s.At i p ↔ place i = some p := by
  cases p with
  | work =>
    rw [← h.inWork]
    refine ⟨fun ⟨l, hl, hi⟩ => ?_, fun hi => ⟨wl, h.work, hi⟩⟩
    rwa [h.work.unique hl]
  | worker w => exact h.inWorker w i
  | completion =>
    rw [← h.inCompletion]
    refine ⟨fun ⟨l, hl, hi⟩ => ?_, fun hi => ⟨cl, h.completion, hi⟩⟩
    rwa [h.completion.unique hl]
  | batch =>
    rw [← h.inBatch]
    refine ⟨fun ⟨l, hl, hi⟩ => ?_, fun hi => ⟨bl, h.batch, hi⟩⟩
    rwa [h.batch.unique hl]
  | finished =>
    have hr := h.answered i
    have hd := h.destroyed i
    split at hr
    · next hp =>
      rw [if_pos hp] at hd
      refine ⟨fun _ => hp, fun _ => ⟨fun hnil => ?_, by omega⟩⟩
      rw [hnil] at hr
      exact absurd hr (by simp)
    · next hp =>
      rw [if_neg hp] at hd
      refine ⟨fun hi => ?_, fun hi => absurd hi hp⟩
      exact absurd hi.2 (by omega)

/-- In every state of every run of the pool, each accepted item is in one
place, the queues hold in order what went in last, and the watcher will see what
is finished. -/
theorem pool_safe (h : (pool cfg).Reach (fun _ _ => True) s) :
    PoolSafe s := by
  obtain ⟨⟨place, wl, cl, bl, hp⟩, hwoken⟩ := pool_inv h
  refine ⟨fun i hi => ?_, fun i p hi => ?_, fun i => ⟨?_, ?_⟩,
    ⟨wl, hp.work, hp.ordered⟩, ⟨bl, cl, hp.batch, hp.completion, hp.pushed⟩,
    hwoken⟩
  · obtain ⟨p, hpl⟩ := Option.isSome_iff_exists.1 ((hp.accepted i).2 hi)
    refine ⟨p, hp.at_iff.2 hpl, fun p' hp' => ?_⟩
    have hpl' := hp.at_iff.1 hp'
    rw [hpl] at hpl'
    exact (Option.some.inj hpl').symm
  · rw [← hp.accepted, hp.at_iff.1 hi]
    rfl
  · rw [hp.answered]
    split <;> omega
  · rw [hp.destroyed]
    split <;> omega

end

/-! ## A run -/

/-- A pool with one worker, and a pipe of 64 KiB. -/
def oneWorker : PoolConfig where
  fetchWorkers := true
  numFetchWorkers := 1
  unallocated h := absurd h (by decide)
  pipeCapacity := 65536
  capacity_pos := by decide

/-- A request for the first byte of a file. -/
def firstByteItem : WorkItem where
  hasOrigin := false
  offset := 0
  length := 1
  sendDetachedIsThreadSafe := false
  reqState := true
  rc := .ok
  savedErrno := 0
  rangeLen := 0
  content := Bytes.empty

/-- A pool that has just been started. -/
def startedPool : Pool where
  next _ := none
  item _ := firstByteItem
  work := Fifo.empty
  workersShutdown := false
  completion := Fifo.empty
  pushed := []
  completionPipe := 0
  worker _ := .locking
  reactor := .idle
  accepted := 0
  responses _ := []
  destroyed _ := 0

theorem poolStarted_startedPool : PoolStarted startedPool :=
  ⟨rfl, rfl, rfl, rfl, rfl, fun _ => rfl, rfl, rfl, fun _ => rfl, fun _ => rfl⟩

/-- A request is enqueued, and the worker finishes it. -/
def finishesOne : List PoolLabel :=
  [.enqueue firstByteItem none, .look 0, .process 0 firstByteItem, .push 0,
    .write 0 .ok]

/-- Where that leads: the item waits for the watcher. -/
def oneFinished : Pool :=
  (((pool oneWorker).replay startedPool finishesOne).getD startedPool)

theorem pool_safe_oneFinished :
    oneFinished.completion.head ≠ none ∧ PoolSafe oneFinished := by
  refine ⟨by decide, @pool_safe oneWorker _ ?_⟩
  exact Lts.Reach.of_replay (φ := fun _ _ => true) poolStarted_startedPool
    (fun _ _ _ => True.intro) (by decide) (by decide)

end Dyad
