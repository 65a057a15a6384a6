import Mathlib.Logic.Function.Basic
import Mathlib.Data.List.Basic

/-!
# Queues of linked cells

A queue as a C program keeps it: a head pointer, a tail pointer, and in each
cell a pointer to the next one. The `next` pointers belong to the cells, not
to the queue, so several queues and the cells in nobody's queue share one
`next`, and a cell moves from one queue to another by writing its pointer.

`Chain next o l` says that the pointers from `o` on spell out the list `l` and
end there. A chain never visits a cell twice, which is what makes it one
finite list, and it does not notice a write to a cell outside it; the
operations on a queue follow from these two.
-/

namespace Dyad.Conc

variable {α : Type}

/-- Following `next` from `o` visits the cells of `l`, in order, and ends. -/
def Chain (next : α → Option α) : Option α → List α → Prop
  | o, [] => o = none
  | o, a :: l => o = some a ∧ Chain next (next a) l

namespace Chain

variable {next : α → Option α} {o : Option α} {l : List α} {a : α}

/-- There is one list to a chain. -/
theorem unique {l' : List α} (h : Chain next o l) (h' : Chain next o l') :
    l = l' := by
  induction l generalizing o l' with
  | nil =>
    cases l' with
    | nil => rfl
    | cons b l' =>
      rw [show o = none from h] at h'
      exact absurd h'.1 (by simp)
  | cons a l ih =>
    cases l' with
    | nil =>
      rw [show o = none from h'] at h
      exact absurd h.1 (by simp)
    | cons b l' =>
      obtain ⟨ha, hl⟩ := h
      obtain ⟨hb, hl'⟩ := h'
      rw [ha] at hb
      obtain rfl := Option.some.inj hb
      rw [ih hl hl']

/-- A cell of a chain is where a chain of its own begins. -/
theorem from_mem (h : Chain next o l) (ha : a ∈ l) :
    ∃ l₁ l₂, l = l₁ ++ l₂ ∧ Chain next (some a) l₂ := by
  induction l generalizing o with
  | nil => exact absurd ha (by simp)
  | cons b l ih =>
    rcases List.mem_cons.1 ha with rfl | ha
    · exact ⟨[], a :: l, rfl, rfl, h.2⟩
    · obtain ⟨l₁, l₂, rfl, hl₂⟩ := ih h.2 ha
      exact ⟨b :: l₁, l₂, rfl, hl₂⟩

/-- No cell is visited twice: the chain would not end. -/
theorem nodup (h : Chain next o l) : l.Nodup := by
  induction l generalizing o with
  | nil => exact List.nodup_nil
  | cons a l ih =>
    rw [List.nodup_cons]
    refine ⟨fun ha => ?_, ih h.2⟩
    obtain ⟨l₁, l₂, rfl, hl₂⟩ := h.2.from_mem ha
    -- the chain from `a` is both `l₂` and longer than it
    have heq : l₂ = a :: (l₁ ++ l₂) := hl₂.unique ⟨rfl, h.2⟩
    have hlen := congrArg List.length heq
    rw [List.length_cons, List.length_append] at hlen
    omega

variable [DecidableEq α] {v : Option α}

/-- A write to a cell outside the chain. -/
theorem update (h : Chain next o l) (ha : a ∉ l) :
    Chain (Function.update next a v) o l := by
  induction l generalizing o with
  | nil => exact h
  | cons b l ih =>
    rw [List.mem_cons, not_or] at ha
    refine ⟨h.1, ?_⟩
    rw [Function.update_of_ne (Ne.symm ha.1)]
    exact ih h.2 ha.2

/-- A cell linked in behind the last one. -/
theorem snoc {t : α} (h : Chain next o l) (ht : l.getLast? = some t)
    (ha : a ∉ l) (hnext : next a = none) :
    Chain (Function.update next t (some a)) o (l ++ [a]) := by
  induction l generalizing o with
  | nil => exact absurd ht (by simp)
  | cons b l ih =>
    rw [List.mem_cons, not_or] at ha
    cases l with
    | nil =>
      obtain rfl : b = t := Option.some.inj ht
      refine ⟨h.1, ?_⟩
      rw [Function.update_self]
      refine ⟨rfl, ?_⟩
      rw [Function.update_of_ne ha.1, hnext]
      rfl
    | cons c l =>
      have htl : t ∈ c :: l := List.mem_of_getLast? ht
      have hbt : b ≠ t := fun hbt =>
        (List.nodup_cons.1 h.nodup).1 (hbt ▸ htl)
      refine ⟨h.1, ?_⟩
      rw [Function.update_of_ne hbt]
      exact ih h.2 ht ha.2

end Chain

/-- The two pointers of a queue. -/
structure Fifo (α : Type) where
  head : Option α
  tail : Option α

namespace Fifo

/-- The queue with nothing in it. -/
def empty : Fifo α := ⟨none, none⟩

/-- The queue is the list `l`. -/
structure Holds (q : Fifo α) (next : α → Option α) (l : List α) : Prop where
  chain : Chain next q.head l
  tail : q.tail = l.getLast?

/-- The pointers of the queue after `a` went in at the end. -/
def push (q : Fifo α) (a : α) : Fifo α :=
  match q.tail with
  | none => ⟨some a, some a⟩
  | some _ => ⟨q.head, some a⟩

/-- The pointers of the cells after `a` went in at the end of `q`. -/
def pushNext [DecidableEq α] (q : Fifo α) (next : α → Option α) (a : α) :
    α → Option α :=
  let next := Function.update next a none
  match q.tail with
  | none => next
  | some t => Function.update next t (some a)

/-- The pointers of the queue after its head `a` came out. -/
def pop (q : Fifo α) (next : α → Option α) (a : α) : Fifo α :=
  match next a with
  | none => ⟨none, none⟩
  | some b => ⟨some b, q.tail⟩

namespace Holds

variable {q : Fifo α} {next : α → Option α} {l : List α} {a : α}

theorem of_empty : (empty : Fifo α).Holds next [] := ⟨rfl, rfl⟩

theorem unique {l' : List α} (h : q.Holds next l) (h' : q.Holds next l') :
    l = l' := h.chain.unique h'.chain

/-- A queue that is the empty list is the empty queue. -/
theorem eq_empty (h : q.Holds next []) : q = empty := by
  obtain ⟨head, tail⟩ := q
  obtain rfl : head = none := h.chain
  obtain rfl : tail = none := h.tail
  rfl

theorem head_eq_none (h : q.Holds next l) (hn : q.head = none) : l = [] := by
  refine h.chain.unique ?_
  rw [hn]
  rfl

theorem head_eq_some (h : q.Holds next l) (ha : q.head = some a) :
    ∃ l', l = a :: l' := by
  cases l with
  | nil =>
    have hn : q.head = none := h.chain
    rw [ha] at hn
    exact absurd hn (by simp)
  | cons b l =>
    have hb := h.chain.1
    rw [ha] at hb
    obtain rfl := Option.some.inj hb
    exact ⟨l, rfl⟩

/-- The head comes out. -/
theorem pop (h : q.Holds next (a :: l)) : (q.pop next a).Holds next l := by
  have hl : Chain next (next a) l := h.chain.2
  cases l with
  | nil =>
    have hn : next a = none := hl
    rw [Fifo.pop, hn]
    exact ⟨rfl, rfl⟩
  | cons b l =>
    rw [Fifo.pop, hl.1]
    refine ⟨⟨rfl, hl.2⟩, ?_⟩
    rw [h.tail]
    rfl

variable [DecidableEq α]

/-- A write to a cell outside the queue. -/
theorem update {v : Option α} (h : q.Holds next l) (ha : a ∉ l) :
    q.Holds (Function.update next a v) l :=
  ⟨h.chain.update ha, h.tail⟩

/-- A cell goes in at the end. -/
theorem push (h : q.Holds next l) (ha : a ∉ l) :
    (q.push a).Holds (q.pushNext next a) (l ++ [a]) := by
  have hchain : Chain (Function.update next a none) q.head l :=
    h.chain.update ha
  have hlast : (l ++ [a]).getLast? = some a := by simp
  cases ht : q.tail with
  | none =>
    obtain rfl : l = [] := List.getLast?_eq_none_iff.1 (h.tail.symm.trans ht)
    rw [Fifo.push, pushNext, ht]
    exact ⟨⟨rfl, Function.update_self ..⟩, rfl⟩
  | some t =>
    rw [Fifo.push, pushNext, ht]
    refine ⟨hchain.snoc ?_ ha (Function.update_self ..), hlast.symm⟩
    rw [← h.tail, ht]

/-- A chain apart from the queue does not notice what goes into it. -/
theorem chain_pushNext {o : Option α} {l' : List α} (h : q.Holds next l)
    (h' : Chain next o l') (ha : a ∉ l') (hd : ∀ b, b ∈ l → b ∉ l') :
    Chain (q.pushNext next a) o l' := by
  have hchain : Chain (Function.update next a none) o l' := h'.update ha
  cases ht : q.tail with
  | none =>
    rw [pushNext, ht]
    exact hchain
  | some t =>
    rw [pushNext, ht]
    refine hchain.update (hd t (List.mem_of_getLast? ?_))
    rw [← h.tail, ht]

/-- Nor does another queue. -/
theorem apart_pushNext {q' : Fifo α} {l' : List α} (h : q.Holds next l)
    (h' : q'.Holds next l') (ha : a ∉ l') (hd : ∀ b, b ∈ l → b ∉ l') :
    q'.Holds (q.pushNext next a) l' :=
  ⟨h.chain_pushNext h'.chain ha hd, h'.tail⟩

end Holds

end Fifo

end Dyad.Conc
