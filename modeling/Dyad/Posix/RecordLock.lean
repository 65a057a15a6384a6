import Mathlib.Data.List.Pairwise

/-!
# Record locks owned by processes

The advisory locks `fcntl` places on a whole file. A lock belongs to a
process, not to a thread and not to a descriptor: a process that asks again
replaces the lock it has, and dropping takes away whatever the process held.
Two processes may hold shared locks together, and an exclusive lock excludes
every lock of another process. The table carries that compatibility as a
field, so a table in which two processes exclude each other cannot be built.
-/

namespace Dyad.Posix

/-- The kinds of lock, `F_RDLCK` and `F_WRLCK`. -/
inductive LockMode
  | shared
  | excl
deriving DecidableEq

/-- Two locks that may stand together: of different processes, and both
shared. -/
def Compatible {π : Type} (a b : π × LockMode) : Prop :=
  a.1 ≠ b.1 ∧ a.2 = .shared ∧ b.2 = .shared

instance {π : Type} : Std.Symm (@Compatible π) where
  symm _ _ h := ⟨h.1.symm, h.2.2, h.2.1⟩

/-- The locks on one file. -/
structure LockTable (π : Type) where
  holders : List (π × LockMode)
  compat : holders.Pairwise Compatible

namespace LockTable

variable {π : Type} [DecidableEq π]

/-- No lock at all. -/
def free : LockTable π := ⟨[], List.Pairwise.nil⟩

/-- The locks left once `p` drops its own. -/
def release (l : LockTable π) (p : π) : LockTable π :=
  ⟨l.holders.filter fun a => a.1 ≠ p, l.compat.filter _⟩

/-- Whether no lock of another process conflicts. -/
def grantable (l : LockTable π) (p : π) (m : LockMode) : Bool :=
  l.holders.all fun a => a.1 = p ∨ (m = .shared ∧ a.2 = .shared)

theorem compat_of_grantable {l : LockTable π} {p : π} {m : LockMode}
    (h : l.grantable p m = true) :
    ∀ a ∈ (l.release p).holders, Compatible (p, m) a := by
  intro a ha
  simp only [release, List.mem_filter, decide_eq_true_eq] at ha
  have hg := List.all_eq_true.1 h a ha.1
  simp only [decide_eq_true_eq] at hg
  rcases hg with hp | hm
  · exact absurd hp ha.2
  · exact ⟨fun hp => ha.2 hp.symm, hm⟩

/-- The table after `p` asks for a lock: `none` when it would have to wait. -/
def acquire (l : LockTable π) (p : π) (m : LockMode) : Option (LockTable π) :=
  if h : l.grantable p m = true then
    some ⟨(p, m) :: (l.release p).holders,
      List.Pairwise.cons (compat_of_grantable h) (l.release p).compat⟩
  else none

/-- `p` holds a lock of kind `m`. -/
def Holds (l : LockTable π) (p : π) (m : LockMode) : Prop :=
  (p, m) ∈ l.holders

instance (l : LockTable π) (p : π) (m : LockMode) : Decidable (l.Holds p m) :=
  inferInstanceAs (Decidable ((p, m) ∈ l.holders))

omit [DecidableEq π] in
/-- Next to an exclusive lock there is no other. -/
theorem Holds.excl_unique {l : LockTable π} {p q : π} {m : LockMode}
    (hp : l.Holds p .excl) (hq : l.Holds q m) : q = p := by
  by_contra hne
  have := l.compat.forall hq hp fun h => hne (congrArg Prod.fst h)
  exact absurd this.2.2 (by simp)

omit [DecidableEq π] in
@[simp] theorem not_holds_free (p : π) (m : LockMode) :
    ¬ (free : LockTable π).Holds p m := by
  simp [free, Holds]

@[simp] theorem holds_release {l : LockTable π} {p q : π} {m : LockMode} :
    (l.release p).Holds q m ↔ q ≠ p ∧ l.Holds q m := by
  simp [release, Holds, and_comm]

theorem holds_acquire {l l' : LockTable π} {p q : π} {m m' : LockMode}
    (h : l.acquire p m = some l') :
    l'.Holds q m' ↔ (q = p ∧ m' = m) ∨ (q ≠ p ∧ l.Holds q m') := by
  unfold acquire at h
  split at h
  · obtain rfl := Option.some.inj h
    simp [Holds, release, and_comm]
  · exact absurd h (by simp)

/-- A lock that was granted met no conflicting one. -/
theorem acquire_excl_alone {l l' : LockTable π} {p q : π} {m : LockMode}
    (h : l.acquire p .excl = some l') (hq : l.Holds q m) : q = p := by
  by_contra hne
  have hl : l'.Holds q m := (holds_acquire h).2 (Or.inr ⟨hne, hq⟩)
  have hp : l'.Holds p .excl := (holds_acquire h).2 (Or.inl ⟨rfl, rfl⟩)
  exact hne (hp.excl_unique hl)

end LockTable

end Dyad.Posix
