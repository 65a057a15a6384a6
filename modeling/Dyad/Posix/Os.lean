import Mathlib.Logic.Function.Basic
import Mathlib.Tactic.Simps.Basic
import Dyad.Posix.Bytes
import Dyad.Posix.RecordLock

/-!
# The operating system's side of a call

A small kernel: a directory of names, the files it links, the record locks
on them and one mutex for each process. Threads act on it through `Sys`, the
calls a C program makes, and `exec` gives each call its effect and its
answer. What the kernel may decide for itself comes in as an `Outcome`: the
call goes through, it fails with an error, or a read or a write stops short.
A blocking lock is not enabled while it would have to wait.

A file outlives its name. Opening a name gives the inode it links, and a
descriptor is modelled by that inode, so reads and writes through a
descriptor keep going to the file that was opened after the name is unlinked
and linked to a new one. The offset a descriptor carries is kept by the
program that owns the descriptor and passed with each call.

Inodes are handed out in order and never reused. `born` remembers the name a
file was created under; there is no rename, so a name only ever links files
born under it, and the kernel carries that as a field.
-/

namespace Dyad.Posix

/-- The values of `errno`, numbered as on Linux. -/
abbrev Errno := Nat

namespace Errno

def ENOENT : Errno := 2
def EINTR : Errno := 4
def EIO : Errno := 5
def EAGAIN : Errno := 11
def ENOMEM : Errno := 12
def EFAULT : Errno := 14
def EINVAL : Errno := 22
def ENODATA : Errno := 61
def ECOMM : Errno := 70
def EPROTO : Errno := 71
def ECONNREFUSED : Errno := 111

end Errno

/-- What the kernel decides about a call: it goes through, it fails, or it
transfers only so many bytes. -/
inductive Outcome
  | ok
  | fail (e : Errno)
  | short (n : Nat)
deriving DecidableEq

/-- The calls of a program, over names `ν` and bytes `β`. -/
inductive Sys (ν β : Type) [Zero β]
  | open (n : ν) (creat trunc : Bool)
  | close (i : Nat)
  | setlkw (i : Nat) (m : LockMode)
  | setlk (i : Nat) (m : LockMode)
  | unlock (i : Nat)
  | fstat (i : Nat)
  | stat (n : ν)
  | ftruncate (i : Nat) (size : Nat)
  | pread (i : Nat) (off len : Nat)
  | pwrite (i : Nat) (off : Nat) (d : Bytes β)
  | unlink (n : ν)
  | malloc (size : Nat)
  | mutexLock
  | mutexUnlock

/-- What each call answers. -/
abbrev Sys.Res {ν β : Type} [Zero β] : Sys ν β → Type
  | .open .. => Except Errno Nat
  | .close _ => Except Errno Unit
  | .setlkw .. => Except Errno Unit
  | .setlk .. => Except Errno Unit
  | .unlock _ => Except Errno Unit
  | .fstat _ => Except Errno Nat
  | .stat _ => Except Errno Nat
  | .ftruncate .. => Except Errno Unit
  | .pread .. => Except Errno (Bytes β)
  | .pwrite .. => Except Errno Nat
  | .unlink _ => Except Errno Unit
  | .malloc _ => Bool
  | .mutexLock => Unit
  | .mutexUnlock => Unit

/-- The kernel's state. -/
structure Os (ν β π τ : Type) [Zero β] where
  dir : ν → Option Nat
  file : Nat → Bytes β
  locks : Nat → LockTable π
  mutex : π → Option τ
  born : Nat → ν
  next : Nat
  linked : ∀ n i, dir n = some i → i < next ∧ born i = n

namespace Os

variable {ν β π τ : Type} [Zero β]

/-- A new empty file under the name `n`. -/
@[simps]
def create [DecidableEq ν] (os : Os ν β π τ) (n : ν) : Os ν β π τ where
  dir := Function.update os.dir n (some os.next)
  file := Function.update os.file os.next Bytes.empty
  locks := Function.update os.locks os.next LockTable.free
  mutex := os.mutex
  born := Function.update os.born os.next n
  next := os.next + 1
  linked m i h := by
    by_cases hm : m = n
    · subst hm
      rw [Function.update_self] at h
      obtain rfl := Option.some.inj h
      exact ⟨Nat.lt_succ_self _, Function.update_self ..⟩
    · rw [Function.update_of_ne hm] at h
      obtain ⟨hlt, hb⟩ := os.linked m i h
      exact ⟨by omega, by rwa [Function.update_of_ne (by omega)]⟩

/-- The name `n` taken out of the directory. -/
@[simps]
def remove [DecidableEq ν] (os : Os ν β π τ) (n : ν) : Os ν β π τ where
  dir := Function.update os.dir n none
  file := os.file
  locks := os.locks
  mutex := os.mutex
  born := os.born
  next := os.next
  linked m i h := by
    by_cases hm : m = n
    · subst hm
      rw [Function.update_self] at h
      exact absurd h (by simp)
    · rw [Function.update_of_ne hm] at h
      exact os.linked m i h

/-- The content of the file `i` replaced. -/
@[simps]
def setFile (os : Os ν β π τ) (i : Nat) (b : Bytes β) : Os ν β π τ :=
  { os with file := Function.update os.file i b }

/-- The locks on the file `i` replaced. -/
@[simps]
def setLocks (os : Os ν β π τ) (i : Nat) (l : LockTable π) : Os ν β π τ :=
  { os with locks := Function.update os.locks i l }

/-- The owner of the mutex of process `p` replaced. -/
@[simps]
def setMutex [DecidableEq π] (os : Os ν β π τ) (p : π) (m : Option τ) : Os ν β π τ :=
  { os with mutex := Function.update os.mutex p m }

/-- The death of a process: its locks and its memory go, the files stay. -/
@[simps]
def kill [DecidableEq π] (os : Os ν β π τ) (p : π) : Os ν β π τ :=
  { os with
    locks := fun i => (os.locks i).release p
    mutex := Function.update os.mutex p none }

variable [DecidableEq ν] [DecidableEq π]

/-- The effect and the answer of a call thread `t` of process `p` makes. -/
def exec (os : Os ν β π τ) (p : π) (t : τ) :
    (c : Sys ν β) → Outcome → Option (Os ν β π τ × c.Res)
  | .open n creat trunc, .ok =>
    match os.dir n, creat with
    | some i, _ =>
      some (if trunc then os.setFile i Bytes.empty else os, .ok i)
    | none, true => some (os.create n, .ok os.next)
    | none, false => some (os, .error Errno.ENOENT)
  | .open .., .fail e => some (os, .error e)
  -- closing any descriptor of a file drops all the process's locks on it,
  -- and a close that reports an error has still let the descriptor go
  | .close i, .ok => some (os.setLocks i ((os.locks i).release p), .ok ())
  | .close i, .fail e =>
    some (os.setLocks i ((os.locks i).release p), .error e)
  | .setlkw i m, .ok =>
    match (os.locks i).acquire p m with
    | some l => some (os.setLocks i l, .ok ())
    | none => none
  | .setlkw .., .fail e => some (os, .error e)
  | .setlk i m, .ok =>
    match (os.locks i).acquire p m with
    | some l => some (os.setLocks i l, .ok ())
    | none => some (os, .error Errno.EAGAIN)
  | .setlk .., .fail e => some (os, .error e)
  | .unlock i, .ok => some (os.setLocks i ((os.locks i).release p), .ok ())
  | .unlock _, .fail e => some (os, .error e)
  | .fstat i, .ok => some (os, .ok (os.file i).size)
  | .fstat _, .fail e => some (os, .error e)
  | .stat n, .ok =>
    match os.dir n with
    | some i => some (os, .ok (os.file i).size)
    | none => some (os, .error Errno.ENOENT)
  | .stat _, .fail e => some (os, .error e)
  | .ftruncate i n, .ok =>
    some (os.setFile i ((os.file i).truncate n), .ok ())
  | .ftruncate .., .fail e => some (os, .error e)
  | .pread i off len, .ok => some (os, .ok ((os.file i).slice off len))
  | .pread i off len, .short k =>
    some (os, .ok ((os.file i).slice off (min k len)))
  | .pread .., .fail e => some (os, .error e)
  | .pwrite i off d, .ok =>
    some (os.setFile i ((os.file i).splice off d), .ok d.size)
  | .pwrite i off d, .short k =>
    if k < d.size then
      some (os.setFile i ((os.file i).splice off (d.slice 0 k)), .ok k)
    else none
  | .pwrite .., .fail e => some (os, .error e)
  | .unlink n, .ok =>
    match os.dir n with
    | some _ => some (os.remove n, .ok ())
    | none => some (os, .error Errno.ENOENT)
  | .unlink _, .fail e => some (os, .error e)
  -- no object is larger than `PTRDIFF_MAX`
  | .malloc n, .ok => if n < 2 ^ 63 then some (os, true) else none
  | .malloc _, .fail _ => some (os, false)
  | .mutexLock, .ok =>
    match os.mutex p with
    | none => some (os.setMutex p (some t), ())
    | some _ => none
  | .mutexUnlock, .ok => some (os.setMutex p none, ())
  | _, _ => none

/-! ## What each call can do

One lemma a call: every way it can have gone, with the new state. -/

attribute [local simp] exec

variable {os os' : Os ν β π τ} {p : π} {t : τ} {x : Outcome}

theorem exec_open {n : ν} {creat trunc : Bool} {r : Except Errno Nat}
    (h : os.exec p t (.open n creat trunc) x = some (os', r)) :
    (∃ e, r = .error e ∧ os' = os) ∨
    (∃ i, os.dir n = some i ∧ r = .ok i ∧
      os' = if trunc then os.setFile i Bytes.empty else os) ∨
    (os.dir n = none ∧ creat = true ∧ r = .ok os.next ∧
      os' = os.create n) := by
  cases x with
  | ok =>
    simp only [exec] at h
    split at h
    · next i hd =>
      simp only [Option.some.injEq, Prod.mk.injEq] at h
      exact Or.inr (Or.inl ⟨i, hd, h.2.symm, h.1.symm⟩)
    · next hd =>
      simp only [Option.some.injEq, Prod.mk.injEq] at h
      exact Or.inr (Or.inr ⟨hd, rfl, h.2.symm, h.1.symm⟩)
    · simp only [Option.some.injEq, Prod.mk.injEq] at h
      exact Or.inl ⟨_, h.2.symm, h.1.symm⟩
  | fail e =>
    simp only [exec, Option.some.injEq, Prod.mk.injEq] at h
    exact Or.inl ⟨e, h.2.symm, h.1.symm⟩
  | short n => exact absurd h (by simp [exec])

theorem exec_close {i : Nat} {r : Except Errno Unit}
    (h : os.exec p t (.close i) x = some (os', r)) :
    os' = os.setLocks i ((os.locks i).release p) := by
  cases x with
  | ok =>
    simp only [exec, Option.some.injEq, Prod.mk.injEq] at h
    exact h.1.symm
  | fail e =>
    simp only [exec, Option.some.injEq, Prod.mk.injEq] at h
    exact h.1.symm
  | short n => exact absurd h (by simp [exec])

theorem exec_setlkw {i : Nat} {m : LockMode} {r : Except Errno Unit}
    (h : os.exec p t (.setlkw i m) x = some (os', r)) :
    (∃ e, r = .error e ∧ os' = os) ∨
    (∃ l, (os.locks i).acquire p m = some l ∧ r = .ok () ∧
      os' = os.setLocks i l) := by
  cases x with
  | ok =>
    simp only [exec] at h
    split at h
    · next l hl =>
      simp only [Option.some.injEq, Prod.mk.injEq] at h
      exact Or.inr ⟨l, hl, h.2.symm, h.1.symm⟩
    · exact absurd h (by simp)
  | fail e =>
    simp only [exec, Option.some.injEq, Prod.mk.injEq] at h
    exact Or.inl ⟨e, h.2.symm, h.1.symm⟩
  | short n => exact absurd h (by simp [exec])

theorem exec_setlk {i : Nat} {m : LockMode} {r : Except Errno Unit}
    (h : os.exec p t (.setlk i m) x = some (os', r)) :
    (∃ e, r = .error e ∧ os' = os) ∨
    (∃ l, (os.locks i).acquire p m = some l ∧ r = .ok () ∧
      os' = os.setLocks i l) := by
  cases x with
  | ok =>
    simp only [exec] at h
    split at h
    · next l hl =>
      simp only [Option.some.injEq, Prod.mk.injEq] at h
      exact Or.inr ⟨l, hl, h.2.symm, h.1.symm⟩
    · simp only [Option.some.injEq, Prod.mk.injEq] at h
      exact Or.inl ⟨_, h.2.symm, h.1.symm⟩
  | fail e =>
    simp only [exec, Option.some.injEq, Prod.mk.injEq] at h
    exact Or.inl ⟨e, h.2.symm, h.1.symm⟩
  | short n => exact absurd h (by simp [exec])

theorem exec_unlock {i : Nat} {r : Except Errno Unit}
    (h : os.exec p t (.unlock i) x = some (os', r)) :
    (∃ e, r = .error e ∧ os' = os) ∨
    (r = .ok () ∧ os' = os.setLocks i ((os.locks i).release p)) := by
  cases x with
  | ok =>
    simp only [exec, Option.some.injEq, Prod.mk.injEq] at h
    exact Or.inr ⟨h.2.symm, h.1.symm⟩
  | fail e =>
    simp only [exec, Option.some.injEq, Prod.mk.injEq] at h
    exact Or.inl ⟨e, h.2.symm, h.1.symm⟩
  | short n => exact absurd h (by simp [exec])

theorem exec_fstat {i : Nat} {r : Except Errno Nat}
    (h : os.exec p t (.fstat i) x = some (os', r)) :
    os' = os ∧ ((∃ e, r = .error e) ∨ r = .ok (os.file i).size) := by
  cases x with
  | ok =>
    simp only [exec, Option.some.injEq, Prod.mk.injEq] at h
    exact ⟨h.1.symm, Or.inr h.2.symm⟩
  | fail e =>
    simp only [exec, Option.some.injEq, Prod.mk.injEq] at h
    exact ⟨h.1.symm, Or.inl ⟨e, h.2.symm⟩⟩
  | short n => exact absurd h (by simp [exec])

theorem exec_stat {n : ν} {r : Except Errno Nat}
    (h : os.exec p t (.stat n) x = some (os', r)) :
    os' = os ∧ ((∃ e, r = .error e) ∨
      ∃ i, os.dir n = some i ∧ r = .ok (os.file i).size) := by
  cases x with
  | ok =>
    simp only [exec] at h
    split at h
    · next i hd =>
      simp only [Option.some.injEq, Prod.mk.injEq] at h
      exact ⟨h.1.symm, Or.inr ⟨i, hd, h.2.symm⟩⟩
    · simp only [Option.some.injEq, Prod.mk.injEq] at h
      exact ⟨h.1.symm, Or.inl ⟨_, h.2.symm⟩⟩
  | fail e =>
    simp only [exec, Option.some.injEq, Prod.mk.injEq] at h
    exact ⟨h.1.symm, Or.inl ⟨e, h.2.symm⟩⟩
  | short n => exact absurd h (by simp [exec])

theorem exec_ftruncate {i : Nat} {n : Nat} {r : Except Errno Unit}
    (h : os.exec p t (.ftruncate i n) x = some (os', r)) :
    (∃ e, r = .error e ∧ os' = os) ∨
    (r = .ok () ∧ os' = os.setFile i ((os.file i).truncate n)) := by
  cases x with
  | ok =>
    simp only [exec, Option.some.injEq, Prod.mk.injEq] at h
    exact Or.inr ⟨h.2.symm, h.1.symm⟩
  | fail e =>
    simp only [exec, Option.some.injEq, Prod.mk.injEq] at h
    exact Or.inl ⟨e, h.2.symm, h.1.symm⟩
  | short n => exact absurd h (by simp [exec])

theorem exec_pread {i : Nat} {off len : Nat} {r : Except Errno (Bytes β)}
    (h : os.exec p t (.pread i off len) x = some (os', r)) :
    os' = os ∧ ((∃ e, r = .error e) ∨
      ∃ k, k ≤ len ∧ r = .ok ((os.file i).slice off k)) := by
  cases x with
  | ok =>
    simp only [exec, Option.some.injEq, Prod.mk.injEq] at h
    exact ⟨h.1.symm, Or.inr ⟨len, Nat.le_refl _, h.2.symm⟩⟩
  | fail e =>
    simp only [exec, Option.some.injEq, Prod.mk.injEq] at h
    exact ⟨h.1.symm, Or.inl ⟨e, h.2.symm⟩⟩
  | short k =>
    simp only [exec, Option.some.injEq, Prod.mk.injEq] at h
    exact ⟨h.1.symm, Or.inr ⟨min k len, Nat.min_le_right .., h.2.symm⟩⟩

theorem exec_pwrite {i : Nat} {off : Nat} {d : Bytes β} {r : Except Errno Nat}
    (h : os.exec p t (.pwrite i off d) x = some (os', r)) :
    (∃ e, x = .fail e ∧ r = .error e ∧ os' = os) ∨
    (x = .ok ∧ r = .ok d.size ∧
      os' = os.setFile i ((os.file i).splice off d)) ∨
    (∃ k, x = .short k ∧ k < d.size ∧ r = .ok k ∧
      os' = os.setFile i ((os.file i).splice off (d.slice 0 k))) := by
  cases x with
  | ok =>
    simp only [exec, Option.some.injEq, Prod.mk.injEq] at h
    exact Or.inr (Or.inl ⟨rfl, h.2.symm, h.1.symm⟩)
  | fail e =>
    simp only [exec, Option.some.injEq, Prod.mk.injEq] at h
    exact Or.inl ⟨e, rfl, h.2.symm, h.1.symm⟩
  | short k =>
    simp only [exec] at h
    split at h
    · next hk =>
      simp only [Option.some.injEq, Prod.mk.injEq] at h
      exact Or.inr (Or.inr ⟨k, rfl, hk, h.2.symm, h.1.symm⟩)
    · exact absurd h (by simp)

theorem exec_unlink {n : ν} {r : Except Errno Unit}
    (h : os.exec p t (.unlink n) x = some (os', r)) :
    (∃ e, r = .error e ∧ os' = os) ∨
    (x = .ok ∧ r = .ok () ∧ os' = os.remove n) := by
  cases x with
  | ok =>
    simp only [exec] at h
    split at h
    · simp only [Option.some.injEq, Prod.mk.injEq] at h
      exact Or.inr ⟨rfl, h.2.symm, h.1.symm⟩
    · simp only [Option.some.injEq, Prod.mk.injEq] at h
      exact Or.inl ⟨_, h.2.symm, h.1.symm⟩
  | fail e =>
    simp only [exec, Option.some.injEq, Prod.mk.injEq] at h
    exact Or.inl ⟨e, h.2.symm, h.1.symm⟩
  | short n => exact absurd h (by simp [exec])

theorem exec_malloc {n : Nat} {r : Bool}
    (h : os.exec p t (.malloc n) x = some (os', r)) :
    os' = os ∧ (r = true → n < 2 ^ 63) := by
  cases x with
  | ok =>
    simp only [exec] at h
    split at h
    · next hn =>
      simp only [Option.some.injEq, Prod.mk.injEq] at h
      exact ⟨h.1.symm, fun _ => hn⟩
    · exact absurd h (by simp)
  | fail e =>
    simp only [exec, Option.some.injEq, Prod.mk.injEq] at h
    exact ⟨h.1.symm, fun hr => absurd (h.2.trans hr) (by simp)⟩
  | short n => exact absurd h (by simp [exec])

theorem exec_mutexLock {r : Unit}
    (h : os.exec p t .mutexLock x = some (os', r)) :
    os.mutex p = none ∧ os' = os.setMutex p (some t) := by
  cases x with
  | ok =>
    simp only [exec] at h
    split at h
    · next hm =>
      simp only [Option.some.injEq, Prod.mk.injEq] at h
      exact ⟨hm, h.1.symm⟩
    · exact absurd h (by simp)
  | fail e => exact absurd h (by simp [exec])
  | short n => exact absurd h (by simp [exec])

theorem exec_mutexUnlock {r : Unit}
    (h : os.exec p t .mutexUnlock x = some (os', r)) :
    os' = os.setMutex p none := by
  cases x with
  | ok =>
    simp only [exec, Option.some.injEq, Prod.mk.injEq] at h
    exact h.1.symm
  | fail e => exact absurd h (by simp [exec])
  | short n => exact absurd h (by simp [exec])

end Os

end Dyad.Posix
