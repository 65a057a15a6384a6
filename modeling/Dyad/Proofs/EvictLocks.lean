import Dyad.Proofs.CacheRules
import Dyad.Proofs.ConsumeSafe
import Dyad.Proofs.EvictPass
import Dyad.Proofs.EvictSound

/-!
# What an eviction pass may unlink

The evictor goes by names. It opens a victim, tries the lock of the file it has
opened, and unlinks the name; that the name still links the file whose lock it
has is because evictors are alone in taking names away, and only one of them is
at it at a time, the one with the lock file's lock. So whatever other processes
do in the meantime, the file that goes is one that nobody else has locked.

Processes here have one thread each. A process does not exclude itself, and
its closing of one descriptor drops its locks, so a second thread of an
evictor's process would take part of the argument away.
-/

namespace Dyad

open Conc Posix

/-- Whether a call takes a name away. -/
def Call.takesName : Call → Bool
  | .sys (.unlink _) => true
  | _ => false

end Dyad

namespace Dyad.Evicting

open Conc Posix

variable {ctx : Ctx} {t u : Tid} {w w' w'' : Node} {c i : Nat} {n : Name}

/-- Processes of one thread that consume files, serve them and evict, with
whatever failures and deaths. -/
def evictorRuns (ctx : Ctx) : Machine.Guard (node ctx) where
  act _ _ _ _ := True
  crash _ _ := True
  start _ t j := t.2 = 0 ∧ (j = .evict ∨ (∃ ucxBuild, j = .fetch ucxBuild) ∨
    ∃ fuel, j = .consume fuel ∨ ∃ mdata, j = .consumeWMetadata mdata fuel)

/-- The process of `t` has the lock of the lock file, which is `c`. -/
def HasTurn (t : Tid) (c : Nat) (w : Node) : Prop :=
  w.os.dir .cacheLock = some c ∧ (w.os.locks c).Holds t.1 .excl

/-- What the others leave alone: the lock file, this process's locks, and in
its turn every name there is. -/
structure Rely (t : Tid) (w w' : Node) : Prop where
  next : w.os.next ≤ w'.os.next
  lockFile : ∀ c, w.os.dir .cacheLock = some c → w'.os.dir .cacheLock = some c
  locks : ∀ i m, i < w.os.next →
    ((w'.os.locks i).Holds t.1 m ↔ (w.os.locks i).Holds t.1 m)
  names : ∀ c, HasTurn t c w → ∀ n i, w.os.dir n = some i →
    w'.os.dir n = some i

theorem Rely.rfl (t : Tid) (w : Node) : Rely t w w :=
  ⟨Nat.le_refl _, fun _ h => h, fun _ _ _ => Iff.rfl, fun _ _ _ _ h => h⟩

theorem Rely.turn (h : Rely t w w') (ht : HasTurn t c w) : HasTurn t c w' :=
  ⟨h.lockFile c ht.1, (h.locks c _ (w.os.linked _ _ ht.1).1).2 ht.2⟩

theorem Rely.trans (h : Rely t w w') (h' : Rely t w' w'') : Rely t w w'' where
  next := Nat.le_trans h.next h'.next
  lockFile c hc := h'.lockFile c (h.lockFile c hc)
  locks i m hi := (h'.locks i m (Nat.lt_of_lt_of_le hi h.next)).trans
    (h.locks i m hi)
  names c hc n i hn := h'.names c (h.turn hc) n i (h.names c hc n i hn)

/-- A name is taken away only in turn, and only when it links nothing or a file
whose lock the process has. -/
def Req (w : Node) (t : Tid) : Call → Prop
  | .sys (.unlink n) => n ≠ .cacheLock ∧ (∃ c, HasTurn t c w) ∧
      ∀ i, w.os.dir n = some i → (w.os.locks i).Holds t.1 .excl
  | _ => True

/-- The outline. -/
def spec (ctx : Ctx) : Spec (node ctx) where
  Inv _ := True
  Rely t w w' := t.2 = 0 → Rely t w w'
  Guar _ _ := True
  Req := Req
  Idle _ _ := True
  Post _ _ _ _ := True
  guard := evictorRuns ctx
  rely_refl t w _ := Rely.rfl t w
  rely_trans _ _ _ _ h h' ht := (h ht).trans (h' ht)
  guar_refl _ := True.intro
  guar_trans _ _ _ _ _ := True.intro

/-! ## Steps -/

/-- Only names that link nothing come to link a file, and only the locks of
`p` change, but for those of files that are new. -/
structure Tame (p : Nat) (w w' : Node) : Prop where
  next : w.os.next ≤ w'.os.next
  names : ∀ n i, w.os.dir n = some i → w'.os.dir n = some i
  locks : ∀ i q m, i < w.os.next → q ≠ p →
    ((w'.os.locks i).Holds q m ↔ (w.os.locks i).Holds q m)

theorem Tame.rfl (p : Nat) (w : Node) : Tame p w w :=
  ⟨Nat.le_refl _, fun _ _ h => h, fun _ _ _ _ _ => Iff.rfl⟩

theorem Tame.setLocks (p i : Nat) {l : LockTable Nat}
    (hl : ∀ q m, q ≠ p → (l.Holds q m ↔ (w.os.locks i).Holds q m)) :
    Tame p w { w with os := w.os.setLocks i l } := by
  refine ⟨Nat.le_refl _, fun _ _ h => h, fun j q m _ hq => ?_⟩
  by_cases hji : j = i
  · subst hji
    rw [Os.setLocks_locks, Function.update_self]
    exact hl q m hq
  · rw [Os.setLocks_locks, Function.update_of_ne hji]

theorem Tame.release (p i : Nat) :
    Tame p w { w with os := w.os.setLocks i ((w.os.locks i).release p) } := by
  refine Tame.setLocks p i fun q m hq => ?_
  rw [LockTable.holds_release]
  exact ⟨fun h => h.2, fun h => ⟨hq, h⟩⟩

theorem Tame.acquire {p i : Nat} {m : LockMode} {l : LockTable Nat}
    (hl : (w.os.locks i).acquire p m = some l) :
    Tame p w { w with os := w.os.setLocks i l } := by
  refine Tame.setLocks p i fun q m' hq => ?_
  rw [LockTable.holds_acquire hl]
  simp [hq]

theorem Tame.create (p : Nat) (hn : w.os.dir n = none) :
    Tame p w { w with os := w.os.create n } := by
  refine ⟨Nat.le_succ _, fun m i h => ?_, fun i q m hi _ => ?_⟩
  · have hmn : m ≠ n := fun heq => by
      rw [heq, hn] at h
      exact absurd h (by simp)
    show Function.update w.os.dir n (some w.os.next) m = some i
    rwa [Function.update_of_ne hmn]
  · rw [Os.create_locks, Function.update_of_ne (by omega)]

/-- Whatever a thread calls, unless it takes a name away. -/
theorem tame_exec {cl : Call} {x : Choice} {r : cl.Res}
    (hc : cl.takesName = false) (h : w.exec t cl x = some (w', r)) :
    Tame t.1 w w' := by
  cases cl with
  | sys c =>
    obtain ⟨o, os', rfl, hos, rfl⟩ := Node.exec_sys h
    cases c with
    | «open» m creat trunc =>
      rcases Os.exec_open hos with ⟨e, -, rfl⟩ | ⟨i, -, -, rfl⟩ | ⟨hm, -, -, rfl⟩
      · exact Tame.rfl _ _
      · split
        · exact ⟨Nat.le_refl _, fun _ _ h => h, fun _ _ _ _ _ => Iff.rfl⟩
        · exact Tame.rfl _ _
      · exact Tame.create _ hm
    | close i =>
      obtain rfl := Os.exec_close hos
      exact Tame.release _ i
    | setlkw i m =>
      rcases Os.exec_setlkw hos with ⟨e, -, rfl⟩ | ⟨l, hl, -, rfl⟩
      · exact Tame.rfl _ _
      · exact Tame.acquire hl
    | setlk i m =>
      rcases Os.exec_setlk hos with ⟨e, -, rfl⟩ | ⟨l, hl, -, rfl⟩
      · exact Tame.rfl _ _
      · exact Tame.acquire hl
    | unlock i =>
      rcases Os.exec_unlock hos with ⟨e, -, rfl⟩ | ⟨-, rfl⟩
      · exact Tame.rfl _ _
      · exact Tame.release _ i
    | fstat i =>
      obtain ⟨rfl, -⟩ := Os.exec_fstat hos
      exact Tame.rfl _ _
    | stat m =>
      obtain ⟨rfl, -⟩ := Os.exec_stat hos
      exact Tame.rfl _ _
    | ftruncate i size =>
      rcases Os.exec_ftruncate hos with ⟨e, -, rfl⟩ | ⟨-, rfl⟩
      · exact Tame.rfl _ _
      · exact ⟨Nat.le_refl _, fun _ _ h => h, fun _ _ _ _ _ => Iff.rfl⟩
    | pread i off len =>
      obtain ⟨rfl, -⟩ := Os.exec_pread hos
      exact Tame.rfl _ _
    | pwrite i off d =>
      rcases Os.exec_pwrite hos with ⟨e, -, -, rfl⟩ | ⟨-, -, rfl⟩ |
          ⟨k, -, -, -, rfl⟩
      · exact Tame.rfl _ _
      · exact ⟨Nat.le_refl _, fun _ _ h => h, fun _ _ _ _ _ => Iff.rfl⟩
      · exact ⟨Nat.le_refl _, fun _ _ h => h, fun _ _ _ _ _ => Iff.rfl⟩
    | unlink m => exact absurd hc (by simp [Call.takesName])
    | malloc size =>
      obtain ⟨rfl, -⟩ := Os.exec_malloc hos
      exact Tame.rfl _ _
    | mutexLock =>
      obtain ⟨-, rfl⟩ := Os.exec_mutexLock hos
      exact ⟨Nat.le_refl _, fun _ _ h => h, fun _ _ _ _ _ => Iff.rfl⟩
    | mutexUnlock =>
      obtain rfl := Os.exec_mutexUnlock hos
      exact ⟨Nat.le_refl _, fun _ _ h => h, fun _ _ _ _ _ => Iff.rfl⟩
  | kvsCommit =>
    have hos : w'.os = w.os := by
      cases x with
      | count rank =>
        obtain ⟨rfl, -⟩ := Prod.mk.inj (Option.some.inj h)
        rfl
      | rc rc =>
        simp only [Node.exec] at h
        split at h
        · obtain ⟨rfl, -⟩ := Prod.mk.inj (Option.some.inj h)
          rfl
        · exact absurd h (by simp)
      | _ => exact absurd h (by simp [Node.exec])
    exact ⟨by rw [hos], fun _ _ h => by rwa [hos], fun _ _ _ _ _ => by rw [hos]⟩
  | _ =>
    obtain ⟨rfl, -⟩ := Node.exec_quiet rfl h
    exact Tame.rfl _ _

theorem moves_tame (ht : t.2 = 0) (h : Tame t.1 w w') :
    (spec ctx).Moves t w w' where
  inv := True.intro
  guar := True.intro
  rely u hu hu0 := {
    next := h.next
    lockFile := fun c hc => h.names .cacheLock c hc
    locks := fun i m hi =>
      h.locks i u.1 m hi fun heq => hu (first_unique hu0 ht heq)
    names := fun _ _ => h.names }

/-- A name is taken away in turn. -/
theorem moves_remove (ht : t.2 = 0) (hn : n ≠ .cacheLock) (hturn : HasTurn t c w) :
    (spec ctx).Moves t w { w with os := w.os.remove n } where
  inv := True.intro
  guar := True.intro
  rely u hu hu0 := {
    next := Nat.le_refl _
    lockFile := fun d hd => by
      show Function.update w.os.dir n none .cacheLock = some d
      rwa [Function.update_of_ne hn.symm]
    locks := fun _ _ _ => Iff.rfl
    names := fun d hd => by
      -- it is not another process's turn
      obtain rfl : c = d := Option.some.inj (hturn.1.symm.trans hd.1)
      exact absurd (first_unique hu0 ht (hturn.2.excl_unique hd.2)) hu }

/-! ## A pass -/

/-- A name opened in turn. -/
def Victim (t : Tid) (c : Nat) (n : Name) (i : Nat) (w : Node) : Prop :=
  HasTurn t c w ∧ n ≠ .cacheLock ∧ w.os.dir n = some i

/-- A name opened in turn, and its file locked. -/
def Mine (t : Tid) (c : Nat) (n : Name) (i : Nat) (w : Node) : Prop :=
  Victim t c n i w ∧ (w.os.locks i).Holds t.1 .excl

/-- Another file than the lock file, in turn. -/
def Spent (t : Tid) (c i : Nat) (w : Node) : Prop := HasTurn t c w ∧ i ≠ c

/-- Two names link two files. -/
theorem Victim.spent (h : Victim t c n i w) : Spent t c i w := by
  refine ⟨h.1, fun hic => h.2.1 ?_⟩
  subst hic
  exact (w.os.linked _ _ h.2.2).2.symm.trans (w.os.linked _ _ h.1.1).2

theorem stable_turn (ht : t.2 = 0) : (spec ctx).Stable t (HasTurn t c) :=
  fun _ _ _ _ hr h => (hr ht).turn h

theorem stable_victim (ht : t.2 = 0) : (spec ctx).Stable t (Victim t c n i) :=
  fun _ _ _ _ hr h =>
    ⟨(hr ht).turn h.1, h.2.1, (hr ht).names c h.1 n i h.2.2⟩

theorem stable_mine (ht : t.2 = 0) : (spec ctx).Stable t (Mine t c n i) :=
  fun w w' hi hi' hr h => ⟨stable_victim ht w w' hi hi' hr h.1,
    ((hr ht).locks i _ (w.os.linked _ _ h.1.2.2).1).2 h.2⟩

theorem stable_spent (ht : t.2 = 0) : (spec ctx).Stable t (Spent t c i) :=
  fun _ _ _ _ hr h => ⟨(hr ht).turn h.1, h.2⟩

/-- A call but an unlink, and what it makes of an assertion. -/
theorem atomic_tame {P : Node → Prop} {cl : Call} {A : cl.Res → Node → Prop}
    (ht : t.2 = 0) (hc : cl.takesName = false)
    (h : ∀ w x w' r, P w → w.exec t cl x = some (w', r) → A r w') :
    (spec ctx).Atomic t P cl A := by
  intro w _ hp
  refine ⟨?_, fun x w' r hex _ => ⟨moves_tame ht (tame_exec hc hex), ?_⟩⟩
  · show Req w t cl
    unfold Req
    split
    · exact absurd hc (by simp [Call.takesName])
    · exact True.intro
  · exact h w x w' r hp hex

theorem reads_of_scans {cl : Call} (h : cl.scans = true) : cl.reads = true := by
  cases cl with
  | sys c => cases c <;> first | rfl | exact absurd h (by simp [Call.scans])
  | _ => first | rfl | exact absurd h (by simp [Call.scans])

theorem atomic_scan {P : Node → Prop} {cl : Call} (ht : t.2 = 0)
    (h : cl.scans = true) : (spec ctx).Atomic t P cl fun _ => P := by
  have hc : cl.takesName = false := by
    cases cl with
    | sys c => cases c <;> first | rfl | exact absurd h (by simp [Call.scans])
    | _ => rfl
  exact atomic_tame ht hc fun w x w' r hp hex => by
    rwa [Node.exec_reads (reads_of_scans h) hex]

/-- Dropping the lock of one file leaves those of the others. -/
theorem turn_setLocks {l : LockTable Nat} (h : HasTurn t c w) (hic : i ≠ c) :
    HasTurn t c { w with os := w.os.setLocks i l } := by
  refine ⟨h.1, ?_⟩
  rw [Os.setLocks_locks, Function.update_of_ne hic.symm]
  exact h.2

theorem passRules (ht : t.2 = 0) :
    PassRules (spec ctx) t (fun _ => True)
      (fun c w => w.os.dir .cacheLock = some c) (HasTurn t) (Victim t) (Mine t)
      (Spent t) where
  stable_out := Spec.Stable.true
  stable_opened c _ _ _ _ hr h := (hr ht).lockFile c h
  stable_locked _ := stable_turn ht
  stable_victim _ _ _ := stable_victim ht
  stable_mine _ _ _ := stable_mine ht
  stable_spent _ _ := stable_spent ht
  scan_out _ := atomic_scan ht
  scan_locked _ _ := atomic_scan ht
  openLock := by
    refine atomic_tame ht rfl fun w x w' r _ hex => ?_
    obtain ⟨o, os', rfl, hos, rfl⟩ := Node.exec_sys hex
    refine ⟨fun k hk => ?_, fun _ _ => True.intro⟩
    subst hk
    rcases Os.exec_open hos with ⟨e, he, -⟩ | ⟨i, hd, hr, rfl⟩ | ⟨-, -, hr, rfl⟩
    · exact absurd he (by simp)
    · obtain rfl := Except.ok.inj hr
      exact hd
    · obtain rfl := Except.ok.inj hr
      show Function.update w.os.dir .cacheLock (some w.os.next) .cacheLock = _
      rw [Function.update_self]
  lock k := by
    refine atomic_tame ht rfl fun w x w' r hp hex => ?_
    obtain ⟨o, os', rfl, hos, rfl⟩ := Node.exec_sys hex
    rcases Os.exec_setlkw hos with ⟨e, rfl, rfl⟩ | ⟨l, hl, rfl, rfl⟩
    · exact ⟨hp, fun h => absurd h (by simp)⟩
    · refine ⟨hp, fun _ => ⟨hp, ?_⟩⟩
      rw [Os.setLocks_locks, Function.update_self]
      exact (LockTable.holds_acquire hl).2 (Or.inl ⟨rfl, rfl⟩)
  unlockLock k := by
    refine atomic_tame ht rfl fun w x w' r hp hex => ?_
    exact (tame_exec rfl hex).names _ _ hp.1
  closeLock k := atomic_tame ht rfl
    fun _ _ _ _ _ _ => True.intro
  openVictim k n hn := by
    refine atomic_tame ht rfl fun w x w' r hp hex => ?_
    obtain ⟨o, os', rfl, hos, rfl⟩ := Node.exec_sys hex
    rcases Os.exec_open hos with ⟨e, rfl, rfl⟩ | ⟨i, hd, rfl, rfl⟩ | ⟨-, h, -⟩
    · exact ⟨hp, fun i hi => absurd hi (by simp)⟩
    · refine ⟨hp, fun j hj => ?_⟩
      obtain rfl := Except.ok.inj hj
      exact ⟨hp, hn, hd⟩
    · exact absurd h (by simp)
  tryLock k n i := by
    refine atomic_tame ht rfl fun w x w' r hp hex => ?_
    obtain ⟨o, os', rfl, hos, rfl⟩ := Node.exec_sys hex
    rcases Os.exec_setlk hos with ⟨e, rfl, rfl⟩ | ⟨l, hl, rfl, rfl⟩
    · exact ⟨hp.spent, fun h => absurd h (by simp)⟩
    · have hturn := turn_setLocks (l := l) hp.1 hp.spent.2
      refine ⟨⟨hturn, hp.spent.2⟩, fun _ => ⟨⟨hturn, hp.2⟩, ?_⟩⟩
      rw [Os.setLocks_locks, Function.update_self]
      exact (LockTable.holds_acquire hl).2 (Or.inl ⟨rfl, rfl⟩)
  unlink k n i := by
    intro w _ hp
    refine ⟨⟨hp.1.2.1, ⟨k, hp.1.1⟩, fun j hj => ?_⟩, fun x w' r hex _ => ?_⟩
    · obtain rfl := Option.some.inj (hp.1.2.2.symm.trans hj)
      exact hp.2
    · obtain ⟨o, os', rfl, hos, rfl⟩ := Node.exec_sys hex
      rcases Os.exec_unlink hos with ⟨e, -, rfl⟩ | ⟨-, -, rfl⟩
      · exact ⟨Spec.Moves.stay True.intro, hp.1.spent⟩
      · refine ⟨moves_remove ht hp.1.2.1 hp.1.1, ⟨?_, hp.1.1.2⟩, hp.1.spent.2⟩
        show Function.update w.os.dir n none .cacheLock = some k
        rw [Function.update_of_ne hp.1.2.1.symm]
        exact hp.1.1.1
  unlockVictim k i := by
    refine atomic_tame ht rfl fun w x w' r hp hex => ?_
    obtain ⟨o, os', rfl, hos, rfl⟩ := Node.exec_sys hex
    rcases Os.exec_unlock hos with ⟨e, -, rfl⟩ | ⟨-, rfl⟩
    · exact hp
    · exact ⟨turn_setLocks hp.1 hp.2, hp.2⟩
  closeVictim k i := by
    refine atomic_tame ht rfl fun w x w' r hp hex => ?_
    obtain ⟨o, os', rfl, hos, rfl⟩ := Node.exec_sys hex
    obtain rfl := Os.exec_close hos
    exact turn_setLocks hp.1 hp.2

/-! ## The rest of a job -/

/-- No name is taken away. -/
abbrev Spares {α : Type} (p : Program α) : Prop :=
  p.All fun cl => cl.takesName = false

theorem spares_ask {cl : Call} {α : Type} {f : cl.Res → Program α}
    (hc : cl.takesName = false) (hf : ∀ r, Spares (f r)) :
    Spares ((perform cl).bind f) :=
  .step hc hf

theorem triple_spares {α : Type} {p : Program α} (ht : t.2 = 0) (hp : Spares p) :
    (spec ctx).Triple t (fun _ => True) p fun _ _ => True :=
  Spec.Triple.of_all Spec.Stable.true
    (fun _ hc => atomic_tame ht hc fun _ _ _ _ _ _ => True.intro) hp

theorem releaseFlock_spares (fd : Nat) : Spares (dyadReleaseFlock fd) :=
  spares_ask rfl fun r => by cases r <;> exact True.intro

theorem exclFlock_spares (fd : Nat) : Spares (dyadExclFlock fd) :=
  spares_ask rfl fun r => by cases r <;> exact True.intro

theorem sharedFlock_spares (fd : Nat) : Spares (dyadSharedFlock fd) :=
  spares_ask rfl fun r => by cases r <;> exact True.intro

theorem getFileSize_spares (fd : Nat) : Spares (getFileSize fd) :=
  spares_ask rfl fun r => by cases r <;> exact True.intro

theorem fetchMetadata_spares : Spares (dyadFetchMetadata ctx) := by
  refine spares_ask rfl fun r => ?_
  cases r with
  | error rc => exact True.intro
  | ok ownerRank =>
    dsimp only
    split <;> exact True.intro

theorem consStoreLoop_spares (fd : Nat) (data : Bytes Byte) (fuel : Nat)
    (writtenData : Int) (pos : Nat) :
    Spares (consStoreLoop fd data fuel writtenData pos) := by
  induction fuel generalizing writtenData pos with
  | zero => exact spares_ask rfl fun r => r.elim
  | succ fuel ih =>
    rw [consStoreLoop]
    split
    · split
      · exact spares_ask rfl fun r => r.elim
      · refine spares_ask rfl fun r => ?_
        cases r with
        | error e => exact ih _ _
        | ok n =>
          cases n with
          | zero => exact True.intro
          | succ n => exact ih _ _
    · exact True.intro

theorem consStore_spares (fuel fd : Nat) (data : Bytes Byte) :
    Spares (dyadConsStore ctx fuel fd data) := by
  have hwrite : Spares (consStoreWrite fuel fd data) := by
    rw [consStoreWrite]
    split
    · exact spares_ask rfl fun r => by cases r <;> exact True.intro
    · refine (consStoreLoop_spares fd data fuel 0 0).bind fun r => ?_
      cases r <;> exact True.intro
  rw [dyadConsStore]
  split
  · exact hwrite
  · refine spares_ask rfl fun r => ?_
    cases r with
    | error e => exact True.intro
    | ok u => exact hwrite

theorem fetchAndStore_spares (fuel : Nat) : Spares (fetchAndStore ctx fuel) := by
  refine spares_ask rfl fun r => ?_
  cases r with
  | error rc => exact True.intro
  | ok data =>
    refine spares_ask rfl fun r => ?_
    cases r with
    | error e => exact True.intro
    | ok ioFd =>
      refine (consStore_spares fuel ioFd data).bind fun rc => ?_
      exact spares_ask rfl fun r => by cases r <;> exact True.intro

theorem returnFileData_spares (fileData : Bool) :
    Spares (returnFileData fileData) := by
  cases fileData with
  | false => exact True.intro
  | true => exact spares_ask rfl fun _ => True.intro

theorem consumeDone_spares (lockFd : Nat) (fileData : Bool) (rc : Rc) :
    Spares (consumeDone lockFd fileData rc) :=
  spares_ask rfl fun closed => (returnFileData_spares fileData).bind fun _ => by
    cases closed <;> exact True.intro

theorem consumeRelease_spares (lockFd : Nat) (fileData : Bool) (rc : Rc) :
    Spares (consumeRelease lockFd fileData rc) :=
  (releaseFlock_spares lockFd).bind fun _ => consumeDone_spares _ _ _

theorem consumeMetadataRelease_spares (lockFd : Nat) (fileData : Bool)
    (rc : Rc) : Spares (consumeMetadataRelease lockFd fileData rc) :=
  (releaseFlock_spares lockFd).bind fun _ =>
    (returnFileData_spares fileData).bind fun _ => True.intro

theorem consumeShared_spares (lockFd fileSize : Nat) :
    Spares (consumeShared ctx lockFd fileSize) := by
  refine (releaseFlock_spares lockFd).bind fun _ => ?_
  split
  · refine fetchMetadata_spares.bind fun r => ?_
    cases r <;> exact consumeDone_spares _ _ _
  · exact consumeDone_spares _ _ _

/-! ## Jobs -/

/-- What a pass is run in keeps nothing and is asked nothing. -/
abbrev Works (ctx : Ctx) (t : Tid) {α : Type} (p : Program α) : Prop :=
  (spec ctx).Triple t (fun _ => True) p fun _ _ => True

theorem works_bind {α β : Type} {p : Program α} {f : α → Program β}
    (hp : Works ctx t p) (hf : ∀ a, Works ctx t (f a)) : Works ctx t (p.bind f) :=
  hp.bind hf

theorem works_consumeStored (ht : t.2 = 0) (lockFd : Nat) (fileData : Bool) :
    Works ctx t (consumeStored ctx lockFd fileData) :=
  works_bind (triple_spares ht (releaseFlock_spares lockFd)) fun _ =>
    works_bind ((passRules ht).maybeEvict ctx) fun _ =>
      triple_spares ht (consumeDone_spares _ _ _)

theorem works_consumeLocal (ht : t.2 = 0) (fuel lockFd fileSize : Nat) :
    Works ctx t (consumeLocal ctx fuel lockFd fileSize) := by
  have hrelease : ∀ fileData rc,
      Works ctx t (consumeRelease lockFd fileData rc) := fun _ _ =>
    triple_spares ht (consumeRelease_spares _ _ _)
  rw [consumeLocal]
  split
  · refine works_bind (triple_spares ht fetchMetadata_spares) fun r => ?_
    rcases r with rc | _ | owner
    · exact hrelease _ _
    · exact hrelease _ _
    · refine works_bind (triple_spares ht (fetchAndStore_spares fuel)) fun r => ?_
      cases r with
      | noData rc => exact hrelease _ _
      | noFd => exact triple_spares ht True.intro
      | closeFailed => exact hrelease _ _
      | stored rc =>
        dsimp only
        split
        · exact hrelease _ _
        · exact works_consumeStored ht _ _
  · exact works_consumeStored ht _ _

theorem works_consumeMetadataLocal (ht : t.2 = 0) (fuel lockFd fileSize : Nat) :
    Works ctx t (consumeMetadataLocal ctx fuel lockFd fileSize) := by
  have hrelease : ∀ fileData rc,
      Works ctx t (consumeMetadataRelease lockFd fileData rc) := fun _ _ =>
    triple_spares ht (consumeMetadataRelease_spares _ _ _)
  rw [consumeMetadataLocal]
  split
  · refine works_bind (triple_spares ht (fetchAndStore_spares fuel)) fun r => ?_
    cases r with
    | noData rc => exact hrelease _ _
    | noFd => exact triple_spares ht True.intro
    | closeFailed => exact hrelease _ _
    | stored rc =>
      dsimp only
      split
      · exact hrelease _ _
      · exact works_consumeStored ht _ _
  · exact works_consumeStored ht _ _

/-- A call made first, which takes no name away. -/
theorem works_ask {cl : Call} {α : Type} {f : cl.Res → Program α} (ht : t.2 = 0)
    (hc : cl.takesName = false) (hf : ∀ r, Works ctx t (f r)) :
    Works ctx t ((perform cl).bind f) :=
  works_bind (triple_spares ht ⟨hc, fun _ => True.intro⟩) hf

theorem works_consume (ht : t.2 = 0) (fuel : Nat) :
    Works ctx t (dyadConsume ctx fuel) := by
  have hdone : ∀ rc : Rc, Works ctx t (.pure rc) := fun _ =>
    triple_spares ht True.intro
  rw [dyadConsume]
  split
  · exact hdone _
  · split
    · exact hdone _
    · split
      · exact hdone _
      · refine works_ask ht rfl fun r => ?_
        cases r with
        | error e => exact hdone _
        | ok lockFd =>
          refine works_bind (triple_spares ht (exclFlock_spares lockFd))
            fun rc => ?_
          split
          · exact triple_spares ht (consumeRelease_spares _ _ _)
          · refine works_bind (triple_spares ht (getFileSize_spares lockFd))
              fun fileSize => ?_
            split
            · exact triple_spares ht (consumeShared_spares _ _)
            · exact works_consumeLocal ht _ _ _

theorem works_consumeWMetadata (ht : t.2 = 0) (mdata : Bool) (fuel : Nat) :
    Works ctx t (dyadConsumeWMetadata ctx mdata fuel) := by
  have hdone : ∀ rc : Rc, Works ctx t (.pure rc) := fun _ =>
    triple_spares ht True.intro
  rw [dyadConsumeWMetadata]
  split
  · exact hdone _
  · split
    · exact hdone _
    · split
      · exact hdone _
      · refine works_ask ht rfl fun r => ?_
        cases r with
        | error e => exact hdone _
        | ok lockFd =>
          refine works_bind (triple_spares ht (exclFlock_spares lockFd))
            fun rc => ?_
          split
          · exact works_bind (triple_spares ht (releaseFlock_spares lockFd))
              fun _ => hdone _
          · exact works_bind (triple_spares ht (getFileSize_spares lockFd))
              fun fileSize => works_consumeMetadataLocal ht _ _ _

theorem fetchErrorWoFlock_spares : Spares fetchErrorWoFlock :=
  spares_ask rfl fun _ => spares_ask rfl fun _ => True.intro

theorem fetchErrorWith_spares (e : Errno) : Spares (fetchErrorWith e) :=
  spares_ask rfl fun _ => fetchErrorWoFlock_spares

theorem fetchError_spares (fd : Nat) : Spares (fetchError fd) :=
  spares_ask rfl fun _ => spares_ask rfl fun _ => fetchErrorWoFlock_spares

theorem readInto_spares (inbuf : Bool) (fd off len : Nat) :
    Spares (readInto inbuf fd off len) := by
  cases inbuf with
  | false => exact spares_ask rfl fun _ => True.intro
  | true => exact spares_ask rfl fun r => by cases r <;> exact True.intro

theorem fetchRead_spares (inbuf : Bool) (fd fileSize : Nat) :
    Spares (fetchRead inbuf fd fileSize) := by
  have hloop : ∀ fuel content,
      Spares (fetchReadLoop inbuf fd fileSize fuel content) := by
    intro fuel
    induction fuel with
    | zero => exact fun _ => True.intro
    | succ fuel ih =>
      intro content
      rw [fetchReadLoop]
      split
      · refine (readInto_spares inbuf fd _ _).bind fun r => ?_
        cases r with
        | none => exact True.intro
        | some d =>
          dsimp only
          split
          · exact True.intro
          · exact ih _
      · exact True.intro
  rw [fetchRead]
  split
  · exact readInto_spares inbuf fd _ _
  · exact hloop _ _

theorem fetchSend_spares (payload : Bytes Byte) : Spares (fetchSend payload) := by
  refine spares_ask rfl fun r => ?_
  cases r with
  | error rc => exact fetchErrorWith_spares _
  | ok u =>
    refine spares_ask rfl fun r => ?_
    cases r with
    | error rc => exact fetchErrorWith_spares _
    | ok u =>
      exact spares_ask rfl fun _ => spares_ask rfl fun _ =>
        spares_ask rfl fun _ => True.intro

theorem fetchOpened_spares (ucxBuild : Bool) (fd : Nat) :
    Spares (fetchOpened ucxBuild fd) := by
  have hbuffered : ∀ inbuf fileSize,
      Spares (fetchBuffered ucxBuild inbuf fd fileSize) := by
    intro inbuf fileSize
    rw [fetchBuffered]
    split
    · exact spares_ask rfl fun r => r.elim
    · split
      · refine (fetchRead_spares inbuf fd fileSize).bind fun r => ?_
        cases r with
        | none => exact fetchError_spares fd
        | some content =>
          dsimp only
          split
          · exact fetchError_spares fd
          · exact (releaseFlock_spares fd).bind fun _ =>
              spares_ask rfl fun _ => fetchSend_spares _
      · exact fetchError_spares fd
  refine (sharedFlock_spares fd).bind fun rc => ?_
  split
  · exact fetchError_spares fd
  · refine (getFileSize_spares fd).bind fun fileSize => ?_
    exact spares_ask rfl fun r => by cases r <;> exact hbuffered _ _

theorem fetchRequest_spares (ucxBuild : Bool) :
    Spares (dyadFetchRequestCb ucxBuild) := by
  refine spares_ask rfl fun streaming => ?_
  split
  · refine spares_ask rfl fun r => ?_
    cases r with
    | error e => exact fetchErrorWoFlock_spares
    | ok u =>
      refine spares_ask rfl fun r => ?_
      cases r with
      | nullAddress => exact spares_ask rfl fun r => r.elim
      | error rc => exact fetchErrorWith_spares _
      | ok =>
        refine spares_ask rfl fun r => ?_
        cases r with
        | error rc => exact fetchErrorWoFlock_spares
        | ok u =>
          refine spares_ask rfl fun r => ?_
          cases r with
          | error e => exact fetchErrorWoFlock_spares
          | ok fd => exact fetchOpened_spares ucxBuild fd
  · exact fetchErrorWith_spares _

/-! ## Every run -/

theorem works_job {j : Job} (h : (evictorRuns ctx).start w t j) :
    Works ctx t (j.program ctx) := by
  obtain ⟨ht, rfl | ⟨ucxBuild, rfl⟩ | ⟨fuel, rfl | ⟨mdata, rfl⟩⟩⟩ := h
  · exact (passRules ht).maybeEvict ctx
  · exact triple_spares ht (fetchRequest_spares ucxBuild)
  · exact works_consume ht fuel
  · exact works_consumeWMetadata ht mdata fuel

/-- The locks of a process that dies are not those of another. -/
theorem rely_crash (w : Node) {p : Nat} (hp : t.1 ≠ p) : Rely t w (w.crash p) where
  next := Nat.le_refl _
  lockFile _ hc := hc
  locks i m _ := by
    show ((w.os.locks i).release p).Holds t.1 m ↔ _
    rw [LockTable.holds_release]
    exact ⟨fun h => h.2, fun h => ⟨hp, h⟩⟩
  names _ _ _ _ h := h

theorem moves_setBusy (b : Bool) : (spec ctx).Moves t w (w.setBusy t b) where
  inv := True.intro
  guar := True.intro
  rely _ _ _ :=
    ⟨Nat.le_refl _, fun _ h => h, fun _ _ _ => Iff.rfl, fun _ _ _ _ h => h⟩

theorem sound : (spec ctx).Sound where
  idle_stable _ := Spec.Stable.true
  start w t j p _ _ hs hj := by
    obtain rfl := Option.some.inj hj
    exact ⟨moves_setBusy true, works_job hs _ True.intro True.intro⟩
  finish _ _ _ _ _ _ := ⟨moves_setBusy false, True.intro⟩
  crash w p _ _ := by
    refine ⟨True.intro, True.intro, fun u => ?_⟩
    split
    · exact True.intro
    · next hup => exact fun _ => rely_crash w hup

/-- Thread `t` is about to unlink `n`. -/
def Unlinking (s : NodeCfg) (t : Tid) (n : Name) : Prop :=
  ∃ (j : Job) (k : (Sys.unlink n : Sys Name Byte).Res → Program j.Res),
    s.thread t = some ⟨j, .call (.sys (.unlink n)) k⟩

/-- In every state of every such run, a thread that is about to unlink a name
is the only one that is, the name is not the lock file's, and the file it
links, if there is one, is locked by the thread's process and by no other. -/
theorem unlinks_own {s : NodeCfg}
    (h : ((node ctx).lts fun _ => True).Reach (evictorRuns ctx).Allows s)
    (hn : Unlinking s t n) :
    n ≠ .cacheLock ∧ (∀ u m, Unlinking s u m → u = t) ∧
      ∀ i, s.world.os.dir n = some i →
        (s.world.os.locks i).Holds t.1 .excl ∧
        ∀ q m, (s.world.os.locks i).Holds q m → q = t.1 := by
  have hgood : (spec ctx).Good s :=
    sound.reach (fun _ _ => ⟨True.intro, fun _ => True.intro⟩) h
  have hone : ∀ w u j, (evictorRuns ctx).start w u j → u.2 = 0 :=
    fun _ _ _ hs => hs.1
  have hfirst : ∀ {u m}, Unlinking s u m → u.2 = 0 := by
    rintro u m ⟨j, k, hth⟩
    exact Machine.reach_started hone h hth
  have hreq : ∀ {u m}, Unlinking s u m → Req s.world u (.sys (.unlink m)) := by
    rintro u m ⟨j, k, hth⟩
    exact hgood.req hth
  obtain ⟨hlock, ⟨c, hturn⟩, hfile⟩ := hreq hn
  refine ⟨hlock, fun u m hu => ?_, fun i hi =>
    ⟨hfile i hi, fun q m hq => (hfile i hi).excl_unique hq⟩⟩
  -- both have the lock of the lock file
  obtain ⟨-, ⟨d, hother⟩, -⟩ := hreq hu
  obtain rfl : c = d := Option.some.inj (hturn.1.symm.trans hother.1)
  exact first_unique (hfirst hu) (hfirst hn) (hturn.2.excl_unique hother.2)

/-! ## A run -/

/-- What an evictor finds when the copy is all there is. -/
def scansCopy (t : Tid) : List NodeLabel :=
  .act t (.count 1) :: .act t (.dirent (.name .data)) :: .act t (.os .ok) ::
  .act t (.stamp ⟨true, 0, some 0⟩) :: .act t (.os .ok) :: []

/-- A consumer stores two bytes where one is allowed, and turns to evicting
them; another has opened the copy by then. -/
def takesCopy : List NodeLabel :=
  .start (0, 0) (.consume 1) :: goes (0, 0) 10 ++ scansCopy (0, 0) ++
    goes (0, 0) 2 ++ scansCopy (0, 0) ++ .act (0, 0) (.time 0) ::
    .start (1, 0) (.consume 1) :: goes (1, 0) 1 ++ goes (0, 0) 2

/-- Where that leads. -/
def copyTaken : NodeCfg :=
  (((node Ctx.evicting).lts fun _ => True).replay twoBytes.idle
    takesCopy).getD twoBytes.idle

theorem unlinks_own_copyTaken :
    Unlinking copyTaken (0, 0) .data ∧
      ∃ i, copyTaken.world.os.dir .data = some i ∧
        (copyTaken.world.os.locks i).Holds 0 .excl := by
  have htaken : Unlinking copyTaken (0, 0) .data := ⟨_, _, rfl⟩
  have hown := @unlinks_own Ctx.evicting (0, 0) .data copyTaken ?_ htaken
  · exact ⟨htaken, 1, rfl, (hown.2.2 1 rfl).1⟩
  refine Lts.Reach.of_replay (φ := consumes fun _ => true)
    ⟨True.intro, fun _ => rfl⟩
    (Machine.Guard.allows_of_check (fun _ _ _ _ _ => True.intro)
      (fun _ _ h => absurd h (by simp)) fun w t j h => ?_)
    (by decide) (by decide)
  obtain ⟨ht, fuel, hj⟩ := start_of_consumes w t j h
  exact ⟨ht, Or.inr (Or.inr ⟨fuel, hj.imp_right fun h => ⟨true, h⟩⟩)⟩

end Dyad.Evicting
