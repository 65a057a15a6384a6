import Dyad.Proofs.RangeCacheSound

/-!
# No bit of the bitmap is lost

The bitmap is read, changed and written back as a whole, so two recordings
that overlap could each write back what the other has not seen. The record
lock keeps the recordings of different processes apart. It belongs to the
process, so the threads of one process are kept apart by the mutex; but one
thread's `close` of the bitmap drops the lock of all of them, and the source
closes after it has let go of the mutex.

Here the threads are as many as one likes, in as many processes, and the one
thing that is asked of a close is that no other thread of its process is in a
critical section at that moment. Then whoever stands between the read and the
write-back stands there alone, and a bit that is set stays set.
-/

namespace Dyad.Merging

open Conc Posix

variable {ctx : Ctx} {size : Nat} {t u : Tid} {w w' w'' : Node} {c i : Nat}

/-- The size of the bitmap of an origin of so many bytes. -/
def bitmapBytes (size : Nat) : Nat :=
  rangeCacheBitmapBytes (rangeCacheNumBlocks size)

/-- The range requests of consumers, and the workers of services. A read of
the bitmap does not fail, and no thread closes the bitmap while another of its
process is in a critical section. -/
def mergingRuns (ctx : Ctx) : Machine.Guard (node ctx) where
  act w t cl x :=
    match cl with
    | .sys (.pread i ..) => w.os.dir .bitmap = some i → x = .os .ok
    | .sys (.close i) =>
      w.os.dir .bitmap = some i → ∀ u, w.os.mutex t.1 = some u → u = t
    | _ => True
  crash _ _ := True
  start _ _ j := (∃ offset length : UInt64,
    j = .ensure offset length ∨ j = .consumeRange offset length) ∨
    ∃ item, j = .worker item

/-- The origin does not change, and the bitmap is not larger than it should
be. -/
structure Inv (size : Nat) (w : Node) : Prop where
  origin : ∀ i, w.os.dir .origin = some i → (w.os.file i).size = size
  bitmap : ∀ c, w.os.dir .bitmap = some c →
    (w.os.file c).size ≤ bitmapBytes size

/-- The bitmap stays, and so do its bits. -/
structure Grows (w w' : Node) : Prop where
  dir : ∀ c, w.os.dir .bitmap = some c → w'.os.dir .bitmap = some c
  bits : ∀ c, w.os.dir .bitmap = some c →
    ∀ b, Bit (w.os.file c) b → Bit (w'.os.file c) b

/-- What the others leave alone: the bits that are set, and while `t` has the
mutex its process's locks on the bitmap, and the bitmap if one of these is
exclusive. -/
structure Rely (t : Tid) (w w' : Node) : Prop extends Grows w w' where
  next : w.os.next ≤ w'.os.next
  born : ∀ i, i < w.os.next → w'.os.born i = w.os.born i
  mutex : w.os.mutex t.1 = some t → w'.os.mutex t.1 = some t
  locks : w.os.mutex t.1 = some t → ∀ c, w.os.dir .bitmap = some c →
    ∀ m, (w.os.locks c).Holds t.1 m → (w'.os.locks c).Holds t.1 m
  frozen : w.os.mutex t.1 = some t → ∀ c, w.os.dir .bitmap = some c →
    (w.os.locks c).Holds t.1 .excl → w'.os.file c = w.os.file c

theorem Grows.rfl (w : Node) : Grows w w := ⟨fun _ h => h, fun _ _ _ h => h⟩

theorem Grows.trans (h : Grows w w') (h' : Grows w' w'') : Grows w w'' :=
  ⟨fun c hc => h'.dir c (h.dir c hc),
    fun c hc b hb => h'.bits c (h.dir c hc) b (h.bits c hc b hb)⟩

theorem Rely.rfl (t : Tid) (w : Node) : Rely t w w :=
  ⟨Grows.rfl w, Nat.le_refl _, fun _ _ => Eq.refl _, fun h => h,
    fun _ _ _ _ h => h, fun _ _ _ _ => Eq.refl _⟩

theorem Rely.trans (h : Rely t w w') (h' : Rely t w' w'') : Rely t w w'' where
  toGrows := h.toGrows.trans h'.toGrows
  next := Nat.le_trans h.next h'.next
  born i hi := (h'.born i (Nat.lt_of_lt_of_le hi h.next)).trans (h.born i hi)
  mutex hm := h'.mutex (h.mutex hm)
  locks hm c hc m hl := h'.locks (h.mutex hm) c (h.dir c hc) m (h.locks hm c hc m hl)
  frozen hm c hc hl :=
    (h'.frozen (h.mutex hm) c (h.dir c hc) (h.locks hm c hc _ hl)).trans
      (h.frozen hm c hc hl)

/-- The thread is in a critical section. -/
def Inside (t : Tid) (c : Nat) (w : Node) : Prop :=
  w.os.dir .bitmap = some c ∧ w.os.mutex t.1 = some t

/-- The thread is in a critical section with the exclusive lock. -/
def Alone (t : Tid) (c : Nat) (w : Node) : Prop :=
  Inside t c w ∧ (w.os.locks c).Holds t.1 .excl

/-- Locks of the bitmap are taken and dropped in a critical section, and it is
written with the exclusive lock only: what is written has all the bits there
are. -/
def Req (size : Nat) (w : Node) (t : Tid) : Call → Prop
  | .sys (.open n creat trunc) => trunc = false ∧ (creat = true → n ≠ .origin)
  | .sys (.setlkw i _) => w.os.dir .bitmap = some i → w.os.mutex t.1 = some t
  | .sys (.setlk i _) => w.os.dir .bitmap = some i → w.os.mutex t.1 = some t
  | .sys (.unlock i) => w.os.dir .bitmap = some i → w.os.mutex t.1 = some t
  | .sys (.ftruncate i n) => w.os.dir .origin ≠ some i ∧
      (w.os.dir .bitmap = some i → Alone t i w ∧ n = bitmapBytes size)
  | .sys (.pwrite i off d) => w.os.dir .origin ≠ some i ∧
      (w.os.dir .bitmap = some i → Alone t i w ∧ off = 0 ∧
        d.size = bitmapBytes size ∧ ∀ b, Bit (w.os.file i) b → Bit d b)
  | .sys (.unlink _) => False
  | .sys .mutexUnlock => w.os.mutex t.1 = some t
  | _ => True

/-- The blocks of the span are marked. -/
def Marked (bs be c : Nat) (w : Node) : Prop :=
  w.os.dir .bitmap = some c ∧ ∀ b, bs ≤ b → b ≤ be → Bit (w.os.file c) b

/-- What a job promises: the blocks of a range that has been made present are
marked. -/
def Done (ctx : Ctx) : (j : Job) → j.Res → Node → Prop
  | .ensure offset length, rc, w =>
    rc = .ok → ctx.originPath = true → length ≠ 0 →
      ∃ c, Marked (blockStart offset) (blockEnd offset length) c w
  | _, _, _ => True

/-- The outline. -/
def spec (ctx : Ctx) (size : Nat) : Spec (node ctx) where
  Inv := Inv size
  Rely := Rely
  Guar := Grows
  Req := Req size
  Idle _ _ := True
  Post _ := Done ctx
  guard := mergingRuns ctx
  rely_refl := Rely.rfl
  rely_trans _ _ _ _ := Rely.trans
  guar_refl := Grows.rfl
  guar_trans _ _ _ := Grows.trans

/-! ## Steps -/

/-- A step away from the bitmap. -/
structure Aside (w w' : Node) : Prop where
  dir : ∀ c, w.os.dir .bitmap = some c → w'.os.dir .bitmap = some c
  file : ∀ c, w.os.dir .bitmap = some c → w'.os.file c = w.os.file c
  locks : ∀ c, w.os.dir .bitmap = some c → w'.os.locks c = w.os.locks c
  mutex : w'.os.mutex = w.os.mutex
  next : w.os.next ≤ w'.os.next
  born : ∀ i, i < w.os.next → w'.os.born i = w.os.born i
  origin : ∀ i, w'.os.dir .origin = some i →
    w.os.dir .origin = some i ∧ w'.os.file i = w.os.file i
  fresh : ∀ c, w'.os.dir .bitmap = some c →
    w.os.dir .bitmap = some c ∨ (w'.os.file c).size = 0

theorem Aside.of_os (h : w'.os = w.os) : Aside w w' := by
  constructor <;> rw [h] <;> simp_all

theorem Aside.rely (h : Aside w w') (t : Tid) : Rely t w w' where
  dir := h.dir
  bits c hc b hb := by rwa [h.file c hc]
  next := h.next
  born := h.born
  mutex hm := by rwa [h.mutex]
  locks _ c hc m hl := by rwa [h.locks c hc]
  frozen _ c hc _ := h.file c hc

theorem Aside.inv (h : Aside w w') (hi : Inv size w) : Inv size w' where
  origin i hd := by
    obtain ⟨hd₀, hf⟩ := h.origin i hd
    rw [hf]
    exact hi.origin i hd₀
  bitmap c hc := by
    rcases h.fresh c hc with hc₀ | hz
    · rw [h.file c hc₀]
      exact hi.bitmap c hc₀
    · omega

theorem Aside.setFile {f : Bytes Byte} (hb : w.os.dir .bitmap ≠ some i)
    (ho : w.os.dir .origin ≠ some i) :
    Aside w { w with os := w.os.setFile i f } where
  dir _ h := h
  file c hc := by
    have hci : c ≠ i := fun h => hb (h ▸ hc)
    rw [Os.setFile_file, Function.update_of_ne hci]
  locks _ _ := rfl
  mutex := rfl
  next := Nat.le_refl _
  born _ _ := rfl
  origin j hj := by
    have hji : j ≠ i := fun h => ho (h ▸ hj)
    refine ⟨hj, ?_⟩
    rw [Os.setFile_file, Function.update_of_ne hji]
  fresh _ h := Or.inl h

theorem Aside.setLocks {l : LockTable Nat} (hb : w.os.dir .bitmap ≠ some i) :
    Aside w { w with os := w.os.setLocks i l } where
  dir _ h := h
  file _ _ := rfl
  locks c hc := by
    have hci : c ≠ i := fun h => hb (h ▸ hc)
    rw [Os.setLocks_locks, Function.update_of_ne hci]
  mutex := rfl
  next := Nat.le_refl _
  born _ _ := rfl
  origin _ h := ⟨h, rfl⟩
  fresh _ h := Or.inl h

theorem Aside.create {n : Name} (hn : w.os.dir n = none) (ho : n ≠ .origin) :
    Aside w { w with os := w.os.create n } where
  dir c hc := by
    have hnb : Name.bitmap ≠ n := fun h => by
      rw [← h, hc] at hn
      exact absurd hn (by simp)
    show Function.update w.os.dir n (some w.os.next) .bitmap = some c
    rwa [Function.update_of_ne hnb]
  file c hc := by
    have := (w.os.linked _ _ hc).1
    rw [Os.create_file, Function.update_of_ne (by omega)]
  locks c hc := by
    have := (w.os.linked _ _ hc).1
    rw [Os.create_locks, Function.update_of_ne (by omega)]
  mutex := rfl
  next := Nat.le_succ _
  born i hi := by rw [Os.create_born, Function.update_of_ne (by omega)]
  origin i hi := by
    have hi' : Function.update w.os.dir n (some w.os.next) .origin = some i := hi
    rw [Function.update_of_ne ho.symm] at hi'
    have := (w.os.linked _ _ hi').1
    exact ⟨hi', by rw [Os.create_file, Function.update_of_ne (by omega)]⟩
  fresh c hc := by
    have hc' : Function.update w.os.dir n (some w.os.next) .bitmap = some c := hc
    by_cases hnb : Name.bitmap = n
    · rw [hnb, Function.update_self] at hc'
      obtain rfl := Option.some.inj hc'
      right
      rw [Os.create_file, Function.update_self]
      rfl
    · rw [Function.update_of_ne hnb] at hc'
      exact Or.inl hc'

/-- The calls that are made away from the bitmap. -/
def AsideCall (w : Node) : Call → Prop
  | .sys (.setlkw i _) => w.os.dir .bitmap ≠ some i
  | .sys (.setlk i _) => w.os.dir .bitmap ≠ some i
  | .sys (.unlock i) => w.os.dir .bitmap ≠ some i
  | .sys (.close i) => w.os.dir .bitmap ≠ some i
  | .sys (.ftruncate i _) => w.os.dir .bitmap ≠ some i
  | .sys (.pwrite i ..) => w.os.dir .bitmap ≠ some i
  | .sys .mutexLock => False
  | .sys .mutexUnlock => False
  | _ => True

theorem aside_exec {cl : Call} {x : Choice} {r : cl.Res} (ha : AsideCall w cl)
    (hreq : Req size w t cl) (h : w.exec t cl x = some (w', r)) : Aside w w' := by
  have hstay : Aside w w := Aside.of_os rfl
  cases cl with
  | sys c =>
    obtain ⟨o, os', rfl, hos, rfl⟩ := Node.exec_sys h
    cases c with
    | «open» n creat trunc =>
      obtain ⟨rfl, hn⟩ := hreq
      rcases Os.exec_open hos with ⟨e, -, rfl⟩ | ⟨i, -, -, rfl⟩ |
          ⟨hd, hcreat, -, rfl⟩
      · exact hstay
      · exact hstay
      · exact Aside.create hd (hn hcreat)
    | close i =>
      obtain rfl := Os.exec_close hos
      exact Aside.setLocks ha
    | setlkw i m =>
      rcases Os.exec_setlkw hos with ⟨e, -, rfl⟩ | ⟨l, -, -, rfl⟩
      · exact hstay
      · exact Aside.setLocks ha
    | setlk i m =>
      rcases Os.exec_setlk hos with ⟨e, -, rfl⟩ | ⟨l, -, -, rfl⟩
      · exact hstay
      · exact Aside.setLocks ha
    | unlock i =>
      rcases Os.exec_unlock hos with ⟨e, -, rfl⟩ | ⟨-, rfl⟩
      · exact hstay
      · exact Aside.setLocks ha
    | fstat i =>
      obtain ⟨rfl, -⟩ := Os.exec_fstat hos
      exact hstay
    | stat n =>
      obtain ⟨rfl, -⟩ := Os.exec_stat hos
      exact hstay
    | ftruncate i n =>
      rcases Os.exec_ftruncate hos with ⟨e, -, rfl⟩ | ⟨-, rfl⟩
      · exact hstay
      · exact Aside.setFile ha hreq.1
    | pread i off len =>
      obtain ⟨rfl, -⟩ := Os.exec_pread hos
      exact hstay
    | pwrite i off d =>
      rcases Os.exec_pwrite hos with ⟨e, -, -, rfl⟩ | ⟨-, -, rfl⟩ |
          ⟨k, -, -, -, rfl⟩
      · exact hstay
      · exact Aside.setFile ha hreq.1
      · exact Aside.setFile ha hreq.1
    | unlink n => exact hreq.elim
    | malloc n =>
      obtain ⟨rfl, -⟩ := Os.exec_malloc hos
      exact hstay
    | mutexLock => exact ha.elim
    | mutexUnlock => exact ha.elim
  | kvsCommit =>
    cases x with
    | count rank =>
      obtain ⟨rfl, -⟩ := Prod.mk.inj (Option.some.inj h)
      exact Aside.of_os rfl
    | rc rc =>
      simp only [Node.exec] at h
      split at h
      · obtain ⟨rfl, -⟩ := Prod.mk.inj (Option.some.inj h)
        exact hstay
      · exact absurd h (by simp)
    | _ => exact absurd h (by simp [Node.exec])
  | _ =>
    obtain ⟨rfl, -⟩ := Node.exec_quiet rfl h
    exact hstay

theorem moves_aside (hi : Inv size w) (h : Aside w w') :
    (spec ctx size).Moves t w w' :=
  ⟨h.inv hi, (h.rely t).toGrows, fun u _ => h.rely u⟩

/-- The locks of `t`'s process on the bitmap change while no other thread of
it has the mutex. -/
theorem moves_setLocks (ctx : Ctx) (hi : Inv size w) {l : LockTable Nat}
    (hm : ∀ u, w.os.mutex t.1 = some u → u = t)
    (hl : ∀ q m, q ≠ t.1 → ((w.os.locks i).Holds q m → l.Holds q m)) :
    (spec ctx size).Moves t w { w with os := w.os.setLocks i l } where
  inv := ⟨hi.origin, hi.bitmap⟩
  guar := ⟨fun _ h => h, fun _ _ _ h => h⟩
  rely u hu := {
    dir := fun _ h => h
    bits := fun _ _ _ h => h
    next := Nat.le_refl _
    born := fun _ _ => rfl
    mutex := fun h => h
    locks := fun hu' c _ m hh => by
      have hut : u.1 ≠ t.1 := fun heq => hu (hm u (heq ▸ hu'))
      by_cases hci : c = i
      · subst hci
        rw [Os.setLocks_locks, Function.update_self]
        exact hl u.1 m hut hh
      · rwa [Os.setLocks_locks, Function.update_of_ne hci]
    frozen := fun _ _ _ _ => rfl }

theorem moves_release (ctx : Ctx) (hi : Inv size w) (i : Nat)
    (hm : ∀ u, w.os.mutex t.1 = some u → u = t) :
    (spec ctx size).Moves t w
      { w with os := w.os.setLocks i ((w.os.locks i).release t.1) } :=
  moves_setLocks ctx hi hm fun _ _ hq h => LockTable.holds_release.2 ⟨hq, h⟩

theorem moves_acquire (ctx : Ctx) (hi : Inv size w) {l : LockTable Nat} {m : LockMode}
    (hm : ∀ u, w.os.mutex t.1 = some u → u = t)
    (hl : (w.os.locks i).acquire t.1 m = some l) :
    (spec ctx size).Moves t w { w with os := w.os.setLocks i l } :=
  moves_setLocks ctx hi hm fun _ _ hq h =>
    (LockTable.holds_acquire hl).2 (Or.inr ⟨hq, h⟩)

/-- The bitmap is written alone. -/
theorem moves_setBitmap (hi : Inv size w) (ha : Alone t c w) {f : Bytes Byte}
    (hs : f.size ≤ bitmapBytes size)
    (hbits : ∀ b, Bit (w.os.file c) b → Bit f b) :
    (spec ctx size).Moves t w { w with os := w.os.setFile c f } := by
  obtain ⟨⟨hc, hm⟩, hexcl⟩ := ha
  have hfile : ∀ d, d ≠ c → (w.os.setFile c f).file d = w.os.file d :=
    fun d hd => by rw [Os.setFile_file, Function.update_of_ne hd]
  have hself : (w.os.setFile c f).file c = f := by
    rw [Os.setFile_file, Function.update_self]
  have hgrows : Grows w { w with os := w.os.setFile c f } :=
    ⟨fun _ h => h, fun d hd b hb => by
      obtain rfl : c = d := Option.some.inj (hc.symm.trans hd)
      show Bit ((w.os.setFile c f).file c) b
      rw [hself]
      exact hbits b hb⟩
  refine ⟨⟨fun i hd => ?_, fun d hd => ?_⟩, hgrows, fun u hu => ⟨hgrows,
    Nat.le_refl _, fun _ _ => rfl, fun h => h, fun _ _ _ _ h => h,
    fun hu' d hd hh => ?_⟩⟩
  · have hic : i ≠ c := fun h => by
      have hborn := (w.os.linked _ _ hd).2
      rw [h, (w.os.linked _ _ hc).2] at hborn
      exact absurd hborn (by simp)
    show ((w.os.setFile c f).file i).size = size
    rw [hfile i hic]
    exact hi.origin i hd
  · obtain rfl : c = d := Option.some.inj (hc.symm.trans hd)
    show ((w.os.setFile c f).file c).size ≤ bitmapBytes size
    rw [hself]
    exact hs
  · -- the exclusive lock would be another process's, the mutex another's
    obtain rfl : c = d := Option.some.inj (hc.symm.trans hd)
    have hut : u.1 = t.1 := hexcl.excl_unique hh
    rw [hut, hm] at hu'
    exact absurd (Option.some.inj hu').symm hu

theorem moves_setMutex (ctx : Ctx) (hi : Inv size w) (o : Option Tid)
    (hm : ∀ u, w.os.mutex t.1 = some u → u = t) :
    (spec ctx size).Moves t w
      { w with os := w.os.setMutex t.1 o } where
  inv := ⟨hi.origin, hi.bitmap⟩
  guar := ⟨fun _ h => h, fun _ _ _ h => h⟩
  rely u hu := {
    dir := fun _ h => h
    bits := fun _ _ _ h => h
    next := Nat.le_refl _
    born := fun _ _ => rfl
    mutex := fun hu' => by
      have hut : u.1 ≠ t.1 := fun heq => hu (hm u (heq ▸ hu'))
      rwa [Os.setMutex_mutex, Function.update_of_ne hut]
    locks := fun _ _ _ _ h => h
    frozen := fun _ _ _ _ => rfl }

/-! ## Assertions -/

/-- The file `i` was created under the name `n`. -/
def As (n : Name) (i : Nat) (w : Node) : Prop :=
  i < w.os.next ∧ w.os.born i = n

theorem As.of_dir {n : Name} (h : w.os.dir n = some i) : As n i w :=
  w.os.linked _ _ h

theorem As.ne {n m : Name} (h : As n i w) (hm : m ≠ n) : w.os.dir m ≠ some i :=
  fun hd => hm ((w.os.linked _ _ hd).2.symm.trans h.2)

/-- The bitmap as it was read in a critical section. -/
def Read (size : Nat) (t : Tid) (c : Nat) (bitmap : Bytes Byte) (w : Node) : Prop :=
  Alone t c w ∧ bitmap.size = bitmapBytes size ∧
    ∀ b, Bit bitmap b ↔ Bit (w.os.file c) b

/-- What no step of anybody makes false. -/
def Lasts (R : Node → Prop) : Prop := ∀ w w', Grows w w' → R w → R w'

theorem Rely.inside (h : Rely t w w') (hp : Inside t c w) : Inside t c w' :=
  ⟨h.dir c hp.1, h.mutex hp.2⟩

theorem Rely.alone (h : Rely t w w') (hp : Alone t c w) : Alone t c w' :=
  ⟨h.inside hp.1, h.locks hp.1.2 c hp.1.1 _ hp.2⟩

theorem Rely.read {bitmap : Bytes Byte} (h : Rely t w w')
    (hp : Read size t c bitmap w) : Read size t c bitmap w' := by
  refine ⟨h.alone hp.1, hp.2.1, fun b => ?_⟩
  rw [h.frozen hp.1.1.2 c hp.1.1.1 hp.1.2]
  exact hp.2.2 b

theorem stable_inside : (spec ctx size).Stable t (Inside t c) :=
  fun _ _ _ _ hr h => hr.inside h

theorem stable_alone : (spec ctx size).Stable t (Alone t c) :=
  fun _ _ _ _ hr h => hr.alone h

theorem stable_read {bitmap : Bytes Byte} :
    (spec ctx size).Stable t (Read size t c bitmap) :=
  fun _ _ _ _ hr h => hr.read h

theorem stable_as {n : Name} : (spec ctx size).Stable t (As n i) :=
  fun _ _ _ _ hr h =>
    ⟨Nat.lt_of_lt_of_le h.1 hr.next, (hr.born i h.1).trans h.2⟩

theorem Lasts.stable {R : Node → Prop} (h : Lasts R) :
    (spec ctx size).Stable t R :=
  fun w w' _ _ hr hp => h w w' hr.toGrows hp

theorem lasts_dir : Lasts fun w => w.os.dir .bitmap = some c :=
  fun _ _ hg h => hg.dir c h

theorem lasts_marked {bs be : Nat} : Lasts (Marked bs be c) :=
  fun _ _ hg h => ⟨hg.dir c h.1, fun b hb hbe => hg.bits c h.1 b (h.2 b hb hbe)⟩

theorem Lasts.imp {φ : Prop} {R : Node → Prop} (h : Lasts R) :
    Lasts fun w => φ → R w :=
  fun w w' hg hp hφ => h w w' hg (hp hφ)

theorem Lasts.and {R R' : Node → Prop} (h : Lasts R) (h' : Lasts R') :
    Lasts fun w => R w ∧ R' w :=
  fun w w' hg hp => ⟨h w w' hg hp.1, h' w w' hg hp.2⟩

/-! ## Rules -/

section

variable {P R : Node → Prop} {cl : Call}

/-- A call away from the bitmap leaves what the others leave. -/
theorem atomic_aside {F : cl.Res → Node → Prop}
    (hP : (spec ctx size).Stable t P) (ha : ∀ w, P w → AsideCall w cl)
    (hreq : ∀ w, P w → Req size w t cl)
    (hF : ∀ w x w' r, P w → w.exec t cl x = some (w', r) →
      (mergingRuns ctx).act w t cl x → F r w') :
    (spec ctx size).Atomic t P cl fun r w => F r w ∧ P w := by
  intro w hi hp
  refine ⟨hreq w hp, fun x w' r hex hok => ?_⟩
  have haside := aside_exec (ha w hp) (hreq w hp) hex
  exact ⟨moves_aside hi haside, hF w x w' r hp hex hok,
    hP w w' hi (haside.inv hi) (haside.rely t) hp⟩

/-- A call away from the bitmap whose answer does not matter. -/
theorem atomic_skip (hP : (spec ctx size).Stable t P)
    (ha : ∀ w, P w → AsideCall w cl) (hreq : ∀ w, P w → Req size w t cl) :
    (spec ctx size).Atomic t P cl fun _ => P :=
  (atomic_aside (F := fun _ _ => True) hP ha hreq
    fun _ _ _ _ _ _ _ => True.intro).imp (fun _ _ h => h) fun _ _ _ h => h.2

/-- A call that is made anywhere. -/
theorem atomic_free (hP : (spec ctx size).Stable t P)
    (hc : cl.reads = true) : (spec ctx size).Atomic t P cl fun _ => P := by
  have hfree : ∀ w, AsideCall w cl ∧ Req size w t cl := by
    intro w
    cases cl with
    | sys c =>
      cases c <;> first
        | exact ⟨True.intro, True.intro⟩
        | exact absurd hc (by simp [Call.reads, Call.quiet])
    | _ => exact ⟨True.intro, True.intro⟩
  exact atomic_skip hP (fun w _ => (hfree w).1) fun w _ => (hfree w).2

end

/-! ## Critical sections -/

section

variable {R : Node → Prop}

theorem Inside.alone_mutex (h : Inside t c w) :
    ∀ u, w.os.mutex t.1 = some u → u = t :=
  fun _ hu => (Option.some.inj (h.2.symm.trans hu)).symm

theorem stable_insideAnd (hR : Lasts R) :
    (spec ctx size).Stable t fun w => Inside t c w ∧ R w :=
  stable_inside.and hR.stable

theorem stable_dirAnd (hR : Lasts R) :
    (spec ctx size).Stable t fun w => w.os.dir .bitmap = some c ∧ R w :=
  (lasts_dir.and hR).stable

theorem atomic_mutexLock (hR : Lasts R) :
    (spec ctx size).Atomic t (fun w => w.os.dir .bitmap = some c ∧ R w)
      (.sys .mutexLock) fun _ w => Inside t c w ∧ R w := by
  intro w hi hp
  refine ⟨True.intro, fun x w' r hex _ => ?_⟩
  obtain ⟨o, os', rfl, hos, rfl⟩ := Node.exec_sys hex
  obtain ⟨hm, rfl⟩ := Os.exec_mutexLock hos
  have hmoves := moves_setMutex ctx hi (some t) fun u hu => by
    rw [hm] at hu
    exact absurd hu (by simp)
  refine ⟨hmoves, ⟨hp.1, ?_⟩, hR _ _ hmoves.guar hp.2⟩
  rw [Os.setMutex_mutex, Function.update_self]

theorem atomic_mutexUnlock (hR : Lasts R) :
    (spec ctx size).Atomic t (fun w => Inside t c w ∧ R w) (.sys .mutexUnlock)
      fun _ w => w.os.dir .bitmap = some c ∧ R w := by
  intro w hi hp
  refine ⟨hp.1.2, fun x w' r hex _ => ?_⟩
  obtain ⟨o, os', rfl, hos, rfl⟩ := Node.exec_sys hex
  obtain rfl := Os.exec_mutexUnlock hos
  have hmoves := moves_setMutex ctx hi none hp.1.alone_mutex
  exact ⟨hmoves, hp.1.1, hR _ _ hmoves.guar hp.2⟩

/-- The lock is asked for. -/
theorem atomic_setlkw (hR : Lasts R) (m : LockMode) :
    (spec ctx size).Atomic t (fun w => Inside t c w ∧ R w) (.sys (.setlkw c m))
      fun r w => (r = .ok () → (w.os.locks c).Holds t.1 m) ∧
        Inside t c w ∧ R w := by
  intro w hi hp
  refine ⟨fun _ => hp.1.2, fun x w' r hex _ => ?_⟩
  obtain ⟨o, os', rfl, hos, rfl⟩ := Node.exec_sys hex
  rcases Os.exec_setlkw hos with ⟨e, rfl, rfl⟩ | ⟨l, hl, rfl, rfl⟩
  · exact ⟨Spec.Moves.stay hi, fun h => absurd h (by simp), hp⟩
  · have hmoves := moves_acquire ctx hi hp.1.alone_mutex hl
    refine ⟨hmoves, fun _ => ?_, hp.1, hR _ _ hmoves.guar hp.2⟩
    rw [Os.setLocks_locks, Function.update_self]
    exact (LockTable.holds_acquire hl).2 (Or.inl ⟨rfl, rfl⟩)

theorem atomic_unlock (hR : Lasts R) :
    (spec ctx size).Atomic t (fun w => Inside t c w ∧ R w) (.sys (.unlock c))
      fun _ w => Inside t c w ∧ R w := by
  intro w hi hp
  refine ⟨fun _ => hp.1.2, fun x w' r hex _ => ?_⟩
  obtain ⟨o, os', rfl, hos, rfl⟩ := Node.exec_sys hex
  rcases Os.exec_unlock hos with ⟨e, -, rfl⟩ | ⟨-, rfl⟩
  · exact ⟨Spec.Moves.stay hi, hp⟩
  · have hmoves := moves_release ctx hi c hp.1.alone_mutex
    exact ⟨hmoves, hp.1, hR _ _ hmoves.guar hp.2⟩

theorem atomic_close (hR : Lasts R) :
    (spec ctx size).Atomic t (fun w => w.os.dir .bitmap = some c ∧ R w)
      (.sys (.close c)) fun _ w => w.os.dir .bitmap = some c ∧ R w := by
  intro w hi hp
  refine ⟨True.intro, fun x w' r hex hok => ?_⟩
  obtain ⟨o, os', rfl, hos, rfl⟩ := Node.exec_sys hex
  obtain rfl := Os.exec_close hos
  have hmoves := moves_release ctx hi c (hok hp.1)
  exact ⟨hmoves, hp.1, hR _ _ hmoves.guar hp.2⟩

theorem triple_exclFlock (hR : Lasts R) :
    (spec ctx size).Triple t (fun w => Inside t c w ∧ R w) (dyadExclFlock c)
      fun rc w => (rc.isError = false → Alone t c w) ∧ Inside t c w ∧ R w := by
  refine Spec.Triple.step (stable_insideAnd hR) (atomic_setlkw hR .excl)
    fun r => ?_
  cases r with
  | error e =>
    exact (Spec.Triple.pure (stable_insideAnd hR) fun _ _ h =>
      ⟨fun hrc => absurd hrc (by decide), h⟩).pre fun _ _ h => h.2
  | ok u =>
    refine (Spec.Triple.pure (stable_alone.and hR.stable) fun _ _ h =>
      ⟨fun _ => h.1, h.1.1, h.2⟩).pre fun _ _ h => ⟨⟨h.2.1, h.1 rfl⟩, h.2.2⟩

theorem triple_sharedFlock (hR : Lasts R) :
    (spec ctx size).Triple t (fun w => Inside t c w ∧ R w) (dyadSharedFlock c)
      fun _ w => Inside t c w ∧ R w := by
  refine Spec.Triple.step (stable_insideAnd hR) (atomic_setlkw hR .shared)
    fun r => Spec.Triple.pre ?_ fun _ _ h => h.2
  cases r <;> exact Spec.Triple.pure (stable_insideAnd hR) fun _ _ h => h

theorem triple_releaseFlock (hR : Lasts R) :
    (spec ctx size).Triple t (fun w => Inside t c w ∧ R w) (dyadReleaseFlock c)
      fun _ w => Inside t c w ∧ R w := by
  refine Spec.Triple.step (stable_insideAnd hR) (atomic_unlock hR) fun r => ?_
  cases r <;> exact Spec.Triple.pure (stable_insideAnd hR) fun _ _ h => h

/-- The ways out of a critical section. -/
theorem triple_ensureLeaveUnlocked (hR : Lasts R) (rc : Rc) :
    (spec ctx size).Triple t (fun w => Inside t c w ∧ R w)
      (ensureLeaveUnlocked c rc) fun r w => r = rc ∧ R w := by
  refine Spec.Triple.step (stable_insideAnd hR) (atomic_mutexUnlock hR)
    fun _ => ?_
  refine Spec.Triple.step (stable_dirAnd hR) (atomic_close hR) fun _ => ?_
  exact Spec.Triple.pure (stable_dirAnd hR) fun _ _ h => ⟨rfl, h.2⟩

theorem triple_ensureLeave (hR : Lasts R) (rc : Rc) :
    (spec ctx size).Triple t (fun w => Inside t c w ∧ R w) (ensureLeave c rc)
      fun r w => r = rc ∧ R w :=
  (triple_releaseFlock hR).bind fun _ => triple_ensureLeaveUnlocked hR rc

end

/-! ## The bitmap -/

theorem bit_slice {f : Bytes Byte} {k b : Nat} (h : Bit (f.slice 0 k) b) :
    Bit f b := by
  rw [Bit, Bytes.get_slice] at h
  split at h
  · rwa [Nat.zero_add] at h
  · exact absurd h (by simp)

theorem triple_getFileSize {P : Node → Prop} (hP : (spec ctx size).Stable t P)
    (fd : Nat) : (spec ctx size).Triple t P (getFileSize fd) fun _ => P := by
  refine Spec.Triple.step hP (atomic_free hP rfl) fun r => ?_
  cases r <;> exact Spec.Triple.pure hP fun _ _ h => h

theorem triple_checkBlocks {P : Node → Prop} (hP : (spec ctx size).Stable t P)
    (bitmap : Bytes Byte) (bs be : Nat) :
    (spec ctx size).Triple t P (checkBlocks bitmap bs be) fun hit w =>
      (hit = true → ∀ b, bs ≤ b → b ≤ be → Bit bitmap b) ∧ P w := by
  rw [checkBlocks]
  split
  · next hit heq =>
    refine Spec.Triple.pure hP fun _ _ h => ⟨fun hhit => ?_, h⟩
    subst hhit
    exact rangeCacheBlocksSet_true heq
  · exact Spec.Triple.call hP (atomic_free hP rfl) fun r => r.elim

/-- What the fast path read says no more than the bitmap. -/
theorem lasts_readBits {d : Bytes Byte} : Lasts fun w =>
    w.os.dir .bitmap = some c ∧ ∀ b, Bit d b → Bit (w.os.file c) b :=
  fun _ _ hg h => ⟨hg.dir c h.1, fun b hb => hg.bits c h.1 b (h.2 b hb)⟩

theorem triple_fastPath (bs be : Nat) :
    (spec ctx size).Triple t (Inside t c) (rangeCacheFastPath c bs be)
      fun hit w => (hit = true → Marked bs be c w) ∧ Inside t c w := by
  have hP : (spec ctx size).Stable t (Inside t c) := stable_inside
  have hmiss : (spec ctx size).Triple t (Inside t c) (.pure false) fun hit w =>
      (hit = true → Marked bs be c w) ∧ Inside t c w :=
    Spec.Triple.pure hP fun _ _ h => ⟨fun hf => absurd hf (by simp), h⟩
  refine (triple_getFileSize hP c).bind fun bitmapBytes => ?_
  split
  · refine Spec.Triple.step hP (atomic_free hP rfl) fun ok => ?_
    split
    · have hread : (spec ctx size).Atomic t (Inside t c)
          (.sys (.pread c 0 bitmapBytes)) fun r w =>
            (∀ d, r = .ok d → ∀ b, Bit d b → Bit (w.os.file c) b) ∧
              Inside t c w := by
        refine atomic_aside hP (fun _ _ => True.intro) (fun _ _ => True.intro)
          fun w x w' r _ hex _ d hd b hb => ?_
        obtain ⟨o, os', rfl, hos, rfl⟩ := Node.exec_sys hex
        obtain ⟨rfl, ⟨e, rfl⟩ | ⟨k, -, rfl⟩⟩ := Os.exec_pread hos
        · exact absurd hd (by simp)
        · obtain rfl := Except.ok.inj hd
          exact bit_slice hb
      refine Spec.Triple.step hP hread fun r => ?_
      cases r with
      | error e => exact hmiss.pre fun _ _ h => h.2
      | ok d =>
        dsimp only
        split
        · refine (Spec.Triple.pre (triple_checkBlocks
            (stable_insideAnd (@lasts_readBits c d)) d bs be)
              fun _ _ h => ⟨h.2, h.2.1, h.1 d rfl⟩).imp (fun _ _ h => h)
                fun hit w _ h => ⟨fun hhit => ⟨h.2.1.1, fun b hb hbe => ?_⟩, h.2.1⟩
          exact h.2.2.2 b (h.1 hhit b hb hbe)
        · exact hmiss.pre fun _ _ h => h.2
    · exact hmiss
  · exact hmiss

/-- Read under the exclusive lock, the buffer holds the bits of the bitmap. -/
theorem triple_preadBitmap :
    (spec ctx size).Triple t (Alone t c) (preadBitmap c (bitmapBytes size))
      fun bitmap => Read size t c bitmap := by
  have hread : (spec ctx size).Atomic t (Alone t c)
      (.sys (.pread c 0 (bitmapBytes size))) fun r w =>
        (∃ d, r = .ok d ∧ d.size ≤ bitmapBytes size ∧
          ∀ b, Bit d b ↔ Bit (w.os.file c) b) ∧ Alone t c w := by
    intro w hi hp
    refine ⟨True.intro, fun x w' r hex hok => ?_⟩
    obtain ⟨o, os', rfl, hos, rfl⟩ := Node.exec_sys hex
    obtain rfl := Choice.os.inj (hok hp.1.1)
    have hsize := hi.bitmap c hp.1.1
    simp only [Os.exec, Option.some.injEq, Prod.mk.injEq] at hos
    obtain ⟨rfl, rfl⟩ := hos
    refine ⟨Spec.Moves.stay hi, ⟨_, rfl, ?_, fun b => ?_⟩, hp⟩
    · rw [Bytes.slice_zero_size hsize]
      exact hsize
    · rw [Bytes.slice_zero_size hsize]
  refine Spec.Triple.step stable_alone hread fun r => ?_
  have hsame : ∀ {d : Bytes Byte}, d.size ≤ bitmapBytes size →
      ((Bytes.zeros (bitmapBytes size)).splice 0 d).size = bitmapBytes size ∧
      ∀ b, Bit ((Bytes.zeros (bitmapBytes size)).splice 0 d) b ↔ Bit d b := by
    intro d hd
    refine ⟨?_, fun b => ?_⟩
    · rw [Bytes.size_splice, Bytes.size_zeros]
      split <;> omega
    · rw [Bit, Bit, Bytes.get_splice]
      split
      · rw [Nat.sub_zero]
      · rw [Bytes.get_zeros, d.tail _ (by omega)]
  cases r with
  | error e =>
    intro w hi hp
    obtain ⟨⟨d, hd, -⟩, -⟩ := hp
    exact absurd hd (by simp)
  | ok d =>
    have hsafe : (spec ctx size).Stable t (Read size t c
        ((Bytes.zeros (bitmapBytes size)).splice 0 d)) := stable_read
    refine Spec.Triple.pre (Spec.Triple.pure hsafe fun _ _ h => h) fun w _ hp => ?_
    obtain ⟨⟨d', hd, hsize, hbits⟩, halone⟩ := hp
    obtain rfl := Except.ok.inj hd
    exact ⟨halone, (hsame hsize).1, fun b => ((hsame hsize).2 b).trans (hbits b)⟩

/-! ## The other files -/

section

variable {P : Node → Prop}

theorem atomic_open {n : Name} {creat : Bool}
    (hP : (spec ctx size).Stable t P) (hn : creat = true → n ≠ .origin) :
    (spec ctx size).Atomic t P (.sys (.open n creat false)) fun r w =>
      (∀ i, r = .ok i → w.os.dir n = some i) ∧ P w := by
  refine atomic_aside hP (fun _ _ => True.intro) (fun _ _ => ⟨rfl, hn⟩)
    fun w x w' r _ hex _ i hr => ?_
  obtain ⟨o, os', rfl, hos, rfl⟩ := Node.exec_sys hex
  rcases Os.exec_open hos with ⟨e, rfl, -⟩ | ⟨j, hd, rfl, rfl⟩ |
      ⟨-, -, rfl, rfl⟩
  · exact absurd hr (by simp)
  · obtain rfl := Except.ok.inj hr
    exact hd
  · obtain rfl := Except.ok.inj hr
    show Function.update w.os.dir n (some w.os.next) n = _
    rw [Function.update_self]

/-- An open, and what is known of the file. -/
theorem triple_open {α : Type} {n : Name} {creat : Bool}
    {f : Except Errno Nat → Program α} {Q : α → Node → Prop}
    (hP : (spec ctx size).Stable t P) (hn : creat = true → n ≠ .origin)
    (herr : ∀ e, (spec ctx size).Triple t P (f (.error e)) Q)
    (hok : ∀ i, (spec ctx size).Triple t (fun w => As n i w ∧ P w)
      (f (.ok i)) Q) :
    (spec ctx size).Triple t P ((sys (.open n creat false)).bind f) Q := by
  refine Spec.Triple.step hP (atomic_open hP hn) fun r => ?_
  cases r with
  | error e => exact (herr e).pre fun _ _ h => h.2
  | ok i => exact (hok i).pre fun _ _ h => ⟨As.of_dir (h.1 i rfl), h.2⟩

theorem triple_closeOpened (hP : (spec ctx size).Stable t P) (fds : List Nat)
    (hfds : ∀ w, P w → ∀ i ∈ fds, w.os.dir .bitmap ≠ some i) :
    (spec ctx size).Triple t P (closeOpened fds) fun _ => P := by
  induction fds with
  | nil => exact Spec.Triple.pure hP fun _ _ h => h
  | cons fd fds ih =>
    refine Spec.Triple.step hP (atomic_skip hP
      (fun w h => hfds w h fd List.mem_cons_self) fun _ _ => True.intro) fun _ => ?_
    exact ih fun w h i hi => hfds w h i (List.mem_cons_of_mem fd hi)

/-- The files are closed, and the result is returned. -/
theorem triple_closeReturn {α : Type} {a : α} {Q : α → Node → Prop}
    (hP : (spec ctx size).Stable t P) {fds : List Nat}
    (hfds : ∀ w, P w → ∀ i ∈ fds, w.os.dir .bitmap ≠ some i)
    (hQ : ∀ w, P w → Q a w) :
    (spec ctx size).Triple t P ((closeOpened fds).bind fun _ => .pure a) Q :=
  (triple_closeOpened hP fds hfds).bind fun _ =>
    Spec.Triple.pure hP fun w _ h => hQ w h

end

theorem bit_truncate {f : Bytes Byte} {n b : Nat} (hn : f.size ≤ n)
    (h : Bit f b) : Bit (f.truncate n) b := by
  rw [Bit, Bytes.get_truncate]
  split
  · exact h
  · exact absurd h (not_bit_of_size (by omega))

/-- The bitmap is given its size. It may have had it already. -/
theorem atomic_truncateBitmap :
    (spec ctx size).Atomic t (fun w => As .data i w ∧ Alone t c w)
      (.sys (.ftruncate c (bitmapBytes size))) fun _ w =>
        As .data i w ∧ Alone t c w := by
  intro w hi hp
  have hc := hp.2.1.1
  refine ⟨⟨(As.of_dir hc).ne (by simp), fun _ => ⟨hp.2, rfl⟩⟩,
    fun x w' r hex _ => ?_⟩
  obtain ⟨o, os', rfl, hos, rfl⟩ := Node.exec_sys hex
  rcases Os.exec_ftruncate hos with ⟨e, -, rfl⟩ | ⟨-, rfl⟩
  · exact ⟨Spec.Moves.stay hi, hp⟩
  · exact ⟨moves_setBitmap hi hp.2 (Nat.le_refl _) fun b hb =>
      bit_truncate (hi.bitmap c hc) hb, hp⟩

theorem triple_size :
    (spec ctx size).Triple t (Alone t c)
      (rangeCacheSize c size (bitmapBytes size)) fun _ => Alone t c := by
  have hP : (spec ctx size).Stable t (Alone t c) := stable_alone
  refine (triple_getFileSize hP c).bind fun n => ?_
  split
  · refine triple_open hP (fun _ => by simp)
      (fun _ => Spec.Triple.pure hP fun _ _ h => h) fun sizeFd => ?_
    have hP' : (spec ctx size).Stable t fun w => As .data sizeFd w ∧ Alone t c w :=
      stable_as.and hP
    have hclose : ∀ rc : Rc, (spec ctx size).Triple t
        (fun w => As .data sizeFd w ∧ Alone t c w)
        ((closeOpened [sizeFd]).bind fun _ => .pure rc) fun _ => Alone t c :=
      fun rc => triple_closeReturn hP'
        (fun w h i hi => by
          rw [List.mem_singleton.1 hi]
          exact h.1.ne (by simp)) fun _ h => h.2
    refine Spec.Triple.step hP' (atomic_skip hP' (fun _ h => h.1.ne (by simp))
      fun _ h => ⟨h.1.ne (by simp), fun hb => absurd hb (h.1.ne (by simp))⟩)
      fun r => ?_
    cases r with
    | error e => exact hclose _
    | ok u =>
      refine Spec.Triple.step hP' atomic_truncateBitmap fun r => ?_
      cases r <;> exact hclose _
  · exact Spec.Triple.pure hP fun _ _ h => h

/-- The fetch does not come near the bitmap. -/
theorem triple_fetchSpan {P : Node → Prop} (hP : (spec ctx size).Stable t P)
    (bs be originSize : Nat) :
    (spec ctx size).Triple t P (rangeCacheFetchSpan bs be originSize)
      fun _ => P := by
  have hdone : ∀ rc : Rc, (spec ctx size).Triple t P (.pure rc) fun _ => P :=
    fun _ => Spec.Triple.pure hP fun _ _ h => h
  rw [rangeCacheFetchSpan]
  dsimp only
  split
  · exact hdone _
  refine Spec.Triple.step hP (atomic_free hP rfl) fun ok => ?_
  cases ok with
  | false => exact hdone _
  | true =>
    refine triple_open hP (fun h => absurd h (by simp)) (fun _ => hdone _)
      fun originFd => ?_
    have hP₁ : (spec ctx size).Stable t fun w => As .origin originFd w ∧ P w :=
      stable_as.and hP
    have hclose₁ : ∀ rc : Rc, (spec ctx size).Triple t
        (fun w => As .origin originFd w ∧ P w)
        ((closeOpened [originFd]).bind fun _ => .pure rc) fun _ => P :=
      fun rc => triple_closeReturn hP₁
        (fun w h i hi => by
          rw [List.mem_singleton.1 hi]
          exact h.1.ne (by simp)) fun _ h => h.2
    refine Spec.Triple.step hP₁ (atomic_free hP₁ rfl) fun r => ?_
    cases r with
    | error e => exact hclose₁ _
    | ok spanBuf =>
      dsimp only
      split
      · exact hclose₁ _
      refine triple_open hP₁ (fun h => absurd h (by simp)) (fun _ => hclose₁ _)
        fun localFd => ?_
      have hP₂ : (spec ctx size).Stable t fun w =>
          As .data localFd w ∧ As .origin originFd w ∧ P w := stable_as.and hP₁
      have hclose₂ : ∀ rc : Rc, (spec ctx size).Triple t
          (fun w => As .data localFd w ∧ As .origin originFd w ∧ P w)
          ((closeOpened [originFd, localFd]).bind fun _ => .pure rc)
            fun _ => P :=
        fun rc => triple_closeReturn hP₂
          (fun w h i hi => by
            rcases List.mem_cons.1 hi with rfl | hi
            · exact h.2.1.ne (by simp)
            · rw [List.mem_singleton.1 hi]
              exact h.1.ne (by simp)) fun _ h => h.2.2
      refine Spec.Triple.step hP₂ (atomic_skip hP₂ (fun _ h => h.1.ne (by simp))
        fun _ h => ⟨h.1.ne (by simp), fun hb => absurd hb (h.1.ne (by simp))⟩)
        fun r => ?_
      cases r <;> exact hclose₂ _

/-! ## The recording -/

/-- Writing a buffer over the bitmap, or the front of it, keeps the bits that
the buffer has. -/
theorem bit_splice {f d : Bytes Byte} {k b : Nat}
    (hsub : ∀ b, Bit f b → Bit d b) (h : Bit f b) :
    Bit (f.splice 0 (d.slice 0 k)) b := by
  rw [Bit, Bytes.get_splice]
  split
  · next hlt =>
    rw [Bytes.size_slice] at hlt
    rw [Nat.sub_zero, Bytes.get_slice, if_pos (by omega), Nat.zero_add]
    exact hsub b h
  · exact h

theorem size_splice_slice {f d : Bytes Byte} {k n : Nat} (hf : f.size ≤ n)
    (hd : d.size ≤ n) : (f.splice 0 (d.slice 0 k)).size ≤ n := by
  rw [Bytes.size_splice, Bytes.size_slice]
  split <;> omega

/-- A buffer that the bits of a span have been set in. -/
structure Merged (bs be : Nat) (bitmap bitmap' : Bytes Byte) : Prop where
  size : bitmap'.size = bitmap.size
  bit : ∀ b, Bit bitmap' b ↔ Bit bitmap b ∨ (bs ≤ b ∧ b ≤ be)

theorem merged_of_setBlocks {bitmap bitmap' : Bytes Byte} {bs be : Nat}
    (h : rangeCacheSetBlocks bitmap bs be = some bitmap') :
    Merged bs be bitmap bitmap' := by
  have hin : be < bs ∨ be / 8 < bitmap.size := by
    by_contra hout
    have hout := not_or.1 hout
    rw [rangeCacheSetBlocks_none (by omega) (by omega)] at h
    exact absurd h (by simp)
  obtain ⟨bitmap₁, heq, hsize, hbit⟩ := rangeCacheSetBlocks_some hin
  obtain rfl := Option.some.inj (h.symm.trans heq)
  exact ⟨hsize, hbit⟩

/-- The write-back. -/
theorem atomic_writeBack {bitmap bitmap' : Bytes Byte} {bs be : Nat}
    (hm : Merged bs be bitmap bitmap') :
    (spec ctx size).Atomic t (Read size t c bitmap)
      (.sys (.pwrite c 0 bitmap')) fun r w => Inside t c w ∧
        (r = .ok (bitmapBytes size) → Marked bs be c w) := by
  intro w hi ⟨halone, hsize, hbits⟩
  have hc := halone.1.1
  have hsize' : bitmap'.size = bitmapBytes size := hm.size.trans hsize
  have hsub : ∀ b, Bit (w.os.file c) b → Bit bitmap' b := fun b hb =>
    (hm.bit b).2 (Or.inl ((hbits b).2 hb))
  have hput : ∀ k, (spec ctx size).Moves t w
      { w with os := w.os.setFile c ((w.os.file c).splice 0 (bitmap'.slice 0 k)) } :=
    fun k => moves_setBitmap hi halone
      (size_splice_slice (hi.bitmap c hc) (Nat.le_of_eq hsize'))
      fun _ hb => bit_splice hsub hb
  refine ⟨⟨(As.of_dir hc).ne (by simp), fun _ => ⟨halone, rfl, hsize', hsub⟩⟩,
    fun x w' r hex _ => ?_⟩
  obtain ⟨o, os', rfl, hos, rfl⟩ := Node.exec_sys hex
  rcases Os.exec_pwrite hos with ⟨e, -, rfl, rfl⟩ | ⟨-, rfl, rfl⟩ |
      ⟨k, -, hk, rfl, rfl⟩
  · exact ⟨Spec.Moves.stay hi, halone.1, fun h => absurd h (by simp)⟩
  · have hmoves := hput bitmap'.size
    rw [Bytes.slice_zero_size (Nat.le_refl _)] at hmoves
    refine ⟨hmoves, halone.1, fun _ => ⟨hc, fun b hb hbe => ?_⟩⟩
    have hbit := (hm.bit b).2 (Or.inr ⟨hb, hbe⟩)
    have hlt : b / 8 < bitmap'.size := by
      by_contra hout
      exact not_bit_of_size (Nat.le_of_not_lt hout) hbit
    rw [Os.setFile_file, Function.update_self, Bit, Bytes.get_splice,
      if_pos (by omega), Nat.sub_zero]
    exact hbit
  · refine ⟨hput k, halone.1, fun h => ?_⟩
    have := Except.ok.inj h
    omega

theorem lasts_true : Lasts fun _ => True := fun _ _ _ h => h

/-- With an error nothing is promised. -/
theorem triple_fails {bs be : Nat} {rc : Rc} (hrc : rc ≠ .ok) :
    (spec ctx size).Triple t (Inside t c) (ensureLeave c rc) fun rc w =>
      rc = .ok → Marked bs be c w :=
  (triple_ensureLeave lasts_true rc).imp (fun _ _ h => ⟨h, True.intro⟩)
    fun _ _ _ h h' => absurd (h.1.symm.trans h') hrc

theorem triple_failsUnlocked {bs be : Nat} {rc : Rc} (hrc : rc ≠ .ok) :
    (spec ctx size).Triple t (Inside t c) (ensureLeaveUnlocked c rc) fun rc w =>
      rc = .ok → Marked bs be c w :=
  (triple_ensureLeaveUnlocked lasts_true rc).imp
    (fun _ _ h => ⟨h, True.intro⟩)
    fun _ _ _ h h' => absurd (h.1.symm.trans h') hrc

theorem triple_record (bs be : Nat) :
    (spec ctx size).Triple t (fun w => w.os.dir .bitmap = some c)
      (rangeCacheRecord c bs be (bitmapBytes size)) fun rc w =>
        rc = .ok → Marked bs be c w := by
  refine Spec.Triple.step lasts_dir.stable ((atomic_mutexLock lasts_true).imp
    (fun _ _ h => ⟨h, True.intro⟩) fun _ _ _ h => h) fun _ => ?_
  refine (triple_exclFlock lasts_true).bind fun rc => ?_
  split
  · next herr =>
    exact (triple_failsUnlocked ((Rc.isError_iff rc).1 herr)).pre fun _ _ h => h.2.1
  next herr =>
  have halone : (spec ctx size).Stable t (Alone t c) := stable_alone
  refine Spec.Triple.pre (R := Alone t c) ?_
    fun _ _ h => h.1 (Bool.not_eq_true _ ▸ herr)
  refine Spec.Triple.step halone (atomic_free halone rfl) fun ok => ?_
  cases ok with
  | false => exact (triple_fails (by simp)).pre fun _ _ h => h.1
  | true =>
    refine triple_preadBitmap.bind fun bitmap => ?_
    have hread : (spec ctx size).Stable t (Read size t c bitmap) := stable_read
    cases hset : rangeCacheSetBlocks bitmap bs be with
    | none => exact Spec.Triple.call hread (atomic_free hread rfl) fun r => r.elim
    | some bitmap' =>
      refine Spec.Triple.step hread (atomic_writeBack (merged_of_setBlocks hset))
        fun r => ?_
      cases r with
      | error e => exact (triple_fails (by simp)).pre fun _ _ h => h.1
      | ok written =>
        dsimp only
        split
        · next hw =>
          refine (triple_ensureLeave (lasts_marked : Lasts (Marked bs be c)) _).imp
            (fun _ _ h => ⟨h.1, h.2 (congrArg _ hw)⟩) fun _ _ _ h _ => h.2
        · exact (triple_fails (by simp)).pre fun _ _ h => h.1

/-! ## `dyad_range_cache_ensure` -/

theorem triple_fill (bs be : Nat) :
    (spec ctx size).Triple t (fun w => w.os.dir .bitmap = some c)
      (rangeCacheFill c bs be size (bitmapBytes size)) fun rc w =>
        rc = .ok → Marked bs be c w := by
  refine (triple_fetchSpan lasts_dir.stable bs be size).bind fun rc => ?_
  split
  · next herr =>
    refine Spec.Triple.step lasts_dir.stable ((atomic_close lasts_true).imp
      (fun _ _ h => ⟨h, True.intro⟩) fun _ _ _ h => h.1) fun _ => ?_
    exact Spec.Triple.pure lasts_dir.stable fun _ _ _ h =>
      absurd h ((Rc.isError_iff rc).1 herr)
  · exact triple_record bs be

/-- The origin's size is asked for. -/
theorem atomic_statOrigin {P : Node → Prop} :
    (spec ctx size).Atomic t P (.sys (.stat .origin)) fun r w =>
      (∀ n, r = .ok n → n = size) ∧ P w := by
  intro w hi hp
  refine ⟨True.intro, fun x w' r hex _ => ?_⟩
  obtain ⟨o, os', rfl, hos, rfl⟩ := Node.exec_sys hex
  obtain ⟨rfl, ⟨e, rfl⟩ | ⟨i, hd, rfl⟩⟩ := Os.exec_stat hos
  · exact ⟨Spec.Moves.stay hi, fun _ h => absurd h (by simp), hp⟩
  · refine ⟨Spec.Moves.stay hi, fun n hn => ?_, hp⟩
    rw [← Except.ok.inj hn, hi.origin i hd]

theorem triple_miss (bs be : Nat) :
    (spec ctx size).Triple t (Alone t c) (rangeCacheMiss c bs be) fun rc w =>
      rc = .ok → Marked bs be c w := by
  have halone : (spec ctx size).Stable t (Alone t c) := stable_alone
  have hfails : ∀ {rc : Rc}, rc ≠ .ok → (spec ctx size).Triple t (Alone t c)
      (ensureLeave c rc) fun rc w => rc = .ok → Marked bs be c w := fun hrc =>
    (triple_fails hrc).pre fun _ _ h => h.1
  refine Spec.Triple.step halone atomic_statOrigin fun r => ?_
  cases r with
  | error e => exact (hfails (by simp)).pre fun _ _ h => h.2
  | ok originSize =>
    refine Spec.Triple.assume fun hsize => ?_
    obtain rfl := hsize originSize rfl
    dsimp only
    split
    · exact hfails (by simp)
    refine triple_size.bind fun rc => ?_
    split
    · next herr => exact hfails ((Rc.isError_iff rc).1 herr)
    refine Spec.Triple.step halone (atomic_free halone rfl) fun ok => ?_
    cases ok with
    | false => exact hfails (by simp)
    | true =>
      refine triple_preadBitmap.bind fun bitmap => ?_
      refine (triple_checkBlocks stable_read bitmap bs be).bind fun hit => ?_
      have hR : Lasts fun w => hit = true → Marked bs be c w :=
        Lasts.imp lasts_marked
      refine Spec.Triple.pre ?_ fun w _ h => (⟨h.2.1.1, fun hhit =>
        ⟨h.2.1.1.1, fun b hb hbe => (h.2.2.2 b).1 (h.1 hhit b hb hbe)⟩⟩ :
          Inside t c w ∧ (hit = true → Marked bs be c w))
      refine (triple_releaseFlock hR).bind fun _ => ?_
      refine Spec.Triple.step (stable_insideAnd hR) (atomic_mutexUnlock hR)
        fun _ => ?_
      split
      · next hhit =>
        refine Spec.Triple.step (stable_dirAnd hR) (atomic_close hR) fun _ => ?_
        exact Spec.Triple.pure (stable_dirAnd hR) fun _ _ h _ => h.2 hhit
      · exact (triple_fill bs be).pre fun _ _ h => h.1

theorem triple_opened (bs be : Nat) :
    (spec ctx size).Triple t (fun w => w.os.dir .bitmap = some c)
      (rangeCacheOpened c bs be) fun rc w => rc = .ok → Marked bs be c w := by
  refine Spec.Triple.step lasts_dir.stable ((atomic_mutexLock lasts_true).imp
    (fun _ _ h => ⟨h, True.intro⟩) fun _ _ _ h => h) fun _ => ?_
  refine (triple_sharedFlock lasts_true).bind fun rc => ?_
  split
  · next herr =>
    exact (triple_failsUnlocked ((Rc.isError_iff rc).1 herr)).pre
      fun _ _ h => h.1
  refine Spec.Triple.bind ((triple_fastPath bs be).pre fun _ _ h => h.1)
    fun hit => ?_
  split
  · next hhit =>
    exact (triple_ensureLeave (lasts_marked : Lasts (Marked bs be c)) .ok).imp
      (fun _ _ h => ⟨h.2, h.1 hhit⟩) fun _ _ _ h _ => h.2
  · refine Spec.Triple.pre (R := fun w => Inside t c w ∧ True) ?_
      fun _ _ h => ⟨h.2, True.intro⟩
    refine (triple_releaseFlock lasts_true).bind fun _ => ?_
    refine (triple_exclFlock lasts_true).bind fun rc => ?_
    split
    · next herr =>
      exact (triple_failsUnlocked ((Rc.isError_iff rc).1 herr)).pre
        fun _ _ h => h.2.1
    · next herr =>
      exact (triple_miss bs be).pre fun _ _ h =>
        h.1 (Bool.not_eq_true _ ▸ herr)

theorem triple_ensure (offset length : UInt64) :
    (spec ctx size).Triple t (fun _ => True) (dyadRangeCacheEnsure ctx offset length)
      (Done ctx (.ensure offset length)) := by
  have htrue : (spec ctx size).Stable t fun _ => True := Spec.Stable.true
  rw [dyadRangeCacheEnsure]
  split
  · next hnothing =>
    refine Spec.Triple.pure htrue fun _ _ _ _ horigin hlen => ?_
    rcases hnothing with h | h
    · exact absurd (h.symm.trans horigin) (by simp)
    · exact absurd h hlen
  · split
    · exact Spec.Triple.pure htrue fun _ _ _ h => absurd h (by simp)
    · refine Spec.Triple.step htrue (atomic_open htrue fun _ => by simp)
        fun r => ?_
      cases r with
      | error e =>
        exact (Spec.Triple.pure htrue fun _ _ _ h => absurd h (by simp)).pre
          fun _ _ _ => True.intro
      | ok bitmapFd =>
        exact (triple_opened _ _).imp (fun _ _ h => h.1 bitmapFd rfl)
          fun _ _ _ h hrc _ _ => ⟨bitmapFd, h hrc⟩

/-! ## What else a job does -/

/-- A part of a job that stays away from the bitmap. -/
abbrev Passes (ctx : Ctx) (size : Nat) (t : Tid) (P : Node → Prop) {α : Type}
    (p : Program α) : Prop :=
  (spec ctx size).Triple t P p fun _ _ => True

section

variable {P : Node → Prop} {α : Type}

theorem passes_pure (hP : (spec ctx size).Stable t P) (a : α) :
    Passes ctx size t P (.pure a) :=
  Spec.Triple.pure hP fun _ _ _ => True.intro

theorem passes_free {cl : Call} {f : cl.Res → Program α}
    (hP : (spec ctx size).Stable t P) (hc : cl.reads = true)
    (hf : ∀ r, Passes ctx size t P (f r)) :
    Passes ctx size t P ((perform cl).bind f) :=
  Spec.Triple.step hP (atomic_free hP hc) hf

/-- A call on the open copy. -/
theorem passes_copy {cl : Call} {f : cl.Res → Program α} {fd : Nat}
    (ha : ∀ w, w.os.dir .bitmap ≠ some fd → AsideCall w cl ∧ Req size w t cl)
    (hf : ∀ r, Passes ctx size t (As .data fd) (f r)) :
    Passes ctx size t (As .data fd) ((perform cl).bind f) :=
  Spec.Triple.step stable_as (atomic_skip stable_as
    (fun w h => (ha w (h.ne (by simp))).1) fun w h =>
      (ha w (h.ne (by simp))).2) hf

theorem passes_close {f : Except Errno Unit → Program α} {fd : Nat}
    (hf : ∀ r, Passes ctx size t (As .data fd) (f r)) :
    Passes ctx size t (As .data fd) ((sys (.close fd)).bind f) :=
  passes_copy (fun _ h => ⟨h, True.intro⟩) hf

theorem passes_sharedFlock {f : Rc → Program α} {fd : Nat}
    (hf : ∀ r, Passes ctx size t (As .data fd) (f r)) :
    Passes ctx size t (As .data fd) ((dyadSharedFlock fd).bind f) :=
  passes_copy (fun _ h => ⟨h, fun hb => absurd hb h⟩) fun r => by
    cases r <;> exact hf _

theorem passes_releaseFlock {f : Rc → Program α} {fd : Nat}
    (hf : ∀ r, Passes ctx size t (As .data fd) (f r)) :
    Passes ctx size t (As .data fd) ((dyadReleaseFlock fd).bind f) :=
  passes_copy (fun _ h => ⟨h, fun hb => absurd hb h⟩) fun r => by
    cases r <;> exact hf _

end

theorem passes_consumeRangeRead (offset length : Nat) :
    Passes ctx size t (fun _ => True) (consumeRangeRead offset length) := by
  refine triple_open Spec.Stable.true (fun h => absurd h (by simp))
    (fun _ => passes_pure Spec.Stable.true _) fun fd => Spec.Triple.pre (R := As .data fd) ?_
    fun _ _ h => h.1
  have hfd : (spec ctx size).Stable t (As .data fd) := stable_as
  refine passes_sharedFlock fun rc => ?_
  split
  · exact passes_close fun _ => passes_pure hfd _
  · refine passes_free hfd rfl fun ok => ?_
    cases ok with
    | false =>
      exact passes_releaseFlock fun _ => passes_close fun _ => passes_pure hfd _
    | true =>
      refine passes_free hfd rfl fun nread => ?_
      refine passes_releaseFlock fun _ => passes_close fun _ => ?_
      cases nread with
      | error e => exact passes_pure hfd _
      | ok data =>
        dsimp only
        split <;> exact passes_pure hfd _

theorem passes_ensure (offset length : UInt64) :
    Passes ctx size t (fun _ => True) (dyadRangeCacheEnsure ctx offset length) :=
  (triple_ensure offset length).imp (fun _ _ h => h) fun _ _ _ _ => True.intro

theorem passes_consumeRange (offset length : UInt64) :
    Passes ctx size t (fun _ => True) (dyadConsumeRange ctx offset length) := by
  have htrue : (spec ctx size).Stable t fun _ => True := Spec.Stable.true
  have hdone : ∀ r : Rc × Option (Bytes Byte),
      Passes ctx size t (fun _ => True) (.pure r) := fun r => passes_pure htrue r
  rw [dyadConsumeRange]
  split
  · exact hdone _
  split
  · exact hdone _
  split
  · exact hdone _
  split
  · exact hdone _
  have howner : Passes ctx size t (fun _ => True) (dyadFetchMetadata ctx) := by
    refine passes_free htrue rfl fun r => ?_
    cases r with
    | error rc => exact passes_pure htrue _
    | ok ownerRank =>
      dsimp only
      split <;> exact passes_pure htrue _
  refine howner.bind fun r => ?_
  rcases r with rc | _ | rank
  · exact hdone _
  · dsimp only
    rw [consumeRangeLocal]
    split
    · refine (passes_ensure offset length).bind fun rc => ?_
      split
      · exact hdone _
      · exact passes_consumeRangeRead _ _
    · exact passes_consumeRangeRead _ _
  · refine passes_free htrue rfl fun r => ?_
    cases r <;> exact hdone _

section

variable {P : Node → Prop}

theorem passes_workerFinish (hP : (spec ctx size).Stable t P) (item : WorkItem) :
    Passes ctx size t P (dyadFetchWorkerFinish item) := by
  rw [dyadFetchWorkerFinish]
  split
  · split
    · refine passes_free hP rfl fun r => ?_
      cases r <;> exact passes_pure hP _
    · exact passes_free hP rfl fun _ => passes_pure hP _
  · exact passes_pure hP _

theorem triple_preadAt (hP : (spec ctx size).Stable t P) (fd : Nat)
    (off : UInt64) (len : Nat) :
    (spec ctx size).Triple t P (preadAt fd off len) fun _ => P := by
  have hdone : ∀ r : Option (Bytes Byte),
      (spec ctx size).Triple t P (.pure r) fun _ => P := fun _ =>
    Spec.Triple.pure hP fun _ _ h => h
  rw [preadAt]
  split
  · exact Spec.Triple.step hP (atomic_free hP rfl) fun _ => hdone _
  · refine Spec.Triple.step hP (atomic_free hP rfl) fun r => ?_
    cases r <;> exact hdone _

-- the sign test of an offset is not for the unifier
attribute [local irreducible] preadAt

theorem triple_rangeReadLoop (hP : (spec ctx size).Stable t P) (fd : Nat)
    (offset : UInt64) (rangeLen fuel : Nat) (content : Bytes Byte) :
    (spec ctx size).Triple t P (rangeReadLoop fd offset rangeLen fuel content)
      fun _ => P := by
  have hdone : ∀ r : Option (Bytes Byte),
      (spec ctx size).Triple t P (.pure r) fun _ => P := fun _ =>
    Spec.Triple.pure hP fun _ _ h => h
  induction fuel generalizing content with
  | zero => exact hdone _
  | succ fuel ih =>
    rw [rangeReadLoop]
    split
    · dsimp only
      refine (triple_preadAt hP fd _ _).bind fun r => ?_
      cases r with
      | none => exact hdone _
      | some d =>
        dsimp only
        split
        · exact hdone _
        · exact ih _
    · exact hdone _

attribute [local irreducible] rangeReadLoop

theorem passes_workerOpened (item : WorkItem) (fd : Nat) :
    Passes ctx size t (As .data fd) (workerOpened item fd) := by
  have hfd : (spec ctx size).Stable t (As .data fd) := stable_as
  refine passes_sharedFlock fun rc => ?_
  split
  · refine passes_free hfd rfl fun savedErrno => ?_
    exact passes_close fun _ => passes_workerFinish hfd _
  · refine (triple_getFileSize hfd fd).bind fun fileSize => ?_
    refine (triple_rangeReadLoop hfd fd _ _ _ _).bind fun r => ?_
    cases r with
    | none =>
      refine passes_free hfd rfl fun errno => ?_
      exact passes_releaseFlock fun _ => passes_close fun _ =>
        passes_workerFinish hfd _
    | some content =>
      exact passes_releaseFlock fun _ => passes_close fun _ =>
        passes_workerFinish hfd _

end

theorem passes_worker (item : WorkItem) :
    Passes ctx size t (fun _ => True) (dyadFetchWorkerProcess ctx item) := by
  have htrue : (spec ctx size).Stable t fun _ => True := Spec.Stable.true
  have hfailed : ∀ e, Passes ctx size t (fun _ => True) (workerError item e) :=
    fun _ => passes_workerFinish htrue _
  have hopened : ∀ fd, (spec ctx size).Triple t (fun w => As .data fd w ∧ True)
      (workerOpened item fd) fun _ _ => True := fun fd =>
    (passes_workerOpened item fd).pre fun _ _ h => h.1
  unfold dyadFetchWorkerProcess
  dsimp only
  split
  · refine (passes_ensure item.offset item.length).bind fun rc => ?_
    split
    · exact hfailed _
    · exact triple_open htrue (fun h => absurd h (by simp))
        (fun _ => passes_free htrue rfl fun _ => hfailed _) hopened
  · refine Spec.Triple.bind (passes_pure htrue Rc.ok) fun rc => ?_
    split
    · exact hfailed _
    · exact triple_open htrue (fun h => absurd h (by simp))
        (fun _ => passes_free htrue rfl fun _ => hfailed _) hopened

/-! ## Every run -/

theorem works_job {j : Job} (h : (mergingRuns ctx).start w t j) :
    (spec ctx size).Triple t (fun _ => True) (j.program ctx) (Done ctx j) := by
  obtain ⟨offset, length, rfl | rfl⟩ | ⟨item, rfl⟩ := h
  · exact triple_ensure offset length
  · exact passes_consumeRange offset length
  · exact passes_worker item

/-- A thread of another process than the one that dies. -/
theorem rely_crash (w : Node) {p : Nat} (hp : t.1 ≠ p) : Rely t w (w.crash p) where
  dir _ h := h
  bits _ _ _ h := h
  next := Nat.le_refl _
  born _ _ := rfl
  mutex hm := by
    show Function.update w.os.mutex p none t.1 = some t
    rwa [Function.update_of_ne hp]
  locks _ _ _ _ hl := LockTable.holds_release.2 ⟨hp, hl⟩
  frozen _ _ _ _ := rfl

theorem moves_setBusy (hi : Inv size w) (b : Bool) :
    (spec ctx size).Moves t w (w.setBusy t b) :=
  moves_aside hi (Aside.of_os rfl)

theorem sound : (spec ctx size).Sound where
  idle_stable _ := Spec.Stable.true
  start w t j p hi _ hs hj := by
    obtain rfl := Option.some.inj hj
    have hm := @moves_setBusy ctx size t w hi true
    exact ⟨hm, works_job hs _ hm.inv True.intro⟩
  finish _ _ _ _ hi _ := ⟨moves_setBusy hi false, True.intro⟩
  crash w p hi _ := by
    refine ⟨⟨hi.origin, hi.bitmap⟩, ⟨fun _ h => h, fun _ _ _ h => h⟩, fun u => ?_⟩
    split
    · exact True.intro
    · next hup => exact rely_crash w hup

/-- Thread `t` is about to write the bitmap back. -/
def WritesBack (s : NodeCfg) (t : Tid) : Prop :=
  ∃ (j : Job) (c off : Nat) (d : Bytes Byte)
    (k : (Sys.pwrite c off d : Sys Name Byte).Res → Program j.Res),
    s.thread t = some ⟨j, .call (.sys (.pwrite c off d)) k⟩ ∧
      s.world.os.dir .bitmap = some c

/-- Along every such run: one thread at most stands at a write-back, the bits
that are set stay set, and so do those of every range that was made
present. -/
theorem no_lost_update {s s' : NodeCfg}
    (h : ((node ctx).lts (Inv size)).Reach (mergingRuns ctx).Allows s)
    (hrun : ((node ctx).lts (Inv size)).Run (mergingRuns ctx).Allows s s') :
    (∀ t u, WritesBack s t → WritesBack s u → t = u) ∧
      Grows s.world s'.world ∧
      ∀ t offset length, Returned s t (.ensure offset length) .ok →
        ctx.originPath = true → length ≠ 0 →
          ∃ c, Marked (blockStart offset) (blockEnd offset length) c s'.world := by
  have hgood : (spec ctx size).Good s :=
    sound.reach (fun w hw => ⟨hw, fun _ => True.intro⟩) h
  have hgrows : Grows s.world s'.world := (sound.run_guar hgood hrun).2
  refine ⟨fun t u ht hu => ?_, hgrows, fun t offset length hret horigin hlen => ?_⟩
  · obtain ⟨j, c, off, d, k, hth, hc⟩ := ht
    obtain ⟨j', c', off', d', k', hth', hc'⟩ := hu
    obtain ⟨⟨⟨-, hmt⟩, hlt⟩, -⟩ := (hgood.req hth).2 hc
    obtain ⟨⟨⟨-, hmu⟩, hlu⟩, -⟩ := (hgood.req hth').2 hc'
    obtain rfl : c = c' := Option.some.inj (hc.symm.trans hc')
    -- one process, and one owner of its mutex
    have hp : t.1 = u.1 := hlu.excl_unique hlt
    rw [hp, hmu] at hmt
    exact (Option.some.inj hmt).symm
  · obtain ⟨c, hmarked⟩ := hgood.post hret rfl horigin hlen
    exact ⟨c, lasts_marked _ _ hgrows hmarked⟩

/-! ## A run -/

/-- Whether a call is one of those the runs allow. -/
def careful (w : Node) (t : Tid) : Call → Choice → Bool
  | .sys (.pread ..), .os .ok => true
  | .sys (.pread ..), _ => false
  | .sys (.close _), _ => w.os.mutex t.1 = none ∨ w.os.mutex t.1 = some t
  | _, _ => true

theorem act_of_careful {cl : Call} {x : Choice} (h : careful w t cl x = true) :
    (mergingRuns ctx).act w t cl x := by
  cases cl with
  | sys c =>
    cases c with
    | pread i off len =>
      intro _
      cases x with
      | os o => cases o <;> first | rfl | exact absurd h (by simp [careful])
      | _ => exact absurd h (by simp [careful])
    | close i =>
      intro _ u hu
      rcases of_decide_eq_true h with hm | hm
      · exact absurd (hm.symm.trans hu) (by simp)
      · exact Option.some.inj (hu.symm.trans hm)
    | _ => exact True.intro
  | _ => exact True.intro

/-- Such steps of range requests. -/
def carefully : NodeCfg → NodeLabel → Bool :=
  Machine.check careful (fun _ _ => true) fun _ _ j =>
    match j with
    | .ensure .. => true
    | _ => false

theorem allows_of_carefully {ctx : Ctx} (s : NodeCfg) (l : NodeLabel)
    (h : carefully s l = true) : (mergingRuns ctx).Allows s l := by
  refine Machine.Guard.allows_of_check (fun _ _ _ _ => act_of_careful)
    (fun _ _ _ => True.intro) (fun w t j h => ?_) s l h
  cases j with
  | ensure offset length => exact Or.inl ⟨offset, length, Or.inl rfl⟩
  | _ => exact absurd h (by simp)

/-- One thread fills the byte. -/
def filled : NodeCfg :=
  (((node Ctx.consumer).lts (Inv 1)).replay oneByte.idle fillsByte).getD
    oneByte.idle

/-- Its process dies, and another asks for the byte. -/
def asksAgain : List NodeLabel :=
  .crash 0 :: .start (1, 0) (.ensure 0 1) :: goes (1, 0) 9

/-- Where that leads. -/
def askedAgain : NodeCfg :=
  (((node Ctx.consumer).lts (Inv 1)).replay filled asksAgain).getD filled

theorem inv_fresh {orig : Bytes Byte} {hs : orig.size < 2 ^ 63}
    {owner : Option Nat} : Inv orig.size (Node.fresh orig hs owner) where
  origin _ _ := rfl
  bitmap _ h := absurd h (by simp [Node.fresh])

theorem no_lost_update_askedAgain :
    Returned filled (0, 1) (.ensure 0 1) .ok ∧
      Returned askedAgain (1, 0) (.ensure 0 1) .ok ∧
      ∃ c, Marked 0 0 c askedAgain.world := by
  have hret : Returned filled (0, 1) (.ensure 0 1) .ok := rfl
  have hreach : ((node Ctx.consumer).lts (Inv 1)).Reach
      (mergingRuns Ctx.consumer).Allows filled :=
    Lts.Reach.of_replay
      ⟨@inv_fresh (Bytes.ofList [1]) (by decide) (some 1), fun _ => rfl⟩
      allows_of_carefully
      (by decide) (by decide)
  have hrun : ((node Ctx.consumer).lts (Inv 1)).Run
      (mergingRuns Ctx.consumer).Allows filled askedAgain :=
    @Lts.Run.of_replay _ _ _ _ _ _ asksAgain
      (Lts.meets_of_checks allows_of_carefully (by decide)) rfl
  exact ⟨hret, rfl,
    (no_lost_update hreach hrun).2.2 (0, 1) 0 1 hret rfl (by decide)⟩

end Dyad.Merging
