import Dyad.Proofs.CacheEvict

/-!
# The whole-file threads stay in the outline

The store and the two consume calls, on the one thread of a process that works
on whole files. `Quit` holds everywhere but inside the chunked store; there the
lock is certain to be held instead (`Locked`), and the copy holds the origin
up to the position reached (`Prefix`).

The size a whole-file call bases itself on is only looked at under a lock. A
size that is not zero then means a complete copy: with no bitmap, because the
copy is settled, and with one, because the run is one in which every block was
marked.
-/

namespace Dyad

open Conc Posix

namespace Setting

variable {C : Setting} {t : Tid} {P : Node → Prop} {α : Type}
  {R : α → Node → Prop}

/-! ## Locking the copy -/

theorem mode_unique {l : LockTable Nat} {p : Nat} {m m' : LockMode}
    (h : l.Holds p m) (h' : l.Holds p m') : m = m' := by
  by_contra hne
  have := l.compat.forall h h' fun heq => hne (congrArg Prod.snd heq)
  exact this.1 rfl

/-- A whole-file thread gets a lock on the copy, which is then settled, since
whoever was at work on it had the exclusive lock. -/
theorem tame_lockCopy {w : Node} {d : Nat} {m : LockMode} {l : LockTable Nat}
    (ht : C.files t) (hi : C.Inv w) (hd : C.CopyFd d w) (hq : C.Quit t w)
    (hl : (w.os.locks d).acquire t.1 m = some l) :
    C.Tame t w { w with os := w.os.setLocks d l } ∧
      C.Quit t { w with os := w.os.setLocks d l } := by
  have hmine : l.Holds t.1 m := (LockTable.holds_acquire hl).2 (Or.inl ⟨rfl, rfl⟩)
  refine ⟨Tame.setLocks hi d l (fun q m' hne => ?_)
    (fun _ _ _ h => absurd ht h)
    (fun hw hn hdir _ hh => Or.inr (hq hw ht hn d hdir hh)),
    fun hw _ hn e he hh => ?_⟩
  · rw [LockTable.holds_acquire hl]
    simp [hne]
  · obtain rfl := hd.unique hw he
    rw [locks_self] at hh
    show C.Settled (w.os.file e)
    rcases hi.settled hw hn e he with hs | ⟨u, -, hp, -⟩
    · exact hs
    · have hut : u.1 = t.1 := by
        obtain rfl := mode_unique hmine hh
        exact LockTable.acquire_excl_alone hl hp
      rw [hut] at hp
      exact hq hw ht hn e he hp

/-- The step that asks for a lock. -/
theorem quits_lock (ht : C.files t) (hP : C.Firm t P) {d : Nat} {m : LockMode}
    {f : Except Errno Unit → Program α}
    (hk : ∀ r, C.Works t (fun w => (r = .ok () → C.whole →
        w.os.dir .bitmap = none → (w.os.locks d).Holds t.1 m) ∧
      C.CopyFd d w ∧ C.Quit t w ∧ P w) (f r) R) :
    C.Works t (fun w => C.CopyFd d w ∧ C.Quit t w ∧ P w)
      ((sys (.setlkw d m)).bind f) R := by
  refine works_step
    ((firm_copyFd d).steady.and (steady_quit.and hP.steady))
    (fun _ => True.intro) (fun w x w' r hi hb hp hex _ => ?_) hk
  obtain ⟨o, os', rfl, hos, rfl⟩ := Node.exec_sys hex
  rcases Os.exec_setlkw hos with ⟨e, rfl, rfl⟩ | ⟨l, hl, rfl, rfl⟩
  · exact ⟨Tame.stay hi, fun h => absurd h (by simp), hp⟩
  · obtain ⟨htame, hq⟩ := tame_lockCopy ht hi hp.1 hp.2.1 hl
    refine ⟨htame, fun _ _ _ => ?_, firm_copyFd d w _ htame.mild hb hp.1, hq,
      hP w _ htame.mild hb hp.2.2⟩
    rw [locks_self]
    exact (LockTable.holds_acquire hl).2 (Or.inl ⟨rfl, rfl⟩)

theorem quits_exclFlock (ht : C.files t) (hP : C.Firm t P) (d : Nat) :
    C.Works t (fun w => C.CopyFd d w ∧ C.Quit t w ∧ P w) (dyadExclFlock d)
      fun rc w => C.CopyFd d w ∧ C.Quit t w ∧ (rc = .ok → C.Locked t d w) ∧
        P w := by
  refine quits_lock ht hP fun r => ?_
  have hsteady := (firm_copyFd (C := C) (t := t) d).steady.and
    (steady_quit.and hP.steady)
  cases r with
  | error e =>
    refine Works.pre (A := fun w => C.CopyFd d w ∧ C.Quit t w ∧ P w) ?_
      fun _ _ hp => hp.2
    exact Works.pureSteady hsteady fun _ _ hp =>
      ⟨hp.1, hp.2.1, fun h => absurd h (by simp), hp.2.2⟩
  | ok _ =>
    refine Works.pre (A := fun w => (C.CopyFd d w ∧ C.Locked t d w) ∧
      C.CopyFd d w ∧ C.Quit t w ∧ P w) ?_
      fun _ _ hp => ⟨⟨hp.2.1, hp.1 rfl⟩, hp.2⟩
    exact Works.pureSteady ((steady_locked ht d).and hsteady) fun _ _ hp =>
      ⟨hp.2.1, hp.2.2.1, fun _ => hp.1.2, hp.2.2.2⟩

/-! ## The size of the copy -/

/-- A copy whose blocks are all marked is full. -/
theorem full_of_marked {w : Node} {d i : Nat} (hi : C.Inv w) (hw : C.whole)
    (hd : C.CopyFd d w) (hbm : w.os.dir .bitmap = some i)
    (hall : C.AllMarked w) : C.FullFd d w := by
  refine ⟨hd.1, hd.2.1, full_of_blocks (fun b hb => ?_) C.offT⟩
  obtain ⟨e, he, hok⟩ := hi.bits i hbm b (hall i hbm b hb)
  obtain rfl := hd.unique hw he
  exact hok

theorem full_of_settled {w : Node} {d : Nat} (hd : C.CopyFd d w)
    (hs : C.Settled (w.os.file d)) (hsize : (w.os.file d).size ≠ 0) :
    C.FullFd d w := by
  rcases hs with he | he
  · rw [he] at hsize
    exact absurd rfl hsize
  · exact ⟨hd.1, hd.2.1, by rw [he]; exact full_self⟩

/-- Under a lock, a copy that is not empty is full: the size that is read then
is the origin's. -/
theorem full_of_size {w : Node} {d : Nat} {m : LockMode} (ht : C.files t)
    (hi : C.Inv w) (hw : C.whole) (hd : C.CopyFd d w) (hq : C.Quit t w)
    (hl : w.os.dir .bitmap = none → (w.os.locks d).Holds t.1 m)
    (hall : C.AllMarked w ∨ C.Settled (w.os.file d))
    (hsize : (w.os.file d).size ≠ 0) : C.FullFd d w := by
  rcases hall with hall | hs
  · cases hbm : w.os.dir .bitmap with
    | some i => exact full_of_marked hi hw hd hbm hall
    | none =>
      refine full_of_settled hd ?_ hsize
      rcases hi.settled hw hbm d (hd.dir hw) with hs | ⟨u, -, hp, -⟩
      · exact hs
      · have hut : t.1 = u.1 := hp.excl_unique (hl hbm)
        rw [← hut] at hp
        exact hq hw ht hbm d (hd.dir hw) hp
  · exact full_of_settled hd hs hsize

/-- What the size under a lock of kind `m` says. -/
theorem quits_getFileSize (ht : C.files t) {d : Nat} {m : LockMode}
    (hP : C.Steady t P)
    (hd : ∀ w, P w → C.CopyFd d w) (hq : ∀ w, P w → C.Quit t w)
    (hl : ∀ w, P w → C.whole → w.os.dir .bitmap = none →
      (w.os.locks d).Holds t.1 m) :
    C.Works t P (getFileSize d) fun n w =>
      (C.whole → n ≠ 0 → n = C.orig.size ∧ C.FullFd d w) ∧ P w := by
  refine works_look (F := fun r w => ∀ n, r = .ok n → C.whole → n ≠ 0 →
      n = C.orig.size ∧ C.FullFd d w) hP rfl (fun _ => True.intro)
    (fun w x r hi hp hex hok n hn hw h0 => ?_) fun r => ?_
  · obtain ⟨o, os', rfl, hos, -⟩ := Node.exec_sys hex
    obtain ⟨-, ⟨e, rfl⟩ | rfl⟩ := Os.exec_fstat hos
    · exact absurd hn (by simp)
    · obtain rfl := Except.ok.inj hn
      have hall : C.AllMarked w ∨ C.Settled (w.os.file d) := by
        by_cases hlazy : C.lazy
        · exact hok hw hlazy ht (hd w hp).2.1
        · exact Or.inl fun i hi' =>
            absurd ((hi.noBitmap hlazy).symm.trans hi') (by simp)
      have hfull := full_of_size ht hi hw (hd w hp) (hq w hp) (hl w hp hw)
        hall h0
      exact ⟨by rw [hfull.eq hi (C.wholeSized hw)], hfull⟩
  · have hF : C.Firm t fun w => ∀ n, r = .ok n → C.whole → n ≠ 0 →
        n = C.orig.size ∧ C.FullFd d w := fun w w' hm hb h n hn hw h0 =>
      ⟨(h n hn hw h0).1, firm_fullFd d w w' hm hb (h n hn hw h0).2⟩
    cases r with
    | error e =>
      exact Works.pureSteady (hF.steady.and hP) fun _ _ hp =>
        ⟨fun _ h => absurd rfl h, hp.2⟩
    | ok n =>
      exact Works.pureSteady (hF.steady.and hP) fun _ _ hp =>
        ⟨hp.1 n rfl, hp.2⟩

/-! ## The store -/

variable (C) in
/-- The copy behind `d` holds the origin up to `pos`. -/
def Prefix (d pos : Nat) (w : Node) : Prop :=
  d < w.os.next ∧ w.os.born d = .data ∧
    ∀ i, i < pos → i < C.orig.size → Has C.orig (w.os.file d) i

theorem firm_filled (d pos : Nat) : C.Firm t (C.Prefix d pos) :=
  fun _ _ hm _ h =>
    ⟨Nat.lt_of_lt_of_le h.1 hm.frame.next, (hm.frame.born d h.1).trans h.2.1,
      fun i hlt hsz => hm.frame.has d i h.1 h.2.1 hsz (h.2.2 i hlt hsz)⟩

theorem Prefix.full {w : Node} {d pos : Nat} (h : C.Prefix d pos w)
    (hpos : C.orig.size ≤ pos) : C.FullFd d w :=
  ⟨h.1, h.2.1, fun i hi => h.2.2 i (by omega) hi⟩

variable (C) in
/-- What the thread that stores knows: the lock is on `d`, the writes go
through `io`, and the copy is the same when it matters. -/
def Storing (t : Tid) (d io : Nat) (w : Node) : Prop :=
  (C.CopyFd d w ∧ C.Locked t d w) ∧ C.CopyFd io w

theorem steady_storing (ht : C.files t) (d io : Nat) :
    C.Steady t (C.Storing t d io) :=
  (steady_locked ht d).and (firm_copyFd io).steady

theorem agrees_self : Agrees C.orig 0 C.orig :=
  fun j hj => ⟨by omega, by rw [Nat.zero_add]⟩

/-- A write of the origin's bytes by the thread that stores. -/
theorem tame_store {w : Node} {d io off : Nat} {data : Bytes Byte}
    (ht : C.files t) (hi : C.Inv w) (hb : w.busy t = true)
    (h : C.Storing t d io w) (ha : Agrees C.orig off data) :
    C.Tame t w
        { w with os := w.os.setFile io ((w.os.file io).splice off data) } ∧
      C.Storing t d io
        { w with os := w.os.setFile io ((w.os.file io).splice off data) } := by
  refine ⟨Tame.setCopy hi h.2.1 h.2.2.1 _ (fun i _ hh => hh.splice ha)
    (fun hs => size_splice_le ha (hi.size hs io h.2.1 h.2.2.1))
    (fun hw hn => Or.inr ⟨ht, ?_, hb⟩), h⟩
  obtain rfl := h.2.unique hw (h.1.1.dir hw)
  exact h.1.2 hw hn

/-- What the write leaves behind `io`. -/
theorem prefix_store {w : Node} {io pos : Nat} {data : Bytes Byte}
    (h : C.Prefix io pos w) (ha : Agrees C.orig pos data) :
    C.Prefix io (pos + data.size)
      { w with os := w.os.setFile io ((w.os.file io).splice pos data) } := by
  refine ⟨h.1, h.2.1, fun i hlt hsz => ?_⟩
  rw [show ({ w with os := w.os.setFile io ((w.os.file io).splice pos data) } :
    Node).os.file io = (w.os.file io).splice pos data from file_self]
  by_cases hi : i < pos
  · exact (h.2.2 i hi hsz).splice ha
  · exact has_splice ha (by omega) hlt

/-- One turn of the chunked loop. A write that fails would go unnoticed; one
that writes nothing ends the loop, and the copy was full already. -/
theorem works_storeLoop (ht : C.files t) (hbig : transferGranularity ≤ C.orig.size)
    (d io fuel pos : Nat) :
    C.Works t (fun w => C.Prefix io pos w ∧ C.Storing t d io w)
      (consStoreLoop io C.orig fuel pos pos)
      fun _ w => (C.whole → C.FullFd io w) ∧ C.Storing t d io w := by
  induction fuel generalizing pos with
  | zero =>
    exact Spec.Triple.call
      ((firm_filled io pos).steady.and (steady_storing ht d io))
      (A := fun _ _ => False)
      (fun _ _ _ => ⟨True.intro, fun _ _ r _ _ => r.elim⟩) fun r => r.elim
  | succ fuel ih =>
    have hsteady := (firm_filled (C := C) (t := t) io pos).steady.and
      (steady_storing ht d io)
    rw [consStoreLoop]
    split
    swap
    · exact Works.pureSteady hsteady fun w _ hp =>
        ⟨fun _ => hp.1.full (by omega), hp.2⟩
    next hlt =>
    rw [if_neg (by omega)]
    have hpos : (pos : Int).toNat = pos := Int.toNat_natCast pos
    rw [hpos]
    dsimp only
    have hdata : (C.orig.slice pos
        (min (C.orig.size - pos) transferGranularity)).size ≠ 0 := by
      rw [Bytes.size_slice, transferGranularity]
      omega
    refine works_step (A := fun r w => match r with
        | .error _ => False
        | .ok 0 => (C.whole → C.FullFd io w) ∧ C.Storing t d io w
        | .ok n => C.Prefix io (pos + n) w ∧ C.Storing t d io w)
      hsteady (fun _ => True.intro)
      (fun w x w' r hi hb hp hex hok => ?_) fun r => ?_
    · have hputs := fun k =>
        tame_store ht hi hb hp.2 ((agrees_slice pos
          (min (C.orig.size - pos) transferGranularity)).take k)
      obtain ⟨o, os', rfl, hos, rfl⟩ := Node.exec_sys hex
      have hwrites := hok ht hp.1.2.1
      rcases Os.exec_pwrite hos with ⟨e, rfl, -, -⟩ | ⟨-, rfl, rfl⟩ |
          ⟨k, rfl, hk, rfl, rfl⟩
      · exact absurd (hwrites.1 e rfl) (by omega)
      · have hput := tame_store ht hi hb hp.2 (agrees_slice pos
          (min (C.orig.size - pos) transferGranularity))
        refine ⟨hput.1, ?_⟩
        obtain ⟨n, hn⟩ := Nat.exists_eq_succ_of_ne_zero hdata
        have hpre := prefix_store hp.1 (agrees_slice pos
          (min (C.orig.size - pos) transferGranularity))
        rw [hn] at hpre ⊢
        exact ⟨hpre, hput.2⟩
      · refine ⟨(hputs k).1, ?_⟩
        cases k with
        | zero =>
          refine ⟨fun hw => ?_, (hputs 0).2⟩
          rcases hwrites.2 0 rfl hw with hfull | hzero
          · refine ⟨hp.1.1, hp.1.2.1, ?_⟩
            rw [file_self, hfull, splice_self ((agrees_slice pos _).take 0)]
            exact full_self
          · rw [if_neg (by omega)] at hzero
            exact absurd hzero (Nat.lt_irrefl _)
        | succ k =>
          have hpre := prefix_store hp.1 ((agrees_slice pos
            (min (C.orig.size - pos) transferGranularity)).take (k + 1))
          rw [Bytes.size_slice, Nat.sub_zero,
            Nat.min_eq_left (Nat.le_of_lt hk)] at hpre
          exact ⟨hpre, (hputs (k + 1)).2⟩
    · match r with
      | .error e => exact fun w _ hp => absurd hp.2 id
      | .ok 0 =>
        have hfull : C.Firm t fun w => C.whole → C.FullFd io w :=
          Firm.imp fun _ => firm_fullFd io
        exact Works.pureSteady (hfull.steady.and (steady_storing ht d io))
          fun _ _ hp => hp
      | .ok (n + 1) =>
        have := ih (pos + (n + 1))
        rwa [Int.natCast_add] at this

/-- The store at one go: whatever is written, the copy stays settled. -/
theorem quit_of_write {w : Node} {d io : Nat} {x : Choice} {k : Nat}
    (ht : C.files t) (hq : C.Quit t w)
    (h : C.Storing t d io w) (hx : x = .os (.short k))
    (hsmall : C.orig.size < transferGranularity)
    (hwrites : C.Writes w io x) :
    C.Quit t { w with
      os := w.os.setFile io ((w.os.file io).splice 0 (C.orig.slice 0 k)) } := by
  intro hw _ hn e he hh
  obtain rfl := h.2.unique hw he
  rw [show ({ w with os := w.os.setFile e _ } : Node).os.file e = _ from
    file_self]
  rcases hwrites.2 k hx hw with hfull | hk
  · rw [hfull, splice_self (agrees_slice 0 k)]
    exact Or.inr rfl
  · rw [if_pos hsmall] at hk
    subst hk
    rw [Bytes.eq_empty_of_size (b := C.orig.slice 0 0) (by simp),
      Bytes.splice_nothing]
    exact hq hw ht hn e he hh

theorem quits_storeOnce (ht : C.files t)
    (hsmall : C.orig.size < transferGranularity) (d io : Nat)
    {f : Except Errno Nat → Program α}
    (hk : ∀ r, C.Works t (fun w =>
      (C.whole → r = .ok C.orig.size → C.FullFd io w) ∧ C.Quit t w ∧
        C.Storing t d io w) (f r) R) :
    C.Works t (fun w => C.Quit t w ∧ C.Storing t d io w)
      ((sys (.pwrite io 0 C.orig)).bind f) R := by
  refine works_step (steady_quit.and (steady_storing ht d io))
    (fun _ => True.intro) (fun w x w' r hi hb hp hex hok => ?_) hk
  obtain ⟨o, os', rfl, hos, rfl⟩ := Node.exec_sys hex
  have hwrites := hok ht hp.2.2.2.1
  rcases Os.exec_pwrite hos with ⟨e, -, rfl, rfl⟩ | ⟨-, rfl, rfl⟩ |
      ⟨k, rfl, hlt, rfl, rfl⟩
  · exact ⟨Tame.stay hi, fun _ h => absurd h (by simp), hp⟩
  · obtain ⟨htame, hst⟩ := tame_store ht hi hb hp.2 agrees_self
    have hfull : C.FullFd io
        { w with os := w.os.setFile io ((w.os.file io).splice 0 C.orig) } := by
      refine ⟨hp.2.2.1, hp.2.2.2.1, fun i hlt => ?_⟩
      rw [file_self]
      exact has_splice agrees_self (Nat.zero_le i) (by omega)
    exact ⟨htame, fun _ _ => hfull,
      quit_of_full htame.inv hst.2 fun _ => hfull, hst⟩
  · obtain ⟨htame, hst⟩ := tame_store ht hi hb hp.2 (agrees_slice 0 k)
    refine ⟨htame, fun _ h => ?_,
      quit_of_write ht hp.1 hp.2 rfl hsmall hwrites, hst⟩
    have := Except.ok.inj h
    omega

theorem quits_consStoreWrite (ht : C.files t) (fuel d io : Nat) :
    C.Works t (fun w => C.Quit t w ∧ C.Storing t d io w)
      (consStoreWrite fuel io C.orig)
      fun rc w => (C.whole → rc = .ok → C.FullFd io w) ∧ C.Quit t w ∧
        C.Storing t d io w := by
  have hfirm : ∀ φ : Prop, C.Firm t fun w => C.whole → φ → C.FullFd io w :=
    fun φ => Firm.imp fun _ => Firm.imp fun _ => firm_fullFd io
  have hsteady := (steady_quit (C := C)).and (steady_storing ht d io)
  unfold consStoreWrite
  split
  · next hsmall =>
    refine quits_storeOnce ht hsmall d io fun r => ?_
    cases r with
    | error e =>
      exact Works.pureSteady ((hfirm _).steady.and hsteady) fun _ _ hp =>
        ⟨fun _ h => absurd h (by simp), hp.2⟩
    | ok n =>
      refine Works.pureSteady ((hfirm _).steady.and hsteady)
        fun _ _ hp => ⟨fun hw h => hp.1 hw ?_, hp.2⟩
      split at h
      · next hn => rw [hn]
      · exact absurd h (by simp)
  · next hbig =>
    refine Works.bind (Works.pre
      (works_storeLoop ht (by omega) d io fuel 0) fun w _ hp =>
        ⟨⟨hp.2.2.1, hp.2.2.2.1, fun i hlt => absurd hlt (by omega)⟩, hp.2⟩)
      fun r => ?_
    have hsteady' : C.Steady t fun w => (C.whole → C.FullFd io w) ∧
        C.Storing t d io w :=
      (Firm.steady (Firm.imp fun _ => firm_fullFd io)).and
        (steady_storing ht d io)
    cases r <;> exact Works.pureSteady hsteady' fun _ hi hp =>
      ⟨fun hw _ => hp.1 hw, quit_of_full hi hp.2.2 hp.1, hp.2⟩

theorem quits_consStore (ht : C.files t) (fuel d io : Nat) :
    C.Works t (fun w => C.Quit t w ∧ C.Storing t d io w)
      (dyadConsStore C.ctx fuel io C.orig)
      fun rc w => (C.whole → rc = .ok → C.FullFd io w) ∧ C.Quit t w ∧
        C.Storing t d io w := by
  have hsteady := (steady_quit (C := C)).and (steady_storing ht d io)
  unfold dyadConsStore
  split
  · exact quits_consStoreWrite ht fuel d io
  · refine works_pass hsteady rfl (fun _ => True.intro) fun r => ?_
    cases r with
    | error e =>
      exact Works.pureSteady hsteady fun _ _ hp =>
        ⟨fun _ h => absurd h (by simp), hp⟩
    | ok _ => exact quits_consStoreWrite ht fuel d io

/-! ## The two consume calls -/

variable (C) in
/-- What is known of the copy once a return code is settled on. -/
def Stored (d : Nat) (rc : Rc) (w : Node) : Prop :=
  (C.whole → rc = .ok → C.FullFd d w) ∧ C.CopyFd d w

theorem firm_stored (d : Nat) (rc : Rc) : C.Firm t (C.Stored d rc) :=
  Firm.and (Firm.imp fun _ => Firm.imp fun _ => firm_fullFd d) (firm_copyFd d)

variable (C) in
/-- What a consume call promises. -/
def Consumed (t : Tid) (rc : Rc) (w : Node) : Prop :=
  C.Quit t w ∧ (C.whole → rc = .ok → Complete C.orig w)

theorem consumed_of_stored {d : Nat} {rc : Rc} {w : Node} (hi : C.Inv w)
    (h : C.Quit t w ∧ C.Stored d rc w) : C.Consumed t rc w :=
  ⟨h.1, fun hw hrc => complete_of_full hi hw h.2.2 (h.2.1 hw hrc)⟩

theorem consumed_error {rc : Rc} {w : Node} (h : rc ≠ .ok)
    (hq : C.Quit t w) : C.Consumed t rc w :=
  ⟨hq, fun _ hrc => absurd hrc h⟩

theorem quits_fail {rc : Rc} (h : rc ≠ .ok) (hP : C.Firm t P) :
    C.Works t (fun w => C.Quit t w ∧ P w) (.pure rc) (C.Consumed t) :=
  Works.pureSteady (steady_quit.and hP.steady) fun _ _ hp =>
    consumed_error h hp.1

theorem quits_return {d : Nat} {rc : Rc} :
    C.Works t (fun w => C.Quit t w ∧ C.Stored d rc w) (.pure rc)
      (C.Consumed t) :=
  Works.pureSteady (steady_quit.and (firm_stored d rc).steady)
    fun _ hi hp => consumed_of_stored hi hp

/-- A file whose owner, as the key-value store names it, is on this node, has a
full copy when whole-file results are claimed. -/
theorem quits_fetchMetadata (ht : C.files t) {d : Nat} (hP : C.Steady t P)
    (hd : ∀ w, P w → C.CopyFd d w) :
    C.Works t P (dyadFetchMetadata C.ctx) fun r w =>
      ((∀ rc, r = .error rc → rc ≠ .ok) ∧
        (C.whole → r = .ok none → C.FullFd d w)) ∧ P w := by
  refine works_look (F := fun r w => (∀ rc, r = .error rc → rc ≠ .ok) ∧
      (C.whole → ∀ rank, r = .ok rank →
        rank / C.ctx.serviceMux = C.ctx.nodeIdx → C.FullFd d w)) hP rfl
    (fun _ => True.intro) (fun w x r hi hp hex hok => ?_) fun r => ?_
  · obtain ⟨-, hans⟩ := Node.exec_quiet rfl hex
    rcases Node.answer_kvsRead hans with ⟨rank, hrank, rfl⟩ | ⟨rc, hrc, rfl⟩
    · refine ⟨fun _ h => absurd h (by simp), fun hw rank' h heq => ?_⟩
      obtain rfl := Except.ok.inj h
      rcases hok hw ht rank hrank with hne | ⟨e, he, hfile⟩
      · exact absurd heq hne
      · obtain rfl := (hd w hp).unique hw he
        exact ⟨(hd w hp).1, (hd w hp).2.1, by rw [hfile]; exact full_self⟩
    · refine ⟨fun rc' h => ?_, fun _ _ h => absurd h (by simp)⟩
      obtain rfl := Except.error.inj h
      exact (Rc.isError_iff rc).1 hrc
  · have hF : C.Firm t fun w => (∀ rc, r = .error rc → rc ≠ .ok) ∧
        (C.whole → ∀ rank, r = .ok rank →
          rank / C.ctx.serviceMux = C.ctx.nodeIdx → C.FullFd d w) :=
      fun w w' hm hb h => ⟨h.1, fun hw rank hr heq =>
        firm_fullFd d w w' hm hb (h.2 hw rank hr heq)⟩
    have hsteady := hF.steady.and hP
    cases r with
    | error rc =>
      exact Works.pureSteady hsteady fun _ _ hp =>
        ⟨⟨fun rc' h => hp.1.1 rc' (by rw [Except.error.inj h]),
          fun _ h => absurd h (by simp)⟩, hp.2⟩
    | ok rank =>
      dsimp only
      split
      · next heq =>
        exact Works.pureSteady hsteady fun _ _ hp =>
          ⟨⟨fun _ h => absurd h (by simp),
            fun hw _ => hp.1.2 hw rank rfl heq⟩, hp.2⟩
      · exact Works.pureSteady hsteady fun _ _ hp =>
          ⟨⟨fun _ h => absurd h (by simp),
            fun _ h => absurd h (by simp)⟩, hp.2⟩

variable (C) in
/-- What is known of the copy after a transfer. -/
def Transferred (d : Nat) (w : Node) : Pulled → Prop
  | .noData rc => rc ≠ .ok ∧ C.CopyFd d w
  | .noFd => C.CopyFd d w
  | .closeFailed => C.CopyFd d w
  | .stored rc => C.Stored d rc w

theorem quits_fetchAndStore (ht : C.files t) (fuel d : Nat) :
    C.Works t (fun w => C.Quit t w ∧ C.CopyFd d w ∧ C.Locked t d w)
      (fetchAndStore C.ctx fuel) fun pulled w =>
        C.Quit t w ∧ C.Transferred d w pulled := by
  have hlocked := (steady_quit (C := C)).and (steady_locked ht d)
  refine works_see (φ := fun r => (∀ rc, r = .error rc → rc ≠ .ok) ∧
      ∀ data, r = .ok data → data = C.orig)
    hlocked rfl (fun _ => True.intro)
    (fun w x r hi _ hex hok => ?_) fun r hr => ?_
  · obtain ⟨-, hans⟩ := Node.exec_quiet rfl hex
    rcases Node.answer_getData hans with rfl | ⟨rc, hrc, rfl⟩
    · refine ⟨fun _ h => absurd h (by simp), fun data h => ?_⟩
      rw [← Except.ok.inj h, Dtl.Strips.received (hok ht), hi.published]
    · refine ⟨fun rc' h => ?_, fun _ h => absurd h (by simp)⟩
      obtain rfl := Except.error.inj h
      exact (Rc.isError_iff rc).1 hrc
  cases r with
  | error rc =>
    exact Works.pureSteady hlocked fun _ _ hp =>
      ⟨hp.1, hr.1 rc rfl, hp.2.1⟩
  | ok data =>
    obtain rfl := hr.2 data rfl
    refine works_step (A := fun r w => match r with
        | .error _ => C.Quit t w ∧ C.CopyFd d w ∧ C.Locked t d w
        | .ok io => C.Quit t w ∧ C.Storing t d io w) hlocked
      (fun _ => True.intro) (fun w x w' r hi hb hp hex _ => ?_) fun r => ?_
    · obtain ⟨htame, hopen⟩ := tame_open hi (fun h => absurd h (by simp))
        (fun h => absurd h (by simp)) hex
      refine ⟨htame, ?_⟩
      have hsame : w' = w := by
        obtain ⟨o, os', rfl, hos, rfl⟩ := Node.exec_sys hex
        rcases Os.exec_open hos with ⟨e, -, rfl⟩ | ⟨i, -, -, rfl⟩ |
            ⟨-, h, -⟩
        · rfl
        · rfl
        · exact absurd h (by simp)
      subst hsame
      cases r with
      | error e => exact hp
      | ok io => exact ⟨hp.1, hp.2, copyFd_of_dir (hopen io rfl).1⟩
    cases r with
    | error e => exact Works.pureSteady hlocked fun _ _ hp => ⟨hp.1, hp.2.1⟩
    | ok io =>
      refine Works.bind (quits_consStore ht fuel d io) fun rc => ?_
      have hstored := (steady_quit (C := C) (t := t)).and
        (firm_stored d rc).steady
      -- the two descriptors are of one file when it matters
      refine Works.pre (A := fun w => C.Quit t w ∧ C.Stored d rc w)
        (quits_close ht (firm_stored d rc) io fun r => ?_) fun w _ hp => ?_
      · cases r with
        | error e =>
          exact Works.pureSteady hstored fun _ _ hp => ⟨hp.1, hp.2.2⟩
        | ok _ => exact Works.pureSteady hstored fun _ _ hp => hp
      · obtain ⟨hfull, hq, hst⟩ := hp
        refine ⟨hq, fun hw hrc => ?_, hst.1.1⟩
        obtain rfl := hst.1.1.unique hw (hst.2.dir hw)
        exact hfull hw hrc

theorem quits_returnFileData (fileData : Bool) (hP : C.Firm t P) :
    C.Works t (fun w => C.Quit t w ∧ P w) (returnFileData fileData)
      fun _ w => C.Quit t w ∧ P w := by
  have hsteady := (steady_quit (C := C)).and hP.steady
  unfold returnFileData
  split
  · exact works_pass hsteady rfl (fun _ => True.intro) fun _ =>
      Works.pureSteady hsteady fun _ _ hp => hp
  · exact Works.pureSteady hsteady fun _ _ hp => hp

theorem quits_consumeDone (ht : C.files t) (fd d : Nat) (fileData : Bool)
    (rc : Rc) :
    C.Works t (fun w => C.Quit t w ∧ C.Stored d rc w)
      (consumeDone fd fileData rc) (C.Consumed t) := by
  refine quits_close ht (firm_stored d rc) fd fun closed => ?_
  refine Works.bind (quits_returnFileData fileData (firm_stored d rc))
    fun _ => ?_
  cases closed with
  | error e => exact quits_fail (by simp) (firm_stored d rc)
  | ok _ => exact quits_return

theorem quits_consumeRelease (ht : C.files t) (fd d : Nat) (fileData : Bool)
    (rc : Rc) :
    C.Works t (fun w => C.Quit t w ∧ C.Stored d rc w)
      (consumeRelease fd fileData rc) (C.Consumed t) :=
  Works.bind (quits_releaseFlock ht (firm_stored d rc) fd) fun _ =>
    quits_consumeDone ht fd d fileData rc

theorem quits_consumeMetadataRelease (ht : C.files t) (fd d : Nat)
    (fileData : Bool) (rc : Rc) :
    C.Works t (fun w => C.Quit t w ∧ C.Stored d rc w)
      (consumeMetadataRelease fd fileData rc) (C.Consumed t) := by
  refine Works.bind (quits_releaseFlock ht (firm_stored d rc) fd) fun _ => ?_
  exact Works.bind (quits_returnFileData fileData (firm_stored d rc))
    fun _ => quits_return

theorem quits_consumeStored (ht : C.files t)
    (hctx : C.evict ∨ C.ctx.cacheCapacityBytes = 0 ∨
      C.ctx.cachePolicyMode = .none) (fd d : Nat) (fileData : Bool) :
    C.Works t (fun w => C.Quit t w ∧ C.Stored d .ok w)
      (consumeStored C.ctx fd fileData) (C.Consumed t) :=
  Works.bind (quits_releaseFlock ht (firm_stored d .ok) fd) fun _ =>
    Works.bind (quits_maybeEvict ht (firm_stored d .ok) hctx) fun _ =>
      quits_consumeDone ht fd d fileData .ok

/-- A call that is about to leave with an error. -/
theorem stored_of_error {d : Nat} {rc : Rc} {w : Node} (h : rc ≠ .ok)
    (hp : C.Quit t w ∧ C.CopyFd d w) : C.Quit t w ∧ C.Stored d rc w :=
  ⟨hp.1, fun _ hrc => absurd hrc h, hp.2⟩

theorem quits_consumeShared (ht : C.files t) (hshared : ¬ C.whole)
    (d fileSize : Nat) :
    C.Works t (fun w => C.Quit t w ∧ C.CopyFd d w)
      (consumeShared C.ctx d fileSize) (C.Consumed t) := by
  have hd := firm_copyFd (C := C) (t := t) d
  have hdone : ∀ rc, C.Works t (fun w => C.Quit t w ∧ C.CopyFd d w)
      (consumeDone d false rc) (C.Consumed t) := fun rc =>
    (quits_consumeDone ht d d false rc).pre fun _ _ hp =>
      ⟨hp.1, fun hw => absurd hw hshared, hp.2⟩
  refine Works.bind (quits_releaseFlock ht hd d) fun _ => ?_
  split
  · refine Works.bind (quits_fetchMetadata ht (steady_quit.and hd.steady)
      fun _ hp => hp.2) fun r => ?_
    cases r <;> exact (hdone _).pre fun _ _ hp => hp.2
  · exact hdone _

section

variable (ht : C.files t) (hctx : C.evict ∨ C.ctx.cacheCapacityBytes = 0 ∨
  C.ctx.cachePolicyMode = .none)

include ht hctx

omit hctx in
/-- The transfer and what each of its outcomes leaves with, in either call. -/
theorem quits_transfer (fuel d : Nat)
    {release : Bool → Rc → Program Rc} {stored : Program Rc}
    (hrelease : ∀ b rc, C.Works t (fun w => C.Quit t w ∧ C.Stored d rc w)
      (release b rc) (C.Consumed t))
    (hstored : C.Works t (fun w => C.Quit t w ∧ C.Stored d .ok w) stored
      (C.Consumed t)) :
    C.Works t (fun w => C.Quit t w ∧ C.CopyFd d w ∧ C.Locked t d w)
      ((fetchAndStore C.ctx fuel).bind fun pulled => match pulled with
        | .noData rc => release false rc
        | .noFd => .pure .badfio
        | .closeFailed => release true .badfio
        | .stored rc => if rc.isError then release true rc else stored)
      (C.Consumed t) := by
  refine Works.bind (quits_fetchAndStore ht fuel d) fun pulled => ?_
  cases pulled with
  | noData rc =>
    exact (hrelease false rc).pre fun _ _ hp =>
      stored_of_error hp.2.1 ⟨hp.1, hp.2.2⟩
  | noFd => exact quits_fail (by simp) (firm_copyFd d)
  | closeFailed =>
    exact (hrelease true .badfio).pre fun _ _ hp =>
      stored_of_error (by simp) hp
  | stored rc =>
    dsimp only
    split
    · exact (hrelease true rc).pre fun _ _ hp => hp
    · next herr =>
      have hok : rc = .ok := by
        simpa [Rc.isError_iff] using herr
      subst hok
      exact hstored.pre fun _ _ hp => hp

theorem quits_consumeLocal (fuel d fileSize : Nat) :
    C.Works t (fun w =>
      (C.whole → fileSize ≠ 0 → fileSize = C.orig.size ∧ C.FullFd d w) ∧
        C.Quit t w ∧ C.CopyFd d w ∧ C.Locked t d w)
      (consumeLocal C.ctx fuel d fileSize) (C.Consumed t) := by
  unfold consumeLocal
  split
  · refine Works.bind (Works.pre (quits_fetchMetadata ht
      (steady_quit.and (steady_locked ht d)) fun _ hp => hp.2.1)
      fun _ _ hp => hp.2) fun r => ?_
    rcases r with rc | _ | rank
    · exact (quits_consumeRelease ht d d false rc).pre fun _ _ hp =>
        stored_of_error (hp.1.1 rc rfl) ⟨hp.2.1, hp.2.2.1⟩
    · exact (quits_consumeRelease ht d d false .ok).pre fun _ _ hp =>
        ⟨hp.2.1, fun hw _ => hp.1.2 hw rfl, hp.2.2.1⟩
    · exact (quits_transfer ht fuel d
        (fun b rc => quits_consumeRelease ht d d b rc)
        (quits_consumeStored ht hctx d d true)).pre fun _ _ hp => hp.2
  · next h =>
    refine (quits_consumeStored ht hctx d d false).pre fun _ _ hp =>
      ⟨hp.2.1, fun hw _ => (hp.1 hw ?_).2, hp.2.2.1⟩
    exact fun h0 => h (Or.inr h0)

omit hctx in
/-- The copy once it is locked and its size read. -/
theorem quits_locked (d : Nat) {f : Nat → Program Rc}
    (hk : ∀ n, C.Works t (fun w =>
      (C.whole → n ≠ 0 → n = C.orig.size ∧ C.FullFd d w) ∧
        C.Quit t w ∧ C.CopyFd d w ∧ C.Locked t d w) (f n) (C.Consumed t)) :
    C.Works t (fun w => C.Quit t w ∧ C.CopyFd d w ∧ C.Locked t d w)
      ((getFileSize d).bind f) (C.Consumed t) :=
  Works.bind (quits_getFileSize ht (steady_quit.and (steady_locked ht d))
    (fun _ hp => hp.2.1) (fun _ hp => hp.1) fun _ hp => hp.2.2) hk

theorem quits_consume (fuel : Nat)
    (hlocal : C.whole → C.ctx.tracked = true ∧ C.ctx.sharedStorage = false) :
    C.Works t (C.Quit t) (dyadConsume C.ctx fuel) (C.Consumed t) := by
  have hfail : ∀ rc, rc ≠ .ok → C.Works t (C.Quit t) (.pure rc)
      (C.Consumed t) := fun rc h =>
    (quits_fail h (Firm.true (C := C))).pre fun _ _ hp => ⟨hp, True.intro⟩
  unfold dyadConsume
  split
  · exact hfail _ (by simp)
  split
  · exact hfail _ (by simp)
  split
  · next htracked =>
    refine Works.pureSteady steady_quit fun _ _ hp => ⟨hp, fun hw => ?_⟩
    rw [(hlocal hw).1] at htracked
    exact absurd htracked (by simp)
  refine Works.pre (quits_open (P := fun _ => True) Firm.true
    (fun e => quits_fail (by simp) Firm.true) fun d => ?_)
    fun _ _ hp => ⟨hp, True.intro⟩
  refine Works.bind (quits_exclFlock ht Firm.true d) fun rc => ?_
  split
  · next herr =>
    exact (quits_consumeRelease ht d d false rc).pre fun _ _ hp =>
      stored_of_error ((Rc.isError_iff rc).1 herr) ⟨hp.2.1, hp.1⟩
  · next herr =>
    have hok : rc = .ok := by
      simpa [Rc.isError_iff] using herr
    refine Works.pre (quits_locked ht d fun n => ?_) fun _ _ hp =>
      ⟨hp.2.1, hp.1, hp.2.2.1 hok⟩
    split
    · next hshared =>
      refine (quits_consumeShared ht (fun hw => ?_) d n).pre fun _ _ hp =>
        ⟨hp.2.1, hp.2.2.1⟩
      rw [(hlocal hw).2] at hshared
      exact absurd hshared (by simp)
    · exact quits_consumeLocal ht hctx fuel d n

theorem quits_consumeWMetadata (mdata : Bool) (fuel : Nat)
    (hmdata : C.whole → mdata = true) :
    C.Works t (C.Quit t) (dyadConsumeWMetadata C.ctx mdata fuel)
      (C.Consumed t) := by
  have hfail : ∀ rc, rc ≠ .ok → C.Works t (C.Quit t) (.pure rc)
      (C.Consumed t) := fun rc h =>
    (quits_fail h (Firm.true (C := C))).pre fun _ _ hp => ⟨hp, True.intro⟩
  unfold dyadConsumeWMetadata
  split
  · exact hfail _ (by simp)
  split
  · next hnone =>
    refine Works.pureSteady steady_quit fun _ _ hp => ⟨hp, fun hw => ?_⟩
    rw [hmdata hw] at hnone
    exact absurd hnone (by simp)
  split
  · exact hfail _ (by simp)
  refine Works.pre (quits_open (P := fun _ => True) Firm.true
    (fun e => quits_fail (by simp) Firm.true) fun d => ?_)
    fun _ _ hp => ⟨hp, True.intro⟩
  refine Works.bind (quits_exclFlock ht Firm.true d) fun rc => ?_
  split
  · next herr =>
    refine Works.pre (A := fun w => C.Quit t w ∧ C.Stored d rc w) ?_
      fun _ _ hp =>
        stored_of_error ((Rc.isError_iff rc).1 herr) ⟨hp.2.1, hp.1⟩
    exact Works.bind (quits_releaseFlock ht (firm_stored d rc) d) fun _ =>
      quits_return
  · next herr =>
    have hok : rc = .ok := by
      simpa [Rc.isError_iff] using herr
    refine Works.pre (quits_locked ht d fun n => ?_) fun _ _ hp =>
      ⟨hp.2.1, hp.1, hp.2.2.1 hok⟩
    unfold consumeMetadataLocal
    split
    · exact (quits_transfer ht fuel d
        (fun b rc => quits_consumeMetadataRelease ht d d b rc)
        (quits_consumeStored ht hctx d d true)).pre fun _ _ hp => hp.2
    · next h0 =>
      exact (quits_consumeStored ht hctx d d false).pre fun _ _ hp =>
        ⟨hp.2.1, fun hw _ => (hp.1 hw h0).2, hp.2.2.1⟩

end

end Setting

end Dyad
