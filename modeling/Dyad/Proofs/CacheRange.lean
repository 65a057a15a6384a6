import Dyad.Proofs.CacheRules

/-!
# The range threads stay in the outline

`dyad_range_cache_ensure` and what calls it, walked from the bottom: the lock
helpers, the fast path, the first touch, the fetch and the recording, and then
the client call, the request handler and the worker.

The argument is the one the source's comments make. A block is fetched before
its bit is set, and both with the bitmap open: what the recording merges into
the bitmap it read are bits of blocks that are local by then, whatever the
other threads did to either file in between. Neither lock nor mutex is needed
for this, so nothing here is asked of them.
-/

namespace Dyad

open Conc Posix

namespace Setting

variable {C : Setting} {t : Tid} {P : Node → Prop}

variable (C) in
/-- A triple of a thread at work. -/
def Works (t : Tid) {α : Type} (P : Node → Prop) (p : Program α)
    (Q : α → Node → Prop) : Prop :=
  C.spec.Triple t (At t P) p fun a => At t (Q a)

theorem Works.bind {α β : Type} {P : Node → Prop} {Q : α → Node → Prop}
    {R : β → Node → Prop} {p : Program α} {f : α → Program β}
    (hp : C.Works t P p Q) (hf : ∀ a, C.Works t (Q a) (f a) R) :
    C.Works t P (p.bind f) R :=
  Spec.Triple.bind hp hf

theorem Works.pre {α : Type} {P A : Node → Prop} {Q : α → Node → Prop}
    {p : Program α} (h : C.Works t A p Q)
    (hP : ∀ w, C.Inv w → P w → A w) : C.Works t P p Q :=
  Spec.Triple.pre h fun w hi hp => ⟨hp.1, hP w hi hp.2⟩

theorem Works.post {α : Type} {Q Q' : α → Node → Prop} {p : Program α}
    (h : C.Works t P p Q) (hQ : ∀ a w, C.Inv w → Q a w → Q' a w) :
    C.Works t P p Q' :=
  Spec.Triple.imp h (fun _ _ hp => hp) fun a w hi hq => ⟨hq.1, hQ a w hi hq.2⟩

theorem Works.assume {α : Type} {φ : Prop} {Q : α → Node → Prop}
    {p : Program α} (h : φ → C.Works t P p Q) :
    C.Works t (fun w => φ ∧ P w) p Q :=
  fun w hi hp => h hp.2.1 w hi ⟨hp.1, hp.2.2⟩

theorem Works.pure {α : Type} {a : α} {Q : α → Node → Prop}
    (hP : C.Firm t P) (h : ∀ w, C.Inv w → P w → Q a w) :
    C.Works t P (.pure a) Q :=
  firm_pure hP fun w hi hb hp => ⟨hb, h w hi hp⟩

/-- What a function does to a firm assertion that it adds nothing to. -/
theorem Works.done {α : Type} {a : α} (hP : C.Firm t P) :
    C.Works t P (.pure a) fun _ => P :=
  Works.pure hP fun _ _ hp => hp

variable {α : Type} {R : α → Node → Prop}

/-- A call whose answer says nothing that matters. -/
theorem works_read {c : Call} {f : c.Res → Program α} (hP : C.Firm t P)
    (hc : c.reads = true) (hreq : ∀ w, C.Req w t c)
    (hk : ∀ r, C.Works t P (f r) R) : C.Works t P ((perform c).bind f) R :=
  firm_read (φ := fun _ => True) hP hc hreq
    (fun _ _ _ _ _ _ _ => True.intro) fun r _ => hk r

/-! ## The helpers -/

theorem works_getFileSize (hP : C.Firm t P) (fd : Nat) :
    C.Works t P (getFileSize fd) fun _ => P := by
  refine works_read hP rfl (fun _ => True.intro) fun r => ?_
  cases r <;> exact Works.done hP

/-- A range thread gives up the locks of its process on a file. -/
theorem tame_release {w : Node} {i : Nat} (ht : ¬ C.files t) (hi : C.Inv w)
    (hg : C.Touches w t i) :
    C.Tame t w { w with os := w.os.setLocks i ((w.os.locks i).release t.1) } :=
  Tame.setLocks hi i _
    (fun q m hq => by simp [hq])
    (fun hw hn hb _ => ⟨hg hw ht hb hn, fun h => by simp at h⟩)
    (fun _ _ _ h0 => absurd h0 ht)

/-- A range thread gets a lock: a shared one, or one on a bitmap. -/
theorem tame_acquire {w : Node} {i : Nat} {m : LockMode} {l : LockTable Nat}
    (ht : ¬ C.files t) (hi : C.Inv w) (hg : C.Touches w t i)
    (hm : m = .shared ∨ w.os.born i = .bitmap)
    (hl : (w.os.locks i).acquire t.1 m = some l) :
    C.Tame t w { w with os := w.os.setLocks i l } := by
  refine Tame.setLocks hi i l (fun q m' hq => ?_) (fun hw hn hb _ => ?_)
    (fun _ _ _ h0 => absurd h0 ht)
  · rw [LockTable.holds_acquire hl]
    simp [hq]
  · refine ⟨hg hw ht hb hn, fun h => ?_⟩
    rcases hm with rfl | hm
    · rw [LockTable.holds_acquire hl] at h
      simp at h
    · exact absurd (hb.symm.trans hm) (by simp)

/-- An open that succeeds says what it opened. -/
theorem works_open (hP : C.Firm t P) {n : Name} {creat : Bool}
    {f : Except Errno Nat → Program α} {F : Nat → Node → Prop}
    (hn : creat = true → n ≠ .origin)
    (hl : creat = true → n = .bitmap → C.lazy)
    (hF : ∀ w i, C.Inv w → w.os.dir n = some i → F i w)
    (herr : ∀ e, C.Works t P (f (.error e)) R)
    (hok : ∀ i, C.Works t (fun w => F i w ∧ P w) (f (.ok i)) R) :
    C.Works t P ((sys (.open n creat false)).bind f) R := by
  refine firm_step (F := fun r w => ∀ i, r = .ok i → F i w) hP
    (fun _ => True.intro) (fun w x w' r hi hp hex _ => ?_) fun r => ?_
  · obtain ⟨htame, hr⟩ := tame_open hi hn hl hex
    exact ⟨htame, fun i hri => hF w' i htame.inv (hr i hri).1⟩
  · cases r with
    | error e => exact (herr e).pre fun _ _ hp => hp.2
    | ok i => exact (hok i).pre fun _ _ hp => ⟨hp.1 i rfl, hp.2⟩

theorem works_close (ht : ¬ C.files t) (hP : C.Firm t P) {fd : Nat}
    {f : Except Errno Unit → Program α}
    (hk : ∀ r, C.Works t P (f r) R) :
    C.Works t P ((sys (.close fd)).bind f) R := by
  refine firm_skip hP (fun _ => True.intro)
    (fun w x w' r hi _ hex hok => ?_) hk
  obtain ⟨o, os', rfl, hos, rfl⟩ := Node.exec_sys hex
  rw [Os.exec_close hos]
  exact tame_release ht hi hok

theorem works_releaseFlock (ht : ¬ C.files t) (hP : C.Firm t P) (fd : Nat) :
    C.Works t P (dyadReleaseFlock fd) fun _ => P := by
  refine firm_skip hP (fun _ => True.intro)
    (fun w x w' r hi _ hex hok => ?_) fun r => ?_
  · obtain ⟨o, os', rfl, hos, rfl⟩ := Node.exec_sys hex
    rcases Os.exec_unlock hos with ⟨e, -, rfl⟩ | ⟨-, rfl⟩
    · exact Tame.stay hi
    · exact tame_release ht hi hok
  · cases r <;> exact Works.done hP

theorem works_sharedFlock (ht : ¬ C.files t) (hP : C.Firm t P) (fd : Nat) :
    C.Works t P (dyadSharedFlock fd) fun _ => P := by
  refine firm_skip hP (fun _ => True.intro)
    (fun w x w' r hi _ hex hok => ?_) fun r => ?_
  · obtain ⟨o, os', rfl, hos, rfl⟩ := Node.exec_sys hex
    rcases Os.exec_setlkw hos with ⟨e, -, rfl⟩ | ⟨l, hl, -, rfl⟩
    · exact Tame.stay hi
    · exact tame_acquire ht hi hok (Or.inl rfl) hl
  · cases r <;> exact Works.done hP

theorem works_exclFlock (ht : ¬ C.files t) (hP : C.Firm t P) {fd : Nat}
    (hfd : ∀ w, P w → C.BitmapFd fd w) :
    C.Works t P (dyadExclFlock fd) fun _ => P := by
  refine firm_skip hP (fun _ => True.intro)
    (fun w x w' r hi hp hex hok => ?_) fun r => ?_
  · obtain ⟨o, os', rfl, hos, rfl⟩ := Node.exec_sys hex
    rcases Os.exec_setlkw hos with ⟨e, -, rfl⟩ | ⟨l, hl, -, rfl⟩
    · exact Tame.stay hi
    · exact tame_acquire ht hi hok (Or.inr (hfd w hp).2.1) hl
  · cases r <;> exact Works.done hP

theorem works_mutexLock (hP : C.Firm t P) {f : Unit → Program α}
    (hk : ∀ r, C.Works t P (f r) R) :
    C.Works t P ((sys .mutexLock).bind f) R := by
  refine firm_skip hP (fun _ => True.intro)
    (fun w x w' r hi _ hex _ => ?_) hk
  obtain ⟨o, os', rfl, hos, rfl⟩ := Node.exec_sys hex
  rw [(Os.exec_mutexLock hos).2]
  exact Tame.setMutex hi _ _

theorem works_mutexUnlock (hP : C.Firm t P) {f : Unit → Program α}
    (hk : ∀ r, C.Works t P (f r) R) :
    C.Works t P ((sys .mutexUnlock).bind f) R := by
  refine firm_skip hP (fun _ => True.intro)
    (fun w x w' r hi _ hex _ => ?_) hk
  obtain ⟨o, os', rfl, hos, rfl⟩ := Node.exec_sys hex
  rw [Os.exec_mutexUnlock hos]
  exact Tame.setMutex hi _ _

theorem works_closeOpened (ht : ¬ C.files t) (hP : C.Firm t P) (fds : List Nat) :
    C.Works t P (closeOpened fds) fun _ => P := by
  induction fds with
  | nil => exact Works.done hP
  | cons fd fds ih => exact works_close ht hP fun _ => ih

/-- The ways out of a critical section keep what is known. -/
theorem works_ensureLeave (ht : ¬ C.files t) (hP : C.Firm t P) (fd : Nat)
    (rc : Rc) : C.Works t P (ensureLeave fd rc) fun r w => r = rc ∧ P w := by
  refine Works.bind (works_releaseFlock ht hP fd) fun _ => ?_
  refine works_mutexUnlock hP fun _ => ?_
  exact works_close ht hP fun _ => Works.pure hP fun _ _ hp => ⟨rfl, hp⟩

theorem works_ensureLeaveUnlocked (ht : ¬ C.files t) (hP : C.Firm t P) (fd : Nat)
    (rc : Rc) :
    C.Works t P (ensureLeaveUnlocked fd rc) fun r w => r = rc ∧ P w := by
  refine works_mutexUnlock hP fun _ => ?_
  exact works_close ht hP fun _ => Works.pure hP fun _ _ hp => ⟨rfl, hp⟩

/-! ## The bitmap -/

theorem works_checkBlocks (hP : C.Firm t P) {bitmap : Bytes Byte}
    {bs be : Nat} (hin : be < bs ∨ be / 8 < bitmap.size)
    (hbits : ∀ w, P w → BitsOk C.orig w bitmap) :
    C.Works t P (checkBlocks bitmap bs be) fun hit w =>
      (hit = true → C.Ready bs be w) ∧ P w := by
  obtain ⟨hit, heq⟩ := rangeCacheBlocksSet_isSome hin
  rw [checkBlocks, heq]
  refine Works.pure hP fun w _ hp => ⟨fun hhit => ?_, hp⟩
  subst hhit
  exact fun b hb hbe => hbits w hp b (rangeCacheBlocksSet_true heq b hb hbe)

/-- Reading the bitmap gives bits of local blocks only. -/
theorem works_preadBitmap (ht : ¬ C.files t) (hP : C.Firm t P) {fd : Nat}
    (hfd : ∀ w, P w → C.BitmapFd fd w) (bitmapBytes : Nat) :
    C.Works t P (preadBitmap fd bitmapBytes) fun bitmap w =>
      bitmap.size = bitmapBytes ∧ BitsOk C.orig w bitmap ∧ P w := by
  refine firm_look
    (F := fun r w => ∀ d, r = .ok d → d.size ≤ bitmapBytes ∧
      BitsOk C.orig w d) hP rfl (fun _ => True.intro)
    (fun w x r hi hp hex _ d hd => ?_) fun r => ?_
  · obtain ⟨o, os', rfl, hos, -⟩ := Node.exec_sys hex
    obtain ⟨-, ⟨e, rfl⟩ | ⟨k, hk, rfl⟩⟩ := Os.exec_pread hos
    · exact absurd hd (by simp)
    · obtain rfl := Except.ok.inj hd
      refine ⟨?_, (hfd w hp).2.2.1.slice k⟩
      rw [Bytes.size_slice]
      omega
  · have hF : C.Firm t fun w => ∀ d, r = .ok d → d.size ≤ bitmapBytes ∧
        BitsOk C.orig w d := fun w w' hm hb h d hd =>
      ⟨(h d hd).1, firm_bitsOk ht d w w' hm hb (h d hd).2⟩
    cases r with
    | ok d =>
      refine Works.pure (hF.and hP) fun w _ hp => ⟨?_, ?_, hp.2⟩
      · have := (hp.1 d rfl).1
        rw [Bytes.size_splice, Bytes.size_zeros]
        split <;> omega
      · exact bitsOk_zeros.splice (hp.1 d rfl).2
    | error e =>
      exact Works.pure (hF.and hP) fun w _ hp => ⟨rfl, bitsOk_zeros, hp.2⟩

theorem works_fastPath (ht : ¬ C.files t) (hP : C.Firm t P) {fd : Nat}
    (hfd : ∀ w, P w → C.BitmapFd fd w) (bs be : Nat) :
    C.Works t P (rangeCacheFastPath fd bs be) fun hit w =>
      (hit = true → C.Ready bs be w) ∧ P w := by
  have hmiss : C.Works t P (.pure false) fun hit w =>
      (hit = true → C.Ready bs be w) ∧ P w :=
    Works.pure hP fun _ _ hp => ⟨fun h => absurd h (by simp), hp⟩
  refine Works.bind (works_getFileSize hP fd) fun bitmapBytes => ?_
  split
  · next hbytes =>
    refine works_read hP rfl (fun _ => True.intro) fun ok => ?_
    split
    · refine firm_look (F := fun r w => ∀ d, r = .ok d → BitsOk C.orig w d)
        hP rfl (fun _ => True.intro) (fun w x r hi hp hex _ d hd => ?_)
        fun r => ?_
      · obtain ⟨o, os', rfl, hos, -⟩ := Node.exec_sys hex
        obtain ⟨-, ⟨e, rfl⟩ | ⟨k, hk, rfl⟩⟩ := Os.exec_pread hos
        · exact absurd hd (by simp)
        · obtain rfl := Except.ok.inj hd
          exact (hfd w hp).2.2.1.slice k
      · have hF : C.Firm t fun w => ∀ d, r = .ok d → BitsOk C.orig w d :=
          fun w w' hm hb h d hd => firm_bitsOk ht d w w' hm hb (h d hd)
        cases r with
        | error e => exact hmiss.pre fun _ _ hp => hp.2
        | ok bitmap =>
          dsimp only
          split
          · next hsize =>
            refine Works.post (works_checkBlocks (hF.and hP)
              (Or.inr (by omega)) fun w hp => hp.1 _ rfl)
              fun hit w _ h => ⟨h.1, h.2.2⟩
          · exact hmiss.pre fun _ _ hp => hp.2
    · exact hmiss
  · exact hmiss

/-! ## The first touch -/

/-- A thread that has the bitmap open resizes or fills the local copy. -/
theorem works_setCopy {w : Node} {d fd : Nat} (hi : C.Inv w)
    (hd : C.CopyFd d w) (hfd : C.BitmapFd fd w) {f : Bytes Byte}
    (has : ∀ i, i < C.orig.size → Has C.orig (w.os.file d) i →
      Has C.orig f i)
    (size : C.sized → f.size ≤ C.orig.size) :
    C.Tame t w { w with os := w.os.setFile d f } :=
  Tame.setCopy hi hd.1 hd.2.1 f has size fun hw hn =>
    absurd hn (hfd.2.2.2 (C.calm hw))

theorem works_size (ht : ¬ C.files t) (hP : C.Firm t P) {fd : Nat}
    (hfd : ∀ w, P w → C.BitmapFd fd w) (bitmapBytes : Nat) :
    C.Works t P (rangeCacheSize fd C.orig.size bitmapBytes) fun _ => P := by
  refine Works.bind (works_getFileSize hP fd) fun size => ?_
  split
  · refine works_open hP (F := C.CopyFd) (fun _ => by simp)
      (fun _ h => absurd h (by simp)) (fun w i _ hd => copyFd_of_dir hd)
      (fun e => Works.done hP) fun d => ?_
    · have hP' : C.Firm t fun w => C.CopyFd d w ∧ P w :=
        (firm_copyFd d).and hP
      refine firm_skip hP' (fun _ => True.intro)
        (fun w x w' r hi hp hex _ => ?_) fun r => ?_
      · obtain ⟨o, os', rfl, hos, rfl⟩ := Node.exec_sys hex
        rcases Os.exec_ftruncate hos with ⟨e, -, rfl⟩ | ⟨-, rfl⟩
        · exact Tame.stay hi
        · exact works_setCopy hi hp.1 (hfd w hp.2)
            (fun i hlt hh => hh.truncate hlt) fun _ => Nat.le_refl _
      have hclose : ∀ rc : Rc, C.Works t (fun w => C.CopyFd d w ∧ P w)
          ((closeOpened [d]).bind fun _ => .pure rc) fun _ => P := fun rc =>
        Works.bind (works_closeOpened ht hP' [d]) fun _ =>
          Works.pure hP' fun _ _ hp => hp.2
      cases r with
      | error e => exact hclose _
      | ok _ =>
        refine firm_skip hP' (fun _ => True.intro)
          (fun w x w' r hi hp hex _ => ?_) fun r => ?_
        · obtain ⟨o, os', rfl, hos, rfl⟩ := Node.exec_sys hex
          obtain ⟨hlt, hborn, hbits, -⟩ := hfd w hp.2
          rcases Os.exec_ftruncate hos with ⟨e, -, rfl⟩ | ⟨-, rfl⟩
          · exact Tame.stay hi
          · exact Tame.setBitmap hi hlt hborn _ (hbits.truncate _)
        · cases r <;> exact hclose _
  · exact Works.done hP

/-! ## The fetch -/

/-- The blocks that a write of the origin's bytes covers are local. -/
theorem ready_of_write {w : Node} {d off bs be : Nat} {data : Bytes Byte}
    (hd : w.os.dir .data = some d) (ha : Agrees C.orig off data)
    (hspan : ∀ i, bs ≤ i / rangeCacheBlockSize →
      i / rangeCacheBlockSize ≤ be → i < C.orig.size →
        off ≤ i ∧ i < off + data.size) :
    C.Ready bs be
      { w with os := w.os.setFile d ((w.os.file d).splice off data) } := by
  intro b hbs hbe
  refine ⟨d, hd, fun i hib hlt => ?_⟩
  subst hib
  obtain ⟨hoff, hend⟩ := hspan i hbs hbe hlt
  rw [show ({ w with os := w.os.setFile d ((w.os.file d).splice off data) } :
    Node).os.file d = (w.os.file d).splice off data from file_self]
  exact has_splice ha hoff hend

/-- The local copy stays in the directory for a range thread. -/
theorem firm_dir (ht : ¬ C.files t) (d : Nat) :
    C.Firm t fun w => w.os.dir .data = some d :=
  fun _ _ hm hb h => (hm.kept (active_of_range ht hb)).data d h

theorem works_fetchSpanAt (ht : ¬ C.files t) (hP : C.Firm t P) {fd : Nat}
    (hfd : ∀ w, P w → C.BitmapFd fd w) {off len bs be : Nat}
    (hspan : ∀ i, bs ≤ i / rangeCacheBlockSize →
      i / rangeCacheBlockSize ≤ be → i < C.orig.size →
        off ≤ i ∧ i < off + len) :
    C.Works t P (fetchSpanAt off len) fun rc w =>
      (rc = .ok → C.Ready bs be w) ∧ P w := by
  have hfail : C.Works t P (.pure Rc.badfio) fun rc w =>
      (rc = .ok → C.Ready bs be w) ∧ P w :=
    Works.pure hP fun _ _ hp => ⟨fun h => absurd h (by simp), hp⟩
  have hleave : ∀ fds, C.Works t P
      ((closeOpened fds).bind fun _ => .pure Rc.badfio) fun rc w =>
        (rc = .ok → C.Ready bs be w) ∧ P w := fun fds =>
    Works.bind (works_closeOpened ht hP fds) fun _ => hfail
  refine works_open hP (F := OriginFd) (fun h => absurd h (by simp))
    (fun h => absurd h (by simp)) (fun w i _ hd => originFd_of_dir hd)
    (fun e => hfail) fun originFd => ?_
  · refine firm_read (φ := fun r => ∀ d, r = .ok d → Agrees C.orig off d)
      ((firm_originFd originFd).and hP) rfl (fun _ => True.intro)
      (fun w x r hi hp hex _ d hd => ?_) fun r hr => ?_
    · obtain ⟨o, os', rfl, hos, -⟩ := Node.exec_sys hex
      obtain ⟨-, ⟨e, rfl⟩ | ⟨k, -, rfl⟩⟩ := Os.exec_pread hos
      · exact absurd hd (by simp)
      · obtain rfl := Except.ok.inj hd
        rw [hi.origin _ hp.1.1 hp.1.2]
        exact agrees_slice off k
    refine Works.pre (A := P) ?_ fun w _ hp => hp.2
    cases r with
    | error e => exact hleave _
    | ok spanBuf =>
      have ha := hr spanBuf rfl
      dsimp only
      split
      · exact hleave _
      · next hsize =>
        have hlen : spanBuf.size = len := by simpa using hsize
        refine works_open hP (F := fun d w => w.os.dir .data = some d)
          (fun h => absurd h (by simp)) (fun h => absurd h (by simp))
          (fun w i _ hd => hd) (fun e => hleave _) fun localFd => ?_
        · have hP' : C.Firm t fun w => w.os.dir .data = some localFd ∧ P w :=
            (firm_dir ht localFd).and hP
          refine firm_step (F := fun r w => r = .ok len → C.Ready bs be w)
            hP' (fun _ => True.intro) (fun w x w' r hi hp hex _ => ?_)
            fun r => ?_
          · obtain ⟨o, os', rfl, hos, rfl⟩ := Node.exec_sys hex
            have hput : ∀ d, Agrees C.orig off d →
                C.Tame t w { w with
                  os := w.os.setFile localFd
                    ((w.os.file localFd).splice off d) } := fun d had =>
              works_setCopy hi (copyFd_of_dir hp.1) (hfd w hp.2)
                (fun i _ hh => hh.splice had) fun hs => size_splice_le had
                  (hi.size hs _ (w.os.linked _ _ hp.1).1
                    (w.os.linked _ _ hp.1).2)
            rcases Os.exec_pwrite hos with ⟨e, -, rfl, rfl⟩ | ⟨-, rfl, rfl⟩ |
                ⟨k, -, hk, rfl, rfl⟩
            · exact ⟨Tame.stay hi, fun h => absurd h (by simp)⟩
            · exact ⟨hput _ ha, fun _ => ready_of_write hp.1 ha (by
                rw [hlen]
                exact hspan)⟩
            · refine ⟨hput _ (ha.take k), fun h => ?_⟩
              have := Except.ok.inj h
              omega
          · have hF : C.Firm t fun w => (r = .ok len → C.Ready bs be w) ∧
                w.os.dir .data = some localFd ∧ P w :=
              (Firm.imp fun _ => firm_ready ht bs be).and hP'
            cases r with
            | error e =>
              exact (hleave _).pre fun _ _ hp => hp.2.2
            | ok written =>
              refine Works.bind (works_closeOpened ht hF _) fun _ => ?_
              refine Works.pure hF fun w _ hp => ⟨fun h => ?_, hp.2.2⟩
              refine hp.1 ?_
              split at h
              · next hw => rw [hw]
              · exact absurd h (by simp)

/-- The bytes the fetch asks for are the blocks', as far as the origin
reaches. -/
theorem works_fetchSpan (ht : ¬ C.files t) (hP : C.Firm t P) {fd : Nat}
    (hfd : ∀ w, P w → C.BitmapFd fd w) {bs be : Nat} (hbs : bs < 2 ^ 48)
    (hbe : be < 2 ^ 48) :
    C.Works t P (rangeCacheFetchSpan bs be C.orig.size) fun rc w =>
      (rc = .ok → (bs ≤ be ∧ bs < rangeCacheNumBlocks C.orig.size) ∧
        C.Ready bs be w) ∧ P w := by
  have hoff : bs * rangeCacheBlockSize % 2 ^ 64 = bs * 65536 := by
    rw [rangeCacheBlockSize_eq]
    omega
  -- the product wraps to zero at the last block of all
  have hend : (be + 1) * rangeCacheBlockSize % 2 ^ 64 = (be + 1) * 65536 ∨
      (be + 1) * rangeCacheBlockSize % 2 ^ 64 = 0 := by
    rw [rangeCacheBlockSize_eq]
    omega
  have hsize := C.offT
  unfold rangeCacheFetchSpan
  rw [hoff]
  dsimp only
  split
  · exact Works.pure hP fun _ _ hp => ⟨fun h => absurd h (by simp), hp⟩
  · next hlt =>
    refine works_read hP rfl (fun _ => True.intro) fun ok => ?_
    split
    · refine Works.post (@works_fetchSpanAt C t P ht hP _ hfd _ _ bs be
        fun i hi hi' hsz => ?_) fun rc w _ h => ⟨fun hrc => ⟨?_, h.1 hrc⟩, h.2⟩
      · rw [rangeCacheBlockSize_eq] at hi hi'
        omega
      · rw [numBlocks_eq C.offT]
        omega
    · exact Works.pure hP fun _ _ hp => ⟨fun h => absurd h (by simp), hp⟩

/-! ## The recording -/

theorem works_record (ht : ¬ C.files t) (hP : C.Firm t P) {fd : Nat}
    (hfd : ∀ w, P w → C.BitmapFd fd w) {bs be bitmapBytes : Nat}
    (hready : ∀ w, P w → C.Ready bs be w) (hin : be / 8 < bitmapBytes) :
    C.Works t P (rangeCacheRecord fd bs be bitmapBytes) fun _ => P := by
  have hleave : ∀ rc, C.Works t P (ensureLeave fd rc) fun _ => P := fun rc =>
    (works_ensureLeave ht hP fd rc).post fun _ _ _ h => h.2
  refine works_mutexLock hP fun _ => ?_
  refine Works.bind (works_exclFlock ht hP hfd) fun rc => ?_
  split
  · exact (works_ensureLeaveUnlocked ht hP fd rc).post fun _ _ _ h => h.2
  refine works_read hP rfl (fun _ => True.intro) fun ok => ?_
  split
  · refine Works.bind (works_preadBitmap ht hP hfd bitmapBytes)
      fun bitmap => ?_
    refine Works.assume fun hsize => ?_
    obtain ⟨bitmap', heq, hsize', hbit⟩ :=
      @rangeCacheSetBlocks_some bitmap bs be
        (Or.inr (by omega))
    rw [heq]
    dsimp only
    refine firm_skip ((firm_bitsOk ht bitmap).and hP) (fun _ => True.intro)
      (fun w x w' r hi hp hex _ => ?_) fun r => ?_
    · obtain ⟨hlt, hborn, hbits, -⟩ := hfd w hp.2
      -- what is merged in was fetched before
      have hnew : BitsOk C.orig w bitmap' := fun b hb => by
        rcases (hbit b).1 hb with hb | hb
        · exact hp.1 b hb
        · exact hready w hp.2 b hb.1 hb.2
      obtain ⟨o, os', rfl, hos, rfl⟩ := Node.exec_sys hex
      rcases Os.exec_pwrite hos with ⟨e, -, -, rfl⟩ | ⟨-, -, rfl⟩ |
          ⟨k, -, -, -, rfl⟩
      · exact Tame.stay hi
      · exact Tame.setBitmap hi hlt hborn _ (hbits.splice hnew)
      · exact Tame.setBitmap hi hlt hborn _ (hbits.splice (hnew.slice k))
    · cases r <;> exact (hleave _).pre fun _ _ hp => hp.2
  · exact hleave _

theorem works_fill (ht : ¬ C.files t) (hP : C.Firm t P) {fd : Nat}
    (hfd : ∀ w, P w → C.BitmapFd fd w) {bs be : Nat} (hbs : bs < 2 ^ 48)
    (hbe : be < 2 ^ 48)
    (hin : bs ≤ be → bs < rangeCacheNumBlocks C.orig.size →
      be / 8 < rangeCacheBitmapBytes (rangeCacheNumBlocks C.orig.size)) :
    C.Works t P (rangeCacheFill fd bs be C.orig.size
      (rangeCacheBitmapBytes (rangeCacheNumBlocks C.orig.size))) fun rc w =>
        rc = .ok → C.Ready bs be w := by
  refine Works.bind (works_fetchSpan ht hP hfd hbs hbe) fun rc => ?_
  have hF : C.Firm t fun w => (rc = .ok → (bs ≤ be ∧
      bs < rangeCacheNumBlocks C.orig.size) ∧ C.Ready bs be w) ∧ P w :=
    (Firm.imp fun _ => (Firm.const _).and (firm_ready ht bs be)).and hP
  split
  · next herr =>
    have hne : rc ≠ .ok := (Rc.isError_iff rc).1 herr
    exact works_close ht hF fun _ =>
      Works.pure hF fun _ _ _ h => absurd h hne
  · next herr =>
    have hok : rc = .ok := by
      simpa [Rc.isError_iff] using herr
    refine Works.pre (A := fun w => (bs ≤ be ∧
        bs < rangeCacheNumBlocks C.orig.size) ∧ C.Ready bs be w ∧ P w)
      (Works.assume fun hspan => ?_)
      fun w _ hp => ⟨(hp.1 hok).1, (hp.1 hok).2, hp.2⟩
    exact (works_record ht ((firm_ready ht bs be).and hP)
      (fun w hp => hfd w hp.2) (fun _ hp => hp.1)
      (hin hspan.1 hspan.2)).post fun _ _ _ h _ => h.1

/-! ## The whole function -/

theorem works_miss (ht : ¬ C.files t) (hP : C.Firm t P) {fd : Nat}
    (hfd : ∀ w, P w → C.BitmapFd fd w) {bs be : Nat} (hbs : bs < 2 ^ 48)
    (hbe : be < 2 ^ 48)
    (hin : C.orig.size ≠ 0 → be < bs ∨
      be / 8 < rangeCacheBitmapBytes (rangeCacheNumBlocks C.orig.size)) :
    C.Works t P (rangeCacheMiss fd bs be) fun rc w =>
      rc = .ok → C.Ready bs be w := by
  have hleave : ∀ rc, rc ≠ .ok → C.Works t P (ensureLeave fd rc)
      fun rc w => rc = .ok → C.Ready bs be w := fun rc hrc =>
    (works_ensureLeave ht hP fd rc).post fun _ _ _ h h' =>
      absurd (h.1.symm.trans h') hrc
  refine firm_read (φ := fun r => ∀ size, r = .ok size →
      size = C.orig.size) hP rfl (fun _ => True.intro)
    (fun w x r hi hp hex _ size hsize => ?_) fun r hr => ?_
  · obtain ⟨o, os', rfl, hos, -⟩ := Node.exec_sys hex
    obtain ⟨-, ⟨e, rfl⟩ | ⟨i, hdir, rfl⟩⟩ := Os.exec_stat hos
    · exact absurd hsize (by simp)
    · obtain ⟨hlt, hborn⟩ := w.os.linked _ _ hdir
      rw [← Except.ok.inj hsize, hi.origin i hlt hborn]
  cases r with
  | error e => exact hleave _ (by simp)
  | ok size =>
    obtain rfl := hr size rfl
    dsimp only
    split
    · exact hleave _ (by simp)
    · next h0 =>
      refine Works.bind (works_size ht hP hfd _) fun rc => ?_
      split
      · next herr => exact hleave _ ((Rc.isError_iff rc).1 herr)
      refine works_read hP rfl (fun _ => True.intro) fun ok => ?_
      split
      · refine Works.bind (works_preadBitmap ht hP hfd _) fun bitmap => ?_
        refine Works.assume fun hsize => ?_
        have hF := (firm_bitsOk (C := C) ht bitmap).and hP
        refine Works.bind (works_checkBlocks hF (by
          rw [hsize]
          exact hin h0) fun w hp => hp.1) fun hit => ?_
        have hF' : C.Firm t fun w => (hit = true → C.Ready bs be w) ∧
            BitsOk C.orig w bitmap ∧ P w :=
          (Firm.imp fun _ => firm_ready ht bs be).and hF
        refine Works.bind (works_releaseFlock ht hF' fd) fun _ => ?_
        refine works_mutexUnlock hF' fun _ => ?_
        split
        · next hhit =>
          exact works_close ht hF' fun _ =>
            Works.pure hF' fun _ _ hp _ => hp.1 hhit
        · refine (works_fill ht hP hfd hbs hbe fun hle _ => ?_).pre
            fun _ _ hp => hp.2.2
          rcases hin h0 with hlt | hlt
          · omega
          · exact hlt
      · exact hleave _ (by simp)

theorem works_opened (ht : ¬ C.files t) {fd bs be : Nat} (hbs : bs < 2 ^ 48)
    (hbe : be < 2 ^ 48)
    (hin : C.orig.size ≠ 0 → be < bs ∨
      be / 8 < rangeCacheBitmapBytes (rangeCacheNumBlocks C.orig.size)) :
    C.Works t (C.BitmapFd fd) (rangeCacheOpened fd bs be) fun rc w =>
      rc = .ok → C.Ready bs be w := by
  have hP := firm_bitmapFd (C := C) ht fd
  have hunlocked : ∀ rc, rc ≠ .ok → C.Works t (C.BitmapFd fd)
      (ensureLeaveUnlocked fd rc) fun rc w => rc = .ok → C.Ready bs be w :=
    fun rc hrc => (works_ensureLeaveUnlocked ht hP fd rc).post
      fun _ _ _ h h' => absurd (h.1.symm.trans h') hrc
  refine works_mutexLock hP fun _ => ?_
  refine Works.bind (works_sharedFlock ht hP fd) fun rc => ?_
  split
  · next herr => exact hunlocked rc ((Rc.isError_iff rc).1 herr)
  refine Works.bind (works_fastPath ht hP (fun _ h => h) bs be) fun hit => ?_
  have hF : C.Firm t fun w => (hit = true → C.Ready bs be w) ∧
      C.BitmapFd fd w := (Firm.imp fun _ => firm_ready ht bs be).and hP
  split
  · next hhit =>
    exact (works_ensureLeave ht hF fd .ok).post fun _ _ _ h _ => h.2.1 hhit
  · refine Works.bind (works_releaseFlock ht hF fd) fun _ => ?_
    refine Works.bind (works_exclFlock ht hF fun _ h => h.2) fun rc => ?_
    split
    · next herr =>
      exact (hunlocked rc ((Rc.isError_iff rc).1 herr)).pre fun _ _ h => h.2
    · exact (works_miss ht hP (fun _ h => h) hbs hbe hin).pre
        fun _ _ h => h.2

/-- After `dyad_range_cache_ensure` the blocks of the span are local. -/
theorem works_ensure (ht : ¬ C.files t) (hl : C.lazy) {offset length : UInt64}
    (hs : SpanInBounds C.ctx offset length C.originSize) :
    C.Works t (fun _ => True) (dyadRangeCacheEnsure C.ctx offset length)
      fun rc w => rc = .ok → length ≠ 0 →
        C.Ready (blockStart offset) (blockEnd offset length) w := by
  have horigin : C.ctx.originPath = true := C.hasOrigin hl
  unfold dyadRangeCacheEnsure
  split
  · next h =>
    refine Works.pure Firm.true fun _ _ _ _ hlen => ?_
    rcases h with h | h
    · rw [horigin] at h
      exact absurd h (by simp)
    · exact absurd h hlen
  · next hlen =>
    split
    · exact Works.pure Firm.true fun _ _ _ h => absurd h (by simp)
    · next hpath =>
      refine works_open Firm.true (F := C.BitmapFd) (fun _ => by simp)
        (fun _ _ => hl) (fun w i hi hd => bitmapFd_of_dir hi hd)
        (fun e => Works.pure Firm.true fun _ _ _ h => absurd h (by simp))
        fun fd => ?_
      refine Works.pre (Works.post (@works_opened C t ht fd _ _
        (blockStart_lt offset) (blockEnd_lt offset length) fun h0 => ?_)
        fun _ _ _ h hok _ => h hok) fun _ _ h => h.1
      rcases hs with h | h | h | h | h | h | ⟨-, h⟩
      · exact absurd (horigin.symm.trans h) (by simp)
      · exact absurd (Or.inr h) hlen
      · exact absurd h hpath
      · exact absurd (congrArg Fin.val h) h0
      · exact Or.inl h
      · exact Or.inr (byte_lt_of_block_lt C.offT h)
      · exact Or.inr h

/-! ## The client -/

theorem works_fetchMetadata (hP : C.Firm t P) :
    C.Works t P (dyadFetchMetadata C.ctx) fun r w =>
      (∀ rc, r = .error rc → rc ≠ .ok) ∧ P w := by
  refine firm_read (φ := fun r => ∀ rc, r = .error rc → rc ≠ .ok) hP rfl
    (fun _ => True.intro) (fun w x r _ _ hex _ => ?_) fun r hr => ?_
  · obtain ⟨-, hans⟩ := Node.exec_quiet rfl hex
    rcases Node.answer_kvsRead hans with ⟨rank, -, rfl⟩ | ⟨rc, hrc, rfl⟩
    · exact fun _ h => absurd h (by simp)
    · intro rc' h
      obtain rfl := Except.error.inj h
      exact (Rc.isError_iff rc).1 hrc
  · cases r with
    | error rc =>
      exact Works.pure hP fun _ _ hp =>
        ⟨fun rc' h => hr rc' (by rw [Except.error.inj h]), hp⟩
    | ok rank =>
      dsimp only
      split <;> exact Works.pure hP fun _ _ hp =>
        ⟨fun _ h => absurd h (by simp), hp⟩

/-- What a full read of a span returns once its blocks are local. -/
theorem slice_of_ready {w : Node} {fd k : Nat} {offset length : UInt64}
    (hi : C.Inv w) (hs : C.sized) (hd : w.os.dir .data = some fd)
    (hready : length ≠ 0 →
      C.Ready (blockStart offset) (blockEnd offset length) w)
    (hk : k ≤ length.toNat)
    (hsize : ((w.os.file fd).slice offset.toNat k).size = length.toNat) :
    (w.os.file fd).slice offset.toNat k =
      C.orig.slice offset.toNat length.toNat := by
  obtain ⟨hlt, hborn⟩ := w.os.linked _ _ hd
  have hle := hi.size hs fd hlt hborn
  have hsz := C.offT
  rw [Bytes.size_slice] at hsize
  refine Bytes.ext ?_ fun i hi' => ?_
  · rw [Bytes.size_slice, Bytes.size_slice]
    omega
  · rw [Bytes.size_slice] at hi'
    have hne : length ≠ 0 := by
      rintro rfl
      simp at hsize hi'
      omega
    have hend := @toNat_last offset _ _ C.offT hne
      (by show _ ≤ C.orig.size; omega)
    obtain ⟨d, hd', hok⟩ := hready hne
      ((offset.toNat + i) / rangeCacheBlockSize)
      (Nat.div_le_div_right (Nat.le_add_right ..)) (by
        rw [blockEnd, hend]
        exact Nat.div_le_div_right (by omega))
    obtain rfl := Option.some.inj (hd.symm.trans hd')
    rw [Bytes.get_slice_of_lt _ (by omega), Bytes.get_slice_of_lt _ (by omega)]
    exact (hok _ rfl (by omega)).2

variable (C) in
/-- The data of a byte range, when it was read, is the origin's. -/
def RangeData (offset length : UInt64) (a : Rc × Option (Bytes Byte)) : Prop :=
  C.sized → a.1 = .ok →
    a.2 = some (C.orig.slice offset.toNat length.toNat)

theorem works_consumeRangeRead (ht : ¬ C.files t) (offset length : UInt64) :
    C.Works t (fun w => length ≠ 0 →
        C.Ready (blockStart offset) (blockEnd offset length) w)
      (consumeRangeRead offset.toNat length.toNat)
      fun a _ => C.RangeData offset length a := by
  have hready : C.Firm t fun w => length ≠ 0 →
      C.Ready (blockStart offset) (blockEnd offset length) w :=
    Firm.imp fun _ => firm_ready ht _ _
  have hnone : ∀ {P : Node → Prop} {rc : Rc}, rc ≠ .ok → C.Firm t P →
      C.Works t P (.pure (rc, none)) fun a _ => C.RangeData offset length a :=
    fun h hP => Works.pure hP fun _ _ _ _ hrc => absurd hrc h
  refine works_open hready (F := fun d w => w.os.dir .data = some d)
    (fun h => absurd h (by simp)) (fun h => absurd h (by simp))
    (fun w i _ hd => hd) (fun e => hnone (by simp) hready) fun fd => ?_
  have hP := (firm_dir (C := C) ht fd).and hready
  refine Works.bind (works_sharedFlock ht hP fd) fun rc => ?_
  split
  · next herr =>
    exact works_close ht hP fun _ => hnone ((Rc.isError_iff rc).1 herr) hP
  refine works_read hP rfl (fun _ => True.intro) fun ok => ?_
  split
  · refine firm_read (φ := fun r => ∀ d, r = .ok d → d.size = length.toNat →
        C.sized → d = C.orig.slice offset.toNat length.toNat) hP rfl
      (fun _ => True.intro) (fun w x r hi hp hex _ d hd hsize hs => ?_)
      fun r hr => ?_
    · obtain ⟨o, os', rfl, hos, -⟩ := Node.exec_sys hex
      obtain ⟨-, ⟨e, rfl⟩ | ⟨k, hk, rfl⟩⟩ := Os.exec_pread hos
      · exact absurd hd (by simp)
      · obtain rfl := Except.ok.inj hd
        exact slice_of_ready hi hs hp.1 hp.2 hk hsize
    refine Works.bind (works_releaseFlock ht hP fd) fun _ => ?_
    refine works_close ht hP fun _ => ?_
    cases r with
    | error e => exact hnone (by simp) hP
    | ok data =>
      dsimp only
      split
      · exact hnone (by simp) hP
      · next hsize =>
        exact Works.pure hP fun _ _ _ hs _ =>
          congrArg some (hr data rfl (by simpa using hsize) hs)
  · refine Works.bind (works_releaseFlock ht hP fd) fun _ => ?_
    exact works_close ht hP fun _ => hnone (by simp) hP

theorem works_consumeRangeLocal (ht : ¬ C.files t) (hl : C.lazy)
    {offset length : UInt64}
    (hs : SpanInBounds C.ctx offset length C.originSize) :
    C.Works t (fun _ => True) (consumeRangeLocal C.ctx offset length)
      fun a _ => C.RangeData offset length a := by
  unfold consumeRangeLocal
  rw [if_pos (C.hasOrigin hl)]
  refine Works.bind (works_ensure ht hl hs) fun rc => ?_
  have hready : C.Firm t fun w => rc = .ok → length ≠ 0 →
      C.Ready (blockStart offset) (blockEnd offset length) w :=
    Firm.imp fun _ => Firm.imp fun _ => firm_ready ht _ _
  split
  · next herr =>
    exact Works.pure hready fun _ _ _ _ hrc =>
      absurd hrc ((Rc.isError_iff rc).1 herr)
  · next herr =>
    have hok : rc = .ok := by
      simpa [Rc.isError_iff] using herr
    exact (works_consumeRangeRead ht offset length).pre fun _ _ h => h hok

theorem works_consumeRange (ht : ¬ C.files t) (hl : C.lazy)
    {offset length : UInt64}
    (hs : SpanInBounds C.ctx offset length C.originSize) :
    C.Works t (fun _ => True) (dyadConsumeRange C.ctx offset length)
      fun a _ => C.RangeData offset length a := by
  have hnone : ∀ {rc : Rc}, rc ≠ .ok → C.Works t (fun _ => True)
      (.pure (rc, none)) fun a _ => C.RangeData offset length a :=
    fun h => Works.pure Firm.true fun _ _ _ _ hrc => absurd hrc h
  unfold dyadConsumeRange
  split
  · exact hnone (by simp)
  split
  · exact hnone (by simp)
  split
  · exact hnone (by simp)
  split
  · exact hnone (by simp)
  refine Works.bind (works_fetchMetadata Firm.true) fun r => ?_
  refine Works.assume fun herr => ?_
  rcases r with rc | _ | rank
  · exact hnone (herr rc rfl)
  · exact works_consumeRangeLocal ht hl hs
  · refine firm_read (φ := fun r => (∀ rc, r = .error rc → rc ≠ .ok) ∧
        ∀ d, r = .ok d → d = C.orig.slice offset.toNat length.toNat)
      Firm.true rfl (fun _ => True.intro) (fun w x r hi _ hex _ => ?_)
      fun r hr => ?_
    · obtain ⟨-, hans⟩ := Node.exec_quiet rfl hex
      rcases Node.answer_getDataRange hans with rfl | ⟨rc, hrc, rfl⟩
      · refine ⟨fun _ h => absurd h (by simp), fun d h => ?_⟩
        rw [← Except.ok.inj h, hi.published]
      · refine ⟨fun rc' h => ?_, fun _ h => absurd h (by simp)⟩
        obtain rfl := Except.error.inj h
        exact (Rc.isError_iff rc).1 hrc
    · cases r with
      | error rc => exact hnone (hr.1 rc rfl)
      | ok data =>
        exact Works.pure Firm.true fun _ _ _ _ _ =>
          congrArg some (hr.2 data rfl)

end Setting

end Dyad
