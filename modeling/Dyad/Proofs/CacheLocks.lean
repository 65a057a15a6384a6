import Dyad.Proofs.CacheService

/-!
# What a whole-file thread knows through its locks

What the whole-file thread of a process knows of a local copy that has no
bitmap it knows through the copy's lock: nobody writes to the copy while the process has the
exclusive lock, and nobody takes a lock of the process away while the thread
is at work. `Quit` is what such a thread owes whenever it may let go of a
lock: the copy is settled.

The assertions here are not firm, since the thread's own calls on locks change
them. They are steady: the other threads leave them alone.
-/

namespace Dyad

open Conc Posix

namespace Setting

variable {C : Setting} {t : Tid} {P : Node → Prop} {α : Type}
  {R : α → Node → Prop}

/-! ## What a whole-file thread knows -/

variable (C) in
/-- The process has the exclusive lock of the copy, as long as it matters. -/
def Locked (t : Tid) (d : Nat) (w : Node) : Prop :=
  C.whole → w.os.dir .bitmap = none → (w.os.locks d).Holds t.1 .excl

variable (C) in
/-- The process has a shared lock of the copy, as long as it matters. -/
def Shared (t : Tid) (d : Nat) (w : Node) : Prop :=
  C.whole → w.os.dir .bitmap = none → (w.os.locks d).Holds t.1 .shared

variable (C) in
/-- The others cannot make `P` false while `t` is at work. -/
def Steady (t : Tid) (P : Node → Prop) : Prop := C.spec.Stable t (At t P)

theorem Firm.steady (hP : C.Firm t P) : C.Steady t P := hP.stable

theorem Steady.and {Q : Node → Prop} (hP : C.Steady t P)
    (hQ : C.Steady t Q) : C.Steady t fun w => P w ∧ Q w :=
  fun w w' hi hi' hr h =>
    have hp := hP w w' hi hi' hr ⟨h.1, h.2.1⟩
    ⟨hp.1, hp.2, (hQ w w' hi hi' hr ⟨h.1, h.2.2⟩).2⟩

theorem Rely.quit {w w' : Node} (hr : C.Rely t w w') (h : C.Quit t w) :
    C.Quit t w' := by
  intro hw ht hn d hd hh
  have hown := hr.own hw ht hn
  obtain ⟨hlt, hborn⟩ := w'.os.linked _ _ hd
  obtain ⟨hlt₀, hh₀⟩ := hown.lost d hlt hborn hh
  rw [hown.file d hlt₀ ((hr.frame.born d hlt₀).symm.trans hborn) hh]
  exact h hw ht (hr.frame.noBitmap (C.calm hw) hn) d
    (hr.frame.linked d hd hlt₀) hh₀

theorem steady_quit : C.Steady t (C.Quit t) :=
  fun _ _ _ _ hr h => ⟨hr.busy.trans h.1, hr.quit h.2⟩

theorem steady_locked (ht : C.files t) (d : Nat) :
    C.Steady t fun w => C.CopyFd d w ∧ C.Locked t d w := by
  intro w w' _ _ hr h
  refine ⟨hr.busy.trans h.1, firm_copyFd d w w' hr.mild h.1 h.2.1,
    fun hw hn => ?_⟩
  exact (hr.own hw ht hn).kept h.1 d _ h.2.1.1 h.2.1.2.1
    (h.2.2 hw (hr.frame.noBitmap (C.calm hw) hn))

theorem steady_shared (ht : C.files t) (d : Nat) :
    C.Steady t fun w => C.CopyFd d w ∧ C.Shared t d w := by
  intro w w' _ _ hr h
  refine ⟨hr.busy.trans h.1, firm_copyFd d w w' hr.mild h.1 h.2.1,
    fun hw hn => ?_⟩
  exact (hr.own hw ht hn).kept h.1 d _ h.2.1.1 h.2.1.2.1
    (h.2.2 hw (hr.frame.noBitmap (C.calm hw) hn))

/-- There is only one local copy when whole-file results are claimed. -/
theorem CopyFd.dir {w : Node} {d : Nat} (h : C.CopyFd d w) (hw : C.whole) :
    w.os.dir .data = some d := h.2.2 (C.calm hw)

theorem CopyFd.unique {w : Node} {d e : Nat} (h : C.CopyFd d w)
    (hw : C.whole) (he : w.os.dir .data = some e) : e = d :=
  Option.some.inj (he.symm.trans (h.dir hw))

/-- A full copy is the origin. -/
theorem FullFd.eq {w : Node} {d : Nat} (h : C.FullFd d w) (hi : C.Inv w)
    (hs : C.sized) : w.os.file d = C.orig :=
  h.2.2.eq (hi.size hs d h.1 h.2.1)

theorem complete_of_full {w : Node} {d : Nat} (hi : C.Inv w) (hw : C.whole)
    (hd : C.CopyFd d w) (hf : C.FullFd d w) : Complete C.orig w :=
  ⟨d, hd.dir hw, hf.eq hi (C.wholeSized hw)⟩

theorem quit_of_full {w : Node} {d : Nat} (hi : C.Inv w)
    (hd : C.CopyFd d w) (hf : C.whole → C.FullFd d w) : C.Quit t w := by
  intro hw _ _ e he _
  obtain rfl := hd.unique hw he
  exact Or.inr ((hf hw).eq hi (C.wholeSized hw))

theorem quit_of_evict {w : Node} (he : C.evict) : C.Quit t w :=
  fun hw => absurd he (C.calm hw)

/-! ## Rules -/

theorem Works.pureSteady {a : α} (hP : C.Steady t P)
    (h : ∀ w, C.Inv w → P w → R a w) : C.Works t P (.pure a) R :=
  Spec.Triple.pure hP fun w hi hp => ⟨hp.1, h w hi hp.2⟩

/-- A tame call of a whole-file thread. -/
theorem works_step {c : Call} {f : c.Res → Program α}
    {A : c.Res → Node → Prop} (hP : C.Steady t P)
    (hreq : ∀ w, C.Req w t c)
    (hc : ∀ w x w' r, C.Inv w → w.busy t = true → P w →
      w.exec t c x = some (w', r) → C.Acts w t c x →
        C.Tame t w w' ∧ A r w')
    (hk : ∀ r, C.Works t (A r) (f r) R) :
    C.Works t P ((perform c).bind f) R := by
  refine triple_step hP hreq (fun w x w' r hi hp hex hok => ?_) hk
  obtain ⟨htame, hp'⟩ := hc w x w' r hi hp.1 hp.2 hex hok
  exact ⟨htame.moves, (congrFun htame.busy t).trans hp.1, hp'⟩

/-- A call that changes nothing, and what its answer says of the files. -/
theorem works_look {c : Call} {f : c.Res → Program α}
    {F : c.Res → Node → Prop} (hP : C.Steady t P) (hc : c.reads = true)
    (hreq : ∀ w, C.Req w t c)
    (hF : ∀ w x r, C.Inv w → P w → w.exec t c x = some (w, r) →
      C.Acts w t c x → F r w)
    (hk : ∀ r, C.Works t (fun w => F r w ∧ P w) (f r) R) :
    C.Works t P ((perform c).bind f) R := by
  refine works_step hP hreq (fun w x w' r hi _ hp hex hok => ?_) hk
  obtain rfl := Node.exec_reads hc hex
  exact ⟨Tame.stay hi, hF _ x r hi hp hex hok, hp⟩

theorem works_see {c : Call} {f : c.Res → Program α} {φ : c.Res → Prop}
    (hP : C.Steady t P) (hc : c.reads = true) (hreq : ∀ w, C.Req w t c)
    (hφ : ∀ w x r, C.Inv w → P w → w.exec t c x = some (w, r) →
      C.Acts w t c x → φ r)
    (hk : ∀ r, φ r → C.Works t P (f r) R) :
    C.Works t P ((perform c).bind f) R :=
  works_look (F := fun r _ => φ r) hP hc hreq hφ fun r =>
    Works.assume (hk r)

theorem works_pass {c : Call} {f : c.Res → Program α} (hP : C.Steady t P)
    (hc : c.reads = true) (hreq : ∀ w, C.Req w t c)
    (hk : ∀ r, C.Works t P (f r) R) : C.Works t P ((perform c).bind f) R :=
  works_see (φ := fun _ => True) hP hc hreq
    (fun _ _ _ _ _ _ _ => True.intro) fun r _ => hk r

/-! ## Giving locks up -/

/-- A whole-file thread gives up the locks of its process on a file, which is
settled if it is a copy that matters. -/
theorem tame_quit {w : Node} (ht : C.files t) (hi : C.Inv w) (hq : C.Quit t w)
    (i : Nat) :
    C.Tame t w { w with os := w.os.setLocks i ((w.os.locks i).release t.1) } ∧
      C.Quit t
        { w with os := w.os.setLocks i ((w.os.locks i).release t.1) } := by
  refine ⟨Tame.setLocks hi i _ (fun q m hne => by simp [hne])
    (fun _ _ _ h => absurd ht h)
    (fun hw hn hd _ hh => Or.inr (hq hw ht hn i hd hh)),
    fun hw _ hn d hd hh => ?_⟩
  by_cases hdi : d = i
  · subst hdi
    rw [locks_self] at hh
    exact absurd hh (by simp)
  · rw [locks_of_ne hdi] at hh
    exact hq hw ht hn d hd hh

section

variable (ht : C.files t) (hP : C.Firm t P)

include ht hP

theorem quits_unlock (fd : Nat) {f : Except Errno Unit → Program α}
    (hk : ∀ r, C.Works t (fun w => C.Quit t w ∧ P w) (f r) R) :
    C.Works t (fun w => C.Quit t w ∧ P w) ((sys (.unlock fd)).bind f) R := by
  refine works_step (steady_quit.and hP.steady) (fun _ => True.intro)
    (fun w x w' r hi hb hp hex _ => ?_) hk
  obtain ⟨o, os', rfl, hos, rfl⟩ := Node.exec_sys hex
  rcases Os.exec_unlock hos with ⟨e, -, rfl⟩ | ⟨-, rfl⟩
  · exact ⟨Tame.stay hi, hp⟩
  · obtain ⟨htame, hq⟩ := tame_quit ht hi hp.1 fd
    exact ⟨htame, hq, hP w _ htame.mild hb hp.2⟩

theorem quits_close (fd : Nat) {f : Except Errno Unit → Program α}
    (hk : ∀ r, C.Works t (fun w => C.Quit t w ∧ P w) (f r) R) :
    C.Works t (fun w => C.Quit t w ∧ P w) ((sys (.close fd)).bind f) R := by
  refine works_step (steady_quit.and hP.steady) (fun _ => True.intro)
    (fun w x w' r hi hb hp hex _ => ?_) hk
  obtain ⟨o, os', rfl, hos, rfl⟩ := Node.exec_sys hex
  rw [Os.exec_close hos]
  obtain ⟨htame, hq⟩ := tame_quit ht hi hp.1 fd
  exact ⟨htame, hq, hP w _ htame.mild hb hp.2⟩

theorem quits_releaseFlock (fd : Nat) :
    C.Works t (fun w => C.Quit t w ∧ P w) (dyadReleaseFlock fd)
      fun _ w => C.Quit t w ∧ P w := by
  refine quits_unlock ht hP fd fun r => ?_
  cases r <;>
    exact Works.pureSteady (steady_quit.and hP.steady) fun _ _ hp => hp

omit ht in
/-- Opening the local copy: a new one is empty, and nobody has a lock. -/
theorem quits_open {creat : Bool} {f : Except Errno Nat → Program α}
    (herr : ∀ e, C.Works t (fun w => C.Quit t w ∧ P w) (f (.error e)) R)
    (hok : ∀ d, C.Works t (fun w => C.CopyFd d w ∧ C.Quit t w ∧ P w)
      (f (.ok d)) R) :
    C.Works t (fun w => C.Quit t w ∧ P w)
      ((sys (.open .data creat false)).bind f) R := by
  refine works_step (A := fun r w => (∀ d, r = .ok d → C.CopyFd d w) ∧
    C.Quit t w ∧ P w) (steady_quit.and hP.steady) (fun _ => True.intro)
    (fun w x w' r hi hb hp hex _ => ?_) fun r => ?_
  · obtain ⟨htame, hr⟩ := tame_open hi (fun _ => by simp)
      (fun _ h => absurd h (by simp)) hex
    refine ⟨htame, fun d hd => copyFd_of_dir (hr d hd).1, ?_,
      hP w w' htame.mild hb hp.2⟩
    cases r with
    | error e =>
      obtain ⟨o, os', rfl, hos, rfl⟩ := Node.exec_sys hex
      rcases Os.exec_open hos with ⟨e, -, rfl⟩ | ⟨i, -, h, -⟩ | ⟨-, -, h, -⟩
      · exact hp.1
      · exact absurd h (by simp)
      · exact absurd h (by simp)
    | ok d =>
      obtain ⟨hd, rfl | ⟨-, rfl, rfl⟩⟩ := hr d rfl
      · exact hp.1
      · intro _ _ _ e he hh
        obtain rfl := Option.some.inj (hd.symm.trans he)
        rw [show ({ w with os := w.os.create .data } : Node).os.locks
          w.os.next = LockTable.free from Function.update_self ..] at hh
        exact absurd hh (by simp)
  · cases r with
    | error e => exact (herr e).pre fun _ _ hp => hp.2
    | ok d => exact (hok d).pre fun _ _ hp => ⟨hp.1 d rfl, hp.2⟩

end

end Setting

end Dyad
