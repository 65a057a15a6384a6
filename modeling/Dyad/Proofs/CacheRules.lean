import Dyad.Proofs.CacheMoves

/-!
# Rules for the threads that share the local files

The functions are proved call by call from the rules here. An assertion of a
thread is `Firm` when neither the others nor the thread's own tame steps can
make it false; it then goes through every call without being looked at, and a
rule only says what a call adds to it. What a thread knows of the files it has
open (`CopyFd`, `BitmapFd`, `OriginFd`) is firm, and so are the blocks it has
found local.
-/

namespace Dyad

open Conc Posix

/-- The calls that change nothing. -/
def Call.reads : Call → Bool
  | .sys (.fstat _) => true
  | .sys (.stat _) => true
  | .sys (.pread ..) => true
  | .sys (.malloc _) => true
  | c => c.quiet

theorem Node.exec_reads {w w' : Node} {t : Tid} {c : Call} {x : Choice}
    {r : c.Res} (hc : c.reads = true) (h : w.exec t c x = some (w', r)) :
    w' = w := by
  cases c with
  | sys c =>
    obtain ⟨o, os', -, hex, rfl⟩ := exec_sys h
    cases c with
    | fstat i => rw [(Os.exec_fstat hex).1]
    | stat n => rw [(Os.exec_stat hex).1]
    | pread i off len => rw [(Os.exec_pread hex).1]
    | malloc n => rw [(Os.exec_malloc hex).1]
    | _ => exact absurd hc (by simp [Call.reads, Call.quiet])
  | kvsCommit => exact absurd hc (by simp [Call.reads, Call.quiet])
  | _ => exact (exec_quiet (by simpa [Call.reads] using hc) h).1

namespace Setting

variable {C : Setting} {t : Tid} {P Q : Node → Prop}

/-! ## Firm assertions -/

variable (C) in
/-- What a thread sees of any step but its own that are not tame. -/
structure Mild (t : Tid) (w w' : Node) : Prop where
  frame : C.Frame w w'
  busy : w'.busy t = w.busy t
  kept : C.Active t w → C.Kept w w'

theorem Rely.mild {w w' : Node} (h : C.Rely t w w') : C.Mild t w w' :=
  ⟨h.frame, h.busy, h.kept⟩

theorem Tame.mild {w w' : Node} (h : C.Tame t w w') : C.Mild t w w' :=
  ⟨h.frame, congrFun h.busy t, fun _ => h.kept⟩

variable (C) in
/-- No such step makes `P` false while `t` is at work. -/
def Firm (t : Tid) (P : Node → Prop) : Prop :=
  ∀ w w', C.Mild t w w' → w.busy t = true → P w → P w'

/-- `t` is at work, and `P`. -/
def At (t : Tid) (P : Node → Prop) (w : Node) : Prop :=
  w.busy t = true ∧ P w

theorem Firm.const (φ : Prop) : C.Firm t fun _ => φ := fun _ _ _ _ h => h

theorem Firm.true : C.Firm t fun _ => True := Firm.const True

theorem Firm.and (hP : C.Firm t P) (hQ : C.Firm t Q) :
    C.Firm t fun w => P w ∧ Q w :=
  fun w w' hm hb h => ⟨hP w w' hm hb h.1, hQ w w' hm hb h.2⟩

theorem Firm.imp {φ : Prop} (hP : φ → C.Firm t P) :
    C.Firm t fun w => φ → P w :=
  fun w w' hm hb h hφ => hP hφ w w' hm hb (h hφ)

theorem Firm.stable (hP : C.Firm t P) : C.spec.Stable t (At t P) :=
  fun w w' _ _ hr h =>
    ⟨hr.busy.trans h.1, hP w w' hr.mild h.1 h.2⟩

/-! ## Rules -/

variable {c : Call} {α : Type} {f : c.Res → Program α}
  {R : α → Node → Prop}

/-- A call of a thread with a stable assertion. -/
theorem triple_step {A : c.Res → Node → Prop} (hP : C.spec.Stable t P)
    (hreq : ∀ w, C.Req w t c)
    (hc : ∀ w x w' r, C.Inv w → P w → w.exec t c x = some (w', r) →
      C.Acts w t c x → C.spec.Moves t w w' ∧ A r w')
    (hk : ∀ r, C.spec.Triple t (A r) (f r) R) :
    C.spec.Triple t P ((perform c).bind f) R :=
  Spec.Triple.call hP
    (fun w hi hp => ⟨hreq w, fun x w' r hex hok => hc w x w' r hi hp hex hok⟩)
    hk

/-- A tame call of a thread with a firm assertion. -/
theorem firm_step {F : c.Res → Node → Prop} (hP : C.Firm t P)
    (hreq : ∀ w, C.Req w t c)
    (hc : ∀ w x w' r, C.Inv w → P w → w.exec t c x = some (w', r) →
      C.Acts w t c x → C.Tame t w w' ∧ F r w')
    (hk : ∀ r, C.spec.Triple t (At t fun w => F r w ∧ P w) (f r) R) :
    C.spec.Triple t (At t P) ((perform c).bind f) R := by
  refine triple_step hP.stable hreq (fun w x w' r hi hp hex hok => ?_) hk
  obtain ⟨htame, hF⟩ := hc w x w' r hi hp.2 hex hok
  exact ⟨htame.moves, (congrFun htame.busy t).trans hp.1, hF,
    hP w w' htame.mild hp.1 hp.2⟩

/-- A tame call that adds nothing. -/
theorem firm_skip (hP : C.Firm t P) (hreq : ∀ w, C.Req w t c)
    (hc : ∀ w x w' r, C.Inv w → P w → w.exec t c x = some (w', r) →
      C.Acts w t c x → C.Tame t w w')
    (hk : ∀ r, C.spec.Triple t (At t P) (f r) R) :
    C.spec.Triple t (At t P) ((perform c).bind f) R :=
  firm_step (F := fun _ _ => True) hP hreq
    (fun w x w' r hi hp hex hok => ⟨hc w x w' r hi hp hex hok, True.intro⟩)
    fun r => (hk r).pre fun _ _ h => ⟨h.1, h.2.2⟩

/-- A call that changes nothing, and what its answer says of the files. -/
theorem firm_look {F : c.Res → Node → Prop} (hP : C.Firm t P)
    (hc : c.reads = true) (hreq : ∀ w, C.Req w t c)
    (hF : ∀ w x r, C.Inv w → P w → w.exec t c x = some (w, r) →
      C.Acts w t c x → F r w)
    (hk : ∀ r, C.spec.Triple t (At t fun w => F r w ∧ P w) (f r) R) :
    C.spec.Triple t (At t P) ((perform c).bind f) R := by
  refine firm_step hP hreq (fun w x w' r hi hp hex hok => ?_) hk
  obtain rfl := Node.exec_reads hc hex
  exact ⟨Tame.stay hi, hF _ x r hi hp hex hok⟩

/-- A call that changes nothing, and what its answer is. -/
theorem firm_read {φ : c.Res → Prop} (hP : C.Firm t P)
    (hc : c.reads = true) (hreq : ∀ w, C.Req w t c)
    (hφ : ∀ w x r, C.Inv w → P w → w.exec t c x = some (w, r) →
      C.Acts w t c x → φ r)
    (hk : ∀ r, φ r → C.spec.Triple t (At t P) (f r) R) :
    C.spec.Triple t (At t P) ((perform c).bind f) R :=
  firm_look (F := fun r _ => φ r) hP hc hreq hφ fun r w hi hp =>
    hk r hp.2.1 w hi ⟨hp.1, hp.2.2⟩

theorem firm_pure {a : α} (hP : C.Firm t P)
    (h : ∀ w, C.Inv w → w.busy t = true → P w → R a w) :
    C.spec.Triple t (At t P) (.pure a) R :=
  Spec.Triple.pure hP.stable fun w hi hp => h w hi hp.1 hp.2

theorem triple_ub (hP : C.spec.Stable t P)
    (ht : C.files t ∨ C.ctx.dtlMode = .ucx) :
    C.spec.Triple t P (ub : Program α) R :=
  Spec.Triple.call hP (A := fun _ _ => False)
    (fun _ _ _ => ⟨ht, fun _ _ r _ _ => r.elim⟩) fun r => r.elim

/-! ## Open files -/

variable (C) in
/-- `d` is a local copy; without eviction, the one. -/
def CopyFd (d : Nat) (w : Node) : Prop :=
  d < w.os.next ∧ w.os.born d = .data ∧
    (¬ C.evict → w.os.dir .data = some d)

variable (C) in
/-- `i` is a bitmap and marks only local blocks; without eviction there is a
bitmap in the directory. -/
def BitmapFd (i : Nat) (w : Node) : Prop :=
  i < w.os.next ∧ w.os.born i = .bitmap ∧ BitsOk C.orig w (w.os.file i) ∧
    (¬ C.evict → w.os.dir .bitmap ≠ none)

/-- `i` is the origin. -/
def OriginFd (i : Nat) (w : Node) : Prop :=
  i < w.os.next ∧ w.os.born i = .origin

theorem active_of_range {w : Node} (ht : ¬ C.files t) (hb : w.busy t = true) :
    C.Active t w := fun _ => ⟨ht, hb⟩

theorem firm_copyFd (d : Nat) : C.Firm t (C.CopyFd d) :=
  fun _ _ hm _ h =>
    ⟨Nat.lt_of_lt_of_le h.1 hm.frame.next, (hm.frame.born d h.1).trans h.2.1,
      fun he => (hm.kept fun he' => absurd he' he).data d (h.2.2 he)⟩

theorem firm_bitmapFd (ht : ¬ C.files t) (i : Nat) : C.Firm t (C.BitmapFd i) :=
  fun _ _ hm hb h => by
    refine ⟨Nat.lt_of_lt_of_le h.1 hm.frame.next,
      (hm.frame.born i h.1).trans h.2.1,
      (hm.kept (active_of_range ht hb)).bits i h.1 h.2.1 h.2.2.1,
      fun he => ?_⟩
    obtain ⟨j, hj⟩ := Option.ne_none_iff_exists'.1 (h.2.2.2 he)
    rw [hm.frame.bitmap he j hj]
    simp

theorem firm_originFd (i : Nat) : C.Firm t (OriginFd i) :=
  fun _ _ hm _ h =>
    ⟨Nat.lt_of_lt_of_le h.1 hm.frame.next, (hm.frame.born i h.1).trans h.2⟩

/-- Blocks found local stay local for a range thread. -/
theorem firm_bitsOk (ht : ¬ C.files t) (bitmap : Bytes Byte) :
    C.Firm t fun w => BitsOk C.orig w bitmap :=
  fun _ _ hm hb h =>
    hm.frame.bitsOk (hm.kept (active_of_range ht hb)).data h

theorem firm_ready (ht : ¬ C.files t) (bs be : Nat) : C.Firm t (C.Ready bs be) :=
  fun _ _ hm hb h b hbs hbe =>
    hm.frame.localBlock (hm.kept (active_of_range ht hb)).data (h b hbs hbe)

variable (C) in
/-- `d` is a local copy with every byte of the origin. -/
def FullFd (d : Nat) (w : Node) : Prop :=
  d < w.os.next ∧ w.os.born d = .data ∧ Full C.orig (w.os.file d)

theorem firm_fullFd (d : Nat) : C.Firm t (C.FullFd d) :=
  fun _ _ hm _ h =>
    ⟨Nat.lt_of_lt_of_le h.1 hm.frame.next, (hm.frame.born d h.1).trans h.2.1,
      fun i hi => hm.frame.has d i h.1 h.2.1 hi (h.2.2 i hi)⟩

/-- Opening a name of the managed directory, without truncating it: the file
is of that name, and a new one is empty. -/
theorem tame_open {w w' : Node} {n : Name} {creat : Bool} {x : Choice}
    {r : Except Errno Nat} (hi : C.Inv w) (hn : creat = true → n ≠ .origin)
    (hl : creat = true → n = .bitmap → C.lazy)
    (h : w.exec t (.sys (.open n creat false)) x = some (w', r)) :
    C.Tame t w w' ∧ ∀ i, r = .ok i → w'.os.dir n = some i ∧
      (w' = w ∨ w.os.dir n = none ∧ w' = { w with os := w.os.create n } ∧
        i = w.os.next) := by
  obtain ⟨o, os', rfl, hex, rfl⟩ := Node.exec_sys h
  rcases Os.exec_open hex with ⟨e, rfl, rfl⟩ | ⟨i, hd, rfl, rfl⟩ |
      ⟨hd, hc, rfl, rfl⟩
  · exact ⟨Tame.stay hi, fun i hi => absurd hi (by simp)⟩
  · refine ⟨Tame.stay hi, fun j hj => ?_⟩
    obtain rfl := Except.ok.inj hj
    exact ⟨hd, Or.inl rfl⟩
  · refine ⟨Tame.create hi hd (hn hc) (hl hc), fun j hj => ?_⟩
    obtain rfl := Except.ok.inj hj
    exact ⟨Function.update_self .., Or.inr ⟨hd, rfl, rfl⟩⟩

theorem copyFd_of_dir {w : Node} {d : Nat} (h : w.os.dir .data = some d) :
    C.CopyFd d w :=
  ⟨(w.os.linked _ _ h).1, (w.os.linked _ _ h).2, fun _ => h⟩

theorem bitmapFd_of_dir {w : Node} {i : Nat} (hi : C.Inv w)
    (h : w.os.dir .bitmap = some i) : C.BitmapFd i w :=
  ⟨(w.os.linked _ _ h).1, (w.os.linked _ _ h).2, hi.bits i h,
    fun _ => by rw [h]; simp⟩

theorem originFd_of_dir {w : Node} {i : Nat}
    (h : w.os.dir .origin = some i) : OriginFd i w :=
  w.os.linked _ _ h

end Setting

end Dyad
