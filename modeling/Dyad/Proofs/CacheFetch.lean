import Dyad.Proofs.CacheWhole

/-!
# The whole-file handler stays in the outline

`dyad_fetch_request_cb` takes the size of the copy under a shared lock, reads
that many bytes and sends them. A size that is not zero means a full copy, so
the bytes it sends are the origin's.
-/

namespace Dyad

open Conc Posix

namespace Setting

variable {C : Setting} {t : Tid} {P : Node → Prop}

theorem quits_fetchErrorWoFlock (hP : C.Steady t P) :
    C.Works t P fetchErrorWoFlock fun _ => P :=
  works_pass hP rfl (fun _ => True.intro) fun _ =>
    works_pass hP rfl (fun _ => True.intro) fun _ =>
      Works.pureSteady hP fun _ _ hp => hp

theorem quits_fetchErrorWith (hP : C.Steady t P) (e : Errno) :
    C.Works t P (fetchErrorWith e) fun _ => P :=
  works_pass hP rfl (fun _ => True.intro) fun _ => quits_fetchErrorWoFlock hP

theorem quits_fetchError (ht : C.files t) (hP : C.Firm t P) (fd : Nat) :
    C.Works t (fun w => C.Quit t w ∧ P w) (fetchError fd)
      fun _ w => C.Quit t w ∧ P w :=
  quits_unlock ht hP fd fun _ => quits_close ht hP fd fun _ =>
    quits_fetchErrorWoFlock (steady_quit.and hP.steady)

theorem quits_fetchSend (hP : C.Steady t P) {payload : Bytes Byte}
    (hpay : C.whole → payload = fetchPayload C.ucxBuild C.orig) :
    C.Works t P (fetchSend payload) fun _ => P := by
  refine works_pass hP rfl (fun _ => True.intro) fun r => ?_
  cases r with
  | error e => exact quits_fetchErrorWith hP _
  | ok _ =>
    refine works_pass hP rfl (fun _ hw _ => hpay hw) fun r => ?_
    cases r with
    | error e => exact quits_fetchErrorWith hP _
    | ok _ =>
      exact works_pass hP rfl (fun _ => True.intro) fun _ =>
        works_pass hP rfl (fun _ => True.intro) fun _ =>
          works_pass hP rfl (fun _ => True.intro) fun _ =>
            Works.pureSteady hP fun _ _ hp => hp

/-! ## The read -/

/-- A read of a full copy. -/
theorem quits_readInto (hP : C.Steady t P) {d : Nat}
    (hfull : ∀ w, P w → C.whole → C.FullFd d w) (inbuf : Bool)
    (off len : Nat) :
    C.Works t P (readInto inbuf d off len) fun r w =>
      (∀ b, r = some b → C.whole → ∃ k, b = C.orig.slice off k) ∧ P w := by
  have hnone : C.Works t P (.pure none) fun r w =>
      (∀ b, r = some b → C.whole → ∃ k, b = C.orig.slice off k) ∧ P w :=
    Works.pureSteady hP fun _ _ hp => ⟨fun _ h => absurd h (by simp), hp⟩
  unfold readInto
  split
  · refine works_see (φ := fun r => ∀ b, r = .ok b → C.whole →
        ∃ k, b = C.orig.slice off k) hP rfl (fun _ => True.intro)
      (fun w x r hi hp hex _ b hb hw => ?_) fun r hr => ?_
    · obtain ⟨o, os', rfl, hos, -⟩ := Node.exec_sys hex
      obtain ⟨-, ⟨e, rfl⟩ | ⟨k, -, rfl⟩⟩ := Os.exec_pread hos
      · exact absurd hb (by simp)
      · obtain rfl := Except.ok.inj hb
        rw [(hfull w hp hw).eq hi (C.wholeSized hw)]
        exact ⟨k, rfl⟩
    · cases r with
      | error e => exact hnone
      | ok b =>
        refine Works.pureSteady hP fun _ _ hp => ⟨fun b' hb' => ?_, hp⟩
        exact hr b' (by rw [Option.some.inj hb'])
  · exact works_pass hP rfl (fun _ => True.intro) fun _ => hnone

/-- Read so far: the origin up to some position. -/
theorem slice_size_self {b : Bytes Byte} (k : Nat) :
    b.slice 0 (b.slice 0 k).size = b.slice 0 k := by
  refine Bytes.ext (by simp) fun i hi => ?_
  simp only [Bytes.size_slice] at hi
  rw [Bytes.get_slice_of_lt b (by rw [Bytes.size_slice]; omega),
    Bytes.get_slice_of_lt b (by omega)]

/-- The chunked read keeps what it has read a piece of the origin. -/
theorem quits_fetchReadLoop (hP : C.Steady t P) {d : Nat}
    (hfull : ∀ w, P w → C.whole → C.FullFd d w) (inbuf : Bool)
    (fileSize fuel : Nat) {content : Bytes Byte}
    (hc : C.whole → content = C.orig.slice 0 content.size) :
    C.Works t P (fetchReadLoop inbuf d fileSize fuel content) fun r w =>
      (∀ b, r = some b → C.whole → b = C.orig.slice 0 b.size) ∧ P w := by
  have hsome : ∀ {content : Bytes Byte},
      (C.whole → content = C.orig.slice 0 content.size) →
      C.Works t P (.pure (some content)) fun r w =>
        (∀ b, r = some b → C.whole → b = C.orig.slice 0 b.size) ∧ P w :=
    fun hc => Works.pureSteady hP fun _ _ hp =>
      ⟨fun b hb hw => by
        obtain rfl := Option.some.inj hb
        exact hc hw, hp⟩
  have hnone : C.Works t P (.pure none) fun r w =>
      (∀ b, r = some b → C.whole → b = C.orig.slice 0 b.size) ∧ P w :=
    Works.pureSteady hP fun _ _ hp => ⟨fun _ h => absurd h (by simp), hp⟩
  induction fuel generalizing content with
  | zero => exact hsome hc
  | succ fuel ih =>
    rw [fetchReadLoop]
    split
    · dsimp only
      refine Works.bind (quits_readInto hP hfull inbuf _ _) fun r => ?_
      refine Works.assume fun hr => ?_
      cases r with
      | none => exact hnone
      | some b =>
        dsimp only
        split
        · exact hnone
        · refine ih fun hw => ?_
          obtain ⟨k, rfl⟩ := hr b rfl hw
          -- what was there, and what comes next
          have hlen : content.size ≤ C.orig.size := by
            have := congrArg Bytes.size (hc hw)
            rw [Bytes.size_slice] at this
            omega
          have happ : content.append (C.orig.slice content.size k) =
              C.orig.slice 0 (content.size + k) := by
            have : (C.orig.slice 0 content.size).append
                (C.orig.slice (0 + content.size) k) =
                  C.orig.slice 0 (content.size + k) :=
              Bytes.slice_append C.orig (by omega)
            rwa [← hc hw, Nat.zero_add] at this
          rw [happ, slice_size_self]
    · exact hsome hc

theorem quits_fetchRead (hP : C.Steady t P) {d : Nat}
    (hfull : ∀ w, P w → C.whole → C.FullFd d w) (inbuf : Bool)
    (fileSize : Nat) :
    C.Works t P (fetchRead inbuf d fileSize) fun r w =>
      (∀ b, r = some b → C.whole → b = C.orig.slice 0 b.size) ∧ P w := by
  unfold fetchRead
  split
  · refine (quits_readInto hP hfull inbuf 0 fileSize).post
      fun r w _ h => ⟨fun b hb hw => ?_, h.2⟩
    obtain ⟨k, rfl⟩ := h.1 b hb hw
    exact (slice_size_self k).symm
  · refine quits_fetchReadLoop hP hfull inbuf fileSize fileSize fun _ => ?_
    exact (Bytes.eq_empty_of_size (by simp)).symm

/-! ## The handler -/

theorem quits_fetchBuffered (ht : C.files t) {ucxBuild : Bool}
    (hb : C.whole → ucxBuild = C.ucxBuild) (inbuf : Bool) (d n : Nat) :
    C.Works t (fun w => C.Quit t w ∧
      (C.whole → n ≠ 0 → n = C.orig.size ∧ C.FullFd d w))
      (fetchBuffered ucxBuild inbuf d n) fun _ => C.Quit t := by
  have hF : C.Firm t fun w =>
      C.whole → n ≠ 0 → n = C.orig.size ∧ C.FullFd d w :=
    Firm.imp fun _ => Firm.imp fun _ => (Firm.const _).and (firm_fullFd d)
  have hP := (steady_quit (C := C) (t := t)).and hF.steady
  have herr : C.Works t (fun w => C.Quit t w ∧
      (C.whole → n ≠ 0 → n = C.orig.size ∧ C.FullFd d w)) (fetchError d)
      fun _ => C.Quit t :=
    (quits_fetchError ht hF d).post fun _ _ _ h => h.1
  unfold fetchBuffered
  split
  · exact triple_ub hP (Or.inl ht)
  split
  · next hpos =>
    have h0 : n ≠ 0 := Nat.ne_of_gt hpos
    refine Works.bind (quits_fetchRead hP
      (fun _ hp hw => (hp.2 hw h0).2) inbuf n) fun r => ?_
    refine Works.assume fun hr => ?_
    cases r with
    | none => exact herr
    | some content =>
      dsimp only
      split
      · exact herr
      · next hsize =>
        -- a full copy of that size is the origin
        have hcontent : ∀ w, C.whole →
            (C.whole → n ≠ 0 → n = C.orig.size ∧ C.FullFd d w) →
              content = C.orig := fun w hw h => by
          have hn := (h hw h0).1
          have hs : content.size = n := by simpa using hsize
          rw [hr content rfl hw, Bytes.slice_zero_size (by omega)]
        refine Works.bind (quits_releaseFlock ht hF d) fun _ => ?_
        refine quits_close ht hF d fun _ => ?_
        intro w hi hp
        refine (quits_fetchSend hP fun hw => ?_).post
          (fun _ _ _ h => h.1) w hi hp
        rw [hcontent w hw hp.2.2, hb hw]
  · exact herr

theorem quits_fetchOpened (ht : C.files t) {ucxBuild : Bool}
    (hb : C.whole → ucxBuild = C.ucxBuild) (d : Nat) :
    C.Works t (fun w => C.CopyFd d w ∧ C.Quit t w ∧ True)
      (fetchOpened ucxBuild d) fun _ => C.Quit t := by
  have hd := firm_copyFd (C := C) (t := t) d
  refine Works.bind (Q := fun rc w => C.CopyFd d w ∧ C.Quit t w ∧
    (rc = .ok → C.Shared t d w)) ?_ fun rc => ?_
  · refine quits_lock ht Firm.true fun r => ?_
    cases r with
    | error e =>
      refine Works.pre (A := fun w => C.CopyFd d w ∧ C.Quit t w) ?_
        fun _ _ hp => ⟨hp.2.1, hp.2.2.1⟩
      exact Works.pureSteady (hd.steady.and steady_quit) fun _ _ hp =>
        ⟨hp.1, hp.2, fun h => absurd h (by simp)⟩
    | ok _ =>
      refine Works.pre (A := fun w => (C.CopyFd d w ∧ C.Shared t d w) ∧
        C.Quit t w) ?_ fun _ _ hp => ⟨⟨hp.2.1, hp.1 rfl⟩, hp.2.2.1⟩
      exact Works.pureSteady ((steady_shared ht d).and steady_quit)
        fun _ _ hp => ⟨hp.1.1, hp.2, fun _ => hp.1.2⟩
  split
  · refine (quits_fetchError ht hd d).imp
      (fun w hi hp => ⟨hp.1, hp.2.2.1, hp.2.1⟩) fun _ _ _ h => ⟨h.1, h.2.1⟩
  · next herr =>
    have hok : rc = .ok := by
      simpa [Rc.isError_iff] using herr
    refine Works.pre (A := fun w => (C.CopyFd d w ∧ C.Shared t d w) ∧
      C.Quit t w) ?_ fun _ _ hp => ⟨⟨hp.1, hp.2.2 hok⟩, hp.2.1⟩
    refine Works.bind (quits_getFileSize ht
      ((steady_shared ht d).and steady_quit) (fun _ hp => hp.1.1)
      (fun _ hp => hp.2) fun _ hp => hp.1.2) fun n => ?_
    refine Works.pre (A := fun w => C.Quit t w ∧
      (C.whole → n ≠ 0 → n = C.orig.size ∧ C.FullFd d w)) ?_
      fun _ _ hp => ⟨hp.2.2, hp.1⟩
    have hF : C.Firm t fun w =>
        C.whole → n ≠ 0 → n = C.orig.size ∧ C.FullFd d w :=
      Firm.imp fun _ => Firm.imp fun _ => (Firm.const _).and (firm_fullFd d)
    refine works_pass (steady_quit.and hF.steady) rfl (fun _ => True.intro)
      fun r => ?_
    cases r <;> exact quits_fetchBuffered ht hb _ d n

theorem quits_fetchRequest (ht : C.files t) {ucxBuild : Bool}
    (hb : C.whole → ucxBuild = C.ucxBuild) :
    C.Works t (C.Quit t) (dyadFetchRequestCb ucxBuild) fun _ => C.Quit t := by
  refine works_pass steady_quit rfl (fun _ => True.intro) fun streaming => ?_
  split
  swap
  · exact quits_fetchErrorWith steady_quit _
  refine works_pass steady_quit rfl (fun _ => True.intro) fun r => ?_
  cases r with
  | error e => exact quits_fetchErrorWoFlock steady_quit
  | ok _ =>
    refine works_pass steady_quit rfl (fun _ => True.intro) fun r => ?_
    cases r with
    | nullAddress => exact triple_ub steady_quit (Or.inl ht)
    | error e => exact quits_fetchErrorWith steady_quit _
    | ok =>
      refine works_pass steady_quit rfl (fun _ => True.intro) fun r => ?_
      cases r with
      | error e => exact quits_fetchErrorWoFlock steady_quit
      | ok _ =>
        refine Works.pre (quits_open (P := fun _ => True) Firm.true
          (fun e => ?_) fun d => quits_fetchOpened ht hb d)
          fun _ _ hp => ⟨hp, True.intro⟩
        exact (quits_fetchErrorWoFlock steady_quit).pre fun _ _ hp => hp.1

end Setting

end Dyad
