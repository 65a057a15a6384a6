import Dyad.Proofs.CacheRange

/-!
# The service's range requests stay in the outline

The request handler on its synchronous path, and a worker on the threaded one,
make the range present with `dyad_range_cache_ensure` and then only read. What
they send is theirs to get right; for the outline it is enough that neither
touches a file but through the range cache.
-/

namespace Dyad

open Conc Posix

namespace Setting

variable {C : Setting} {t : Tid}

-- a triple of a read at an offset would unfold into the offset's sign
attribute [local irreducible] toSsize

variable (C) in
/-- A thread at work stays in the outline. -/
abbrev Calm (t : Tid) {α : Type} (p : Program α) : Prop :=
  C.Works t (fun _ => True) p fun _ _ => True

theorem Calm.pure {α : Type} (a : α) : C.Calm t (.pure a) :=
  Works.done Firm.true

theorem Calm.read {α : Type} {c : Call} {f : c.Res → Program α}
    (hc : c.reads = true) (hreq : ∀ w, C.Req w t c)
    (hk : ∀ r, C.Calm t (f r)) : C.Calm t ((perform c).bind f) :=
  works_read Firm.true hc hreq hk

theorem calm_fetchErrorWoFlock : C.Calm t fetchErrorWoFlock :=
  Calm.read rfl (fun _ => True.intro) fun _ =>
    Calm.read rfl (fun _ => True.intro) fun _ => Calm.pure _

theorem calm_fetchErrorWith (e : Errno) : C.Calm t (fetchErrorWith e) :=
  Calm.read rfl (fun _ => True.intro) fun _ => calm_fetchErrorWoFlock

theorem calm_preadAt (fd : Nat) (off : UInt64) (len : Nat) :
    C.Calm t (preadAt fd off len) := by
  unfold preadAt
  split
  · exact Calm.read rfl (fun _ => True.intro) fun _ => Calm.pure _
  · refine Calm.read rfl (fun _ => True.intro) fun r => ?_
    cases r <;> exact Calm.pure _

theorem calm_rangeReadLoop (fd : Nat) (offset : UInt64) (rangeLen fuel : Nat)
    (content : Bytes Byte) :
    C.Calm t (rangeReadLoop fd offset rangeLen fuel content) := by
  induction fuel generalizing content with
  | zero => exact Calm.pure _
  | succ fuel ih =>
    rw [rangeReadLoop]
    split
    · dsimp only
      refine Works.bind (calm_preadAt fd _ _) fun r => ?_
      cases r with
      | none => exact Calm.pure _
      | some d =>
        dsimp only
        split
        · exact Calm.pure _
        · exact ih _
    · exact Calm.pure _

/-- A payload is only claimed of the thread that serves whole files. -/
theorem calm_fetchSend (ht : ¬ C.files t) (payload : Bytes Byte) :
    C.Calm t (fetchSend payload) := by
  refine Calm.read rfl (fun _ => True.intro) fun r => ?_
  cases r with
  | error e => exact calm_fetchErrorWith _
  | ok _ =>
    refine Calm.read rfl (fun _ _ h0 => absurd h0 ht) fun r => ?_
    cases r with
    | error e => exact calm_fetchErrorWith _
    | ok _ =>
      exact Calm.read rfl (fun _ => True.intro) fun _ =>
        Calm.read rfl (fun _ => True.intro) fun _ =>
          Calm.read rfl (fun _ => True.intro) fun _ => Calm.pure _

/-- Opening the local copy tells nothing here. -/
theorem calm_open {α : Type} {f : Except Errno Nat → Program α}
    (hk : ∀ r, C.Calm t (f r)) :
    C.Calm t ((sys (.open .data false false)).bind f) :=
  works_open Firm.true (F := fun _ _ => True) (fun h => absurd h (by simp))
    (fun h => absurd h (by simp)) (fun _ _ _ _ => True.intro)
    (fun _ => hk _) fun _ => (hk _).pre fun _ _ _ => True.intro

theorem calm_workerFinish (item : WorkItem) :
    C.Calm t (dyadFetchWorkerFinish item) := by
  unfold dyadFetchWorkerFinish
  split
  · split
    · refine Calm.read rfl (fun _ => True.intro) fun r => ?_
      cases r <;> exact Calm.pure _
    · exact Calm.read rfl (fun _ => True.intro) fun _ => Calm.pure _
  · exact Calm.pure _

theorem calm_rangeEnqueue (cfg : RangeConfig) (offset length : UInt64) :
    C.Calm t (rangeEnqueue cfg offset length) := by
  refine Calm.read rfl (fun _ => True.intro) fun ok => ?_
  split
  · refine Calm.read rfl (fun _ => True.intro) fun r => ?_
    cases r with
    | error e =>
      exact Works.bind (calm_fetchErrorWith _) fun _ => Calm.pure _
    | ok _ =>
      refine Calm.read rfl (fun _ => True.intro) fun r => ?_
      cases r with
      | error e =>
        exact Calm.read rfl (fun _ => True.intro) fun _ =>
          Works.bind (calm_fetchErrorWith _) fun _ => Calm.pure _
      | ok _ => exact Calm.pure _
  · exact Works.bind (calm_fetchErrorWith _) fun _ => Calm.pure _

section

variable (ht : ¬ C.files t)

include ht

theorem calm_releaseFlock (fd : Nat) : C.Calm t (dyadReleaseFlock fd) :=
  works_releaseFlock ht Firm.true fd

theorem calm_close {α : Type} {fd : Nat} {f : Except Errno Unit → Program α}
    (hk : ∀ r, C.Calm t (f r)) : C.Calm t ((sys (.close fd)).bind f) :=
  works_close ht Firm.true hk

theorem calm_ensure (hl : C.lazy) {offset length : UInt64}
    (hs : SpanInBounds C.ctx offset length C.originSize) :
    C.Calm t (dyadRangeCacheEnsure C.ctx offset length) :=
  (works_ensure ht hl hs).post fun _ _ _ _ => True.intro

/-! ## The worker -/

theorem calm_workerOpened (item : WorkItem) (fd : Nat) :
    C.Calm t (workerOpened item fd) := by
  refine Works.bind (works_sharedFlock ht Firm.true fd) fun rc => ?_
  split
  · exact Calm.read rfl (fun _ => True.intro) fun _ =>
      calm_close ht fun _ => calm_workerFinish _
  refine Works.bind (works_getFileSize Firm.true fd) fun size => ?_
  refine Works.bind (calm_rangeReadLoop _ _ _ _ _) fun r => ?_
  cases r with
  | none =>
    refine Calm.read rfl (fun _ => True.intro) fun _ => ?_
    exact Works.bind (calm_releaseFlock ht fd) fun _ =>
      calm_close ht fun _ => calm_workerFinish _
  | some content =>
    exact Works.bind (calm_releaseFlock ht fd) fun _ =>
      calm_close ht fun _ => calm_workerFinish _

theorem calm_workerEnsured {item : WorkItem} (rc : Rc) :
    C.Calm t (if rc.isError then
      workerError item Errno.EIO
    else do
      match ← sys (.open .data false false) with
      | .error _ =>
        let savedErrno ← perform .errno
        workerError item savedErrno
      | .ok fd => workerOpened item fd) := by
  split
  · exact calm_workerFinish _
  refine calm_open fun r => ?_
  cases r with
  | error e =>
    exact Calm.read rfl (fun _ => True.intro) fun _ => calm_workerFinish _
  | ok fd => exact calm_workerOpened ht item fd

theorem calm_workerProcess (hl : C.lazy) {item : WorkItem}
    (hs : SpanInBounds C.ctx item.offset item.length C.originSize) :
    C.Calm t (dyadFetchWorkerProcess C.ctx item) := by
  unfold dyadFetchWorkerProcess
  dsimp only
  split
  · exact Works.bind (calm_ensure ht hl hs) (calm_workerEnsured ht)
  · exact calm_workerEnsured ht .ok

/-! ## The handler -/

theorem calm_fetchError (fd : Nat) : C.Calm t (fetchError fd) := by
  refine Works.bind (p := sys (.unlock fd)) (Q := fun _ _ => True) ?_
    fun _ => calm_close ht fun _ => calm_fetchErrorWoFlock
  refine firm_skip Firm.true (fun _ => True.intro)
    (fun w x w' r hi _ hex hok => ?_) fun r => Calm.pure r
  obtain ⟨o, os', rfl, hos, rfl⟩ := Node.exec_sys hex
  rcases Os.exec_unlock hos with ⟨e, -, rfl⟩ | ⟨-, rfl⟩
  · exact Tame.stay hi
  · exact tame_release ht hi hok

theorem calm_rangeClamped (fd : Nat) (offset : UInt64) (rangeLen : Int) :
    C.Calm t (rangeClamped fd offset rangeLen) := by
  refine Calm.read rfl (fun _ => True.intro) fun r => ?_
  cases r with
  | error e => exact calm_fetchError ht fd
  | ok _ =>
    refine Works.bind (Q := fun _ _ => True) ?_ fun r => ?_
    · unfold rangeRead
      split
      · split
        · exact calm_preadAt _ _ _
        · exact calm_rangeReadLoop _ _ _ _ _
      · exact Calm.pure _
    cases r with
    | none => exact calm_fetchError ht fd
    | some content =>
      dsimp only
      split
      · exact calm_fetchError ht fd
      · exact Works.bind (calm_releaseFlock ht fd) fun _ =>
          calm_close ht fun _ => calm_fetchSend ht _

theorem calm_rangeEnsured {offset length : UInt64} (rc : Rc) :
    C.Calm t (if rc.isError then
      fetchErrorWith Errno.EIO
    else do
      match ← sys (.open .data false false) with
      | .error _ => fetchErrorWoFlock
      | .ok fd => rangeOpened fd offset length) := by
  split
  · exact calm_fetchErrorWith _
  refine calm_open fun r => ?_
  cases r with
  | error e => exact calm_fetchErrorWoFlock
  | ok fd =>
    refine Works.bind (works_sharedFlock ht Firm.true fd) fun rc => ?_
    split
    · exact calm_fetchError ht fd
    · exact Works.bind (works_getFileSize Firm.true fd) fun size =>
        calm_rangeClamped ht _ _ _

theorem calm_rangeSync {workers detached : Bool} (hl : C.lazy)
    {offset length : UInt64}
    (hs : SpanInBounds C.ctx offset length C.originSize) :
    C.Calm t (rangeSync ⟨C.ctx, workers, detached⟩ offset length) := by
  unfold rangeSync
  dsimp only
  split
  · exact Works.bind (calm_ensure ht hl hs) (calm_rangeEnsured ht)
  · exact calm_rangeEnsured ht .ok

theorem calm_fetchRange (hl : C.lazy) (hs : C.serve) (workers detached : Bool) :
    C.Calm t (dyadFetchRangeRequestCb ⟨C.ctx, workers, detached⟩) := by
  refine Calm.read rfl (fun _ => True.intro) fun streaming => ?_
  split
  swap
  · exact Works.bind (calm_fetchErrorWith _) fun _ => Calm.pure _
  refine Calm.read rfl (fun _ => True.intro) fun r => ?_
  cases r with
  | error e =>
    exact Works.bind calm_fetchErrorWoFlock fun _ => Calm.pure _
  | ok _ =>
    dsimp only
    split
    · next hucx => exact triple_ub Firm.true.stable (Or.inr hucx)
    refine firm_read (φ := fun r => ∀ offset length, r = .ok (offset, length) →
        SpanInBounds C.ctx offset length C.originSize) Firm.true rfl
      (fun _ => hs)
      (fun w x r _ _ hex hok offset length hr => ?_) fun r hr => ?_
    · obtain ⟨-, hans⟩ := Node.exec_quiet rfl hex
      subst hr
      rcases Node.answer_rpcUnpackRange hans with ⟨o, l, rfl, h⟩ | ⟨rc, -, h⟩
      · obtain ⟨rfl, rfl⟩ := Prod.mk.inj (Except.ok.inj h)
        exact hok hs _ _ rfl
      · exact absurd h (by simp)
    · rcases r with rc | ⟨offset, length⟩
      · exact Works.bind (calm_fetchErrorWith _) fun _ => Calm.pure _
      · refine Calm.read rfl (fun _ => True.intro) fun r => ?_
        cases r with
        | error e =>
          exact Works.bind calm_fetchErrorWoFlock fun _ => Calm.pure _
        | ok _ =>
          dsimp only
          split
          · exact calm_rangeEnqueue _ _ _
          · exact Works.bind (calm_rangeSync ht hl (hr _ _ rfl)) fun _ =>
              Calm.pure _

end

end Setting

end Dyad
