import Dyad.Proofs.TerminalResponse

/-!
# The two ways a range request is served

With workers in the pool, a range request goes through a work item: the
handler allocates the item and a buffer for the length that was asked for, a
worker reads, and the completion answers. Without workers the handler does
everything itself, with a buffer for the clamped length.

The two are compared in one environment, which answers a call on the files by
what was done to the files before, and an allocation by its size alone. Both
make the range present, open the file, lock it and ask for its size with the
same calls; what differs is what is allocated, and when, and what happens to
a read that comes back short.
-/

namespace Dyad

open Conc Posix

/-! ## The environment -/

/-- Whether a call was one on the files. -/
def onFiles : Prog.Event Call.Res → Bool
  | ⟨.sys (.malloc _), _⟩ => false
  | ⟨.sys _, _⟩ => true
  | _ => false

/-- What was done to the files so far. -/
def filesSeen (h : ServiceHistory) : ServiceHistory := h.filter onFiles

/-- The size of the file behind `fd`, when it was asked for and the file was
only read since. -/
def sizedAt (fd : Nat) : ServiceHistory → Option Nat
  | ⟨.sys (.fstat fd'), .ok size⟩ :: _ => if fd' = fd then some size else none
  | ⟨.sys (.pread fd' _ _), _⟩ :: h =>
    if fd' = fd then sizedAt fd h else none
  | _ => none

/-- What answers the calls of a range request. The state of a detached request
takes `detachSize` bytes, 16 in the Flux DTL and 24 in Margo's. The errno of the
reactor's thread and that of a worker's, where no call of the request has set
it, are any. A call that fails sets it, and not to `ENODATA`; a read of a file
whose size was just seen returns at least a byte, as long as there is one, and
at most what there is. -/
structure RangeEnv where
  file : ServiceHistory → (c : Sys Name Byte) → c.Res
  alloc : Nat → Bool
  detachSize : Nat
  errno : (worker : Bool) → Errno
  failed_ne : ∀ h c, sysErrno c (file h c) ≠ some Errno.ENODATA
  fstat_lt : ∀ h fd size, file h (.fstat fd) = .ok size → size < 2 ^ 63
  pread : ∀ h fd off len size, sizedAt fd h = some size → 0 < len →
    ∃ d, file h (.pread fd off len) = .ok d ∧ d.size ≤ len ∧
      d.size ≤ size - off ∧ (off < size → 0 < d.size)

/-- The errno after a history: the last one that was set, or that of the
thread. -/
def RangeEnv.errnoAfter (env : RangeEnv) (h : ServiceHistory) : Errno :=
  (pinned h).getD (env.errno (detached h))

/-- The answer to a call of a request for `length` bytes at `offset`. Nothing
of the transport fails but for want of memory. -/
def RangeEnv.answer (env : RangeEnv) (offset length : UInt64)
    (h : ServiceHistory) : (c : Call) → Option c.Res
  | .sys (.malloc size) => some (env.alloc size)
  | .sys c => some (env.file (filesSeen h) c)
  | .msgIsStreaming => some true
  | .msgGetUserid => some (.ok ())
  | .rpcUnpackRange => some (.ok (offset, length))
  | .rpcRespond => some (.ok ())
  | .rpcDetachRequest =>
    if env.alloc env.detachSize then some (.ok ()) else some (.error .sysfail)
  | .rpcAbortDetached => some ()
  | .rpcSendDetached _ => some (.ok ())
  | .getBuffer size =>
    if env.alloc size then some (.ok ()) else some (.error .sysfail)
  | .establishConnection => some (.ok ())
  | .send _ => some (.ok ())
  | .closeConnection => some ()
  | .returnBuffer => some ()
  | .respondError _ => some ()
  | .errno => some (env.errnoAfter h)
  | .setErrno _ => some ()
  | _ => none

/-- What can be told of a request from outside: the payloads that were sent,
and whether the responses that ended its stream were of success. -/
def observed (h : ServiceHistory) : List (Bytes Byte) × List Bool :=
  (h.filterMap handedOver,
    (h.filterMap terminal).map fun e => e == Errno.ENODATA)

/-- How a request ends, served by the pool or by its handler. -/
def RangeEnv.outcome (env : RangeEnv) (ctx : Ctx)
    (workers threadSafe : Bool) (offset length : UInt64) :
    Option (List (Bytes Byte) × List Bool) :=
  ((Request.range ⟨ctx, workers, threadSafe⟩).serve.eval
    (env.answer offset length) []).map fun x => observed x.1

/-- The two ways to serve a request send the same and end alike. -/
def PathsAgree (env : RangeEnv) (ctx : Ctx) (threadSafe : Bool)
    (offset length : UInt64) : Prop :=
  ∀ o o', env.outcome ctx true threadSafe offset length = some o →
    env.outcome ctx false threadSafe offset length = some o' → o = o'

/-! ## What both do -/

/-- The part of the range cache in either. -/
def rangeEnsured (ctx : Ctx) (offset length : UInt64) : Program Rc :=
  if ctx.originPath then dyadRangeCacheEnsure ctx offset length
  else pure .ok

/-- How far the preparation of a read got. -/
inductive Prepared
  | absent
  | unopened
  | unlocked (fd : Nat)
  | locked (fd : Nat)

/-- The range is made present, the file opened and locked. -/
def rangePrepare (ctx : Ctx) (offset length : UInt64) : Program Prepared := do
  let rc ← rangeEnsured ctx offset length
  if rc.isError then
    return .absent
  else
    match ← sys (.open .data false false) with
    | .error _ => return .unopened
    | .ok fd =>
      let rc ← dyadSharedFlock fd
      if rc.isError then
        return .unlocked fd
      else
        return .locked fd

/-- The rest of the synchronous path. -/
def syncRest (offset length : UInt64) : Prepared → Program Unit
  | .absent => fetchErrorWith Errno.EIO
  | .unopened => fetchErrorWoFlock
  | .unlocked fd => fetchError fd
  | .locked fd => do
    let fileSize ← getFileSize fd
    rangeClamped fd offset (clampRange offset length fileSize)

theorem rangeSync_eq (cfg : RangeConfig) (offset length : UInt64) :
    rangeSync cfg offset length =
      (rangePrepare cfg.ctx offset length).bind (syncRest offset length) := by
  have hrest : ∀ rc : Rc,
      (if rc.isError then fetchErrorWith Errno.EIO
        else do
          match ← sys (.open .data false false) with
          | .error _ => fetchErrorWoFlock
          | .ok fd => rangeOpened fd offset length) =
      Prog.bind (if rc.isError then (return .absent : Program Prepared)
        else do
          match ← sys (.open .data false false) with
          | .error _ => return .unopened
          | .ok fd =>
            let rc ← dyadSharedFlock fd
            if rc.isError then
              return .unlocked fd
            else
              return .locked fd) (syncRest offset length) := by
    intro rc
    split
    · rfl
    · refine congrArg (Prog.call _) (funext fun r => ?_)
      cases r with
      | error e => rfl
      | ok fd =>
        refine congrArg (Prog.call _) (funext fun r => ?_)
        cases r <;> rfl
  unfold rangeSync rangePrepare rangeEnsured
  dsimp only
  split
  · show (dyadRangeCacheEnsure cfg.ctx offset length).bind _ =
      ((dyadRangeCacheEnsure cfg.ctx offset length).bind _).bind _
    rw [Prog.bind_assoc]
    exact congrArg _ (funext hrest)
  · exact hrest .ok

/-- What the worker does with a file of `fileSize` bytes. -/
def workerRead (item : WorkItem) (fd fileSize : Nat) : Program WorkItem := do
  let rangeLen := clampRange item.offset item.length fileSize
  match ← rangeReadLoop fd item.offset rangeLen.toNat rangeLen.toNat
      Bytes.empty with
  | none =>
    let errno ← perform .errno
    let _ ← dyadReleaseFlock fd
    let _ ← sys (.close fd)
    workerError item (if errno ≠ 0 then errno else Errno.EIO)
  | some content =>
    let _ ← dyadReleaseFlock fd
    let _ ← sys (.close fd)
    dyadFetchWorkerFinish { item with rc := .ok, rangeLen, content }

/-- The rest of the worker's path. -/
def workerRest (item : WorkItem) : Prepared → Program WorkItem
  | .absent => workerError item Errno.EIO
  | .unopened => do
    let savedErrno ← perform .errno
    workerError item savedErrno
  | .unlocked fd => do
    let savedErrno ← perform .errno
    let _ ← sys (.close fd)
    workerError item savedErrno
  | .locked fd => do
    let fileSize ← getFileSize fd
    workerRead item fd fileSize

theorem dyadFetchWorkerProcess_eq (ctx : Ctx) (item : WorkItem)
    (h : item.hasOrigin = ctx.originPath) :
    dyadFetchWorkerProcess ctx item =
      (rangePrepare ctx item.offset item.length).bind (workerRest item) := by
  have hrest : ∀ rc : Rc,
      (if rc.isError then workerError item Errno.EIO
        else do
          match ← sys (.open .data false false) with
          | .error _ =>
            let savedErrno ← perform .errno
            workerError item savedErrno
          | .ok fd => workerOpened item fd) =
      Prog.bind (if rc.isError then (return .absent : Program Prepared)
        else do
          match ← sys (.open .data false false) with
          | .error _ => return .unopened
          | .ok fd =>
            let rc ← dyadSharedFlock fd
            if rc.isError then
              return .unlocked fd
            else
              return .locked fd) (workerRest item) := by
    intro rc
    split
    · rfl
    · refine congrArg (Prog.call _) (funext fun r => ?_)
      cases r with
      | error e => rfl
      | ok fd =>
        refine congrArg (Prog.call _) (funext fun r => ?_)
        cases r <;> rfl
  unfold dyadFetchWorkerProcess rangePrepare rangeEnsured
  rw [h]
  dsimp only
  split
  · show (dyadRangeCacheEnsure ctx item.offset item.length).bind _ =
      ((dyadRangeCacheEnsure ctx item.offset item.length).bind _).bind _
    rw [Prog.bind_assoc]
    exact congrArg _ (funext hrest)
  · exact hrest .ok

/-! ## Calls that say nothing -/

/-- The calls that answer neither the request nor its transport: the
environment goes by the files alone, and nothing is observed of them. -/
def Call.silent : Call → Bool
  | .sys _ => true
  | .setErrno e => e ≠ Errno.ENODATA
  | _ => false

/-- Calls of that kind with what they answered. -/
def SilentTrace (tr : ServiceHistory) : Prop :=
  ∀ e ∈ tr, e.1.silent = true ∧ failedWith e ≠ some Errno.ENODATA

/-- A silent program, where the model may also meet undefined behaviour. -/
abbrev Silent {α : Type} (p : Program α) : Prop :=
  p.All fun c => c.silent = true

variable (env : RangeEnv) (offset length : UInt64) {α : Type}

theorem SilentTrace.append {tr tr' : ServiceHistory} (h : SilentTrace tr)
    (h' : SilentTrace tr') : SilentTrace (tr ++ tr') := fun e he =>
  (List.mem_append.1 he).elim (h e) (h' e)

theorem observed_silent {tr h : ServiceHistory} (htr : SilentTrace tr) :
    observed (tr ++ h) = observed h := by
  have hnone : tr.filterMap handedOver = [] ∧ tr.filterMap terminal = [] := by
    constructor <;> refine List.filterMap_eq_nil_iff.2 fun e he => ?_
    · obtain ⟨c, r⟩ := e
      have := (htr _ he).1
      cases c <;> first | rfl | exact absurd this (by simp [Call.silent])
    · obtain ⟨c, r⟩ := e
      have := (htr _ he).1
      cases c <;> first | rfl | exact absurd this (by simp [Call.silent])
  simp only [observed, List.filterMap_append, hnone.1, hnone.2,
    List.nil_append]

theorem pinned_sys (c : Sys Name Byte) (r : c.Res) (h : ServiceHistory) :
    pinned (⟨.sys c, r⟩ :: h) = (sysErrno c r).or (pinned h) := by
  rw [Request.pinned_of_plain rfl]
  rfl

/-- The last errno that was set is one the silent calls set, where they did. -/
theorem pinned_silent {tr h : ServiceHistory} (htr : SilentTrace tr) :
    pinned (tr ++ h) = (pinned tr).or (pinned h) := by
  induction tr with
  | nil => rfl
  | cons e tr ih =>
    have ih := ih fun e he => htr e (List.mem_cons_of_mem _ he)
    have hsilent := (htr e (List.mem_cons_self ..)).1
    obtain ⟨c, r⟩ := e
    cases c with
    | setErrno e => rfl
    | sys c =>
      rw [List.cons_append, pinned_sys, pinned_sys, ih, Option.or_assoc]
    | _ => exact absurd hsilent (by simp [Call.silent])

theorem pinned_ne {tr : ServiceHistory} (htr : SilentTrace tr) :
    pinned tr ≠ some Errno.ENODATA := by
  induction tr with
  | nil => exact fun h => nomatch h
  | cons e tr ih =>
    have ih := ih fun e he => htr e (List.mem_cons_of_mem _ he)
    obtain ⟨hsilent, hfailed⟩ := htr e (List.mem_cons_self ..)
    obtain ⟨c, r⟩ := e
    cases c with
    | setErrno e =>
      intro heq
      exact of_decide_eq_true hsilent (Option.some.inj heq)
    | sys c =>
      rw [pinned_sys]
      change sysErrno c r ≠ _ at hfailed
      cases hsys : sysErrno c r with
      | some e => rwa [hsys] at hfailed
      | none => exact ih
    | _ => exact absurd hsilent (by simp [Call.silent])

theorem detached_silent {tr h : ServiceHistory} (htr : SilentTrace tr) :
    detached (tr ++ h) = detached h := by
  induction tr with
  | nil => rfl
  | cons e tr ih =>
    have ih := ih fun e he => htr e (List.mem_cons_of_mem _ he)
    have hsilent := (htr e (List.mem_cons_self ..)).1
    obtain ⟨c, r⟩ := e
    cases c <;> first | exact ih | exact absurd hsilent (by simp [Call.silent])

theorem filesSeen_append (tr h : ServiceHistory) :
    filesSeen (tr ++ h) = filesSeen tr ++ filesSeen h :=
  List.filter_append tr h

theorem filesSeen_cons {h h' : ServiceHistory}
    (heq : filesSeen h = filesSeen h') (e : Prog.Event Call.Res) :
    filesSeen (e :: h) = filesSeen (e :: h') := by
  show filesSeen ([e] ++ h) = filesSeen ([e] ++ h')
  rw [filesSeen_append, filesSeen_append, heq]

/-- A silent call is answered, and alike after alike histories. -/
theorem answer_silent {h h' : ServiceHistory} (heq : filesSeen h = filesSeen h')
    {c : Call} (hc : c.silent = true) :
    ∃ r, env.answer offset length h c = some r ∧
      env.answer offset length h' c = some r ∧
      failedWith ⟨c, r⟩ ≠ some Errno.ENODATA := by
  cases c with
  | sys c =>
    cases c with
    | malloc size =>
      refine ⟨env.alloc size, rfl, rfl, ?_⟩
      cases env.alloc size <;> exact fun h => nomatch h
    | mutexLock => exact ⟨(), rfl, rfl, fun h => nomatch h⟩
    | mutexUnlock => exact ⟨(), rfl, rfl, fun h => nomatch h⟩
    | _ => exact ⟨_, rfl, by rw [heq]; rfl, env.failed_ne _ _⟩
  | setErrno e => exact ⟨_, rfl, rfl, fun h => nomatch h⟩
  | _ => exact absurd hc (by simp [Call.silent])

/-- A silent program does the same after histories that look alike. -/
theorem eval_silent {p : Program α} (hp : Silent p) {h h' : ServiceHistory}
    (heq : filesSeen h = filesSeen h') :
    ∃ tr a, SilentTrace tr ∧
      p.eval (env.answer offset length) h = some (tr ++ h, a) ∧
      p.eval (env.answer offset length) h' = some (tr ++ h', a) := by
  induction p generalizing h h' with
  | pure a => exact ⟨[], a, fun _ he => absurd he List.not_mem_nil, rfl, rfl⟩
  | call c k ih =>
    obtain ⟨r, hr, hr', hfailed⟩ := answer_silent env offset length heq hp.1
    obtain ⟨tr, a, htr, hev, hev'⟩ := ih r (hp.2 r) (filesSeen_cons heq _)
    refine ⟨tr ++ [⟨c, r⟩], a, htr.append fun e he => ?_, ?_, ?_⟩
    · obtain rfl := List.mem_singleton.1 he
      exact ⟨hp.1, hfailed⟩
    · rw [Prog.eval_call hr, hev, List.append_assoc]
      rfl
    · rw [Prog.eval_call hr', hev', List.append_assoc]
      rfl

/-- The preparation ends the same after histories that look alike: in
undefined behaviour, or with the same calls. -/
theorem eval_filesOnly {p : Program α} (hp : Request.FilesOnly p)
    {h h' : ServiceHistory} (heq : filesSeen h = filesSeen h') :
    (p.eval (env.answer offset length) h = none ∧
      p.eval (env.answer offset length) h' = none) ∨
    ∃ tr a, SilentTrace tr ∧
      p.eval (env.answer offset length) h = some (tr ++ h, a) ∧
      p.eval (env.answer offset length) h' = some (tr ++ h', a) := by
  induction p generalizing h h' with
  | pure a =>
    exact Or.inr ⟨[], a, fun _ he => absurd he List.not_mem_nil, rfl, rfl⟩
  | call c k ih =>
    cases c with
    | ub => exact Or.inl ⟨rfl, rfl⟩
    | sys c =>
      obtain ⟨r, hr, hr', hfailed⟩ := @answer_silent env offset length _ _ heq
        (.sys c) rfl
      rw [Prog.eval_call hr, Prog.eval_call hr']
      obtain hnone | ⟨tr, a, htr, hev, hev'⟩ := ih r (hp.2 r) (filesSeen_cons heq _)
      · exact Or.inl hnone
      · refine Or.inr ⟨tr ++ [⟨.sys c, r⟩], a, htr.append fun e he => ?_, ?_, ?_⟩
        · obtain rfl := List.mem_singleton.1 he
          exact ⟨rfl, hfailed⟩
        · rw [hev, List.append_assoc]
          rfl
        · rw [hev', List.append_assoc]
          rfl
    | _ => exact absurd hp.1 (by simp [Call.ofFile])

theorem rangePrepare_filesOnly (ctx : Ctx) (offset length : UInt64) :
    Request.FilesOnly (rangePrepare ctx offset length) := by
  unfold rangePrepare
  have hens : Request.FilesOnly (rangeEnsured ctx offset length) := by
    unfold rangeEnsured
    split
    · exact Request.dyadRangeCacheEnsure_filesOnly ctx offset length
    · exact True.intro
  refine hens.bind fun rc => ?_
  split
  · exact True.intro
  · refine Request.sys_filesOnly fun r => ?_
    cases r with
    | error e => exact True.intro
    | ok fd =>
      refine (Request.dyadSharedFlock_filesOnly fd).bind fun rc => ?_
      split <;> exact True.intro

/-! ## The reads -/

attribute [local irreducible] toSsize clampRange

theorem toNat_addOfNat {x : UInt64} {k : Nat} (h : x.toNat + k < 2 ^ 63) :
    (x + UInt64.ofNat k).toNat = x.toNat + k := by
  rw [UInt64.toNat_add, UInt64.toNat_ofNat']
  generalize x.toNat = n at h ⊢
  omega

theorem preadAt_silent (fd : Nat) (off : UInt64) (len : Nat) :
    Silent (preadAt fd off len) := by
  unfold preadAt
  split
  · exact .step rfl fun _ => True.intro
  · exact .step rfl fun r => by cases r <;> exact True.intro

theorem rangeReadLoop_silent (fd : Nat) (offset : UInt64)
    (rangeLen fuel : Nat) (content : Bytes Byte) :
    Silent (rangeReadLoop fd offset rangeLen fuel content) := by
  induction fuel generalizing content with
  | zero => exact True.intro
  | succ fuel ih =>
    rw [rangeReadLoop]
    split
    · refine .bind (preadAt_silent fd _ _) fun r => ?_
      cases r with
      | none => exact True.intro
      | some d =>
        dsimp only
        split
        · exact True.intro
        · exact ih _
    · exact True.intro

theorem rangeRead_silent (fd : Nat) (offset : UInt64) (rangeLen : Int) :
    Silent (rangeRead fd offset rangeLen) := by
  unfold rangeRead
  split
  · split
    · exact preadAt_silent fd offset _
    · exact rangeReadLoop_silent fd offset _ _ _
  · exact True.intro

/-- A read before the file's first byte fails. -/
theorem preadAt_negative {fd : Nat} {off : UInt64} {len : Nat}
    (hneg : toSsize off < 0) {h : ServiceHistory} :
    ∃ h', (preadAt fd off len).eval (env.answer offset length) h =
      some (h', none) := by
  rw [preadAt, if_pos hneg]
  exact ⟨_, rfl⟩

/-- A read of a file whose size was just seen. -/
theorem preadAt_sized {fd : Nat} {off : UInt64} {len size : Nat}
    {h : ServiceHistory} (hneg : ¬ toSsize off < 0) (hlen : 0 < len)
    (hsize : sizedAt fd (filesSeen h) = some size) :
    ∃ d h', env.file (filesSeen h) (.pread fd off.toNat len) = .ok d ∧
      (preadAt fd off len).eval (env.answer offset length) h =
        some (h', some d) ∧
      sizedAt fd (filesSeen h') = some size ∧ d.size ≤ len ∧
      d.size ≤ size - off.toNat ∧ (off.toNat < size → 0 < d.size) := by
  obtain ⟨d, hd, hle, hrest, hpos⟩ :=
    env.pread _ fd off.toNat len size hsize hlen
  refine ⟨d, ⟨.sys (.pread fd off.toNat len), .ok d⟩ :: h, hd, ?_, ?_, hle,
    hrest, hpos⟩
  · rw [preadAt, if_neg hneg]
    have hans : env.answer offset length h (.sys (.pread fd off.toNat len)) =
        some (.ok d) := congrArg some hd
    exact Prog.eval_step hans
  · show sizedAt fd (⟨.sys (.pread fd off.toNat len), .ok d⟩ :: filesSeen h) = _
    rw [sizedAt, if_pos rfl]
    exact hsize

section Loop

variable {fd size len : Nat} {off : UInt64} {h : ServiceHistory}

/-- A turn of the loop inside the file reads something, which ends it or leaves
less to read. -/
theorem readLoop_turn {content : Bytes Byte} {fuel : Nat}
    (hmore : content.size < len) (hin : off.toNat + content.size ≤ size)
    (hs : size < 2 ^ 63) (hsize : sizedAt fd (filesSeen h) = some size) :
    ∃ d h', sizedAt fd (filesSeen h') = some size ∧
      content.size + d.size ≤ len ∧
      d.size ≤ size - (off.toNat + content.size) ∧
      (off.toNat + content.size < size → 0 < d.size) ∧
      (rangeReadLoop fd off len (fuel + 1) content).eval
          (env.answer offset length) h =
        (if d.size = 0 then Prog.pure none
          else rangeReadLoop fd off len fuel (content.append d)).eval
          (env.answer offset length) h' := by
  have hoff : (off + UInt64.ofNat content.size).toNat =
      off.toNat + content.size := toNat_addOfNat (by omega)
  have hneg : ¬ toSsize (off + UInt64.ofNat content.size) < 0 := by
    rw [toSsize_of_lt (by omega)]
    omega
  have hlen : 0 < min (len - content.size) transferGranularity :=
    Nat.lt_min.2 ⟨by omega, by decide⟩
  obtain ⟨d, h', -, hev, hsize', hle, hrest, hpos⟩ :=
    preadAt_sized env offset length hneg hlen hsize
  rw [hoff] at hrest hpos
  refine ⟨d, h', hsize', by omega, hrest, hpos, ?_⟩
  rw [rangeReadLoop, if_pos hmore]
  exact Prog.eval_seq hev

/-- A range inside the file is read to its end. -/
theorem readLoop_reads (hs : size < 2 ^ 63) (hin : off.toNat + len ≤ size)
    {fuel : Nat} {content : Bytes Byte} (hc : content.size ≤ len)
    (hfuel : len ≤ content.size + fuel)
    (hsize : sizedAt fd (filesSeen h) = some size) :
    ∃ data h', (rangeReadLoop fd off len fuel content).eval
      (env.answer offset length) h = some (h', some data) ∧
      data.size = len := by
  induction fuel generalizing content h with
  | zero => exact ⟨content, h, rfl, by omega⟩
  | succ fuel ih =>
    by_cases hmore : content.size < len
    · obtain ⟨d, h', hsize', hle, -, hpos, hev⟩ := @readLoop_turn env offset length
        fd size len off h content fuel hmore (by omega) hs hsize
      have hd : 0 < d.size := hpos (by omega)
      rw [hev, if_neg (by omega)]
      have happ := Bytes.size_append content d
      exact ih (by omega) (by omega) hsize'
    · refine ⟨content, h, ?_, by omega⟩
      rw [rangeReadLoop, if_neg hmore]
      rfl

/-- A range past the end of the file is not. -/
theorem readLoop_stuck (hs : size < 2 ^ 63) (hout : size < off.toNat + len)
    {fuel : Nat} {content : Bytes Byte}
    (hc : off.toNat + content.size ≤ size) (hfuel : len ≤ content.size + fuel)
    (hsize : sizedAt fd (filesSeen h) = some size) :
    ∃ h', (rangeReadLoop fd off len fuel content).eval
      (env.answer offset length) h = some (h', none) := by
  induction fuel generalizing content h with
  | zero => omega
  | succ fuel ih =>
    obtain ⟨d, h', hsize', hle, hrest, -, hev⟩ := @readLoop_turn env offset length
      fd size len off h content fuel (by omega) hc hs hsize
    rw [hev]
    split
    · exact ⟨_, rfl⟩
    · have happ := Bytes.size_append content d
      exact ih (by omega) (by omega) hsize'

/-- A range before the file is not read either. -/
theorem readLoop_negative (hneg : toSsize off < 0) (hlen : 0 < len) :
    ∃ h', (rangeReadLoop fd off len len Bytes.empty).eval
      (env.answer offset length) h = some (h', none) := by
  obtain ⟨fuel, rfl⟩ := Nat.exists_eq_succ_of_ne_zero (Nat.ne_of_gt hlen)
  have hempty : (Bytes.empty : Bytes Byte).size = 0 := rfl
  have hoff : off + UInt64.ofNat 0 = off := by simp
  obtain ⟨h', hev⟩ := @preadAt_negative env offset length fd off
    (min (fuel + 1 - 0) transferGranularity) hneg h
  refine ⟨h', ?_⟩
  rw [rangeReadLoop, hempty, if_pos hlen, hoff]
  exact Prog.eval_seq hev

end Loop

/-! ## The two reads -/

/-- There is nothing to read, or the range lies in the file. -/
def InFile (offset : UInt64) (rangeLen : Int) (size : Nat) : Prop :=
  rangeLen ≤ 0 ∨ (0 ≤ toSsize offset ∧ toSsize offset + rangeLen ≤ size)

/-- A range that the synchronous path reads with one call comes in one
piece. -/
def RangeEnv.ReadWhole (h : ServiceHistory) (fd : Nat) (offset : UInt64)
    (rangeLen : Int) : Prop :=
  0 < rangeLen → rangeLen < transferGranularity → ∀ d,
    env.file (filesSeen h) (.pread fd offset.toNat rangeLen.toNat) = .ok d →
    d.size = rangeLen.toNat

section Reads

variable {fd size : Nat} {off len : UInt64} {h h' : ServiceHistory}

theorem clampRange_pos (hpos : 0 < clampRange off len size) :
    toSsize off < size := by
  rw [clampRange] at hpos
  split at hpos
  · omega
  · omega

/-- What is known of the file once its size has been asked for. -/
structure SizeKnown (fd size : Nat) (h : ServiceHistory) : Prop where
  lt : size < 2 ^ 63
  seen : size = 0 ∨ sizedAt fd (filesSeen h) = some size

theorem SizeKnown.sized (hk : SizeKnown fd size h) (hneg : ¬ toSsize off < 0)
    (hpos : 0 < clampRange off len size) :
    sizedAt fd (filesSeen h) = some size := by
  have := clampRange_pos hpos
  rcases hk.seen with rfl | hsize
  · omega
  · exact hsize

/-- The worker's loop reads a range that lies in the file. -/
theorem worker_reads (hk : SizeKnown fd size h)
    (hin : InFile off (clampRange off len size) size) :
    ∃ data h', (rangeReadLoop fd off (clampRange off len size).toNat
        (clampRange off len size).toNat Bytes.empty).eval
        (env.answer offset length) h = some (h', some data) := by
  by_cases hpos : 0 < clampRange off len size
  · obtain hle | ⟨hneg, hend⟩ := hin
    · omega
    have hneg' : ¬ toSsize off < 0 := by omega
    have hoff := toSsize_of_lt (lt_of_toSsize hneg')
    have hempty : (Bytes.empty : Bytes Byte).size = 0 := rfl
    obtain ⟨data, h', hev, -⟩ := @readLoop_reads env offset length fd size
      (clampRange off len size).toNat off h hk.lt (by omega)
      (clampRange off len size).toNat Bytes.empty (by omega) (by omega)
      (hk.sized hneg' hpos)
    exact ⟨data, h', hev⟩
  · rw [Int.toNat_eq_zero.2 (by omega)]
    exact ⟨_, _, rfl⟩

/-- It does not get to the end of one that does not. -/
theorem worker_fails (hk : SizeKnown fd size h)
    (hout : ¬ InFile off (clampRange off len size) size) :
    ∃ h', (rangeReadLoop fd off (clampRange off len size).toNat
        (clampRange off len size).toNat Bytes.empty).eval
        (env.answer offset length) h = some (h', none) := by
  have hpos : 0 < clampRange off len size := by
    by_contra hle
    exact hout (Or.inl (by omega))
  by_cases hneg : toSsize off < 0
  · exact readLoop_negative env offset length hneg (by omega)
  · have hoff := toSsize_of_lt (lt_of_toSsize hneg)
    have hlt := clampRange_pos hpos
    have hempty : (Bytes.empty : Bytes Byte).size = 0 := rfl
    have hpast : (size : Int) < toSsize off + clampRange off len size := by
      by_contra hle
      exact hout (Or.inr ⟨by omega, by omega⟩)
    exact @readLoop_stuck env offset length fd size
      (clampRange off len size).toNat off h hk.lt (by omega)
      (clampRange off len size).toNat Bytes.empty (by omega) (by omega)
      (hk.sized hneg hpos)

theorem readLoop_done {n fuel : Nat} {content : Bytes Byte}
    (hc : ¬ content.size < n) :
    (rangeReadLoop fd off n fuel content).eval (env.answer offset length) h =
      some (h, some content) := by
  cases fuel with
  | zero => rfl
  | succ fuel =>
    rw [rangeReadLoop, if_neg hc]
    rfl

/-- A loop whose first read is all there is to read. -/
theorem readLoop_once {n : Nat} {d : Bytes Byte} {g : ServiceHistory}
    (hn : 0 < n) (hle : n ≤ transferGranularity) (hd : d.size = n)
    (hev : (preadAt fd off n).eval (env.answer offset length) h =
      some (g, some d)) :
    (rangeReadLoop fd off n n Bytes.empty).eval (env.answer offset length) h =
      some (g, some d) := by
  obtain ⟨fuel, rfl⟩ := Nat.exists_eq_succ_of_ne_zero (Nat.ne_of_gt hn)
  have hempty : (Bytes.empty : Bytes Byte).size = 0 := rfl
  have hoff : off + UInt64.ofNat 0 = off := by simp
  rw [rangeReadLoop, hempty, if_pos hn, hoff, Nat.sub_zero,
    Nat.min_eq_left hle]
  refine (Prog.eval_seq hev).trans ?_
  dsimp only
  rw [if_neg (by omega), Request.empty_append]
  exact readLoop_done env offset length (by omega)

/-- Where the one call of the synchronous path is not cut short, both read the
same. -/
theorem reads_agree (hseen : filesSeen h = filesSeen h')
    (hk : SizeKnown fd size h')
    (hin : InFile off (clampRange off len size) size)
    (hwhole : env.ReadWhole h' fd off (clampRange off len size)) :
    ∃ data g g', (rangeReadLoop fd off (clampRange off len size).toNat
        (clampRange off len size).toNat Bytes.empty).eval
        (env.answer offset length) h = some (g, some data) ∧
      (rangeRead fd off (clampRange off len size)).eval
        (env.answer offset length) h' = some (g', some data) ∧
      ¬ (clampRange off len size > 0 ∧
        (data.size : Int) ≠ clampRange off len size) := by
  rw [rangeRead]
  split
  · next hpos =>
    obtain hle | ⟨hneg, hend⟩ := hin
    · omega
    have hneg' : ¬ toSsize off < 0 := by omega
    have hsize := hk.sized hneg' hpos
    split
    · next hlt =>
      obtain ⟨d, g', hd, hev', -⟩ := @preadAt_sized env offset length fd off
        (clampRange off len size).toNat size h' hneg' (by omega) hsize
      have hfull := hwhole hpos hlt d hd
      -- the first read of the loop is the one read of the other path
      obtain ⟨tr, a, -, hev₁, hev₂⟩ := eval_silent env offset length
        (preadAt_silent fd off (clampRange off len size).toNat) hseen
      obtain ⟨-, rfl⟩ := Prod.mk.inj (Option.some.inj (hev₂.symm.trans hev'))
      exact ⟨d, _, g', readLoop_once env offset length (by omega)
        (by omega) hfull hev₁, hev', by omega⟩
    · -- from a gibibyte on, both run the same loop
      obtain ⟨tr, a, -, hev₁, hev₂⟩ := eval_silent env offset length
        (rangeReadLoop_silent fd off (clampRange off len size).toNat
          (clampRange off len size).toNat Bytes.empty) hseen
      have hoff := toSsize_of_lt (lt_of_toSsize hneg')
      have hempty : (Bytes.empty : Bytes Byte).size = 0 := rfl
      obtain ⟨data, g, hev, hdata⟩ := @readLoop_reads env offset length fd size
        (clampRange off len size).toNat off h' hk.lt (by omega)
        (clampRange off len size).toNat Bytes.empty (by omega) (by omega) hsize
      obtain ⟨-, rfl⟩ := Prod.mk.inj (Option.some.inj (hev₂.symm.trans hev))
      exact ⟨data, _, g, hev₁, hev, by omega⟩
  · next hle =>
    rw [Int.toNat_eq_zero.2 (by omega)]
    exact ⟨_, _, _, rfl, rfl, fun h => hle h.1⟩

/-- Otherwise the synchronous path has nothing it would send. -/
theorem sync_fails (hk : SizeKnown fd size h)
    (hout : ¬ (InFile off (clampRange off len size) size ∧
      env.ReadWhole h fd off (clampRange off len size))) :
    ∃ g r, (rangeRead fd off (clampRange off len size)).eval
        (env.answer offset length) h = some (g, r) ∧
      ∀ c, r = some c → clampRange off len size > 0 ∧
        (c.size : Int) ≠ clampRange off len size := by
  have hpos : clampRange off len size > 0 := by
    by_contra hle
    exact hout ⟨Or.inl (by omega), fun h => absurd h (by omega)⟩
  rw [rangeRead, if_pos hpos]
  split
  · next hlt =>
    by_cases hneg : toSsize off < 0
    · obtain ⟨g, hev⟩ := @preadAt_negative env offset length fd off
        (clampRange off len size).toNat hneg h
      exact ⟨g, none, hev, by simp⟩
    · have hsize := hk.sized hneg hpos
      have hoff := toSsize_of_lt (lt_of_toSsize hneg)
      obtain ⟨d, g, hd, hev, -, hle, hrest, -⟩ := @preadAt_sized env offset
        length fd off (clampRange off len size).toNat size h hneg (by omega)
        hsize
      refine ⟨g, some d, hev, fun c hc => ⟨hpos, fun hfull => ?_⟩⟩
      obtain rfl := Option.some.inj hc
      refine hout ⟨Or.inr ⟨by omega, by omega⟩, fun _ _ d' hd' => ?_⟩
      obtain rfl := Except.ok.inj (hd.symm.trans hd')
      omega
  · next hge =>
    obtain ⟨g, hev⟩ := worker_fails env offset length hk fun hin =>
      hout ⟨hin, fun _ hlt => absurd hlt hge⟩
    exact ⟨g, none, hev, by simp⟩

end Reads

/-! ## How a request ends -/

/-- `p`, run after `h`, leaves a history of which `o` is observed. -/
def Ends (p : Program α) (h : ServiceHistory)
    (o : List (Bytes Byte) × List Bool) : Prop :=
  ∃ h' a, p.eval (env.answer offset length) h = some (h', a) ∧ observed h' = o

/-- Nothing was sent, and the stream was ended, with `ENODATA` or an error. -/
def unserved (ended : Bool) : List (Bytes Byte) × List Bool := ([], [ended])

/-- Nothing was sent, and the stream was ended with an error. -/
abbrev failed : List (Bytes Byte) × List Bool := unserved false

/-- The payload was sent, and the stream was ended. -/
def served (payload : Bytes Byte) : List (Bytes Byte) × List Bool :=
  ([payload], [true])

/-- Nothing has been sent or answered yet. -/
abbrev Unanswered (h : ServiceHistory) : Prop := observed h = ([], [])

/-- The way out of the synchronous path with a file that is open. -/
def closing (fd : Nat) : Program Unit := do
  let _ ← sys (.unlock fd)
  let _ ← sys (.close fd)

/-- All that the synchronous path does to the files once it has a buffer, when
it does not serve the range. -/
def syncExit (fd : Nat) (offset : UInt64) (rangeLen : Int) : Program Unit := do
  let _ ← rangeRead fd offset rangeLen
  closing fd

/-- After `p` errno is as the thread had it: nothing that was done failed. -/
def RangeEnv.Unset (env : RangeEnv) (offset length : UInt64) (p : Program α)
    (h : ServiceHistory) : Prop :=
  ∃ h' a, p.eval (env.answer offset length) h = some (h', a) ∧
    pinned h' = none

/-- The synchronous path would end a range it does not serve with `ENODATA`: it
has its buffer, nothing that it did failed, and that is what errno was. -/
def RangeEnv.SyncStale (env : RangeEnv) (offset length : UInt64)
    (h : ServiceHistory) (fd : Nat) (off : UInt64) (rangeLen : Int) : Prop :=
  env.alloc (rangeLen % 2 ^ 64).toNat = true ∧
    env.errno false = Errno.ENODATA ∧
    env.Unset offset length (syncExit fd off rangeLen) h

/-- What the pool needs. -/
def PoolServes (env : RangeEnv) (length : UInt64) : Prop :=
  env.alloc workItemSize = true ∧ env.alloc env.detachSize = true ∧
    env.alloc length.toNat = true

/-- The pool would, on the worker's errno. -/
def RangeEnv.PoolStale (env : RangeEnv) (offset length : UInt64)
    (h : ServiceHistory) (fd : Nat) (off : UInt64) (rangeLen : Int) : Prop :=
  PoolServes env length ∧ env.errno true = Errno.ENODATA ∧
    env.Unset offset length
      (rangeReadLoop fd off rangeLen.toNat rangeLen.toNat Bytes.empty) h

theorem unset_congr {p : Program α} (hp : Silent p) {h h' : ServiceHistory}
    (heq : filesSeen h = filesSeen h') (hpin : pinned h = pinned h') :
    env.Unset offset length p h ↔ env.Unset offset length p h' := by
  obtain ⟨tr, a, htr, hev, hev'⟩ := eval_silent env offset length hp heq
  rw [RangeEnv.Unset, RangeEnv.Unset, hev, hev']
  have hsame : pinned (tr ++ h) = pinned (tr ++ h') := by
    rw [pinned_silent htr, pinned_silent htr, hpin]
  constructor
  · rintro ⟨g, b, heq, hnone⟩
    obtain ⟨rfl, rfl⟩ := Prod.mk.inj (Option.some.inj heq)
    exact ⟨_, _, rfl, hsame.symm.trans hnone⟩
  · rintro ⟨g, b, heq, hnone⟩
    obtain ⟨rfl, rfl⟩ := Prod.mk.inj (Option.some.inj heq)
    exact ⟨_, _, rfl, hsame.trans hnone⟩

/-- Silent calls leave `ENODATA` only where they leave errno alone. -/
theorem errnoAfter_silent {p : Program α} (hp : Silent p)
    {h g : ServiceHistory} {a : α}
    (hev : p.eval (env.answer offset length) h = some (g, a))
    (hpin : pinned h ≠ some Errno.ENODATA) :
    env.errnoAfter g = Errno.ENODATA ↔
      env.errno (detached h) = Errno.ENODATA ∧ env.Unset offset length p h := by
  obtain ⟨tr, a', htr, hev', -⟩ := eval_silent env offset length hp
    (rfl : filesSeen h = filesSeen h)
  obtain ⟨rfl, rfl⟩ := Prod.mk.inj (Option.some.inj (hev.symm.trans hev'))
  have hunset : env.Unset offset length p h ↔ pinned (tr ++ h) = none := by
    rw [RangeEnv.Unset, hev]
    constructor
    · rintro ⟨g, b, heq, hnone⟩
      obtain ⟨rfl, -⟩ := Prod.mk.inj (Option.some.inj heq)
      exact hnone
    · exact fun hnone => ⟨_, _, rfl, hnone⟩
  rw [hunset, RangeEnv.errnoAfter, detached_silent htr]
  cases hp : pinned (tr ++ h) with
  | none => exact (and_iff_left rfl).symm
  | some e =>
    refine iff_of_false (fun he => ?_) fun hno => nomatch hno.2
    obtain rfl : e = Errno.ENODATA := he
    rw [pinned_silent htr, Option.or_eq_some_iff] at hp
    exact hp.elim (pinned_ne htr) fun h => hpin h.2

section Tails

variable {h : ServiceHistory} {β : Type} {o : List (Bytes Byte) × List Bool}

theorem Ends.step {c : Call} {f : c.Res → Program α} {r : c.Res}
    (hr : env.answer offset length h c = some r)
    (hf : Ends env offset length (f r) (⟨c, r⟩ :: h) o) :
    Ends env offset length ((Prog.perform c).bind f) h o := by
  obtain ⟨h', a, hev, ho⟩ := hf
  exact ⟨h', a, (Prog.eval_step hr).trans hev, ho⟩

theorem Ends.seq {p : Program β} {f : β → Program α} {h' : ServiceHistory}
    {b : β} (hp : p.eval (env.answer offset length) h = some (h', b))
    (hf : Ends env offset length (f b) h' o) :
    Ends env offset length (p.bind f) h o := by
  obtain ⟨g, a, hev, ho⟩ := hf
  exact ⟨g, a, (Prog.eval_seq hp).trans hev, ho⟩

theorem observed_eval {p : Program β} (hp : Silent p) {h' : ServiceHistory}
    {b : β} (hev : p.eval (env.answer offset length) h = some (h', b)) :
    observed h' = observed h := by
  obtain ⟨tr, a, htr, hev', -⟩ := eval_silent env offset length hp
    (rfl : filesSeen h = filesSeen h)
  obtain ⟨rfl, -⟩ := Prod.mk.inj (Option.some.inj (hev.symm.trans hev'))
  exact observed_silent htr

/-- What is done in silence does not show. -/
theorem Ends.skip {p : Program β} {f : β → Program α} (hp : Silent p)
    (hf : ∀ h' b, observed h' = observed h →
      Ends env offset length (f b) h' o) :
    Ends env offset length (p.bind f) h o := by
  obtain ⟨tr, b, htr, hev, -⟩ := eval_silent env offset length hp
    (rfl : filesSeen h = filesSeen h)
  exact Ends.seq env offset length hev (hf _ b (observed_silent htr))

theorem release_silent (fd : Nat) : Silent (dyadReleaseFlock fd) :=
  .step rfl fun r => by cases r <;> exact True.intro

theorem sys_silent (c : Sys Name Byte) : Silent (sys c) :=
  .step rfl fun _ => True.intro

theorem respond_ends (h₀ : Unanswered h) (e : Errno) :
    Ends env offset length (perform (.respondError e)) h
      (unserved (e == Errno.ENODATA)) := by
  refine ⟨_, _, rfl, ?_⟩
  show ((observed h).1, (e == Errno.ENODATA) :: (observed h).2) = _
  rw [h₀]
  rfl

theorem respond_fails (h₀ : Unanswered h) {e : Errno} (he : e ≠ Errno.ENODATA) :
    Ends env offset length (perform (.respondError e)) h failed := by
  have hends := respond_ends env offset length h₀ e
  rwa [beq_eq_false_iff_ne.2 he] at hends

/-- A call of the request has set errno, and not to `ENODATA`. -/
def Blamed (h : ServiceHistory) : Prop :=
  ∃ e, pinned h = some e ∧ e ≠ Errno.ENODATA

theorem Blamed.silent {tr : ServiceHistory} (hb : Blamed h)
    (htr : SilentTrace tr) : Blamed (tr ++ h) := by
  obtain ⟨e, he, hne⟩ := hb
  rw [Blamed, pinned_silent htr, he]
  cases hp : pinned tr with
  | none => exact ⟨e, rfl, hne⟩
  | some e' => exact ⟨e', rfl, fun heq => pinned_ne htr (heq ▸ hp)⟩

theorem Blamed.errnoAfter (hb : Blamed h) :
    env.errnoAfter h ≠ Errno.ENODATA := by
  obtain ⟨e, he, hne⟩ := hb
  rwa [RangeEnv.errnoAfter, he]

theorem fetchErrorWoFlock_ends (h₀ : Unanswered h) :
    Ends env offset length fetchErrorWoFlock h
      (unserved (env.errnoAfter h == Errno.ENODATA)) :=
  .step env offset length rfl (respond_ends env offset length
    (h := ⟨.errno, env.errnoAfter h⟩ :: h) h₀ _)

theorem fetchErrorWoFlock_fails (h₀ : Unanswered h) (hb : Blamed h) :
    Ends env offset length fetchErrorWoFlock h failed :=
  .step env offset length rfl (respond_fails env offset length
    (h := ⟨.errno, env.errnoAfter h⟩ :: h) h₀ (hb.errnoAfter env))

theorem fetchErrorWith_ends (h₀ : Unanswered h) {e : Errno}
    (he : e ≠ Errno.ENODATA) :
    Ends env offset length (fetchErrorWith e) h failed :=
  .step env offset length rfl (fetchErrorWoFlock_fails env offset length
    (h := ⟨.setErrno e, ()⟩ :: h) h₀ ⟨e, rfl, he⟩)

theorem closing_silent (fd : Nat) : Silent (closing fd) :=
  .step rfl fun _ => .step rfl fun _ => True.intro

theorem syncExit_silent (fd : Nat) (off : UInt64) (rangeLen : Int) :
    Silent (syncExit fd off rangeLen) :=
  .bind (rangeRead_silent fd off rangeLen) fun _ => closing_silent fd

/-- The error exit with the file open ends with what errno is once the file is
closed. -/
theorem fetchError_ends (h₀ : Unanswered h) (fd : Nat) :
    ∃ tr, SilentTrace tr ∧
      (closing fd).eval (env.answer offset length) h = some (tr ++ h, ()) ∧
      Ends env offset length (fetchError fd) h
        (unserved (env.errnoAfter (tr ++ h) == Errno.ENODATA)) := by
  obtain ⟨tr, _, htr, hev, -⟩ := eval_silent env offset length
    (closing_silent fd) (rfl : filesSeen h = filesSeen h)
  refine ⟨tr, htr, hev, ?_⟩
  show Ends env offset length ((closing fd).bind fun _ => fetchErrorWoFlock) h _
  exact .seq env offset length hev
    (fetchErrorWoFlock_ends env offset length ((observed_silent htr).trans h₀))

theorem fetchError_fails (h₀ : Unanswered h) (hb : Blamed h) (fd : Nat) :
    Ends env offset length (fetchError fd) h failed := by
  obtain ⟨tr, htr, -, hends⟩ := fetchError_ends env offset length h₀ fd
  rwa [beq_eq_false_iff_ne.2 ((hb.silent htr).errnoAfter env)] at hends

theorem fetchSend_ends (h₀ : Unanswered h) (payload : Bytes Byte) :
    Ends env offset length (fetchSend payload) h (served payload) := by
  refine ⟨_, _, rfl, ?_⟩
  show (payload :: (observed h).1, true :: (observed h).2) = served payload
  rw [h₀]
  rfl

theorem rangeClamped_serves {fd : Nat} {off : UInt64} {rangeLen : Int}
    (h₀ : Unanswered h) {data : Bytes Byte} {g : ServiceHistory}
    (halloc : env.alloc (rangeLen % 2 ^ 64).toNat = true)
    (hread : (rangeRead fd off rangeLen).eval (env.answer offset length)
      (⟨.getBuffer (rangeLen % 2 ^ 64).toNat, .ok ()⟩ :: h) =
        some (g, some data))
    (hfull : ¬ (rangeLen > 0 ∧ (data.size : Int) ≠ rangeLen)) :
    Ends env offset length (rangeClamped fd off rangeLen) h
      (served (rangePayload data rangeLen)) := by
  refine .step env offset length (if_pos halloc) ?_
  refine .seq env offset length hread ?_
  have h₁ : Unanswered g :=
    (observed_eval env offset length (rangeRead_silent fd off _) hread).trans h₀
  dsimp only
  rw [if_neg hfull]
  refine .skip env offset length (release_silent fd) fun _ _ h₂ => ?_
  refine .skip env offset length (sys_silent _) fun _ _ h₃ => ?_
  exact fetchSend_ends env offset length (h₃.trans (h₂.trans h₁)) _

/-- Where the synchronous path does not serve the range. -/
theorem rangeClamped_fails {fd size : Nat} {off len : UInt64}
    (h₀ : Unanswered h) (hk : SizeKnown fd size h)
    (hpin : pinned h ≠ some Errno.ENODATA) (hreactor : detached h = false)
    (hno : ¬ (env.alloc (clampRange off len size % 2 ^ 64).toNat = true ∧
      InFile off (clampRange off len size) size ∧
      env.ReadWhole h fd off (clampRange off len size))) :
    ∃ ended, Ends env offset length
        (rangeClamped fd off (clampRange off len size)) h (unserved ended) ∧
      (ended = true ↔
        env.SyncStale offset length h fd off (clampRange off len size)) := by
  by_cases halloc : env.alloc (clampRange off len size % 2 ^ 64).toNat = true
  · have hpinned : pinned (⟨.getBuffer (clampRange off len size % 2 ^ 64).toNat,
        .ok ()⟩ :: h) = pinned h := Request.pinned_of_plain rfl
    obtain ⟨g, r, hread, hr⟩ := @sync_fails env offset length fd size off len
      (⟨.getBuffer (clampRange off len size % 2 ^ 64).toNat, .ok ()⟩ :: h)
      ⟨hk.lt, hk.seen⟩ fun hin => hno ⟨halloc, hin⟩
    have h₁ : Unanswered g := (observed_eval env offset length
      (rangeRead_silent fd off _) hread).trans h₀
    obtain ⟨tr, -, hclose, hends⟩ := fetchError_ends env offset length h₁ fd
    refine ⟨_, .step env offset length (if_pos halloc)
      (.seq env offset length hread (o := unserved
        (env.errnoAfter (tr ++ g) == Errno.ENODATA)) ?_), ?_⟩
    · cases r with
      | none => exact hends
      | some c =>
        dsimp only
        rw [if_pos (hr c rfl)]
        exact hends
    · have hexit := syncExit_silent fd off (clampRange off len size)
      rw [beq_iff_eq, errnoAfter_silent env offset length hexit
        ((Prog.eval_seq hread).trans hclose) (by rwa [hpinned]),
        unset_congr env offset length hexit (by rfl) hpinned]
      show env.errno (detached h) = _ ∧ _ ↔ _
      rw [hreactor]
      exact (and_iff_right halloc).symm
  · refine ⟨false, .step env offset length (if_neg halloc) ?_,
      iff_of_false Bool.false_ne_true fun h => halloc h.1⟩
    exact fetchError_fails env offset length
      (h := ⟨.getBuffer (clampRange off len size % 2 ^ 64).toNat, .error .sysfail⟩ :: h)
      h₀ ⟨Errno.ENOMEM, rfl, by decide⟩ fd

/-! ## The work item -/

theorem workerError_ends (h₀ : Unanswered h) (item : WorkItem)
    (hstate : item.reqState = true) (e : Errno) :
    Ends env offset length
      ((workerError item e).bind dyadFetchComplete) h
      (unserved (e == Errno.ENODATA)) := by
  have habort : Unanswered (⟨.rpcAbortDetached, ()⟩ :: h) := h₀
  cases hts : item.sendDetachedIsThreadSafe with
  | true =>
    have hfin : workerError item e = Prog.call .rpcAbortDetached fun _ =>
        .pure { item with
          rc := .badfio, savedErrno := e, reqState := false } := by
      simp only [workerError, dyadFetchWorkerFinish, hts]
      rfl
    rw [hfin]
    exact .step env offset length rfl
      (respond_ends env offset length habort e)
  | false =>
    have hfin : workerError item e =
        .pure { item with rc := .badfio, savedErrno := e } := by
      simp only [workerError, dyadFetchWorkerFinish, hts]
      rfl
    rw [hfin]
    refine .seq env offset length rfl ?_
    unfold dyadFetchComplete
    dsimp only
    rw [if_neg (by decide), if_pos hstate]
    exact .step env offset length rfl
      (respond_ends env offset length habort e)

theorem workerError_fails (h₀ : Unanswered h) (item : WorkItem)
    (hstate : item.reqState = true) {e : Errno} (he : e ≠ Errno.ENODATA) :
    Ends env offset length
      ((workerError item e).bind dyadFetchComplete) h failed := by
  have hends := workerError_ends env offset length h₀ item hstate e
  rwa [beq_eq_false_iff_ne.2 he] at hends

theorem workerFinish_ends (h₀ : Unanswered h) (item : WorkItem)
    (hstate : item.reqState = true) (hrc : item.rc = .ok) :
    Ends env offset length
      ((dyadFetchWorkerFinish item).bind dyadFetchComplete) h
      (served (rangePayload item.content item.rangeLen)) := by
  have hno : item.rc.isError = false := by rw [hrc]; rfl
  -- whoever sends, the payload is handed over and the stream ended
  have hend : observed (⟨.respondError Errno.ENODATA, ()⟩ ::
      ⟨.rpcSendDetached (rangePayload item.content item.rangeLen), .ok ()⟩ :: h) =
      served (rangePayload item.content item.rangeLen) := by
    show (rangePayload item.content item.rangeLen :: (observed h).1,
      true :: (observed h).2) = _
    rw [h₀]
    rfl
  cases hts : item.sendDetachedIsThreadSafe with
  | true =>
    have hev : (dyadFetchWorkerFinish item).eval (env.answer offset length) h =
        some (⟨.rpcSendDetached (rangePayload item.content item.rangeLen),
          .ok ()⟩ :: h, { item with reqState := false }) := by
      unfold dyadFetchWorkerFinish
      rw [if_pos hts, if_pos hno]
      rfl
    refine .seq env offset length hev ?_
    unfold dyadFetchComplete
    dsimp only
    rw [if_pos hno, if_neg (by decide)]
    exact ⟨_, _, rfl, hend⟩
  | false =>
    have hfin : dyadFetchWorkerFinish item = .pure item := by
      simp only [dyadFetchWorkerFinish, hts]
      rfl
    rw [hfin]
    refine .seq env offset length rfl ?_
    unfold dyadFetchComplete
    rw [if_pos hno, if_pos hstate]
    exact ⟨_, _, rfl, hend⟩

/-- The work item of a request. -/
def requestItem (ctx : Ctx) (threadSafe : Bool) (offset length : UInt64) :
    WorkItem where
  hasOrigin := ctx.originPath
  offset := offset
  length := length
  sendDetachedIsThreadSafe := threadSafe
  reqState := true
  rc := .ok
  savedErrno := 0
  rangeLen := 0
  content := Bytes.empty

/-- A preparation that got so far has failed to open the file, or to lock
it. -/
def Prepared.isOpenFailure : Prepared → Bool
  | .unopened => true
  | .unlocked _ => true
  | _ => false

/-- What the worker makes of a preparation that failed. -/
theorem workerRest_fails (h₀ : Unanswered h) (item : WorkItem)
    (hstate : item.reqState = true) {prep : Prepared}
    (hb : prep.isOpenFailure = true → Blamed h)
    (hprep : ∀ fd, prep ≠ .locked fd) :
    Ends env offset length
      ((workerRest item prep).bind dyadFetchComplete) h failed := by
  cases prep with
  | absent =>
    exact workerError_fails env offset length h₀ item hstate (by decide)
  | unopened =>
    exact .step env offset length rfl (workerError_fails env offset length
      (h := ⟨.errno, env.errnoAfter h⟩ :: h) h₀ item hstate
      ((hb rfl).errnoAfter env))
  | unlocked fd =>
    show Ends env offset length (((perform .errno).bind fun e =>
      (sys (.close fd)).bind fun _ => workerError item e).bind
        dyadFetchComplete) h failed
    rw [Prog.bind_assoc]
    refine .step env offset length rfl ?_
    rw [Prog.bind_assoc]
    refine .skip env offset length (sys_silent _) fun _ _ h₁ => ?_
    exact workerError_fails env offset length (h₁.trans h₀) item hstate
      ((hb rfl).errnoAfter env)
  | locked fd => exact absurd rfl (hprep fd)

theorem syncRest_fails (h₀ : Unanswered h) {prep : Prepared}
    (hb : prep.isOpenFailure = true → Blamed h)
    (hprep : ∀ fd, prep ≠ .locked fd) {off len : UInt64} :
    Ends env offset length (syncRest off len prep) h failed := by
  cases prep with
  | absent => exact fetchErrorWith_ends env offset length h₀ (by decide)
  | unopened => exact fetchErrorWoFlock_fails env offset length h₀ (hb rfl)
  | unlocked fd => exact fetchError_fails env offset length h₀ (hb rfl) fd
  | locked fd => exact absurd rfl (hprep fd)

/-- The worker, once its loop has read the range. -/
theorem workerRead_serves {item : WorkItem} (hstate : item.reqState = true)
    {fd size : Nat} (h₀ : Unanswered h) {content : Bytes Byte}
    {g : ServiceHistory}
    (hread : (rangeReadLoop fd item.offset
      (clampRange item.offset item.length size).toNat
      (clampRange item.offset item.length size).toNat Bytes.empty).eval
        (env.answer offset length) h = some (g, some content)) :
    Ends env offset length
      ((workerRead item fd size).bind dyadFetchComplete) h
      (served (rangePayload content
        (clampRange item.offset item.length size))) := by
  have h₁ : Unanswered g := (observed_eval env offset length
    (rangeReadLoop_silent fd _ _ _ _) hread).trans h₀
  unfold workerRead
  dsimp only
  rw [Prog.bind_eq, Prog.bind_assoc]
  refine .seq env offset length hread ?_
  show Ends env offset length (((dyadReleaseFlock fd).bind fun _ =>
    (sys (.close fd)).bind fun _ => dyadFetchWorkerFinish { item with
      rc := .ok, rangeLen := clampRange item.offset item.length size,
      content := content }).bind dyadFetchComplete) g _
  rw [Prog.bind_assoc]
  refine .skip env offset length (release_silent fd) fun _ _ h₂ => ?_
  rw [Prog.bind_assoc]
  refine .skip env offset length (sys_silent _) fun _ _ h₃ => ?_
  exact workerFinish_ends env offset length (h₃.trans (h₂.trans h₁)) _ hstate
    rfl

/-- Once it has not: the response has the errno the loop left. -/
theorem workerRead_fails {item : WorkItem} (hstate : item.reqState = true)
    {fd size : Nat} (h₀ : Unanswered h) {g : ServiceHistory}
    (hread : (rangeReadLoop fd item.offset
      (clampRange item.offset item.length size).toNat
      (clampRange item.offset item.length size).toNat Bytes.empty).eval
        (env.answer offset length) h = some (g, none)) :
    Ends env offset length
      ((workerRead item fd size).bind dyadFetchComplete) h
      (unserved (env.errnoAfter g == Errno.ENODATA)) := by
  have h₁ : Unanswered g := (observed_eval env offset length
    (rangeReadLoop_silent fd _ _ _ _) hread).trans h₀
  have hsame : ((if env.errnoAfter g ≠ 0 then env.errnoAfter g
      else Errno.EIO) == Errno.ENODATA) =
      (env.errnoAfter g == Errno.ENODATA) := by
    split
    · rfl
    · next h0 =>
      rw [not_not.1 h0]
      decide
  unfold workerRead
  dsimp only
  rw [Prog.bind_eq, Prog.bind_assoc]
  refine .seq env offset length hread ?_
  show Ends env offset length (((perform .errno).bind fun e =>
    (dyadReleaseFlock fd).bind fun _ => (sys (.close fd)).bind fun _ =>
      workerError item (if e ≠ 0 then e else Errno.EIO)).bind
        dyadFetchComplete) g _
  rw [Prog.bind_assoc]
  refine .step env offset length rfl ?_
  rw [Prog.bind_assoc]
  refine .skip env offset length (release_silent fd) fun _ _ h₂ => ?_
  rw [Prog.bind_assoc]
  refine .skip env offset length (sys_silent _) fun _ _ h₃ => ?_
  rw [← hsame]
  exact workerError_ends env offset length (h₃.trans (h₂.trans h₁)) item
    hstate _

end Tails

/-! ## Both requests -/

section Whole

variable {ctx : Ctx} {threadSafe : Bool}

/-- What the handler has done before the paths part. -/
def unpacked : ServiceHistory :=
  [⟨.rpcRespond, .ok ()⟩, ⟨.rpcUnpackRange, .ok (offset, length)⟩,
    ⟨.msgGetUserid, .ok ()⟩, ⟨.msgIsStreaming, true⟩]

/-- What it has done once a work item is ready. -/
def enqueued : ServiceHistory :=
  ⟨.getBuffer length.toNat, .ok ()⟩ :: ⟨.rpcDetachRequest, .ok ()⟩ ::
    ⟨.sys (.malloc workItemSize), true⟩ :: unpacked offset length

/-- What follows the handler. -/
def afterHandler (ctx : Ctx) : Option WorkItem → Program Unit
  | none => .pure ()
  | some item => (dyadFetchWorkerProcess ctx item).bind dyadFetchComplete

theorem serve_sync (hdtl : ctx.dtlMode ≠ .ucx) :
    (Request.range ⟨ctx, false, threadSafe⟩).serve.eval
        (env.answer offset length) [] =
      ((rangeSync ⟨ctx, false, threadSafe⟩ offset length).bind
        fun _ => .pure ()).eval (env.answer offset length)
        (unpacked offset length) := by
  have hserve : (Request.range ⟨ctx, false, threadSafe⟩).serve.eval
      (env.answer offset length) [] =
      (((rangeSync ⟨ctx, false, threadSafe⟩ offset length).bind
        fun _ => .pure none).bind (afterHandler ctx)).eval
        (env.answer offset length) (unpacked offset length) := by
    unfold Request.serve dyadFetchRangeRequestCb
    simp only [if_neg hdtl]
    rfl
  rw [hserve, Prog.bind_assoc]
  rfl

theorem serve_pool (hdtl : ctx.dtlMode ≠ .ucx) :
    (Request.range ⟨ctx, true, threadSafe⟩).serve.eval
        (env.answer offset length) [] =
      ((rangeEnqueue ⟨ctx, true, threadSafe⟩ offset length).bind
        (afterHandler ctx)).eval (env.answer offset length)
        (unpacked offset length) := by
  unfold Request.serve dyadFetchRangeRequestCb
  simp only [if_neg hdtl]
  rfl

/-- Without the memory for the item and its buffer, the pool is not used. -/
theorem pool_refuses (hdtl : ctx.dtlMode ≠ .ucx)
    (hno : ¬ PoolServes env length) :
    Ends env offset length (Request.range ⟨ctx, true, threadSafe⟩).serve []
      failed := by
  have hends : Ends env offset length
      ((rangeEnqueue ⟨ctx, true, threadSafe⟩ offset length).bind
        (afterHandler ctx)) (unpacked offset length) failed := by
    unfold rangeEnqueue
    rw [Prog.bind_eq, Prog.bind_assoc]
    by_cases hitem : env.alloc workItemSize = true
    · refine .step env offset length (congrArg some hitem) ?_
      by_cases hstate : env.alloc env.detachSize = true
      · refine .step env offset length (if_pos hstate) ?_
        refine .step env offset length
          (if_neg fun hbuf => hno ⟨hitem, hstate, hbuf⟩) ?_
        exact ⟨_, _, rfl, rfl⟩
      · exact .step env offset length (if_neg hstate) ⟨_, _, rfl, rfl⟩
    · refine .step env offset length
        (congrArg some (Bool.eq_false_of_not_eq_true hitem)) ?_
      exact ⟨_, _, rfl, rfl⟩
  obtain ⟨g, a, hev, ho⟩ := hends
  exact ⟨g, a, (serve_pool env offset length hdtl).trans hev, ho⟩

theorem pool_accepts (hdtl : ctx.dtlMode ≠ .ucx)
    (hyes : PoolServes env length) :
    (Request.range ⟨ctx, true, threadSafe⟩).serve.eval
        (env.answer offset length) [] =
      ((dyadFetchWorkerProcess ctx
        (requestItem ctx threadSafe offset length)).bind
          dyadFetchComplete).eval (env.answer offset length)
        (enqueued offset length) := by
  rw [serve_pool env offset length hdtl]
  unfold rangeEnqueue
  rw [Prog.bind_eq, Prog.bind_assoc]
  refine (Prog.eval_step (congrArg some hyes.1)).trans ?_
  refine (Prog.eval_step (if_pos hyes.2.1)).trans ?_
  exact (Prog.eval_step (if_pos hyes.2.2)).trans rfl

/-- The size of a file that has been locked. -/
theorem fileSize_known (fd : Nat) (h : ServiceHistory) :
    ∃ g size, (getFileSize fd).eval (env.answer offset length) h =
      some (g, size) ∧ SizeKnown fd size g := by
  cases hfile : env.file (filesSeen h) (.fstat fd) with
  | error e =>
    have hans : env.answer offset length h (.sys (.fstat fd)) =
        some (.error e) := congrArg some hfile
    exact ⟨_, 0, (Prog.eval_step hans).trans rfl, by decide, Or.inl rfl⟩
  | ok size =>
    have hans : env.answer offset length h (.sys (.fstat fd)) =
        some (.ok size) := congrArg some hfile
    refine ⟨_, size, (Prog.eval_step hans).trans rfl,
      env.fstat_lt _ _ _ hfile, Or.inr ?_⟩
    exact if_pos rfl

theorem getFileSize_silent (fd : Nat) : Silent (getFileSize fd) :=
  .step rfl fun r => by cases r <;> exact True.intro

end Whole

/-- What the synchronous path needs to serve a request. -/
def SyncServes (env : RangeEnv) (g : ServiceHistory) (fd size : Nat)
    (offset length : UInt64) : Prop :=
  env.alloc (clampRange offset length size % 2 ^ 64).toNat = true ∧
    env.ReadWhole g fd offset (clampRange offset length size)

/-- What the two paths need comes to the same: wherever a request gets as far
as a locked file and its range can be read, a buffer for the clamped length is
to be had and a read below a gibibyte is not cut short, if and only if the
work item, its detached state and a buffer for the length asked for are to be
had. Where neither serves the range, both end it with an error, or both with
the `ENODATA` that their threads happened to have. -/
def SameResources (env : RangeEnv) (ctx : Ctx) (offset length : UInt64) :
    Prop :=
  ∀ h fd g size,
    (rangePrepare ctx offset length).eval (env.answer offset length) [] =
      some (h, .locked fd) →
    (getFileSize fd).eval (env.answer offset length) h = some (g, size) →
    (InFile offset (clampRange offset length size) size →
      (SyncServes env g fd size offset length ↔ PoolServes env length)) ∧
    (¬ (SyncServes env g fd size offset length ∧
        InFile offset (clampRange offset length size) size) →
      ¬ (PoolServes env length ∧
        InFile offset (clampRange offset length size) size) →
      (env.SyncStale offset length g fd offset (clampRange offset length size) ↔
        env.PoolStale offset length g fd offset
          (clampRange offset length size)))

theorem Ends.outcome {env : RangeEnv} {offset length : UInt64} {ctx : Ctx}
    {workers threadSafe : Bool} {o : List (Bytes Byte) × List Bool}
    (he : Ends env offset length
      (Request.range ⟨ctx, workers, threadSafe⟩).serve [] o) :
    env.outcome ctx workers threadSafe offset length = some o := by
  obtain ⟨g, a, hev, ho⟩ := he
  rw [RangeEnv.outcome, hev]
  exact congrArg some ho

theorem served_ne_unserved (payload : Bytes Byte) (ended : Bool) :
    served payload ≠ unserved ended :=
  fun h => nomatch (Prod.mk.inj h).1

section Agreement

variable {env : RangeEnv} {ctx : Ctx} {threadSafe : Bool}
  {offset length : UInt64} {o : List (Bytes Byte) × List Bool}

theorem sync_ends (hdtl : ctx.dtlMode ≠ .ucx) {h : ServiceHistory}
    {prep : Prepared}
    (hprep : (rangePrepare ctx offset length).eval (env.answer offset length)
      (unpacked offset length) = some (h, prep))
    (hrest : Ends env offset length (syncRest offset length prep) h o) :
    env.outcome ctx false threadSafe offset length = some o := by
  obtain ⟨g, a, hev, ho⟩ := hrest
  refine Ends.outcome ⟨g, (), ?_, ho⟩
  rw [serve_sync env offset length hdtl, rangeSync_eq, Prog.bind_assoc]
  refine (Prog.eval_seq hprep).trans ?_
  exact Prog.eval_seq hev

theorem pool_ends (hdtl : ctx.dtlMode ≠ .ucx)
    (hyes : PoolServes env length) {h : ServiceHistory} {prep : Prepared}
    (hprep : (rangePrepare ctx offset length).eval (env.answer offset length)
      (enqueued offset length) = some (h, prep))
    (hrest : Ends env offset length
      ((workerRest (requestItem ctx threadSafe offset length) prep).bind
        dyadFetchComplete) h o) :
    env.outcome ctx true threadSafe offset length = some o := by
  obtain ⟨g, a, hev, ho⟩ := hrest
  refine Ends.outcome ⟨g, a, ?_, ho⟩
  rw [pool_accepts env offset length hdtl hyes,
    dyadFetchWorkerProcess_eq ctx _ rfl, Prog.bind_assoc]
  exact (Prog.eval_seq hprep).trans hev

/-- The preparation goes the same way from the start of the request as it does
on either path. -/
theorem prepare_cases :
    ((rangePrepare ctx offset length).eval (env.answer offset length) [] =
        none ∧
      (rangePrepare ctx offset length).eval (env.answer offset length)
        (unpacked offset length) = none) ∨
    ∃ tr prep, SilentTrace tr ∧
      (rangePrepare ctx offset length).eval (env.answer offset length) [] =
        some (tr ++ [], prep) ∧
      (rangePrepare ctx offset length).eval (env.answer offset length)
        (unpacked offset length) = some (tr ++ unpacked offset length, prep) ∧
      (rangePrepare ctx offset length).eval (env.answer offset length)
        (enqueued offset length) = some (tr ++ enqueued offset length, prep) := by
  have hfiles := rangePrepare_filesOnly ctx offset length
  obtain hnone | ⟨tr, prep, htr, hev, hsync⟩ := @eval_filesOnly env offset
    length _ _ hfiles [] (unpacked offset length) rfl
  · exact Or.inl hnone
  · obtain hnone | ⟨tr', prep', -, hev', hpool⟩ := @eval_filesOnly env offset
      length _ _ hfiles [] (enqueued offset length) rfl
    · exact absurd (hnone.1.symm.trans hev) (by simp)
    · obtain ⟨htr', rfl⟩ :=
        Prod.mk.inj (Option.some.inj (hev.symm.trans hev'))
      obtain rfl := List.append_cancel_right htr'
      exact Or.inr ⟨tr, prep, htr, hev, hsync, hpool⟩

/-- A preparation that failed to open or lock the file has set errno. -/
theorem prepare_blamed {h₀ h : ServiceHistory} {prep : Prepared}
    (hev : (rangePrepare ctx offset length).eval (env.answer offset length)
      h₀ = some (h, prep)) (hfail : prep.isOpenFailure = true) : Blamed h := by
  rw [rangePrepare, Prog.bind_eq, Prog.eval_bind] at hev
  obtain ⟨⟨h₁, rc⟩, -, hev⟩ := Option.bind_eq_some_iff.1 hev
  dsimp only at hev
  split at hev
  · obtain ⟨-, rfl⟩ := Prod.mk.inj (Option.some.inj hev)
    exact absurd hfail (by decide)
  cases hopen : env.file (filesSeen h₁) (.open .data false false) with
  | error e =>
    have hans : env.answer offset length h₁ (.sys (.open .data false false)) =
        some (.error e) := congrArg some hopen
    obtain ⟨rfl, rfl⟩ := Prod.mk.inj
      (Option.some.inj ((Prog.eval_step hans).symm.trans hev))
    refine ⟨e, rfl, fun he => env.failed_ne (filesSeen h₁)
      (.open .data false false) ?_⟩
    rw [hopen, he]
    rfl
  | ok fd =>
    have hans : env.answer offset length h₁ (.sys (.open .data false false)) =
        some (.ok fd) := congrArg some hopen
    replace hev := (Prog.eval_step hans).symm.trans hev
    generalize ⟨Call.sys (.open .data false false), .ok fd⟩ :: h₁ = h₂ at hev
    cases hlock : env.file (filesSeen h₂) (.setlkw fd .shared) with
    | error e =>
      have hans : env.answer offset length h₂ (.sys (.setlkw fd .shared)) =
          some (.error e) := congrArg some hlock
      obtain ⟨rfl, rfl⟩ := Prod.mk.inj
        (Option.some.inj ((Prog.eval_step hans).symm.trans hev))
      refine ⟨e, rfl, fun he => env.failed_ne (filesSeen h₂)
        (.setlkw fd .shared) ?_⟩
      rw [hlock, he]
      rfl
    | ok u =>
      have hans : env.answer offset length h₂ (.sys (.setlkw fd .shared)) =
          some (.ok u) := congrArg some hlock
      obtain ⟨-, rfl⟩ := Prod.mk.inj
        (Option.some.inj ((Prog.eval_step hans).symm.trans hev))
      exact absurd hfail (by simp [Prepared.isOpenFailure])

/-- What the synchronous path comes to with a file that could be locked, after
`gs`. -/
theorem sync_outcome (hdtl : ctx.dtlMode ≠ .ucx) {fd size : Nat}
    {hs gs : ServiceHistory}
    (hsync : (rangePrepare ctx offset length).eval (env.answer offset length)
      (unpacked offset length) = some (hs, .locked fd))
    (hgs : (getFileSize fd).eval (env.answer offset length) hs =
      some (gs, size))
    (hs₀ : Unanswered gs) (hk : SizeKnown fd size gs)
    (hpin : pinned gs ≠ some Errno.ENODATA) (hreactor : detached gs = false) :
    (∀ h' : ServiceHistory, filesSeen h' = filesSeen gs →
      SyncServes env gs fd size offset length ∧
        InFile offset (clampRange offset length size) size →
      ∃ data g, (rangeReadLoop fd offset (clampRange offset length size).toNat
          (clampRange offset length size).toNat Bytes.empty).eval
          (env.answer offset length) h' = some (g, some data) ∧
        env.outcome ctx false threadSafe offset length =
          some (served (rangePayload data (clampRange offset length size)))) ∧
    (¬ (SyncServes env gs fd size offset length ∧
        InFile offset (clampRange offset length size) size) →
      ∃ ended, env.outcome ctx false threadSafe offset length =
          some (unserved ended) ∧
        (ended = true ↔ env.SyncStale offset length gs fd offset
          (clampRange offset length size))) := by
  constructor
  · rintro h' hseen ⟨⟨halloc, hwhole⟩, hin⟩
    obtain ⟨data, g, g', hworker, hread, hfull⟩ :=
      @reads_agree env offset length fd size offset length h'
        (⟨.getBuffer (clampRange offset length size % 2 ^ 64).toNat,
          .ok ()⟩ :: gs) hseen ⟨hk.lt, hk.seen⟩ hin hwhole
    exact ⟨data, g, hworker, sync_ends hdtl hsync (.seq env offset length hgs
      (rangeClamped_serves env offset length hs₀ halloc hread hfull))⟩
  · intro hno
    obtain ⟨ended, hends, hstale⟩ := rangeClamped_fails env offset length hs₀
      hk hpin hreactor fun h => hno ⟨⟨h.1, h.2.2⟩, h.2.1⟩
    exact ⟨ended, sync_ends hdtl hsync (.seq env offset length hgs hends),
      hstale⟩

/-- What the pool comes to with a file that could be locked, after `gp`. -/
theorem pool_outcome (hdtl : ctx.dtlMode ≠ .ucx) {fd size : Nat}
    {hp gp : ServiceHistory}
    (hpool : (rangePrepare ctx offset length).eval (env.answer offset length)
      (enqueued offset length) = some (hp, .locked fd))
    (hgp : (getFileSize fd).eval (env.answer offset length) hp =
      some (gp, size))
    (hp₀ : Unanswered gp) (hk : SizeKnown fd size gp)
    (hpin : pinned gp ≠ some Errno.ENODATA) (hworker : detached gp = true) :
    (∀ data g, PoolServes env length →
      (rangeReadLoop fd offset (clampRange offset length size).toNat
        (clampRange offset length size).toNat Bytes.empty).eval
        (env.answer offset length) gp = some (g, some data) →
      env.outcome ctx true threadSafe offset length =
        some (served (rangePayload data (clampRange offset length size)))) ∧
    (¬ (PoolServes env length ∧
        InFile offset (clampRange offset length size) size) →
      ∃ ended, env.outcome ctx true threadSafe offset length =
          some (unserved ended) ∧
        (ended = true ↔ env.PoolStale offset length gp fd offset
          (clampRange offset length size))) := by
  have hread : ∀ o, PoolServes env length →
      Ends env offset length
        ((workerRead (requestItem ctx threadSafe offset length) fd size).bind
          dyadFetchComplete) gp o →
      env.outcome ctx true threadSafe offset length = some o := by
    intro o hyes hends
    refine pool_ends hdtl hyes hpool ?_
    show Ends env offset length (((getFileSize fd).bind fun fileSize =>
      workerRead (requestItem ctx threadSafe offset length) fd fileSize).bind
        dyadFetchComplete) hp _
    rw [Prog.bind_assoc]
    exact .seq env offset length hgp hends
  constructor
  · exact fun data g hyes hloop => hread _ hyes
      (workerRead_serves env offset length rfl hp₀ hloop)
  · intro hno
    by_cases hyes : PoolServes env length
    · obtain ⟨g, hloop⟩ := worker_fails env offset length hk
        fun hin => hno ⟨hyes, hin⟩
      refine ⟨_, hread _ hyes
        (workerRead_fails env offset length rfl hp₀ hloop), ?_⟩
      rw [beq_iff_eq, errnoAfter_silent env offset length
        (rangeReadLoop_silent fd _ _ _ _) hloop hpin, hworker]
      exact (and_iff_right hyes).symm
    · exact ⟨false, (pool_refuses env offset length hdtl hyes).outcome,
        iff_of_false Bool.false_ne_true fun h => hyes h.1⟩

/-- What is observed of a path, by whether it serves the range. -/
def Outcome (serves stale : Prop) (payload : Bytes Byte)
    (o : List (Bytes Byte) × List Bool) : Prop :=
  serves ∧ o = served payload ∨
    ¬ serves ∧ ∃ ended, o = unserved ended ∧ (ended = true ↔ stale)

/-- The outcomes of the two paths for a file that could be locked, whose size
was asked for after `hs` and `hp`. -/
theorem locked_outcomes (hdtl : ctx.dtlMode ≠ .ucx) {fd size : Nat}
    {hs gs hp gp : ServiceHistory}
    (hsync : (rangePrepare ctx offset length).eval (env.answer offset length)
      (unpacked offset length) = some (hs, .locked fd))
    (hpool : (rangePrepare ctx offset length).eval (env.answer offset length)
      (enqueued offset length) = some (hp, .locked fd))
    (hgs : (getFileSize fd).eval (env.answer offset length) hs =
      some (gs, size))
    (hgp : (getFileSize fd).eval (env.answer offset length) hp =
      some (gp, size))
    (hs₀ : Unanswered gs) (hp₀ : Unanswered gp)
    (hseen : filesSeen gp = filesSeen gs) (hk : SizeKnown fd size gs)
    (hpin : pinned gs ≠ some Errno.ENODATA) (hsame : pinned gp = pinned gs)
    (hreactor : detached gs = false) (hworker : detached gp = true) :
    ∃ payload o o', env.outcome ctx true threadSafe offset length = some o ∧
      env.outcome ctx false threadSafe offset length = some o' ∧
      Outcome (PoolServes env length ∧
          InFile offset (clampRange offset length size) size)
        (env.PoolStale offset length gp fd offset
          (clampRange offset length size)) payload o ∧
      Outcome (SyncServes env gs fd size offset length ∧
          InFile offset (clampRange offset length size) size)
        (env.SyncStale offset length gs fd offset
          (clampRange offset length size)) payload o' := by
  have hk' : SizeKnown fd size gp := ⟨hk.lt, by rw [hseen]; exact hk.seen⟩
  obtain ⟨hserved, hsyncNo⟩ := @sync_outcome env ctx threadSafe offset length
    hdtl fd size hs gs hsync hgs hs₀ hk hpin hreactor
  obtain ⟨hread, hpoolNo⟩ := @pool_outcome env ctx threadSafe offset length
    hdtl fd size hp gp hpool hgp hp₀ hk' (by rwa [hsame]) hworker
  by_cases hboth : SyncServes env gs fd size offset length ∧
      InFile offset (clampRange offset length size) size
  · obtain ⟨data, g, hloop, hout⟩ := hserved gp hseen hboth
    by_cases hyes : PoolServes env length
    · exact ⟨_, _, _, hread data g hyes hloop, hout,
        Or.inl ⟨⟨hyes, hboth.2⟩, rfl⟩, Or.inl ⟨hboth, rfl⟩⟩
    · obtain ⟨ended, hout', hstale⟩ := hpoolNo fun h => hyes h.1
      exact ⟨_, _, _, hout', hout,
        Or.inr ⟨fun h => hyes h.1, ended, rfl, hstale⟩, Or.inl ⟨hboth, rfl⟩⟩
  · obtain ⟨ended, hout, hstale⟩ := hsyncNo hboth
    by_cases hyes : PoolServes env length ∧
        InFile offset (clampRange offset length size) size
    · obtain ⟨data, g, hloop⟩ := worker_reads env offset length hk' hyes.2
      exact ⟨_, _, _, hread data g hyes.1 hloop, hout, Or.inl ⟨hyes, rfl⟩,
        Or.inr ⟨hboth, ended, rfl, hstale⟩⟩
    · obtain ⟨ended', hout', hstale'⟩ := hpoolNo hyes
      exact ⟨Bytes.empty, _, _, hout', hout, Or.inr ⟨hyes, ended', rfl, hstale'⟩,
        Or.inr ⟨hboth, ended, rfl, hstale⟩⟩

/-- The outcomes of the two paths, by how far the preparation gets. -/
theorem request_outcomes (hdtl : ctx.dtlMode ≠ .ucx) {h : ServiceHistory}
    {prep : Prepared}
    (hev : (rangePrepare ctx offset length).eval (env.answer offset length)
      [] = some (h, prep)) :
    ∃ payload o o', env.outcome ctx true threadSafe offset length = some o ∧
      env.outcome ctx false threadSafe offset length = some o' ∧
      (((∀ fd, prep ≠ .locked fd) ∧ o = failed ∧ o' = failed) ∨
      ∃ fd g size, prep = .locked fd ∧
        (getFileSize fd).eval (env.answer offset length) h = some (g, size) ∧
        Outcome (PoolServes env length ∧
            InFile offset (clampRange offset length size) size)
          (env.PoolStale offset length g fd offset
            (clampRange offset length size)) payload o ∧
        Outcome (SyncServes env g fd size offset length ∧
            InFile offset (clampRange offset length size) size)
          (env.SyncStale offset length g fd offset
            (clampRange offset length size)) payload o') := by
  obtain ⟨hnone, -⟩ | ⟨tr, prep, htr, hev', hsync, hpool⟩ :=
    @prepare_cases env ctx offset length
  · exact absurd (hnone.symm.trans hev) (by simp)
  obtain ⟨rfl, rfl⟩ := Prod.mk.inj (Option.some.inj (hev.symm.trans hev'))
  have hs₀ : Unanswered (tr ++ unpacked offset length) :=
    (observed_silent htr).trans rfl
  have hp₀ : Unanswered (tr ++ enqueued offset length) :=
    (observed_silent htr).trans rfl
  by_cases hlocked : ∃ fd, prep = .locked fd
  · obtain ⟨fd, rfl⟩ := hlocked
    have hseen : ∀ tr' h h', filesSeen h = filesSeen h' →
        filesSeen (tr' ++ h) = filesSeen (tr' ++ h') := by
      intro tr' h h' heq
      rw [filesSeen_append, filesSeen_append, heq]
    -- the size is asked for after three histories that look alike
    obtain ⟨tr', size, htr', hg, hgs⟩ := @eval_silent env offset length _ _
      (getFileSize_silent fd) (tr ++ []) (tr ++ unpacked offset length)
      (hseen tr _ _ rfl)
    obtain ⟨tr'', size', htr'', hg', hgp⟩ := @eval_silent env offset length _ _
      (getFileSize_silent fd) (tr ++ []) (tr ++ enqueued offset length)
      (hseen tr _ _ rfl)
    obtain ⟨heq, rfl⟩ := Prod.mk.inj (Option.some.inj (hg.symm.trans hg'))
    obtain rfl := List.append_cancel_right heq
    obtain ⟨g, size', hg'', hk⟩ := fileSize_known env offset length fd
      (tr ++ unpacked offset length)
    obtain ⟨rfl, rfl⟩ := Prod.mk.inj (Option.some.inj (hgs.symm.trans hg''))
    have hpinned : ∀ h₀, pinned h₀ = none →
        pinned (tr' ++ (tr ++ h₀)) = (pinned tr').or (pinned tr) := by
      intro h₀ hnone
      rw [pinned_silent htr', pinned_silent htr, hnone, Option.or_none]
    have hdetached : ∀ h₀, detached (tr' ++ (tr ++ h₀)) = detached h₀ :=
      fun h₀ => (detached_silent htr').trans (detached_silent htr)
    have hpin : pinned (tr' ++ (tr ++ unpacked offset length)) ≠
        some Errno.ENODATA := by
      rw [hpinned _ rfl, ← pinned_silent htr']
      exact pinned_ne (htr'.append htr)
    obtain ⟨payload, o, o', ho, ho', hpooled, hsynced⟩ :=
      @locked_outcomes env ctx threadSafe offset length hdtl fd size _ _ _ _
        hsync hpool hgs hgp ((observed_silent htr').trans hs₀)
        ((observed_silent htr').trans hp₀) (hseen tr' _ _ (hseen tr _ _ rfl))
        hk hpin ((hpinned _ rfl).trans (hpinned _ rfl).symm)
        (hdetached _) (hdetached _)
    have hfiles : ∀ h₀, filesSeen h₀ = [] →
        filesSeen (tr' ++ (tr ++ h₀)) = filesSeen (tr' ++ (tr ++ [])) :=
      fun h₀ heq => hseen tr' _ _ (hseen tr _ _ heq)
    refine ⟨payload, o, o', ho, ho',
      Or.inr ⟨fd, _, size, rfl, hg, ?_, ?_⟩⟩
    · rwa [RangeEnv.PoolStale, unset_congr env offset length
        (rangeReadLoop_silent fd _ _ _ _) (hfiles _ rfl)
        ((hpinned _ rfl).trans (hpinned [] rfl).symm)] at hpooled
    · rwa [SyncServes, RangeEnv.ReadWhole, hfiles _ rfl, RangeEnv.SyncStale,
        unset_congr env offset length
        (syncExit_silent fd _ _) (hfiles _ rfl) ((hpinned _ rfl).trans (hpinned [] rfl).symm)]
        at hsynced
  · have hno : ∀ fd, prep ≠ .locked fd := fun fd h => hlocked ⟨fd, h⟩
    have hsyncNo : env.outcome ctx false threadSafe offset length =
        some failed :=
      sync_ends hdtl hsync (syncRest_fails env offset length hs₀
        (prepare_blamed hsync) hno)
    have hpoolNo : env.outcome ctx true threadSafe offset length =
        some failed := by
      by_cases hyes : PoolServes env length
      · exact pool_ends hdtl hyes hpool
          (workerRest_fails env offset length hp₀ _ rfl
            (prepare_blamed hpool) hno)
      · exact (pool_refuses env offset length hdtl hyes).outcome
    exact ⟨Bytes.empty, failed, failed, hpoolNo, hsyncNo,
      Or.inl ⟨hno, rfl, rfl⟩⟩

/-- The preparation comes to an end when its part of the range cache does. -/
theorem prepare_ends
    (hens : ((rangeEnsured ctx offset length).eval
      (env.answer offset length) []).isSome = true) :
    ∃ h prep, (rangePrepare ctx offset length).eval
      (env.answer offset length) [] = some (h, prep) := by
  obtain ⟨⟨h, rc⟩, hev⟩ := Option.isSome_iff_exists.1 hens
  have hrest : Silent (if rc.isError then (return .absent : Program Prepared)
      else do
        match ← sys (.open .data false false) with
        | .error _ => return .unopened
        | .ok fd =>
          let rc ← dyadSharedFlock fd
          if rc.isError then
            return .unlocked fd
          else
            return .locked fd) := by
    split
    · exact True.intro
    · refine .step rfl fun r => ?_
      cases r with
      | error e => exact True.intro
      | ok fd => exact .step rfl fun r => by cases r <;> exact True.intro
  obtain ⟨tr, prep, -, hprep, -⟩ := eval_silent env offset length hrest
    (rfl : filesSeen h = filesSeen h)
  exact ⟨_, prep, (Prog.eval_seq hev).trans hprep⟩

/-- Where the range cache comes to an end, both paths do; and they agree
exactly when what they need comes to the same. -/
theorem paths_agree_iff (hdtl : ctx.dtlMode ≠ .ucx) :
    (((rangeEnsured ctx offset length).eval
        (env.answer offset length) []).isSome = true →
      (env.outcome ctx true threadSafe offset length).isSome = true ∧
        (env.outcome ctx false threadSafe offset length).isSome = true) ∧
    (PathsAgree env ctx threadSafe offset length ↔
      SameResources env ctx offset length) := by
  constructor
  · intro hens
    obtain ⟨h, prep, hev⟩ := prepare_ends hens
    obtain ⟨-, o, o', ho, ho', -⟩ :=
      @request_outcomes env ctx threadSafe offset length hdtl _ _ hev
    exact ⟨by rw [ho]; rfl, by rw [ho']; rfl⟩
  obtain ⟨hnone, hsync⟩ | ⟨tr, prep, -, hev, -⟩ :=
    @prepare_cases env ctx offset length
  · refine iff_of_true (fun o o' _ ho' => ?_) fun h fd g size hprep => ?_
    · rw [RangeEnv.outcome, serve_sync env offset length hdtl, rangeSync_eq,
        Prog.bind_assoc, Prog.eval_bind, hsync] at ho'
      exact absurd ho' (by simp)
    · exact absurd (hnone.symm.trans hprep) (by simp)
  obtain ⟨payload, o, o', ho, ho', hcases⟩ :=
    @request_outcomes env ctx threadSafe offset length hdtl _ _ hev
  have hagree : PathsAgree env ctx threadSafe offset length ↔ o = o' := by
    constructor
    · exact fun h => h o o' ho ho'
    · intro heq a a' ha ha'
      rw [Option.some.inj (ha.symm.trans ho),
        Option.some.inj (ha'.symm.trans ho'), heq]
  rw [hagree]
  obtain ⟨hno, rfl, rfl⟩ | ⟨fd, g, size, rfl, hg, hpooled, hsynced⟩ := hcases
  · refine iff_of_true rfl fun h fd g size hprep => ?_
    obtain ⟨-, heq⟩ := Prod.mk.inj (Option.some.inj (hev.symm.trans hprep))
    exact absurd heq (hno fd)
  · have hsame : SameResources env ctx offset length ↔
        (InFile offset (clampRange offset length size) size →
          (SyncServes env g fd size offset length ↔
            PoolServes env length)) ∧
        (¬ (SyncServes env g fd size offset length ∧
            InFile offset (clampRange offset length size) size) →
          ¬ (PoolServes env length ∧
            InFile offset (clampRange offset length size) size) →
          (env.SyncStale offset length g fd offset
              (clampRange offset length size) ↔
            env.PoolStale offset length g fd offset
              (clampRange offset length size))) := by
      constructor
      · exact fun h => h _ fd g size hev hg
      · intro h h' fd' g' size' hprep hsize
        obtain ⟨rfl, hlock⟩ :=
          Prod.mk.inj (Option.some.inj (hev.symm.trans hprep))
        obtain rfl := Prepared.locked.inj hlock
        obtain ⟨rfl, rfl⟩ := Prod.mk.inj (Option.some.inj (hg.symm.trans hsize))
        exact h
    rw [hsame]
    have hne := served_ne_unserved payload
    rcases hpooled with ⟨hp, rfl⟩ | ⟨hp, ended, rfl, hstale⟩ <;>
      rcases hsynced with ⟨hs, rfl⟩ | ⟨hs, ended', rfl, hstale'⟩
    · exact iff_of_true rfl ⟨fun _ => iff_of_true hs.1 hp.1,
        fun hno => absurd hs hno⟩
    · exact iff_of_false (hne _) fun h => hs ⟨(h.1 hp.2).2 hp.1, hp.2⟩
    · exact iff_of_false (hne _).symm fun h => hp ⟨(h.1 hs.2).1 hs.1, hs.2⟩
    · have hends : unserved ended = unserved ended' ↔
          (env.SyncStale offset length g fd offset
              (clampRange offset length size) ↔
            env.PoolStale offset length g fd offset
              (clampRange offset length size)) := by
        rw [← hstale, ← hstale', ← Bool.eq_iff_iff]
        exact ⟨fun h => (List.head_eq_of_cons_eq (Prod.mk.inj h).2).symm,
          fun h => congrArg unserved h.symm⟩
      rw [hends]
      constructor
      · exact fun h => ⟨fun hin => iff_of_false (fun h => hs ⟨h, hin⟩)
          fun h => hp ⟨h, hin⟩, fun _ _ => h⟩
      · exact fun h => h.2 hs hp

end Agreement

/-! ## A file of four bytes -/

/-- An environment with one file of four bytes and memory for everything, in
which a read returns at most `most` bytes at a time. -/
def RangeEnv.reading (most : Nat) (hmost : 0 < most) : RangeEnv where
  file
    | h, .pread fd off len => .ok (Bytes.ofFn
        (min (min len most) ((sizedAt fd h).getD 0 - off))
        fun i => BitVec.ofNat 8 (off + i))
    | _, .open .. => .ok 3
    | _, .fstat _ => .ok 4
    | _, .close _ => .ok ()
    | _, .setlkw .. => .ok ()
    | _, .setlk .. => .ok ()
    | _, .unlock _ => .ok ()
    | _, .stat _ => .ok 4
    | _, .ftruncate .. => .ok ()
    | _, .pwrite _ _ d => .ok d.size
    | _, .unlink _ => .ok ()
    | _, .malloc _ => true
    | _, .mutexLock => ()
    | _, .mutexUnlock => ()
  alloc _ := true
  detachSize := 16
  errno _ := 0
  failed_ne h c := by
    cases c <;> exact fun h => nomatch h
  fstat_lt h fd size hsize := by
    obtain rfl := Except.ok.inj hsize
    decide
  pread h fd off len size hsize hlen := by
    refine ⟨_, rfl, ?_, ?_, fun hin => ?_⟩
    · exact Nat.le_trans (Nat.min_le_left _ _) (Nat.min_le_left _ _)
    · rw [hsize]
      exact Nat.min_le_right _ _
    · rw [hsize]
      exact Nat.lt_min.2 ⟨Nat.lt_min.2 ⟨hlen, hmost⟩, Nat.sub_pos_of_lt hin⟩

/-- A service without an origin. -/
def Ctx.originless : Ctx := { Ctx.consumer with originPath := false }

/-- Reads that return all there is serve the whole file on both paths. -/
theorem paths_agree_whole :
    ((RangeEnv.reading 4 (by decide)).outcome Ctx.originless true false 0
        4).isSome = true ∧
      PathsAgree (RangeEnv.reading 4 (by decide)) Ctx.originless false 0 4 := by
  have hiff := @paths_agree_iff (RangeEnv.reading 4 (by decide)) Ctx.originless
    false 0 4 (by decide)
  refine ⟨(hiff.1 (by decide)).1, hiff.2.2 fun h fd g size hprep hsize =>
    ⟨fun _ => iff_of_true ⟨rfl, fun _ _ d hd => ?_⟩ ⟨rfl, rfl, rfl⟩,
      fun _ _ => iff_of_false (fun h => nomatch h.2.1)
        fun h => nomatch h.2.1⟩⟩
  obtain ⟨rfl, hlock⟩ := Prod.mk.inj (Option.some.inj hprep)
  obtain rfl := Prepared.locked.inj hlock
  obtain ⟨rfl, rfl⟩ := Prod.mk.inj (Option.some.inj hsize)
  obtain rfl := Except.ok.inj hd
  decide +kernel

/-- Reads that return two bytes at a time serve it only through the pool. -/
theorem paths_differ :
    ¬ PathsAgree (RangeEnv.reading 2 (by decide)) Ctx.originless false 0 4 := by
  intro hagree
  have hpool : ((RangeEnv.reading 2 (by decide)).outcome Ctx.originless true
      false 0 4).map Prod.snd = some [true] := by decide +kernel
  have hsync : ((RangeEnv.reading 2 (by decide)).outcome Ctx.originless false
      false 0 4).map Prod.snd = some [false] := by decide +kernel
  obtain ⟨o, ho, hend⟩ := Option.map_eq_some_iff.1 hpool
  obtain ⟨o', ho', hend'⟩ := Option.map_eq_some_iff.1 hsync
  rw [hagree o o' ho ho'] at hend
  exact absurd (hend.symm.trans hend') (by decide)

end Dyad
