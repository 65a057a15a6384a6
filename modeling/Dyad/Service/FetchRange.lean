import Dyad.Service.Fetch

/-!
# The range fetch handler and its workers (`service/flux_module/dyad.c`)

`dyad_fetch_range_request_cb` serves a byte range. When the DTL can detach a
request and the worker pool is running it only prepares a work item and
enqueues it; a worker makes the range present, reads it and finishes the item,
and the reactor's completion watcher sends what has not been sent and ends
the response stream. Otherwise the handler does all of it itself.

A work item moves between the three: what the handler puts into it, what the
worker adds, and what the completion reads back. The range is clamped against
the size of the file in signed arithmetic, on an offset and a length that came
with the request, so the clamped length may be negative; nothing is read then,
and it is sent as a `size_t`.
-/

namespace Dyad

open Conc Posix

/-- A `size_t` read as a `ssize_t`. -/
def toSsize (x : UInt64) : Int := (x.toNat : Int).bmod (2 ^ 64)

theorem bmod_cases {n : Nat} (h : n < 2 ^ 64) :
    (n < 2 ^ 63 ∧ (n : Int).bmod (2 ^ 64) = n) ∨
      (2 ^ 63 ≤ n ∧ (n : Int).bmod (2 ^ 64) = n - 2 ^ 64) := by
  rw [Int.bmod_def]
  split <;> omega

/-- The lower half of the range stays, the upper half is negative. -/
theorem toSsize_cases (x : UInt64) :
    (x.toNat < 2 ^ 63 ∧ toSsize x = x.toNat) ∨
      (2 ^ 63 ≤ x.toNat ∧ toSsize x = x.toNat - 2 ^ 64) :=
  bmod_cases x.toNat_lt

theorem toSsize_of_lt {x : UInt64} (h : x.toNat < 2 ^ 63) :
    toSsize x = (x.toNat : Int) :=
  (toSsize_cases x).elim And.right fun h' => absurd h'.1 (Nat.not_le.2 h)

theorem lt_of_toSsize {x : UInt64} (h : ¬ toSsize x < 0) : x.toNat < 2 ^ 63 := by
  have hx := x.toNat_lt
  have hcases := toSsize_cases x
  omega

/-- The range that is served out of a file of `fileSize` bytes. -/
def clampRange (offset length : UInt64) (fileSize : Nat) : Int :=
  if toSsize offset ≥ fileSize then 0
  else if toSsize (offset + length) > fileSize then fileSize - toSsize offset
  else toSsize length

/-- The fields of `struct dyad_fetch_work_item` that are read again, and what
the worker read into its buffer. -/
structure WorkItem where
  hasOrigin : Bool
  offset : UInt64
  length : UInt64
  sendDetachedIsThreadSafe : Bool
  reqState : Bool
  rc : Rc
  savedErrno : Errno
  rangeLen : Int
  content : Bytes Byte

/-- `sizeof (struct dyad_fetch_work_item)`. -/
def workItemSize : Nat := 8280

/-- What is handed to the DTL: `content`, sent with the length `rangeLen`. A
length past what was read takes the bytes behind it in the buffer. -/
def rangePayload (content : Bytes Byte) (rangeLen : Int) : Bytes Byte :=
  content.truncate (rangeLen % 2 ^ 64).toNat

/-- `pread` at an offset of type `off_t`. -/
def preadAt (fd : Nat) (off : UInt64) (len : Nat) :
    Program (Option (Bytes Byte)) := do
  if toSsize off < 0 then
    perform (.setErrno Errno.EINVAL)
    return none
  else
    match ← sys (.pread fd off.toNat len) with
    | .ok d => return some d
    | .error _ => return none

/-- The chunked read of the `rangeLen` bytes at `offset`. A turn that reads
nothing, or fails, ends it. -/
def rangeReadLoop (fd : Nat) (offset : UInt64) (rangeLen : Nat) :
    (fuel : Nat) → (content : Bytes Byte) → Program (Option (Bytes Byte))
  | 0, content => return some content
  | fuel + 1, content => do
    if content.size < rangeLen then
      let readSize := min (rangeLen - content.size) transferGranularity
      match ← preadAt fd (offset + UInt64.ofNat content.size) readSize with
      | none => return none
      | some d =>
        if d.size = 0 then
          return none
        else
          rangeReadLoop fd offset rangeLen fuel (content.append d)
    else
      return some content

/-! ## The workers -/

/-- The part of `dyad_fetch_worker_finish` before the queue: a backend whose
detached send may run on any thread sends here. -/
def dyadFetchWorkerFinish (item : WorkItem) : Program WorkItem := do
  if item.sendDetachedIsThreadSafe then
    if item.rc.isError = false then
      match ← perform
          (.rpcSendDetached (rangePayload item.content item.rangeLen)) with
      | .error rc =>
        return { item with rc, savedErrno := Errno.ECOMM, reqState := false }
      | .ok _ => return { item with reqState := false }
    else
      perform .rpcAbortDetached
      return { item with reqState := false }
  else
    return item

/-- The worker's error exit. -/
def workerError (item : WorkItem) (savedErrno : Errno) : Program WorkItem :=
  dyadFetchWorkerFinish { item with rc := .badfio, savedErrno }

/-- The worker once the file is open. -/
def workerOpened (item : WorkItem) (fd : Nat) : Program WorkItem := do
  let rc ← dyadSharedFlock fd
  if rc.isError then
    let savedErrno ← perform .errno
    let _ ← sys (.close fd)
    workerError item savedErrno
  else
    let fileSize ← getFileSize fd
    let rangeLen := clampRange item.offset item.length fileSize
    match ← rangeReadLoop fd item.offset rangeLen.toNat rangeLen.toNat
        Bytes.empty with
    | none =>
      let errno ← perform .errno
      let _ ← dyadReleaseFlock fd
      let _ ← sys (.close fd)
      workerError item (if errno ≠ 0 then errno else Errno.EIO)
    | some content =>
      let _ ← dyadReleaseFlock fd
      let _ ← sys (.close fd)
      dyadFetchWorkerFinish { item with rc := .ok, rangeLen, content }

/-- `dyad_fetch_worker_process`: the item as the completion will find it. -/
def dyadFetchWorkerProcess (ctx : Ctx) (item : WorkItem) :
    Program WorkItem := do
  let rc ← if item.hasOrigin then
      dyadRangeCacheEnsure ctx item.offset item.length
    else
      pure .ok
  if rc.isError then
    workerError item Errno.EIO
  else
    match ← sys (.open .data false false) with
    | .error _ =>
      let savedErrno ← perform .errno
      workerError item savedErrno
    | .ok fd => workerOpened item fd

/-- One turn of the loop of `dyad_fetch_completion_watcher_cb`. -/
def dyadFetchComplete (item : WorkItem) : Program Unit := do
  if item.rc.isError = false then
    if item.reqState then
      let _ ← perform
        (.rpcSendDetached (rangePayload item.content item.rangeLen))
      perform (.respondError Errno.ENODATA)
    else
      perform (.respondError Errno.ENODATA)
  else
    if item.reqState then
      perform .rpcAbortDetached
      perform (.respondError item.savedErrno)
    else
      perform (.respondError item.savedErrno)

/-! ## The handler -/

/-- What the handler is configured with: the context, whether the pool runs
any worker, and whether the DTL's detached send is thread-safe. -/
structure RangeConfig where
  ctx : Ctx
  workers : Bool
  sendDetachedIsThreadSafe : Bool

/-- The threaded path: prepare a work item and enqueue it. -/
def rangeEnqueue (cfg : RangeConfig) (offset length : UInt64) :
    Program (Option WorkItem) := do
  if ← sys (.malloc workItemSize) then
    match ← perform .rpcDetachRequest with
    | .error _ =>
      fetchErrorWith Errno.EPROTO
      return none
    | .ok _ =>
      match ← perform (.getBuffer length.toNat) with
      | .error _ =>
        perform .rpcAbortDetached
        fetchErrorWith Errno.ENOMEM
        return none
      | .ok _ =>
        return some {
          hasOrigin := cfg.ctx.originPath
          offset, length
          sendDetachedIsThreadSafe := cfg.sendDetachedIsThreadSafe
          reqState := true
          rc := .ok
          savedErrno := 0
          rangeLen := 0
          content := Bytes.empty }
  else
    fetchErrorWith Errno.ENOMEM
    return none

/-- The read of the synchronous path. -/
def rangeRead (fd : Nat) (offset : UInt64) (rangeLen : Int) :
    Program (Option (Bytes Byte)) :=
  if rangeLen > 0 then
    if rangeLen < transferGranularity then
      preadAt fd offset rangeLen.toNat
    else
      rangeReadLoop fd offset rangeLen.toNat rangeLen.toNat Bytes.empty
  else
    return some Bytes.empty

/-- The synchronous path once the range is clamped. -/
def rangeClamped (fd : Nat) (offset : UInt64) (rangeLen : Int) :
    Program Unit := do
  match ← perform (.getBuffer (rangeLen % 2 ^ 64).toNat) with
  | .error _ => fetchError fd
  | .ok _ =>
    match ← rangeRead fd offset rangeLen with
    | none => fetchError fd
    | some content =>
      if rangeLen > 0 ∧ (content.size : Int) ≠ rangeLen then
        fetchError fd
      else
        let _ ← dyadReleaseFlock fd
        let _ ← sys (.close fd)
        fetchSend (rangePayload content rangeLen)

/-- The synchronous path once the file is open. -/
def rangeOpened (fd : Nat) (offset length : UInt64) : Program Unit := do
  let rc ← dyadSharedFlock fd
  if rc.isError then
    fetchError fd
  else
    let fileSize ← getFileSize fd
    rangeClamped fd offset (clampRange offset length fileSize)

/-- The synchronous path. -/
def rangeSync (cfg : RangeConfig) (offset length : UInt64) : Program Unit := do
  let rc ← if cfg.ctx.originPath then
      dyadRangeCacheEnsure cfg.ctx offset length
    else
      pure .ok
  if rc.isError then
    fetchErrorWith Errno.EIO
  else
    match ← sys (.open .data false false) with
    | .error _ => fetchErrorWoFlock
    | .ok fd => rangeOpened fd offset length

/-- `dyad_fetch_range_request_cb`: the work item it enqueued, if it did not
answer the request itself. The UCX DTL leaves `rpc_unpack_range` and
`rpc_detach_request` null. -/
def dyadFetchRangeRequestCb (cfg : RangeConfig) :
    Program (Option WorkItem) := do
  if ← perform .msgIsStreaming then
    match ← perform .msgGetUserid with
    | .error _ =>
      fetchErrorWoFlock
      return none
    | .ok _ =>
      if cfg.ctx.dtlMode = .ucx then
        ub
      else
        match ← perform .rpcUnpackRange with
        | .error _ =>
          fetchErrorWith Errno.EPROTO
          return none
        | .ok (offset, length) =>
          match ← perform .rpcRespond with
          | .error _ =>
            fetchErrorWoFlock
            return none
          | .ok _ =>
            if cfg.workers then
              rangeEnqueue cfg offset length
            else
              rangeSync cfg offset length
              return none
  else
    fetchErrorWith Errno.EPROTO
    return none

end Dyad
