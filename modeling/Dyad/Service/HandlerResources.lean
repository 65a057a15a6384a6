import Dyad.Resources
import Dyad.Service.Request

/-!
# What serving a request takes and gives back (`service/flux_module/dyad.c`)

The two handlers of the service once more, the worker and the completion of a
range request with them, each handle in its variable. A work item carries the
reference to its message, the buffer and the detached state of the DTL from the
handler to the worker and on to the completion, which destroys it.

The detached state is the DTL's: the Flux RPC keeps a reference to the message
in it, Margo does not (`dtl/flux_dtl.c`, `dtl/margo_dtl.c`).
-/

namespace Dyad.Resources

open Conc

/-! ## The exits -/

/-- `fetch_error_wo_flock`, and its like in the other handler. -/
def fetchErrorWoFlock : Program Unit := perform .respondError

/-- `fetch_error`. -/
def fetchError (fd : Nat) : Program Unit := do
  let _ ← perform (.releaseFlock .fd fd)
  let _ ← perform (.close .fd fd)
  fetchErrorWoFlock

/-- The transfer of what was read, and the response. Where it fails, the buffer
stays where it is. -/
def fetchSend (inbuf : Option Nat) : Program Unit := do
  let rc ← perform .establishConnection
  if rc.isError then
    fetchErrorWoFlock
  else
    let rc ← perform (.send inbuf)
    if rc.isError then
      fetchErrorWoFlock
    else
      perform .closeConnection
      perform (.returnBuffer .inbuf inbuf)
      perform .respondError

/-! ## `dyad_fetch_request_cb` -/

/-- The chunked read of a file, `readData` bytes read so far. -/
def fetchReadLoop (fd : Nat) (fileSize : Int) :
    (fuel : Nat) → (readData : Int) → Program (Option Int)
  | 0, readData => return some readData
  | fuel + 1, readData => do
    if readData < fileSize then
      let readSize := min (fileSize - readData) transferGranularity
      let inlen ← perform (.read fd readSize)
      if inlen ≤ 0 then
        return none
      else
        fetchReadLoop fd fileSize fuel (readData + inlen)
    else
      return some readData

/-- The read of a file. Every turn of the loop reads a byte. -/
def fetchRead (fd fileSize : Nat) : Program (Option Int) := do
  if fileSize < transferGranularity then
    let inlen ← perform (.read fd fileSize)
    return some inlen
  else
    fetchReadLoop fd fileSize fileSize 0

/-- The handler once the buffer has been asked for. -/
def fetchBuffered (ucxBuild : Bool) (inbuf : Option Nat) (fd fileSize : Nat) :
    Program Unit := do
  -- the size is copied into the buffer before anything looks at it
  if ucxBuild ∧ inbuf = none then
    .call .ub Empty.elim
  else if fileSize > 0 then
    match ← fetchRead fd fileSize with
    | none => fetchError fd
    | some inlen =>
      if inlen ≠ fileSize then
        fetchError fd
      else
        let _ ← perform (.releaseFlock .fd fd)
        let _ ← perform (.close .fd fd)
        fetchSend inbuf
  else
    fetchError fd

/-- The handler once the file is open. -/
def fetchOpened (ucxBuild : Bool) (fd : Nat) : Program Unit := do
  let rc ← perform (.sharedFlock .fd fd)
  if rc.isError then
    fetchError fd
  else
    let fileSize ← perform (.getFileSize .fd fd)
    let inbuf ← perform (.getBuffer .inbuf fileSize)
    fetchBuffered ucxBuild inbuf fd fileSize

/-- `dyad_fetch_request_cb`. -/
def dyadFetchRequestCb (ucxBuild : Bool) : Program Unit := do
  if ← perform .msgIsStreaming then
    if ← perform .msgGetUserid then
      let rc ← perform .rpcUnpack
      if rc.isError then
        fetchErrorWoFlock
      else
        let rc ← perform .rpcRespond
        if rc.isError then
          fetchErrorWoFlock
        else
          match ← perform (.open .fd) with
          | none => fetchErrorWoFlock
          | some fd => fetchOpened ucxBuild fd
    else
      fetchErrorWoFlock
  else
    fetchErrorWoFlock

/-! ## The detached request -/

/-- What `rpc_detach_request` leaves in `item->req_state`. -/
inductive ReqState
  | flux (state msg : Nat)
  | margo (state : Nat)

/-- `dyad_dtl_flux_detach_request` and `dyad_dtl_margo_detach_request`. -/
def rpcDetachRequest (margo : Bool) : Program (Option ReqState) := do
  if margo then
    match ← perform (.malloc .reqState 24) with
    | none => return none
    | some state => return some (.margo state)
  else
    match ← perform (.malloc .reqState 16) with
    | none => return none
    | some state =>
      let msg ← perform (.msgIncref .stateMsg)
      return some (.flux state msg)

/-- `dyad_dtl_flux_send_detached` and `dyad_dtl_margo_send_detached`. -/
def rpcSendDetached : ReqState → Program Rc
  | .flux state msg => do
    let sent ← perform (.respondRaw state)
    perform (.msgDecref .stateMsg msg)
    perform (.free .reqState state)
    return if sent then .ok else .fluxfail
  | .margo state => do
    let rc ← perform (.margoSendTo state)
    perform (.free .reqState state)
    return rc

/-- `dyad_dtl_flux_abort_detached` and `dyad_dtl_margo_abort_detached`. -/
def rpcAbortDetached : ReqState → Program Unit
  | .flux state msg => do
    perform (.msgDecref .stateMsg msg)
    perform (.free .reqState state)
  | .margo state => perform (.free .reqState state)

/-! ## The work item -/

/-- What a `struct dyad_fetch_work_item` owns, and what the worker looks at:
`ptr` is the item itself. -/
structure Item where
  ptr : Nat
  msg : Nat
  inbuf : Nat
  reqState : Option ReqState
  hasOrigin : Bool
  offset : UInt64
  length : UInt64
  sendDetachedIsThreadSafe : Bool
  rc : Rc

/-- `dyad_fetch_work_item_destroy`. -/
def dyadFetchWorkItemDestroy (item : Item) : Program Unit := do
  perform (.returnBuffer .inbuf (some item.inbuf))
  perform (.msgDecref .msg item.msg)
  perform (.free .item item.ptr)

/-- What the completion makes of a state that is still there. -/
def finishDetached (item : Item) (state : ReqState) : Program Unit := do
  if item.rc.isError then
    rpcAbortDetached state
  else
    let _ ← rpcSendDetached state
    return ()

/-- One turn of the loop of `dyad_fetch_completion_watcher_cb`. -/
def dyadFetchComplete (item : Item) : Program Unit :=
  match item.reqState with
  | some state => do
    finishDetached item state
    perform .respondError
    dyadFetchWorkItemDestroy item
  | none => do
    perform .respondError
    dyadFetchWorkItemDestroy item

/-- What the worker makes of the state, where it may. -/
def workerDetached (item : Item) (state : ReqState) : Program Item := do
  if item.rc.isError then
    rpcAbortDetached state
    return { item with reqState := none }
  else
    let rc ← rpcSendDetached state
    return { item with
      rc := if rc.isError then rc else item.rc
      reqState := none }

/-- The part of `dyad_fetch_worker_finish` before the queue. -/
def dyadFetchWorkerFinish (item : Item) : Program Item :=
  if item.sendDetachedIsThreadSafe then
    match item.reqState with
    | none => .call .ub Empty.elim
    | some state => workerDetached item state
  else
    return item

/-- The chunked read of the `rangeLen` bytes at `offset`, `readData` of them
read so far. -/
def rangeReadLoop (fd : Nat) (offset : UInt64) (rangeLen : Int) :
    (fuel : Nat) → (readData : Int) → Program (Option Int)
  | 0, readData => return some readData
  | fuel + 1, readData => do
    if readData < rangeLen then
      let readSize := min (rangeLen - readData) transferGranularity
      let inlen ← perform
        (.pread fd readSize (offset + UInt64.ofNat readData.toNat))
      if inlen ≤ 0 then
        return none
      else
        rangeReadLoop fd offset rangeLen fuel (readData + inlen)
    else
      return some readData

/-- The worker once the range is clamped. -/
def workerRead (item : Item) (fd : Nat) (rangeLen : Int) : Program Item := do
  let read ← rangeReadLoop fd item.offset rangeLen rangeLen.toNat 0
  let _ ← perform (.releaseFlock .fd fd)
  let _ ← perform (.close .fd fd)
  dyadFetchWorkerFinish
    { item with rc := if read.isSome then .ok else .badfio }

/-- The worker once the file is open. -/
def workerOpened (item : Item) (fd : Nat) : Program Item := do
  let rc ← perform (.sharedFlock .fd fd)
  if rc.isError then
    let _ ← perform (.close .fd fd)
    dyadFetchWorkerFinish { item with rc := .badfio }
  else
    let fileSize ← perform (.getFileSize .fd fd)
    workerRead item fd (clampRange item.offset item.length fileSize)

/-- The worker once the range is there. -/
def workerEnsured (item : Item) (rc : Rc) : Program Item := do
  if rc.isError then
    dyadFetchWorkerFinish { item with rc := .badfio }
  else
    match ← perform (.open .fd) with
    | none => dyadFetchWorkerFinish { item with rc := .badfio }
    | some fd => workerOpened item fd

/-- `dyad_fetch_worker_process`. -/
def dyadFetchWorkerProcess (item : Item) : Program Item := do
  if item.hasOrigin then
    let rc ← perform (.rangeCacheEnsure item.offset item.length)
    workerEnsured item rc
  else
    workerEnsured item .ok

/-! ## `dyad_fetch_range_request_cb` -/

/-- The threaded path once the request is detached. -/
def rangeDetached (cfg : RangeConfig) (offset length : UInt64)
    (ptr msg : Nat) (state : ReqState) : Program (Option Item) := do
  match ← perform (.getBuffer .inbuf length.toNat) with
  | none =>
    rpcAbortDetached state
    perform (.msgDecref .msg msg)
    perform (.free .item ptr)
    fetchErrorWoFlock
    return none
  | some inbuf =>
    return some {
      ptr, msg, inbuf
      reqState := some state
      hasOrigin := cfg.ctx.originPath
      offset, length
      sendDetachedIsThreadSafe := cfg.sendDetachedIsThreadSafe
      rc := .ok }

/-- The threaded path: the work item it enqueued. -/
def rangeEnqueue (cfg : RangeConfig) (offset length : UInt64) :
    Program (Option Item) := do
  match ← perform (.malloc .item workItemSize) with
  | none =>
    fetchErrorWoFlock
    return none
  | some ptr =>
    let msg ← perform (.msgIncref .msg)
    match ← rpcDetachRequest (cfg.ctx.dtlMode = .margo) with
    | none =>
      perform (.msgDecref .msg msg)
      perform (.free .item ptr)
      fetchErrorWoFlock
      return none
    | some state => rangeDetached cfg offset length ptr msg state

/-- The read of the synchronous path. -/
def rangeRead (fd : Nat) (offset : UInt64) (rangeLen : Int) :
    Program (Option Int) := do
  if rangeLen > 0 then
    if rangeLen < transferGranularity then
      let inlen ← perform (.pread fd rangeLen offset)
      return some inlen
    else
      rangeReadLoop fd offset rangeLen rangeLen.toNat 0
  else
    -- nothing is compared then
    return some rangeLen

/-- The synchronous path once the range is clamped. -/
def rangeClamped (fd : Nat) (offset : UInt64) (rangeLen : Int) :
    Program Unit := do
  match ← perform (.getBuffer .inbuf (rangeLen % 2 ^ 64)) with
  | none => fetchError fd
  | some inbuf =>
    match ← rangeRead fd offset rangeLen with
    | none => fetchError fd
    | some inlen =>
      if inlen ≠ rangeLen then
        fetchError fd
      else
        let _ ← perform (.releaseFlock .fd fd)
        let _ ← perform (.close .fd fd)
        fetchSend (some inbuf)

/-- The synchronous path once the file is open. -/
def rangeOpened (fd : Nat) (offset length : UInt64) : Program Unit := do
  let rc ← perform (.sharedFlock .fd fd)
  if rc.isError then
    fetchError fd
  else
    let fileSize ← perform (.getFileSize .fd fd)
    rangeClamped fd offset (clampRange offset length fileSize)

/-- The synchronous path once the range is there. -/
def rangeEnsured (offset length : UInt64) (rc : Rc) : Program Unit := do
  if rc.isError then
    fetchErrorWoFlock
  else
    match ← perform (.open .fd) with
    | none => fetchErrorWoFlock
    | some fd => rangeOpened fd offset length

/-- The synchronous path. -/
def rangeSync (cfg : RangeConfig) (offset length : UInt64) : Program Unit := do
  if cfg.ctx.originPath then
    let rc ← perform (.rangeCacheEnsure offset length)
    rangeEnsured offset length rc
  else
    rangeEnsured offset length .ok

/-- `dyad_fetch_range_request_cb`: the work item it enqueued, if it did not
answer the request itself. -/
def dyadFetchRangeRequestCb (cfg : RangeConfig) : Program (Option Item) := do
  if ← perform .msgIsStreaming then
    if ← perform .msgGetUserid then
      -- the UCX DTL leaves `rpc_unpack_range` null
      if cfg.ctx.dtlMode = .ucx then
        .call .ub Empty.elim
      else
        match ← perform .rpcUnpackRange with
        | none =>
          fetchErrorWoFlock
          return none
        | some (offset, length) =>
          let rc ← perform .rpcRespond
          if rc.isError then
            fetchErrorWoFlock
            return none
          else if cfg.workers then
            rangeEnqueue cfg offset length
          else
            rangeSync cfg offset length
            return none
    else
      fetchErrorWoFlock
      return none
  else
    fetchErrorWoFlock
    return none

/-- What is done with a work item that was enqueued. -/
def processItem : Option Item → Program Unit
  | none => return ()
  | some item => do
    let item ← dyadFetchWorkerProcess item
    dyadFetchComplete item

/-- All that is done for a request. -/
def serve : Request → Program Unit
  | .whole ucxBuild => dyadFetchRequestCb ucxBuild
  | .range cfg => do
    let item ← dyadFetchRangeRequestCb cfg
    processItem item

/-! ## What decides the balance -/

/-- A buffer was obtained from the DTL. -/
def gotBuffer : Prog.Event Call.Res → Bool
  | ⟨.getBuffer .., inbuf⟩ => inbuf.isSome
  | _ => false

/-- A buffer was sent from the handler. -/
def sent : Prog.Event Call.Res → Bool
  | ⟨.send _, rc⟩ => !rc.isError
  | _ => false

/-- The request is served by the workers. -/
def threaded : Request → Bool
  | .whole _ => false
  | .range cfg => cfg.workers

end Dyad.Resources
