import Dyad.Resources

/-!
# What consuming takes and gives back (`client/dyad_client.c`)

`dyad_consume`, `dyad_consume_w_metadata` and `dyad_consume_range` once more,
with each handle in its variable. The two whole-file functions leave through
`consume_done` and `consume_close`, and the labels do not stand for the same in
both: the first closes the lock descriptor in `dyad_consume` and only returns
the buffer in the other. `dyad_consume_range` hands a buffer to its caller, in
two output parameters that the receiving side of a DTL fills in before the end
of the stream is known.
-/

namespace Dyad.Resources

open Conc PathOps

variable (hash : CString → UInt32 → UInt32)
  (realpath : CString → Option CString)

/-- The name has a user path. -/
def tracked (ctx : DyadCtx) (fname : CString) : Bool :=
  (userPathOf hash realpath ctx.cons (isRelativeName ctx fname) fname).isSome

/-- The file has not been fetched yet, for all that its size says. -/
def unfetched (ctx : DyadCtx) (fileSize : Int) : Bool :=
  !ctx.useFsLocks || fileSize ≤ 0

/-- The buffer given back, if there is one. -/
def returnFileData : Option Nat → Program Unit
  | some buf => perform (.returnBuffer .fileData (some buf))
  | none => return ()

/-- The label `consume_close`, or its like: `ctx->reenter = true`. -/
def consumeClose {α : Type} (ctx : Option DyadCtx) (r : α) : Program α :=
  match ctx with
  | none => .call .ub Empty.elim
  | some _ => do
    perform (.setReenter true)
    return r

/-! ## `dyad_consume` -/

/-- The `consume_done` of `dyad_consume`. -/
def consumeDone (lockFd : Nat) (fileData : Option Nat) (rc : Rc) :
    Program Rc := do
  let closed ← perform (.close .lockFd lockFd)
  returnFileData fileData
  return if closed then rc else .badfio

/-- The lock given back before it. -/
def consumeUnlock (lockFd : Nat) (fileData : Option Nat) (rc : Rc) :
    Program Rc := do
  let _ ← perform (.releaseFlock .lockFd lockFd)
  consumeDone lockFd fileData rc

/-- The end of a consume from node-local storage. -/
def consumeStored (lockFd : Nat) (fileData : Option Nat) (rc : Rc) :
    Program Rc := do
  let _ ← perform (.releaseFlock .lockFd lockFd)
  perform .cacheMaybeEvict
  consumeDone lockFd fileData rc

/-- A file on shared storage, under the lock. -/
def consumeShared (ctx : DyadCtx) (lockFd : Nat) (fileSize : Int) :
    Program Rc := do
  let _ ← perform (.releaseFlock .lockFd lockFd)
  if unfetched ctx fileSize then
    match ← perform .fetchMetadata with
    | .error rc => consumeDone lockFd none rc
    -- the metadata is not looked at again
    | .ok _ => consumeDone lockFd none .ok
  else
    consumeDone lockFd none .ok

/-- The data stored through a second descriptor. -/
def consumeStore (lockFd mdata : Nat) (fileData : Option Nat) :
    Program Rc := do
  match ← perform (.open .ioFd) with
  -- `consume_close`
  | none => return .badfio
  | some ioFd =>
    let rc ← perform (.consStore ioFd)
    perform (.freeMetadata mdata)
    if ← perform (.close .ioFd ioFd) then
      if rc.isError then
        consumeUnlock lockFd fileData rc
      else
        consumeStored lockFd fileData rc
    else
      consumeUnlock lockFd fileData .badfio

/-- A file on node-local storage, under the lock. -/
def consumeLocal (ctx : DyadCtx) (lockFd : Nat) (fileSize : Int) :
    Program Rc := do
  if unfetched ctx fileSize then
    match ← perform .fetchMetadata with
    | .error rc => consumeUnlock lockFd none rc
    | .ok none => consumeUnlock lockFd none .ok
    | .ok (some mdata) =>
      let (rc, fileData) ← perform .getData
      if rc.isError then
        consumeUnlock lockFd fileData rc
      else
        consumeStore lockFd mdata fileData
  else
    consumeStored lockFd none .ok

/-- `dyad_consume` once the file is open. -/
def consumeOpened (ctx : DyadCtx) (lockFd : Nat) : Program Rc := do
  let rc ← perform (.exclFlock .lockFd lockFd)
  if rc.isError then
    consumeUnlock lockFd none rc
  else
    let fileSize ← perform (.getFileSize .lockFd lockFd)
    if ctx.sharedStorage then
      consumeShared ctx lockFd fileSize
    else
      consumeLocal ctx lockFd fileSize

/-- `dyad_consume` before `consume_close`. -/
def consumeBody (ctx : Option DyadCtx) (fname : CString) : Program Rc :=
  match ctx with
  | none => return .noctx
  | some ctx => do
    if ctx.h.isNone then
      return .noctx
    else if ctx.cons.managedPath.isNone then
      return .badmanagedpath
    else if tracked hash realpath ctx fname then
      perform (.setReenter false)
      match ← perform (.open .lockFd) with
      | none => return .badfio
      | some lockFd => consumeOpened ctx lockFd
    else
      return .ok

/-- `dyad_consume`. -/
def dyadConsume (ctx : Option DyadCtx) (fname : CString) : Program Rc := do
  let rc ← consumeBody hash realpath ctx fname
  consumeClose ctx rc

/-! ## `dyad_consume_w_metadata` -/

/-- The `consume_done` of `dyad_consume_w_metadata`. -/
def consumeReturn (fileData : Option Nat) (rc : Rc) : Program Rc := do
  returnFileData fileData
  return rc

/-- The end of a consume with metadata. -/
def consumeWMetadataStored (lockFd : Nat) (fileData : Option Nat) :
    Program Rc := do
  let _ ← perform (.releaseFlock .lockFd lockFd)
  perform .cacheMaybeEvict
  if ← perform (.close .lockFd lockFd) then
    consumeReturn fileData .ok
  else
    consumeReturn fileData .badfio

/-- The data stored through a second descriptor. -/
def consumeWMetadataStore (lockFd : Nat) (fileData : Option Nat) :
    Program Rc := do
  match ← perform (.open .ioFd) with
  | none => return .badfio
  | some ioFd =>
    let rc ← perform (.consStore ioFd)
    if ← perform (.close .ioFd ioFd) then
      if rc.isError then
        -- the descriptor is closed by now
        let _ ← perform (.releaseFlock .ioFd ioFd)
        consumeReturn fileData rc
      else
        consumeWMetadataStored lockFd fileData
    else
      let _ ← perform (.releaseFlock .lockFd lockFd)
      consumeReturn fileData .badfio

/-- `dyad_consume_w_metadata` once the file is open. -/
def consumeWMetadataOpened (lockFd : Nat) : Program Rc := do
  let rc ← perform (.exclFlock .lockFd lockFd)
  if rc.isError then
    let _ ← perform (.releaseFlock .lockFd lockFd)
    return rc
  else
    let fileSize ← perform (.getFileSize .lockFd lockFd)
    if fileSize ≤ 0 then
      let (rc, fileData) ← perform .getData
      if rc.isError then
        let _ ← perform (.releaseFlock .lockFd lockFd)
        consumeReturn fileData rc
      else
        consumeWMetadataStore lockFd fileData
    else
      consumeWMetadataStored lockFd none

/-- `dyad_consume_w_metadata` before `consume_close`; `mdata` is whether there
is any. -/
def consumeWMetadataBody (ctx : Option DyadCtx) (mdata : Bool) : Program Rc :=
  match ctx with
  | none => return .noctx
  | some ctx => do
    if ctx.h.isNone then
      return .noctx
    else if mdata = false then
      return .ok
    else if ctx.cons.managedPath.isNone then
      return .badmanagedpath
    else
      perform (.setReenter false)
      match ← perform (.open .lockFd) with
      | none => return .badfio
      | some lockFd => consumeWMetadataOpened lockFd

/-- `dyad_consume_w_metadata`. -/
def dyadConsumeWMetadata (ctx : Option DyadCtx) (mdata : Bool) :
    Program Rc := do
  let rc ← consumeWMetadataBody ctx mdata
  consumeClose ctx rc

/-- A call that consumes a whole file. -/
inductive Consume
  | plain (fname : CString)
  | withMetadata (mdata : Bool)

/-- The call, in its context. -/
def Consume.run (ctx : Option DyadCtx) : Consume → Program Rc
  | .plain fname => dyadConsume hash realpath ctx fname
  | .withMetadata mdata => dyadConsumeWMetadata ctx mdata

/-- The call leaves nothing behind: all is given back, the lock is dropped and
the reenter flag is true. -/
structure LeavesNothing (h : History) : Prop where
  balanced : Balanced h
  reenter : h.findSome? reenterSet = some true

/-- An answer after which the call leaves through the labels that give
everything back. -/
def Consume.passes (ctx : Option DyadCtx) : Consume →
    Prog.Event Call.Res → Bool
  | .plain _, ⟨.fetchMetadata, .ok (some _)⟩ => !ctx.any (·.sharedStorage)
  | .plain _, ⟨.getData, (rc, _)⟩ => !rc.isError
  | .plain _, ⟨.open .ioFd, fd⟩ => fd.isSome
  | .withMetadata _, ⟨.exclFlock .., rc⟩ => !rc.isError
  | .withMetadata _, ⟨.getData, (rc, _)⟩ => !rc.isError
  | .withMetadata _, ⟨.open .ioFd, fd⟩ => fd.isSome
  | .withMetadata _, ⟨.consStore _, rc⟩ => !rc.isError
  | .withMetadata _, ⟨.close .ioFd _, closed⟩ => closed
  | _, _ => true

/-! ## `dyad_consume_range` -/

/-- The output parameters `*data` and `*data_len`. -/
structure Out where
  data : Option Nat
  dataLen : Nat

/-- What they are set to first. -/
def Out.empty : Out := ⟨none, 0⟩

/-- `dyad_dtl_flux_get_buffer`. -/
def dyadDtlFluxGetBuffer (size : Nat) (buf : Option Nat) :
    Program (Rc × Option Nat) := do
  if buf.isSome then
    return (.badbuf, buf)
  else
    match ← perform (.posixMemalign .data size) with
    | none => return (.sysfail, none)
    | some buf => return (.ok, some buf)

/-- `dyad_dtl_flux_recv`, for a DTL handle with a future. -/
def dyadDtlFluxRecv (out : Out) : Program (Rc × Out) := do
  match ← perform .rpcGetRaw with
  | .error enodata => return (if enodata then .rpcFinished else .badrpc, out)
  | .ok len =>
    match ← dyadDtlFluxGetBuffer len out.data with
    | (.ok, some buf) =>
      perform (.memcpy .data buf len)
      return (.ok, ⟨some buf, len⟩)
    | (rc, _) => return (rc, ⟨none, 0⟩)

/-- `dyad_dtl_margo_recv`. What `malloc` returned is not looked at. -/
def dyadDtlMargoRecv : Program (Rc × Out) := do
  let len ← perform .recvReady
  match ← perform (.malloc .data len) with
  | none => .call .ub Empty.elim
  | some buf =>
    perform (.memcpy .data buf len)
    return (.ok, ⟨some buf, len⟩)

/-- `dtl_handle->recv`, in the modes that fetch ranges. -/
def dyadDtlRecv (margo : Bool) (out : Out) : Program (Rc × Out) :=
  if margo then dyadDtlMargoRecv else dyadDtlFluxRecv out

/-- `get_range_done`; `f` is whether there is a future to wait on. -/
def getRangeDone (f : Bool) (rc : Rc) (out : Out) : Program (Rc × Out) := do
  if rc ≠ .rpcFinished ∧ rc ≠ .badrpc then
    if f then
      match ← perform .rpcGet with
      | .error true => return (rc, out)
      | _ => return (.badrpc, out)
    else
      return (.badrpc, out)
  else
    return (rc, out)

/-- `dyad_get_data_range` once the request is out. -/
def getRangeResponse (margo : Bool) (out : Out) : Program (Rc × Out) := do
  let rc ← perform .rpcRecvResponse
  if rc.isError then
    getRangeDone true rc out
  else
    let rc ← perform .establishConnection
    if rc.isError then
      getRangeDone true rc out
    else
      let (rc, out) ← dyadDtlRecv margo out
      perform .closeConnection
      getRangeDone true rc out

/-- `dyad_get_data_range`. -/
def dyadGetDataRange (margo : Bool) (offset length : UInt64) (out : Out) :
    Program (Rc × Out) := do
  let rc ← perform (.rpcPackRange offset length)
  if rc.isError then
    getRangeDone false rc out
  else if ← perform .fluxRpcPack then
    getRangeResponse margo out
  else
    getRangeDone false .badrpc out

/-- The read of a local file under its lock. -/
def consumeRangeRead (fd : Nat) (offset length : UInt64) :
    Program (Rc × Out) := do
  match ← perform (.malloc .data length.toNat) with
  | none =>
    let _ ← perform (.releaseFlock .fd fd)
    let _ ← perform (.close .fd fd)
    return (.sysfail, Out.empty)
  | some buf =>
    let nread ← perform (.pread fd length.toNat offset)
    let _ ← perform (.releaseFlock .fd fd)
    let _ ← perform (.close .fd fd)
    if nread < 0 ∨ nread.toNat ≠ length.toNat then
      perform (.free .data buf)
      return (.badfio, Out.empty)
    else
      return (.ok, ⟨some buf, length.toNat⟩)

/-- A local file, once the range is there. -/
def consumeRangeEnsured (offset length : UInt64) (rc : Rc) :
    Program (Rc × Out) := do
  if rc.isError then
    return (rc, Out.empty)
  else
    match ← perform (.open .fd) with
    | none => return (.badfio, Out.empty)
    | some fd =>
      let rc ← perform (.sharedFlock .fd fd)
      if rc.isError then
        let _ ← perform (.close .fd fd)
        return (rc, Out.empty)
      else
        consumeRangeRead fd offset length

/-- The range of a file that is local to the node. -/
def consumeRangeLocal (ctx : DyadCtx) (offset length : UInt64) :
    Program (Rc × Out) := do
  if ctx.originPath.isSome then
    let rc ← perform (.rangeCacheEnsure offset length)
    consumeRangeEnsured offset length rc
  else
    consumeRangeEnsured offset length .ok

/-- `dyad_consume_range` from the metadata on. -/
def consumeRangeTracked (ctx : DyadCtx) (margo : Bool)
    (offset length : UInt64) : Program (Rc × Out) := do
  perform (.setReenter false)
  match ← perform .fetchMetadata with
  | .error rc => return (rc, Out.empty)
  | .ok none => consumeRangeLocal ctx offset length
  | .ok (some mdata) =>
    let r ← dyadGetDataRange margo offset length Out.empty
    perform (.freeMetadata mdata)
    return r

/-- `dyad_consume_range` before `consume_range_close`. -/
def consumeRangeBody (ctx : Option DyadCtx) (fname : CString)
    (offset length : UInt64) : Program (Rc × Out) :=
  match ctx with
  | none => return (.noctx, Out.empty)
  | some ctx =>
    if ctx.h.isNone then
      return (.noctx, Out.empty)
    else if ctx.cons.managedPath.isNone then
      return (.badmanagedpath, Out.empty)
    else
      match ctx.dtlHandle with
      | none => return (.baddtlmode, Out.empty)
      | some dtl =>
        if dtl.mode = .ucx then
          return (.baddtlmode, Out.empty)
        else if tracked hash realpath ctx fname then
          consumeRangeTracked ctx (dtl.mode = .margo) offset length
        else
          return (.badmanagedpath, Out.empty)

/-- `dyad_consume_range`. -/
def dyadConsumeRange (ctx : Option DyadCtx) (fname : CString)
    (offset length : UInt64) : Program (Rc × Out) := do
  let r ← consumeRangeBody hash realpath ctx fname offset length
  consumeClose ctx r

/-- A buffer of that size was obtained for the caller. -/
def Allocated (h : History) (buf size : Nat) : Prop :=
  ⟨.malloc .data size, some buf⟩ ∈ h ∨ ⟨.posixMemalign .data size, some buf⟩ ∈ h

/-- What the caller is told about the output parameters: after an error they
are empty, and nothing is left; after a success there is one buffer left, of
the length that is given. -/
def Contract (h : History) (r : Rc × Out) : Prop :=
  if r.1 = .ok then
    ∃ buf, r.2.data = some buf ∧ Allocated h buf r.2.dataLen ∧
      ∀ k x, HandleEvent.Live (ledger h) ⟨k, x⟩ ↔ k = .data ∧ x = buf
  else
    r.2 = Out.empty ∧ HandleEvent.Settled (ledger h)

/-- A payload was copied into a buffer, and the stream did not end there. -/
def Overrun (h : History) : Prop :=
  (∃ buf len, ⟨.memcpy .data buf len, ()⟩ ∈ h) ∧
    ∃ r, ⟨.rpcGet, r⟩ ∈ h ∧ r ≠ .error true

end Dyad.Resources
