import Dyad.Node

/-!
# Transferring a file to the consumer (`client/dyad_client.c`, `dtl/`)

`dyad_get_data` asks the owner's service for a file over a streaming RPC,
receives it through the DTL and waits for the end of the stream. What the
receiving side of each DTL does, it does here: the Flux RPC takes the next
response, Margo waits for the flag `data_ready_rpc` sets, and UCX polls the
front of the buffer the producer puts into, which `rpc_pack` has cleared.
`establish_connection` and `rpc_recv_response` of a consumer return
`DYAD_RC_OK` in every mode.

In a build with UCX the file's size lies in front of its content. The client
steps over it when the mode selected at run time is UCX.
-/

namespace Dyad

open Conc Posix

/-- What `dyad_get_data` calls. -/
inductive GetCall
  | rpcPack
  | fluxRpcPack
  | rpcGetRaw
  | getBuffer (size : Nat)
  -- `recv_ready`, then the buffer that came with it
  | recvReady
  | malloc (size : Nat)
  -- the size in front of the UCX buffer is no longer zero
  | netBufReady
  | netBuf
  | rpcGet
  | ub

/-- What each call answers. -/
abbrev GetCall.Res : GetCall → Type
  | .rpcPack => Except Rc Unit
  | .fluxRpcPack => Bool
  | .rpcGetRaw => Except Errno (Bytes Byte)
  | .getBuffer _ => Except Rc Unit
  | .recvReady => Bytes Byte
  | .malloc _ => Bool
  | .netBufReady => Unit
  | .netBuf => Bytes Byte
  | .rpcGet => Except Errno Unit
  | .ub => Empty

/-- A program over these calls. -/
abbrev GetProgram (α : Type) := Prog GetCall.Res α

/-- What `dyad_get_data` gives back: the bytes behind `*file_data`, and
`*file_len`. -/
structure FileData where
  rc : Rc
  data : Bytes Byte
  len : Nat

/-- Nothing was received. -/
def FileData.failed (rc : Rc) : FileData := ⟨rc, Bytes.empty, 0⟩

/-- The buffer holds the file, and the length is its size. -/
def FileData.Exact (r : FileData) (content : Bytes Byte) : Prop :=
  r.len = content.size ∧ r.data.truncate r.len = content

/-- The first `k` bytes of `b` as a number, least byte first. -/
def prefixValue (b : Bytes Byte) : Nat → Nat
  | 0 => 0
  | k + 1 => prefixValue b k + (b.get k).toNat * 256 ^ k

/-- The `ssize_t` in front of a buffer. -/
def readLen (b : Bytes Byte) : Int := (prefixValue b 8 : Int).bmod (2 ^ 64)

/-! ## The DTLs -/

/-- `dyad_dtl_flux_recv`. -/
def dyadDtlFluxRecv : GetProgram FileData := do
  match ← Prog.perform GetCall.rpcGetRaw with
  | .error e =>
    return .failed (if e = Errno.ENODATA then .rpcFinished else .badrpc)
  | .ok tmpBuf =>
    match ← Prog.perform (GetCall.getBuffer tmpBuf.size) with
    | .error rc => return .failed rc
    | .ok _ => return ⟨.ok, tmpBuf, tmpBuf.size⟩

/-- `dyad_dtl_margo_recv`. What `malloc` returned is not looked at. -/
def dyadDtlMargoRecv : GetProgram FileData := do
  let recvBuffer ← Prog.perform GetCall.recvReady
  if ← Prog.perform (GetCall.malloc recvBuffer.size) then
    return ⟨.ok, recvBuffer, recvBuffer.size⟩
  else
    .call GetCall.ub Empty.elim

/-- `dyad_dtl_ucx_recv`, which leaves the buffer to its caller. -/
def dyadDtlUcxRecv : GetProgram FileData := do
  Prog.perform GetCall.netBufReady
  return ⟨.ok, Bytes.empty, 0⟩

/-- `dtl_handle->recv`. -/
def dyadDtlRecv : DtlMode → GetProgram FileData
  | .fluxRpc => dyadDtlFluxRecv
  | .ucx => dyadDtlUcxRecv
  | .margo => dyadDtlMargoRecv

/-! ## The client -/

/-- The wait for the end of the stream, unless the RPC is over already; `f` is
whether there is a future to wait on. -/
def endOfStream (f : Bool) (rc : Rc) : GetProgram Rc := do
  if rc ≠ .rpcFinished ∧ rc ≠ .badrpc then
    if f then
      match ← Prog.perform GetCall.rpcGet with
      | .error e => return if e = Errno.ENODATA then rc else .badrpc
      | .ok _ => return .badrpc
    else
      return .badrpc
  else
    return rc

/-- Step over the size in front of the content. -/
def stripPrefix (rc : Rc) (netBuf : Bytes Byte) : FileData :=
  let data := netBuf.slice 8 netBuf.size
  if readLen netBuf < 0 then ⟨.badfio, data, 0⟩
  else ⟨rc, data, (readLen netBuf).toNat⟩

/-- `get_done`. -/
def getDone (dtl : Dtl) (f : Bool) (r : FileData) : GetProgram FileData := do
  let rc ← endOfStream f r.rc
  if dtl.ucxBuild ∧ dtl.mode = .ucx then
    let netBuf ← Prog.perform GetCall.netBuf
    return stripPrefix rc netBuf
  else
    return { r with rc }

/-- `dyad_get_data`. -/
def dyadGetData (dtl : Dtl) : GetProgram FileData := do
  match ← Prog.perform GetCall.rpcPack with
  | .error rc => getDone dtl false (.failed rc)
  | .ok _ =>
    if ← Prog.perform GetCall.fluxRpcPack then
      let r ← dyadDtlRecv dtl.mode
      getDone dtl true r
    else
      getDone dtl false (.failed .badrpc)

/-- `get_range_done`. -/
def getRangeDone (f : Bool) (r : FileData) : GetProgram FileData := do
  let rc ← endOfStream f r.rc
  return { r with rc }

/-- `dyad_get_data_range`. What it receives need not be as long as the range
it asked for. -/
def dyadGetDataRange (dtl : Dtl) : GetProgram FileData := do
  match ← Prog.perform GetCall.rpcPack with
  | .error rc => getRangeDone false (.failed rc)
  | .ok _ =>
    if ← Prog.perform GetCall.fluxRpcPack then
      let r ← dyadDtlRecv dtl.mode
      getRangeDone true r
    else
      getRangeDone false (.failed .badrpc)

end Dyad
