import Dyad.Cache.Evict

/-!
# Consuming a file (`client/dyad_client.c`)

`dyad_consume` and `dyad_consume_w_metadata` make a whole file available in
the consumer-managed directory; `dyad_consume_range` reads a byte range of it.
The two whole-file functions share the block that fetches the data and stores
it, `fetchAndStore` here, and differ in where they leave after each of its
failures, which the source writes as `goto consume_done` and
`goto consume_close`: the first closes the lock descriptor in `dyad_consume`
and not in the other, the second leaves it open, and the lock with it.

The position of a descriptor that is written to in sequence is passed along
with it. `dyad_cons_store` counts what it wrote in a `size_t` and compares
with zero, so a `write` that fails is not noticed in the chunked loop: the
count goes back by one, while the descriptor's position stays.
-/

namespace Dyad

open Conc Posix

/-- The chunked loop of `dyad_cons_store`: `writtenData` is the source's count
and `pos` the descriptor's position. `none` is the exit the source takes with
its return code still `DYAD_RC_OK`. Before the buffer there is nothing to
write from. -/
def consStoreLoop (fd : Nat) (data : Bytes Byte) :
    (fuel : Nat) → (writtenData : Int) → (pos : Nat) → Program (Option Int)
  | 0, _, _ => spin
  | fuel + 1, writtenData, pos => do
    if writtenData < data.size then
      if writtenData < 0 then
        ub
      else
        let writtenSize :=
          min (data.size - writtenData.toNat) transferGranularity
        match ← sys (.pwrite fd pos
            (data.slice writtenData.toNat writtenSize)) with
        | .ok 0 => return none
        | .ok writtenLen =>
          consStoreLoop fd data fuel (writtenData + writtenLen)
            (pos + writtenLen)
        | .error _ => consStoreLoop fd data fuel (writtenData - 1) pos
    else
      return some writtenData

/-- The write of `dyad_cons_store`: at one go, or in chunks, of which it makes
at most `fuel`. -/
def consStoreWrite (fuel fd : Nat) (data : Bytes Byte) : Program Rc := do
  if data.size < transferGranularity then
    match ← sys (.pwrite fd 0 data) with
    | .ok writtenLen =>
      return if writtenLen = data.size then .ok else .badfio
    | .error _ => return .badfio
  else
    match ← consStoreLoop fd data fuel 0 0 with
    | none => return .ok
    | some writtenData =>
      return if writtenData = data.size then .ok else .badfio

/-- `dyad_cons_store`, on a descriptor at the start of the file. -/
def dyadConsStore (ctx : Ctx) (fuel fd : Nat) (data : Bytes Byte) :
    Program Rc := do
  if ctx.dotPath then
    consStoreWrite fuel fd data
  else
    match ← perform .mkdirAsNeeded with
    | .error _ => return .badfio
    | .ok _ => consStoreWrite fuel fd data

/-- `dyad_fetch_metadata`: the owner of a file that has to be transferred, or
`none` for a file that is local. -/
def dyadFetchMetadata (ctx : Ctx) : Program (Except Rc (Option Nat)) := do
  match ← perform .kvsRead with
  | .error rc => return .error rc
  | .ok ownerRank =>
    if ownerRank / ctx.serviceMux = ctx.nodeIdx then
      return .ok none
    else
      return .ok (some ownerRank)

/-- How the transfer into the local file came out. -/
inductive Pulled
  | noData (rc : Rc)
  | noFd
  | closeFailed
  | stored (rc : Rc)

/-- The transfer: `dyad_get_data`, then `dyad_cons_store` through a second
descriptor of the file, which is closed again. -/
def fetchAndStore (ctx : Ctx) (fuel : Nat) : Program Pulled := do
  match ← perform .getData with
  | .error rc => return .noData rc
  | .ok data =>
    match ← sys (.open .data false false) with
    | .error _ => return .noFd
    | .ok ioFd =>
      let rc ← dyadConsStore ctx fuel ioFd data
      match ← sys (.close ioFd) with
      | .error _ => return .closeFailed
      | .ok _ => return .stored rc

/-- Give the transfer's buffer back, when there is one. -/
def returnFileData (fileData : Bool) : Program Unit :=
  if fileData then perform .returnBuffer else pure ()

/-- `consume_done` of `dyad_consume`; `fileData` is whether there is a buffer
to return. -/
def consumeDone (lockFd : Nat) (fileData : Bool) (rc : Rc) : Program Rc := do
  let closed ← sys (.close lockFd)
  returnFileData fileData
  match closed with
  | .error _ => return .badfio
  | .ok _ => return rc

/-- An error exit: drop the lock, then `consume_done`. -/
def consumeRelease (lockFd : Nat) (fileData : Bool) (rc : Rc) :
    Program Rc := do
  let _ ← dyadReleaseFlock lockFd
  consumeDone lockFd fileData rc

/-- The file is there: drop the lock, give the evictor a chance, leave. -/
def consumeStored (ctx : Ctx) (lockFd : Nat) (fileData : Bool) :
    Program Rc := do
  let _ ← dyadReleaseFlock lockFd
  let _ ← dyadCacheMaybeEvict ctx
  consumeDone lockFd fileData .ok

/-- `dyad_consume` on shared storage, once the size is known. -/
def consumeShared (ctx : Ctx) (lockFd fileSize : Nat) : Program Rc := do
  let _ ← dyadReleaseFlock lockFd
  if ctx.useFsLocks = false ∨ fileSize = 0 then
    match ← dyadFetchMetadata ctx with
    | .error rc => consumeDone lockFd false rc
    | .ok _ => consumeDone lockFd false .ok
  else
    consumeDone lockFd false .ok

/-- `dyad_consume` on node-local storage, once the size is known: a file with
a size is taken to be there. -/
def consumeLocal (ctx : Ctx) (fuel lockFd fileSize : Nat) : Program Rc := do
  if ctx.useFsLocks = false ∨ fileSize = 0 then
    match ← dyadFetchMetadata ctx with
    | .error rc => consumeRelease lockFd false rc
    | .ok none => consumeRelease lockFd false .ok
    | .ok (some _) =>
      match ← fetchAndStore ctx fuel with
      | .noData rc => consumeRelease lockFd false rc
      -- `consume_close`: the descriptor stays open, and locked
      | .noFd => return .badfio
      | .closeFailed => consumeRelease lockFd true .badfio
      | .stored rc =>
        if rc.isError then
          consumeRelease lockFd true rc
        else
          consumeStored ctx lockFd true
  else
    consumeStored ctx lockFd false

/-- `dyad_consume`. -/
def dyadConsume (ctx : Ctx) (fuel : Nat) : Program Rc := do
  if ctx.h = false then
    return .noctx
  else if ctx.consManagedPath = false then
    return .badmanagedpath
  else if ctx.tracked = false then
    return .ok
  else
    match ← sys (.open .data true false) with
    | .error _ => return .badfio
    | .ok lockFd =>
      let rc ← dyadExclFlock lockFd
      if rc.isError then
        consumeRelease lockFd false rc
      else
        let fileSize ← getFileSize lockFd
        if ctx.sharedStorage then
          consumeShared ctx lockFd fileSize
        else
          consumeLocal ctx fuel lockFd fileSize

/-- `consume_done` of `dyad_consume_w_metadata`, which does not close the
lock descriptor. -/
def consumeMetadataRelease (lockFd : Nat) (fileData : Bool) (rc : Rc) :
    Program Rc := do
  let _ ← dyadReleaseFlock lockFd
  returnFileData fileData
  return rc

/-- `dyad_consume_w_metadata`, once the size is known. -/
def consumeMetadataLocal (ctx : Ctx) (fuel lockFd fileSize : Nat) :
    Program Rc := do
  if fileSize = 0 then
    match ← fetchAndStore ctx fuel with
    | .noData rc => consumeMetadataRelease lockFd false rc
    | .noFd => return .badfio
    | .closeFailed => consumeMetadataRelease lockFd true .badfio
    | .stored rc =>
      if rc.isError then
        -- the source releases through `io_fd` here, which is closed: the
        -- lock went with that close
        consumeMetadataRelease lockFd true rc
      else
        consumeStored ctx lockFd true
  else
    consumeStored ctx lockFd false

/-- `dyad_consume_w_metadata`; `mdata` is whether there is any. -/
def dyadConsumeWMetadata (ctx : Ctx) (mdata : Bool) (fuel : Nat) :
    Program Rc := do
  if ctx.h = false then
    return .noctx
  else if mdata = false then
    return .ok
  else if ctx.consManagedPath = false then
    return .badmanagedpath
  else
    match ← sys (.open .data true false) with
    | .error _ => return .badfio
    | .ok lockFd =>
      let rc ← dyadExclFlock lockFd
      if rc.isError then
        let _ ← dyadReleaseFlock lockFd
        return rc
      else
        let fileSize ← getFileSize lockFd
        consumeMetadataLocal ctx fuel lockFd fileSize

/-! ## Byte ranges -/

/-- The read of `dyad_consume_range` from the local copy. -/
def consumeRangeRead (offset length : Nat) :
    Program (Rc × Option (Bytes Byte)) := do
  match ← sys (.open .data false false) with
  | .error _ => return (.badfio, none)
  | .ok fd =>
    let rc ← dyadSharedFlock fd
    if rc.isError then
      let _ ← sys (.close fd)
      return (rc, none)
    else if ← sys (.malloc length) then
      let nread ← sys (.pread fd offset length)
      let _ ← dyadReleaseFlock fd
      let _ ← sys (.close fd)
      match nread with
      | .error _ => return (.badfio, none)
      | .ok data =>
        if data.size ≠ length then
          return (.badfio, none)
        else
          return (.ok, some data)
    else
      let _ ← dyadReleaseFlock fd
      let _ ← sys (.close fd)
      return (.sysfail, none)

/-- `dyad_consume_range` on a file that is local to the node. -/
def consumeRangeLocal (ctx : Ctx) (offset length : UInt64) :
    Program (Rc × Option (Bytes Byte)) := do
  if ctx.originPath then
    let rc ← dyadRangeCacheEnsure ctx offset length
    if rc.isError then
      return (rc, none)
    else
      consumeRangeRead offset.toNat length.toNat
  else
    consumeRangeRead offset.toNat length.toNat

/-- `dyad_consume_range`. -/
def dyadConsumeRange (ctx : Ctx) (offset length : UInt64) :
    Program (Rc × Option (Bytes Byte)) := do
  if ctx.h = false then
    return (.noctx, none)
  else if ctx.consManagedPath = false then
    return (.badmanagedpath, none)
  else if ctx.dtlMode = .ucx then
    return (.baddtlmode, none)
  else if ctx.tracked = false then
    return (.badmanagedpath, none)
  else
    match ← dyadFetchMetadata ctx with
    | .error rc => return (rc, none)
    | .ok none => consumeRangeLocal ctx offset length
    | .ok (some _) =>
      match ← perform (.getDataRange offset.toNat length.toNat) with
      | .error rc => return (rc, none)
      | .ok data => return (.ok, some data)

end Dyad
