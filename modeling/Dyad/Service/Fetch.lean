import Dyad.Client.Consume

/-!
# The whole-file fetch handler (`service/flux_module/dyad.c`)

`dyad_fetch_request_cb` serves a whole file: it unpacks the request, answers
it, opens the file, takes a shared lock, reads the file into a buffer of the
DTL and sends that. Every exit ends the response stream with one
`flux_respond_error`: with `ENODATA` after a send that went through, with the
current `errno` otherwise.

A call that fails sets `errno` and nothing clears it, so an exit that sets no
`errno` of its own responds with whatever was there. Whether the UCX DTL is
compiled in decides, at build time, whether the size of the file goes in front
of its content. Two null pointers may be followed on the way, the consumer's
address where `rpc_unpack` of the UCX DTL did not find it, and the buffer into
which the size goes; neither leaves anything to answer with.
-/

namespace Dyad

open Conc Posix

/-- `fetch_error_wo_flock`: end the stream with `errno` as it stands. -/
def fetchErrorWoFlock : Program Unit := do
  let errno ← perform .errno
  perform (.respondError errno)

/-- The exits that set `errno` first. -/
def fetchErrorWith (e : Errno) : Program Unit := do
  perform (.setErrno e)
  fetchErrorWoFlock

/-- `fetch_error`: drop the lock and the descriptor first. -/
def fetchError (fd : Nat) : Program Unit := do
  let _ ← sys (.unlock fd)
  let _ ← sys (.close fd)
  fetchErrorWoFlock

/-- A read into the DTL's buffer. `get_buffer` is not checked; without a
buffer the kernel has nowhere to put the bytes. -/
def readInto (inbuf : Bool) (fd off len : Nat) :
    Program (Option (Bytes Byte)) := do
  if inbuf then
    match ← sys (.pread fd off len) with
    | .ok d => return some d
    | .error _ => return none
  else
    perform (.setErrno Errno.EFAULT)
    return none

/-- The chunked read of a file of `fileSize` bytes, `content` read so far. A
turn that reads nothing, or fails, ends it. -/
def fetchReadLoop (inbuf : Bool) (fd fileSize : Nat) :
    (fuel : Nat) → (content : Bytes Byte) → Program (Option (Bytes Byte))
  | 0, content => return some content
  | fuel + 1, content => do
    if content.size < fileSize then
      let readSize := min (fileSize - content.size) transferGranularity
      match ← readInto inbuf fd content.size readSize with
      | none => return none
      | some d =>
        if d.size = 0 then
          return none
        else
          fetchReadLoop inbuf fd fileSize fuel (content.append d)
    else
      return some content

/-- The read of a file of `fileSize` bytes. Every turn of the chunked loop
reads a byte, so `fileSize` turns are enough. -/
def fetchRead (inbuf : Bool) (fd fileSize : Nat) :
    Program (Option (Bytes Byte)) :=
  if fileSize < transferGranularity then
    readInto inbuf fd 0 fileSize
  else
    fetchReadLoop inbuf fd fileSize fileSize Bytes.empty

/-- The transfer of what was read, and the response. -/
def fetchSend (payload : Bytes Byte) : Program Unit := do
  match ← perform .establishConnection with
  | .error _ => fetchErrorWith Errno.ECONNREFUSED
  | .ok _ =>
    match ← perform (.send payload) with
    | .error _ => fetchErrorWith Errno.ECOMM
    | .ok _ =>
      perform .closeConnection
      perform .returnBuffer
      perform (.respondError Errno.ENODATA)

/-- The handler once the buffer has been asked for; `inbuf` is whether there
is one. -/
def fetchBuffered (ucxBuild inbuf : Bool) (fd fileSize : Nat) :
    Program Unit := do
  -- the size is copied into the buffer before anything looks at it
  if ucxBuild ∧ inbuf = false then
    ub
  else if fileSize > 0 then
    match ← fetchRead inbuf fd fileSize with
    | none => fetchError fd
    | some content =>
      if content.size ≠ fileSize then
        fetchError fd
      else
        let _ ← dyadReleaseFlock fd
        let _ ← sys (.close fd)
        fetchSend (fetchPayload ucxBuild content)
  else
    fetchError fd

/-- The handler once the file is open. -/
def fetchOpened (ucxBuild : Bool) (fd : Nat) : Program Unit := do
  let rc ← dyadSharedFlock fd
  if rc.isError then
    fetchError fd
  else
    let fileSize ← getFileSize fd
    match ← perform (.getBuffer fileSize) with
    | .ok _ => fetchBuffered ucxBuild true fd fileSize
    | .error _ => fetchBuffered ucxBuild false fd fileSize

/-- `dyad_fetch_request_cb`. -/
def dyadFetchRequestCb (ucxBuild : Bool) : Program Unit := do
  if ← perform .msgIsStreaming then
    match ← perform .msgGetUserid with
    | .error _ => fetchErrorWoFlock
    | .ok _ =>
      match ← perform .rpcUnpack with
      | .nullAddress => ub
      | .error _ => fetchErrorWith Errno.EPROTO
      | .ok =>
        match ← perform .rpcRespond with
        | .error _ => fetchErrorWoFlock
        | .ok _ =>
          match ← sys (.open .data false false) with
          | .error _ => fetchErrorWoFlock
          | .ok fd => fetchOpened ucxBuild fd
  else
    fetchErrorWith Errno.EPROTO

end Dyad
