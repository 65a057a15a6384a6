import Dyad.Dtl.Ucx

/-!
# The buffer of a reply (`service/flux_module/dyad.c`, `dtl/*_dtl.c`)

What `dyad_fetch_request_cb` does to its buffer, from the `get_buffer` for the
size of the file to the `send`. The code of `get_buffer` is not looked at, and
where the UCX DTL is compiled in the size of the file is copied to the front
of the buffer, whichever DTL is in use, so that the content starts eight bytes
in.

Here the buffer is memory. `get_buffer` answers how many bytes there are
behind the pointer it set; the handler only knows the pointer. A `read` is
told where in the buffer to put what it reads, and puts as many bytes there as
it returns.
-/

namespace Dyad

open Conc Posix

/-- `dyad_dtl_flux_get_buffer`, through a pointer that is null: the code, and
the bytes `posix_memalign` allocates, if it does. -/
def dyadDtlFluxGetBuffer (alloc : Bool) (dataSize : Nat) : Rc × Option Nat :=
  if alloc then (.ok, some dataSize) else (.sysfail, none)

/-- `dyad_dtl_margo_get_buffer`, through a pointer that is null. -/
def dyadDtlMargoGetBuffer (alloc : Bool) (dataSize : Nat) : Rc × Option Nat :=
  if alloc then (.ok, some dataSize) else (.sysfail, none)

/-- `ucx_allocate_buffer`: the bytes of `net_buf`. -/
def UcxHandle.netBufSize (h : UcxHandle) : Nat := h.maxTransferSize + 8

namespace Reply

/-- A DTL as far as its buffers go: its mode, its handle where that is the UCX
DTL's, and whether there is memory. -/
structure Dtl where
  mode : DtlMode
  ucx : UcxHandle
  alloc : Bool

/-- `dtl_handle->get_buffer`: the code, and the bytes behind the pointer, if
it is set. -/
def Dtl.getBuffer (d : Dtl) (dataSize : Nat) : Rc × Option Nat :=
  match d.mode with
  | .fluxRpc => dyadDtlFluxGetBuffer d.alloc dataSize
  | .margo => dyadDtlMargoGetBuffer d.alloc dataSize
  | .ucx =>
    let (rc, set) := dyadDtlUcxGetBuffer d.ucx dataSize
    (rc, if set then some d.ucx.netBufSize else none)

/-- The calls on the buffer. `inbuf` is whether the pointer is set. -/
inductive Call
  | getBuffer (dataSize : Nat)
  | memcpy (inbuf : Bool) (start len : Nat)
  | read (inbuf : Bool) (start count : Nat)
  | establishConnection
  | send (buflen : Nat)

/-- What each call answers; `get_buffer`, whether it set the pointer. -/
abbrev Call.Res : Call → Type
  | .getBuffer _ => Bool
  | .memcpy .. => Unit
  | .read .. => Except Errno Nat
  | .establishConnection => Except Rc Unit
  | .send _ => Except Rc Unit

/-- A call. -/
abbrev perform (c : Call) : Prog Call.Res c.Res := Prog.perform c

/-- The chunked read, `readData` bytes read so far: how many it has read in
all, or the way to `fetch_error`. -/
def readLoop (inbuf : Bool) (bufOffset fileSize : Nat) :
    (fuel : Nat) → (readData : Nat) → Prog Call.Res (Option Nat)
  | 0, readData => return some readData
  | fuel + 1, readData => do
    if readData < fileSize then
      let readSize := min (fileSize - readData) transferGranularity
      match ← perform (.read inbuf (bufOffset + readData) readSize) with
      | .error _ => return none
      | .ok inlen =>
        if inlen = 0 then
          return none
        else
          readLoop inbuf bufOffset fileSize fuel (readData + inlen)
    else
      return some readData

/-- The read of the file into the buffer. Every turn of the chunked loop reads
a byte, so `fileSize` turns are enough. -/
def readFile (inbuf : Bool) (bufOffset fileSize : Nat) :
    Prog Call.Res (Option Nat) := do
  if fileSize < transferGranularity then
    match ← perform (.read inbuf bufOffset fileSize) with
    | .error _ => return none
    | .ok inlen => return some inlen
  else
    readLoop inbuf bufOffset fileSize fileSize 0

/-- `dyad_fetch_request_cb`, from the buffer to the send. -/
def fetchReply (ucxBuild : Bool) (fileSize : Nat) : Prog Call.Res Unit := do
  let bufOffset := if ucxBuild then 8 else 0
  let inbuf ← perform (.getBuffer fileSize)
  if ucxBuild then
    perform (.memcpy inbuf 0 8)
  if fileSize > 0 then
    match ← readFile inbuf bufOffset fileSize with
    | none => return ()
    | some inlen =>
      if inlen ≠ fileSize then
        return ()
      else
        match ← perform .establishConnection with
        | .error _ => return ()
        | .ok _ =>
          let _ ← perform (.send (fileSize + bufOffset))
          return ()
  else
    return ()

/-! ## A run -/

/-- What is decided about a reply: the DTL, what the `i`th `read` delivers of
what it is asked for, and what becomes of the connection and the send. -/
structure Answers where
  dtl : Dtl
  read : Nat → (count : Nat) → Except Errno (Fin (count + 1))
  connect : Except Rc Unit
  send : Except Rc Unit

/-- Bytes of memory that were written to: whether the pointer was set, and
where from it they are. -/
structure Extent where
  inbuf : Bool
  start : Nat
  len : Nat
deriving DecidableEq

/-- What happened to the buffer: how large it is, what was written to it, what
was sent, and how often something was read into it. -/
structure Buffer where
  granted : Option Nat
  writes : List Extent
  sends : List Nat
  reads : Nat
deriving DecidableEq

/-- No buffer yet. -/
def Buffer.none : Buffer := ⟨Option.none, [], [], 0⟩

/-- The effect and the answer of a call. Through a null pointer a `read` fails
with `EFAULT` and writes nothing. -/
def Answers.step (a : Answers) (b : Buffer) :
    (c : Call) → Option (Buffer × c.Res)
  | .getBuffer dataSize =>
    match a.dtl.getBuffer dataSize with
    | (_, some size) => some ({ b with granted := some size }, true)
    | (_, none) => some (b, false)
  | .memcpy inbuf start len =>
    some ({ b with writes := b.writes ++ [⟨inbuf, start, len⟩] }, ())
  | .read inbuf start count =>
    if inbuf then
      match a.read b.reads count with
      | .ok n => some ({ b with
          writes := b.writes ++ [⟨inbuf, start, n.val⟩]
          reads := b.reads + 1 }, .ok n.val)
      | .error e => some ({ b with reads := b.reads + 1 }, .error e)
    else
      some ({ b with reads := b.reads + 1 }, .error Errno.EFAULT)
  | .establishConnection => some (b, a.connect)
  | .send buflen => some ({ b with sends := b.sends ++ [buflen] }, a.send)

/-- The extent lies in a buffer of that many bytes. -/
def Extent.InBuffer (e : Extent) (granted : Option Nat) : Prop :=
  e.len = 0 ∨ e.inbuf = true ∧ ∃ size, granted = some size ∧ e.start + e.len ≤ size

/-- Everything that was written lies in the buffer that was granted, and no
send is longer. -/
structure Buffer.Safe (b : Buffer) : Prop where
  writes : ∀ e ∈ b.writes, e.InBuffer b.granted
  sends : ∀ n ∈ b.sends, ∃ size, b.granted = some size ∧ n ≤ size

/-- Building the reply to a file of `fileSize` bytes ends with the buffer
respected. -/
def Inside (ucxBuild : Bool) (a : Answers) (fileSize : Nat) : Prop :=
  ∃ b, (fetchReply ucxBuild fileSize).exec a.step .none = some (b, ()) ∧ b.Safe

/-- How much the reads from the `i`th on deliver, of `left` bytes: until one
fails or delivers nothing. -/
def deliveredFrom (read : Nat → (count : Nat) → Except Errno (Fin (count + 1))) :
    (fuel i left : Nat) → Nat
  | 0, _, _ => 0
  | fuel + 1, i, left =>
    if left = 0 then 0
    else
      match read i (min left transferGranularity) with
      | .error _ => 0
      | .ok n =>
        if n.val = 0 then 0
        else n.val + deliveredFrom read fuel (i + 1) (left - n.val)

/-- How much of a file the reads deliver: of a small one the first read, and
of a large one the reads until one fails or delivers nothing. -/
def delivered (read : Nat → (count : Nat) → Except Errno (Fin (count + 1)))
    (fileSize : Nat) : Nat :=
  if fileSize < transferGranularity then
    match read 0 fileSize with
    | .error _ => 0
    | .ok n => n.val
  else
    deliveredFrom read fileSize 0 fileSize

/-- When the buffer is respected: the size is not put in front; or the DTL in
use is UCX, it has a buffer and the file is not too large for that; or another DTL has granted a
buffer and the reads leave at least eight bytes of the file. -/
def Holds (ucxBuild : Bool) (a : Answers) (fileSize : Nat) : Prop :=
  ucxBuild = true →
    if a.dtl.mode = .ucx then
      a.dtl.ucx.netBuf = true ∧ fileSize ≤ a.dtl.ucx.maxTransferSize
    else
      a.dtl.alloc = true ∧ 8 + delivered a.read fileSize ≤ fileSize

end Reply

end Dyad
