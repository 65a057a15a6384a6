import Dyad.Service.FetchRange

/-!
# One request, from its handler to its response

A whole-file request is served by its handler. A range request is served by
its handler too, or by three parties in turn: the handler that enqueues a work
item, the worker that takes it, and the completion that sends what the worker
has left to send and ends the response stream.

A request is judged by the history of its calls: the responses that end its
stream, the payloads that were handed to the DTL, and what the file was seen
to hold. An errno is only as good as the call that set it. `pinned` is the
errno a history leaves behind where that is known, and `stale` lists the reads
of an errno that no call of the request had set. What the calls answered also
tells whether the request came to follow a null pointer or to index the bitmap
of the range cache past its end (`Legal`).
-/

namespace Dyad

open Conc Posix

/-- A request to the service. -/
inductive Request
  | whole (ucxBuild : Bool)
  | range (cfg : RangeConfig)

/-- The calls made for a request. The range handler of a pool with workers
leaves the rest to the worker and the completion. -/
def Request.serve : Request → Program Unit
  | .whole ucxBuild => dyadFetchRequestCb ucxBuild
  | .range cfg => do
    match ← dyadFetchRangeRequestCb cfg with
    | none => return ()
    | some item =>
      let item ← dyadFetchWorkerProcess cfg.ctx item
      dyadFetchComplete item

/-- The calls made for a request so far, the last one first. -/
abbrev ServiceHistory := List (Prog.Event Call.Res)

/-- The errno with which a call ends the response stream. -/
def terminal : Prog.Event Call.Res → Option Errno
  | ⟨.respondError e, _⟩ => some e
  | _ => none

/-- The payload that a call handed to the DTL. -/
def handedOver : Prog.Event Call.Res → Option (Bytes Byte)
  | ⟨.send payload, .ok _⟩ => some payload
  | ⟨.rpcSendDetached payload, .ok _⟩ => some payload
  | _ => none

/-- Whether a call failed to send for a detached request. -/
def sendLost : Prog.Event Call.Res → Bool
  | ⟨.rpcSendDetached _, .error _⟩ => true
  | _ => false

/-- The size of the file, if the last `fstat` told it. -/
def sizeSeen : ServiceHistory → Option Nat
  | [] => none
  | ⟨.sys (.fstat _), r⟩ :: _ => r.toOption
  | _ :: h => sizeSeen h

/-- What has been read since. -/
def dataRead : ServiceHistory → Bytes Byte
  | [] => Bytes.empty
  | ⟨.sys (.fstat _), _⟩ :: _ => Bytes.empty
  | ⟨.sys (.pread ..), .ok d⟩ :: h => (dataRead h).append d
  | _ :: h => dataRead h

/-- The range that was asked for. -/
def rangeAsked : ServiceHistory → Option (UInt64 × UInt64)
  | [] => none
  | ⟨.rpcUnpackRange, .ok range⟩ :: _ => some range
  | _ :: h => rangeAsked h

/-- Whether the request has been detached from its handler. -/
def detached : ServiceHistory → Bool
  | [] => false
  | ⟨.rpcDetachRequest, .ok _⟩ :: _ => true
  | _ :: h => detached h

/-! ## The errno of a history -/

/-- The errno a failed call of the operating system leaves. -/
def sysErrno : (c : Sys Name Byte) → c.Res → Option Errno
  | .open .., .error e => some e
  | .close _, .error e => some e
  | .setlkw .., .error e => some e
  | .setlk .., .error e => some e
  | .unlock _, .error e => some e
  | .fstat _, .error e => some e
  | .stat _, .error e => some e
  | .ftruncate .., .error e => some e
  | .pread .., .error e => some e
  | .pwrite .., .error e => some e
  | .unlink _, .error e => some e
  | .malloc _, false => some Errno.ENOMEM
  | _, _ => none

/-- The errno a failed call leaves, of those that say which. A buffer that is
not granted is one that could not be allocated. -/
def failedWith : Prog.Event Call.Res → Option Errno
  | ⟨.sys c, r⟩ => sysErrno c r
  | ⟨.msgGetUserid, .error e⟩ => some e
  | ⟨.getBuffer _, .error _⟩ => some Errno.ENOMEM
  | _ => none

/-- Whether a call leaves errno alone when it does not fail. Of the other calls
of Flux and the DTLs nothing is known. -/
def Call.leavesErrno : Call → Bool
  | .sys _ => true
  | .getBuffer _ => true
  | .errno => true
  | _ => false

/-- The calls that come back, neither answer nor send, and do not touch
errno. -/
def Call.plain : Call → Bool
  | .ub => false
  | .respondError _ => false
  | .send _ => false
  | .rpcSendDetached _ => false
  | .errno => false
  | .setErrno _ => false
  | _ => true

/-- The calls after which nothing undefined comes, whatever they answer. -/
def Call.harmless : Call → Bool
  | .sys (.pread ..) => false
  | .msgGetUserid => false
  | .rpcUnpack => false
  | .rpcUnpackRange => false
  | .getBuffer _ => false
  | _ => true

/-- Those of them that are plain. -/
def Call.calm (c : Call) : Bool := c.plain && c.harmless

/-- The calls of the range cache. -/
def Call.ofFile : Call → Bool
  | .sys _ => true
  | .ub => true
  | _ => false

/-- The errno that the calls so far have left, if one of them set it. -/
def pinned : ServiceHistory → Option Errno
  | [] => none
  | ⟨.setErrno e, _⟩ :: _ => some e
  | e :: h =>
    match failedWith e with
    | some errno => some errno
    | none => if e.1.leavesErrno then pinned h else none

/-- The reads of an errno that no call had set, each with whether the request
was detached by then. -/
def stale : ServiceHistory → List (Errno × Bool)
  | [] => []
  | ⟨.errno, e⟩ :: h =>
    if pinned h = none then (e, detached h) :: stale h else stale h
  | _ :: h => stale h

/-- What the calls of a request may answer: an errno that was set stays, a
call that fails sets one that is neither zero nor `ENODATA`, a read returns no
more than was asked for, and no file and no buffer is larger than an object
can be. -/
def Sane (h : ServiceHistory) (c : Call) (r : c.Res) : Prop :=
  (∀ e, failedWith ⟨c, r⟩ = some e → e ≠ 0 ∧ e ≠ Errno.ENODATA) ∧
    match c, r with
    | .errno, e => ∀ e', pinned h = some e' → e = e'
    | .sys (.fstat _), .ok size => size < 2 ^ 63
    | .sys (.pread _ _ len), .ok d => d.size ≤ len
    | .getBuffer size, .ok _ => size < 2 ^ 63
    | .rpcSendDetached _, .error rc => rc.isError = true
    | _, _ => True

/-! ## What a request may come to do -/

/-- Whether the handler copies the size of the file into its buffer. -/
def Request.copiesSize : Request → Bool
  | .whole ucxBuild => ucxBuild
  | .range _ => false

/-- Whether the DTL has no `rpc_unpack_range`. -/
def Request.lacksRange : Request → Bool
  | .whole _ => false
  | .range cfg => cfg.ctx.dtlMode = .ucx

/-- After a call so answered the request follows a null pointer: the consumer's
address, the buffer, or `rpc_unpack_range`. -/
def Request.followsNull (req : Request) : Prog.Event Call.Res → Bool
  | ⟨.rpcUnpack, .nullAddress⟩ => true
  | ⟨.getBuffer _, .error _⟩ => req.copiesSize
  | ⟨.msgGetUserid, .ok _⟩ => req.lacksRange
  | _ => false

/-- How often the mutex of the range cache has been taken or dropped: once in
its first critical section, three times in its second. -/
def mutexTurns : ServiceHistory → Nat
  | [] => 0
  | ⟨.sys .mutexLock, _⟩ :: h => mutexTurns h + 1
  | ⟨.sys .mutexUnlock, _⟩ :: h => mutexTurns h + 1
  | _ :: h => mutexTurns h

/-- What a read leaves in a zeroed buffer. -/
def readBuffer (len : Nat) : Except Errno (Bytes Byte) → Bytes Byte
  | .ok d => (Bytes.zeros len).splice 0 d
  | .error _ => Bytes.zeros len

/-- Whether a bitmap that has been read has no byte for a block of the span that
is looked at. The first critical section looks the span up, up to the first
block that is missing, the second records all of it. -/
def pastBitmap (blockStart blockEnd turns : Nat) (bitmap : Bytes Byte) : Bool :=
  match turns with
  | 1 => (rangeCacheBlocksSet bitmap blockStart blockEnd).isNone
  | 3 => (rangeCacheSetBlocks bitmap blockStart blockEnd).isNone
  | _ => false

/-- Whether a bitmap that was read was too short for the span. -/
def overruns (blockStart blockEnd : Nat) : ServiceHistory → Bool
  | [] => false
  | ⟨.sys (.pread _ _ len), r⟩ :: h =>
    pastBitmap blockStart blockEnd (mutexTurns h) (readBuffer len r) ||
      overruns blockStart blockEnd h
  | _ :: h => overruns blockStart blockEnd h

/-- No null pointer was followed, and no bitmap was too short. -/
structure Request.Legal (req : Request) (h : ServiceHistory) : Prop where
  pointers : h.any req.followsNull = false
  bitmap : ∀ offset length, rangeAsked h = some (offset, length) →
    overruns (blockStart offset) (blockEnd offset length) h = false

/-! ## What is expected of a request -/

/-- How long the payload has to be: the file, with its size in front in a
build with UCX, or the range as far as the file reaches. -/
def Request.payload (h : ServiceHistory) : Request → Option (Bytes Byte)
  | .whole ucxBuild =>
    match sizeSeen h with
    | some size =>
      if (dataRead h).size = size then
        some (fetchPayload ucxBuild (dataRead h))
      else none
    | none => none
  | .range _ =>
    match sizeSeen h, rangeAsked h with
    | some size, some (offset, length) =>
      if (dataRead h).size = clampRange offset length size then
        some (dataRead h)
      else none
    | _, _ => none

/-- The full payload was handed to the DTL. -/
def Request.HandedOver (req : Request) (h : ServiceHistory) : Prop :=
  ∃ payload ∈ h.filterMap handedOver, req.payload h = some payload

/-- The request has been served to its end: with one response, whose errno is
`ENODATA` if and only if the full payload was handed to the DTL, and never
zero. -/
def Request.Answered (req : Request) (h : ServiceHistory)
    (q : Program Unit) : Prop :=
  q = .pure () ∧ ∃ e, h.filterMap terminal = [e] ∧ e ≠ 0 ∧
    (e = Errno.ENODATA ↔ req.HandedOver h)

/-- Whether a detached send of the request runs on the worker. -/
def Request.sendDetachedIsThreadSafe : Request → Bool
  | .whole _ => false
  | .range cfg => cfg.sendDetachedIsThreadSafe

/-- Nothing happened to the request that its exits do not tell: it was not led
to undefined behaviour, an errno that no call of the request had set was not
`ENODATA` and, outside a worker, not zero, a detached send that failed was the
worker's, and the size of what was sent was known. -/
structure Request.Untroubled (req : Request) (h : ServiceHistory) : Prop where
  legal : req.Legal h
  errno : ∀ x ∈ stale h, x.1 ≠ Errno.ENODATA ∧ (x.1 = 0 → x.2 = true)
  noticed : h.any sendLost = true → req.sendDetachedIsThreadSafe = true
  statted : h.filterMap handedOver ≠ [] → sizeSeen h ≠ none

end Dyad
