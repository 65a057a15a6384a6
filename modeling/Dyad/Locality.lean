import Dyad.Transfer
import Dyad.Service.Request

/-!
# One range, from the local copy or from its owner

`dyad_consume_range` reads the range from the local copy when the KVS names a
rank of the same node, and asks the owner's service for it otherwise. Here one
call of it runs from start to end, with nobody else at work on the files, and
nothing fails that does not have to: a lock is granted, what is sent arrives,
an object no larger than `PTRDIFF_MAX` is allocated. A file offset is of type
`off_t`, so one past its largest value is refused, and a single read or write
moves no more than the kernel lets it.

A service that finds its request bad answers with an error on the stream of
the RPC. A consumer over Margo does not look there: it waits for its data.
-/

namespace Dyad

open Conc Posix

/-- The files a range is served from. `created` is whether there is a data file
yet: a range cache creates it when it first has a block to put there. A bitmap
that has not been created is empty, since it is only ever opened to be
created. -/
structure Disk where
  created : Bool
  data : Bytes Byte
  bitmap : Bytes Byte
  origin : Bytes Byte

namespace Disk

/-- The descriptor of a file that is opened, if it is there. -/
def fd (d : Disk) : Name → Option Nat
  | .data => if d.created then some 3 else none
  | .bitmap => some 4
  | .origin => some 5
  | _ => none

/-- What is there once a file has been opened, to be created or not. -/
def touched (d : Disk) : Name → (creat : Bool) → Disk
  | .data, true => { d with created := true }
  | _, _ => d

/-- The file behind a descriptor. -/
def get (d : Disk) : Nat → Bytes Byte
  | 3 => d.data
  | 4 => d.bitmap
  | 5 => d.origin
  | _ => Bytes.empty

/-- That file replaced. -/
def set (d : Disk) (i : Nat) (b : Bytes Byte) : Disk :=
  match i with
  | 3 => { d with data := b }
  | 4 => { d with bitmap := b }
  | 5 => { d with origin := b }
  | _ => d

/-- What a call does where a read or write moves at most `most` bytes. -/
def exec (most : Nat) (d : Disk) : (c : Sys Name Byte) → Disk × c.Res
  | .open n creat _ =>
    match (d.touched n creat).fd n with
    | some i => (d.touched n creat, .ok i)
    | none => (d, .error Errno.ENOENT)
  | .close _ => (d, .ok ())
  | .setlkw .. => (d, .ok ())
  | .setlk .. => (d, .ok ())
  | .unlock _ => (d, .ok ())
  | .fstat i => (d, .ok (d.get i).size)
  | .stat n =>
    match d.fd n with
    | some i => (d, .ok (d.get i).size)
    | none => (d, .error Errno.ENOENT)
  | .ftruncate i n => (d.set i ((d.get i).truncate n), .ok ())
  | .pread i off len =>
    if off < 2 ^ 63 then (d, .ok ((d.get i).slice off (min most len)))
    else (d, .error Errno.EINVAL)
  | .pwrite i off b =>
    (d.set i ((d.get i).splice off (b.slice 0 most)), .ok (min most b.size))
  | .unlink _ => (d, .error Errno.ENOENT)
  | .malloc n => (d, decide (n < 2 ^ 63))
  | .mutexLock => (d, ())
  | .mutexUnlock => (d, ())

/-- A step of a program that works on the files alone. -/
def step (most : Nat) (d : Disk) : (c : Call) → Option (Disk × c.Res)
  | .sys c => some (d.exec most c)
  | _ => none

/-- A step of the consumer, to which the KVS names `rank` as the owner; the
call for a range of a file that is elsewhere is answered by `fetched`. -/
def client (most rank : Nat)
    (fetched : Option (Except Rc (Bytes Byte))) (d : Disk) :
    (c : Call) → Option (Disk × c.Res)
  | .sys c => some (d.exec most c)
  | .kvsRead => some (d, .ok rank)
  | .getDataRange .. => fetched.map fun r => (d, r)
  | _ => none

/-- The disk has the file `published`: in full, or, where there is an origin,
as far as the bitmap tells. -/
structure Holds (d : Disk) (hasOrigin : Bool) (published : Bytes Byte) :
    Prop where
  off_t : d.data.size < 2 ^ 63
  absent : d.created = false → d.data = Bytes.empty ∧ d.bitmap = Bytes.empty
  whole : hasOrigin = false → d.created = true ∧ d.data = published
  origin : hasOrigin = true → d.origin = published
  sized : hasOrigin = true → d.bitmap.size = 0 ∨
    d.bitmap.size =
        rangeCacheBitmapBytes (rangeCacheNumBlocks published.size) ∧
      d.data.size = published.size
  cached : hasOrigin = true → ∀ i, i < published.size →
    Bit d.bitmap (i / rangeCacheBlockSize) → d.data.get i = published.get i

end Disk

/-! ## The owner -/

/-- The owner's service while it serves one request. -/
structure Owner where
  disk : Disk
  link : Link
  errno : Errno

namespace Owner

/-- A step of the service, for a request of `length` bytes at `offset`. -/
def step (most : Nat) (mode : DtlMode) (offset length : UInt64) (s : Owner) :
    (c : Call) → Option (Owner × c.Res)
  | .sys c =>
    let (disk, r) := s.disk.exec most c
    some ({ s with disk, errno := (sysErrno c r).getD s.errno }, r)
  | .msgIsStreaming => some (s, true)
  | .msgGetUserid => some (s, .ok ())
  | .rpcUnpackRange => some (s, .ok (offset, length))
  | .rpcRespond => some (s, .ok ())
  | .rpcDetachRequest => some (s, .ok ())
  | .rpcAbortDetached => some (s, ())
  | .rpcSendDetached payload =>
    some ({ s with link := s.link.send mode payload }, .ok ())
  | .getBuffer size =>
    some (s, if size < 2 ^ 63 then .ok () else .error .sysfail)
  | .establishConnection => some (s, .ok ())
  | .send payload =>
    some ({ s with link := s.link.send mode payload }, .ok ())
  | .closeConnection => some (s, ())
  | .returnBuffer => some (s, ())
  | .respondError e =>
    some ({ s with link :=
      { s.link with stream := s.link.stream ++ [.error e] } }, ())
  | .errno => some (s, s.errno)
  | .setErrno e => some ({ s with errno := e }, ())
  | _ => none

end Owner

/-- How the calls of the consumer's transfer go when nothing fails. -/
def GetCall.smooth : GetCall → Choice
  | .fluxRpcPack => .flag true
  | .malloc size => .flag (size < 2 ^ 63)
  | .getBuffer size => if size < 2 ^ 63 then .os .ok else .rc .sysfail
  | _ => .os .ok

/-! ## A consumer and an owner -/

/-- One published file, its copy on the node of a consumer and the copy its
owner has. The ranks are those the KVS may name: `near` of the consumer's own
node, `far` of another. -/
structure RangeSetting where
  ctx : Ctx
  near : Nat
  far : Nat
  cfg : RangeConfig
  dtl : Dtl
  published : Bytes Byte
  here : Disk
  there : Disk
  most : Nat
  errno : Errno
  near_local : near / ctx.serviceMux = ctx.nodeIdx
  far_remote : far / ctx.serviceMux ≠ ctx.nodeIdx
  dtl_mode : dtl.mode = ctx.dtlMode
  cfg_mode : cfg.ctx.dtlMode = ctx.dtlMode
  off_t : published.size < 2 ^ 63
  -- one read or write moves what the code moves at a time
  granularity : transferGranularity ≤ most
  here_holds : here.Holds ctx.originPath published
  there_holds : there.Holds cfg.ctx.originPath published

namespace RangeSetting

variable (S : RangeSetting) (offset length : UInt64)

/-- Nothing on the way. -/
def link : Link := ⟨[], [], none, Bytes.empty⟩

/-- The service answers the request. -/
def serve : Option Owner :=
  ((Request.range S.cfg).serve.exec
    (Owner.step S.most S.dtl.mode offset length)
    ⟨S.there, link, S.errno⟩).map Prod.fst

/-- The consumer takes what has been sent. -/
def receive (l : Link) : Option FileData :=
  ((dyadGetDataRange S.dtl).exec (fun l c => l.exec S.dtl.mode c c.smooth)
    (l.deliver.getD l)).map Prod.snd

/-- The call `dyad_get_data_range` of the consumer. -/
def fetched : Option (Except Rc (Bytes Byte)) :=
  ((S.serve offset length).bind fun s => S.receive s.link).map fun r =>
    if r.rc.isError then .error r.rc else .ok (r.data.truncate r.len)

/-- `dyad_consume_range` where the file is local to the node. -/
def consumeNear : Option (Rc × Option (Bytes Byte)) :=
  ((dyadConsumeRange S.ctx offset length).exec
    (Disk.client S.most S.near none) S.here).map Prod.snd

/-- `dyad_consume_range` where another node has it. -/
def consumeFar : Option (Rc × Option (Bytes Byte)) :=
  ((dyadConsumeRange S.ctx offset length).exec
    (Disk.client S.most S.far (S.fetched offset length)) S.here).map Prod.snd

/-- Both calls return, both succeed or both fail, and with the same bytes. -/
def Agree : Prop :=
  ∃ near far, S.consumeNear offset length = some near ∧
    S.consumeFar offset length = some far ∧
    (near.1 = .ok ↔ far.1 = .ok) ∧ near.2 = far.2

end RangeSetting

end Dyad
