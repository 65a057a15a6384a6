import Dyad.Client.PathKey
import Dyad.Dtl.Ucx

/-!
# A UCX request on the wire (`dtl/ucx_dtl.c`)

`dyad_dtl_ucx_rpc_pack` puts the address of the consumer's buffer into the
JSON object as decimal text, printed with `PRIu64`, and the service reads it
back with `atoll`. `UcxMessage` is that object, and the two functions here are
those of `Dtl/Ucx.lean` with the printing and the reading around them.

The object itself is taken to arrive as it was packed. An address and a remote
key are recovered as the buffer they are decoded into and its length, which is
the one `base64_decoded_length` asks for; the length `base64_decode_using_maps`
returns is only compared with zero.
-/

namespace Dyad

/-- The whitespace `strtoll` skips. -/
def isSpace (c : Char) : Bool :=
  c = ' ' || (9 ≤ c.toNat && c.toNat ≤ 13)

/-- `atoll`, as the C library has it on top of `strtoll`: what does not fit is
cut to the nearest number that does. -/
def atoll (s : CString) : Int :=
  let digits (s : CString) : Nat := Nat.ofDigitChars 10 (s.takeWhile Char.isDigit) 0
  match s.dropWhile isSpace with
  | '-' :: s => max (-2 ^ 63) (-(digits s : Int))
  | '+' :: s => min (2 ^ 63 - 1) (digits s : Int)
  | s => min (2 ^ 63 - 1) (digits s : Int)

/-- The JSON object of a request. -/
structure UcxMessage where
  upath : List Byte
  tagProd : BitVec 32
  consBuf : CString
  pidCons : BitVec 32
  addr : List Byte
  rkey : List Byte
deriving DecidableEq

/-- The object a request is packed into. -/
def UcxRequest.pack (req : UcxRequest) : UcxMessage where
  upath := req.upath
  tagProd := req.tagProd
  consBuf := Nat.toDigits 10 req.consBuf.toNat
  pidCons := req.pidCons
  addr := req.addr
  rkey := req.rkey

/-- The request an object is read as. -/
def UcxMessage.read (msg : UcxMessage) : UcxRequest where
  upath := msg.upath
  tagProd := msg.tagProd
  consBuf := BitVec.ofInt 64 (atoll msg.consBuf)
  pidCons := msg.pidCons
  addr := msg.addr
  rkey := msg.rkey

/-- `dyad_dtl_ucx_rpc_pack`: the object it makes. -/
def dyadDtlUcxRpcPackMessage (h : UcxHandle) (pid : BitVec 32)
    (upath : List Byte) (producerRank : BitVec 32) (alloc : Bool) :
    Except Rc UcxMessage :=
  (dyadDtlUcxRpcPack h pid upath producerRank alloc).map UcxRequest.pack

/-- `dyad_dtl_ucx_rpc_unpack`, of an object: the handle as it is left, and the
user path. -/
def dyadDtlUcxRpcUnpackMessage (h : UcxHandle) (msg : UcxMessage)
    (o : UnpackOutcome) : Option (UcxHandle × Except Rc (List Byte)) :=
  (dyadDtlUcxRpcUnpack h msg.read o).map fun x =>
    (x.1, x.2.map fun _ => msg.upath)

/-- What a consumer sends about itself and the file it asks for. -/
structure UcxSender where
  upath : List Byte
  address : List Byte
  rkey : List Byte
  consBuf : BitVec 64
  pid : BitVec 32

/-- The consumer's handle. -/
def UcxSender.handle (s : UcxSender) (h : UcxHandle) : UcxHandle :=
  { h with
    localAddress := some s.address
    rkeyBuf := some s.rkey
    consBufPtr := s.consBuf }

/-- The handle of the service holds what the consumer sent. -/
def UcxSender.RecoveredIn (s : UcxSender) (h : UcxHandle) : Prop :=
  h.remoteAddress = some s.address ∧ h.rkeyBuf = some s.rkey ∧
    h.consBufPtr = s.consBuf ∧ h.consumerConnKey >>> 32 = s.pid.setWidth 64

/-- What the consumer with the handle `hc` packs, the service with the handle
`hs` unpacks to the same. -/
def UcxSender.RoundTrips (s : UcxSender) (hc hs : UcxHandle)
    (producerRank : BitVec 32) : Prop :=
  ∃ msg h, dyadDtlUcxRpcPackMessage (s.handle hc) s.pid s.upath producerRank
      true = .ok msg ∧
    dyadDtlUcxRpcUnpackMessage hs msg .ok = some (h, .ok s.upath) ∧
    s.RecoveredIn h

end Dyad
