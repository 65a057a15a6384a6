import Dyad.Service.Request

/-!
# The reply to a range (`dtl/flux_dtl.c`, `service/flux_module/dyad.c`)

The client's offset and length are `size_t`s. They go through the request as
JSON integers, which are signed, and come out of it as `size_t`s again.

The reply is looked at for a file of known content. What it is to hold is said
over the natural numbers, where the end of a range does not wrap.
-/

namespace Dyad

open Conc Posix

/-- `dyad_dtl_flux_rpc_pack_range`: the two integers of the request. -/
def dyadDtlFluxRpcPackRange (offset length : UInt64) : Int × Int :=
  (toSsize offset, toSsize length)

/-- `dyad_dtl_flux_rpc_unpack_range`. -/
def dyadDtlFluxRpcUnpackRange (offsetVal lengthVal : Int) : UInt64 × UInt64 :=
  (UInt64.ofInt offsetVal, UInt64.ofInt lengthVal)

namespace RangeReply

/-- The range `[offset, min (offset + length) size)` of a file, none of it
where it starts past the end. -/
def wanted (content : Bytes Byte) (offset length : UInt64) : Bytes Byte :=
  content.slice offset.toNat
    (min (offset.toNat + length.toNat) content.size - offset.toNat)

/-- What the calls of a request for that range of that file may answer: what
those of any request may, and the file's size and bytes, though not all of them
at once. -/
def Answers (content : Bytes Byte) (offset length : UInt64) (h : ServiceHistory)
    (c : Call) (r : c.Res) : Prop :=
  Sane h c r ∧
    match c, r with
    | .rpcUnpackRange, .ok range =>
      let sent := dyadDtlFluxRpcPackRange offset length
      range = dyadDtlFluxRpcUnpackRange sent.1 sent.2
    | .sys (.fstat _), .ok size => size = content.size
    | .sys (.pread _ off _), .ok d => d = content.slice off d.size
    | _, _ => True

/-- The size of the buffer, if one has been granted. -/
def granted : ServiceHistory → Option Nat
  | [] => none
  | ⟨.getBuffer size, .ok _⟩ :: _ => some size
  | _ :: h => granted h

/-- A read at that point of the request continues the range, and stays in what
was asked for and in the buffer. -/
structure ReadWithin (offset length : UInt64) (h : ServiceHistory)
    (off len : Nat) : Prop where
  next : off = offset.toNat + (dataRead h).size
  asked : (dataRead h).size + len ≤ length.toNat
  buffer : ∃ size, granted h = some size ∧ (dataRead h).size + len ≤ size

/-- The request has been served exactly, or refused: it came to its end, what
was handed to the DTL is the wanted range, no read went past the buffer or the
range, and where nothing was handed over the response is of an error. -/
structure Exact (content : Bytes Byte) (offset length : UInt64)
    (h : ServiceHistory) (q : Program Unit) : Prop where
  returned : q = .pure ()
  payload : ∀ p ∈ h.filterMap handedOver, p = wanted content offset length
  reads : ∀ fd off len r h', (⟨.sys (.pread fd off len), r⟩ :: h') <:+ h →
    ReadWithin offset length h' off len
  refused : h.filterMap handedOver = [] →
    ∃ e, h.filterMap terminal = [e] ∧ e ≠ 0 ∧ e ≠ Errno.ENODATA

/-- Nothing happened to the request that its exits do not tell: it was not led
to undefined behaviour; where nothing was handed over, an errno that no call of the
request had set was not `ENODATA` and, outside a worker, not zero, and no
detached send failed but the worker's; and where something was, the size of the
file was known, or none of it was wanted. -/
structure Untroubled (cfg : RangeConfig) (content : Bytes Byte)
    (offset length : UInt64) (h : ServiceHistory) : Prop where
  legal : (Request.range cfg).Legal h
  errno : h.filterMap handedOver = [] →
    ∀ x ∈ stale h, x.1 ≠ Errno.ENODATA ∧ (x.1 = 0 → x.2 = true)
  noticed : h.filterMap handedOver = [] → h.any sendLost = true →
    cfg.sendDetachedIsThreadSafe = true
  statted : h.filterMap handedOver ≠ [] →
    sizeSeen h ≠ none ∨ (wanted content offset length).size = 0

end RangeReply

end Dyad
