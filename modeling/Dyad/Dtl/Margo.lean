import Dyad.Client.PathKey
import Dyad.Common
import Dyad.Conc.Handles

/-!
# The Margo DTL of the service (`dtl/margo_dtl.c`)

A request that travels over Margo carries the address of the consumer's Margo
server as a string. The service resolves it to an address handle of the Margo
library. Resolved addresses are kept in a cache that owns them; the handle of
the DTL keeps a copy of the one the last request resolved to, `remote_addr`,
which a request that is detached takes along.

`margo_addr_lookup` gives out one handle after the other, and they are
numbered in that order. Which lookups and allocations fail is decided
outside. Everything that is done with a handle is noted, the newest first.
-/

namespace Dyad

open Conc

/-- An address handle of the Margo library. -/
abbrev HgAddr := Nat

/-- `struct dyad_dtl_margo_addr_cache_entry`. -/
structure MargoAddrCacheEntry where
  addrStr : CString
  addr : HgAddr
deriving DecidableEq

/-- The fields of `struct dyad_dtl_margo` that address handles go through, the
requests that have been detached, each with its `remote_addr`, and the
library's side: the next handle and what was done with those before. -/
structure Margo where
  localAddr : HgAddr
  remoteAddr : Option HgAddr
  addrCache : List MargoAddrCacheEntry
  addrCacheCap : Nat
  detached : List (Option HgAddr)
  next : HgAddr
  events : List (HandleEvent HgAddr)
deriving DecidableEq

/-- What a lookup that is not in the cache is answered: by the library, by
`realloc` and by `strdup`. -/
structure LookupAnswers where
  lookup : Bool
  realloc : Bool
  strdup : Bool

/-- What a send is answered, call by call. -/
structure MargoSendAnswers where
  bulkCreate : Bool
  create : Bool
  forward : Bool
  getOutput : Bool

/-- What `rpc_unpack` reads in a request. -/
structure MargoRequest where
  upath : CString
  addr : CString

/-- What `rpc_unpack_range` reads in a request. -/
structure MargoRangeRequest extends MargoRequest where
  offset : UInt64
  length : UInt64

namespace Margo

/-- After `dyad_dtl_margo_init`: the address of the process itself is known,
and no other. -/
def init : Margo where
  localAddr := 0
  remoteAddr := none
  addrCache := []
  addrCacheCap := 0
  detached := []
  next := 1
  events := [.obtained 0]

/-- `margo_addr_lookup`, where it succeeds. -/
def obtain (m : Margo) : Margo :=
  { m with next := m.next + 1, events := .obtained m.next :: m.events }

/-- `margo_addr_free`. -/
def free (m : Margo) (addr : HgAddr) : Margo :=
  { m with events := .freed addr :: m.events }

/-- A call of the library that is passed an address; none is `HG_ADDR_NULL`. -/
def use (m : Margo) : Option HgAddr → Margo
  | none => m
  | some addr => { m with events := .used addr :: m.events }

/-- The capacity of the cache with room for one more. -/
def grown (m : Margo) : Nat :=
  if m.addrCache.length = m.addrCacheCap then
    if m.addrCacheCap = 0 then 8 else m.addrCacheCap * 2
  else
    m.addrCacheCap

/-- `dyad_dtl_margo_addr_cache_lookup`: the address, or the failure. -/
def dyadDtlMargoAddrCacheLookup (m : Margo) (addrStr : CString)
    (o : LookupAnswers) : Except Rc HgAddr × Margo :=
  match m.addrCache.find? fun e => e.addrStr = addrStr with
  | some e => (.ok e.addr, m)
  | none =>
    if o.lookup then
      let addr := m.next
      let m := m.obtain
      if m.addrCache.length = m.addrCacheCap ∧ o.realloc = false then
        (.error .sysfail, m.free addr)
      else
        let m := { m with addrCacheCap := m.grown }
        if o.strdup then
          (.ok addr, { m with addrCache := m.addrCache ++ [⟨addrStr, addr⟩] })
        else
          (.error .sysfail, m.free addr)
    else
      (.error .margoinitFail, m)

/-- The lookup into `remote_addr`, which a failure leaves as it was. -/
def resolve (m : Margo) (addrStr : CString) (o : LookupAnswers) :
    Except Rc Unit × Margo :=
  match m.dyadDtlMargoAddrCacheLookup addrStr o with
  | (.ok addr, m) => (.ok (), { m with remoteAddr := some addr })
  | (.error rc, m) => (.error rc, m)

/-- `dyad_dtl_margo_rpc_unpack`, of a message that may not be what it should
be. -/
def dyadDtlMargoRpcUnpack (m : Margo) (msg : Option MargoRequest)
    (o : LookupAnswers) : Except Rc CString × Margo :=
  match msg with
  | none => (.error .badunpack, m)
  | some req =>
    match m.resolve req.addr o with
    | (.ok _, m) => (.ok req.upath, m)
    | (.error rc, m) => (.error rc, m)

/-- `dyad_dtl_margo_rpc_unpack_range`. -/
def dyadDtlMargoRpcUnpackRange (m : Margo) (msg : Option MargoRangeRequest)
    (o : LookupAnswers) : Except Rc (CString × UInt64 × UInt64) × Margo :=
  match msg with
  | none => (.error .badunpack, m)
  | some req =>
    match m.resolve req.addr o with
    | (.ok _, m) => (.ok (req.upath, req.offset, req.length), m)
    | (.error rc, m) => (.error rc, m)

/-- `dyad_dtl_margo_send_to`. The address is passed to `margo_create`. -/
def dyadDtlMargoSendTo (m : Margo) (remoteAddr : Option HgAddr)
    (o : MargoSendAnswers) : Rc × Margo :=
  if o.bulkCreate then
    let m := m.use remoteAddr
    if o.create ∧ o.forward ∧ o.getOutput then (.ok, m)
    else (.margoinitFail, m)
  else
    (.margoinitFail, m)

/-- `dyad_dtl_margo_send`. -/
def dyadDtlMargoSend (m : Margo) (o : MargoSendAnswers) : Rc × Margo :=
  m.dyadDtlMargoSendTo m.remoteAddr o

/-- `dyad_dtl_margo_detach_request`; `alloc` is whether there is memory for
the state of the request. -/
def dyadDtlMargoDetachRequest (m : Margo) (alloc : Bool) : Rc × Margo :=
  if alloc then
    (.ok, { m with
      remoteAddr := none, detached := m.detached ++ [m.remoteAddr] })
  else
    (.sysfail, m)

/-- `dyad_dtl_margo_send_detached`, of the `i`th request that is detached. -/
def dyadDtlMargoSendDetached (m : Margo) (i : Nat) (o : MargoSendAnswers) :
    Option (Rc × Margo) :=
  (m.detached[i]?).map fun remoteAddr =>
    let (rc, m) := m.dyadDtlMargoSendTo remoteAddr o
    (rc, { m with detached := m.detached.eraseIdx i })

/-- `dyad_dtl_margo_abort_detached`. -/
def dyadDtlMargoAbortDetached (m : Margo) (i : Nat) : Option (Rc × Margo) :=
  (m.detached[i]?).map fun _ =>
    (.ok, { m with detached := m.detached.eraseIdx i })

/-- `dyad_dtl_margo_finalize`: what has been done with the handles at its
end. -/
def dyadDtlMargoFinalize (m : Margo) : List (HandleEvent HgAddr) :=
  let m := m.free m.localAddr
  let m := match m.remoteAddr with
    | some addr => m.free addr
    | none => m
  (m.addrCache.foldl (fun m e => m.free e.addr) m).events

/-! ## Runs -/

/-- A call of the DTL, with what is decided about it. -/
inductive Op
  | rpcUnpack (msg : Option MargoRequest) (o : LookupAnswers)
  | rpcUnpackRange (msg : Option MargoRangeRequest) (o : LookupAnswers)
  | addrCacheLookup (addrStr : CString) (o : LookupAnswers)
  | send (o : MargoSendAnswers)
  | detachRequest (alloc : Bool)
  | sendDetached (i : Nat) (o : MargoSendAnswers)
  | abortDetached (i : Nat)

/-- The state after a call. There is nothing to send or abort where no request
is detached. -/
def step (m : Margo) : Op → Margo
  | .rpcUnpack msg o => (m.dyadDtlMargoRpcUnpack msg o).2
  | .rpcUnpackRange msg o => (m.dyadDtlMargoRpcUnpackRange msg o).2
  | .addrCacheLookup addrStr o => (m.dyadDtlMargoAddrCacheLookup addrStr o).2
  | .send o => (m.dyadDtlMargoSend o).2
  | .detachRequest alloc => (m.dyadDtlMargoDetachRequest alloc).2
  | .sendDetached i o => ((m.dyadDtlMargoSendDetached i o).map (·.2)).getD m
  | .abortDetached i => ((m.dyadDtlMargoAbortDetached i).map (·.2)).getD m

/-- The state after a sequence of calls. -/
def run (ops : List Op) : Margo := ops.foldl step init

/-- The address strings in the cache are distinct, and there is room for
them. -/
def CacheOk (m : Margo) : Prop :=
  (m.addrCache.map (·.addrStr)).Nodup ∧ m.addrCache.length ≤ m.addrCacheCap

/-- Throughout the calls the cache is as it should be, and after
`dyad_dtl_margo_finalize` every handle has been freed once and none used
after that. -/
def Owned (ops : List Op) : Prop :=
  (∀ before, before <+: ops → (run before).CacheOk) ∧
    HandleEvent.Released (run ops).dyadDtlMargoFinalize

end Margo

end Dyad
