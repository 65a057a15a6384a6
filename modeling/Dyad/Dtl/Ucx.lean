import Dyad.Service.Fetch
import Dyad.Utils.Base64

/-!
# The UCX DTL of the service (`dtl/ucx_dtl.c`, `dtl/ucx_ep_cache.cpp`)

A whole-file request that travels over UCX carries the address of the
consumer's UCX worker. The service decodes it into its one DTL handle,
connects an endpoint to it, and puts the file into the consumer's memory
through that endpoint. Endpoints are kept in a cache across requests.

The handle is mutable state that outlives the request: `ep`,
`remote_address`, `rkey_buf` and `consumer_conn_key` stay as the last request
left them until `close_connection` resets them, and the handler only gets
there when everything went well.

The functions of the DTL are given the handle and what UCX, Flux and the
allocator decide, and return the handle as they leave it. `ucxService` is the
service rank: it runs the fetch handler for one request after the other, with
the calls to the DTL answered by these functions and all others answered in
any way.
-/

namespace Dyad

open Conc Posix

/-- `dyad_dtl_comm_mode_t`. -/
inductive CommMode
  | none
  | recv
  | send
deriving DecidableEq

/-- What `dyad_dtl_ucx_rpc_pack` puts into a request. The address of the
consumer's buffer is the number its decimal text stands for. -/
structure UcxRequest where
  upath : List Byte
  tagProd : BitVec 32
  consBuf : BitVec 64
  pidCons : BitVec 32
  addr : List Byte
  rkey : List Byte
deriving DecidableEq

/-- An endpoint: the worker address it is connected to, and the request it
was created for, which is noted here and read by nobody. -/
structure Endpoint where
  address : List Byte
  createdFor : UcxRequest
deriving DecidableEq

/-- The fields of `struct dyad_dtl_ucx` that a transfer goes by. Of `net_buf`
it is only said whether there is one: the result of `ucx_allocate_buffer` is
not looked at when the handle is set up. -/
structure UcxHandle where
  commMode : CommMode
  maxTransferSize : Nat
  localAddress : Option (List Byte)
  remoteAddress : Option (List Byte)
  ep : Option Endpoint
  commTag : BitVec 64
  epCache : BitVec 64 → Option Endpoint
  consumerConnKey : BitVec 64
  rkeyBuf : Option (List Byte)
  consBufPtr : BitVec 64
  netBuf : Bool

/-! ## The consumer's side -/

/-- `dyad_dtl_ucx_rpc_pack`, for the process `pid`; `alloc` is whether its
buffers could be allocated and its object be built. -/
def dyadDtlUcxRpcPack (h : UcxHandle) (pid : BitVec 32) (upath : List Byte)
    (producerRank : BitVec 32) (alloc : Bool) : Except Rc UcxRequest :=
  match h.localAddress, h.rkeyBuf with
  | none, _ => .error .badpack
  | some localAddress, rkeyBuf =>
    if alloc then
      .ok {
        upath := upath
        tagProd := producerRank
        consBuf := h.consBufPtr
        pidCons := pid
        addr := Base64.encode localAddress
        rkey := Base64.encode (rkeyBuf.getD []) }
    else
      .error .sysfail

/-! ## The service's side -/

/-- What is decided about an `rpc_unpack`: whether the message is what the
format asks for, else whether the text of the buffer's address was found, and
which allocation fails. -/
inductive UnpackOutcome
  | ok
  | bad (tagValueRead : Bool)
  | noAddress
  | noRkey
deriving DecidableEq

/-- What is decided about a new endpoint: UCX fails, succeeds with a null
endpoint, or succeeds and the cache has or has not the memory for it. -/
inductive ConnectOutcome
  | ok
  | fail
  | null
  | notCached
deriving DecidableEq

/-- What is decided about a send. -/
inductive SendOutcome
  | ok
  | rkeyFails
  | putFails
deriving DecidableEq

/-- A decoded string in the buffer that `base64_decoded_length` asks for. -/
def decodedBuffer (encoded : List Byte) : Option (List Byte) :=
  (Base64.decode encoded).map fun decoded =>
    decoded ++ List.replicate
      (Base64.decodedLength encoded.length - decoded.length) 0

/-- The worker address a request carries. -/
def UcxRequest.address (req : UcxRequest) : Option (List Byte) :=
  decodedBuffer req.addr

/-- The key its endpoint goes under: `pid << 32 | tag_cons`, where `tag_cons`
is zero and `pid` was unpacked as an `int` into the low half of a
`uint64_t`. -/
def UcxRequest.key (req : UcxRequest) : BitVec 64 :=
  (req.pidCons.setWidth 64 <<< 32) ||| 0

/-- The half of `dyad_dtl_ucx_rpc_unpack` that decodes the address and the
remote key. -/
def ucxDecode (h : UcxHandle) (msg : UcxRequest) (o : UnpackOutcome) :
    UcxHandle × Except Rc Unit :=
  if o = .noAddress then
    ({ h with remoteAddress := none }, .error .sysfail)
  else
    match msg.address with
    | none => ({ h with remoteAddress := none }, .error .badB64decode)
    | some address =>
      let h := { h with remoteAddress := some address }
      if o = .noRkey then
        ({ h with rkeyBuf := none }, .error .sysfail)
      else
        match decodedBuffer msg.rkey with
        | none => ({ h with rkeyBuf := none }, .error .badB64decode)
        | some rkey => ({ h with rkeyBuf := some rkey }, .ok ())

/-- `dyad_dtl_ucx_rpc_unpack`. The address of the consumer's buffer is
converted before the error code is looked at; where there is none, that
dereferences a null pointer, and nothing is answered. -/
def dyadDtlUcxRpcUnpack (h : UcxHandle) (msg : UcxRequest)
    (o : UnpackOutcome) : Option (UcxHandle × Except Rc Unit) :=
  match o with
  | .bad false => none
  | .bad true => some (h, .error .badunpack)
  | o =>
    some (ucxDecode { h with
      consBufPtr := msg.consBuf
      commTag := msg.tagProd.setWidth 64 <<< 32 ||| 0
      consumerConnKey := msg.key } msg o)

/-- `dyad_dtl_ucx_get_buffer`: the code, and whether the pointer is left set. A
buffer that was never allocated is handed out with `DYAD_RC_OK`. -/
def dyadDtlUcxGetBuffer (h : UcxHandle) (dataSize : Nat) : Rc × Bool :=
  if dataSize > h.maxTransferSize then (.badbuf, false) else (.ok, h.netBuf)

/-- `dyad_ucx_ep_cache_find`: the code, and `*ep` as it is left. -/
def dyadUcxEpCacheFind (h : UcxHandle) : Rc × Option Endpoint :=
  match h.ep with
  | some ep => (.badbuf, some ep)
  | none =>
    match h.epCache h.consumerConnKey with
    | none => (.notfound, none)
    | some ep => (.ok, some ep)

/-- `ucx_connect`: the code, and `*ep` as it is left. A null address is an
address UCX refuses. -/
def ucxConnect (h : UcxHandle) (createdFor : UcxRequest) :
    ConnectOutcome → Rc × Option Endpoint
  | .fail => (.ucxcommFail, h.ep)
  | .null => (.ucxcommFail, none)
  | _ =>
    match h.remoteAddress with
    | none => (.ucxcommFail, h.ep)
    | some address => (.ok, some ⟨address, createdFor⟩)

/-- `dyad_ucx_ep_cache_insert`. A key that is in the cache already is left as
it is, and so is `ep`. -/
def dyadUcxEpCacheInsert (h : UcxHandle) (createdFor : UcxRequest)
    (o : ConnectOutcome) : Rc × UcxHandle :=
  match h.epCache h.consumerConnKey with
  | some _ => (.ok, h)
  | none =>
    let (rc, ep) := ucxConnect h createdFor o
    let h := { h with ep := ep }
    if rc.isError then
      (rc, h)
    else if o = .notCached then
      (.sysfail, h)
    else
      (.ok, { h with
        epCache := Function.update h.epCache h.consumerConnKey ep })

/-- `dyad_dtl_ucx_establish_connection`. -/
def dyadDtlUcxEstablishConnection (h : UcxHandle) (createdFor : UcxRequest)
    (o : ConnectOutcome) : Rc × UcxHandle :=
  match h.commMode with
  | .send =>
    let (rc, ep) := dyadUcxEpCacheFind h
    let h := { h with ep := ep }
    if rc.isError then
      dyadUcxEpCacheInsert h createdFor o
    else
      (.ok, h)
  | .recv => (.ok, h)
  | .none => (.badCommMode, h)

/-- `dyad_dtl_ucx_send`: the code, and the endpoint the payload was put
through, if it got that far. -/
def dyadDtlUcxSend (h : UcxHandle) (o : SendOutcome) : Rc × Option Endpoint :=
  match h.ep, h.rkeyBuf with
  | some ep, some _ =>
    match o with
    | .rkeyFails => (.ucxcommFail, none)
    | .putFails => (.ucxcommFail, some ep)
    | .ok => (.ok, some ep)
  | _, _ => (.ucxcommFail, none)

/-- `dyad_dtl_ucx_close_connection`. -/
def dyadDtlUcxCloseConnection (h : UcxHandle) : UcxHandle :=
  match h.commMode with
  | .send =>
    { h with rkeyBuf := none, ep := none, remoteAddress := none, commTag := 0 }
  | .recv => { h with commTag := 0 }
  | .none => h

/-! ## A service rank -/

/-- What the environment decides about one call. -/
structure UcxChoice where
  answer : (c : Call) → Option c.Res
  unpack : UnpackOutcome
  connect : ConnectOutcome
  send : SendOutcome

/-- A service rank: its handle, the request being served and those taken up
since it was set up, the endpoints that were found in the cache, and those that payloads
were put through, each with the request it was for. -/
structure UcxService where
  handle : UcxHandle
  current : UcxRequest
  served : List UcxRequest
  found : List (UcxRequest × Endpoint)
  transmitted : List (UcxRequest × Endpoint)

/-- The answer of a function of the DTL. -/
def Rc.toExcept (rc : Rc) : Except Rc Unit :=
  if rc.isError then .error rc else .ok ()

/-- The answer of `rpc_unpack`. -/
def Unpacked.ofExcept : Except Rc Unit → Unpacked
  | .ok _ => .ok
  | .error rc => .error rc

namespace UcxService

/-- What a lookup finds for the request being served. -/
def hits (w : UcxService) : List (UcxRequest × Endpoint) :=
  match dyadUcxEpCacheFind w.handle with
  | (.ok, some ep) => [(w.current, ep)]
  | _ => []

/-- The effect and the answer of `rpc_unpack`. -/
def unpacked (w : UcxService) :
    Option (UcxHandle × Except Rc Unit) → UcxService × Unpacked
  | none => (w, .nullAddress)
  | some (h, r) => ({ w with handle := h }, .ofExcept r)

/-- The effect and the answer of a call. -/
def exec (w : UcxService) (c : Call) (x : UcxChoice) :
    Option (UcxService × c.Res) :=
  match c with
  | .rpcUnpack =>
    some (w.unpacked (dyadDtlUcxRpcUnpack w.handle w.current x.unpack))
  | .rpcRespond => some (w, .ok ())
  | .getBuffer size =>
    let (rc, set) := dyadDtlUcxGetBuffer w.handle size
    some (w, if set then .ok () else .error rc)
  | .returnBuffer => some (w, ())
  | .establishConnection =>
    let (rc, h) := dyadDtlUcxEstablishConnection w.handle w.current x.connect
    some ({ w with handle := h, found := w.hits ++ w.found }, rc.toExcept)
  | .send _ =>
    let (rc, ep) := dyadDtlUcxSend w.handle x.send
    some ({ w with
      transmitted := ep.toList.map (w.current, ·) ++ w.transmitted },
      rc.toExcept)
  | .closeConnection =>
    some ({ w with handle := dyadDtlUcxCloseConnection w.handle }, ())
  | c => (x.answer c).map fun r => (w, r)

/-- A request is taken up. -/
def take (w : UcxService) (req : UcxRequest) : UcxService :=
  { w with current := req, served := req :: w.served }

/-- The rank dies, and is set up again. -/
def restart (w : UcxService) : UcxService :=
  { w with
    handle := { w.handle with
      remoteAddress := none
      ep := none
      commTag := 0
      epCache := fun _ => none
      consumerConnKey := 0
      rkeyBuf := none }
    served := [] }

/-- A service rank that has just been set up for sending. -/
def Fresh (w : UcxService) : Prop :=
  w.handle.commMode = .send ∧ w.handle.ep = none ∧
    (∀ key, w.handle.epCache key = none) ∧
    w.served = [] ∧ w.found = [] ∧ w.transmitted = []

end UcxService

/-- One service rank over the UCX DTL, in a build with that DTL. Its one
thread runs the handler for one request at a time. -/
def ucxService : Machine UcxService Unit Unit UcxChoice Call.Res
    (fun _ : UcxRequest => Unit) where
  proc := id
  exec w _ := w.exec
  crash w _ := w.restart
  enter w _ := w.take
  leave w _ _ := w
  job _ _ := some (dyadFetchRequestCb true)

end Dyad
