import Dyad.Client.GetData
import Dyad.System

/-!
# One transfer: a consumer, a service, and what is in flight

The consumer runs `dyad_get_data`. Its request starts the service's handler
on the owner's node, and from then on the two take their steps in any order.
What one has sent and the other has not received lies on the link: the
responses on the RPC's stream, in order, and for the two other transports the
notification that reaches `data_ready_rpc`, or what has been put into the
consumer's buffer. A transport delivers the bytes its `send` was given.

Each party's calls are recorded with their answers, the last one first.
-/

namespace Dyad

open Conc Posix

/-- A response on the stream of the RPC. -/
inductive Response
  | raw (data : Bytes Byte)
  | error (e : Errno)

/-- What lies between the two parties. -/
structure Link where
  stream : List Response
  arriving : List (Bytes Byte)
  ready : Option (Bytes Byte)
  netBuf : Bytes Byte

namespace Link

/-- `rpc_pack` of the UCX DTL clears the size it will poll. -/
def packed (mode : DtlMode) (l : Link) : Link :=
  if mode = .ucx then { l with netBuf := l.netBuf.splice 0 (Bytes.zeros 8) }
  else l

/-- The effect and the answer of a call of the consumer; `none` while it
waits. -/
def exec (mode : DtlMode) (l : Link) :
    (c : GetCall) → Choice → Option (Link × c.Res)
  | .rpcPack, .os .ok => some (l.packed mode, .ok ())
  | .rpcPack, .rc r =>
    if r.isError then some (l.packed mode, .error r) else none
  | .fluxRpcPack, .flag b => some (l, b)
  | .rpcGetRaw, .os .ok =>
    match l.stream with
    | [] => none
    | .raw data :: rest => some ({ l with stream := rest }, .ok data)
    | .error e :: rest => some ({ l with stream := rest }, .error e)
  | .getBuffer _, .os .ok => some (l, .ok ())
  | .getBuffer _, .rc r => if r.isError then some (l, .error r) else none
  | .recvReady, .os .ok =>
    match l.ready with
    | none => none
    | some data => some ({ l with ready := none }, data)
  | .malloc _, .flag b => some (l, b)
  | .netBufReady, .os .ok =>
    if prefixValue l.netBuf 8 = 0 then none else some (l, ())
  | .netBuf, .os .ok => some (l, l.netBuf)
  | .rpcGet, .os .ok =>
    match l.stream with
    | [] => none
    | .raw _ :: rest => some ({ l with stream := rest }, .ok ())
    | .error e :: rest => some ({ l with stream := rest }, .error e)
  | _, _ => none

section

attribute [local simp] exec

variable {mode : DtlMode} {l l' : Link} {x : Choice}

theorem exec_rpcPack {r : Except Rc Unit}
    (h : l.exec mode .rpcPack x = some (l', r)) :
    l' = l.packed mode ∧ ∀ rc, r = .error rc → rc ≠ .ok := by
  cases x with
  | os o =>
    cases o with
    | ok =>
      simp only [exec, Option.some.injEq, Prod.mk.injEq] at h
      obtain ⟨rfl, rfl⟩ := h
      exact ⟨rfl, fun rc hrc => absurd hrc (by simp)⟩
    | _ => exact absurd h (by simp)
  | rc rc =>
    simp only [exec, Option.ite_none_right_eq_some, Option.some.injEq,
      Prod.mk.injEq] at h
    obtain ⟨hrc, rfl, rfl⟩ := h
    refine ⟨rfl, fun rc' heq => ?_⟩
    obtain rfl := Except.error.inj heq
    exact (Rc.isError_iff _).1 hrc
  | _ => exact absurd h (by simp)

theorem exec_fluxRpcPack {r : Bool}
    (h : l.exec mode .fluxRpcPack x = some (l', r)) : l' = l := by
  cases x with
  | flag b =>
    simp only [exec, Option.some.injEq, Prod.mk.injEq] at h
    exact h.1.symm
  | _ => exact absurd h (by simp)

theorem exec_getBuffer {size : Nat} {r : Except Rc Unit}
    (h : l.exec mode (.getBuffer size) x = some (l', r)) :
    l' = l ∧ ∀ rc, r = .error rc → rc ≠ .ok := by
  cases x with
  | os o =>
    cases o with
    | ok =>
      simp only [exec, Option.some.injEq, Prod.mk.injEq] at h
      obtain ⟨rfl, rfl⟩ := h
      exact ⟨rfl, fun rc hrc => absurd hrc (by simp)⟩
    | _ => exact absurd h (by simp)
  | rc rc =>
    simp only [exec, Option.ite_none_right_eq_some, Option.some.injEq,
      Prod.mk.injEq] at h
    obtain ⟨hrc, rfl, rfl⟩ := h
    refine ⟨rfl, fun rc' heq => ?_⟩
    obtain rfl := Except.error.inj heq
    exact (Rc.isError_iff _).1 hrc
  | _ => exact absurd h (by simp)

theorem exec_malloc {size : Nat} {r : Bool}
    (h : l.exec mode (.malloc size) x = some (l', r)) : l' = l := by
  cases x with
  | flag b =>
    simp only [exec, Option.some.injEq, Prod.mk.injEq] at h
    exact h.1.symm
  | _ => exact absurd h (by simp)

theorem exec_rpcGetRaw {r : Except Errno (Bytes Byte)}
    (h : l.exec mode .rpcGetRaw x = some (l', r)) :
    (∃ data rest, l.stream = .raw data :: rest ∧ r = .ok data ∧
      l' = { l with stream := rest }) ∨
    (∃ e rest, l.stream = .error e :: rest ∧ r = .error e ∧
      l' = { l with stream := rest }) := by
  cases x with
  | os o =>
    cases o with
    | ok =>
      simp only [exec] at h
      split at h
      · exact absurd h (by simp)
      · next data rest hs =>
        simp only [Option.some.injEq, Prod.mk.injEq] at h
        exact Or.inl ⟨data, rest, hs, h.2.symm, h.1.symm⟩
      · next e rest hs =>
        simp only [Option.some.injEq, Prod.mk.injEq] at h
        exact Or.inr ⟨e, rest, hs, h.2.symm, h.1.symm⟩
    | _ => exact absurd h (by simp)
  | _ => exact absurd h (by simp)

theorem exec_rpcGet {r : Except Errno Unit}
    (h : l.exec mode .rpcGet x = some (l', r)) :
    ∃ answer rest, l.stream = answer :: rest ∧
      l' = { l with stream := rest } := by
  cases x with
  | os o =>
    cases o with
    | ok =>
      simp only [exec] at h
      split at h
      · exact absurd h (by simp)
      · next data rest hs =>
        simp only [Option.some.injEq, Prod.mk.injEq] at h
        exact ⟨_, rest, hs, h.1.symm⟩
      · next e rest hs =>
        simp only [Option.some.injEq, Prod.mk.injEq] at h
        exact ⟨_, rest, hs, h.1.symm⟩
    | _ => exact absurd h (by simp)
  | _ => exact absurd h (by simp)

theorem exec_recvReady {r : Bytes Byte}
    (h : l.exec mode .recvReady x = some (l', r)) :
    l.ready = some r ∧ l' = { l with ready := none } := by
  cases x with
  | os o =>
    cases o with
    | ok =>
      simp only [exec] at h
      split at h
      · exact absurd h (by simp)
      · next data hs =>
        simp only [Option.some.injEq, Prod.mk.injEq] at h
        obtain ⟨rfl, rfl⟩ := h
        exact ⟨hs, rfl⟩
    | _ => exact absurd h (by simp)
  | _ => exact absurd h (by simp)

theorem exec_netBufReady {r : Unit}
    (h : l.exec mode .netBufReady x = some (l', r)) :
    l' = l ∧ prefixValue l.netBuf 8 ≠ 0 := by
  cases x with
  | os o =>
    cases o with
    | ok =>
      simp only [exec, Option.ite_none_left_eq_some, Option.some.injEq,
        Prod.mk.injEq] at h
      exact ⟨h.2.1.symm, h.1⟩
    | _ => exact absurd h (by simp)
  | _ => exact absurd h (by simp)

theorem exec_netBuf {r : Bytes Byte}
    (h : l.exec mode .netBuf x = some (l', r)) : l' = l ∧ r = l.netBuf := by
  cases x with
  | os o =>
    cases o with
    | ok =>
      simp only [exec, Option.some.injEq, Prod.mk.injEq] at h
      exact ⟨h.1.symm, h.2.symm⟩
    | _ => exact absurd h (by simp)
  | _ => exact absurd h (by simp)

end

/-- What the transport does with the bytes its `send` was given. -/
def send (mode : DtlMode) (l : Link) (payload : Bytes Byte) : Link :=
  match mode with
  | .fluxRpc => { l with stream := l.stream ++ [.raw payload] }
  | .ucx => { l with netBuf := l.netBuf.splice 0 payload }
  | .margo => { l with arriving := l.arriving ++ [payload] }

/-- What a call of the service puts on the link. -/
def served (mode : DtlMode) (l : Link) : (c : Call) → c.Res → Link
  | .send payload, .ok _ => l.send mode payload
  | .respondError e, _ => { l with stream := l.stream ++ [.error e] }
  | _, _ => l

/-- `data_ready_rpc`: the bytes have been pulled, the flag is set. -/
def deliver (l : Link) : Option Link :=
  match l.arriving with
  | [] => none
  | data :: rest => some { l with arriving := rest, ready := some data }

end Link

/-- Whether a call, so answered, is the request that starts the handler. -/
def GetCall.requests : (c : GetCall) → c.Res → Bool
  | .fluxRpcPack, sent => sent
  | _, _ => false

/-- A transfer under way. `service` is `none` until the request arrives. -/
structure Transfer where
  node : Node
  link : Link
  client : GetProgram FileData
  asked : List (Prog.Event GetCall.Res)
  service : Option (Program Unit)
  done : List (Prog.Event Call.Res)

/-- The consumer has made the call `c`. -/
def Transfer.asks (s : Transfer) (dtl : Dtl) (link : Link) (c : GetCall)
    (r : c.Res) (client : GetProgram FileData) : Transfer :=
  { s with
    link, client
    asked := ⟨c, r⟩ :: s.asked
    service :=
      if c.requests r then some (dyadFetchRequestCb dtl.ucxBuild)
      else s.service }

/-- The service has made the call `c`. -/
def Transfer.serves (s : Transfer) (dtl : Dtl) (node : Node) (c : Call)
    (r : c.Res) (service : Program Unit) : Transfer :=
  { s with
    node
    link := s.link.served dtl.mode c r
    service := some service
    done := ⟨c, r⟩ :: s.done }

/-- A step: the next call of either party, or the arrival of what was sent. -/
inductive TransferStep
  | client (x : Choice)
  | service (x : Choice)
  | deliver

/-- The thread of the service's reactor. -/
def reactor : Tid := (0, 0)

/-- The transfers of a file from a node on which `start` holds. -/
def transfer (dtl : Dtl) (start : Node → Prop) :
    Lts Transfer TransferStep where
  init s :=
    start s.node ∧ s.link.stream = [] ∧ s.link.arriving = [] ∧
      s.link.ready = none ∧ s.client = dyadGetData dtl ∧ s.asked = [] ∧
      s.service = none ∧ s.done = []
  next s
    | .client x =>
      match s.client with
      | .pure _ => none
      | .call c k =>
        (s.link.exec dtl.mode c x).map fun (link, r) =>
          s.asks dtl link c r (k r)
    | .service x =>
      match s.service with
      | some (.call c k) =>
        (s.node.exec reactor c x).map fun (node, r) =>
          s.serves dtl node c r (k r)
      | _ => none
    | .deliver => s.link.deliver.map fun link => { s with link }

/-- Everything a step can be. -/
theorem transfer_cases {dtl : Dtl} {start : Node → Prop} {s s' : Transfer}
    {l : TransferStep} (h : (transfer dtl start).next s l = some s') :
    (∃ x c k link r, l = .client x ∧ s.client = .call c k ∧
      s.link.exec dtl.mode c x = some (link, r) ∧
      s' = s.asks dtl link c r (k r)) ∨
    (∃ x c k node r, l = .service x ∧ s.service = some (.call c k) ∧
      s.node.exec reactor c x = some (node, r) ∧
      s' = s.serves dtl node c r (k r)) ∨
    (∃ data rest, l = .deliver ∧ s.link.arriving = data :: rest ∧
      s' = { s with link :=
        { s.link with arriving := rest, ready := some data } }) := by
  cases l with
  | client x =>
    simp only [transfer] at h
    split at h
    · exact absurd h (by simp)
    · next c k hc =>
      obtain ⟨⟨link, r⟩, hex, rfl⟩ := Option.map_eq_some_iff.1 h
      exact Or.inl ⟨x, c, k, link, r, rfl, hc, hex, rfl⟩
  | service x =>
    simp only [transfer] at h
    split at h
    · next c k hc =>
      obtain ⟨⟨node, r⟩, hex, rfl⟩ := Option.map_eq_some_iff.1 h
      exact Or.inr (Or.inl ⟨x, c, k, node, r, rfl, hc, hex, rfl⟩)
    · exact absurd h (by simp)
  | deliver =>
    obtain ⟨link, hd, rfl⟩ := Option.map_eq_some_iff.1 h
    rw [Link.deliver] at hd
    split at hd
    · exact absurd hd (by simp)
    · next data rest ha =>
      obtain rfl := Option.some.inj hd
      exact Or.inr (Or.inr ⟨data, rest, rfl, ha, rfl⟩)

end Dyad
