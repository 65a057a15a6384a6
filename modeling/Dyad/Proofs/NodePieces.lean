import Dyad.Client.ConsumeResources
import Dyad.Conc.Mirror
import Dyad.Service.HandlerResources

/-!
# Calls on a node, and calls on handles

The client's functions and the service's are modelled over the files of a node,
where what they read and write matters, and over the handles they hold, where
what they give back does. `NodePiece` says which piece over the node stands for
which call on a handle, or for which piece of the DTL that makes several.
-/

namespace Dyad.Resources

open Conc Prog

/-- An error that a transfer answers is the code of one. -/
def Coded : (c : Dyad.Call) → c.Res → Prop
  | .getData, .error rc => rc.isError = true
  | .getDataRange .., .error rc => rc.isError = true
  | .rpcSendDetached _, .error rc => rc.isError = true
  | _, _ => True

/-- What `read` and `pread` return. -/
def readLen : Except Posix.Errno (Posix.Bytes Byte) → Int
  | .ok d => d.size
  | .error _ => -1

/-- The same, of what was read into a buffer of the DTL. -/
def intoLen : Option (Posix.Bytes Byte) → Int
  | some d => d.size
  | none => -1

/-- What `dyad_get_data` returns, and leaves in its output parameter. -/
def Fetched : Except Rc (Posix.Bytes Byte) → Rc × Option Nat → Prop
  | .ok _, y => y.1 = .ok ∧ y.2.isSome = true
  | .error rc, y => y = (rc, none) ∧ rc.isError = true

/-- What is returned for a range, over the node and with the handle. -/
def RangeFetched : Except Rc (Posix.Bytes Byte) → Rc × Out → Prop
  | .ok _, y => y.1 = .ok
  | .error rc, y => y.1 = rc

/-- Both fail, or neither does. -/
def Fails {α : Type} (r : Except Rc α) (rc : Rc) : Prop :=
  r.isOk = !rc.isError

/-- The same of `rpc_unpack`, where it comes back. -/
def Unpacks : Unpacked → Rc → Prop
  | .ok, rc => rc.isError = false
  | .error _, rc => rc.isError = true
  | .nullAddress, _ => True

/-- What over a node stands for a call on a handle. -/
inductive NodePiece (c : Ctx) :
    ⦃α β : Type⦄ → Dyad.Program α → Program β → (α → β → Prop) → Prop
  | openLock : NodePiece c (sys (.open .data true false))
      (perform (.open .lockFd)) fun r fd => r.toOption = fd
  | open (k : Slot) : NodePiece c (sys (.open .data false false))
      (perform (.open k)) fun r fd => r.toOption = fd
  | close (k : Slot) (fd : Nat) : NodePiece c (sys (.close fd))
      (perform (.close k fd)) fun r closed => r.isOk = closed
  | exclFlock (k : Slot) (fd : Nat) : NodePiece c (dyadExclFlock fd)
      (perform (.exclFlock k fd)) Eq
  | sharedFlock (k : Slot) (fd : Nat) : NodePiece c (dyadSharedFlock fd)
      (perform (.sharedFlock k fd)) Eq
  | releaseFlock (k : Slot) (fd : Nat) : NodePiece c (dyadReleaseFlock fd)
      (perform (.releaseFlock k fd)) Eq
  -- through a descriptor that is closed already
  | releaseClosed (fd ioFd : Nat) : NodePiece c (dyadReleaseFlock fd)
      (perform (.releaseFlock .ioFd ioFd)) fun _ _ => True
  | unlock (k : Slot) (fd : Nat) : NodePiece c (sys (.unlock fd))
      (perform (.releaseFlock k fd)) fun r rc => r.isOk = !rc.isError
  | getFileSize (k : Slot) (fd : Nat) : NodePiece c (getFileSize fd)
      (perform (.getFileSize k fd)) Eq
  | malloc (k : Slot) (n : Nat) : NodePiece c (sys (.malloc n))
      (perform (.malloc k n)) fun granted buf => granted = buf.isSome
  | free (k : Slot) (buf : Nat) : NodePiece c (.pure ())
      (perform (.free k buf)) fun _ _ => True
  | pread (fd n : Nat) (offset : UInt64) :
      NodePiece c (sys (.pread fd offset.toNat n))
        (perform (.pread fd n offset)) fun r nread => readLen r = nread
  | preadAt (fd n : Nat) (offset : UInt64) : NodePiece c (preadAt fd offset n)
      (perform (.pread fd n offset)) fun r nread => intoLen r = nread
  | readInto (inbuf : Bool) (fd off n : Nat) :
      NodePiece c (readInto inbuf fd off n) (perform (.read fd n))
        fun r nread => intoLen r = nread
  -- the client
  | setReenter (reenter : Bool) : NodePiece c (.pure ())
      (perform (.setReenter reenter)) fun _ _ => True
  | fetchMetadata : NodePiece c (dyadFetchMetadata c) (perform .fetchMetadata)
      fun r r' => r.map Option.isSome = r'.map Option.isSome
  | freeMetadata (mdata : Nat) : NodePiece c (.pure ())
      (perform (.freeMetadata mdata)) fun _ _ => True
  | getData : NodePiece c (Dyad.perform .getData) (perform .getData) Fetched
  | consStore (fuel fd : Nat) (data : Posix.Bytes Byte) :
      NodePiece c (dyadConsStore c fuel fd data) (perform (.consStore fd)) Eq
  | cacheMaybeEvict : NodePiece c (dyadCacheMaybeEvict c)
      (perform .cacheMaybeEvict) fun _ _ => True
  | rangeCacheEnsure (offset length : UInt64) :
      NodePiece c (dyadRangeCacheEnsure c offset length)
        (perform (.rangeCacheEnsure offset length)) Eq
  | getDataRange (margo : Bool) (offset length : UInt64) :
      NodePiece c (Dyad.perform (.getDataRange offset.toNat length.toNat))
        (dyadGetDataRange margo offset length Out.empty) RangeFetched
  -- the service
  | msgIsStreaming : NodePiece c (Dyad.perform .msgIsStreaming)
      (perform .msgIsStreaming) Eq
  | msgGetUserid : NodePiece c (Dyad.perform .msgGetUserid)
      (perform .msgGetUserid) fun r found => r.isOk = found
  | msgIncref (k : Slot) : NodePiece c (.pure ())
      (perform (.msgIncref k)) fun _ _ => True
  | msgDecref (k : Slot) (msg : Nat) : NodePiece c (.pure ())
      (perform (.msgDecref k msg)) fun _ _ => True
  | rpcUnpack : NodePiece c (Dyad.perform .rpcUnpack) (perform .rpcUnpack)
      Unpacks
  | rpcUnpackRange : NodePiece c (Dyad.perform .rpcUnpackRange)
      (perform .rpcUnpackRange) fun r range => r.toOption = range
  | rpcRespond : NodePiece c (Dyad.perform .rpcRespond) (perform .rpcRespond)
      Fails
  | errno : NodePiece c (Dyad.perform .errno) (.pure ()) fun _ _ => True
  | setErrno (e : Posix.Errno) : NodePiece c (Dyad.perform (.setErrno e))
      (.pure ()) fun _ _ => True
  | respondError (e : Posix.Errno) :
      NodePiece c (Dyad.perform (.respondError e)) (perform .respondError)
        fun _ _ => True
  -- the DTL
  | getBuffer (k : Slot) (n : Int) :
      NodePiece c (Dyad.perform (.getBuffer n.toNat)) (perform (.getBuffer k n))
        fun r buf => r.isOk = buf.isSome
  | returnBuffer (k : Slot) (buf : Option Nat) :
      NodePiece c (Dyad.perform .returnBuffer) (perform (.returnBuffer k buf))
        fun _ _ => True
  -- that of a work item, when it is destroyed
  | returnItemBuffer (buf : Option Nat) : NodePiece c (.pure ())
      (perform (.returnBuffer .inbuf buf)) fun _ _ => True
  | establishConnection : NodePiece c (Dyad.perform .establishConnection)
      (perform .establishConnection) Fails
  | send (payload : Posix.Bytes Byte) (buf : Option Nat) :
      NodePiece c (Dyad.perform (.send payload)) (perform (.send buf)) Fails
  | closeConnection : NodePiece c (Dyad.perform .closeConnection)
      (perform .closeConnection) fun _ _ => True
  | rpcDetachRequest (margo : Bool) :
      NodePiece c (Dyad.perform .rpcDetachRequest) (rpcDetachRequest margo)
        fun r state => r.isOk = state.isSome
  | rpcSendDetached (payload : Posix.Bytes Byte) (state : ReqState) :
      NodePiece c (Dyad.perform (.rpcSendDetached payload))
        (rpcSendDetached state) fun r rc =>
          Fails r rc ∧ ∀ rc', r = .error rc' → rc'.isError = true
  | rpcAbortDetached (state : ReqState) :
      NodePiece c (Dyad.perform .rpcAbortDetached) (rpcAbortDetached state)
        fun _ _ => True

/-- A program over a node that goes the way of one with handles. -/
abbrev ShowsHandles {α β : Type} (c : Ctx) (p : Dyad.Program α) (q : Program β)
    (Q : α → β → Prop) : Prop :=
  Mirrors Coded (NodePiece c) p q Q

variable {c : Ctx}

/-! ## What the pieces of the DTL can return -/

/-- Where the stream ends, the code stays. -/
theorem getRangeDone_returns (rc : Rc) (out : Out) :
    Returns (fun _ _ => True) (getRangeDone true rc out) (rc, out) := by
  unfold getRangeDone
  split
  · rw [if_pos rfl]
    exact .step (Except.error true) True.intro (.pure _)
  · exact .pure _

/-- `dyad_get_data_range` can return any error, and a buffer. -/
theorem getDataRange_returns (margo : Bool) (offset length : UInt64)
    {r : Except Rc (Posix.Bytes Byte)}
    (hr : Coded (.getDataRange offset.toNat length.toNat) r) :
    ∃ y, Returns (fun _ _ => True)
      (dyadGetDataRange margo offset length Out.empty) y ∧
        RangeFetched r y := by
  have hrecv : ∀ y : Rc × Out, Returns (fun _ _ => True)
      (getRangeResponse margo Out.empty) y →
      Returns (fun _ _ => True)
        (dyadGetDataRange margo offset length Out.empty) y := fun y h =>
    .step .ok True.intro (.step true True.intro h)
  cases r with
  | error rc =>
    have hrc : rc.isError = true := hr
    refine ⟨(rc, Out.empty), hrecv _ (.step rc True.intro ?_), rfl⟩
    rw [if_pos hrc]
    exact getRangeDone_returns rc Out.empty
  | ok d =>
    refine ⟨(.ok, ⟨some 0, 0⟩), hrecv _ ?_, rfl⟩
    refine .step .ok True.intro (.step .ok True.intro ?_)
    refine .bind (a := (.ok, ⟨some 0, 0⟩)) ?_
      (.step () True.intro (getRangeDone_returns .ok _))
    cases margo with
    | true =>
      exact .step 0 True.intro
        (.step (some 0) True.intro (.step () True.intro (.pure _)))
    | false =>
      refine .step (.ok 0) True.intro ?_
      exact .bind (.step (some 0) True.intro (.pure _))
        (.step () True.intro (.pure _))

theorem rpcDetachRequest_returns (margo granted : Bool) :
    ∃ state, Returns (fun _ _ => True) (rpcDetachRequest margo) state ∧
      granted = state.isSome := by
  cases granted with
  | false => exact ⟨none, by cases margo <;> exact .step none True.intro (.pure _), rfl⟩
  | true =>
    cases margo with
    | true => exact ⟨some (.margo 0), .step (some 0) True.intro (.pure _), rfl⟩
    | false =>
      exact ⟨some (.flux 0 0),
        .step (some 0) True.intro (.step 0 True.intro (.pure _)), rfl⟩

theorem rpcSendDetached_returns (state : ReqState) (sent : Bool) :
    ∃ rc, Returns (fun _ _ => True) (rpcSendDetached state) rc ∧
      sent = !rc.isError := by
  cases state with
  | flux state msg =>
    refine ⟨if sent then .ok else .fluxfail, ?_, by cases sent <;> rfl⟩
    exact .step sent True.intro
      (.step () True.intro (.step () True.intro (.pure _)))
  | margo state =>
    refine ⟨if sent then .ok else .badrpc, ?_, by cases sent <;> rfl⟩
    exact .step _ True.intro (.step () True.intro (.pure _))

theorem rpcAbortDetached_returns (state : ReqState) :
    Returns (fun _ _ => True) (rpcAbortDetached state) () := by
  cases state with
  | flux state msg =>
    exact .step () True.intro (.step () True.intro (.pure _))
  | margo state => exact .step () True.intro (.pure _)

theorem nodePiece_sound : Table.Sound Coded (NodePiece c) := by
  intro α β s t R h x hret
  cases h with
  | malloc k n =>
    cases x with
    | true => exact returns_perform (some 0) rfl
    | false => exact returns_perform none rfl
  | getBuffer k n =>
    cases x with
    | ok u => exact returns_perform (some 0) rfl
    | error rc => exact returns_perform none rfl
  | unlock k fd =>
    cases x with
    | ok u => exact returns_perform .ok rfl
    | error e => exact returns_perform .badfio rfl
  | rpcUnpack =>
    cases x with
    | ok => exact returns_perform .ok rfl
    | error rc => exact returns_perform .badunpack rfl
    | nullAddress => exact returns_perform .ok True.intro
  | rpcRespond | establishConnection | send =>
    cases x with
    | ok u => exact returns_perform .ok rfl
    | error rc => exact returns_perform .badrpc rfl
  | getData =>
    have hr := hret.answer
    cases x with
    | ok d => exact returns_perform (.ok, some 0) ⟨rfl, rfl⟩
    | error rc => exact returns_perform (rc, none) ⟨rfl, hr⟩
  | getDataRange margo offset length =>
    exact getDataRange_returns margo offset length hret.answer
  | rpcDetachRequest margo => exact rpcDetachRequest_returns margo x.isOk
  | rpcSendDetached payload state =>
    have hx := hret.answer
    obtain ⟨rc, hrc, hfails⟩ := rpcSendDetached_returns state x.isOk
    refine ⟨rc, hrc, hfails, ?_⟩
    rintro rc' rfl
    exact hx
  | rpcAbortDetached state =>
    exact ⟨(), rpcAbortDetached_returns state, True.intro⟩
  | fetchMetadata => exact returns_perform x rfl
  | releaseClosed => exact returns_perform x True.intro
  | msgIncref => exact returns_perform 0 True.intro
  | errno | setErrno => exact ⟨(), .pure (), True.intro⟩
  | _ => first
    | exact returns_perform _ rfl
    | exact returns_perform () True.intro

end Dyad.Resources
