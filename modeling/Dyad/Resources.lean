import Dyad.Conc.Prog
import Dyad.Conc.Slots
import Dyad.PathOps

/-!
# What a call takes and has to give back (`client/`, `service/`, `dtl/`)

The calls of the client and of the service's handlers that obtain a
descriptor, a lock, a buffer, metadata or a reference, that use one, and that
give one back, and the calls that decide where the functions go in between. A
handle is named by the variable of the source that holds it, its slot, and by
what the call that obtained it answered.

`ledger` is the record of the handles in a history of such calls. The lock of a
file belongs to the process: closing any descriptor of the file drops it, and
whether the last attempt to take or drop it left it taken is `lockHeld`.
-/

namespace Dyad.Resources

open Conc

/-- The variables that hold what has to be given back. -/
inductive Slot
  | lockFd
  | ioFd
  | fd
  | mdata
  | fileData
  | data
  | inbuf
  | item
  | msg
  | reqState
  -- the reference in the detached state of the Flux DTL
  | stateMsg
deriving DecidableEq

/-- What the functions call. -/
inductive Call
  -- a null pointer is followed
  | ub
  | setReenter (reenter : Bool)
  | open (k : Slot)
  -- whether it succeeds; the descriptor is gone in either case
  | close (k : Slot) (fd : Nat)
  | exclFlock (k : Slot) (fd : Nat)
  | sharedFlock (k : Slot) (fd : Nat)
  | releaseFlock (k : Slot) (fd : Nat)
  | getFileSize (k : Slot) (fd : Nat)
  | read (fd : Nat) (size : Int)
  | pread (fd : Nat) (size : Int) (offset : UInt64)
  -- the client
  | fetchMetadata
  | freeMetadata (mdata : Nat)
  | getData
  | consStore (ioFd : Nat)
  | cacheMaybeEvict
  | rangeCacheEnsure (offset length : UInt64)
  | rpcPackRange (offset length : UInt64)
  | fluxRpcPack
  | rpcRecvResponse
  | rpcGetRaw
  | recvReady
  | rpcGet
  -- memory
  | malloc (k : Slot) (size : Nat)
  | posixMemalign (k : Slot) (size : Nat)
  | memcpy (k : Slot) (buf size : Nat)
  | free (k : Slot) (buf : Nat)
  -- the service
  | msgIsStreaming
  | msgGetUserid
  | rpcUnpack
  | rpcUnpackRange
  | rpcRespond
  | msgIncref (k : Slot)
  | msgDecref (k : Slot) (msg : Nat)
  | respondRaw (reqState : Nat)
  | margoSendTo (reqState : Nat)
  | respondError
  -- the DTL
  | getBuffer (k : Slot) (size : Int)
  | returnBuffer (k : Slot) (buf : Option Nat)
  | establishConnection
  | send (buf : Option Nat)
  | closeConnection
deriving DecidableEq

/-- What each call answers. -/
abbrev Call.Res : Call → Type
  | .ub => Empty
  | .setReenter _ => Unit
  | .open _ => Option Nat
  | .close .. => Bool
  | .exclFlock .. => Rc
  | .sharedFlock .. => Rc
  | .releaseFlock .. => Rc
  | .getFileSize .. => Nat
  | .read .. => Int
  | .pread .. => Int
  | .fetchMetadata => Except Rc (Option Nat)
  | .freeMetadata _ => Unit
  -- the buffer may be there where the code is an error
  | .getData => Rc × Option Nat
  | .consStore _ => Rc
  | .cacheMaybeEvict => Unit
  | .rangeCacheEnsure .. => Rc
  | .rpcPackRange .. => Rc
  | .fluxRpcPack => Bool
  | .rpcRecvResponse => Rc
  -- the length of the payload, or whether the error was ENODATA
  | .rpcGetRaw => Except Bool Nat
  | .recvReady => Nat
  | .rpcGet => Except Bool Unit
  | .malloc .. => Option Nat
  | .posixMemalign .. => Option Nat
  | .memcpy .. => Unit
  | .free .. => Unit
  | .msgIsStreaming => Bool
  | .msgGetUserid => Bool
  | .rpcUnpack => Rc
  | .rpcUnpackRange => Option (UInt64 × UInt64)
  | .rpcRespond => Rc
  | .msgIncref _ => Nat
  | .msgDecref .. => Unit
  | .respondRaw _ => Bool
  | .margoSendTo _ => Rc
  | .respondError => Unit
  | .getBuffer .. => Option Nat
  | .returnBuffer .. => Unit
  | .establishConnection => Rc
  | .send _ => Rc
  | .closeConnection => Unit

/-- A program over these calls. -/
abbrev Program (α : Type) := Prog Call.Res α

/-- One call. -/
abbrev perform (c : Call) : Program c.Res := Prog.perform c

/-- The calls that were made, each with its answer, newest first. -/
abbrev History := List (Prog.Event Call.Res)

/-! ## The record -/

/-- A handle, and the variable that holds it. -/
abbrev Handle := InSlot Slot Nat

/-- What a call with its answer does with a handle. -/
def entry : Prog.Event Call.Res → Option (HandleEvent Handle)
  | ⟨.open k, some fd⟩ => some (.obtained ⟨k, fd⟩)
  | ⟨.close k fd, _⟩ => some (.freed ⟨k, fd⟩)
  | ⟨.exclFlock k fd, _⟩ => some (.used ⟨k, fd⟩)
  | ⟨.sharedFlock k fd, _⟩ => some (.used ⟨k, fd⟩)
  | ⟨.releaseFlock k fd, _⟩ => some (.used ⟨k, fd⟩)
  | ⟨.getFileSize k fd, _⟩ => some (.used ⟨k, fd⟩)
  | ⟨.read fd _, _⟩ => some (.used ⟨.fd, fd⟩)
  | ⟨.pread fd _ _, _⟩ => some (.used ⟨.fd, fd⟩)
  | ⟨.fetchMetadata, .ok (some mdata)⟩ => some (.obtained ⟨.mdata, mdata⟩)
  | ⟨.freeMetadata mdata, _⟩ => some (.freed ⟨.mdata, mdata⟩)
  | ⟨.getData, (_, some buf)⟩ => some (.obtained ⟨.fileData, buf⟩)
  | ⟨.consStore ioFd, _⟩ => some (.used ⟨.ioFd, ioFd⟩)
  | ⟨.malloc k _, some buf⟩ => some (.obtained ⟨k, buf⟩)
  | ⟨.posixMemalign k _, some buf⟩ => some (.obtained ⟨k, buf⟩)
  | ⟨.memcpy k buf _, _⟩ => some (.used ⟨k, buf⟩)
  | ⟨.free k buf, _⟩ => some (.freed ⟨k, buf⟩)
  | ⟨.msgIncref k, msg⟩ => some (.obtained ⟨k, msg⟩)
  | ⟨.msgDecref k msg, _⟩ => some (.freed ⟨k, msg⟩)
  | ⟨.respondRaw reqState, _⟩ => some (.used ⟨.reqState, reqState⟩)
  | ⟨.margoSendTo reqState, _⟩ => some (.used ⟨.reqState, reqState⟩)
  | ⟨.getBuffer k _, some buf⟩ => some (.obtained ⟨k, buf⟩)
  | ⟨.returnBuffer k (some buf), _⟩ => some (.freed ⟨k, buf⟩)
  | ⟨.send (some buf), _⟩ => some (.used ⟨.inbuf, buf⟩)
  | _ => none

/-- The handles in a history. -/
def ledger (h : History) : List (HandleEvent Handle) := h.filterMap entry

/-- What a call with its answer makes of the lock, if anything. -/
def locks : Prog.Event Call.Res → Option Bool
  | ⟨.exclFlock .., rc⟩ => if rc.isError then none else some true
  | ⟨.sharedFlock .., rc⟩ => if rc.isError then none else some true
  | ⟨.releaseFlock .., rc⟩ => if rc.isError then none else some false
  | ⟨.close .., _⟩ => some false
  | _ => none

/-- The process holds the lock. -/
def lockHeld (h : History) : Bool := (h.findSome? locks).getD false

/-- The reenter flag, if it was set. -/
def reenterSet : Prog.Event Call.Res → Option Bool
  | ⟨.setReenter reenter, _⟩ => some reenter
  | _ => none

/-- What a call may answer: what it obtains is new, and an error has the code
of one. -/
def May (h : History) (c : Call) (r : c.Res) : Prop :=
  (∀ x, entry ⟨c, r⟩ = some (.obtained x) → .obtained x ∉ ledger h) ∧
    match c, r with
    | .fetchMetadata, .error rc => rc.isError = true
    | _, _ => True

/-- Everything was given back, and the lock dropped. -/
structure Balanced (h : History) : Prop where
  settled : HandleEvent.Settled (ledger h)
  unlocked : lockHeld h = false

/-! ## A run of such calls -/

/-- The answers of an environment that refuses some calls and does what the
others ask for. What it hands out is numbered. -/
def granting (refused : Call → Bool) (size : Nat) (h : History) :
    (c : Call) → Option c.Res
  | .ub => none
  | .setReenter _ => some ()
  | .open k => some (if refused (.open k) then none else some h.length)
  | .close k fd => some (!refused (.close k fd))
  | .exclFlock k fd => some (if refused (.exclFlock k fd) then .badfio else .ok)
  | .sharedFlock k fd =>
    some (if refused (.sharedFlock k fd) then .badfio else .ok)
  | .releaseFlock k fd =>
    some (if refused (.releaseFlock k fd) then .badfio else .ok)
  | .getFileSize .. => some size
  | .read fd n => some (if refused (.read fd n) then -1 else n)
  | .pread fd n offset =>
    some (if refused (.pread fd n offset) then -1 else n)
  | .fetchMetadata =>
    some (if refused .fetchMetadata then .error .notfound
      else .ok (some h.length))
  | .freeMetadata _ => some ()
  | .getData =>
    some (if refused .getData then (.badrpc, none) else (.ok, some h.length))
  | .consStore ioFd => some (if refused (.consStore ioFd) then .badfio else .ok)
  | .cacheMaybeEvict => some ()
  | .rangeCacheEnsure offset length =>
    some (if refused (.rangeCacheEnsure offset length) then .badfio else .ok)
  | .rpcPackRange offset length =>
    some (if refused (.rpcPackRange offset length) then .badpack else .ok)
  | .fluxRpcPack => some (!refused .fluxRpcPack)
  | .rpcRecvResponse => some (if refused .rpcRecvResponse then .badrpc else .ok)
  | .rpcGetRaw =>
    some (if refused .rpcGetRaw then .error true else .ok size)
  | .recvReady => some size
  | .rpcGet => some (.error (!refused .rpcGet))
  | .malloc k n => some (if refused (.malloc k n) then none else some h.length)
  | .posixMemalign k n =>
    some (if refused (.posixMemalign k n) then none else some h.length)
  | .memcpy .. => some ()
  | .free .. => some ()
  | .msgIsStreaming => some (!refused .msgIsStreaming)
  | .msgGetUserid => some (!refused .msgGetUserid)
  | .rpcUnpack => some (if refused .rpcUnpack then .badunpack else .ok)
  | .rpcUnpackRange =>
    some (if refused .rpcUnpackRange then none else some (0, .ofNat size))
  | .rpcRespond => some (if refused .rpcRespond then .badrpc else .ok)
  | .msgIncref _ => some h.length
  | .msgDecref .. => some ()
  | .respondRaw reqState => some (!refused (.respondRaw reqState))
  | .margoSendTo reqState =>
    some (if refused (.margoSendTo reqState) then .badrpc else .ok)
  | .respondError => some ()
  | .getBuffer k n =>
    some (if refused (.getBuffer k n) then none else some h.length)
  | .returnBuffer .. => some ()
  | .establishConnection =>
    some (if refused .establishConnection then .badrpc else .ok)
  | .send buf => some (if refused (.send buf) then .badrpc else .ok)
  | .closeConnection => some ()

/-- The numbers are below the next one. -/
def Numbered (h : History) : Prop :=
  ∀ x, .obtained x ∈ ledger h → x.handle < h.length

theorem ledger_cons (e : Prog.Event Call.Res) (h : History) :
    ledger (e :: h) = (entry e).toList ++ ledger h := by
  unfold ledger
  cases he : entry e with
  | none => rw [List.filterMap_cons_none he]; rfl
  | some x => rw [List.filterMap_cons_some he]; rfl

section

variable {refused : Call → Bool} {size : Nat} {h : History} {c : Call}
  {r : c.Res}

/-- What is handed out has the next number. -/
theorem granting_next (hr : granting refused size h c = some r) {x : Handle}
    (hx : entry ⟨c, r⟩ = some (.obtained x)) : x.handle = h.length := by
  cases c <;> simp only [granting, Option.some.injEq, reduceCtorEq] at hr <;>
    try subst hr
  case «open» | malloc | posixMemalign | getBuffer | fetchMetadata | getData =>
    split at hx
    · cases hx
    · cases hx
      rfl
  case msgIncref =>
    cases hx
    rfl
  case returnBuffer k buf => cases buf <;> cases hx
  case send buf => cases buf <;> cases hx
  all_goals cases hx

/-- Such answers may be given. -/
theorem granting_may (hn : Numbered h)
    (hr : granting refused size h c = some r) :
    May h c r ∧ Numbered (⟨c, r⟩ :: h) := by
  refine ⟨⟨fun x hx hmem => ?_, ?_⟩, fun x hx => ?_⟩
  · have := hn x hmem
    rw [granting_next hr hx] at this
    omega
  · cases c <;> try exact True.intro
    obtain rfl := Option.some.inj hr
    split
    · next heq =>
      split at heq
      · cases heq
        rfl
      · cases heq
    · exact True.intro
  · rw [ledger_cons] at hx
    rw [List.length_cons]
    rcases List.mem_append.1 hx with hx | hx
    · have := granting_next hr (Option.mem_toList.1 hx)
      omega
    · have := hn x hx
      omega

/-- A program follows what it comes to. -/
theorem path_of_granting {α : Type} (refused : Call → Bool) (size : Nat)
    (p : Program α) {a : α} (hp : p.eval (granting refused size) [] = some (h, a)) :
    Prog.Path May p h (.pure a) :=
  Prog.Path.of_eval (P := Numbered) (fun _ _ _ hn hr => granting_may hn hr)
    (fun x hx => absurd hx (by simp [ledger])) .refl hp

end

end Dyad.Resources
