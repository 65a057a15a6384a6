import Dyad.Common
import Dyad.Conc.RelyGuarantee
import Dyad.Posix.Os

/-!
# A node and the calls DYAD makes on it

One node, its processes and their threads, and one managed file: the names
here are the file's local copy, the companion bitmap of the range cache, the
origin the range cache fetches from, the evictor's lock file and whatever
else lies in the managed directory.

`Call` lists what the modelled functions call: the operating system
(`Posix.Sys`), the Flux KVS, the transfer from the producer, the directory
scan of the evictor, and the Flux and DTL calls of the service. The functions
themselves are programs over these calls (`Conc.Prog`), in the modules below
this one. `errno` is a variable of the thread that the program reads with one
call and sets with another. Two calls have no counterpart in the source. `ub` stands where the
source would have undefined behaviour, an index outside an allocated buffer or
a null pointer that is dereferenced, so that reaching one is something a proof
can exclude. `spin` stands where a loop of the source is still running when
the unrolling of the model ends. No thread ever leaves either.

`Node.exec` gives the calls their effect. The local files are the operating
system's; the producer's file is `published`, which nothing changes; `owner`
is the rank the KVS names for it, once it has been committed. A transfer gives
back what `dyad_get_data` does in the build and the mode of `dtl`, which may
have the file's size in front of its content.
-/

namespace Dyad

open Conc Posix

/-- The names in the managed directory. -/
inductive Name
  | data
  | bitmap
  | origin
  | cacheLock
  | other (n : Nat)
deriving DecidableEq

/-- An entry of a directory stream. -/
inductive Dirent
  | dot
  | dotdot
  | name (n : Name)
deriving DecidableEq

/-- What `stat` tells the evictor beyond the size: whether the entry is a
regular file, its access time, and the key the cache policy ranks it by, when
there is a policy and it succeeds. -/
structure Stamp where
  regular : Bool
  atime : Int
  recencyKey : Option Int
deriving DecidableEq

/-- A thread: its process, and its number there. -/
abbrev Tid := Nat × Nat

/-- The calls of the modelled functions. -/
inductive Call
  | sys (c : Sys Name Byte)
  | ub
  | spin
  -- the client
  | mkdirAsNeeded
  | kvsRead
  | kvsCommit
  | getData
  | getDataRange (offset length : Nat)
  | returnBuffer
  -- the evictor
  | opendir
  | readdir
  | entryStamp (n : Name)
  | time
  -- the service
  | msgIsStreaming
  | msgGetUserid
  | rpcUnpack
  | rpcUnpackRange
  | rpcRespond
  | rpcDetachRequest
  | rpcAbortDetached
  | rpcSendDetached (payload : Bytes Byte)
  | getBuffer (size : Nat)
  | establishConnection
  | send (payload : Bytes Byte)
  | closeConnection
  | respondError (e : Errno)
  | errno
  | setErrno (e : Errno)

/-- What `rpc_unpack` of a whole-file request comes to. The UCX DTL reads the
address of the consumer's buffer as a number before it looks at whether the
message had one. -/
inductive Unpacked
  | ok
  | error (rc : Rc)
  | nullAddress
deriving DecidableEq

/-- What each call answers. A `getBuffer` that fails is one that leaves the
pointer null; the UCX DTL may do that and return `DYAD_RC_OK`, and the
whole-file handler, the only one that runs over it, does not look. -/
abbrev Call.Res : Call → Type
  | .sys c => c.Res
  | .ub => Empty
  | .spin => Empty
  | .mkdirAsNeeded => Except Errno Unit
  | .kvsRead => Except Rc Nat
  | .kvsCommit => Except Rc Unit
  | .getData => Except Rc (Bytes Byte)
  | .getDataRange .. => Except Rc (Bytes Byte)
  | .returnBuffer => Unit
  | .opendir => Except Errno Nat
  | .readdir => Dirent
  | .entryStamp _ => Stamp
  | .time => Int
  | .msgIsStreaming => Bool
  | .msgGetUserid => Except Errno Unit
  | .rpcUnpack => Unpacked
  | .rpcUnpackRange => Except Rc (UInt64 × UInt64)
  | .rpcRespond => Except Rc Unit
  | .rpcDetachRequest => Except Rc Unit
  | .rpcAbortDetached => Unit
  | .rpcSendDetached _ => Except Rc Unit
  | .getBuffer _ => Except Rc Unit
  | .establishConnection => Except Rc Unit
  | .send _ => Except Rc Unit
  | .closeConnection => Unit
  | .respondError _ => Unit
  | .errno => Errno
  | .setErrno _ => Unit

/-- What the environment decides about a call. -/
inductive Choice
  | os (o : Outcome)
  | rc (r : Rc)
  | flag (b : Bool)
  | count (n : Nat)
  | dirent (d : Dirent)
  | stamp (s : Stamp)
  | time (t : Int)
  | range (offset length : UInt64)

/-! ## Transfers -/

/-- The build, and the mode selected at run time. `dyad_dtl_init` has no UCX
mode in a build without UCX. -/
structure Dtl where
  ucxBuild : Bool
  mode : DtlMode
  selectable : mode = .ucx → ucxBuild = true

/-- The size in front of the content: a `ssize_t`, least byte first. -/
def sizePrefix (fileSize : Nat) : Bytes Byte :=
  Bytes.ofFn 8 fun i => BitVec.ofNat 8 (fileSize / 256 ^ i)

/-- What is sent for a file. -/
def fetchPayload (ucxBuild : Bool) (content : Bytes Byte) : Bytes Byte :=
  if ucxBuild then (sizePrefix content.size).append content else content

/-- What `dyad_get_data` gives back for a file: what was sent, of which it
steps over the size in UCX mode only. -/
def Dtl.received (d : Dtl) (content : Bytes Byte) : Bytes Byte :=
  if d.mode = .ucx then content else fetchPayload d.ucxBuild content

/-- No size is left in front of the content. -/
def Dtl.Strips (d : Dtl) : Prop := d.ucxBuild = false ∨ d.mode = .ucx

instance (d : Dtl) : Decidable d.Strips :=
  inferInstanceAs (Decidable (_ ∨ _))

theorem Dtl.Strips.received {d : Dtl} (h : d.Strips) (content : Bytes Byte) :
    d.received content = content := by
  rw [Dtl.received]
  split
  · rfl
  · next hmode => rw [fetchPayload, h.resolve_right hmode, if_neg (by simp)]

/-- Whatever is received of a file that is not empty is not empty. -/
theorem Dtl.size_received (d : Dtl) (content : Bytes Byte) :
    content.size ≤ (d.received content).size := by
  rw [Dtl.received]
  split
  · exact Nat.le_refl _
  · rw [fetchPayload]
    split
    · rw [Bytes.size_append]
      exact Nat.le_add_left _ _
    · exact Nat.le_refl _

/-- The Flux RPC, in a build without UCX. -/
def Dtl.plain : Dtl := ⟨false, .fluxRpc, fun h => absurd h (by simp)⟩

/-- A node. File sizes are of type `off_t`, the producer's too. -/
structure Node where
  os : Os Name Byte Nat Tid
  published : Bytes Byte
  owner : Option Nat
  busy : Tid → Bool
  dtl : Dtl
  offT : published.size < 2 ^ 63

namespace Node

/-- What a call that only answers may answer. -/
def answer (w : Node) : (c : Call) → Choice → Option c.Res
  | .mkdirAsNeeded, .os .ok => some (.ok ())
  | .mkdirAsNeeded, .os (.fail e) => some (.error e)
  -- waits until the file's key is there
  | .kvsRead, .os .ok => w.owner.map .ok
  | .kvsRead, .rc r => if r.isError then some (.error r) else none
  | .getData, .os .ok => some (.ok (w.dtl.received w.published))
  | .getData, .rc r => if r.isError then some (.error r) else none
  | .getDataRange offset length, .os .ok =>
    some (.ok (w.published.slice offset length))
  | .getDataRange .., .rc r => if r.isError then some (.error r) else none
  | .returnBuffer, .os .ok => some ()
  | .opendir, .count n => some (.ok n)
  | .opendir, .os (.fail e) => some (.error e)
  | .readdir, .dirent d => some d
  | .entryStamp _, .stamp s => some s
  | .time, .time s => some s
  | .msgIsStreaming, .flag b => some b
  | .msgGetUserid, .os .ok => some (.ok ())
  | .msgGetUserid, .os (.fail e) => some (.error e)
  | .rpcUnpack, .os .ok => some .ok
  | .rpcUnpack, .rc r => if r.isError then some (.error r) else none
  | .rpcUnpack, .flag false =>
    if w.dtl.mode = .ucx then some .nullAddress else none
  | .rpcUnpackRange, .range offset length => some (.ok (offset, length))
  | .rpcUnpackRange, .rc r => if r.isError then some (.error r) else none
  | .rpcRespond, .os .ok => some (.ok ())
  | .rpcRespond, .rc r => if r.isError then some (.error r) else none
  | .rpcDetachRequest, .os .ok => some (.ok ())
  | .rpcDetachRequest, .rc r => if r.isError then some (.error r) else none
  | .rpcAbortDetached, .os .ok => some ()
  | .rpcSendDetached _, .os .ok => some (.ok ())
  | .rpcSendDetached _, .rc r => if r.isError then some (.error r) else none
  | .getBuffer _, .os .ok => some (.ok ())
  | .getBuffer _, .rc r => if r.isError then some (.error r) else none
  | .establishConnection, .os .ok => some (.ok ())
  | .establishConnection, .rc r =>
    if r.isError then some (.error r) else none
  | .send _, .os .ok => some (.ok ())
  | .send _, .rc r => if r.isError then some (.error r) else none
  | .closeConnection, .os .ok => some ()
  | .respondError _, .os .ok => some ()
  | .errno, .count e => some e
  | .setErrno _, .os .ok => some ()
  | _, _ => none

/-- The effect and the answer of a call thread `t` makes. -/
def exec (w : Node) (t : Tid) (c : Call) (x : Choice) :
    Option (Node × c.Res) :=
  match c with
  | .sys c =>
    match x with
    | .os o => (w.os.exec t.1 t c o).map fun a => ({ w with os := a.1 }, a.2)
    | _ => none
  | .kvsCommit =>
    match x with
    | .count rank => some ({ w with owner := some rank }, .ok ())
    | .rc r => if r.isError then some (w, .error r) else none
    | _ => none
  | c => (w.answer c x).map fun r => (w, r)

/-- The death of a process. -/
def crash (w : Node) (p : Nat) : Node :=
  { w with
    os := w.os.kill p
    busy := fun t => if t.1 = p then false else w.busy t }

/-- Whether a thread is inside a range request. -/
def setBusy (w : Node) (t : Tid) (b : Bool) : Node :=
  { w with busy := Function.update w.busy t b }

end Node

/-- The calls that act on the world: the operating system's, and the commit
of a key. The others only answer. -/
def Call.quiet : Call → Bool
  | .sys _ => false
  | .kvsCommit => false
  | _ => true

namespace Node

theorem exec_sys {w w' : Node} {t : Tid} {c : Sys Name Byte} {x : Choice}
    {r : c.Res} (h : w.exec t (.sys c) x = some (w', r)) :
    ∃ o os', x = .os o ∧ w.os.exec t.1 t c o = some (os', r) ∧
      w' = { w with os := os' } := by
  cases x with
  | os o =>
    simp only [exec, Option.map_eq_some_iff] at h
    obtain ⟨⟨os', r'⟩, hex, heq⟩ := h
    simp only [Prod.mk.injEq] at heq
    obtain ⟨rfl, rfl⟩ := heq
    exact ⟨o, os', rfl, hex, rfl⟩
  | _ => exact absurd h (by simp [exec])

theorem exec_quiet {w w' : Node} {t : Tid} {c : Call} {x : Choice}
    {r : c.Res} (hq : c.quiet = true) (h : w.exec t c x = some (w', r)) :
    w' = w ∧ w.answer c x = some r := by
  cases c with
  | sys c => exact absurd hq (by simp [Call.quiet])
  | kvsCommit => exact absurd hq (by simp [Call.quiet])
  | ub => exact r.elim
  | spin => exact r.elim
  | _ =>
    obtain ⟨a, ha, heq⟩ := Option.map_eq_some_iff.1 h
    obtain ⟨rfl, rfl⟩ := Prod.mk.inj heq
    exact ⟨rfl, ha⟩

variable {w : Node} {x : Choice}

theorem answer_kvsRead {r : Except Rc Nat}
    (h : w.answer .kvsRead x = some r) :
    (∃ rank, w.owner = some rank ∧ r = .ok rank) ∨
      ∃ rc, rc.isError = true ∧ r = .error rc := by
  cases x with
  | os o =>
    cases o with
    | ok =>
      obtain ⟨rank, hrank, heq⟩ := Option.map_eq_some_iff.1 h
      exact Or.inl ⟨rank, hrank, heq.symm⟩
    | _ => exact absurd h (by simp [answer])
  | rc rc =>
    simp only [answer, Option.ite_none_right_eq_some, Option.some.injEq] at h
    exact Or.inr ⟨rc, h.1, h.2.symm⟩
  | _ => exact absurd h (by simp [answer])

theorem answer_getData {r : Except Rc (Bytes Byte)}
    (h : w.answer .getData x = some r) :
    r = .ok (w.dtl.received w.published) ∨
      ∃ rc, rc.isError = true ∧ r = .error rc := by
  cases x with
  | os o =>
    cases o with
    | ok => exact Or.inl (Option.some.inj h).symm
    | _ => exact absurd h (by simp [answer])
  | rc rc =>
    simp only [answer, Option.ite_none_right_eq_some, Option.some.injEq] at h
    exact Or.inr ⟨rc, h.1, h.2.symm⟩
  | _ => exact absurd h (by simp [answer])

theorem answer_getDataRange {offset length : Nat}
    {r : Except Rc (Bytes Byte)}
    (h : w.answer (.getDataRange offset length) x = some r) :
    r = .ok (w.published.slice offset length) ∨
      ∃ rc, rc.isError = true ∧ r = .error rc := by
  cases x with
  | os o =>
    cases o with
    | ok => exact Or.inl (Option.some.inj h).symm
    | _ => exact absurd h (by simp [answer])
  | rc rc =>
    simp only [answer, Option.ite_none_right_eq_some, Option.some.injEq] at h
    exact Or.inr ⟨rc, h.1, h.2.symm⟩
  | _ => exact absurd h (by simp [answer])

theorem answer_rpcUnpackRange {r : Except Rc (UInt64 × UInt64)}
    (h : w.answer .rpcUnpackRange x = some r) :
    (∃ offset length, x = .range offset length ∧ r = .ok (offset, length)) ∨
      ∃ rc, rc.isError = true ∧ r = .error rc := by
  cases x with
  | range offset length =>
    exact Or.inl ⟨offset, length, rfl, (Option.some.inj h).symm⟩
  | rc rc =>
    simp only [answer, Option.ite_none_right_eq_some, Option.some.injEq] at h
    exact Or.inr ⟨rc, h.1, h.2.symm⟩
  | _ => exact absurd h (by simp [answer])

end Node

/-! ## Programs -/

/-- A program over the calls of a node. -/
abbrev Program (α : Type) := Prog Call.Res α

/-- A call. -/
abbrev perform (c : Call) : Program c.Res := Prog.perform c

/-- A call to the operating system. -/
abbrev sys (c : Sys Name Byte) : Program c.Res := Prog.perform (Call.sys c)

/-- Undefined behaviour. -/
abbrev ub {α : Type} : Program α := .call Call.ub Empty.elim

/-- A loop still running where the model stops unrolling it. -/
abbrev spin {α : Type} : Program α := .call Call.spin Empty.elim

end Dyad
