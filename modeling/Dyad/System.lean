import Dyad.Service.FetchRange

/-!
# A node running its processes

The machine the properties of the local files are about. A thread is given a
job, one call of a client, one request of the service or one turn of a worker,
runs it to its end and is given another, while every other thread of every
process on the node does the same.

A job may start at any time, so a worker's does not wait for the handler that
would have enqueued it.
-/

namespace Dyad

open Conc Posix

/-- What a thread may be given to do. -/
inductive Job
  | consume (fuel : Nat)
  | consumeWMetadata (mdata : Bool) (fuel : Nat)
  | evict
  | fetch (ucxBuild : Bool)
  | ensure (offset length : UInt64)
  | consumeRange (offset length : UInt64)
  | fetchRange (workers sendDetachedIsThreadSafe : Bool)
  | worker (item : WorkItem)

/-- What each job returns. -/
abbrev Job.Res : Job → Type
  | .consume _ => Rc
  | .consumeWMetadata .. => Rc
  | .evict => Rc
  | .fetch _ => Unit
  | .ensure .. => Rc
  | .consumeRange .. => Rc × Option (Bytes Byte)
  | .fetchRange .. => Option WorkItem
  | .worker _ => WorkItem

/-- The function a job calls. -/
def Job.program (ctx : Ctx) : (j : Job) → Program j.Res
  | .consume fuel => dyadConsume ctx fuel
  | .consumeWMetadata mdata fuel => dyadConsumeWMetadata ctx mdata fuel
  | .evict => dyadCacheMaybeEvict ctx
  | .fetch ucxBuild => dyadFetchRequestCb ucxBuild
  | .ensure offset length => dyadRangeCacheEnsure ctx offset length
  | .consumeRange offset length => dyadConsumeRange ctx offset length
  | .fetchRange workers sendDetachedIsThreadSafe =>
    dyadFetchRangeRequestCb ⟨ctx, workers, sendDetachedIsThreadSafe⟩
  | .worker item => dyadFetchWorkerProcess ctx item

/-- A node whose processes all run with the context `ctx`. -/
def node (ctx : Ctx) : Machine Node Tid Nat Choice Call.Res Job.Res where
  proc := Prod.fst
  exec := Node.exec
  crash := Node.crash
  enter w t _ := w.setBusy t true
  leave w t _ := w.setBusy t false
  job _ j := some (j.program ctx)

/-- What a node and its threads look like between two steps. -/
abbrev NodeCfg := Machine.Cfg Node Tid Call.Res Job.Res

/-- A step of a node. -/
abbrev NodeLabel := Machine.Label Tid Nat Choice Job

/-- Thread `t` has finished `j` with the result `a`. -/
def Returned (s : NodeCfg) (t : Tid) (j : Job) (a : j.Res) : Prop :=
  s.thread t = some ⟨j, .pure a⟩

/-- A node on which nothing has run yet: no local copy, no bitmap, no locks,
and the origin holding what was published; in a build without UCX. -/
def Node.fresh (published : Bytes Byte) (h : published.size < 2 ^ 63)
    (owner : Option Nat) : Node where
  os := {
    dir := fun n => if n = .origin then some 0 else none
    file := fun _ => published
    locks := fun _ => LockTable.free
    mutex := fun _ => none
    born := fun _ => .origin
    next := 1
    linked := fun n i h => by
      split at h
      · next hn =>
        obtain rfl := Option.some.inj h
        exact ⟨Nat.one_pos, hn.symm⟩
      · exact absurd h (by simp) }
  published := published
  owner := owner
  busy := fun _ => false
  dtl := Dtl.plain
  offT := h

/-- The node with nothing running on it. -/
def Node.idle (w : Node) : NodeCfg := ⟨w, fun _ => none⟩

/-- The call goes through. -/
def Choice.isOk : Choice → Bool
  | .os .ok => true
  | _ => false

/-- Thread `t` makes its next `n` calls, and they go through. -/
def goes (t : Tid) (n : Nat) : List NodeLabel :=
  List.replicate n (.act t (.os .ok))

end Dyad
