import Mathlib.Tactic.Simps.Basic
import Dyad.Conc.Fifo
import Dyad.Service.FetchRange

/-!
# The worker pool (`service/flux_module/dyad.c`)

The range handler enqueues work items on the reactor thread, worker threads
take them, process them and put them on the completion queue, and a watcher on
the reactor thread, woken by bytes in a pipe, takes that queue whole and
answers the requests. `dyad_fetch_pool_stop` runs on the reactor thread too.

Each queue has its mutex, and its pointers and the `next` of the items in it
are only touched with the mutex held, so what happens under a mutex is one
step here. An item is known by the order in which it was accepted. `process`
stands for `dyad_fetch_worker_process` and the part of
`dyad_fetch_worker_finish` before the queue, which leave the item in whatever
state their programs in `Service/FetchRange.lean` return.

`responses` and `destroyed` record what the watcher did for each item, and
`pushed` the items that workers have put on the completion queue, in that
order.
-/

namespace Dyad

open Conc Posix

/-- What the pool was started with: whether the array of threads was
allocated, how many threads were created in it, and how many bytes the
completion pipe holds. -/
structure PoolConfig where
  fetchWorkers : Bool
  numFetchWorkers : Nat
  unallocated : fetchWorkers = false → numFetchWorkers = 0
  pipeCapacity : Nat
  capacity_pos : 0 < pipeCapacity

/-- Where a worker is in `dyad_fetch_worker_main`: about to lock the work
mutex, in `pthread_cond_wait`, with an item, between its push and its write,
or through. -/
inductive Worker
  | locking
  | waiting
  | took (i : Nat)
  | processed (i : Nat)
  | writing
  | exited
deriving DecidableEq

/-- The item a worker has. -/
def Worker.item : Worker → Option Nat
  | .took i => some i
  | .processed i => some i
  | _ => none

/-- Where the reactor thread is: between callbacks, in the watcher's read
loop, past it, on its way through the items it took, or in
`dyad_fetch_pool_stop`, before the join of thread `k` or through. -/
inductive Reactor
  | idle
  | draining
  | taking
  | completing (items : Option Nat)
  | joining (k : Nat)
  | stopped
deriving DecidableEq

/-- The items the watcher took and has not come to. -/
def Reactor.batch : Reactor → Option Nat
  | .completing items => items
  | _ => none

/-- The fields of `dyad_mod_ctx_t` the pool uses, and its threads. -/
structure Pool where
  next : Nat → Option Nat
  item : Nat → WorkItem
  work : Fifo Nat
  workersShutdown : Bool
  completion : Fifo Nat
  pushed : List Nat
  completionPipe : Nat
  worker : Nat → Worker
  reactor : Reactor
  accepted : Nat
  responses : Nat → List Errno
  destroyed : Nat → Nat

/-- The errno that closes an item's response stream. -/
def WorkItem.response (item : WorkItem) : Errno :=
  if item.rc.isError = false then Errno.ENODATA else item.savedErrno

/-- The steps of the pool. -/
inductive PoolLabel
  | enqueue (item : WorkItem) (signalled : Option Nat)
  | wakeUp (w : Nat)
  | look (w : Nat)
  | process (w : Nat) (item : WorkItem)
  | push (w : Nat)
  | write (w : Nat) (x : Outcome)
  | callback
  | read (x : Outcome)
  | take
  | complete
  | stop
  | join

namespace Pool

/-- Worker `w` goes on to `p`. -/
@[simps]
def setWorker (s : Pool) (w : Nat) (p : Worker) : Pool :=
  { s with worker := Function.update s.worker w p }

/-- `pthread_cond_signal`: it wakes one of the waiting threads, if there is
one. -/
def signal (cfg : PoolConfig) (s : Pool) : Option Nat → Option Pool
  | some w =>
    if w < cfg.numFetchWorkers ∧ s.worker w = .waiting then
      some (s.setWorker w .locking)
    else none
  | none =>
    if ∀ w, w < cfg.numFetchWorkers → s.worker w ≠ .waiting then some s
    else none

/-- `pthread_cond_broadcast`. -/
def broadcast (s : Pool) : Pool :=
  { s with
    worker := fun w => if s.worker w = .waiting then .locking else s.worker w }

/-- The critical section of the handler: the item goes into the work queue. -/
def enqueue (s : Pool) (item : WorkItem) : Pool :=
  { s with
    next := s.work.pushNext s.next s.accepted
    item := Function.update s.item s.accepted item
    work := s.work.push s.accepted
    accepted := s.accepted + 1 }

/-- The critical section of a worker: it takes the first item, or leaves when
the pool shuts down, or waits. -/
def look (s : Pool) (w : Nat) : Pool :=
  match s.work.head with
  | some i => { s with work := s.work.pop s.next i }.setWorker w (.took i)
  | none =>
    if s.workersShutdown then s.setWorker w .exited
    else s.setWorker w .waiting

/-- Item `i` as the worker leaves it. -/
def process (s : Pool) (w i : Nat) (item : WorkItem) : Pool :=
  { s with
    next := Function.update s.next i none
    item := Function.update s.item i item }.setWorker w (.processed i)

/-- The critical section of `dyad_fetch_worker_finish`. -/
def push (s : Pool) (w i : Nat) : Pool :=
  { s with
    next := s.completion.pushNext s.next i
    completion := s.completion.push i
    pushed := s.pushed ++ [i] }.setWorker w .writing

/-- The write of the wake-up byte, which does not block. -/
def write (cfg : PoolConfig) (s : Pool) (w : Nat) : Outcome → Option Pool
  | .ok =>
    if s.completionPipe < cfg.pipeCapacity then
      some ({ s with completionPipe := s.completionPipe + 1 }.setWorker w
        .locking)
    else none
  | .fail e =>
    if e = Errno.EINTR then some s
    else if e = Errno.EAGAIN ∧ s.completionPipe = cfg.pipeCapacity then
      some (s.setWorker w .locking)
    else none
  | .short _ => none

/-- One `read` of the watcher, of up to 256 bytes, which does not block: an
empty pipe ends the loop, as an interruption does. -/
def read (s : Pool) : Outcome → Option Pool
  | .ok =>
    if s.completionPipe = 0 then some { s with reactor := .taking }
    else some { s with completionPipe := s.completionPipe - 256 }
  | .fail e =>
    if e = Errno.EINTR then some { s with reactor := .taking } else none
  | .short _ => none

/-- The critical section of the watcher. -/
def take (s : Pool) : Pool :=
  { s with
    reactor := .completing s.completion.head
    completion := Fifo.empty }

/-- One turn of the watcher's loop over the items it took. -/
def complete (s : Pool) (i : Nat) : Pool :=
  { s with
    reactor := .completing (s.next i)
    next := Function.update s.next i none
    responses := Function.update s.responses i
      (s.responses i ++ [(s.item i).response])
    destroyed := Function.update s.destroyed i (s.destroyed i + 1) }

/-- The start of `dyad_fetch_pool_stop`. -/
def stop (cfg : PoolConfig) (s : Pool) : Pool :=
  if cfg.fetchWorkers then
    { s with workersShutdown := true, reactor := .joining 0 }.broadcast
  else { s with reactor := .stopped }

/-- One step. -/
def step (cfg : PoolConfig) (s : Pool) : PoolLabel → Option Pool
  | .enqueue item signalled =>
    if s.reactor = .idle ∧ 0 < cfg.numFetchWorkers then
      (s.enqueue item).signal cfg signalled
    else none
  | .wakeUp w =>
    if w < cfg.numFetchWorkers ∧ s.worker w = .waiting then
      some (s.setWorker w .locking)
    else none
  | .look w =>
    if w < cfg.numFetchWorkers ∧ s.worker w = .locking then some (s.look w)
    else none
  | .process w item =>
    match s.worker w with
    | .took i => some (s.process w i item)
    | _ => none
  | .push w =>
    match s.worker w with
    | .processed i => some (s.push w i)
    | _ => none
  | .write w x => if s.worker w = .writing then s.write cfg w x else none
  | .callback =>
    if s.reactor = .idle ∧ 0 < s.completionPipe then
      some { s with reactor := .draining }
    else none
  | .read x => if s.reactor = .draining then s.read x else none
  | .take => if s.reactor = .taking then some s.take else none
  | .complete =>
    match s.reactor with
    | .completing (some i) => some (s.complete i)
    | .completing none => some { s with reactor := .idle }
    | _ => none
  | .stop => if s.reactor = .idle then some (s.stop cfg) else none
  | .join =>
    match s.reactor with
    | .joining k =>
      if k < cfg.numFetchWorkers then
        if s.worker k = .exited then some { s with reactor := .joining (k + 1) }
        else none
      else some { s with reactor := .stopped }
    | _ => none

end Pool

/-- The pool as `dyad_fetch_pool_start` leaves it. -/
structure PoolStarted (s : Pool) : Prop where
  work : s.work = Fifo.empty
  running : s.workersShutdown = false
  completion : s.completion = Fifo.empty
  pushed : s.pushed = []
  pipe : s.completionPipe = 0
  worker : ∀ w, s.worker w = .locking
  reactor : s.reactor = .idle
  accepted : s.accepted = 0
  responses : ∀ i, s.responses i = []
  destroyed : ∀ i, s.destroyed i = 0

/-- The runs of a pool. -/
def pool (cfg : PoolConfig) : Lts Pool PoolLabel where
  init := PoolStarted
  next := Pool.step cfg

end Dyad
