import Dyad.Common
import Dyad.Conc.Lts
import Dyad.Client.PathKey

/-!
# The wrappers (`wrapper/wrapper.c`)

The wrappers of `open`, `fopen`, `close` and `fclose`, and their 64-bit twins.
Each is the list of what it does in order, given what its environment answers.
An open runs `dyad_consume` before the real call and takes the exclusive lock
after it, a close releases the lock, closes, and runs `dyad_produce`; which of
these it does is decided, on the way in, from the permission argument or the
mode string, and on the way out from the access mode of the descriptor.

A stream is known by its descriptor, and a null stream by -1. `get_path` asks the
kernel for the name of a descriptor, which is an absolute path without links,
and need not be the path it was opened under.
-/

namespace Dyad

open Conc

/-! ## Flags and modes -/

def O_RDONLY : BitVec 32 := 0
def O_WRONLY : BitVec 32 := 1
def O_RDWR : BitVec 32 := 2
def O_ACCMODE : BitVec 32 := 3
def O_CREAT : BitVec 32 := 0x40
def O_APPEND : BitVec 32 := 0x400
def O_PATH : BitVec 32 := 0x200000

/-- What a descriptor gives access to. -/
inductive AccMode
  | none
  | rdonly
  | wronly
  | rdwr
deriving DecidableEq

/-- It can be written through. -/
def AccMode.writes : AccMode → Bool
  | .wronly => true
  | .rdwr => true
  | _ => false

/-- The access `open` gives for its flags. -/
def openAccess (oflag : BitVec 32) : AccMode :=
  if oflag &&& O_PATH ≠ 0 then .none
  else if oflag &&& O_ACCMODE = O_RDONLY then .rdonly
  else if oflag &&& O_ACCMODE = O_WRONLY then .wronly
  else if oflag &&& O_ACCMODE = O_RDWR then .rdwr
  else .none

/-- The access `fopen` gives for a mode string, if it accepts it: a letter and
any modifiers, of which the first six are looked at and `+` asks for both
ways. -/
def fopenAccess : CString → Option AccMode
  | 'r' :: mods => some (if '+' ∈ mods.take 6 then .rdwr else .rdonly)
  | 'w' :: mods => some (if '+' ∈ mods.take 6 then .rdwr else .wronly)
  | 'a' :: mods => some (if '+' ∈ mods.take 6 then .rdwr else .wronly)
  | _ => none

/-! ## The context -/

/-- The fields of the context the wrappers and the calls behind them read, and
what the tests of a path answer. -/
structure WrapperCtx where
  h : Bool
  reenter : Bool
  relativeToManagedPath : Bool
  fsyncWrite : Bool
  prodManagedPath : Bool
  consManagedPath : Bool
  isPathDir : CString → Bool
  prodPrefix : CString → Bool
  consPrefix : CString → Bool

namespace WrapperCtx

variable (ctx : WrapperCtx)

/-- `strncmp (path, DYAD_PATH_DELIM, ctx->delim_len) == 0`. -/
def startsWithDelim (path : CString) : Bool := path.head? = some '/'

/-- The test for a path of the producer's. -/
def prodTest (path : CString) : Bool :=
  (ctx.relativeToManagedPath && !startsWithDelim path) || ctx.prodPrefix path

/-- The test for a path of the consumer's. -/
def consTest (path : CString) : Bool :=
  (ctx.relativeToManagedPath && !path.isEmpty && !startsWithDelim path) ||
    ctx.consPrefix path

/-- The path lies in the producer-managed directory. -/
def prodPath (path : CString) : Bool :=
  ctx.prodManagedPath && ctx.prodTest path

/-- The path is that of a producer-managed file. -/
def prodFile (path : CString) : Bool :=
  ctx.prodPath path && !ctx.isPathDir path

/-- The path is that of a consumer-managed file. -/
def consFile (path : CString) : Bool :=
  ctx.consManagedPath && ctx.consTest path && !ctx.isPathDir path

end WrapperCtx

/-! ## The wrappers -/

/-- What a wrapper does. -/
inductive WrapperEvent
  | dyadConsume (path : CString)
  | realOpen
  | dyadExclFlock (fd : Int) (rc : Rc)
  | dyadReleaseFlock (fd : Int)
  | fflush
  | fsync
  | realClose
  | dyadProduce (path : CString)

/-- What an open meets: whether GOTCHA has the real function, what that
returns, and how the lock goes. -/
structure OpenAnswers where
  wrappee : Bool
  ret : Int
  lock : Rc

/-- What the wrappers of `open` and of `fopen` share. -/
def openWrapper (ctx : WrapperCtx) (path : CString)
    (readMode writeMode opened : Bool) (x : OpenAnswers) :
    List WrapperEvent :=
  if x.wrappee then
    (if readMode && !ctx.isPathDir path && ctx.h && ctx.reenter then
      [.dyadConsume path] else []) ++
    [.realOpen] ++
    (if opened && writeMode && !ctx.isPathDir path && ctx.prodTest path then
      .dyadExclFlock x.ret x.lock ::
        (if x.lock.isError then [.dyadReleaseFlock x.ret] else [])
    else [])
  else []

/-- The permission argument, which is read with `O_CREAT` only. -/
def openMode (oflag arg : BitVec 32) : BitVec 32 :=
  if oflag &&& O_CREAT ≠ 0 then arg else 0

/-- `dyad_open_wrapper`. It compares the permission argument with access
modes. -/
def dyadOpenWrapper (ctx : WrapperCtx) (path : CString) (oflag arg : BitVec 32)
    (x : OpenAnswers) : List WrapperEvent :=
  let mode := openMode oflag arg
  openWrapper ctx path (mode = O_RDONLY)
    (mode = O_WRONLY || mode = O_APPEND) (0 < x.ret) x

/-- `dyad_open64_wrapper`. -/
def dyadOpen64Wrapper := dyadOpenWrapper

/-- `dyad_fopen_wrapper`. -/
def dyadFopenWrapper (ctx : WrapperCtx) (path mode : CString)
    (x : OpenAnswers) : List WrapperEvent :=
  openWrapper ctx path (mode = ['r']) (mode = ['w'] || mode = ['a'])
    (0 ≤ x.ret) x

/-- `dyad_fopen64_wrapper`. -/
def dyadFopen64Wrapper := dyadFopenWrapper

/-- What a close meets: whether GOTCHA has the real function, whether the
descriptor is a directory's, what path `get_path` finds, and what access mode
`fcntl` tells. -/
structure CloseAnswers where
  wrappee : Bool
  isFdDir : Bool
  path : Option CString
  getfl : Option AccMode

/-- What the wrappers of `close` and of `fclose` share. Only a stream has
something to flush. -/
def closeWrapper (ctx : WrapperCtx) (stream : Bool) (fd : Int)
    (x : CloseAnswers) : List WrapperEvent :=
  if x.wrappee then
    match x.path with
    | some path =>
      if 0 ≤ fd && ctx.h && ctx.reenter && !x.isFdDir &&
          x.getfl = some .wronly then
        (if ctx.fsyncWrite then
          (if stream then [.fflush] else []) ++ [.fsync] else []) ++
        [.dyadReleaseFlock fd, .realClose, .dyadProduce path]
      else [.realClose]
    | none => [.realClose]
  else []

/-- `dyad_close_wrapper`. -/
def dyadCloseWrapper (ctx : WrapperCtx) (fd : Int) (x : CloseAnswers) :
    List WrapperEvent :=
  closeWrapper ctx false fd x

/-- `dyad_close64_wrapper`. -/
def dyadClose64Wrapper := dyadCloseWrapper

/-- `dyad_fclose_wrapper`. -/
def dyadFcloseWrapper (ctx : WrapperCtx) (fd : Int) (x : CloseAnswers) :
    List WrapperEvent :=
  closeWrapper ctx true fd x

/-- `dyad_fclose64_wrapper`. -/
def dyadFclose64Wrapper := dyadFcloseWrapper

/-! ## A process that opens and closes -/

/-- What a call came to: the file was fetched, opened, locked, closed or
published. -/
inductive FileAct
  | fetched (path : CString)
  | opened
  | locked
  | closed
  | published (path : CString)
deriving DecidableEq

/-- What an event comes to. `dyad_consume` and `dyad_produce` leave alone what
is not managed. -/
def WrapperEvent.act (ctx : WrapperCtx) : WrapperEvent → Option FileAct
  | .dyadConsume path =>
    if ctx.h && ctx.consManagedPath && ctx.consTest path then
      some (.fetched path) else none
  | .realOpen => some .opened
  | .dyadExclFlock _ rc => if rc.isError then none else some .locked
  | .realClose => some .closed
  | .dyadProduce path =>
    if ctx.h && ctx.prodPath path then some (.published path) else none
  | _ => none

/-- What the events come to. -/
def acts (ctx : WrapperCtx) (events : List WrapperEvent) : List FileAct :=
  events.filterMap (WrapperEvent.act ctx)

/-- An open descriptor: the path and the access it was opened with, and whether
its open took the lock. -/
structure Descriptor where
  path : CString
  access : AccMode
  locked : Bool

/-- What a call did, and what it should have done. -/
structure CallRecord where
  done : List FileAct
  due : List FileAct
deriving DecidableEq

/-- The open descriptors, and a record of the calls, the last one first. -/
structure WrappedProcess where
  fds : Int → Option Descriptor
  calls : List CallRecord

/-- The wrapped calls. A close comes with the name that the kernel has for the
descriptor, if `get_path` finds it. -/
inductive WrappedCall
  | open (is64 : Bool) (path : CString) (oflag arg : BitVec 32)
      (x : OpenAnswers)
  | fopen (is64 : Bool) (path mode : CString) (x : OpenAnswers)
  | close (is64 : Bool) (fd : Int) (wrappee : Bool)
      (getPath : Option CString)
  | fclose (is64 : Bool) (fd : Int) (wrappee : Bool)
      (getPath : Option CString)

/-- What an open should do: fetch a consumer-managed file before it is opened
read-only, and lock a producer-managed one that can be written. -/
def openDue (ctx : WrapperCtx) (path : CString) (access : AccMode)
    (ret : Int) : List FileAct :=
  (if access = .rdonly && ctx.consFile path then [.fetched path] else []) ++
  [.opened] ++
  (if 0 ≤ ret && access.writes && ctx.prodFile path then [.locked] else [])

/-- What a close should do: publish a file whose open took the lock, under the
name it has. -/
def closeDue (getPath : Option CString) : Option Descriptor → List FileAct
  | some d =>
    if d.locked then [.closed, .published (getPath.getD d.path)]
    else [.closed]
  | none => [.closed]

namespace WrappedProcess

/-- The process after an open. -/
def opened (ctx : WrapperCtx) (s : WrappedProcess) (path : CString)
    (access : AccMode) (ret : Int) (events : List WrapperEvent) :
    WrappedProcess where
  fds := if 0 ≤ ret then
      Function.update s.fds ret
        (some ⟨path, access, decide (.locked ∈ acts ctx events)⟩)
    else s.fds
  calls := ⟨acts ctx events, openDue ctx path access ret⟩ :: s.calls

/-- What a close meets, for what the process has open. -/
def answers (ctx : WrapperCtx) (s : WrappedProcess) (fd : Int)
    (wrappee : Bool) (getPath : Option CString) : CloseAnswers :=
  match s.fds fd with
  | some d => ⟨wrappee, ctx.isPathDir d.path, getPath, some d.access⟩
  | none => ⟨wrappee, false, none, none⟩

/-- The process after a close. -/
def closed (ctx : WrapperCtx) (s : WrappedProcess) (fd : Int)
    (getPath : Option CString) (events : List WrapperEvent) :
    WrappedProcess where
  fds := Function.update s.fds fd none
  calls := ⟨acts ctx events, closeDue getPath (s.fds fd)⟩ :: s.calls

/-- One call. The real open returns a descriptor that is not in use, and
`fopen` none for a mode it does not accept. -/
def step (ctx : WrapperCtx) (s : WrappedProcess) :
    WrappedCall → Option WrappedProcess
  | .open is64 path oflag arg x =>
    if (s.fds x.ret).isNone then
      some (s.opened ctx path (openAccess oflag) x.ret
        ((if is64 then dyadOpen64Wrapper else dyadOpenWrapper) ctx path oflag
          arg x))
    else none
  | .fopen is64 path mode x =>
    match fopenAccess mode with
    | some access =>
      if (s.fds x.ret).isNone then
        some (s.opened ctx path access x.ret
          ((if is64 then dyadFopen64Wrapper else dyadFopenWrapper) ctx path
            mode x))
      else none
    | none => none
  | .close is64 fd wrappee getPath =>
    some (s.closed ctx fd getPath
      ((if is64 then dyadClose64Wrapper else dyadCloseWrapper) ctx fd
        (s.answers ctx fd wrappee getPath)))
  | .fclose is64 fd wrappee getPath =>
    if (s.fds fd).isSome then
      some (s.closed ctx fd getPath
        ((if is64 then dyadFclose64Wrapper else dyadFcloseWrapper) ctx fd
          (s.answers ctx fd wrappee getPath)))
    else none

end WrappedProcess

end Dyad
