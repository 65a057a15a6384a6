import Dyad.PathOps
import Dyad.Wrapper.Wrapper

/-!
# The wrappers over a context that may be missing (`wrapper/wrapper.c`)

The wrappers of `open`, `fopen`, `close` and `fclose` once more, call by call,
with the context a pointer as they have it. What they call of the client are
the client's functions with their paths spelled out. Each branch of a wrapper
tests what it is about to follow, or does not.
-/

namespace Dyad.WrapperOps

open Conc PathOps

/-- What the wrappers call. -/
inductive Call
  -- a call of the client's functions
  | client (c : PathOps.Call)
  | nullDeref
  | gotchaGetWrappee
  | isPathDir (path : CString)
  | isFdDir (fd : Int)
  -- the path of a descriptor, if it can be obtained
  | getPath (fd : Int)
  -- whether the descriptor was opened for writing only
  | isWronly (fd : Int)
  -- the descriptor of the stream
  | fileno
  -- the real function; a stream is its address
  | real
  | exclFlock (fd : Int)
  | releaseFlock (fd : Int)
  | fflush
  | fsync (fd : Int)

/-- What each call answers. -/
abbrev Call.Res : Call → Type
  | .client c => c.Res
  | .nullDeref => Empty
  | .gotchaGetWrappee => Bool
  | .isPathDir _ => Bool
  | .isFdDir _ => Bool
  | .getPath _ => Option CString
  | .isWronly _ => Bool
  | .fileno => Int
  | .real => Int
  | .exclFlock _ => Rc
  | .releaseFlock _ => Unit
  | .fflush => Unit
  | .fsync _ => Unit

/-- A program over these calls. -/
abbrev Program (α : Type) := Prog Call.Res α

/-- One call. -/
abbrev perform (c : Call) : Program c.Res := Prog.perform c

/-- A function of the client. -/
def client {α : Type} : PathProgram α → Program α
  | .pure a => .pure a
  | .call c k => .call (.client c) fun r => client (k r)

/-- What a pointer points to. -/
def pointee {α : Type} : Option α → Program α
  | some a => return a
  | none => .call .nullDeref Empty.elim

variable (hash : CString → UInt32 → UInt32)
  (realpath : CString → Option CString)

/-! ## Opening -/

/-- The synchronisation before the real open, of a file that is opened for
reading. -/
def openSync (ctx : Option DyadCtx) (path : CString) : Program Unit := do
  if ← perform (.isPathDir path) then
    return ()
  else
    match ctx with
    | none => return ()
    | some c =>
      if c.h.isSome && c.reenter then
        let _ ← client (PathOps.dyadConsume hash realpath (some c) path)
        return ()
      else
        return ()

/-- The lock of the file that was opened. -/
def lockOpened (fd : Int) : Program Unit := do
  let rc ← perform (.exclFlock fd)
  if rc.isError then
    perform (.releaseFlock fd)
  else
    return ()

/-- The lock behind the real open, of a file that is opened for writing. The
context is not tested before it is followed. -/
def openLock (ctx : Option DyadCtx) (path : CString) (fd : Program Int) :
    Program Unit := do
  if ← perform (.isPathDir path) then
    return ()
  else
    let c ← pointee ctx
    if isRelative c path then
      let fd ← fd
      lockOpened fd
    else
      match ← pointee (cmpCanonicalPathPrefix hash realpath c.prod path
          pathMax) with
      | none => return ()
      | some _ =>
        let fd ← fd
        lockOpened fd

/-- The real open, and what is behind it. -/
def openReal (ctx : Option DyadCtx) (path : CString) (writeMode : Bool)
    (opened : Int → Bool) (fd : Int → Program Int) : Program Int := do
  let ret ← perform .real
  if opened ret && writeMode then
    openLock hash realpath ctx path (fd ret)
    return ret
  else
    return ret

/-- What the wrappers of `open` and of `fopen` share. -/
def openWrapper (ctx : Option DyadCtx) (path : CString)
    (readMode writeMode : Bool) (failure : Int) (opened : Int → Bool)
    (fd : Int → Program Int) : Program Int := do
  if ← perform .gotchaGetWrappee then
    if readMode then
      openSync hash realpath ctx path
      openReal hash realpath ctx path writeMode opened fd
    else
      openReal hash realpath ctx path writeMode opened fd
  else
    return failure

/-- `dyad_open_wrapper`, which compares the permission argument with access
modes, and `dyad_open64_wrapper`. -/
def dyadOpenWrapper (ctx : Option DyadCtx) (path : CString)
    (oflag arg : BitVec 32) : Program Int :=
  let mode := openMode oflag arg
  openWrapper hash realpath ctx path (mode = O_RDONLY)
    (mode = O_WRONLY || mode = O_APPEND) (-1) (fun ret => 0 < ret) pure

/-- `dyad_fopen_wrapper` and `dyad_fopen64_wrapper`. -/
def dyadFopenWrapper (ctx : Option DyadCtx) (path mode : CString) :
    Program Int :=
  openWrapper hash realpath ctx path (mode = ['r'])
    (mode = ['w'] || mode = ['a']) 0 (fun ret => ret ≠ 0)
    fun _ => perform .fileno

/-! ## Closing -/

/-- The path of a descriptor that may have to be published. -/
def closeSync (ctx : Option DyadCtx) (fd : Int) :
    Program (Option (DyadCtx × CString)) :=
  if fd < 0 then
    return none
  else
    match ctx with
    | none => return none
    | some c =>
      if c.h.isNone || !c.reenter then
        return none
      else do
        if ← perform (.isFdDir fd) then
          return none
        else
          let path ← perform (.getPath fd)
          return path.map fun path => (c, path)

/-- What is written reaches the disk, where that is asked for. -/
def syncWritten (c : DyadCtx) (fd : Int) (flush : Program Unit) :
    Program Unit := do
  if c.fsyncWrite then
    flush
    perform (.fsync fd)
  else
    return ()

/-- The close of a file that was written. -/
def closeProduced (c : DyadCtx) (path : CString) (fd : Int)
    (flush : Program Unit) : Program Int := do
  syncWritten c fd flush
  perform (.releaseFlock fd)
  let rc ← perform .real
  let _ ← client (PathOps.dyadProduce hash realpath (some c) path)
  return rc

/-- What the wrappers of `close` and of `fclose` share. -/
def closeWrapper (ctx : Option DyadCtx) (fd : Int) (flush : Program Unit) :
    Program Int := do
  match ← closeSync ctx fd with
  | none =>
    let _ ← perform (.isWronly fd)
    perform .real
  | some (c, path) =>
    if ← perform (.isWronly fd) then
      closeProduced hash realpath c path fd flush
    else
      perform .real

/-- `dyad_close_wrapper` and `dyad_close64_wrapper`. -/
def dyadCloseWrapper (ctx : Option DyadCtx) (fd : Int) : Program Int := do
  if ← perform .gotchaGetWrappee then
    closeWrapper hash realpath ctx fd (return ())
  else
    return -1

/-- `dyad_fclose_wrapper` and `dyad_fclose64_wrapper`, for a stream with that
descriptor. -/
def dyadFcloseWrapper (ctx : Option DyadCtx) (fd : Int) : Program Int := do
  if ← perform .gotchaGetWrappee then
    closeWrapper hash realpath ctx fd (perform .fflush)
  else
    return -1

/-! ## What is expected of a call -/

/-- The entry points. -/
inductive Entry
  | openWrapper (path : CString) (oflag arg : BitVec 32)
  | fopenWrapper (path mode : CString)
  | closeWrapper (fd : Int)
  | fcloseWrapper (fd : Int)
  | produce (fname : CString)
  | consume (fname : CString)
  -- with the path in the metadata, if there is any
  | consumeWMetadata (fname : CString) (mdata : Option CString)
  | consumeRange (fname : CString)

/-- The producer-managed path is set. -/
def prodSet (ctx : Option DyadCtx) : Bool :=
  ctx.any (·.prod.managedPath.isSome)

/-- A call that follows no null pointer, and takes no file for a managed one of
the producer's where its path is not set. -/
def Call.Harmless (ctx : Option DyadCtx) : Call → Prop
  | .nullDeref => False
  | .client c => c ≠ .nullDeref
  | .exclFlock _ => prodSet ctx = true
  | _ => True

/-- What the real functions returned, the last of them first. -/
def reals (h : List (Prog.Event Call.Res)) : List Int :=
  h.filterMap fun e =>
    match e with
    | ⟨.real, ret⟩ => some ret
    | _ => none

/-- One real call was made, and what it returned is returned. Where GOTCHA has
no real function none was made, and the wrapper fails. -/
def MadeOnce (failure : Int) (h : List (Prog.Event Call.Res)) (ret : Int) :
    Prop :=
  reals h = [ret] ∨
    ⟨.gotchaGetWrappee, false⟩ ∈ h ∧ reals h = [] ∧ ret = failure

/-- On every path through a wrapper, whatever its calls answer, each call is
harmless, and the real one is made once. -/
def WrapsReal (ctx : Option DyadCtx) (failure : Int) (p : Program Int) : Prop :=
  p.wp (fun _ _ _ => True) (fun _ c => c.Harmless ctx) (MadeOnce failure) []

/-- The error a function of the client documents for such a context, which it
returns before it looks at the name. -/
def documented (ctx : Option DyadCtx) (pathMissing : DyadCtx → Bool) :
    Option Rc :=
  match ctx with
  | none => some .noctx
  | some c =>
    if c.h.isNone then some .noctx
    else if pathMissing c then some .badmanagedpath
    else none

/-- A function of the client follows no null pointer, and returns at once the
error that is documented for its context, if there is one. -/
structure Reports (ctx : Option DyadCtx) (pathMissing : DyadCtx → Bool)
    (p : PathProgram Rc) : Prop where
  harmless : p.All fun c => c ≠ .nullDeref
  error : ∀ rc, documented ctx pathMissing = some rc → p = .pure rc

/-- The calls are harmless in this context. -/
def Entry.Harmless (ctx : Option DyadCtx) : Entry → Prop
  | .openWrapper path oflag arg =>
    WrapsReal ctx (-1) (dyadOpenWrapper hash realpath ctx path oflag arg)
  | .fopenWrapper path mode =>
    WrapsReal ctx 0 (dyadFopenWrapper hash realpath ctx path mode)
  | .closeWrapper fd =>
    WrapsReal ctx (-1) (dyadCloseWrapper hash realpath ctx fd)
  | .fcloseWrapper fd =>
    WrapsReal ctx (-1) (dyadFcloseWrapper hash realpath ctx fd)
  | .produce fname =>
    Reports ctx (·.prod.managedPath.isNone)
      (PathOps.dyadProduce hash realpath ctx fname)
  | .consume fname =>
    Reports ctx (·.cons.managedPath.isNone)
      (PathOps.dyadConsume hash realpath ctx fname)
  -- without metadata there is nothing to do, and no path is needed
  | .consumeWMetadata fname mdata =>
    Reports ctx (fun c => mdata.isSome && c.cons.managedPath.isNone)
      (PathOps.dyadConsumeWMetadata ctx fname mdata)
  | .consumeRange fname =>
    Reports ctx (·.cons.managedPath.isNone)
      (PathOps.dyadConsumeRange hash realpath ctx fname)

/-- What the calls need of the context: an open for writing the
producer-managed path, a function of the client that there is a context. -/
def Entry.Provided (ctx : Option DyadCtx) : Entry → Prop
  | .openWrapper _ oflag arg =>
    openMode oflag arg = O_WRONLY ∨ openMode oflag arg = O_APPEND →
      prodSet ctx = true
  | .fopenWrapper _ mode => mode = ['w'] ∨ mode = ['a'] → prodSet ctx = true
  | .closeWrapper _ => True
  | .fcloseWrapper _ => True
  | .produce _ => ctx ≠ none
  | .consume _ => ctx ≠ none
  | .consumeWMetadata .. => ctx ≠ none
  | .consumeRange _ => ctx ≠ none

end Dyad.WrapperOps
