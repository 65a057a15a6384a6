import Dyad.Cache.Pass
import Dyad.Client.Consume
import Dyad.Wrapper.Wrapper

/-!
# The re-entrancy guard (`client/dyad_client.c`)

In a process with the wrappers active, the library's own opens and closes go
through them too. A wrapper leaves a call alone while `ctx->reenter` is false,
and the five functions of the client that a process calls clear the flag and
set it again around what they do. Their programs are those of the other
modules, with the assignments in their places: `GuardCall` is an assignment,
or a call of such a program.

A close is decided by the access mode of the descriptor, so a call may carry
the access its program opens files with; where it carries none, it may be any.
-/

namespace Dyad

open Conc Posix

/-! ## `dyad_get_metadata` -/

/-- Whose rank `dyad_get_metadata` reports: the caller's own, or the one the
KVS names. -/
inductive OwnerRank
  | own
  | published (rank : Nat)

/-- `dyad_get_metadata`. `mdata` is the double pointer: null, or whether it
points to an object already. A lookup that does not wait answers an error
while the key is not there. -/
def dyadGetMetadata (ctx : Ctx) (fnameEmpty : Bool) (mdata : Option Bool) :
    Program (Except Rc OwnerRank) := do
  if fnameEmpty then
    return .error .badfio
  else if ctx.tracked = false then
    return .error .untracked
  else
    match ← sys (.open .data false false) with
    | .ok fd =>
      let _ ← sys (.close fd)
      match mdata with
      | none => return .error .notfound
      | some true =>
        if ← sys (.malloc 4097) then
          return .ok .own
        else
          return .error .sysfail
      | some false =>
        if ← sys (.malloc 16) then
          if ← sys (.malloc 4097) then
            return .ok .own
          else
            return .error .sysfail
        else
          return .error .sysfail
    | .error _ =>
      match ← perform .kvsRead with
      | .error rc => return .error rc
      | .ok rank => return .ok (.published rank)

/-! ## Programs with the assignments -/

/-- An assignment of `ctx->reenter`, or a call of a program that opens its
files with `access`. -/
inductive GuardCall
  | reenter (b : Bool)
  | issue (access : Option AccMode) (c : Call)

/-- What each answers. -/
abbrev GuardCall.Res : GuardCall → Type
  | .reenter _ => Unit
  | .issue _ c => c.Res

/-- A program over these. -/
abbrev GuardProgram (α : Type) := Prog GuardCall.Res α

/-- `ctx->reenter = b`. -/
abbrev setReenter (b : Bool) : GuardProgram Unit :=
  Prog.perform (GuardCall.reenter b)

/-- A program that does not touch the flag. -/
def issues {α : Type} (access : Option AccMode) : Program α → GuardProgram α
  | .pure a => .pure a
  | .call c k => .call (GuardCall.issue access c) fun r => issues access (k r)

/-- `dyad_commit`. The flag is set behind the publication whatever it was
before. -/
def guardedCommit (ctx : Ctx) : GuardProgram Rc := do
  if ctx.tracked = false then
    return .ok
  else
    setReenter false
    let published ← issues none (perform .kvsCommit)
    setReenter true
    match published with
    | .error rc => return rc
    | .ok _ => return .ok

/-- `dyad_produce`; `prodManagedPath` is whether the producer's path is set.
The evictor opens its lock file and its victims for reading and writing. -/
def guardedProduce (ctx : Ctx) (prodManagedPath : Bool) : GuardProgram Rc := do
  if ctx.h = false then
    return .noctx
  else if prodManagedPath = false then
    return .badmanagedpath
  else
    let rc ← guardedCommit ctx
    if rc.isError then
      return rc
    else
      let _ ← issues (some .rdwr) (dyadCacheMaybeEvict ctx)
      return rc

/-- `dyad_produce`, with the record of its eviction pass. -/
def guardedProducePass (ctx : Ctx) (prodManagedPath : Bool) :
    GuardProgram (Rc × Option Pass) := do
  if ctx.h = false then
    return (.noctx, none)
  else if prodManagedPath = false then
    return (.badmanagedpath, none)
  else
    let rc ← guardedCommit ctx
    if rc.isError then
      return (rc, none)
    else
      let pass ← issues (some .rdwr) (evictPass ctx)
      return (rc, pass)

/-- A function that clears the flag, once its checks have passed, before its
first call, and sets it at every exit. -/
def fenced {α : Type} (passed : Bool) (p : Program α) : GuardProgram α := do
  if passed then
    setReenter false
    let a ← issues none p
    setReenter true
    return a
  else
    let a ← issues none p
    setReenter true
    return a

/-- `dyad_consume`. -/
def guardedConsume (ctx : Ctx) (fuel : Nat) : GuardProgram Rc :=
  fenced (ctx.h && ctx.consManagedPath && ctx.tracked) (dyadConsume ctx fuel)

/-- `dyad_consume_w_metadata`. -/
def guardedConsumeWMetadata (ctx : Ctx) (mdata : Bool) (fuel : Nat) :
    GuardProgram Rc :=
  fenced (ctx.h && mdata && ctx.consManagedPath)
    (dyadConsumeWMetadata ctx mdata fuel)

/-- `dyad_get_metadata`. -/
def guardedGetMetadata (ctx : Ctx) (fnameEmpty : Bool) (mdata : Option Bool) :
    GuardProgram (Except Rc OwnerRank) :=
  fenced (!fnameEmpty && ctx.tracked) (dyadGetMetadata ctx fnameEmpty mdata)

/-- `dyad_consume_range`. -/
def guardedConsumeRange (ctx : Ctx) (offset length : UInt64) :
    GuardProgram (Rc × Option (Bytes Byte)) :=
  fenced (ctx.h && ctx.consManagedPath && ctx.dtlMode ≠ .ucx && ctx.tracked)
    (dyadConsumeRange ctx offset length)

/-! ## What the wrappers make of a call -/

/-- The flag after some calls, from `b`. -/
def reenterAfter (b : Bool) : List (Prog.Event GuardCall.Res) → Bool
  | [] => b
  | ⟨.reenter b', _⟩ :: tr => reenterAfter b' tr
  | ⟨.issue .., _⟩ :: tr => reenterAfter b tr

/-- A process: its context, and which files are the consumer's, by its
directory and the check of the path. -/
structure GuardedProcess where
  ctx : Ctx
  consumed : Name → Bool

/-- The context a wrapper sees, with the flag at `reenter`. -/
structure GuardedProcess.Sees (s : GuardedProcess) (reenter : Bool)
    (w : WrapperCtx) : Prop where
  h : w.h = s.ctx.h
  reenter : w.reenter = reenter

/-- A call goes straight to the real function: the wrapper it goes through
fetches nothing and publishes nothing, whatever string the file's name is.
Files that are created have permission bits. -/
def GuardedProcess.Straight (s : GuardedProcess) (reenter : Bool) :
    GuardCall → Prop
  | .issue _ (.sys (.open n creat _)) =>
    ∀ w path x p, s.Sees reenter w →
      (w.consManagedPath && w.consTest path) = s.consumed n →
      .fetched p ∉ acts w (dyadOpenWrapper w path
        (if creat then O_RDWR ||| O_CREAT else O_RDWR) 0o666 x)
  | .issue access (.sys (.close _)) =>
    ∀ w fd x p, s.Sees reenter w →
      (∀ m, access = some m → x.getfl = some m) →
      .published p ∉ acts w (dyadCloseWrapper w fd x)
  | _ => True

/-- Every call goes straight, from a flag of `b`. -/
def GuardedProcess.AllStraight (s : GuardedProcess) :
    Bool → List (Prog.Event GuardCall.Res) → Prop
  | _, [] => True
  | _, ⟨.reenter b', _⟩ :: tr => s.AllStraight b' tr
  | b, ⟨.issue access c, _⟩ :: tr =>
    s.Straight b (.issue access c) ∧ s.AllStraight b tr

/-- The guard covered a call: everything went straight, and the flag is what
it was. -/
def GuardedProcess.Covered (s : GuardedProcess) (b : Bool)
    (tr : List (Prog.Event GuardCall.Res)) : Prop :=
  s.AllStraight b tr ∧ reenterAfter b tr = b

/-! ## The calls of a process -/

/-- A call of one of the five functions. -/
inductive ClientCall
  | produce (prodManagedPath : Bool)
  | consume (fuel : Nat)
  | consumeWMetadata (mdata : Bool) (fuel : Nat)
  | getMetadata (fnameEmpty : Bool) (mdata : Option Bool)
  | consumeRange (offset length : UInt64)

/-- What each returns. -/
abbrev ClientCall.Res : ClientCall → Type
  | .produce _ => Rc
  | .consume _ => Rc
  | .consumeWMetadata .. => Rc
  | .getMetadata .. => Except Rc OwnerRank
  | .consumeRange .. => Rc × Option (Bytes Byte)

/-- Its program. -/
def ClientCall.program (ctx : Ctx) : (c : ClientCall) → GuardProgram c.Res
  | .produce prodManagedPath => guardedProduce ctx prodManagedPath
  | .consume fuel => guardedConsume ctx fuel
  | .consumeWMetadata mdata fuel => guardedConsumeWMetadata ctx mdata fuel
  | .getMetadata fnameEmpty mdata => guardedGetMetadata ctx fnameEmpty mdata
  | .consumeRange offset length => guardedConsumeRange ctx offset length

/-- In a run that returned `a`, `pass` is the eviction pass a `dyad_produce`
made with the flag as its commit left it. The other functions make theirs, if
they do, with the flag down. -/
def ClientCall.Meets (ctx : Ctx) (tr : List (Prog.Event GuardCall.Res)) :
    (c : ClientCall) → c.Res → Option Pass → Prop
  | .produce prodManagedPath, rc, pass =>
    Prog.Runs (fun _ _ => True) (guardedProducePass ctx prodManagedPath) tr
      (rc, pass)
  | .consume _, _, pass => pass = none
  | .consumeWMetadata .., _, pass => pass = none
  | .getMetadata .., _, pass => pass = none
  | .consumeRange .., _, pass => pass = none

end Dyad
