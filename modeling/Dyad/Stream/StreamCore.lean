import Dyad.Core.InitEnv

/-!
# The core of the C++ streams (`stream/dyad_stream_core.cpp`)

A stream object holds a core, which knows the context and whether the process
produces and consumes. The core is initialised from the environment, or from
an object of parameters; each route calls `dyad_init` its own way and patches
the core, and one of them the context, afterwards.
-/

namespace Dyad

/-- `dyad_params`. The transport is `none` for `DYAD_DTL_END`. -/
structure DyadParams where
  debug : Bool
  sharedStorage : Bool
  reinit : Bool
  asyncPublish : Bool
  fsyncWrite : Bool
  keyDepth : UInt32
  keyBins : UInt32
  serviceMux : UInt32
  dtlMode : Option DtlMode
  kvsNamespace : CString
  consManagedPath : CString
  prodManagedPath : CString
  relativeToManagedPath : Bool
  cacheCapacityBytes : UInt64
  cachePolicy : CString
  cacheLowWatermark : Double
  cacheGracePeriodSec : UInt32
  originPath : CString

/-- `dyad_stream_core`: whether `m_ctx` is set, and the flags. -/
structure StreamCore where
  ctx : Bool
  initialized : Bool
  isProd : Bool
  isCons : Bool
deriving DecidableEq

/-- `dyad_stream_core::dyad_stream_core`. -/
def StreamCore.new : StreamCore where
  ctx := false
  initialized := false
  isProd := false
  isCons := false

/-- How `dyad_stream_core::init` ends: the process crashes, or the core is left
with the code of the `dyad_init` it called and the context of the process. -/
inductive StreamInit
  | crashed
  | done (rc : Rc) (ctx : Option DyadCtx) (core : StreamCore)
deriving DecidableEq

/-- The arguments `init (const dyad_params &)` passes to `dyad_init`. A string
that was not given is passed as the empty string, except the origin path. -/
def paramsArgs (p : DyadParams) : InitArgs where
  debug := p.debug
  check := false
  sharedStorage := p.sharedStorage
  reinit := p.reinit
  asyncPublish := p.asyncPublish
  fsyncWrite := p.fsyncWrite
  keyDepth := p.keyDepth
  keyBins := p.keyBins
  serviceMux := p.serviceMux
  kvsNamespace := some p.kvsNamespace
  prodManagedPath := some p.prodManagedPath
  consManagedPath := some p.consManagedPath
  relativeToManagedPath := p.relativeToManagedPath
  dtlModeStr := some (dtlModeName p.dtlMode)
  dtlCommMode := .recv
  fluxHandle := none
  cacheCapacityBytes := p.cacheCapacityBytes
  cachePolicyStr := some p.cachePolicy
  cacheLowWatermark := p.cacheLowWatermark
  cacheGracePeriodSec := p.cacheGracePeriodSec
  originPath := if p.originPath.length = 0 then none else some p.originPath

/-- `dyad_stream_core::init (const dyad_params &)`. -/
def StreamCore.initParams (b : Build) (host : Host) (p : DyadParams)
    (ctx : Option DyadCtx) (core : StreamCore) : StreamInit :=
  match dyadInit b host (paramsArgs p) ctx with
  | .crashed => .crashed
  | .returned rc ctx =>
    let core := { core with ctx := true }
    if !rc.isError then
      .done rc (some { ctx with useFsLocks := b.hasStdFstreamFd })
        { core with
          isProd := p.prodManagedPath.length ≠ 0
          isCons := p.consManagedPath.length ≠ 0
          initialized := true }
    else .done rc (some ctx) { core with initialized := true }

/-- The roles `init (const bool)` reads off the environment. -/
def StreamCore.envRoles (e : Env) (core : StreamCore) : StreamCore :=
  { core with
    isCons := e.pathConsumer.elim false fun path => path.length ≠ 0
    isProd := e.pathProducer.elim false fun path => path.length ≠ 0
    initialized := true }

/-- `dyad_stream_core::init (const bool)`. A core that is initialised, or a
context that is there, is left alone unless it is asked for; the code is then
`DYAD_RC_OK`. -/
def StreamCore.initEnv (b : Build) (host : Host) (atof : CString → Double)
    (e : Env) (reinit : Bool) (ctx : Option DyadCtx) (core : StreamCore) :
    StreamInit :=
  let reinit := reinit || e.reinit.isSome
  if !reinit && core.initialized then .done .ok ctx core
  else
    match (if reinit then none else ctx) with
    | some c => .done .ok (some c) ({ core with ctx := true }.envRoles e)
    | none =>
      match dyadCtxInit b host atof e .recv none ctx with
      | .crashed => .crashed
      | .returned rc c =>
        .done rc (some c) ({ core with ctx := true }.envRoles e)

/-- `dyad_stream_core::close_sync`: the path `dyad_produce` is called with, if
it is. -/
def StreamCore.closeSync (core : StreamCore) (path : CString) :
    Option CString :=
  if !core.initialized then none
  else if !core.isProd then none
  else some path

end Dyad
