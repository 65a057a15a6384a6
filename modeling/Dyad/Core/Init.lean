import Dyad.Common
import Dyad.Dtl.Ucx
import Dyad.Utils.Paths

/-!
# Setting up the context (`core/dyad_ctx.c`)

The context is one pointer of the process. `dyad_init` allocates it, fills it
with `dyad_ctx_default`, and takes one step after the other to configure it;
a step that fails leaves through one of two labels. `init_region_finish`
returns the code with the context as it stands, `init_region_failed` clears
the context, puts the defaults back and returns `DYAD_RC_NOCTX`.

What the system decides is in `Host`: whether an allocation succeeds, what
Flux answers, how the initialisation of a transport that needs a library ends.
A step is a function from the context to the context it leaves, or to the
label it jumps to.
-/

namespace Dyad

/-- The bits of a `double`: the values are only copied here. -/
abbrev Double := UInt64

/-- How DYAD was configured when it was built, and the hash it was built
with. -/
structure Build where
  hash : CString → UInt32 → UInt32
  enableUcxDtl : Bool
  enableMargoDtl : Bool
  hasStdFstreamFd : Bool

/-- A Flux handle: one the caller passed, or one `flux_open` made. -/
inductive FluxHandle
  | given (handle : Nat)
  | opened
deriving DecidableEq

/-- `struct dyad_dtl`: the transport, and what its own initialisation put in
place, the direction and the debug flag it was given. -/
structure DtlHandle where
  mode : DtlMode
  backend : Option (CommMode × Bool)
deriving DecidableEq

/-- `struct dyad_cache_policy`: the policy, and whether the function that ranks
the files is set. -/
structure CachePolicy where
  mode : CachePolicyMode
  getRecencyKey : Bool
deriving DecidableEq

/-- `struct dyad_ctx`, less `fname`. -/
structure DyadCtx where
  h : Option FluxHandle
  dtlHandle : Option DtlHandle
  useFsLocks : Bool
  prod : ManagedPath
  cons : ManagedPath
  delimLen : Nat
  debug : Bool
  check : Bool
  reenter : Bool
  initialized : Bool
  sharedStorage : Bool
  asyncPublish : Bool
  fsyncWrite : Bool
  keyDepth : UInt32
  keyBins : UInt32
  rank : UInt32
  serviceMux : UInt32
  nodeIdx : UInt32
  pid : Int
  kvsNamespace : Option CString
  relativeToManagedPath : Bool
  cachePolicy : Option CachePolicy
  cachePolicyMode : CachePolicyMode
  cacheCapacityBytes : UInt64
  cacheLowWatermarkFrac : Double
  cacheGracePeriodSec : UInt32
  originPath : Option CString
deriving DecidableEq

/-- `0.8`. -/
def defaultLowWatermark : Double := 0x3FE999999999999A

/-- `dyad_ctx_default`. -/
def dyadCtxDefault : DyadCtx where
  h := none
  dtlHandle := none
  useFsLocks := false
  prod := ManagedPath.unset
  cons := ManagedPath.unset
  delimLen := 0
  debug := false
  check := false
  reenter := false
  initialized := true
  sharedStorage := false
  asyncPublish := false
  fsyncWrite := false
  keyDepth := 3
  keyBins := 1024
  rank := 0
  serviceMux := 1
  nodeIdx := 0
  pid := -1
  kvsNamespace := none
  relativeToManagedPath := false
  cachePolicy := none
  cachePolicyMode := .none
  cacheCapacityBytes := 0
  cacheLowWatermarkFrac := defaultLowWatermark
  cacheGracePeriodSec := 5
  originPath := none

/-- What the system decides for one managed path: the allocations of its two
forms. -/
structure PathHost where
  callocManaged : Bool
  callocReal : Bool

/-- What the system decides during one call of `dyad_init`. `ucxInit` and
`margoInit` are what the initialisation of these transports returns, `malloc`
of their own handles included. -/
structure Host where
  mallocCtx : Bool
  fluxOpen : Bool
  fluxGetRank : Option UInt32
  getpid : Int
  callocNamespace : Bool
  callocOrigin : Bool
  mallocDtl : Bool
  mallocFluxDtl : Bool
  ucxInit : Rc
  margoInit : Rc
  mallocCachePolicy : Bool
  mallocPolicyData : Bool
  realpath : CString → Option CString
  prod : PathHost
  cons : PathHost

/-- The arguments of `dyad_init`. -/
structure InitArgs where
  debug : Bool
  check : Bool
  sharedStorage : Bool
  reinit : Bool
  asyncPublish : Bool
  fsyncWrite : Bool
  keyDepth : UInt32
  keyBins : UInt32
  serviceMux : UInt32
  kvsNamespace : Option CString
  prodManagedPath : Option CString
  consManagedPath : Option CString
  relativeToManagedPath : Bool
  dtlModeStr : Option CString
  dtlCommMode : CommMode
  fluxHandle : Option Nat
  cacheCapacityBytes : UInt64
  cachePolicyStr : Option CString
  cacheLowWatermark : Double
  cacheGracePeriodSec : UInt32
  originPath : Option CString

/-- `dyad_dtl_mode_name`, the entry after the last mode included. -/
def dtlModeName : Option DtlMode → CString
  | some .ucx => ['U', 'C', 'X']
  | some .margo => ['M', 'A', 'R', 'G', 'O']
  | some .fluxRpc => ['F', 'L', 'U', 'X', '_', 'R', 'P', 'C']
  | none => ['D', 'T', 'L', '_', 'U', 'N', 'K', 'N', 'O', 'W', 'N']

/-- `dyad_cache_policy_name`. -/
def cachePolicyName : CachePolicyMode → CString
  | .none => ['N', 'O', 'N', 'E']
  | .lru => ['L', 'R', 'U']
  | .fifo => ['F', 'I', 'F', 'O']

/-- The mode a name stands for. As many bytes are compared as the name has, so
that the start of a mode's name will do. -/
def dtlModeOf (name : CString) : Option DtlMode :=
  if name <+: dtlModeName (some .fluxRpc) then some .fluxRpc
  else if name <+: dtlModeName (some .ucx) then some .ucx
  else if name <+: dtlModeName (some .margo) then some .margo
  else none

/-- The policy a name stands for. -/
def cachePolicyOf (name : CString) : Option CachePolicyMode :=
  if name <+: cachePolicyName .none then some .none
  else if name <+: cachePolicyName .lru then some .lru
  else if name <+: cachePolicyName .fifo then some .fifo
  else none

/-- `dyad_dtl_init`. -/
def dyadDtlInit (b : Build) (host : Host) (ctx : DyadCtx) (mode : DtlMode)
    (commMode : CommMode) (debug : Bool) : Rc × DyadCtx :=
  if !host.mallocDtl then (.sysfail, { ctx with dtlHandle := none })
  else
    let started (rc : Rc) : Rc × DyadCtx :=
      (rc, { ctx with dtlHandle := some {
        mode := mode
        backend := if rc.isError then none else some (commMode, debug) } })
    match mode with
    | .ucx => if b.enableUcxDtl then started host.ucxInit else started .baddtlmode
    | .margo =>
      if b.enableMargoDtl then started host.margoInit else started .baddtlmode
    | .fluxRpc => started (if host.mallocFluxDtl then .ok else .sysfail)

/-- `dyad_dtl_finalize`. -/
def dyadDtlFinalize (ctx : DyadCtx) : Rc × DyadCtx :=
  (.ok, { ctx with dtlHandle := none })

/-- `dyad_set_and_init_dtl_mode`. -/
def dyadSetAndInitDtlMode (b : Build) (host : Host) (ctx : DyadCtx)
    (dtlName : Option CString) (commMode : CommMode) : Rc × DyadCtx :=
  match dtlName.bind dtlModeOf with
  | none => (.baddtlmode, ctx)
  | some mode =>
    let (rc, ctx) := dyadDtlFinalize ctx
    if rc.isError then (rc, ctx)
    else dyadDtlInit b host ctx mode commMode ctx.debug

/-- `dyad_cache_policy_init`, with `dyad_cache_lru_init` and
`dyad_cache_fifo_init`. -/
def dyadCachePolicyInit (host : Host) (ctx : DyadCtx) (mode : CachePolicyMode) :
    Rc × DyadCtx :=
  if !host.mallocCachePolicy then (.sysfail, { ctx with cachePolicy := none })
  else if mode = .none then
    (.ok, { ctx with cachePolicy := some ⟨mode, false⟩ })
  else if host.mallocPolicyData then
    (.ok, { ctx with cachePolicy := some ⟨mode, true⟩ })
  else (.sysfail, { ctx with cachePolicy := some ⟨mode, false⟩ })

/-- `dyad_cache_policy_finalize`. -/
def dyadCachePolicyFinalize (ctx : DyadCtx) : Rc × DyadCtx :=
  (.ok, { ctx with cachePolicy := none })

/-- `dyad_set_and_init_cache_policy`. -/
def dyadSetAndInitCachePolicy (host : Host) (ctx : DyadCtx)
    (name : Option CString) (capacity : UInt64) : Rc × DyadCtx :=
  match name.bind cachePolicyOf with
  | none => (.badcachemode, ctx)
  | some mode =>
    let mode := if capacity = 0 then .none else mode
    let ctx := { ctx with cachePolicyMode := mode }
    let (rc, ctx) := dyadCachePolicyFinalize ctx
    if rc.isError then (rc, ctx) else dyadCachePolicyInit host ctx mode

/-- What `dyad_set_prod_path` and `dyad_set_cons_path` each do with their own
fields. -/
def setManagedPath (b : Build) (realpath : CString → Option CString)
    (host : PathHost) : Option CString → Rc × ManagedPath
  | none => (.ok, .unset)
  | some path =>
    if path.length = 0 then (.badmanagedpath, .unset)
    else if !host.callocManaged then (.sysfail, .unset)
    else
      let m : ManagedPath := { ManagedPath.unset with
        managedPath := some path
        managedLen := UInt32.ofNat path.length
        managedHash := hashStr b.hash path dyadSeed }
      if m.managedHash = 0 then (.badmanagedpath, m)
      else
        let real := (realpath path).getD []
        -- the resolved form is dropped where the path is a prefix of it
        if real.length = 0 ∨ path <+: real then (.ok, m)
        else if !host.callocReal then (.sysfail, m)
        else
          let m := { m with
            realPath := some real
            realLen := UInt32.ofNat real.length
            realHash := hashStr b.hash real dyadSeed }
          if m.realHash = 0 then (.badmanagedpath, m) else (.ok, m)

/-- `dyad_set_prod_path`, once there is a context. -/
def dyadSetProdPath (b : Build) (host : Host) (ctx : DyadCtx)
    (prodManagedPath : Option CString) : Rc × DyadCtx :=
  let (rc, m) := setManagedPath b host.realpath host.prod prodManagedPath
  (rc, { ctx with prod := m })

/-- `dyad_set_cons_path`, once there is a context. -/
def dyadSetConsPath (b : Build) (host : Host) (ctx : DyadCtx)
    (consManagedPath : Option CString) : Rc × DyadCtx :=
  let (rc, m) := setManagedPath b host.realpath host.cons consManagedPath
  (rc, { ctx with cons := m })

/-- `dyad_clear`, once there is a context. -/
def dyadClear (ctx : DyadCtx) : DyadCtx :=
  let (_, ctx) := dyadDtlFinalize ctx
  let (_, ctx) := dyadCachePolicyFinalize ctx
  { ctx with
    h := none
    kvsNamespace := none
    prod := { ctx.prod with managedPath := none, realPath := none }
    cons := { ctx.cons with managedPath := none, realPath := none }
    originPath := none }

/-- `dyad_finalize`. -/
def dyadFinalize : Option DyadCtx → Option DyadCtx
  | none => none
  | some ctx =>
    let _ := dyadClear ctx
    none

/-! ## `dyad_init` -/

/-- The labels `dyad_init` jumps to, with the code and the context it jumps
with. -/
inductive InitExit
  | finish (rc : Rc) (ctx : DyadCtx)
  | failed (rc : Rc) (ctx : DyadCtx)

/-- A step of the set-up. -/
abbrev InitStep := DyadCtx → Except InitExit DyadCtx

/-- The return, or the crash where there is no context to mark as reentrant. -/
inductive InitResult
  | crashed
  | returned (rc : Rc) (ctx : DyadCtx)
deriving DecidableEq

variable (b : Build) (host : Host) (r : InitArgs)

/-- The delimiter has to be a string that is not empty. -/
def checkDelim : InitStep := fun ctx =>
  if pathDelim.length = 0 then .error (.failed .noctx ctx)
  else .ok { ctx with delimLen := pathDelim.length }

/-- The values that need no allocation. -/
def setPlain : InitStep := fun ctx =>
  .ok { ctx with
    debug := r.debug
    check := r.check
    sharedStorage := r.sharedStorage
    asyncPublish := r.asyncPublish
    fsyncWrite := r.fsyncWrite
    keyDepth := r.keyDepth
    keyBins := r.keyBins
    cacheCapacityBytes := r.cacheCapacityBytes
    cacheLowWatermarkFrac := r.cacheLowWatermark
    cacheGracePeriodSec := r.cacheGracePeriodSec }

/-- The Flux handle: the one that was passed, else a new one. -/
def openFlux : InitStep := fun ctx =>
  match r.fluxHandle with
  | some handle => .ok { ctx with h := some (.given handle) }
  | none =>
    if host.fluxOpen then .ok { ctx with h := some .opened }
    else .error (.finish .fluxfail { ctx with h := none })

/-- The rank of the broker, and what follows from it. -/
def getRank : InitStep := fun ctx =>
  match host.fluxGetRank with
  | none => .error (.finish .fluxfail ctx)
  | some rank =>
    let serviceMux := if r.serviceMux < 1 then 1 else r.serviceMux
    .ok { ctx with
      rank := rank
      serviceMux := serviceMux
      nodeIdx := rank / serviceMux
      pid := host.getpid }

/-- The copy of the namespace. The code is still `DYAD_RC_OK` where it
fails. -/
def copyNamespace : InitStep := fun ctx =>
  match r.kvsNamespace with
  | none => .error (.failed .ok ctx)
  | some kvsNamespace =>
    if host.callocNamespace then
      .ok { ctx with kvsNamespace := some kvsNamespace }
    else .error (.failed .ok ctx)

/-- The copy of the origin path, which an empty one is not. -/
def copyOrigin : InitStep := fun ctx =>
  match r.originPath with
  | none => .ok { ctx with originPath := none }
  | some originPath =>
    if originPath.length = 0 then .ok { ctx with originPath := none }
    else if host.callocOrigin then .ok { ctx with originPath := some originPath }
    else .error (.failed .ok { ctx with originPath := none })

/-- The transport. -/
def initDtl : InitStep := fun ctx =>
  let (rc, ctx) := dyadSetAndInitDtlMode b host ctx r.dtlModeStr r.dtlCommMode
  if rc.isError then .error (.failed rc ctx) else .ok ctx

/-- The name `dyad_init` looks the policy up by. -/
def cachePolicyArg : CString :=
  if r.cacheCapacityBytes = 0 then cachePolicyName .none
  else r.cachePolicyStr.getD (cachePolicyName .lru)

/-- The cache policy. -/
def initCachePolicy : InitStep := fun ctx =>
  let (rc, ctx) := dyadSetAndInitCachePolicy host ctx (some (cachePolicyArg r))
    r.cacheCapacityBytes
  if rc.isError then .error (.failed rc ctx) else .ok ctx

/-- The two managed paths. The code they return is dropped. -/
def setPaths : InitStep := fun ctx =>
  let (rc, ctx) := dyadSetProdPath b host ctx r.prodManagedPath
  if rc ≠ .ok then .error (.failed .ok ctx)
  else
    let (rc, ctx) := dyadSetConsPath b host ctx r.consManagedPath
    if rc ≠ .ok then .error (.failed .ok ctx) else .ok ctx

/-- What is set last. -/
def finishSetUp : InitStep := fun ctx =>
  .ok { ctx with
    relativeToManagedPath := r.relativeToManagedPath
    useFsLocks := true
    initialized := true }

/-- The steps of the set-up, from the context with the defaults. -/
def configure : InitStep := fun ctx => do
  let ctx ← checkDelim ctx
  let ctx ← setPlain r ctx
  let ctx ← openFlux host r ctx
  let ctx ← getRank host r ctx
  let ctx ← copyNamespace host r ctx
  let ctx ← copyOrigin host r ctx
  let ctx ← initDtl b host r ctx
  let ctx ← initCachePolicy host r ctx
  let ctx ← setPaths b host r ctx
  finishSetUp r ctx

/-- Neither managed path is given. -/
def InitArgs.pathless (r : InitArgs) : Bool :=
  r.prodManagedPath.isNone && r.consManagedPath.isNone

/-- `init_region_finish`. -/
def regionFinish (rc : Rc) (ctx : DyadCtx) : InitResult :=
  .returned rc { ctx with reenter := true }

/-- `init_region_failed`. -/
def regionFailed (rc : Rc) (ctx : DyadCtx) : InitResult :=
  let assign (_ : DyadCtx) := dyadCtxDefault
  let ctx := assign (dyadClear ctx)
  .returned .noctx
    (if rc = .noctx then { ctx with initialized := false, reenter := false }
      else ctx)

/-- `dyad_init` from where the context is there. -/
def setUp : InitResult :=
  let ctx := dyadCtxDefault
  if r.pathless then regionFinish .ok ctx
  else
    match configure b host r ctx with
    | .ok ctx => regionFinish .ok ctx
    | .error (.finish rc ctx) => regionFinish rc ctx
    | .error (.failed rc ctx) => regionFailed rc ctx

/-- The call leaves at once: there is a context that counts as initialised, and
it is not asked to start again. -/
def skipsSetUp : Option DyadCtx → Bool
  | some ctx => !r.reinit && ctx.initialized
  | none => false

/-- `dyad_init` from where it does not leave at once: a context that is there
and was not initialised is used again, else one is allocated. -/
def allocate (ctx : Option DyadCtx) : InitResult :=
  let ctx := if r.reinit then dyadFinalize ctx else ctx
  match ctx with
  | some _ => setUp b host r
  | none => if host.mallocCtx then setUp b host r else .crashed

/-- `dyad_init`. -/
def dyadInit (ctx : Option DyadCtx) : InitResult :=
  match ctx with
  | some c =>
    if skipsSetUp r (some c) then regionFinish .ok c
    else allocate b host r (some c)
  | none => allocate b host r none

end Dyad
