import Dyad.Core.Init

/-!
# Setting up the context from the environment (`core/dyad_ctx.c`)

`dyad_init_env` reads nineteen environment variables and passes what they say
to `dyad_init`. A flag is set where its variable is, whatever it holds; a
number is read by `atoi`, `strtoull` or `atof`, and a string is passed as it
is, `NULL` where the variable is not set.
-/

namespace Dyad

/-- The environment, a field for each variable read. -/
structure Env where
  syncDebug : Option CString
  syncCheck : Option CString
  sharedStorage : Option CString
  reinit : Option CString
  asyncPublish : Option CString
  fsyncWrite : Option CString
  keyDepth : Option CString
  keyBins : Option CString
  serviceMux : Option CString
  kvsNamespace : Option CString
  pathConsumer : Option CString
  pathProducer : Option CString
  pathRelative : Option CString
  dtlMode : Option CString
  cacheCapacity : Option CString
  cachePolicy : Option CString
  cacheLowWatermark : Option CString
  cacheGracePeriod : Option CString
  pathOrigin : Option CString

/-- `isspace`, in the C locale. -/
def isspace (c : Char) : Bool :=
  c == ' ' || (9 ≤ c.toNat && c.toNat ≤ 13)

/-- The number the digits at the start of a text spell, after those of
`acc`. -/
def leadingDigits : CString → Nat → Nat
  | [], acc => acc
  | c :: cs, acc =>
    if c.isDigit then leadingDigits cs (10 * acc + (c.toNat - 48)) else acc

/-- The sign and the digits of a text, after its blanks. -/
def signedDigits (str : CString) : Bool × Nat :=
  match str.dropWhile isspace with
  | '-' :: cs => (true, leadingDigits cs 0)
  | '+' :: cs => (false, leadingDigits cs 0)
  | cs => (false, leadingDigits cs 0)

/-- `atoi`, converted to the `unsigned int` it is assigned to: the lower half of
the `long` that `strtol` reads, which stops at the ends of its range. -/
def atoiUnsigned (str : CString) : UInt32 :=
  match signedDigits str with
  | (true, n) => -UInt32.ofNat (min n (2 ^ 63))
  | (false, n) => UInt32.ofNat (min n (2 ^ 63 - 1))

/-- `strtoull (str, NULL, 10)`. -/
def strtoull (str : CString) : UInt64 :=
  match signedDigits str with
  | (neg, n) =>
    if 2 ^ 64 ≤ n then UInt64.ofNat (2 ^ 64 - 1)
    else if neg then -UInt64.ofNat n else UInt64.ofNat n

example : atoiUnsigned [' ', '1', '2', 'x'] = 12 := by decide

/-- The arguments `dyad_init_env` passes on. -/
def envArgs (atof : CString → Double) (e : Env) (commMode : CommMode)
    (fluxHandle : Option Nat) : InitArgs where
  debug := e.syncDebug.isSome
  check := e.syncCheck.isSome
  sharedStorage := e.sharedStorage.isSome
  reinit := e.reinit.isSome
  asyncPublish := e.asyncPublish.isSome
  fsyncWrite := e.fsyncWrite.isSome
  keyDepth := e.keyDepth.elim 3 atoiUnsigned
  keyBins := e.keyBins.elim 1024 atoiUnsigned
  serviceMux := e.serviceMux.elim 1 atoiUnsigned
  kvsNamespace := e.kvsNamespace
  prodManagedPath := e.pathProducer
  consManagedPath := e.pathConsumer
  relativeToManagedPath := e.pathRelative.isSome
  dtlModeStr := some (e.dtlMode.getD (dtlModeName (some .fluxRpc)))
  dtlCommMode := commMode
  fluxHandle := fluxHandle
  cacheCapacityBytes := e.cacheCapacity.elim 0 strtoull
  cachePolicyStr := some (e.cachePolicy.getD (cachePolicyName .lru))
  cacheLowWatermark := e.cacheLowWatermark.elim defaultLowWatermark atof
  cacheGracePeriodSec := e.cacheGracePeriod.elim 5 atoiUnsigned
  originPath := e.pathOrigin

/-- `dyad_init_env`. -/
def dyadInitEnv (b : Build) (host : Host) (atof : CString → Double) (e : Env)
    (commMode : CommMode) (fluxHandle : Option Nat) (ctx : Option DyadCtx) :
    InitResult :=
  dyadInit b host (envArgs atof e commMode fluxHandle) ctx

/-- `dyad_ctx_init`: `dyad_init_env`, after which a context that could not be
set up counts as neither initialised nor reentrant. The code it only prints is
part of the result. -/
def dyadCtxInit (b : Build) (host : Host) (atof : CString → Double) (e : Env)
    (commMode : CommMode) (fluxHandle : Option Nat) (ctx : Option DyadCtx) :
    InitResult :=
  match dyadInitEnv b host atof e commMode fluxHandle ctx with
  | .crashed => .crashed
  | .returned rc ctx =>
    if rc.isError then
      .returned rc { ctx with initialized := false, reenter := false }
    else .returned rc ctx

end Dyad
