import Mathlib.Algebra.Group.Int.Defs
import Mathlib.Algebra.GroupWithZero.Nat

/-!
# Return codes, limits and the context

What the client, the service and the utilities share: the return codes and
the test for an error among them, the transfer granularity, the block size of
the range cache, and the fields of the DYAD context the modelled functions
read.
-/

namespace Dyad

/-- `dyad_core_return_codes`. -/
inductive Rc
  | ok
  | sysfail
  | noctx
  | badmetadata
  | badfio
  | badmanagedpath
  | baddtlmode
  | untracked
  | badB64decode
  | badCommMode
  | badCliArgDef
  | badCliParse
  | badbuf
  | busy
  | badcachemode
  | fluxfail
  | badcommit
  | notfound
  | badfetch
  | badrpc
  | badpack
  | badunpack
  | rpcFinished
  | ucxinitFail
  | ucxwaitFail
  | ucxepFail
  | ucxcommFail
  | ucxmmapFail
  | ucxrkeyPackFailed
  | ucxrkeyUnpackFailed
  | margoinitFail
  | margoBadProto
deriving DecidableEq

namespace Rc

/-- The values of the enumeration. -/
def code : Rc → Int
  | ok => 0
  | sysfail => -1
  | noctx => -1000
  | badmetadata => -1001
  | badfio => -1002
  | badmanagedpath => -1003
  | baddtlmode => -1004
  | untracked => -1005
  | badB64decode => -1006
  | badCommMode => -1007
  | badCliArgDef => -1008
  | badCliParse => -1009
  | badbuf => -1010
  | busy => -1011
  | badcachemode => -1012
  | fluxfail => -2000
  | badcommit => -2001
  | notfound => -2002
  | badfetch => -2003
  | badrpc => -2004
  | badpack => -2005
  | badunpack => -2006
  | rpcFinished => -2007
  | ucxinitFail => -3001
  | ucxwaitFail => -3002
  | ucxepFail => -3003
  | ucxcommFail => -3004
  | ucxmmapFail => -3005
  | ucxrkeyPackFailed => -3006
  | ucxrkeyUnpackFailed => -3007
  | margoinitFail => -4001
  | margoBadProto => -4002

/-- `DYAD_IS_ERROR`. -/
def isError (rc : Rc) : Bool := rc.code < 0

/-- `DYAD_RC_OK` is the one code that is not an error. -/
theorem isError_iff (rc : Rc) : rc.isError = true ↔ rc ≠ .ok := by
  cases rc <;> decide

end Rc

/-- `DYAD_POSIX_TRANSFER_GRANULARITY`: the most a single transfer moves. -/
def transferGranularity : Nat := 1024 * 1024 * 1024

/-- `DYAD_RANGE_CACHE_BLOCK_SIZE`. -/
def rangeCacheBlockSize : Nat := 64 * 1024

/-- A byte of a file or of a buffer. -/
abbrev Byte := BitVec 8

instance : Zero Byte := ⟨0#8⟩

/-- `dyad_cache_policy_mode_t`. -/
inductive CachePolicyMode
  | none
  | lru
  | fifo
deriving DecidableEq

/-- `dyad_dtl_mode_t`. -/
inductive DtlMode
  | fluxRpc
  | ucx
  | margo
deriving DecidableEq

/-- The fields of `struct dyad_ctx` the modelled functions read. A pointer
that is only compared with `NULL` is whether it is set. `tracked` is the test
the client opens with, whether the name it was given lies under the managed
path (it is relative to it, or `cmp_canonical_path_prefix` finds it there),
`dotPath` whether the managed path starts with a dot, and `pathFits` whether a
companion file's path fits `PATH_MAX`. -/
structure Ctx where
  h : Bool
  consManagedPath : Bool
  tracked : Bool
  dotPath : Bool
  pathFits : Bool
  sharedStorage : Bool
  useFsLocks : Bool
  fsyncWrite : Bool
  serviceMux : Nat
  nodeIdx : Nat
  originPath : Bool
  dtlMode : DtlMode
  cachePolicyMode : CachePolicyMode
  cacheCapacityBytes : Nat
  cacheLowWatermark : Nat
  cacheGracePeriodSec : Int

/-- A consumer on node-local storage over the Flux RPC, with file locks, an
origin to fall back on and no eviction. -/
def Ctx.consumer : Ctx where
  h := true
  consManagedPath := true
  tracked := true
  dotPath := false
  pathFits := true
  sharedStorage := false
  useFsLocks := true
  fsyncWrite := false
  serviceMux := 1
  nodeIdx := 0
  originPath := true
  dtlMode := .fluxRpc
  cachePolicyMode := .none
  cacheCapacityBytes := 0
  cacheLowWatermark := 0
  cacheGracePeriodSec := 0

end Dyad
