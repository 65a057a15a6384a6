import Dyad.Conc.Lts
import Dyad.Proofs.SetUp

/-!
# Which calls of `dyad_init` can be trusted

A process calls `dyad_init` and `dyad_finalize` in any order, and every step
inside a call may fail. A call is honest when a success with a managed path
leaves a context set up for the configuration it was given, and when no success
after a failed call comes from skipping the set-up.

A call that does not skip the set-up is always honest: every step that fails
leaves through a label that reports an error. A call that skips it trusts the
flag `initialized` of the context it finds. But the defaults carry the flag set,
and every way out of a failed call leaves the defaults or a context built on
them, so the flag says nothing about the set-up. What a call needs is that the
context it finds is in fact the one it asks for, and that it was not left by a
call that failed.
-/

namespace Dyad

open Conc

variable {b : Build} {host : Host} {r : InitArgs} {c : DyadCtx}

/-! ## A context that is set up -/

/-- The context keeps this managed path, with its length and its hash. -/
def ManagedPath.Holds (b : Build) (m : ManagedPath) : Option CString → Prop
  | none => m = .unset
  | some path =>
    path ≠ [] ∧ m.managedPath = some path ∧
      m.managedLen = UInt32.ofNat path.length ∧
      m.managedHash = hashStr b.hash path dyadSeed ∧ m.managedHash ≠ 0

/-- A call that goes on ends as the set-up does, or crashes. -/
theorem dyadInit_of_goes {ctx : Option DyadCtx}
    (hgoes : skipsSetUp r ctx = false) :
    dyadInit b host r ctx = .crashed ∨ dyadInit b host r ctx = setUp b host r := by
  have halloc (ctx : Option DyadCtx) : allocate b host r ctx = .crashed ∨
      allocate b host r ctx = setUp b host r := by
    unfold allocate
    dsimp only
    split
    · exact Or.inr rfl
    · split
      · exact Or.inr rfl
      · exact Or.inl rfl
  cases ctx with
  | none => exact halloc none
  | some c =>
    rw [dyadInit, if_neg (by rw [hgoes]; exact Bool.false_ne_true)]
    exact halloc (some c)

/-! ## A process -/

/-- The context of a process, and whether its last call of `dyad_init` that
did not skip the set-up failed. -/
structure Process where
  ctx : Option DyadCtx
  failed : Bool

/-- A process that has made no call. -/
def Process.fresh : Process := ⟨none, false⟩

/-- The calls a process makes. -/
inductive InitCall
  | init (host : Host) (r : InitArgs)
  | finalize

/-- One call. A process that crashes makes no other. -/
def Process.next (b : Build) (p : Process) : InitCall → Option Process
  | .init host r =>
    match dyadInit b host r p.ctx with
    | .crashed => none
    | .returned rc ctx =>
      some ⟨some ctx,
        if rc.isError then true
        else if skipsSetUp r p.ctx then p.failed else false⟩
  | .finalize => some ⟨dyadFinalize p.ctx, p.failed⟩

/-- The calls of a process, one after the other. -/
def process (b : Build) : Lts Process InitCall where
  init p := p = Process.fresh
  next := Process.next b

/-- A producer of files under `/p`. -/
def InitArgs.producer : InitArgs where
  debug := false
  check := false
  sharedStorage := false
  reinit := false
  asyncPublish := false
  fsyncWrite := false
  keyDepth := 3
  keyBins := 1024
  serviceMux := 1
  kvsNamespace := some ['n']
  prodManagedPath := some ['/', 'p']
  consManagedPath := none
  relativeToManagedPath := false
  dtlModeStr := some (dtlModeName (some .fluxRpc))
  dtlCommMode := .recv
  fluxHandle := none
  cacheCapacityBytes := 0
  cachePolicyStr := none
  cacheLowWatermark := defaultLowWatermark
  cacheGracePeriodSec := 5
  originPath := none

end Dyad
