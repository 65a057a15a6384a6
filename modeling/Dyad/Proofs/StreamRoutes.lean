import Dyad.Proofs.SetUp
import Dyad.Stream.StreamCore

/-!
# Where the two routes of a stream core agree

An object of parameters and an environment that says the same can still be
passed on differently. A managed path that is not given is an empty string to
`dyad_init` on the one route, which refuses it, and `NULL` on the other, which
does without it. A namespace that is not given is an empty name on the one and
an error on the other. And only the route of the parameters turns the file
locks off where the descriptor of a C++ stream cannot be had.

With both managed paths given the set-up depends on the same things on both
routes, and the contexts come out equal up to the locks.
-/

namespace Dyad

variable {b : Build} {host : Host} {atof : CString → Double} {p : DyadParams}
  {e : Env}

/-- The environment says what the parameters say. A string that is not given
is the empty one, and a variable that is not set leaves its default; there is
no parameter for the health check. -/
structure Equivalent (atof : CString → Double) (p : DyadParams) (e : Env) :
    Prop where
  debug : e.syncDebug.isSome = p.debug
  check : e.syncCheck = none
  sharedStorage : e.sharedStorage.isSome = p.sharedStorage
  reinit : e.reinit.isSome = p.reinit
  asyncPublish : e.asyncPublish.isSome = p.asyncPublish
  fsyncWrite : e.fsyncWrite.isSome = p.fsyncWrite
  keyDepth : e.keyDepth.elim 3 atoiUnsigned = p.keyDepth
  keyBins : e.keyBins.elim 1024 atoiUnsigned = p.keyBins
  serviceMux : e.serviceMux.elim 1 atoiUnsigned = p.serviceMux
  kvsNamespace : e.kvsNamespace.getD [] = p.kvsNamespace
  consumer : e.pathConsumer.getD [] = p.consManagedPath
  producer : e.pathProducer.getD [] = p.prodManagedPath
  relative : e.pathRelative.isSome = p.relativeToManagedPath
  dtlMode : e.dtlMode.getD (dtlModeName (some .fluxRpc)) =
    dtlModeName p.dtlMode
  cacheCapacity : e.cacheCapacity.elim 0 strtoull = p.cacheCapacityBytes
  cachePolicy : e.cachePolicy.getD (cachePolicyName .lru) = p.cachePolicy
  watermark : e.cacheLowWatermark.elim defaultLowWatermark atof =
    p.cacheLowWatermark
  grace : e.cacheGracePeriod.elim 5 atoiUnsigned = p.cacheGracePeriodSec
  origin : e.pathOrigin.getD [] = p.originPath

/-- The initialisation succeeded. -/
def StreamInit.succeeded : StreamInit → Bool
  | .done rc _ _ => !rc.isError
  | .crashed => false

/-- Both fail, or both succeed with the same context and the same core. -/
def RoutesAgree (x y : StreamInit) : Prop :=
  x.succeeded = false ∧ y.succeeded = false ∨
    x.succeeded = true ∧ y.succeeded = true ∧ x = y

/-- Both managed paths are given. -/
def DyadParams.PathsGiven (p : DyadParams) : Prop :=
  p.prodManagedPath ≠ [] ∧ p.consManagedPath ≠ []

/-- The condition: with both managed paths given, a set-up that everything is
there for needs the namespace's variable set and a build that has the
descriptors; with one missing, which the parameters' route never accepts, the
environment has to lack something too. -/
def RoutesMeet (b : Build) (host : Host) (atof : CString → Double)
    (p : DyadParams) (e : Env) : Prop :=
  host.mallocCtx = true →
    (p.PathsGiven → Provides b host (paramsArgs p) →
      e.kvsNamespace.isSome = true ∧ b.hasStdFstreamFd = true) ∧
    (¬ p.PathsGiven →
      ¬ (envArgs atof e .recv none).pathless = true ∧
        ¬ Provides b host (envArgs atof e .recv none))

/-! ## Each route on its own -/

/-- A fresh call returns `DYAD_RC_OK` exactly where there is a context to fill
and, with a managed path, everything the set-up depends on. -/
theorem dyadInit_fresh_ok {r : InitArgs} {c : DyadCtx}
    (hpath : r.pathless = false) :
    dyadInit b host r none = .returned .ok c ↔
      host.mallocCtx = true ∧ Provides b host r ∧
        c = { configured b host r with reenter := true } := by
  rw [dyadInit_fresh]
  cases host.mallocCtx with
  | true =>
    rw [if_pos rfl, setUp_eq_ok hpath]
    exact (and_iff_right rfl).symm
  | false => exact ⟨fun h => (nomatch h), fun h => nomatch h.1⟩

/-- The parameters' route, where everything is there. -/
theorem initParams_succeeds (hmalloc : host.mallocCtx = true)
    (hprovides : Provides b host (paramsArgs p)) :
    StreamCore.new.initParams b host p none =
      .done .ok
        (some { configured b host (paramsArgs p) with
          reenter := true
          useFsLocks := b.hasStdFstreamFd })
        { ctx := true
          initialized := true
          isProd := p.prodManagedPath.length ≠ 0
          isCons := p.consManagedPath.length ≠ 0 } := by
  rw [StreamCore.initParams,
    (dyadInit_fresh_ok rfl).2 ⟨hmalloc, hprovides, rfl⟩]
  rfl

theorem initParams_fails (h : ¬ (host.mallocCtx = true ∧
    Provides b host (paramsArgs p))) :
    (StreamCore.new.initParams b host p none).succeeded = false := by
  rw [StreamCore.initParams]
  split
  · rfl
  · rename_i rc c hret
    have hrc : rc ≠ .ok := by
      rintro rfl
      obtain ⟨hmalloc, hprovides, _⟩ := (dyadInit_fresh_ok rfl).1 hret
      exact h ⟨hmalloc, hprovides⟩
    rw [← Rc.isError_iff] at hrc
    simp [StreamInit.succeeded, hrc]

/-- The environment's route returns what `dyad_init` does, up to the flags of a
context it could not set up. -/
theorem initEnv_fresh (reinit : Bool) :
    StreamCore.new.initEnv b host atof e reinit none =
      match dyadCtxInit b host atof e .recv none none with
      | .crashed => .crashed
      | .returned rc c =>
        .done rc (some c) (({ StreamCore.new with ctx := true }).envRoles e) := by
  rw [StreamCore.initEnv]
  cases reinit || e.reinit.isSome <;> rfl

/-- The environment's route, where everything is there. -/
theorem initEnv_succeeds (reinit : Bool) (hmalloc : host.mallocCtx = true)
    (hpath : (envArgs atof e .recv none).pathless = false)
    (hprovides : Provides b host (envArgs atof e .recv none)) :
    StreamCore.new.initEnv b host atof e reinit none =
      .done .ok
        (some { configured b host (envArgs atof e .recv none) with
          reenter := true })
        (({ StreamCore.new with ctx := true }).envRoles e) := by
  rw [initEnv_fresh, dyadCtxInit, dyadInitEnv,
    (dyadInit_fresh_ok hpath).2 ⟨hmalloc, hprovides, rfl⟩]
  rfl

theorem initEnv_fails (reinit : Bool)
    (hpath : (envArgs atof e .recv none).pathless = false)
    (h : ¬ (host.mallocCtx = true ∧
      Provides b host (envArgs atof e .recv none))) :
    (StreamCore.new.initEnv b host atof e reinit none).succeeded = false := by
  rw [initEnv_fresh, dyadCtxInit, dyadInitEnv]
  split
  · rfl
  · rename_i rc c hret
    split at hret
    · cases hret
    · rename_i rc' c' hinit
      have hrc : rc' ≠ .ok := by
        rintro rfl
        obtain ⟨hmalloc, hprovides, _⟩ := (dyadInit_fresh_ok hpath).1 hinit
        exact h ⟨hmalloc, hprovides⟩
      rw [if_pos ((Rc.isError_iff rc').2 hrc)] at hret
      obtain rfl := (InitResult.returned.inj hret).1
      rw [← Rc.isError_iff] at hrc
      simp [StreamInit.succeeded, hrc]

/-- With neither path there is nothing to set up, and that is a success. -/
theorem initEnv_pathless (reinit : Bool) (hmalloc : host.mallocCtx = true)
    (hpath : (envArgs atof e .recv none).pathless = true) :
    (StreamCore.new.initEnv b host atof e reinit none).succeeded = true := by
  have hret : dyadInit b host (envArgs atof e .recv none) none =
      .returned .ok { dyadCtxDefault with reenter := true } := by
    rw [dyadInit_fresh, if_pos hmalloc, setUp, if_pos hpath]
    rfl
  rw [initEnv_fresh, dyadCtxInit, dyadInitEnv, hret]
  rfl

/-- No context, no success. -/
theorem routes_crash (reinit : Bool) (hmalloc : host.mallocCtx = false) :
    (StreamCore.new.initEnv b host atof e reinit none).succeeded = false := by
  have hret : dyadInit b host (envArgs atof e .recv none) none = .crashed := by
    rw [dyadInit_fresh, hmalloc]
    rfl
  rw [initEnv_fresh, dyadCtxInit, dyadInitEnv, hret]
  rfl

/-! ## The two routes side by side -/

/-- A managed path that is not given is refused. -/
theorem paramsArgs_refused (h : ¬ p.PathsGiven) :
    ¬ Provides b host (paramsArgs p) := by
  intro hprovides
  exact h ⟨(hprovides.prod _ rfl).1, (hprovides.cons _ rfl).1⟩

theorem eq_some_of_getD {path : CString} {x : Option CString}
    (h : x.getD [] = path) (hne : path ≠ []) : x = some path := by
  cases x with
  | none => exact absurd h.symm hne
  | some y => exact congrArg some h

/-- With both paths given, the two routes call `dyad_init` alike but for the
namespace and the way an origin path is left out. -/
theorem envArgs_eq (heq : Equivalent atof p e) (hp : p.PathsGiven) :
    envArgs atof e .recv none =
      { paramsArgs p with
        kvsNamespace := e.kvsNamespace
        originPath := e.pathOrigin } := by
  rw [envArgs, paramsArgs, heq.debug, heq.check, heq.sharedStorage, heq.reinit,
    heq.asyncPublish, heq.fsyncWrite, heq.keyDepth, heq.keyBins,
    heq.serviceMux, eq_some_of_getD heq.producer hp.1,
    eq_some_of_getD heq.consumer hp.2, heq.relative, heq.dtlMode,
    heq.cacheCapacity, heq.cachePolicy, heq.watermark, heq.grace]
  rfl

theorem origin_eq (heq : Equivalent atof p e) :
    e.pathOrigin.filter (fun path => path.length ≠ 0) =
      (paramsArgs p).origin := by
  rw [InitArgs.origin, paramsArgs, ← heq.origin]
  cases e.pathOrigin with
  | none => rfl
  | some path => cases path <;> rfl

theorem provides_env_iff (heq : Equivalent atof p e) (hp : p.PathsGiven) :
    Provides b host (envArgs atof e .recv none) ↔
      e.kvsNamespace.isSome = true ∧ Provides b host (paramsArgs p) := by
  rw [envArgs_eq heq hp]
  have horigin := origin_eq heq
  constructor
  · rintro ⟨hflux, hrank, hns, hcopied, ho, hdtl, hpolicy, hprod, hcons⟩
    refine ⟨hns, hflux, hrank, rfl, hcopied, ?_, hdtl, hpolicy, hprod, hcons⟩
    rw [← horigin]
    exact ho
  · rintro ⟨hns, hflux, hrank, _, hcopied, ho, hdtl, hpolicy, hprod, hcons⟩
    refine ⟨hflux, hrank, hns, hcopied, ?_, hdtl, hpolicy, hprod, hcons⟩
    rw [← horigin] at ho
    exact ho

/-- The contexts are the same once the namespace is given. -/
theorem configured_env (heq : Equivalent atof p e) (hp : p.PathsGiven)
    (hns : e.kvsNamespace.isSome = true) :
    configured b host (envArgs atof e .recv none) =
      configured b host (paramsArgs p) := by
  obtain ⟨name, hname⟩ := Option.isSome_iff_exists.1 hns
  have hsame : e.kvsNamespace = some p.kvsNamespace := by
    rw [← heq.kvsNamespace, hname]
    rfl
  have horigin := origin_eq heq
  rw [envArgs_eq heq hp, hsame]
  show { configured b host (paramsArgs p) with
    originPath := e.pathOrigin.filter fun path => path.length ≠ 0 } = _
  rw [horigin]
  rfl

theorem envRoles_eq (heq : Equivalent atof p e) (hp : p.PathsGiven) :
    ({ StreamCore.new with ctx := true }).envRoles e =
      { ctx := true
        initialized := true
        isProd := p.prodManagedPath.length ≠ 0
        isCons := p.consManagedPath.length ≠ 0 } := by
  rw [StreamCore.envRoles, eq_some_of_getD heq.producer hp.1,
    eq_some_of_getD heq.consumer hp.2]
  rfl

theorem pathless_env (heq : Equivalent atof p e) (hp : p.PathsGiven) :
    (envArgs atof e .recv none).pathless = false := by
  rw [envArgs_eq heq hp]
  rfl

/-- Where both routes succeed, they leave the same exactly where the build has
the descriptors. -/
theorem succeeded_same_iff (heq : Equivalent atof p e) (hp : p.PathsGiven)
    (reinit : Bool) (hmalloc : host.mallocCtx = true)
    (hns : e.kvsNamespace.isSome = true)
    (hprovides : Provides b host (paramsArgs p)) :
    StreamCore.new.initParams b host p none =
        StreamCore.new.initEnv b host atof e reinit none ↔
      b.hasStdFstreamFd = true := by
  rw [initParams_succeeds hmalloc hprovides,
    initEnv_succeeds reinit hmalloc (pathless_env heq hp)
      ((provides_env_iff heq hp).2 ⟨hns, hprovides⟩),
    configured_env heq hp hns, envRoles_eq heq hp]
  constructor
  · intro h
    have hctx := Option.some.inj (StreamInit.done.inj h).2.1
    exact congrArg DyadCtx.useFsLocks hctx
  · intro h
    rw [h]
    rfl

/-- With both managed paths given. -/
theorem routes_agree_given (heq : Equivalent atof p e) (hp : p.PathsGiven)
    (reinit : Bool) (hmalloc : host.mallocCtx = true) :
    RoutesAgree (StreamCore.new.initParams b host p none)
        (StreamCore.new.initEnv b host atof e reinit none) ↔
      (Provides b host (paramsArgs p) →
        e.kvsNamespace.isSome = true ∧ b.hasStdFstreamFd = true) := by
  have hpath := pathless_env heq hp
  by_cases hprovides : Provides b host (paramsArgs p)
  · have hleft := initParams_succeeds hmalloc hprovides
    have hok : (StreamCore.new.initParams b host p none).succeeded = true := by
      rw [hleft]
      rfl
    cases hns : e.kvsNamespace.isSome with
    | true =>
      have hsame := succeeded_same_iff heq hp reinit hmalloc hns hprovides
      constructor
      · rintro (⟨hfail, _⟩ | ⟨_, _, h⟩)
        · exact absurd (hfail.symm.trans hok) nofun
        · exact fun _ => ⟨rfl, hsame.1 h⟩
      · intro h
        have hres := hsame.2 (h hprovides).2
        exact Or.inr ⟨hok, hres ▸ hok, hres⟩
    | false =>
      refine iff_of_false ?_ fun h => nomatch (h hprovides).1
      have hright :
          (StreamCore.new.initEnv b host atof e reinit none).succeeded =
            false :=
        initEnv_fails reinit hpath fun h =>
          nomatch hns.symm.trans ((provides_env_iff heq hp).1 h.2).1
      rintro (⟨hfail, _⟩ | ⟨_, hok', _⟩)
      · exact absurd (hfail.symm.trans hok) nofun
      · exact absurd (hright.symm.trans hok') nofun
  · refine iff_of_true (Or.inl ⟨?_, ?_⟩) fun h => absurd h hprovides
    · exact initParams_fails fun h => hprovides h.2
    · exact initEnv_fails reinit hpath fun h =>
        hprovides ((provides_env_iff heq hp).1 h.2).2

/-- With a managed path missing. The parameters' route fails. -/
theorem routes_agree_missing (hp : ¬ p.PathsGiven) (reinit : Bool)
    (hmalloc : host.mallocCtx = true) :
    RoutesAgree (StreamCore.new.initParams b host p none)
        (StreamCore.new.initEnv b host atof e reinit none) ↔
      ¬ (envArgs atof e .recv none).pathless = true ∧
        ¬ Provides b host (envArgs atof e .recv none) := by
  have hleft : (StreamCore.new.initParams b host p none).succeeded = false :=
    initParams_fails fun h => paramsArgs_refused hp h.2
  have hfails : RoutesAgree (StreamCore.new.initParams b host p none)
      (StreamCore.new.initEnv b host atof e reinit none) ↔
        (StreamCore.new.initEnv b host atof e reinit none).succeeded =
          false := by
    constructor
    · rintro (⟨_, hfail⟩ | ⟨hok, _⟩)
      · exact hfail
      · exact absurd (hleft.symm.trans hok) nofun
    · exact fun hfail => Or.inl ⟨hleft, hfail⟩
  rw [hfails]
  cases hpath : (envArgs atof e .recv none).pathless with
  | true =>
    refine iff_of_false (fun h => ?_) fun h => h.1 rfl
    exact absurd (h.symm.trans (initEnv_pathless reinit hmalloc hpath)) nofun
  | false =>
    constructor
    · refine fun h => ⟨Bool.false_ne_true, fun hprovides => ?_⟩
      rw [initEnv_succeeds reinit hmalloc hpath hprovides] at h
      exact absurd h nofun
    · exact fun h => initEnv_fails reinit hpath fun hok => h.2 hok.2

/-- The two routes agree exactly under the condition. -/
theorem routes_agree_iff (b : Build) (host : Host) (atof : CString → Double)
    (p : DyadParams) (e : Env) (reinit : Bool) (heq : Equivalent atof p e) :
    RoutesAgree (StreamCore.new.initParams b host p none)
        (StreamCore.new.initEnv b host atof e reinit none) ↔
      RoutesMeet b host atof p e := by
  cases hmalloc : host.mallocCtx with
  | false =>
    refine iff_of_true (Or.inl ⟨initParams_fails ?_, routes_crash _ hmalloc⟩) ?_
    · exact fun h => nomatch hmalloc.symm.trans h.1
    · exact fun h => nomatch hmalloc.symm.trans h
  | true =>
    by_cases hp : p.PathsGiven
    · rw [routes_agree_given heq hp reinit hmalloc]
      constructor
      · exact fun h _ => ⟨fun _ => h, fun hnp => absurd hp hnp⟩
      · exact fun h => (h hmalloc).1 hp
    · rw [routes_agree_missing hp reinit hmalloc]
      constructor
      · exact fun h _ => ⟨fun hgiven => absurd hgiven hp, fun _ => h⟩
      · exact fun h => (h hmalloc).2 hp

/-! ## A producer, and a producer that consumes -/

/-- Parameters with a namespace and these managed paths. -/
def DyadParams.between (prod cons : CString) : DyadParams where
  debug := false
  sharedStorage := true
  reinit := false
  asyncPublish := false
  fsyncWrite := false
  keyDepth := 2
  keyBins := 256
  serviceMux := 1
  dtlMode := some .fluxRpc
  kvsNamespace := ['n']
  consManagedPath := cons
  prodManagedPath := prod
  relativeToManagedPath := false
  cacheCapacityBytes := 0
  cachePolicy := cachePolicyName .none
  cacheLowWatermark := defaultLowWatermark
  cacheGracePeriodSec := 5
  originPath := []

/-- The environment that says the same. -/
def Env.between (prod cons : Option CString) : Env where
  syncDebug := none
  syncCheck := none
  sharedStorage := some ['1']
  reinit := none
  asyncPublish := none
  fsyncWrite := none
  keyDepth := some ['2']
  keyBins := some ['2', '5', '6']
  serviceMux := none
  kvsNamespace := some ['n']
  pathConsumer := cons
  pathProducer := prod
  pathRelative := none
  dtlMode := none
  cacheCapacity := none
  cachePolicy := some (cachePolicyName .none)
  cacheLowWatermark := none
  cacheGracePeriod := none
  pathOrigin := none

/-- They do say the same. -/
theorem between_equivalent (atof : CString → Double)
    (prod cons : Option CString) :
    Equivalent atof (.between (prod.getD []) (cons.getD []))
      (.between prod cons) where
  debug := rfl
  check := rfl
  sharedStorage := rfl
  reinit := rfl
  asyncPublish := rfl
  fsyncWrite := rfl
  keyDepth := show atoiUnsigned ['2'] = 2 by decide
  keyBins := show atoiUnsigned ['2', '5', '6'] = 256 by decide
  serviceMux := rfl
  kvsNamespace := rfl
  consumer := rfl
  producer := rfl
  relative := rfl
  dtlMode := rfl
  cacheCapacity := rfl
  cachePolicy := rfl
  watermark := rfl
  grace := rfl
  origin := rfl

/-- With a producer and a consumer path the routes agree. -/
theorem routes_agree_between :
    RoutesAgree
      (StreamCore.new.initParams .fluxOnly .serving
        (.between ['/', 'p'] ['/', 'c']) none)
      (StreamCore.new.initEnv .fluxOnly .serving (fun _ => 0)
        (.between (some ['/', 'p']) (some ['/', 'c'])) false none) := by
  refine (routes_agree_iff _ _ _ _ _ false (between_equivalent _
    (some ['/', 'p']) (some ['/', 'c']))).2 fun _ => ⟨fun _ _ => ⟨rfl, rfl⟩, ?_⟩
  exact fun h => absurd ⟨nofun, nofun⟩ h

/-- A process that only produces: the parameters' route fails, and the
environment's succeeds. -/
theorem routes_differ_for_producer :
    ¬ ∀ (b : Build) (host : Host) (atof : CString → Double) (p : DyadParams)
      (e : Env) (reinit : Bool), Equivalent atof p e →
      RoutesAgree (StreamCore.new.initParams b host p none)
        (StreamCore.new.initEnv b host atof e reinit none) := by
  intro h
  have hagree := h .fluxOnly .serving (fun _ => 0) _ _ false
    (between_equivalent _ (some ['/', 'p']) none)
  rcases hagree with ⟨_, hfail⟩ | ⟨hok, _⟩
  · exact absurd hfail (by decide)
  · exact absurd hok (by decide)

end Dyad
