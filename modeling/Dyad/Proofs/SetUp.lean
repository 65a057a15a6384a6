import Dyad.Core.Init

/-!
# When the set-up succeeds, and what it leaves

Each step of the set-up has one lemma: the condition under which it goes on
and the context it goes on with. Chained, they say when the whole set-up
succeeds (`Provides`, a condition on the arguments and on what the system
decides) and that the context is then `configured`, written out in full.
-/

namespace Dyad

variable {b : Build} {host : Host} {r : InitArgs} {ctx ctx' : DyadCtx}

theorem bind_eq_ok {ε α β : Type} {x : Except ε α} {f : α → Except ε β}
    {y : β} : x.bind f = .ok y ↔ ∃ a, x = .ok a ∧ f a = .ok y := by
  cases x <;> simp [Except.bind]

/-! ## What was asked for -/

/-- The Flux handle of the request. -/
def InitArgs.flux (r : InitArgs) : FluxHandle :=
  match r.fluxHandle with
  | some handle => .given handle
  | none => .opened

/-- The mode of the request. -/
def InitArgs.mode (r : InitArgs) : Option DtlMode := r.dtlModeStr.bind dtlModeOf

/-- The policy of the request: none without a capacity. -/
def InitArgs.policy (r : InitArgs) : Option CachePolicyMode :=
  (cachePolicyOf (cachePolicyArg r)).map fun mode =>
    if r.cacheCapacityBytes = 0 then .none else mode

/-- The multiplexing of the request, one at least. -/
def InitArgs.mux (r : InitArgs) : UInt32 :=
  if r.serviceMux < 1 then 1 else r.serviceMux

/-- The origin path of the request, which an empty one is not. -/
def InitArgs.origin (r : InitArgs) : Option CString :=
  r.originPath.filter fun path => path.length ≠ 0

/-! ## When a step goes on -/

/-- The transport starts. -/
def DtlStarts (b : Build) (host : Host) : DtlMode → Prop
  | .ucx => b.enableUcxDtl = true ∧ host.ucxInit = .ok
  | .margo => b.enableMargoDtl = true ∧ host.margoInit = .ok
  | .fluxRpc => host.mallocFluxDtl = true

/-- The policy starts. -/
def PolicyStarts (host : Host) (mode : CachePolicyMode) : Prop :=
  mode = .none ∨ host.mallocPolicyData = true

/-- What is stored of the resolved form of a managed path. -/
def storedReal (realpath : CString → Option CString) (path : CString) :
    Option CString :=
  (realpath path).filter fun real => real.length ≠ 0 ∧ ¬ path <+: real

/-- A managed path can be stored: it is not empty, its forms hash to something
else than zero, and there is memory for them. -/
def PathProvided (b : Build) (realpath : CString → Option CString)
    (host : PathHost) (path : CString) : Prop :=
  path ≠ [] ∧ host.callocManaged = true ∧ hashStr b.hash path dyadSeed ≠ 0 ∧
    ∀ real, storedReal realpath path = some real →
      host.callocReal = true ∧ hashStr b.hash real dyadSeed ≠ 0

/-- Everything the set-up depends on is there. -/
structure Provides (b : Build) (host : Host) (r : InitArgs) : Prop where
  flux : r.fluxHandle = none → host.fluxOpen = true
  rank : host.fluxGetRank.isSome = true
  namespaceGiven : r.kvsNamespace.isSome = true
  namespaceCopied : host.callocNamespace = true
  origin : r.origin.isSome = true → host.callocOrigin = true
  dtl : ∃ mode, r.mode = some mode ∧ host.mallocDtl = true ∧
    DtlStarts b host mode
  policy : ∃ mode, r.policy = some mode ∧ host.mallocCachePolicy = true ∧
    PolicyStarts host mode
  prod : ∀ path, r.prodManagedPath = some path →
    PathProvided b host.realpath host.prod path
  cons : ∀ path, r.consManagedPath = some path →
    PathProvided b host.realpath host.cons path

/-! ## What a step leaves -/

/-- A managed path as it is stored. -/
def storedPath (b : Build) (realpath : CString → Option CString) :
    Option CString → ManagedPath
  | none => .unset
  | some path =>
    { managedPath := some path
      realPath := storedReal realpath path
      managedLen := UInt32.ofNat path.length
      realLen := (storedReal realpath path).elim 0 fun real =>
        UInt32.ofNat real.length
      managedHash := hashStr b.hash path dyadSeed
      realHash := (storedReal realpath path).elim 0 fun real =>
        hashStr b.hash real dyadSeed }

/-- The context a set-up that succeeds leaves. -/
def configured (b : Build) (host : Host) (r : InitArgs) : DyadCtx where
  h := some r.flux
  dtlHandle := r.mode.map fun mode =>
    { mode := mode, backend := some (r.dtlCommMode, r.debug) }
  useFsLocks := true
  prod := storedPath b host.realpath r.prodManagedPath
  cons := storedPath b host.realpath r.consManagedPath
  delimLen := pathDelim.length
  debug := r.debug
  check := r.check
  reenter := false
  initialized := true
  sharedStorage := r.sharedStorage
  asyncPublish := r.asyncPublish
  fsyncWrite := r.fsyncWrite
  keyDepth := r.keyDepth
  keyBins := r.keyBins
  rank := host.fluxGetRank.getD 0
  serviceMux := r.mux
  nodeIdx := host.fluxGetRank.getD 0 / r.mux
  pid := host.getpid
  kvsNamespace := r.kvsNamespace
  relativeToManagedPath := r.relativeToManagedPath
  cachePolicy := r.policy.map fun mode => ⟨mode, mode ≠ .none⟩
  cachePolicyMode := r.policy.getD .none
  cacheCapacityBytes := r.cacheCapacityBytes
  cacheLowWatermarkFrac := r.cacheLowWatermark
  cacheGracePeriodSec := r.cacheGracePeriodSec
  originPath := r.origin

/-! ## The steps -/

/-- A pair with an error code is not one with `DYAD_RC_OK`. -/
theorem rc_ne_ok {α : Type} {rc : Rc} {x y : α} {Q : Prop} (hrc : rc ≠ .ok)
    (hQ : ¬ Q) : (rc, x) = (.ok, y) ↔ Q :=
  ⟨fun h => absurd (Prod.mk.inj h).1 hrc, fun h => absurd h hQ⟩

theorem rc_eq_ok {α : Type} {x y z : α} {Q : Prop} (hQ : Q) (hx : x = z) :
    (Rc.ok, x) = (.ok, y) ↔ Q ∧ y = z := by
  subst hx
  constructor
  · intro h
    exact ⟨hQ, (Prod.mk.inj h).2.symm⟩
  · rintro ⟨_, rfl⟩
    rfl

/-- A step that goes on. -/
theorem step_goes {x y : DyadCtx} {Q : Prop} (hQ : Q) (hx : x = y) :
    (Except.ok x : Except InitExit DyadCtx) = .ok ctx' ↔ Q ∧ ctx' = y := by
  subst hx
  constructor
  · intro h
    exact ⟨hQ, (Except.ok.inj h).symm⟩
  · rintro ⟨_, rfl⟩
    rfl

/-- A step that does not. -/
theorem step_stops {e : InitExit} {Q R : Prop} (hQ : ¬ Q) :
    (Except.error e : Except InitExit DyadCtx) = .ok ctx' ↔ Q ∧ R :=
  ⟨fun h => (nomatch h), fun h => absurd h.1 hQ⟩

theorem setManagedPath_eq_ok {realpath : CString → Option CString}
    {host : PathHost} {path : Option CString} {m : ManagedPath} :
    setManagedPath b realpath host path = (.ok, m) ↔
      (∀ p, path = some p → PathProvided b realpath host p) ∧
        m = storedPath b realpath path := by
  cases path with
  | none => exact rc_eq_ok nofun rfl
  | some p =>
    simp only [Option.some.injEq, forall_eq']
    rw [setManagedPath]
    dsimp only
    split
    · rename_i hlen
      refine rc_ne_ok nofun fun h => h.1.1 ?_
      exact List.length_eq_zero_iff.1 hlen
    rename_i hlen
    have hne : p ≠ [] := fun h => hlen (List.length_eq_zero_iff.2 h)
    split
    · rename_i hcalloc
      refine rc_ne_ok nofun fun h => ?_
      rw [h.1.2.1] at hcalloc
      exact absurd hcalloc nofun
    rename_i hcalloc
    have hcalloc : host.callocManaged = true := by simpa using hcalloc
    split
    · rename_i hhash
      exact rc_ne_ok nofun fun h => h.1.2.2.1 hhash
    rename_i hhash
    split
    · rename_i hsame
      -- the path resolves to nothing, or to something it is a prefix of
      have hdrop : storedReal realpath p = none := by
        rw [storedReal, Option.filter_eq_none_iff]
        intro real hreal
        rw [hreal] at hsame
        simpa [imp_iff_not_or] using hsame
      refine rc_eq_ok ⟨hne, hcalloc, hhash, ?_⟩ ?_
      · intro real hreal
        rw [hdrop] at hreal
        exact absurd hreal nofun
      · rw [storedPath, hdrop]
        rfl
    rename_i hsame
    obtain ⟨real, hreal⟩ : ∃ real, realpath p = some real := by
      cases hreal : realpath p with
      | none => exact absurd (Or.inl (by rw [hreal]; rfl)) hsame
      | some real => exact ⟨real, rfl⟩
    rw [hreal, Option.getD_some] at hsame ⊢
    have hkeep : storedReal realpath p = some real := by
      rw [storedReal, hreal, Option.filter_some, if_pos]
      simpa [not_or] using hsame
    split
    · rename_i hcallocReal
      refine rc_ne_ok nofun fun h => ?_
      rw [(h.1.2.2.2 real hkeep).1] at hcallocReal
      exact absurd hcallocReal nofun
    rename_i hcallocReal
    split
    · rename_i hrealHash
      exact rc_ne_ok nofun fun h => (h.1.2.2.2 real hkeep).2 hrealHash
    · rename_i hrealHash
      refine rc_eq_ok ⟨hne, hcalloc, hhash, ?_⟩ ?_
      · intro real' hreal'
        obtain rfl := Option.some.inj (hkeep.symm.trans hreal')
        exact ⟨by simpa using hcallocReal, hrealHash⟩
      · rw [storedPath, hkeep]
        rfl

theorem openFlux_eq_ok :
    openFlux host r ctx = .ok ctx' ↔
      (r.fluxHandle = none → host.fluxOpen = true) ∧
        ctx' = { ctx with h := some r.flux } := by
  rw [openFlux, InitArgs.flux]
  cases r.fluxHandle with
  | some handle => exact step_goes nofun rfl
  | none =>
    cases host.fluxOpen with
    | true => exact step_goes (fun _ => rfl) rfl
    | false => exact step_stops fun h => nomatch h rfl

theorem getRank_eq_ok :
    getRank host r ctx = .ok ctx' ↔
      host.fluxGetRank.isSome = true ∧
        ctx' = { ctx with
          rank := host.fluxGetRank.getD 0
          serviceMux := r.mux
          nodeIdx := host.fluxGetRank.getD 0 / r.mux
          pid := host.getpid } := by
  rw [getRank, InitArgs.mux]
  cases host.fluxGetRank with
  | none => exact step_stops nofun
  | some rank => exact step_goes rfl rfl

theorem copyNamespace_eq_ok :
    copyNamespace host r ctx = .ok ctx' ↔
      (r.kvsNamespace.isSome = true ∧ host.callocNamespace = true) ∧
        ctx' = { ctx with kvsNamespace := r.kvsNamespace } := by
  rw [copyNamespace]
  cases r.kvsNamespace with
  | none => exact step_stops fun h => nomatch h.1
  | some name =>
    cases host.callocNamespace with
    | true => exact step_goes ⟨rfl, rfl⟩ rfl
    | false => exact step_stops fun h => nomatch h.2

theorem copyOrigin_eq_ok :
    copyOrigin host r ctx = .ok ctx' ↔
      (r.origin.isSome = true → host.callocOrigin = true) ∧
        ctx' = { ctx with originPath := r.origin } := by
  rw [copyOrigin, InitArgs.origin]
  cases r.originPath with
  | none => exact step_goes nofun rfl
  | some path =>
    by_cases hempty : path = []
    · subst hempty
      exact step_goes nofun rfl
    · have hkeep :
          (some path).filter (fun path => path.length ≠ 0) = some path := by
        simp [hempty]
      rw [hkeep]
      dsimp only
      rw [if_neg fun h => hempty (List.length_eq_zero_iff.1 h)]
      cases host.callocOrigin with
      | true => exact step_goes (fun _ => rfl) rfl
      | false => exact step_stops fun h => nomatch h rfl

/-- The transport is in place exactly where it starts. -/
theorem dyadDtlInit_eq_ok {mode : DtlMode} {commMode : CommMode}
    {debug : Bool} :
    dyadDtlInit b host ctx mode commMode debug = (.ok, ctx') ↔
      (host.mallocDtl = true ∧ DtlStarts b host mode) ∧
        ctx' = { ctx with
          dtlHandle := some
            { mode := mode, backend := some (commMode, debug) } } := by
  rw [dyadDtlInit]
  cases hmalloc : host.mallocDtl with
  | false => exact rc_ne_ok nofun fun h => nomatch h.1.1
  | true =>
    cases mode with
    | ucx =>
      cases henable : b.enableUcxDtl with
      | false =>
        exact rc_ne_ok nofun fun h => nomatch henable.symm.trans h.1.2.1
      | true =>
        by_cases hrc : host.ucxInit = .ok
        · rw [if_neg nofun]
          dsimp only
          rw [if_pos rfl, hrc]
          exact rc_eq_ok ⟨rfl, henable, hrc⟩ rfl
        · exact rc_ne_ok hrc fun h => hrc h.1.2.2
    | margo =>
      cases henable : b.enableMargoDtl with
      | false =>
        exact rc_ne_ok nofun fun h => nomatch henable.symm.trans h.1.2.1
      | true =>
        by_cases hrc : host.margoInit = .ok
        · rw [if_neg nofun]
          dsimp only
          rw [if_pos rfl, hrc]
          exact rc_eq_ok ⟨rfl, henable, hrc⟩ rfl
        · exact rc_ne_ok hrc fun h => hrc h.1.2.2
    | fluxRpc =>
      cases hflux : host.mallocFluxDtl with
      | true => exact rc_eq_ok ⟨rfl, hflux⟩ rfl
      | false => exact rc_ne_ok nofun fun h => nomatch hflux.symm.trans h.1.2

/-- A function that returns a code and a context, as a step. -/
theorem step_of_rc {p : Rc × DyadCtx} :
    (let (rc, ctx) := p
     if rc.isError then (Except.error (.failed rc ctx) : Except InitExit DyadCtx)
      else .ok ctx) = .ok ctx' ↔ p = (.ok, ctx') := by
  obtain ⟨rc, ctx⟩ := p
  by_cases hrc : rc = .ok
  · subst hrc
    constructor
    · intro h
      exact congrArg (Prod.mk Rc.ok) (Except.ok.inj h)
    · rintro ⟨⟩
      rfl
  · dsimp only
    rw [if_pos ((Rc.isError_iff rc).2 hrc)]
    exact ⟨fun h => (nomatch h), fun h => absurd (Prod.mk.inj h).1 hrc⟩

theorem dyadSetAndInitDtlMode_eq_ok {name : Option CString}
    {commMode : CommMode} :
    dyadSetAndInitDtlMode b host ctx name commMode = (.ok, ctx') ↔
      (∃ mode, name.bind dtlModeOf = some mode ∧ host.mallocDtl = true ∧
        DtlStarts b host mode) ∧
        ctx' = { ctx with
          dtlHandle := (name.bind dtlModeOf).map fun mode =>
            { mode := mode, backend := some (commMode, ctx.debug) } } := by
  unfold dyadSetAndInitDtlMode
  cases name.bind dtlModeOf with
  | none => exact rc_ne_ok nofun fun h => nomatch h.1
  | some mode =>
    refine dyadDtlInit_eq_ok.trans ?_
    simp only [Option.some.injEq, exists_eq_left', Option.map_some]

theorem initDtl_eq_ok :
    initDtl b host r ctx = .ok ctx' ↔
      (∃ mode, r.mode = some mode ∧ host.mallocDtl = true ∧
        DtlStarts b host mode) ∧
        ctx' = { ctx with
          dtlHandle := r.mode.map fun mode =>
            { mode := mode, backend := some (r.dtlCommMode, ctx.debug) } } := by
  exact step_of_rc.trans dyadSetAndInitDtlMode_eq_ok

/-- The policy is in place exactly where it starts. -/
theorem dyadCachePolicyInit_eq_ok {mode : CachePolicyMode} :
    dyadCachePolicyInit host ctx mode = (.ok, ctx') ↔
      (host.mallocCachePolicy = true ∧ PolicyStarts host mode) ∧
        ctx' = { ctx with cachePolicy := some ⟨mode, mode ≠ .none⟩ } := by
  rw [dyadCachePolicyInit]
  cases host.mallocCachePolicy with
  | false => exact rc_ne_ok nofun fun h => nomatch h.1.1
  | true =>
    by_cases hmode : mode = .none
    · subst hmode
      exact rc_eq_ok ⟨rfl, Or.inl rfl⟩ rfl
    · rw [if_neg nofun, if_neg hmode]
      cases hdata : host.mallocPolicyData with
      | true =>
        refine rc_eq_ok ⟨rfl, Or.inr hdata⟩ ?_
        simp [hmode]
      | false =>
        refine rc_ne_ok nofun ?_
        rintro ⟨⟨_, hstart⟩, _⟩
        exact hstart.elim hmode fun h => nomatch hdata.symm.trans h

theorem dyadSetAndInitCachePolicy_eq_ok {name : CString} {capacity : UInt64} :
    dyadSetAndInitCachePolicy host ctx (some name) capacity = (.ok, ctx') ↔
      (∃ mode, (cachePolicyOf name).map (fun mode =>
          if capacity = 0 then .none else mode) = some mode ∧
        host.mallocCachePolicy = true ∧ PolicyStarts host mode) ∧
        ctx' = { ctx with
          cachePolicyMode := ((cachePolicyOf name).map fun mode =>
            if capacity = 0 then .none else mode).getD .none
          cachePolicy := ((cachePolicyOf name).map fun mode =>
            if capacity = 0 then .none else mode).map fun mode =>
              ⟨mode, mode ≠ .none⟩ } := by
  unfold dyadSetAndInitCachePolicy
  rw [Option.bind_some]
  cases cachePolicyOf name with
  | none => exact rc_ne_ok nofun fun h => nomatch h.1
  | some mode =>
    refine dyadCachePolicyInit_eq_ok.trans ?_
    simp only [Option.some.injEq, exists_eq_left', Option.map_some,
      Option.getD_some]

theorem initCachePolicy_eq_ok :
    initCachePolicy host r ctx = .ok ctx' ↔
      (∃ mode, r.policy = some mode ∧ host.mallocCachePolicy = true ∧
        PolicyStarts host mode) ∧
        ctx' = { ctx with
          cachePolicyMode := r.policy.getD .none
          cachePolicy := r.policy.map fun mode => ⟨mode, mode ≠ .none⟩ } := by
  exact step_of_rc.trans dyadSetAndInitCachePolicy_eq_ok

theorem setPaths_eq_ok :
    setPaths b host r ctx = .ok ctx' ↔
      ((∀ path, r.prodManagedPath = some path →
          PathProvided b host.realpath host.prod path) ∧
        ∀ path, r.consManagedPath = some path →
          PathProvided b host.realpath host.cons path) ∧
        ctx' = { ctx with
          prod := storedPath b host.realpath r.prodManagedPath
          cons := storedPath b host.realpath r.consManagedPath } := by
  unfold setPaths dyadSetProdPath dyadSetConsPath
  have hprod :=
    @setManagedPath_eq_ok b host.realpath host.prod r.prodManagedPath
  have hcons :=
    @setManagedPath_eq_ok b host.realpath host.cons r.consManagedPath
  generalize setManagedPath b host.realpath host.prod r.prodManagedPath = p
    at hprod ⊢
  generalize setManagedPath b host.realpath host.cons r.consManagedPath = p'
    at hcons ⊢
  obtain ⟨rc, m⟩ := p
  obtain ⟨rc', m'⟩ := p'
  dsimp only
  by_cases hrc : rc = .ok
  · subst hrc
    obtain ⟨hpok, rfl⟩ := hprod.1 rfl
    rw [if_neg fun h => h rfl]
    by_cases hrc' : rc' = .ok
    · subst hrc'
      obtain ⟨hcok, rfl⟩ := hcons.1 rfl
      rw [if_neg fun h => h rfl]
      exact step_goes ⟨hpok, hcok⟩ rfl
    · rw [if_pos hrc']
      exact step_stops fun h => hrc' (Prod.mk.inj (hcons.2 ⟨h.2, rfl⟩)).1
  · rw [if_pos hrc]
    exact step_stops fun h => hrc (Prod.mk.inj (hprod.2 ⟨h.1, rfl⟩)).1

/-- The set-up succeeds exactly where everything it depends on is there, and
the context it leaves is written out. -/
theorem configure_eq_ok :
    configure b host r dyadCtxDefault = .ok ctx' ↔
      Provides b host r ∧ ctx' = configured b host r := by
  simp only [configure, bind, bind_eq_ok]
  constructor
  · rintro ⟨ctx₀, h₀, ctx₁, h₁, ctx₂, h₂, ctx₃, h₃, ctx₄, h₄, ctx₅, h₅, ctx₆, h₆,
      ctx₇, h₇, ctx₈, h₈, h₉⟩
    obtain ⟨hflux, rfl⟩ := openFlux_eq_ok.1 h₂
    obtain ⟨hrank, rfl⟩ := getRank_eq_ok.1 h₃
    obtain ⟨⟨hgiven, hcopied⟩, rfl⟩ := copyNamespace_eq_ok.1 h₄
    obtain ⟨horigin, rfl⟩ := copyOrigin_eq_ok.1 h₅
    obtain ⟨hdtl, rfl⟩ := initDtl_eq_ok.1 h₆
    obtain ⟨hpolicy, rfl⟩ := initCachePolicy_eq_ok.1 h₇
    obtain ⟨⟨hprod, hcons⟩, rfl⟩ := setPaths_eq_ok.1 h₈
    obtain rfl := Except.ok.inj h₁
    obtain rfl := Except.ok.inj h₀
    refine ⟨⟨hflux, hrank, hgiven, hcopied, horigin, hdtl, hpolicy, hprod,
      hcons⟩, ?_⟩
    exact (Except.ok.inj h₉).symm
  · rintro ⟨h, rfl⟩
    exact ⟨_, rfl, _, rfl, _, openFlux_eq_ok.2 ⟨h.flux, rfl⟩, _,
      getRank_eq_ok.2 ⟨h.rank, rfl⟩, _,
      copyNamespace_eq_ok.2 ⟨⟨h.namespaceGiven, h.namespaceCopied⟩, rfl⟩, _,
      copyOrigin_eq_ok.2 ⟨h.origin, rfl⟩, _, initDtl_eq_ok.2 ⟨h.dtl, rfl⟩, _,
      initCachePolicy_eq_ok.2 ⟨h.policy, rfl⟩, _,
      setPaths_eq_ok.2 ⟨⟨h.prod, h.cons⟩, rfl⟩, rfl⟩

/-! ## A set-up that reports success -/

/-- The step goes through `init_region_finish` with an error only. -/
def Reports : Except InitExit DyadCtx → Prop
  | .error (.finish rc _) => rc = .fluxfail
  | _ => True

theorem Reports.bind {x : Except InitExit DyadCtx} {f : InitStep}
    (hx : Reports x) (hf : ∀ c, Reports (f c)) : Reports (x.bind f) := by
  cases x with
  | error e => exact hx
  | ok c => exact hf c

theorem configure_reports : Reports (configure b host r ctx) := by
  have hflux (c) : Reports (openFlux host r c) := by
    unfold openFlux
    split
    · exact True.intro
    · split
      · exact True.intro
      · rfl
  have hrank (c) : Reports (getRank host r c) := by
    unfold getRank
    split
    · rfl
    · exact True.intro
  have hns (c) : Reports (copyNamespace host r c) := by
    unfold copyNamespace
    split
    · exact True.intro
    · split <;> exact True.intro
  have horigin (c) : Reports (copyOrigin host r c) := by
    unfold copyOrigin
    split
    · exact True.intro
    · split
      · exact True.intro
      · split <;> exact True.intro
  have hdtl (c) : Reports (initDtl b host r c) := by
    unfold initDtl
    dsimp only
    split <;> exact True.intro
  have hpolicy (c) : Reports (initCachePolicy host r c) := by
    unfold initCachePolicy
    dsimp only
    split <;> exact True.intro
  have hpaths (c) : Reports (setPaths b host r c) := by
    unfold setPaths
    dsimp only
    split
    · exact True.intro
    · split <;> exact True.intro
  unfold configure
  exact Reports.bind (x := checkDelim ctx) True.intro fun c =>
    Reports.bind (x := setPlain r c) True.intro fun c =>
    (hflux c).bind fun c => (hrank c).bind fun c => (hns c).bind fun c =>
    (horigin c).bind fun c => (hdtl c).bind fun c => (hpolicy c).bind fun c =>
    (hpaths c).bind fun _ => True.intro

theorem setUp_eq_ok (hpath : r.pathless = false) :
    setUp b host r = .returned .ok ctx' ↔
      Provides b host r ∧ ctx' = { configured b host r with reenter := true } := by
  rw [setUp, if_neg (by rw [hpath]; exact Bool.false_ne_true)]
  split
  · rename_i c hc
    obtain ⟨hprovides, rfl⟩ := configure_eq_ok.1 hc
    constructor
    · intro h
      exact ⟨hprovides, (InitResult.returned.inj h).2.symm⟩
    · rintro ⟨_, rfl⟩
      rfl
  · rename_i rc c hc
    have hfail : Reports (configure b host r dyadCtxDefault) := configure_reports
    rw [hc] at hfail
    refine ⟨fun h => ?_, fun h => ?_⟩
    · exact absurd (hfail.symm.trans (InitResult.returned.inj h).1) nofun
    · exact nomatch hc.symm.trans (configure_eq_ok.2 ⟨h.1, rfl⟩)
  · rename_i rc c hc
    refine ⟨fun h => ?_, fun h => ?_⟩
    · exact absurd (InitResult.returned.inj h).1 nofun
    · exact nomatch hc.symm.trans (configure_eq_ok.2 ⟨h.1, rfl⟩)

/-- In a process without a context, `dyad_init` allocates one and sets it
up. -/
theorem dyadInit_fresh :
    dyadInit b host r none =
      if host.mallocCtx then setUp b host r else .crashed := by
  rw [dyadInit, allocate]
  cases r.reinit <;> rfl

/-! ## A host -/

/-- A build with the Flux RPC only. -/
def Build.fluxOnly : Build where
  hash _ _ := 0
  enableUcxDtl := false
  enableMargoDtl := false
  hasStdFstreamFd := true

/-- A host where every step succeeds. -/
def Host.serving : Host where
  mallocCtx := true
  fluxOpen := true
  fluxGetRank := some 0
  getpid := 100
  callocNamespace := true
  callocOrigin := true
  mallocDtl := true
  mallocFluxDtl := true
  ucxInit := .ok
  margoInit := .ok
  mallocCachePolicy := true
  mallocPolicyData := true
  realpath _ := none
  prod := ⟨true, true⟩
  cons := ⟨true, true⟩

end Dyad
