import Dyad.Proofs.InitHonest
import Dyad.Wrapper.WrapperOps

/-!
# What is unset does no harm, or does

`dyad_init` can leave a process without a context, or with one that has no Flux
handle, no producer-managed path or no consumer-managed path. Which entry
points keep clear of what is missing?

Either managed path of a context that is reached is unset in all its fields or
set in all of them, which is what makes the tests for a null path enough. With
it, what the client does is harmless wherever there is a context at all. Two
places have no test. The wrappers of `open` and `fopen` look a file that was
opened for writing up among the producer's without asking whether there are
any, and the functions of the client mark the context as reentrant behind the
label that a missing context jumps to.
-/

namespace Dyad.PathOps

open Conc

/-! ## The contexts that are reached -/

/-- A managed path is unset, or set as `dyad_set_prod_path` leaves it. -/
def PathKept (m : ManagedPath) : Prop := m = .unset ∨ m.Set

/-- Both managed paths of a context are kept so. -/
structure PathsKept (c : DyadCtx) : Prop where
  prod : PathKept c.prod
  cons : PathKept c.cons

theorem kept_default : PathsKept dyadCtxDefault := ⟨Or.inl rfl, Or.inl rfl⟩

theorem storedPath_kept {b : Build} {realpath : CString → Option CString}
    {path : Option CString} : PathKept (storedPath b realpath path) := by
  cases path with
  | none => exact Or.inl rfl
  | some path =>
    refine Or.inr ⟨by simp [storedPath], fun hreal hnone => ?_⟩
    -- without a resolved form the length is zero
    simp only [storedPath] at hreal hnone
    rw [hnone] at hreal
    exact absurd hreal (by decide)

/-- A step leaves a context with its paths kept, wherever the set-up goes on
with it or returns it. -/
def Leaves : Except InitExit DyadCtx → Prop
  | .ok c => PathsKept c
  | .error (.finish _ c) => PathsKept c
  | .error (.failed ..) => True

theorem Leaves.bind {x : Except InitExit DyadCtx} {f : InitStep}
    (hx : Leaves x) (hf : ∀ c, PathsKept c → Leaves (f c)) : Leaves (x.bind f) := by
  cases x with
  | ok c => exact hf c hx
  | error e => exact hx

variable {b : Build} {host : Host} {r : InitArgs} {c : DyadCtx}

theorem openFlux_leaves (hc : PathsKept c) : Leaves (openFlux host r c) := by
  unfold openFlux
  split
  · exact ⟨hc.prod, hc.cons⟩
  · split
    · exact ⟨hc.prod, hc.cons⟩
    · exact ⟨hc.prod, hc.cons⟩

theorem getRank_leaves (hc : PathsKept c) : Leaves (getRank host r c) := by
  unfold getRank
  split
  · exact hc
  · exact ⟨hc.prod, hc.cons⟩

theorem copyNamespace_leaves (hc : PathsKept c) :
    Leaves (copyNamespace host r c) := by
  unfold copyNamespace
  split
  · exact True.intro
  · split
    · exact ⟨hc.prod, hc.cons⟩
    · exact True.intro

theorem copyOrigin_leaves (hc : PathsKept c) : Leaves (copyOrigin host r c) := by
  unfold copyOrigin
  split
  · exact ⟨hc.prod, hc.cons⟩
  · split
    · exact ⟨hc.prod, hc.cons⟩
    · split
      · exact ⟨hc.prod, hc.cons⟩
      · exact True.intro

/-- A step that leaves through `init_region_failed` or goes on leaves the paths
kept where it goes on. -/
theorem leaves_of_ok {x : Except InitExit DyadCtx}
    (hfails : ∀ rc c, x ≠ .error (.finish rc c))
    (hok : ∀ c, x = .ok c → PathsKept c) : Leaves x := by
  cases x with
  | ok c => exact hok c rfl
  | error e =>
    cases e with
    | finish rc c => exact absurd rfl (hfails rc c)
    | failed rc c => exact True.intro

theorem initDtl_leaves (hc : PathsKept c) : Leaves (initDtl b host r c) := by
  refine leaves_of_ok (fun rc c' h => ?_) fun c' h => ?_
  · unfold initDtl at h
    dsimp only at h
    split at h <;> cases h
  · obtain ⟨-, rfl⟩ := initDtl_eq_ok.1 h
    exact ⟨hc.prod, hc.cons⟩

theorem initCachePolicy_leaves (hc : PathsKept c) :
    Leaves (initCachePolicy host r c) := by
  refine leaves_of_ok (fun rc c' h => ?_) fun c' h => ?_
  · unfold initCachePolicy at h
    dsimp only at h
    split at h <;> cases h
  · obtain ⟨-, rfl⟩ := initCachePolicy_eq_ok.1 h
    exact ⟨hc.prod, hc.cons⟩

/-- Where both paths are stored, both are stored whole. -/
theorem setPaths_leaves : Leaves (setPaths b host r c) := by
  refine leaves_of_ok (fun rc c' h => ?_) fun c' h => ?_
  · unfold setPaths at h
    dsimp only at h
    split at h
    · cases h
    · split at h <;> cases h
  · obtain ⟨-, rfl⟩ := setPaths_eq_ok.1 h
    exact ⟨storedPath_kept, storedPath_kept⟩

theorem configure_leaves (hc : PathsKept c) : Leaves (configure b host r c) := by
  unfold configure
  refine Leaves.bind (x := checkDelim c) ⟨hc.prod, hc.cons⟩ fun c hc => ?_
  refine Leaves.bind (x := setPlain r c) ⟨hc.prod, hc.cons⟩ fun c hc => ?_
  refine (openFlux_leaves hc).bind fun c hc => ?_
  refine (getRank_leaves hc).bind fun c hc => ?_
  refine (copyNamespace_leaves hc).bind fun c hc => ?_
  refine (copyOrigin_leaves hc).bind fun c hc => ?_
  refine (initDtl_leaves hc).bind fun c hc => ?_
  refine (initCachePolicy_leaves hc).bind fun c _ => ?_
  exact setPaths_leaves.bind fun c hc => ⟨hc.prod, hc.cons⟩

/-- The context a call returns, if it returns. -/
def Returned : InitResult → Prop
  | .crashed => True
  | .returned _ c => PathsKept c

theorem setUp_kept : Returned (setUp b host r) := by
  unfold setUp
  dsimp only
  split
  · exact ⟨kept_default.prod, kept_default.cons⟩
  · have hleaves : Leaves (configure b host r dyadCtxDefault) :=
      configure_leaves kept_default
    split
    · next c hc =>
      rw [hc] at hleaves
      exact ⟨hleaves.prod, hleaves.cons⟩
    · next rc c hc =>
      rw [hc] at hleaves
      exact ⟨hleaves.prod, hleaves.cons⟩
    · next rc c hc =>
      unfold regionFailed
      dsimp only
      split
      · exact ⟨Or.inl rfl, Or.inl rfl⟩
      · exact kept_default

theorem dyadInit_kept {ctx : Option DyadCtx} (hctx : ∀ c ∈ ctx, PathsKept c) :
    Returned (dyadInit b host r ctx) := by
  cases hskip : skipsSetUp r ctx with
  | false =>
    have hgoes : dyadInit b host r ctx = .crashed ∨
        dyadInit b host r ctx = setUp b host r := dyadInit_of_goes hskip
    rcases hgoes with h | h
    · rw [h]
      exact True.intro
    · rw [h]
      exact setUp_kept
  | true =>
    cases ctx with
    | none => cases hskip
    | some c =>
      have hc : PathsKept c := hctx c rfl
      rw [dyadInit, if_pos hskip]
      exact ⟨hc.prod, hc.cons⟩

/-- Whatever a process has called before, and whatever failed. -/
theorem kept_of_reach {p : Process}
    (hp : (process b).Reach (fun _ _ => True) p) : ∀ c ∈ p.ctx, PathsKept c := by
  refine hp.invariant (P := fun p => ∀ c ∈ p.ctx, PathsKept c) ?_ ?_
  · rintro s rfl c hc
    cases hc
  · rintro s l s' hs - hnext c hc
    cases l with
    | init host r =>
      have hret : Returned (dyadInit b host r s.ctx) := dyadInit_kept hs
      simp only [process, Process.next] at hnext
      split at hnext
      · cases hnext
      · next rc c' h =>
        rw [h] at hret
        obtain rfl := Option.some.inj hnext
        obtain rfl := Option.some.inj hc
        exact hret
    | finalize =>
      obtain rfl := Option.some.inj hnext
      cases hctx : s.ctx with
      | none =>
        rw [hctx] at hc
        cases hc
      | some c' =>
        rw [hctx] at hc
        cases hc

/-! ## The client, where there is a context -/

section

variable {hash : CString → UInt32 → UInt32}
  {realpath : CString → Option CString}

/-- The program follows no null pointer. -/
abbrev Follows {α : Type} (p : PathProgram α) : Prop :=
  p.All fun c => c ≠ .nullDeref

theorem follows_perform {c : Call} (hc : c ≠ .nullDeref) :
    Follows (perform c) :=
  ⟨hc, fun _ => True.intro⟩

theorem follows_fill (n : Nat) : Follows (fill n) := by
  unfold fill
  split
  · exact True.intro
  · exact ⟨by simp, fun r => r.elim⟩

theorem follows_cstr (buf : CString) : Follows (cstr buf) := by
  unfold cstr
  split
  · exact True.intro
  · exact ⟨by simp, fun r => r.elim⟩

theorem follows_joinPath (base upath : CString) :
    Follows (joinPath (some base) upath) := by
  refine .step (by simp) fun _ => .bind (follows_fill _) fun _ => ?_
  dsimp only
  split
  · exact .bind (follows_fill _) fun _ => True.intro
  · exact True.intro

theorem follows_userPath {m : ManagedPath} (hm : m.Set) (relative : Bool)
    (fname : CString) : Follows (userPath hash realpath m relative fname) := by
  unfold userPath
  split
  · exact .bind (follows_fill _) fun _ => True.intro
  · obtain ⟨o, ho, -⟩ : ∃ o, cmpCanonicalPathPrefix hash realpath m fname
        pathMax = some o ∧ ∀ u ∈ o, u.length + 1 ≤ pathMax :=
      cmpCanonicalPathPrefix_set hm
    simp only [ho, follow, Prog.pure_eq, Prog.bind_eq, Prog.pure_bind]
    cases o with
    | none => exact True.intro
    | some upath => exact .bind (follows_fill _) fun _ => True.intro

theorem follows_dyadCommit {c : DyadCtx} (hm : c.prod.Set) (fname : CString) :
    Follows (dyadCommit hash realpath c fname) := by
  refine .bind (follows_userPath hm _ _) fun upath => ?_
  split
  · exact True.intro
  · exact .bind (follows_cstr _) fun _ => follows_perform (by simp)

theorem follows_dyadProduce {c : DyadCtx} (hc : PathsKept c) (fname : CString) :
    Follows (dyadProduce hash realpath (some c) fname) := by
  unfold dyadProduce
  simp only [follow, Prog.pure_eq, Prog.bind_eq, Prog.pure_bind]
  split
  · exact True.intro
  · split
    · exact True.intro
    · next hset =>
      obtain ⟨dir, hdir⟩ := Option.ne_none_iff_exists'.1 (by simpa using hset)
      have hm : c.prod.Set := hc.prod.resolve_left fun h => by
        rw [h] at hdir
        cases hdir
      refine .bind (follows_dyadCommit hm fname) fun rc => ?_
      split
      · exact True.intro
      · rw [hdir]
        exact .step (by simp) fun _ => True.intro

theorem follows_consumeDone (rc : Rc) : Follows (consumeDone rc) := by
  refine .step (by simp) fun closed => ?_
  split <;> exact True.intro

theorem follows_consumeUnlock (rc : Rc) : Follows (consumeUnlock rc) :=
  .step (by simp) fun _ => follows_consumeDone rc

theorem follows_dyadFetchMetadata (upath : CString) :
    Follows (dyadFetchMetadata upath) :=
  .bind (follows_cstr _) fun _ => follows_perform (by simp)

variable {c : DyadCtx} {dir : CString}

theorem follows_consumeStored (hdir : c.cons.managedPath = some dir) (rc : Rc) :
    Follows (consumeStored c rc) := by
  unfold consumeStored
  rw [hdir]
  exact .step (by simp) fun _ => .step (by simp) fun _ => follows_consumeDone rc

theorem follows_dyadConsStore (hdir : c.cons.managedPath = some dir)
    (fpath : CString) : Follows (dyadConsStore c fpath) := by
  unfold dyadConsStore
  rw [hdir]
  refine .bind (follows_joinPath _ _) fun path => ?_
  refine .bind (follows_fill _) fun _ => ?_
  dsimp only
  split
  · exact follows_perform (by simp)
  · refine .step (by simp) fun made => ?_
    split
    · exact True.intro
    · exact follows_perform (by simp)

theorem follows_consumeShared (upath : CString) (fileSize : Int) :
    Follows (consumeShared c upath fileSize) := by
  refine .step (by simp) fun _ => ?_
  split
  · refine .bind (follows_dyadFetchMetadata _) fun mdata => ?_
    split <;> exact follows_consumeDone _
  · exact follows_consumeDone _

theorem follows_consumeFetch (hdir : c.cons.managedPath = some dir)
    (fname upath : CString) : Follows (consumeFetch c fname upath) := by
  refine .step (by simp) fun rc => ?_
  split
  · exact follows_consumeUnlock _
  · refine .step (by simp) fun opened => ?_
    split
    · refine .bind (follows_dyadConsStore hdir _) fun rc => ?_
      refine .step (by simp) fun closed => ?_
      split
      · split
        · exact follows_consumeUnlock _
        · exact follows_consumeStored hdir _
      · exact follows_consumeUnlock _
    · exact True.intro

theorem follows_consumeLocal (hdir : c.cons.managedPath = some dir)
    (fname upath : CString) (fileSize : Int) :
    Follows (consumeLocal c fname upath fileSize) := by
  unfold consumeLocal
  split
  · refine .bind (follows_dyadFetchMetadata _) fun mdata => ?_
    split
    · exact follows_consumeUnlock _
    · exact follows_consumeUnlock _
    · exact follows_consumeFetch hdir _ _
  · exact follows_consumeStored hdir _

theorem follows_consumeLocked (hdir : c.cons.managedPath = some dir)
    (fname upath : CString) : Follows (consumeLocked c fname upath) := by
  refine .step (by simp) fun rc => ?_
  split
  · exact follows_consumeUnlock _
  · refine .step (by simp) fun fileSize => ?_
    split
    · exact follows_consumeShared _ _
    · exact follows_consumeLocal hdir _ _ _

/-- Behind the tests, the consumer-managed path is set. -/
theorem PathsKept.cons_set (hc : PathsKept c) (h : ¬ c.cons.managedPath.isNone) :
    c.cons.Set ∧ ∃ dir, c.cons.managedPath = some dir := by
  obtain ⟨dir, hdir⟩ := Option.ne_none_iff_exists'.1 (by simpa using h)
  refine ⟨hc.cons.resolve_left fun hunset => ?_, dir, hdir⟩
  rw [hunset] at hdir
  cases hdir

/-- The end of each consume finds the context. -/
theorem follows_consumeClose {p : PathProgram Rc} (hp : Follows p) :
    Follows (p.bind fun rc => consumeClose (some c) rc) :=
  .bind hp fun _ => True.intro

theorem follows_dyadConsume (hc : PathsKept c) (fname : CString) :
    Follows (dyadConsume hash realpath (some c) fname) := by
  refine follows_consumeClose ?_
  dsimp only [consumeBody]
  split
  · exact True.intro
  · split
    · exact True.intro
    · next hset =>
      obtain ⟨hm, dir, hdir⟩ := hc.cons_set hset
      refine .bind (follows_userPath hm _ _) fun upath => ?_
      split
      · exact True.intro
      · refine .step (by simp) fun opened => ?_
        split
        · exact follows_consumeLocked hdir _ _
        · exact True.intro

theorem follows_consumeGiveUp (rc : Rc) : Follows (consumeGiveUp rc) :=
  .step (by simp) fun _ => True.intro

theorem follows_consumeWMetadataLocked (hdir : c.cons.managedPath = some dir)
    (fname fpath : CString) :
    Follows (consumeWMetadataLocked c fname fpath) := by
  refine .step (by simp) fun rc => ?_
  split
  · exact follows_consumeGiveUp _
  · refine .step (by simp) fun fileSize => ?_
    split
    · refine .step (by simp) fun rc => ?_
      split
      · exact follows_consumeGiveUp _
      · refine .step (by simp) fun opened => ?_
        split
        · refine .bind (follows_dyadConsStore hdir _) fun rc => ?_
          refine .step (by simp) fun closed => ?_
          split
          · split
            · exact follows_consumeGiveUp _
            · exact follows_consumeStored hdir _
          · exact follows_consumeGiveUp _
        · exact True.intro
    · exact follows_consumeStored hdir _

theorem follows_dyadConsumeWMetadata (hc : PathsKept c) (fname : CString)
    (mdata : Option CString) :
    Follows (dyadConsumeWMetadata (some c) fname mdata) := by
  refine follows_consumeClose ?_
  dsimp only [consumeWMetadataBody]
  split
  · exact True.intro
  · split
    · exact True.intro
    · split
      · exact True.intro
      · next hset =>
        obtain ⟨-, dir, hdir⟩ := hc.cons_set hset
        refine .step (by simp) fun opened => ?_
        split
        · exact follows_consumeWMetadataLocked hdir _ _
        · exact True.intro

theorem follows_consumeRangeRead : Follows consumeRangeRead := by
  refine .step (by simp) fun rc => ?_
  split
  · exact .step (by simp) fun _ => True.intro
  · refine .step (by simp) fun allocated => ?_
    split
    · refine .step (by simp) fun complete => ?_
      exact .step (by simp) fun _ => .step (by simp) fun _ => True.intro
    · exact .step (by simp) fun _ => .step (by simp) fun _ => True.intro

theorem follows_joinOrigin (upath : CString) :
    Follows (joinOrigin c upath) := by
  unfold joinOrigin
  split
  · exact True.intro
  · exact .bind (follows_joinPath _ _) fun _ => True.intro

theorem follows_ensureRange (fullpath : CString) (origin : Option CString) :
    Follows (ensureRange fullpath origin) := by
  cases origin with
  | none => exact True.intro
  | some originFullpath => exact follows_perform (by simp)

theorem follows_consumeRangeLocal (hdir : c.cons.managedPath = some dir)
    (upath : CString) : Follows (consumeRangeLocal c upath) := by
  unfold consumeRangeLocal
  rw [hdir]
  refine .bind (follows_joinPath _ _) fun fullpath => ?_
  refine .bind (follows_joinOrigin _) fun origin => ?_
  refine .bind (follows_ensureRange _ _) fun rc => ?_
  split
  · exact True.intro
  · refine .step (by simp) fun opened => ?_
    split
    · exact follows_consumeRangeRead
    · exact True.intro

theorem follows_dyadConsumeRange (hc : PathsKept c) (fname : CString) :
    Follows (dyadConsumeRange hash realpath (some c) fname) := by
  refine follows_consumeClose ?_
  dsimp only [consumeRangeBody]
  split
  · exact True.intro
  · split
    · exact True.intro
    · next hset =>
      obtain ⟨hm, dir, hdir⟩ := hc.cons_set hset
      split
      · exact True.intro
      · refine .bind (follows_userPath hm _ _) fun upath => ?_
        split
        · exact True.intro
        · refine .bind (follows_dyadFetchMetadata _) fun mdata => ?_
          split
          · exact True.intro
          · exact follows_consumeRangeLocal hdir _
          · exact follows_perform (by simp)

end

end Dyad.PathOps

namespace Dyad.WrapperOps

open Conc PathOps

variable {hash : CString → UInt32 → UInt32}
  {realpath : CString → Option CString} {ctx : Option DyadCtx} {α : Type}

/-! ## What a wrapper does beside the real call -/

/-- A harmless call, and not the real one. -/
def Quiet (ctx : Option DyadCtx) (c : Call) : Prop :=
  c.Harmless ctx ∧ c ≠ .real

theorem quiet_client {p : PathProgram α} (hp : Follows p) :
    (client p).All (Quiet ctx) := by
  induction p with
  | pure a => exact True.intro
  | call c k ih => exact ⟨⟨hp.1, by simp⟩, fun r => ih r (hp.2 r)⟩

theorem reals_cons {c : Call} (hc : c ≠ .real) (r : c.Res)
    (h : List (Prog.Event Call.Res)) : reals (⟨c, r⟩ :: h) = reals h := by
  cases c with
  | real => exact absurd rfl hc
  | _ => rfl

/-- Such calls leave what the real functions returned as it is. -/
theorem wp_quiet {p : Program α} (hp : p.All (Quiet ctx))
    (h : List (Prog.Event Call.Res)) :
    p.wp (fun _ _ _ => True) (fun _ c => c.Harmless ctx)
      (fun h' _ => reals h' = reals h) h := by
  refine Prog.wp_of_all (P := fun h' => reals h' = reals h)
    (fun _ _ hc => hc.1) (fun h' c r hh hc _ => ?_) hp rfl
  rw [reals_cons hc.2]
  exact hh

theorem quiet_openSync (hctx : ∀ c ∈ ctx, PathsKept c) (path : CString) :
    (openSync hash realpath ctx path).All (Quiet ctx) := by
  refine .step ⟨True.intro, by simp⟩ fun dir => ?_
  split
  · exact True.intro
  · split
    · exact True.intro
    · next c =>
      split
      · exact .bind (quiet_client (follows_dyadConsume (hctx c rfl) path))
          fun _ => True.intro
      · exact True.intro

theorem quiet_lockOpened (hset : prodSet ctx = true) (fd : Int) :
    (lockOpened fd).All (Quiet ctx) := by
  refine .step ⟨hset, by simp⟩ fun rc => ?_
  split
  · exact ⟨⟨True.intro, by simp⟩, fun _ => True.intro⟩
  · exact True.intro

/-- With the producer-managed path set, the lookup has something to look the
path up in. -/
theorem quiet_openLock (hctx : ∀ c ∈ ctx, PathsKept c) (hset : prodSet ctx = true)
    (path : CString) {fd : Program Int} (hfd : fd.All (Quiet ctx)) :
    (openLock hash realpath ctx path fd).All (Quiet ctx) := by
  refine .step ⟨True.intro, by simp⟩ fun dir => ?_
  split
  · exact True.intro
  · obtain ⟨c, rfl, hpath⟩ := Option.any_eq_true .. |>.1 hset
    simp only [pointee, Prog.pure_eq, Prog.bind_eq, Prog.pure_bind]
    split
    · exact .bind hfd fun _ => quiet_lockOpened hset _
    · have hm : c.prod.Set := (hctx c rfl).prod.resolve_left fun h => by
        rw [h] at hpath
        cases hpath
      obtain ⟨o, ho, -⟩ : ∃ o, cmpCanonicalPathPrefix hash realpath c.prod path
          pathMax = some o ∧ ∀ u ∈ o, u.length + 1 ≤ pathMax :=
        cmpCanonicalPathPrefix_set hm
      simp only [ho, Prog.pure_bind]
      split
      · exact True.intro
      · exact .bind hfd fun _ => quiet_lockOpened hset _

/-! ## Opening -/

/-- After calls that leave the real ones as they are, the rest goes on. -/
theorem wp_after {β : Type} {p : Program α} {f : α → Program β}
    {Q : List (Prog.Event Call.Res) → β → Prop}
    {h : List (Prog.Event Call.Res)} (hp : p.All (Quiet ctx))
    (hf : ∀ h' a, reals h' = reals h →
      (f a).wp (fun _ _ _ => True) (fun _ c => c.Harmless ctx) Q h') :
    (p.bind f).wp (fun _ _ _ => True) (fun _ c => c.Harmless ctx) Q h :=
  Prog.wp_bind.2 (Prog.wp_imp (wp_quiet hp h) hf)

theorem openReal_once (hctx : ∀ c ∈ ctx, PathsKept c) {path : CString}
    {writeMode : Bool} (hset : writeMode = true → prodSet ctx = true)
    {opened : Int → Bool} {fd : Int → Program Int}
    (hfd : ∀ ret, (fd ret).All (Quiet ctx)) {failure : Int}
    {h : List (Prog.Event Call.Res)} (hh : reals h = []) :
    (openReal hash realpath ctx path writeMode opened fd).wp
      (fun _ _ _ => True) (fun _ c => c.Harmless ctx) (MadeOnce failure) h := by
  refine Prog.wp_step True.intro fun ret _ => ?_
  have hret : reals (⟨.real, ret⟩ :: h) = [ret] := congrArg (ret :: ·) hh
  split
  · next hcond =>
    rw [Bool.and_eq_true] at hcond
    refine wp_after (quiet_openLock hctx (hset hcond.2) path (hfd ret))
      fun h' _ hh' => Or.inl ?_
    rw [hh', hret]
  · exact Or.inl hret

theorem openWrapper_wraps (hctx : ∀ c ∈ ctx, PathsKept c) {path : CString}
    {readMode writeMode : Bool}
    (hset : writeMode = true → prodSet ctx = true) {failure : Int}
    {opened : Int → Bool} {fd : Int → Program Int}
    (hfd : ∀ ret, (fd ret).All (Quiet ctx)) :
    WrapsReal ctx failure (openWrapper hash realpath ctx path readMode writeMode
      failure opened fd) := by
  refine Prog.wp_step True.intro fun found _ => ?_
  cases found with
  | false => exact Or.inr ⟨List.mem_cons_self, rfl, rfl⟩
  | true =>
    rw [if_pos rfl]
    split
    · exact wp_after (quiet_openSync hctx path) fun h' _ hh' =>
        openReal_once hctx hset hfd hh'
    · exact openReal_once hctx hset hfd rfl

/-- The descriptor is obtained, whatever is asked of what follows. -/
def Obtained (ctx : Option DyadCtx) (fd : Program Int) : Prop :=
  ∀ Q h, fd.wp (fun _ _ _ => True) (fun _ c => c.Harmless ctx) Q h →
    ∃ n h', Q h' n

/-- Without the path, a null pointer is followed, or the file is locked as if
it were one of the producer's. -/
theorem openLock_harmful (hctx : ∀ c ∈ ctx, PathsKept c)
    (hset : prodSet ctx = false) {path : CString} {fd : Program Int}
    (hfd : Obtained ctx fd) {Q : List (Prog.Event Call.Res) → Unit → Prop}
    {h : List (Prog.Event Call.Res)} :
    ¬ (openLock hash realpath ctx path fd).wp (fun _ _ _ => True)
      (fun _ c => c.Harmless ctx) Q h := by
  intro hw
  have hlook := hw.2 false True.intro
  cases ctx with
  | none => exact hlook.1
  | some c =>
    have hm : c.prod = .unset := by
      refine (hctx c rfl).prod.resolve_right fun hset' => ?_
      obtain ⟨dir, hdir⟩ := Option.ne_none_iff_exists'.1 hset'.managed
      simp [prodSet, hdir] at hset
    simp only [pointee, Prog.pure_eq, Prog.bind_eq, Prog.pure_bind, hm,
      cmpCanonicalPathPrefix_unset, Bool.false_eq_true, if_false] at hlook
    split at hlook
    · obtain ⟨n, h', hlock⟩ := hfd _ _ (Prog.wp_bind.1 hlook)
      exact Bool.false_ne_true (hset.symm.trans hlock.1)
    · exact hlook.1

theorem openWrapper_not_wraps (hctx : ∀ c ∈ ctx, PathsKept c)
    (hset : prodSet ctx = false) {path : CString} {failure : Int} (ret : Int)
    {opened : Int → Bool} (hopened : opened ret = true)
    {fd : Int → Program Int} (hfd : Obtained ctx (fd ret)) :
    ¬ WrapsReal ctx failure (openWrapper hash realpath ctx path false true
      failure opened fd) := by
  intro hw
  have hlock := (hw.2 true True.intro).2 ret True.intro
  simp only [Prog.pure_bind, hopened, Bool.and_self, if_true] at hlock
  exact openLock_harmful hctx hset hfd (Prog.wp_bind.1 hlock)

/-! ## Closing -/

/-- Up to the test of the access mode no real call is made, and the context
that goes on with a path is the one there is. -/
theorem closeSync_wp (fd : Int) (h : List (Prog.Event Call.Res)) :
    (closeSync ctx fd).wp (fun _ _ _ => True) (fun _ c => c.Harmless ctx)
      (fun h' found => reals h' = reals h ∧ ∀ x ∈ found, ctx = some x.1) h := by
  unfold closeSync
  split
  · exact ⟨rfl, by simp⟩
  · split
    · exact ⟨rfl, by simp⟩
    · next c =>
      split
      · exact ⟨rfl, by simp⟩
      · refine Prog.wp_step True.intro fun dir _ => ?_
        split
        · exact ⟨rfl, by simp⟩
        · refine Prog.wp_step True.intro fun path _ => ⟨rfl, fun x hx => ?_⟩
          obtain ⟨path, -, rfl⟩ := Option.map_eq_some_iff.1 hx
          rfl

theorem quiet_syncWritten {c : DyadCtx} {fd : Int} {flush : Program Unit}
    (hflush : flush.All (Quiet ctx)) :
    (syncWritten c fd flush).All (Quiet ctx) := by
  unfold syncWritten
  split
  · exact .bind hflush fun _ => ⟨⟨True.intro, by simp⟩, fun _ => True.intro⟩
  · exact True.intro

/-- The real call by itself. -/
theorem real_once {failure : Int} {h : List (Prog.Event Call.Res)}
    (hh : reals h = []) :
    (perform .real).wp (fun _ _ _ => True) (fun _ c => c.Harmless ctx)
      (MadeOnce failure) h :=
  ⟨True.intro, fun ret _ => Or.inl (congrArg (ret :: ·) hh)⟩

theorem closeProduced_once {c : DyadCtx} (hctx : ∀ c' ∈ ctx, PathsKept c')
    (hc : ctx = some c) {path : CString} {fd : Int} {flush : Program Unit}
    (hflush : flush.All (Quiet ctx)) {failure : Int}
    {h : List (Prog.Event Call.Res)} (hh : reals h = []) :
    (closeProduced hash realpath c path fd flush).wp (fun _ _ _ => True)
      (fun _ c => c.Harmless ctx) (MadeOnce failure) h := by
  refine wp_after (quiet_syncWritten hflush) fun h' _ hh' => ?_
  refine Prog.wp_step True.intro fun _ _ => ?_
  refine Prog.wp_step True.intro fun ret _ => ?_
  refine wp_after (quiet_client (follows_dyadProduce (hctx c hc) path))
    fun h'' _ hh'' => Or.inl ?_
  exact hh''.trans (congrArg (ret :: ·) (hh'.trans hh))

/-- A close is harmless in any context. -/
theorem closeWrapper_once (hctx : ∀ c ∈ ctx, PathsKept c) {fd : Int}
    {flush : Program Unit} (hflush : flush.All (Quiet ctx)) {failure : Int}
    {h : List (Prog.Event Call.Res)} (hh : reals h = []) :
    (closeWrapper hash realpath ctx fd flush).wp (fun _ _ _ => True)
      (fun _ c => c.Harmless ctx) (MadeOnce failure) h := by
  refine Prog.wp_bind.2 (Prog.wp_imp (closeSync_wp fd h) fun h' found hfound => ?_)
  obtain ⟨hh', hsame⟩ := hfound
  have hnone : reals h' = [] := hh'.trans hh
  split
  · exact Prog.wp_step True.intro fun _ _ => real_once hnone
  · next c path =>
    refine Prog.wp_step True.intro fun wronly _ => ?_
    split
    · exact closeProduced_once hctx (hsame _ rfl) hflush hnone
    · exact real_once hnone

/-- The wrappers of `close` and of `fclose`. -/
theorem close_wraps (hctx : ∀ c ∈ ctx, PathsKept c) {fd : Int}
    {flush : Program Unit} (hflush : flush.All (Quiet ctx)) :
    WrapsReal ctx (-1) (do
      if ← perform .gotchaGetWrappee then
        closeWrapper hash realpath ctx fd flush
      else
        return -1) := by
  refine Prog.wp_step True.intro fun found _ => ?_
  cases found with
  | false => exact Or.inr ⟨List.mem_cons_self, rfl, rfl⟩
  | true => exact closeWrapper_once hctx hflush rfl

/-! ## The functions of the client -/

/-- What is documented depends on the two tests. -/
theorem documented_cases {c : DyadCtx} {pathMissing : DyadCtx → Bool} {rc : Rc}
    (h : documented (some c) pathMissing = some rc) :
    c.h.isNone = true ∧ rc = .noctx ∨
      c.h.isNone = false ∧ pathMissing c = true ∧ rc = .badmanagedpath := by
  cases hflux : c.h.isNone with
  | true =>
    simp only [documented, hflux, if_true, Option.some.injEq] at h
    exact Or.inl ⟨rfl, h.symm⟩
  | false =>
    cases hmissing : pathMissing c with
    | true =>
      simp only [documented, hflux, hmissing, Bool.false_eq_true, if_false,
        if_true, Option.some.injEq] at h
      exact Or.inr ⟨rfl, rfl, h.symm⟩
    | false =>
      simp [documented, hflux, hmissing] at h

theorem dyadProduce_reports {c : DyadCtx} {rc : Rc} (fname : CString)
    (h : documented (some c) (·.prod.managedPath.isNone) = some rc) :
    PathOps.dyadProduce hash realpath (some c) fname = .pure rc := by
  unfold PathOps.dyadProduce
  simp only [follow, Prog.pure_eq, Prog.bind_eq, Prog.pure_bind]
  rcases documented_cases h with ⟨hflux, rfl⟩ | ⟨hflux, hmissing, rfl⟩
  · rw [if_pos hflux]
  · rw [if_neg (by rw [hflux]; exact Bool.false_ne_true), if_pos hmissing]

theorem dyadConsume_reports {c : DyadCtx} {rc : Rc} (fname : CString)
    (h : documented (some c) (·.cons.managedPath.isNone) = some rc) :
    PathOps.dyadConsume hash realpath (some c) fname = .pure rc := by
  unfold PathOps.dyadConsume
  dsimp only [PathOps.consumeBody]
  rcases documented_cases h with ⟨hflux, rfl⟩ | ⟨hflux, hmissing, rfl⟩
  · rw [if_pos hflux]
    rfl
  · rw [if_neg (by rw [hflux]; exact Bool.false_ne_true), if_pos hmissing]
    rfl

theorem dyadConsumeRange_reports {c : DyadCtx} {rc : Rc} (fname : CString)
    (h : documented (some c) (·.cons.managedPath.isNone) = some rc) :
    PathOps.dyadConsumeRange hash realpath (some c) fname = .pure rc := by
  unfold PathOps.dyadConsumeRange
  dsimp only [PathOps.consumeRangeBody]
  rcases documented_cases h with ⟨hflux, rfl⟩ | ⟨hflux, hmissing, rfl⟩
  · rw [if_pos hflux]
    rfl
  · rw [if_neg (by rw [hflux]; exact Bool.false_ne_true), if_pos hmissing]
    rfl

theorem dyadConsumeWMetadata_reports {c : DyadCtx} {rc : Rc} (fname : CString)
    (mdata : Option CString)
    (h : documented (some c)
      (fun c => mdata.isSome && c.cons.managedPath.isNone) = some rc) :
    PathOps.dyadConsumeWMetadata (some c) fname mdata = .pure rc := by
  unfold PathOps.dyadConsumeWMetadata
  dsimp only [PathOps.consumeWMetadataBody]
  rcases documented_cases h with ⟨hflux, rfl⟩ | ⟨hflux, hmissing, rfl⟩
  · rw [if_pos hflux]
    rfl
  · rw [if_neg (by rw [hflux]; exact Bool.false_ne_true)]
    rw [Bool.and_eq_true] at hmissing
    obtain ⟨fpath, rfl⟩ := Option.isSome_iff_exists.1 hmissing.1
    dsimp only
    rw [if_pos hmissing.2]
    rfl

/-- With a context, the tests in front report what is documented. Without one,
the function ends at the null pointer. -/
theorem reports_iff {pathMissing : DyadCtx → Bool}
    {p : Option DyadCtx → PathProgram Rc} (hctx : ∀ c ∈ ctx, PathsKept c)
    (hnone : ¬ Follows (p none)) (hsome : ∀ c, PathsKept c → Follows (p (some c)))
    (herror : ∀ c rc, documented (some c) pathMissing = some rc →
      p (some c) = .pure rc) :
    Reports ctx pathMissing (p ctx) ↔ ctx ≠ none := by
  cases ctx with
  | none => exact iff_of_false (fun h => hnone h.harmless) fun h => h rfl
  | some c =>
    exact iff_of_true ⟨hsome c (hctx c rfl), fun rc => herror c rc⟩ (by simp)

/-! ## A consumer -/

/-- A build whose hash is never zero. -/
def Build.nonzero : Build := { Build.fluxOnly with hash := fun _ _ => 1 }

/-- A consumer of files under `/c`, which produces none. -/
def consumerOnly : InitArgs :=
  { InitArgs.producer with
    prodManagedPath := none
    consManagedPath := some ['/', 'c'] }

/-- The process, once it has called `dyad_init`. -/
def started : Process :=
  ((process Build.nonzero).replay Process.fresh
    [.init .serving consumerOnly]).getD Process.fresh

theorem started_reached :
    (process Build.nonzero).Reach (fun _ _ => True) started :=
  Lts.Reach.of_replay (φ := fun _ _ => true) rfl (fun _ _ _ => True.intro) rfl
    rfl

theorem started_ctx : started.ctx.isSome = true ∧ prodSet started.ctx = false :=
  ⟨rfl, rfl⟩

/-! ## The entry points -/

/-- An open is harmless unless it is one for writing without the path. -/
theorem openWrapper_iff (hctx : ∀ c ∈ ctx, PathsKept c) {path : CString}
    {readMode writeMode : Bool} (hmode : writeMode = true → readMode = false)
    {failure : Int} {opened : Int → Bool} (hopened : opened 3 = true)
    (fd : Int → Program Int) (hquiet : ∀ ret, (fd ret).All (Quiet ctx))
    (hfd : Obtained ctx (fd 3)) :
    WrapsReal ctx failure (openWrapper hash realpath ctx path readMode writeMode
        failure opened fd) ↔
      (writeMode = true → prodSet ctx = true) := by
  constructor
  · rintro hw rfl
    rw [hmode rfl] at hw
    cases hset : prodSet ctx with
    | true => rfl
    | false => exact absurd hw (openWrapper_not_wraps hctx hset 3 hopened hfd)
  · intro hset
    exact openWrapper_wraps hctx hset hquiet

/-- In every context a process comes to, by any calls of `dyad_init` and
`dyad_finalize` whatever fails in them, an entry point is harmless exactly
where it has what it needs. -/
theorem harmless_iff (b : Build) {p : Process}
    (hp : (process b).Reach (fun _ _ => True) p)
    (realpath : CString → Option CString) (op : Entry) :
    op.Harmless b.hash realpath p.ctx ↔ op.Provided p.ctx := by
  have hctx : ∀ c ∈ p.ctx, PathsKept c := kept_of_reach hp
  cases op with
  | openWrapper path oflag arg =>
    refine (openWrapper_iff hctx ?_ (by decide) pure (fun _ => True.intro)
      fun _ h hw => ⟨3, h, hw⟩).trans (by simp [Entry.Provided])
    intro hwrite
    rcases (by simpa using hwrite) with hmode | hmode
    · simp [hmode, O_WRONLY, O_RDONLY]
    · simp [hmode, O_APPEND, O_RDONLY]
  | fopenWrapper path mode =>
    refine (openWrapper_iff hctx ?_ (by decide)
      (fun _ => perform .fileno) (fun _ => ⟨⟨True.intro, by simp⟩, fun _ => True.intro⟩)
      fun _ h hw => ⟨3, _, hw.2 3 True.intro⟩).trans (by simp [Entry.Provided])
    intro hwrite
    rcases (by simpa using hwrite) with rfl | rfl <;> rfl
  | closeWrapper fd => exact iff_of_true (close_wraps hctx True.intro) True.intro
  | fcloseWrapper fd =>
    refine iff_of_true (close_wraps hctx ?_) True.intro
    exact ⟨⟨True.intro, by simp⟩, fun _ => True.intro⟩
  | produce fname =>
    exact reports_iff (p := fun ctx => PathOps.dyadProduce b.hash realpath ctx fname)
      hctx (fun h => h.1 rfl) (fun c hc => follows_dyadProduce hc fname)
      fun c rc => dyadProduce_reports fname
  | consume fname =>
    exact reports_iff (p := fun ctx => PathOps.dyadConsume b.hash realpath ctx fname)
      hctx (fun h => h.1 rfl) (fun c hc => follows_dyadConsume hc fname)
      fun c rc => dyadConsume_reports fname
  | consumeWMetadata fname mdata =>
    exact reports_iff (p := fun ctx => PathOps.dyadConsumeWMetadata ctx fname mdata)
      hctx (fun h => h.1 rfl)
      (fun c hc => follows_dyadConsumeWMetadata hc fname mdata)
      fun c rc => dyadConsumeWMetadata_reports fname mdata
  | consumeRange fname =>
    exact reports_iff
      (p := fun ctx => PathOps.dyadConsumeRange b.hash realpath ctx fname)
      hctx (fun h => h.1 rfl) (fun c hc => follows_dyadConsumeRange hc fname)
      fun c rc => dyadConsumeRange_reports fname

/-- The consumer closes files and asks for the production of one without
harm. -/
theorem started_harmless :
    Entry.Harmless Build.nonzero.hash some started.ctx (.fcloseWrapper 3) ∧
      Entry.Harmless Build.nonzero.hash some started.ctx (.produce ['f']) := by
  have hctx : started.ctx ≠ none := by
    obtain ⟨c, hc⟩ := Option.isSome_iff_exists.1 started_ctx.1
    simp [hc]
  exact ⟨(harmless_iff Build.nonzero started_reached some _).2 True.intro,
    (harmless_iff Build.nonzero started_reached some _).2 hctx⟩

/-- The same consumer writes a file of its own, with `fopen (path, "w")`: the
producer-managed path is null, and followed. -/
theorem write_without_path :
    ¬ ∀ (b : Build) (p : Process), (process b).Reach (fun _ _ => True) p →
      ∀ (realpath : CString → Option CString) (op : Entry),
        op.Harmless b.hash realpath p.ctx := by
  intro h
  have hopen := h Build.nonzero started started_reached some
    (.fopenWrapper ['/', 't', '/', 'f'] ['w'])
  refine openWrapper_not_wraps (kept_of_reach started_reached) started_ctx.2
    3 (by decide) (fun _ h hw => ?_) hopen
  exact ⟨3, _, hw.2 3 True.intro⟩

end Dyad.WrapperOps
