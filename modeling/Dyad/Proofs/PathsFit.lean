import Dyad.PathOps

/-!
# Whole paths

Which names an operation can be given, and which directories it can have, so
that it stays inside its path buffers and touches only what is joined
completely.

Both directions go through the operations call by call. `Fitting` walks one in
which every join fits, with the paths made so far; `Errs` walks to a call that
is not fine, or to an end without an error, in one that has joined too much.
`concat_str` itself never writes past the buffer, but nothing looks at its
answer, and the directory it leaves is what is opened next.
-/

namespace Dyad.PathOps

open Conc Prog

variable {hash : CString → UInt32 → UInt32}
  {realpath : CString → Option CString} {ctx : DyadCtx} {α β : Type}

/-! ## The pieces -/

theorem follow_some (a : α) : follow (some a) = .pure a := rfl

theorem fill_of_le {n : Nat} (h : n ≤ pathMax + 1) : fill n = .pure () :=
  if_pos h

theorem cstr_of_le {buf : CString} (h : buf.length ≤ pathMax) :
    cstr buf = .pure buf :=
  if_pos h

theorem cstr_of_gt {buf : CString} (h : pathMax < buf.length) :
    cstr buf = .call .overflow Empty.elim :=
  if_neg (by omega)

theorem fill_first : fill (pathMax - 1) = .pure () := fill_of_le (by omega)

theorem joinPath_of_fits {base upath : CString} (h : JoinFits base upath) :
    joinPath (some base) upath =
      .call (.joining base upath) fun _ => .pure (join base upath) := by
  have hall : base.length + pathDelim.length + upath.length + 1 ≤ pathMax + 1 := by
    have hlen : pathDelim.length = 1 := rfl
    unfold JoinFits at h
    omega
  unfold joinPath
  simp only [follow_some, bind_eq, Prog.pure_bind, perform_bind, fill_first,
    strncpy_of_fits h, concatStr_of_fits h, fill_of_le hall]
  rfl

/-- A join that does not fit leaves what there was room for of the
directory. -/
theorem joinPath_of_not_fits {base upath : CString}
    (h : ¬ JoinFits base upath) :
    joinPath (some base) upath =
      .call (.joining base upath) fun _ =>
        .pure (strncpy base (pathMax - 1)) := by
  unfold joinPath
  simp only [follow_some, bind_eq, Prog.pure_bind, perform_bind, fill_first,
    concatStr_of_not_fits h]
  rfl

/-- Short of a name that is too long, the user path is found without harm. -/
theorem userPath_eq {m : ManagedPath} {relative : Bool} {fname : CString}
    (hset : m.Set) (hlen : relative = true → fname.length ≤ pathMax) :
    userPath hash realpath m relative fname =
      .pure (userPathOf hash realpath m relative fname) := by
  unfold userPath userPathOf
  cases relative with
  | true =>
    have hfill : fill fname.length = .pure () :=
      fill_of_le (Nat.le_succ_of_le (hlen rfl))
    rw [if_pos rfl, if_pos rfl, hfill]
    rfl
  | false =>
    obtain ⟨o, ho, hcap⟩ : ∃ o, cmpCanonicalPathPrefix hash realpath m fname
        pathMax = some o ∧ ∀ u ∈ o, u.length + 1 ≤ pathMax :=
      cmpCanonicalPathPrefix_set hset
    rw [if_neg Bool.false_ne_true, if_neg Bool.false_ne_true, ho]
    cases o with
    | none => rfl
    | some upath =>
      have hfill : fill upath.length = .pure () :=
        fill_of_le (by have := hcap upath rfl; omega)
      rw [follow_some]
      simp only [bind_eq, Prog.pure_bind, hfill]
      rfl

theorem userPathOf_length {m : ManagedPath} {relative : Bool}
    {fname upath : CString} (hset : m.Set)
    (hlen : relative = true → fname.length ≤ pathMax)
    (h : userPathOf hash realpath m relative fname = some upath) :
    upath.length ≤ pathMax := by
  unfold userPathOf at h
  cases relative with
  | true =>
    obtain rfl := Option.some.inj h
    exact hlen rfl
  | false =>
    obtain ⟨o, ho, hcap⟩ : ∃ o, cmpCanonicalPathPrefix hash realpath m fname
        pathMax = some o ∧ ∀ u ∈ o, u.length + 1 ≤ pathMax :=
      cmpCanonicalPathPrefix_set hset
    rw [if_neg Bool.false_ne_true, ho, Option.join_some] at h
    have := hcap upath h
    omega

/-! ## Where every join fits -/

/-- After the history, every join has fitted, and the paths `ps` came of
one. -/
structure Sound (ps : List CString) (h : List (Event Call.Res)) : Prop where
  fit : AllFit h
  made : ∀ p ∈ ps, ∃ j ∈ joinings h, p = join j.1 j.2

/-- With the paths `ps` made, each call of `p` is fine, and every join fits. -/
def Fitting (ps : List CString) (p : PathProgram α) : Prop :=
  ∀ h, Sound ps h →
    p.wp (fun _ _ _ => True) Fine (fun h' _ => Sound ps h') h

/-- A call that has nothing to do with paths. -/
def Quiet : Call → Prop
  | .nullDeref => False
  | .overflow => False
  | .joining .. => False
  | .openPath _ => False
  | .rangeCacheEnsure .. => False
  | .mkdirAsNeeded _ => False
  | _ => True

theorem joinings_cons {c : Call} (hc : ∀ base upath, c ≠ .joining base upath)
    {r : c.Res} {h : List (Event Call.Res)} :
    joinings (⟨c, r⟩ :: h) = joinings h := by
  cases c with
  | joining base upath => exact absurd rfl (hc base upath)
  | _ => rfl

theorem Sound.cons {ps : List CString} {h : List (Event Call.Res)} {c : Call}
    (hs : Sound ps h) (hc : ∀ base upath, c ≠ .joining base upath) {r : c.Res} :
    Sound ps (⟨c, r⟩ :: h) := by
  constructor
  · unfold AllFit
    rw [joinings_cons hc]
    exact hs.fit
  · rw [joinings_cons hc]
    exact hs.made

section

variable {ps : List CString}

theorem Fitting.pure (a : α) : Fitting ps (.pure a : PathProgram α) :=
  fun _ hs => hs

theorem Fitting.step {c : Call} {f : c.Res → PathProgram α}
    (hc : ∀ base upath, c ≠ .joining base upath)
    (hfine : ∀ h, Sound ps h → Fine h c) (hf : ∀ r, Fitting ps (f r)) :
    Fitting ps (perform c >>= f) :=
  fun h hs => ⟨hfine h hs, fun r _ => hf r _ (hs.cons hc)⟩

theorem Fitting.quiet {c : Call} {f : c.Res → PathProgram α} (hc : Quiet c)
    (hf : ∀ r, Fitting ps (f r)) : Fitting ps (perform c >>= f) := by
  apply Fitting.step _ _ hf
  · rintro base upath rfl
    exact hc
  · intro h _
    cases c <;> first | exact hc.elim | exact True.intro

theorem Fitting.join {base upath : CString} {k : Unit → PathProgram α}
    (hfits : JoinFits base upath)
    (hk : Fitting (join base upath :: ps) (k ())) :
    Fitting ps (.call (.joining base upath) k) := by
  intro h hs
  refine ⟨True.intro, fun r _ => wp_imp (hk _ ⟨?_, ?_⟩) fun h' _ hs' =>
    ⟨hs'.fit, fun p hp => hs'.made p (List.mem_cons_of_mem _ hp)⟩⟩
  · intro j hj
    rcases List.mem_cons.1 hj with rfl | hj
    · exact hfits
    · exact hs.fit j hj
  · intro p hp
    rcases List.mem_cons.1 hp with rfl | hp
    · exact ⟨(base, upath), List.mem_cons_self, rfl⟩
    · obtain ⟨j, hj, hpj⟩ := hs.made p hp
      exact ⟨j, List.mem_cons_of_mem _ hj, hpj⟩

theorem Fitting.bind {p : PathProgram α} {f : α → PathProgram β}
    (hp : Fitting ps p) (hf : ∀ a, Fitting ps (f a)) :
    Fitting ps (p.bind f) :=
  fun h hs => wp_bind.2 (wp_imp (hp h hs) fun h' a hs' => hf a h' hs')

theorem Sound.whole {p : CString} {h : List (Event Call.Res)}
    (hs : Sound ps h) (hp : p ∈ ps) : Whole h p :=
  ⟨hs.fit, hs.made p hp⟩

theorem consumeDone_fitting (rc : Rc) : Fitting ps (consumeDone rc) := by
  apply Fitting.quiet (by trivial)
  intro closed
  cases closed <;> exact Fitting.pure _

theorem consumeUnlock_fitting (rc : Rc) : Fitting ps (consumeUnlock rc) :=
  Fitting.quiet (by trivial) fun _ => consumeDone_fitting rc

theorem consumeStored_fitting {dir : CString}
    (hdir : ctx.cons.managedPath = some dir) (rc : Rc) :
    Fitting ps (consumeStored ctx rc) := by
  unfold consumeStored
  rw [hdir, follow_some]
  exact Fitting.quiet (by trivial) fun _ => Fitting.quiet (by trivial) fun _ =>
    consumeDone_fitting rc

theorem dyadFetchMetadata_eq {upath : CString} (h : upath.length ≤ pathMax) :
    dyadFetchMetadata upath = perform (.fetchMetadata upath) := by
  unfold dyadFetchMetadata
  rw [cstr_of_le h]
  rfl

theorem consStore_fitting {dir fpath : CString}
    (hdir : ctx.cons.managedPath = some dir) (hfits : JoinFits dir fpath) :
    Fitting ps (dyadConsStore ctx fpath) := by
  have hfill : fill pathMax = .pure () := fill_of_le (by omega)
  have hwrite : Fitting (join dir fpath :: ps) (perform .consStoreWrite) :=
    Fitting.quiet (by trivial) Fitting.pure
  unfold dyadConsStore
  rw [hdir, joinPath_of_fits hfits]
  apply Fitting.join hfits
  simp only [bind_eq, Prog.pure_bind, hfill]
  split
  · exact hwrite
  · apply Fitting.step (by nofun)
    · exact fun h hs => ⟨_, hs.whole List.mem_cons_self, rfl⟩
    · intro made
      split
      · exact Fitting.pure _
      · exact hwrite

theorem consumeShared_fitting {upath : CString} {fileSize : Int}
    (hlen : upath.length ≤ pathMax) :
    Fitting ps (consumeShared ctx upath fileSize) := by
  unfold consumeShared
  rw [dyadFetchMetadata_eq hlen]
  apply Fitting.quiet (by trivial)
  intro _
  split
  · apply Fitting.quiet (by trivial)
    intro fetched
    cases fetched <;> exact consumeDone_fitting _
  · exact consumeDone_fitting _

theorem consumeFetch_fitting {dir fname upath : CString}
    (hdir : ctx.cons.managedPath = some dir) (hfits : JoinFits dir upath) :
    Fitting ps (consumeFetch ctx fname upath) := by
  apply Fitting.quiet (by trivial)
  intro rc
  split
  · exact consumeUnlock_fitting rc
  · apply Fitting.quiet (by trivial)
    intro opened
    cases opened with
    | false => exact Fitting.pure _
    | true =>
      apply Fitting.bind (consStore_fitting hdir hfits)
      intro rc
      apply Fitting.quiet (by trivial)
      intro closed
      cases closed with
      | false => exact consumeUnlock_fitting _
      | true =>
        cases rc.isError
        · exact consumeStored_fitting hdir rc
        · exact consumeUnlock_fitting rc

theorem consumeLocal_fitting {dir fname upath : CString} {fileSize : Int}
    (hdir : ctx.cons.managedPath = some dir) (hlen : upath.length ≤ pathMax)
    (hfits : JoinFits dir upath) :
    Fitting ps (consumeLocal ctx fname upath fileSize) := by
  unfold consumeLocal
  rw [dyadFetchMetadata_eq hlen]
  split
  · apply Fitting.quiet (by trivial)
    intro fetched
    match fetched with
    | .error rc => exact consumeUnlock_fitting rc
    | .ok false => exact consumeUnlock_fitting .ok
    | .ok true => exact consumeFetch_fitting hdir hfits
  · exact consumeStored_fitting hdir _

theorem consumeLocked_fitting {dir fname upath : CString}
    (hdir : ctx.cons.managedPath = some dir) (hlen : upath.length ≤ pathMax)
    (hfits : ctx.sharedStorage = false → JoinFits dir upath) :
    Fitting ps (consumeLocked ctx fname upath) := by
  apply Fitting.quiet (by trivial)
  intro rc
  split
  · exact consumeUnlock_fitting rc
  · apply Fitting.quiet (by trivial)
    intro fileSize
    split
    · exact consumeShared_fitting hlen
    · next hshared =>
      exact consumeLocal_fitting hdir hlen
        (hfits (Bool.eq_false_of_not_eq_true hshared))

theorem requestPrologue_fitting : Fitting ps requestPrologue := by
  apply Fitting.quiet (by trivial)
  intro streaming
  cases streaming with
  | false => exact Fitting.pure _
  | true =>
    apply Fitting.quiet (by trivial)
    intro known
    cases known with
    | false => exact Fitting.pure _
    | true =>
      apply Fitting.quiet (by trivial)
      intro rc
      split
      · exact Fitting.pure _
      · exact Fitting.quiet (by trivial) fun _ => Fitting.pure _

/-- Both paths, where there are two, are whole when they are opened. -/
theorem ensureRange_fitting {fullpath : CString} {origin : Option CString}
    (hfull : fullpath ∈ ps) (horigin : ∀ o ∈ origin, o ∈ ps) :
    Fitting ps (ensureRange fullpath origin) := by
  cases origin with
  | none => exact Fitting.pure _
  | some o =>
    exact Fitting.step (by nofun)
      (fun h hs => ⟨hs.whole hfull, hs.whole (horigin o rfl)⟩) Fitting.pure

theorem serveRange_fitting {fullpath : CString} {origin : Option CString}
    (hfull : fullpath ∈ ps) (horigin : ∀ o ∈ origin, o ∈ ps) :
    Fitting ps (serveRange fullpath origin) := by
  apply Fitting.bind (ensureRange_fitting hfull horigin)
  intro rc
  split
  · exact Fitting.pure _
  · apply Fitting.step (by nofun)
    · exact fun h hs => hs.whole hfull
    · intro opened
      cases opened with
      | false => exact Fitting.pure _
      | true => exact Fitting.quiet (by trivial) fun _ => Fitting.pure _

/-- The join with the origin adds its path to those that are made. -/
theorem joinOrigin_fitting {upath : CString}
    {f : Option CString → PathProgram α}
    (hfits : ∀ o ∈ ctx.originPath, JoinFits o upath)
    (hf : ∀ (ps' : List CString) (origin : Option CString), ps ⊆ ps' →
      (∀ o ∈ origin, o ∈ ps') → Fitting ps' (f origin)) :
    Fitting ps ((joinOrigin ctx upath).bind f) := by
  unfold joinOrigin
  cases ho : ctx.originPath with
  | none => exact hf ps none (List.Subset.refl _) nofun
  | some o =>
    have hfit := hfits o ho
    dsimp only
    rw [joinPath_of_fits hfit]
    apply Fitting.join hfit
    apply hf _ _ (List.subset_cons_self _ _)
    rintro _ ⟨⟩
    exact List.mem_cons_self

theorem consumeRangeRead_fitting : Fitting ps consumeRangeRead := by
  apply Fitting.quiet (by trivial)
  intro rc
  split
  · exact Fitting.quiet (by trivial) fun _ => Fitting.pure _
  · apply Fitting.quiet (by trivial)
    intro got
    cases got
    · exact Fitting.quiet (by trivial) fun _ => Fitting.quiet (by trivial)
        fun _ => Fitting.pure _
    · exact Fitting.quiet (by trivial) fun _ => Fitting.quiet (by trivial)
        fun _ => Fitting.quiet (by trivial) fun _ => Fitting.pure _

theorem consumeRangeLocal_fitting {dir upath : CString}
    (hdir : ctx.cons.managedPath = some dir) (hfits : JoinFits dir upath)
    (horigin : ∀ o ∈ ctx.originPath, JoinFits o upath) :
    Fitting ps (consumeRangeLocal ctx upath) := by
  unfold consumeRangeLocal
  rw [hdir, joinPath_of_fits hfits]
  apply Fitting.join hfits
  apply joinOrigin_fitting horigin
  intro ps' origin hsub ho
  have hfull := hsub List.mem_cons_self
  apply Fitting.bind (ensureRange_fitting hfull ho)
  intro rc
  split
  · exact Fitting.pure _
  · apply Fitting.step (by nofun)
    · exact fun h hs => hs.whole hfull
    · intro opened
      cases opened with
      | false => exact Fitting.pure _
      | true => exact consumeRangeRead_fitting

end

/-! ## Each operation, fitting -/

theorem mem_pairsOf {dirs : List (Option CString)} {upath : Option CString}
    {j : CString × CString} :
    j ∈ pairsOf dirs upath ↔ some j.1 ∈ dirs ∧ upath = some j.2 := by
  unfold pairsOf
  rw [List.mem_flatMap]
  constructor
  · rintro ⟨dir, hdir, hj⟩
    obtain ⟨d, rfl, hmap⟩ :=
      Option.bind_eq_some_iff.1 (Option.mem_toList.1 hj)
    obtain ⟨u, rfl, rfl⟩ := Option.map_eq_some_iff.1 hmap
    exact ⟨hdir, rfl⟩
  · rintro ⟨hdir, rfl⟩
    exact ⟨_, hdir, List.mem_singleton.2 rfl⟩

theorem Sound.nil : Sound [] [] := ⟨nofun, nofun⟩

/-- A fitting operation ends as it should. -/
theorem Fitting.onWholePaths {p : PathProgram Bool} (hp : Fitting [] p) :
    p.wp (fun _ _ _ => True) Fine Ends [] :=
  wp_imp (hp [] Sound.nil) fun _ _ hs => Or.inl hs.fit

theorem Fitting.isError {p : PathProgram Rc} (hp : Fitting [] p) :
    Fitting [] (Rc.isError <$> p) :=
  hp.bind fun _ => Fitting.pure _

theorem commit_fitting {fname : CString} (hset : ctx.prod.Set)
    (hcopied : isRelative ctx fname = true → fname.length ≤ pathMax) :
    Fitting [] (dyadCommit hash realpath ctx fname) := by
  unfold dyadCommit
  rw [userPath_eq hset hcopied]
  cases hu : userPathOf hash realpath ctx.prod (isRelative ctx fname) fname with
  | none => exact Fitting.pure _
  | some upath =>
    simp only [bind_eq, Prog.pure_bind]
    rw [cstr_of_le (userPathOf_length hset hcopied hu)]
    exact Fitting.quiet (by trivial) Fitting.pure

theorem getMetadata_fitting {fname : CString} (hset : ctx.cons.Set)
    (hcopied : isRelative ctx fname = true → fname.length ≤ pathMax) :
    Fitting [] (dyadGetMetadata hash realpath ctx fname) := by
  unfold dyadGetMetadata
  split
  · exact Fitting.pure _
  · rw [userPath_eq hset hcopied]
    cases hu : userPathOf hash realpath ctx.cons (isRelative ctx fname)
      fname with
    | none => exact Fitting.pure _
    | some upath =>
      apply Fitting.quiet (by trivial)
      intro opened
      cases opened with
      | true =>
        exact Fitting.quiet (by trivial) fun _ =>
          Fitting.quiet (by trivial) Fitting.pure
      | false =>
        rw [if_neg Bool.false_ne_true,
          cstr_of_le (userPathOf_length hset hcopied hu)]
        exact Fitting.quiet (by trivial) Fitting.pure

theorem consumeClose_fitting (rc : Rc) :
    Fitting [] (consumeClose (some ctx) rc) :=
  Fitting.pure rc

/-- What is left of the context, once the checks have passed. -/
theorem isNone_of_set {m : ManagedPath} (hset : m.Set) :
    m.managedPath.isNone = false := by
  cases hm : m.managedPath with
  | none => exact absurd hm hset.managed
  | some dir => rfl

theorem consume_fitting {fname : CString} (hset : ctx.cons.Set)
    (hfits : (Op.consume fname).Fits hash realpath ctx) :
    Fitting [] (dyadConsume hash realpath (some ctx) fname) := by
  apply Fitting.bind _ consumeClose_fitting
  unfold consumeBody
  dsimp only
  cases hh : ctx.h with
  | none => exact Fitting.pure _
  | some handle =>
    have hcopied : isRelativeName ctx fname = true →
        fname.length ≤ pathMax := by
      intro hrel
      exact hfits.copied fname (by rw [Op.copied, hh, hrel]; rfl)
    rw [Option.isNone_some, if_neg Bool.false_ne_true, isNone_of_set hset,
      if_neg Bool.false_ne_true, userPath_eq hset hcopied]
    cases hu : userPathOf hash realpath ctx.cons (isRelativeName ctx fname)
      fname with
    | none => exact Fitting.pure _
    | some upath =>
      obtain ⟨dir, hdir⟩ := Option.ne_none_iff_exists'.1 hset.managed
      have hjoin (hshared : ctx.sharedStorage = false) :
          JoinFits dir upath := by
        apply hfits.joins (dir, upath)
        rw [Op.joins, hh, hshared, hu]
        exact mem_pairsOf.2 ⟨hdir ▸ List.mem_cons_self, rfl⟩
      apply Fitting.quiet (by trivial)
      intro opened
      cases opened with
      | false => exact Fitting.pure _
      | true =>
        exact consumeLocked_fitting hdir
          (userPathOf_length hset hcopied hu) hjoin

theorem consumeRange_fitting {fname : CString} (hset : ctx.cons.Set)
    (hfits : (Op.consumeRange fname).Fits hash realpath ctx) :
    Fitting [] (dyadConsumeRange hash realpath (some ctx) fname) := by
  apply Fitting.bind _ consumeClose_fitting
  unfold consumeRangeBody
  dsimp only
  rw [isNone_of_set hset, if_neg Bool.false_ne_true]
  split
  · exact Fitting.pure _
  · next hh =>
    split
    · exact Fitting.pure _
    · next hdtl =>
      have hserves : servesRanges ctx = true := by
        rw [servesRanges, ← Option.not_isNone,
          Bool.eq_false_of_not_eq_true hh, Bool.eq_false_of_not_eq_true hdtl]
        rfl
      have hcopied : isRelativeName ctx fname = true →
          fname.length ≤ pathMax := by
        intro hrel
        exact hfits.copied fname (by rw [Op.copied, hserves, hrel]; rfl)
      rw [userPath_eq hset hcopied]
      cases hu : userPathOf hash realpath ctx.cons (isRelativeName ctx fname)
        fname with
      | none => exact Fitting.pure _
      | some upath =>
        obtain ⟨dir, hdir⟩ := Option.ne_none_iff_exists'.1 hset.managed
        have hjoin (base : CString)
            (hbase : some base ∈ [ctx.cons.managedPath, ctx.originPath]) :
            JoinFits base upath := by
          apply hfits.joins (base, upath)
          rw [Op.joins, hserves, hu]
          exact mem_pairsOf.2 ⟨hbase, rfl⟩
        simp only [bind_eq, Prog.pure_bind]
        rw [dyadFetchMetadata_eq (userPathOf_length hset hcopied hu)]
        apply Fitting.quiet (by trivial)
        intro fetched
        match fetched with
        | .error rc => exact Fitting.pure _
        | .ok true => exact Fitting.quiet (by trivial) Fitting.pure
        | .ok false =>
          apply consumeRangeLocal_fitting hdir
          · exact hjoin dir (hdir ▸ List.mem_cons_self)
          · intro o ho
            apply hjoin
            rw [Option.mem_def.1 ho]
            exact List.mem_cons_of_mem _ List.mem_cons_self

theorem fetchRequest_fitting {upath : CString} (hset : ctx.prod.Set)
    (hfits : (Op.fetchRequest upath).Fits hash realpath ctx) :
    Fitting [] (dyadFetchRequestCb ctx upath) := by
  obtain ⟨dir, hdir⟩ := Option.ne_none_iff_exists'.1 hset.managed
  have hjoin : JoinFits dir upath :=
    hfits.joins (dir, upath)
      (mem_pairsOf.2 ⟨hdir ▸ List.mem_cons_self, rfl⟩)
  apply Fitting.bind requestPrologue_fitting
  intro ready
  cases ready with
  | false => exact Fitting.pure _
  | true =>
    rw [if_pos rfl, hdir, joinPath_of_fits hjoin]
    apply Fitting.join hjoin
    apply Fitting.step (by nofun)
    · exact fun h hs => hs.whole List.mem_cons_self
    · intro opened
      cases opened with
      | false => exact Fitting.pure _
      | true => exact Fitting.quiet (by trivial) fun _ => Fitting.pure _

theorem join_length {base upath : CString} (h : JoinFits base upath) :
    (join base upath).length < pathMax := by
  unfold JoinFits at h
  have hlen : pathDelim.length = 1 := rfl
  unfold join
  rw [List.length_append, List.length_append]
  split
  · rw [List.length_dropLast]
    omega
  · omega

theorem fetchRangeRequest_fitting {threaded : Bool} {upath : CString}
    (hset : ctx.prod.Set)
    (hfits : (Op.fetchRangeRequest threaded upath).Fits hash realpath ctx) :
    Fitting [] (dyadFetchRangeRequestCb ctx threaded upath) := by
  obtain ⟨dir, hdir⟩ := Option.ne_none_iff_exists'.1 hset.managed
  have hjoin (base : CString)
      (hbase : some base ∈ [ctx.prod.managedPath, ctx.originPath]) :
      JoinFits base upath :=
    hfits.joins (base, upath) (mem_pairsOf.2 ⟨hbase, rfl⟩)
  have hfit : JoinFits dir upath := hjoin dir (hdir ▸ List.mem_cons_self)
  have horigin : ∀ o ∈ ctx.originPath, JoinFits o upath := by
    intro o ho
    apply hjoin
    rw [Option.mem_def.1 ho]
    exact List.mem_cons_of_mem _ List.mem_cons_self
  have hlen := join_length hfit
  apply Fitting.bind requestPrologue_fitting
  intro ready
  cases ready with
  | false => exact Fitting.pure _
  | true =>
    rw [if_pos rfl, hdir, joinPath_of_fits hfit]
    apply Fitting.join hfit
    cases threaded with
    | false =>
      apply joinOrigin_fitting horigin
      intro ps' origin hsub ho
      exact serveRange_fitting (hsub List.mem_cons_self) ho
    | true =>
      apply Fitting.quiet (by trivial)
      intro got
      cases got with
      | false => exact Fitting.pure _
      | true =>
        have hcopy : snprintf (pathMax + 1) (join dir upath) = join dir upath :=
          snprintf_of_lt (by omega)
        have hfill : fill ((join dir upath).length + 1) = .pure () :=
          fill_of_le (by omega)
        simp only [if_true, hcopy, hfill, bind_eq, Prog.pure_bind]
        apply joinOrigin_fitting horigin
        intro ps' origin hsub ho
        apply Fitting.quiet (by trivial)
        intro rc
        split
        · exact Fitting.pure _
        · apply Fitting.quiet (by trivial)
          intro rc
          split
          · exact Fitting.pure _
          · exact serveRange_fitting (hsub List.mem_cons_self) ho

/-- Where everything fits, every path is whole. -/
theorem Op.Fits.onWholePaths {op : Op} (hset : PathsSet ctx)
    (hfits : op.Fits hash realpath ctx) : op.OnWholePaths hash realpath ctx := by
  apply Fitting.onWholePaths
  cases op with
  | commit fname =>
    refine Fitting.isError (commit_fitting hset.prod fun hrel => ?_)
    exact hfits.copied fname (by rw [Op.copied, if_pos hrel]; rfl)
  | getMetadata fname =>
    refine Fitting.isError (getMetadata_fitting hset.cons fun hrel => ?_)
    exact hfits.copied fname (by rw [Op.copied, if_pos hrel]; rfl)
  | consume fname => exact Fitting.isError (consume_fitting hset.cons hfits)
  | consStore fpath =>
    obtain ⟨dir, hdir⟩ := Option.ne_none_iff_exists'.1 hset.cons.managed
    apply Fitting.isError
    exact consStore_fitting hdir (hfits.joins (dir, fpath)
      (mem_pairsOf.2 ⟨hdir ▸ List.mem_cons_self, rfl⟩))
  | consumeRange fname =>
    exact Fitting.isError (consumeRange_fitting hset.cons hfits)
  | fetchRequest upath => exact fetchRequest_fitting hset.prod hfits
  | fetchRangeRequest threaded upath =>
    exact fetchRangeRequest_fitting hset.prod hfits

/-! ## Where something does not fit -/

/-- From the history `h`, a path through `p` comes to a call that is not fine,
or to an end that is not `Q`. -/
def Errs (Q : List (Event Call.Res) → α → Prop) (h : List (Event Call.Res))
    (p : PathProgram α) : Prop :=
  ¬ p.wp (fun _ _ _ => True) Fine Q h

/-- After a join that does not fit, an end in `a` is not `Q`. -/
def Rejects (Q : List (Event Call.Res) → α → Prop) (a : α) : Prop :=
  ∀ h, ¬ AllFit h → ¬ Q h a

theorem AllFit.of_cons {e : Event Call.Res} {h : List (Event Call.Res)}
    (hfit : AllFit (e :: h)) : AllFit h := by
  intro j hj
  apply hfit
  unfold joinings at hj ⊢
  rw [List.filterMap_cons]
  split
  · exact hj
  · exact List.mem_cons_of_mem _ hj

section

variable {Q : List (Event Call.Res) → α → Prop} {h : List (Event Call.Res)}

theorem Errs.bind {R : List (Event Call.Res) → β → Prop} {p : PathProgram α}
    {f : α → PathProgram β}
    (hp : Errs (fun h' a => (f a).wp (fun _ _ _ => True) Fine R h') h p) :
    Errs R h (p.bind f) :=
  fun hw => hp (wp_bind.1 hw)

theorem Errs.step {c : Call} {f : c.Res → PathProgram α} (r : c.Res)
    (hf : Errs Q (⟨c, r⟩ :: h) (f r)) : Errs Q h (perform c >>= f) :=
  fun hw => hf (hw.2 r True.intro)

theorem Errs.touch {c : Call} {f : c.Res → PathProgram α} (hc : ¬ Fine h c) :
    Errs Q h (perform c >>= f) :=
  fun hw => hc hw.1

theorem Errs.overflow {k : Empty → PathProgram α} :
    Errs Q h (.call .overflow k) :=
  fun hw => hw.1

theorem Errs.end {a : α} (hrej : Rejects Q a) (hbad : ¬ AllFit h) :
    Errs Q h (.pure a) :=
  hrej h hbad

/-- A call passed after a join that does not fit. -/
theorem Errs.past {c : Call} {f : c.Res → PathProgram α} (r : c.Res)
    (hbad : ¬ AllFit h)
    (hf : ∀ h', ¬ AllFit h' → Errs Q h' (f r)) : Errs Q h (perform c >>= f) :=
  Errs.step r (hf _ fun hfit => hbad hfit.of_cons)

theorem not_whole {path : CString} (hbad : ¬ AllFit h) : ¬ Whole h path :=
  fun hw => hbad hw.1

theorem dyadFetchMetadata_errs {Q : List (Event Call.Res) → Except Rc Bool → Prop}
    {upath : CString} (hlen : pathMax < upath.length) :
    Errs Q h (dyadFetchMetadata upath) := by
  unfold dyadFetchMetadata
  rw [cstr_of_gt hlen]
  exact Errs.overflow

end

section

variable {Q : List (Event Call.Res) → Rc → Prop} {h : List (Event Call.Res)}
  {dir fname upath : CString}

theorem consumeDone_errs {rc : Rc} (hrej : Rejects Q rc) (hbad : ¬ AllFit h) :
    Errs Q h (consumeDone rc) :=
  Errs.past true hbad fun _ hbad => Errs.end hrej hbad

theorem consumeStored_errs {rc : Rc} (hdir : ctx.cons.managedPath = some dir)
    (hrej : Rejects Q rc) (hbad : ¬ AllFit h) :
    Errs Q h (consumeStored ctx rc) := by
  unfold consumeStored
  rw [hdir, follow_some]
  exact Errs.past () hbad fun _ hbad => Errs.past () hbad fun _ hbad =>
    consumeDone_errs hrej hbad

/-- The directory that is left alone in the buffer has its own parent made, or
the file is stored with none made; neither is an error. -/
theorem consStore_errs {fpath : CString}
    (hdir : ctx.cons.managedPath = some dir) (hnot : ¬ JoinFits dir fpath)
    (hrej : Rejects Q .ok) : Errs Q h (dyadConsStore ctx fpath) := by
  have hfill : fill pathMax = .pure () := fill_of_le (by omega)
  unfold dyadConsStore
  rw [hdir, joinPath_of_not_fits hnot]
  apply Errs.step (c := .joining dir fpath) ()
  have hbad : ¬ AllFit (⟨.joining dir fpath, ()⟩ :: h) :=
    fun hfit => hnot (hfit (dir, fpath) List.mem_cons_self)
  simp only [bind_eq, Prog.pure_bind, hfill]
  split
  · exact Errs.past .ok hbad fun _ hbad => Errs.end hrej hbad
  · apply Errs.touch
    rintro ⟨path, hwhole, _⟩
    exact not_whole hbad hwhole

theorem consumeFetch_errs (hdir : ctx.cons.managedPath = some dir)
    (hnot : ¬ JoinFits dir upath) (hrej : Rejects Q .ok) :
    Errs Q h (consumeFetch ctx fname upath) := by
  apply Errs.step (c := .getData) .ok
  apply Errs.step (c := .openName fname) true
  apply Errs.bind
  apply consStore_errs hdir hnot
  intro h' hbad
  exact Errs.past (c := .close) true hbad fun _ hbad =>
    consumeStored_errs hdir hrej hbad

/-- The string in `upath` is first read for the key of the metadata. -/
theorem consumeLocked_errs_of_long (hlen : pathMax < upath.length) :
    Errs Q h (consumeLocked ctx fname upath) := by
  have hsize : unfetched ctx 0 = true := by
    unfold unfetched
    cases ctx.useFsLocks <;> rfl
  apply Errs.step (c := .exclFlock) .ok
  apply Errs.step (c := .getFileSize) (0 : Int)
  split
  · unfold consumeShared
    apply Errs.step (c := .releaseFlock) ()
    rw [if_pos hsize]
    exact Errs.bind (dyadFetchMetadata_errs hlen)
  · unfold consumeLocal
    rw [if_pos hsize]
    exact Errs.bind (dyadFetchMetadata_errs hlen)

theorem consumeLocked_errs (hdir : ctx.cons.managedPath = some dir)
    (hlen : upath.length ≤ pathMax) (hshared : ctx.sharedStorage = false)
    (hnot : ¬ JoinFits dir upath) (hrej : Rejects Q .ok) :
    Errs Q h (consumeLocked ctx fname upath) := by
  have hsize : unfetched ctx 0 = true := by
    unfold unfetched
    cases ctx.useFsLocks <;> rfl
  apply Errs.step (c := .exclFlock) .ok
  apply Errs.step (c := .getFileSize) (0 : Int)
  unfold consumeLocal
  rw [hshared, if_neg Bool.false_ne_true, if_pos hsize,
    dyadFetchMetadata_eq hlen]
  apply Errs.step (c := .fetchMetadata upath) (.ok true)
  exact consumeFetch_errs hdir hnot hrej

end

section

variable {Q : List (Event Call.Res) → α → Prop} {h : List (Event Call.Res)}
  {upath : CString}

/-- A relative name overflows the buffer, or goes on as it is. -/
theorem userPath_errs {m : ManagedPath} {fname : CString}
    {f : Option CString → PathProgram α} (hf : Errs Q h (f (some fname))) :
    Errs Q h ((userPath hash realpath m true fname).bind f) := by
  unfold userPath fill
  rw [if_pos rfl]
  split
  · exact hf
  · exact Errs.overflow

/-- A join does not fit, one that has been made or that with the origin. -/
def Late (ctx : DyadCtx) (upath : CString) (h : List (Event Call.Res)) : Prop :=
  ¬ AllFit h ∨ ∃ o ∈ ctx.originPath, ¬ JoinFits o upath

theorem joinOrigin_errs {f : Option CString → PathProgram α}
    (hlate : Late ctx upath h)
    (hf : ∀ o h', ¬ AllFit h' → Errs Q h' (f o)) :
    Errs Q h ((joinOrigin ctx upath).bind f) := by
  unfold joinOrigin
  unfold Late at hlate
  cases ho : ctx.originPath with
  | none =>
    rw [ho] at hlate
    apply hf none h
    rcases hlate with hbad | ⟨_, ⟨⟩, _⟩
    exact hbad
  | some o =>
    dsimp only
    by_cases hfits : JoinFits o upath
    · rw [joinPath_of_fits hfits]
      rcases hlate with hbad | ⟨_, ho', hnot⟩
      · exact Errs.past (c := .joining o upath) () hbad (hf _)
      · obtain rfl := Option.some.inj (ho.symm.trans ho')
        exact absurd hfits hnot
    · rw [joinPath_of_not_fits hfits]
      apply Errs.step (c := .joining o upath) ()
      exact hf _ _ fun hfit => hfits (hfit (o, upath) List.mem_cons_self)

/-- Wherever the paths are used, they are used too late. -/
theorem ensureRange_errs {fullpath : CString} {origin : Option CString}
    {f : Rc → PathProgram α} (hbad : ¬ AllFit h) (hf : Errs Q h (f .ok)) :
    Errs Q h ((ensureRange fullpath origin).bind f) := by
  cases origin with
  | none => exact hf
  | some o => exact Errs.touch fun hfine => not_whole hbad hfine.1

theorem requestPrologue_errs {f : Bool → PathProgram α}
    (hf : ∀ h', joinings h' = joinings h → Errs Q h' (f true)) :
    Errs Q h (requestPrologue.bind f) := by
  apply Errs.step (c := .isStreaming) true
  apply Errs.step (c := .getUserid) true
  apply Errs.step (c := .rpcUnpack) Rc.ok
  apply Errs.step (c := .rpcRespond) Rc.ok
  exact hf _ rfl

end

section

variable {Q : List (Event Call.Res) → Bool → Prop} {h : List (Event Call.Res)}
  {upath : CString}

theorem serveRange_errs {fullpath : CString} {origin : Option CString}
    (hbad : ¬ AllFit h) : Errs Q h (serveRange fullpath origin) :=
  ensureRange_errs hbad (Errs.touch (not_whole hbad))

theorem fetchRequest_errs {dir : CString} (hdir : ctx.prod.managedPath = some dir)
    (hnot : ¬ JoinFits dir upath) : Errs Q h (dyadFetchRequestCb ctx upath) := by
  apply requestPrologue_errs
  intro h' _
  rw [if_pos rfl, hdir, joinPath_of_not_fits hnot]
  apply Errs.step (c := .joining dir upath) ()
  apply Errs.touch
  apply not_whole
  exact fun hfit => hnot (hfit (dir, upath) List.mem_cons_self)

theorem fetchRangeJoined_errs {threaded : Bool} {fullpath : CString}
    (hlate : Late ctx upath h) :
    Errs Q h (if threaded then fetchRangeThreaded ctx fullpath upath
      else fetchRangeFallback ctx fullpath upath) := by
  cases threaded with
  | false => exact joinOrigin_errs hlate fun _ _ hbad => serveRange_errs hbad
  | true =>
    have hfill : fill ((snprintf (pathMax + 1) fullpath).length + 1) =
        .pure () := by
      apply fill_of_le
      unfold snprintf
      rw [List.length_take]
      omega
    unfold fetchRangeThreaded
    rw [if_pos rfl]
    apply Errs.step (c := .malloc) true
    simp only [if_true, hfill, bind_eq, Prog.pure_bind]
    apply joinOrigin_errs (hlate.imp_left fun hbad hfit => hbad hfit.of_cons)
    intro o h' hbad
    exact Errs.past (c := .rpcDetachRequest) Rc.ok hbad fun _ hbad =>
      Errs.past (c := .getBuffer) Rc.ok hbad fun _ hbad => serveRange_errs hbad

theorem fetchRangeRequest_errs {threaded : Bool} {dir : CString}
    (hdir : ctx.prod.managedPath = some dir)
    (hnot : ¬ JoinFits dir upath ∨ ∃ o ∈ ctx.originPath, ¬ JoinFits o upath) :
    Errs Q h (dyadFetchRangeRequestCb ctx threaded upath) := by
  apply requestPrologue_errs
  intro h' _
  rw [if_pos rfl, hdir]
  by_cases hfits : JoinFits dir upath
  · rw [joinPath_of_fits hfits]
    apply Errs.step (c := .joining dir upath) ()
    apply fetchRangeJoined_errs
    exact Or.inr (hnot.resolve_left (not_not_intro hfits))
  · rw [joinPath_of_not_fits hfits]
    apply Errs.step (c := .joining dir upath) ()
    apply fetchRangeJoined_errs
    exact Or.inl fun hfit => hfits (hfit (dir, upath) List.mem_cons_self)

end

section

variable {Q : List (Event Call.Res) → Rc → Prop} {h : List (Event Call.Res)}
  {fname upath : CString}

theorem consumeRangeLocal_errs {dir : CString}
    (hdir : ctx.cons.managedPath = some dir)
    (hnot : ¬ JoinFits dir upath ∨ ∃ o ∈ ctx.originPath, ¬ JoinFits o upath) :
    Errs Q h (consumeRangeLocal ctx upath) := by
  have hrest (fullpath : CString) (origin : Option CString)
      (h' : List (Event Call.Res)) (hbad : ¬ AllFit h') :
      Errs Q h' ((ensureRange fullpath origin).bind fun rc =>
        if rc.isError then Prog.pure rc
        else perform (.openPath fullpath) >>= fun opened =>
          if opened then consumeRangeRead else Prog.pure .badfio) :=
    ensureRange_errs hbad (Errs.touch (not_whole hbad))
  unfold consumeRangeLocal
  rw [hdir]
  by_cases hfits : JoinFits dir upath
  · rw [joinPath_of_fits hfits]
    apply Errs.step (c := .joining dir upath) ()
    apply joinOrigin_errs _ (hrest _)
    exact Or.inr (hnot.resolve_left (not_not_intro hfits))
  · rw [joinPath_of_not_fits hfits]
    apply Errs.step (c := .joining dir upath) ()
    apply joinOrigin_errs _ (hrest _)
    exact Or.inl fun hfit => hfits (hfit (dir, upath) List.mem_cons_self)

theorem commit_errs (hrel : isRelative ctx fname = true)
    (hlen : pathMax < fname.length) :
    Errs Q h (dyadCommit hash realpath ctx fname) := by
  unfold dyadCommit
  rw [hrel]
  apply userPath_errs
  simp only [cstr_of_gt hlen]
  exact Errs.overflow

theorem getMetadata_errs (hrel : isRelative ctx fname = true)
    (hlen : pathMax < fname.length) :
    Errs Q h (dyadGetMetadata hash realpath ctx fname) := by
  unfold dyadGetMetadata
  rw [if_neg (by omega), hrel]
  apply userPath_errs
  apply Errs.step (c := .openName fname) false
  rw [if_neg Bool.false_ne_true, cstr_of_gt hlen]
  exact Errs.overflow

/-- What is left of `dyad_consume` when the checks have passed. -/
theorem consume_eq {handle : FluxHandle} (hset : ctx.cons.Set)
    (hh : ctx.h = some handle) :
    dyadConsume hash realpath (some ctx) fname =
      ((userPath hash realpath ctx.cons (isRelativeName ctx fname) fname).bind
        fun
          | none => .pure .ok
          | some upath => perform (.openName fname) >>= fun opened =>
            if opened then consumeLocked ctx fname upath
            else .pure .badfio).bind (consumeClose (some ctx)) := by
  unfold dyadConsume consumeBody
  dsimp only
  rw [hh, Option.isNone_some, if_neg Bool.false_ne_true, isNone_of_set hset,
    if_neg Bool.false_ne_true]
  rfl

theorem consume_errs_of_long {handle : FluxHandle} (hset : ctx.cons.Set)
    (hh : ctx.h = some handle) (hrel : isRelativeName ctx fname = true)
    (hlen : pathMax < fname.length) :
    Errs Q h (dyadConsume hash realpath (some ctx) fname) := by
  rw [consume_eq hset hh, hrel]
  apply Errs.bind
  apply userPath_errs
  exact Errs.step (c := .openName fname) true
    (consumeLocked_errs_of_long hlen)

theorem consume_errs {handle : FluxHandle} {dir : CString}
    (hset : ctx.cons.Set) (hh : ctx.h = some handle)
    (hcopied : isRelativeName ctx fname = true → fname.length ≤ pathMax)
    (hu : userPathOf hash realpath ctx.cons (isRelativeName ctx fname) fname =
      some upath)
    (hdir : ctx.cons.managedPath = some dir)
    (hshared : ctx.sharedStorage = false) (hnot : ¬ JoinFits dir upath)
    (hrej : Rejects Q .ok) :
    Errs Q h (dyadConsume hash realpath (some ctx) fname) := by
  rw [consume_eq hset hh, userPath_eq hset hcopied, hu]
  apply Errs.bind
  apply Errs.step (c := .openName fname) true
  exact consumeLocked_errs hdir (userPathOf_length hset hcopied hu) hshared hnot
    hrej

/-- What is left of `dyad_consume_range` when the checks have passed. -/
theorem consumeRange_eq (hset : ctx.cons.Set) (hserves : servesRanges ctx = true) :
    dyadConsumeRange hash realpath (some ctx) fname =
      ((userPath hash realpath ctx.cons (isRelativeName ctx fname) fname).bind
        fun
          | none => .pure .badmanagedpath
          | some upath => dyadFetchMetadata upath >>= fun
            | .error rc => .pure rc
            | .ok false => consumeRangeLocal ctx upath
            | .ok true => perform .getDataRange).bind
        (consumeClose (some ctx)) := by
  unfold servesRanges at hserves
  rw [Bool.and_eq_true, Bool.not_eq_true', ← Option.not_isNone,
    Bool.not_eq_true'] at hserves
  unfold dyadConsumeRange consumeRangeBody
  dsimp only
  rw [hserves.1, hserves.2, if_neg Bool.false_ne_true, isNone_of_set hset,
    if_neg Bool.false_ne_true, if_neg Bool.false_ne_true]
  rfl

theorem consumeRange_errs_of_long (hset : ctx.cons.Set)
    (hserves : servesRanges ctx = true)
    (hrel : isRelativeName ctx fname = true) (hlen : pathMax < fname.length) :
    Errs Q h (dyadConsumeRange hash realpath (some ctx) fname) := by
  rw [consumeRange_eq hset hserves, hrel]
  apply Errs.bind
  apply userPath_errs
  exact Errs.bind (dyadFetchMetadata_errs hlen)

theorem consumeRange_errs {dir : CString} (hset : ctx.cons.Set)
    (hserves : servesRanges ctx = true)
    (hcopied : isRelativeName ctx fname = true → fname.length ≤ pathMax)
    (hu : userPathOf hash realpath ctx.cons (isRelativeName ctx fname) fname =
      some upath)
    (hdir : ctx.cons.managedPath = some dir)
    (hnot : ¬ JoinFits dir upath ∨ ∃ o ∈ ctx.originPath, ¬ JoinFits o upath) :
    Errs Q h (dyadConsumeRange hash realpath (some ctx) fname) := by
  rw [consumeRange_eq hset hserves, userPath_eq hset hcopied, hu]
  apply Errs.bind
  rw [Prog.pure_bind]
  dsimp only
  rw [dyadFetchMetadata_eq (userPathOf_length hset hcopied hu)]
  apply Errs.step (c := .fetchMetadata upath) (.ok false)
  exact consumeRangeLocal_errs hdir hnot

end

/-! ## Both -/

theorem rejects_isError :
    Rejects (fun h rc => (Prog.pure (Rc.isError rc) : PathProgram Bool).wp
      (fun _ _ _ => True) Fine Ends h) .ok := by
  intro h hbad hends
  rcases hends with hfit | herr
  · exact hbad hfit
  · exact absurd herr nofun

/-- Pairs with a set of directories that do not all fit. -/
theorem not_fits_of_mem {dirs : List (Option CString)} {upath : CString}
    {u : Option CString} {j : CString × CString} (hu : u = some upath)
    (hj : j ∈ pairsOf dirs u) (hnot : ¬ JoinFits j.1 j.2) :
    ∃ d, some d ∈ dirs ∧ ¬ JoinFits d upath := by
  obtain ⟨hmem, hju⟩ := mem_pairsOf.1 hj
  obtain rfl := Option.some.inj (hu.symm.trans hju)
  exact ⟨j.1, hmem, hnot⟩

/-- Two directories of which one does not fit. -/
theorem not_fits_cases {dir upath : CString} {managed origin : Option CString}
    (hdir : managed = some dir)
    (h : ∃ d, some d ∈ [managed, origin] ∧ ¬ JoinFits d upath) :
    ¬ JoinFits dir upath ∨ ∃ o ∈ origin, ¬ JoinFits o upath := by
  obtain ⟨d, hd, hnot⟩ := h
  rcases List.mem_cons.1 hd with heq | hd
  · obtain rfl := Option.some.inj (heq.trans hdir)
    exact Or.inl hnot
  · exact Or.inr ⟨d, (List.mem_singleton.1 hd).symm, hnot⟩

/-- A name that is too long is run into. -/
theorem Op.long_errs {op : Op} {fname : CString} (hset : PathsSet ctx)
    (hname : op.copied ctx = some fname) (hlen : pathMax < fname.length) :
    ¬ op.OnWholePaths hash realpath ctx := by
  cases op with
  | commit name =>
    rw [Op.copied, Option.ite_none_right_eq_some] at hname
    obtain ⟨hrel, ⟨⟩⟩ := hname
    exact Errs.bind (commit_errs hrel hlen)
  | getMetadata name =>
    rw [Op.copied, Option.ite_none_right_eq_some] at hname
    obtain ⟨hrel, ⟨⟩⟩ := hname
    exact Errs.bind (getMetadata_errs hrel hlen)
  | consume name =>
    rw [Op.copied, Option.ite_none_right_eq_some, Bool.and_eq_true] at hname
    obtain ⟨⟨hh, hrel⟩, ⟨⟩⟩ := hname
    obtain ⟨handle, hh⟩ := Option.isSome_iff_exists.1 hh
    exact Errs.bind (consume_errs_of_long hset.cons hh hrel hlen)
  | consumeRange name =>
    rw [Op.copied, Option.ite_none_right_eq_some, Bool.and_eq_true] at hname
    obtain ⟨⟨hserves, hrel⟩, ⟨⟩⟩ := hname
    exact Errs.bind (consumeRange_errs_of_long hset.cons hserves hrel hlen)
  | consStore fpath => exact absurd hname nofun
  | fetchRequest upath => exact absurd hname nofun
  | fetchRangeRequest threaded upath => exact absurd hname nofun

/-- With names that can be copied, a join that does not fit is run into. -/
theorem Op.joins_errs {op : Op} {j : CString × CString} (hset : PathsSet ctx)
    (hcopied : ∀ fname ∈ op.copied ctx, fname.length ≤ pathMax)
    (hj : j ∈ op.joins hash realpath ctx) (hnot : ¬ JoinFits j.1 j.2) :
    ¬ op.OnWholePaths hash realpath ctx := by
  obtain ⟨prodDir, hprod⟩ := Option.ne_none_iff_exists'.1 hset.prod.managed
  obtain ⟨consDir, hcons⟩ := Option.ne_none_iff_exists'.1 hset.cons.managed
  cases op with
  | commit name => exact absurd hj List.not_mem_nil
  | getMetadata name => exact absurd hj List.not_mem_nil
  | consume name =>
    rw [Op.joins, List.mem_ite_nil_right, Bool.and_eq_true,
      Bool.not_eq_true'] at hj
    obtain ⟨⟨hh, hshared⟩, hj⟩ := hj
    obtain ⟨handle, hh⟩ := Option.isSome_iff_exists.1 hh
    have hu := (mem_pairsOf.1 hj).2
    obtain ⟨d, hd, hnot⟩ := not_fits_of_mem hu hj hnot
    obtain rfl := Option.some.inj ((List.mem_singleton.1 hd).trans hcons)
    apply Errs.bind
    apply consume_errs hset.cons hh _ hu hcons hshared hnot rejects_isError
    intro hrel
    exact hcopied name (by rw [Op.copied, hh, hrel]; rfl)
  | consStore fpath =>
    obtain ⟨d, hd, hnot⟩ := not_fits_of_mem rfl hj hnot
    obtain rfl := Option.some.inj ((List.mem_singleton.1 hd).trans hcons)
    exact Errs.bind (consStore_errs hcons hnot rejects_isError)
  | consumeRange name =>
    rw [Op.joins, List.mem_ite_nil_right] at hj
    obtain ⟨hserves, hj⟩ := hj
    have hu := (mem_pairsOf.1 hj).2
    apply Errs.bind
    apply consumeRange_errs hset.cons hserves _ hu hcons
    · exact not_fits_cases hcons (not_fits_of_mem hu hj hnot)
    · intro hrel
      exact hcopied name (by rw [Op.copied, hserves, hrel]; rfl)
  | fetchRequest upath =>
    obtain ⟨d, hd, hnot⟩ := not_fits_of_mem rfl hj hnot
    obtain rfl := Option.some.inj ((List.mem_singleton.1 hd).trans hprod)
    exact fetchRequest_errs hprod hnot
  | fetchRangeRequest threaded upath =>
    exact fetchRangeRequest_errs hprod
      (not_fits_cases hprod (not_fits_of_mem rfl hj hnot))

/-- Whatever an operation calls answers, it stays inside its buffers, opens and
creates what is joined completely and nothing else, and reports a join that
does not fit, exactly where the names it copies and the joins it comes to
fit. -/
theorem onWholePaths_iff (hash : CString → UInt32 → UInt32)
    (realpath : CString → Option CString) (ctx : DyadCtx)
    (hset : PathsSet ctx) (op : Op) :
    op.OnWholePaths hash realpath ctx ↔ op.Fits hash realpath ctx := by
  constructor
  · intro hwhole
    by_contra hnot
    by_cases hcopied : ∀ fname ∈ op.copied ctx, fname.length ≤ pathMax
    · obtain ⟨j, hj, hjoin⟩ : ∃ j ∈ op.joins hash realpath ctx,
          ¬ JoinFits j.1 j.2 := by
        by_contra hall
        push Not at hall
        exact hnot ⟨hcopied, hall⟩
      exact Op.joins_errs hset hcopied hj hjoin hwhole
    · push Not at hcopied
      obtain ⟨fname, hname, hlen⟩ := hcopied
      exact Op.long_errs hset hname hlen hwhole
  · exact Op.Fits.onWholePaths hset

/-- A context for files under `/p` and `/d`, named relative to them. -/
def relativeCtx : DyadCtx :=
  let setDir (dir : CString) : ManagedPath :=
    { ManagedPath.unset with
      managedPath := some dir
      managedLen := UInt32.ofNat dir.length
      managedHash := 1 }
  { dyadCtxDefault with
    h := some .opened
    delimLen := pathDelim.length
    relativeToManagedPath := true
    prod := setDir ['/', 'p']
    cons := setDir ['/', 'd'] }

theorem relativeCtx_set : PathsSet relativeCtx :=
  ⟨⟨nofun, nofun⟩, ⟨nofun, nofun⟩⟩

/-- The same, with an origin `/o` and Flux RPC. -/
def originCtx : DyadCtx :=
  { relativeCtx with
    dtlHandle := some ⟨.fluxRpc, none⟩
    originPath := some ['/', 'o'] }

theorem originCtx_set : PathsSet originCtx :=
  ⟨⟨nofun, nofun⟩, ⟨nofun, nofun⟩⟩

/-- A range of `s/f` is read from complete paths: the name is copied, and
joined with the managed path and with the origin. -/
theorem short_name_whole :
    (Op.consumeRange ['s', '/', 'f']).copied originCtx = some ['s', '/', 'f'] ∧
      (Op.consumeRange ['s', '/', 'f']).joins (fun _ _ => 0) (fun _ => none)
          originCtx =
        [(['/', 'd'], ['s', '/', 'f']), (['/', 'o'], ['s', '/', 'f'])] ∧
      (Op.consumeRange ['s', '/', 'f']).OnWholePaths (fun _ _ => 0)
        (fun _ => none) originCtx :=
  ⟨rfl, rfl,
    (onWholePaths_iff _ _ originCtx originCtx_set
      (.consumeRange ['s', '/', 'f'])).2
      ⟨by decide, by unfold JoinFits; decide⟩⟩

theorem isRelative_replicate (n : Nat) :
    isRelative relativeCtx (List.replicate (n + 1) 'a') = true := rfl

/-- A relative name of 5000 bytes is copied past the end of the buffer of
`dyad_commit`, and for a file whose path has 4095 bytes `dyad_cons_store` goes
on with what is left of the directory, and reports success. -/
theorem long_name_overflows :
    ¬ (Op.commit (List.replicate 5000 'a')).OnWholePaths (fun _ _ => 0)
      (fun _ => none) relativeCtx ∧
    ¬ (Op.consStore (List.replicate 4095 'a')).OnWholePaths (fun _ _ => 0)
      (fun _ => none) relativeCtx := by
  constructor
  · have hcopied : (Op.commit (List.replicate 5000 'a')).copied relativeCtx =
        some (List.replicate 5000 'a') := by
      rw [Op.copied, if_pos (isRelative_replicate 4999)]
    apply Op.long_errs relativeCtx_set hcopied
    rw [List.length_replicate]
    decide
  · have hjoins : (['/', 'd'], List.replicate 4095 'a') ∈
        (Op.consStore (List.replicate 4095 'a')).joins (fun _ _ => 0)
          (fun _ => none) relativeCtx :=
      mem_pairsOf.2 ⟨List.mem_singleton.2 rfl, rfl⟩
    apply Op.joins_errs relativeCtx_set (by rintro _ ⟨⟩) hjoins
    unfold JoinFits
    rw [List.length_replicate]
    decide

end Dyad.PathOps
