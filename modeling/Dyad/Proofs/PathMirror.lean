import Dyad.Proofs.NodePieces

/-!
# Operations with their paths, and with their handles

The operations that spell their paths out go the way of the same operations over
the handles they hold. What makes a path is left out on the one side; what gives
a handle back is left out on the other where no path is at stake, and the
serving of an open file is one call.
-/

namespace Dyad.PathOps

open Conc Prog

variable {hash : CString → UInt32 → UInt32}
  {realpath : CString → Option CString} {ctx : DyadCtx} {fname : CString}

/-! ## The pieces -/

/-- What of an operation with its paths stands for a call on a handle. -/
inductive PathPiece (hash : CString → UInt32 → UInt32)
    (realpath : CString → Option CString) (ctx : DyadCtx) :
    ⦃α β : Type⦄ → PathProgram α → Resources.Program β → (α → β → Prop) → Prop
  | userPath (fname : CString) : PathPiece hash realpath ctx
      (userPath hash realpath ctx.cons (isRelativeName ctx fname) fname)
      (.pure ()) fun upath _ =>
        upath.isSome = Resources.tracked hash realpath ctx fname
  | joinPath (base : Option CString) (upath : CString) :
      PathPiece hash realpath ctx (joinPath base upath) (.pure ())
        fun _ _ => True
  | joinOrigin (upath : CString) : PathPiece hash realpath ctx
      (joinOrigin ctx upath) (.pure ())
      fun origin _ => origin.isSome = ctx.originPath.isSome
  | fill (n : Nat) : PathPiece hash realpath ctx (fill n) (.pure ())
      fun _ _ => True
  | openName (path : CString) (k : Resources.Slot) : PathPiece hash realpath ctx
      (perform (.openName path)) (Resources.perform (.open k))
      fun opened fd => opened = fd.isSome
  | openPath (path : CString) : PathPiece hash realpath ctx
      (perform (.openPath path)) (Resources.perform (.open .fd))
      fun opened fd => opened = fd.isSome
  | close (k : Resources.Slot) (fd : Nat) : PathPiece hash realpath ctx
      (perform .close) (Resources.perform (.close k fd)) Eq
  | exclFlock (k : Resources.Slot) (fd : Nat) : PathPiece hash realpath ctx
      (perform .exclFlock) (Resources.perform (.exclFlock k fd)) Eq
  | sharedFlock (k : Resources.Slot) (fd : Nat) : PathPiece hash realpath ctx
      (perform .sharedFlock) (Resources.perform (.sharedFlock k fd)) Eq
  | releaseFlock (k : Resources.Slot) (fd : Nat) : PathPiece hash realpath ctx
      (perform .releaseFlock) (Resources.perform (.releaseFlock k fd))
      fun _ _ => True
  | getFileSize (k : Resources.Slot) (fd : Nat) : PathPiece hash realpath ctx
      (perform .getFileSize) (Resources.perform (.getFileSize k fd))
      fun size size' => size.toNat = size'
  | malloc (k : Resources.Slot) (n : Nat) : PathPiece hash realpath ctx
      (perform .malloc) (Resources.perform (.malloc k n))
      fun granted buf => granted = buf.isSome
  | pread (fd n : Nat) (offset : UInt64) : PathPiece hash realpath ctx
      (perform .pread) (Resources.perform (.pread fd n offset))
      fun complete nread => complete = true ↔ nread = n
  -- the client
  | fetchMetadata (upath : CString) : PathPiece hash realpath ctx
      (dyadFetchMetadata upath) (Resources.perform .fetchMetadata)
      fun r r' => r = r'.map Option.isSome
  | getData : PathPiece hash realpath ctx (perform .getData)
      (Resources.perform .getData) fun rc y => rc = y.1
  | consStore (fpath : CString) (ioFd : Nat) : PathPiece hash realpath ctx
      (dyadConsStore ctx fpath) (Resources.perform (.consStore ioFd)) Eq
  | cacheMaybeEvict (dir : CString) : PathPiece hash realpath ctx
      (perform (.cacheMaybeEvict dir)) (Resources.perform .cacheMaybeEvict)
      fun _ _ => True
  | rangeCacheEnsure (fullpath originFullpath : CString)
      (offset length : UInt64) : PathPiece hash realpath ctx
      (perform (.rangeCacheEnsure fullpath originFullpath))
      (Resources.perform (.rangeCacheEnsure offset length)) Eq
  | getDataRange (margo : Bool) (offset length : UInt64) :
      PathPiece hash realpath ctx (perform .getDataRange)
        (Resources.dyadGetDataRange margo offset length Resources.Out.empty)
        fun rc y => rc = y.1
  | setReenter (reenter : Bool) : PathPiece hash realpath ctx (.pure ())
      (Resources.perform (.setReenter reenter)) fun _ _ => True
  | freeMetadata (mdata : Nat) : PathPiece hash realpath ctx (.pure ())
      (Resources.perform (.freeMetadata mdata)) fun _ _ => True
  | returnFileData (buf : Option Nat) : PathPiece hash realpath ctx (.pure ())
      (Resources.returnFileData buf) fun _ _ => True
  | free (k : Resources.Slot) (buf : Nat) : PathPiece hash realpath ctx
      (.pure ()) (Resources.perform (.free k buf)) fun _ _ => True
  -- the service
  | isStreaming : PathPiece hash realpath ctx (perform .isStreaming)
      (Resources.perform .msgIsStreaming) Eq
  | getUserid : PathPiece hash realpath ctx (perform .getUserid)
      (Resources.perform .msgGetUserid) Eq
  | rpcUnpack : PathPiece hash realpath ctx (perform .rpcUnpack)
      (Resources.perform .rpcUnpack) Eq
  | rpcUnpackRange : PathPiece hash realpath ctx (perform .rpcUnpack)
      (Resources.perform .rpcUnpackRange)
      fun rc range => rc.isError = range.isNone
  | rpcRespond : PathPiece hash realpath ctx (perform .rpcRespond)
      (Resources.perform .rpcRespond) Eq
  | rpcDetachRequest (margo : Bool) : PathPiece hash realpath ctx
      (perform .rpcDetachRequest) (Resources.rpcDetachRequest margo)
      fun rc state => rc.isError = state.isNone
  | getBuffer (k : Resources.Slot) (n : Int) : PathPiece hash realpath ctx
      (perform .getBuffer) (Resources.perform (.getBuffer k n))
      fun rc buf => rc.isError = buf.isNone
  | rpcAbortDetached (state : Resources.ReqState) :
      PathPiece hash realpath ctx (.pure ())
        (Resources.rpcAbortDetached state) fun _ _ => True
  | msgIncref (k : Resources.Slot) : PathPiece hash realpath ctx (.pure ())
      (Resources.perform (.msgIncref k)) fun _ _ => True
  | msgDecref (k : Resources.Slot) (msg : Nat) : PathPiece hash realpath ctx
      (.pure ()) (Resources.perform (.msgDecref k msg)) fun _ _ => True
  | respondError : PathPiece hash realpath ctx (.pure ())
      (Resources.perform .respondError) fun _ _ => True
  | serve (ucxBuild : Bool) (fd : Nat) : PathPiece hash realpath ctx
      (perform .serve) (Resources.fetchOpened ucxBuild fd) fun _ _ => True
  | serveRange (fd : Nat) (offset length : UInt64) :
      PathPiece hash realpath ctx (perform .serve)
        (Resources.rangeOpened fd offset length) fun _ _ => True
  | serveItem (item : Resources.Item) (fd : Nat) (h : item.reqState ≠ none) :
      PathPiece hash realpath ctx (perform .serve)
        (Resources.workerOpened item fd) fun _ _ => True
  | workerFinish (item : Resources.Item) (h : item.reqState ≠ none) :
      PathPiece hash realpath ctx (.pure ())
        (Resources.dyadFetchWorkerFinish item) fun _ _ => True
  | complete (item : Resources.Item) : PathPiece hash realpath ctx (.pure ())
      (Resources.dyadFetchComplete item) fun _ _ => True

/-- An operation with its paths that goes the way of one with handles. -/
abbrev ShowsHandles {α β : Type} (hash : CString → UInt32 → UInt32)
    (realpath : CString → Option CString) (ctx : DyadCtx) (p : PathProgram α)
    (q : Resources.Program β) (Q : α → β → Prop) : Prop :=
  Mirrors (fun _ _ => True) (PathPiece hash realpath ctx) p q Q

/-! ## What the pieces can return -/

theorem userPath_value {may : (c : Call) → c.Res → Prop} {m : ManagedPath}
    {relative : Bool} {upath : Option CString}
    (h : Returns may (userPath hash realpath m relative fname) upath) :
    upath = userPathOf hash realpath m relative fname := by
  unfold userPath at h
  unfold userPathOf
  split at h
  · next hrel =>
    rw [if_pos hrel]
    obtain ⟨_, -, h⟩ := h.of_bind
    exact h.value
  · next hrel =>
    rw [if_neg hrel]
    obtain ⟨o, ho, h⟩ := h.of_bind
    cases hc : cmpCanonicalPathPrefix hash realpath m fname pathMax with
    | none =>
      rw [hc] at ho
      exact (ho.stuck Empty.elim).elim
    | some found =>
      rw [hc] at ho
      obtain rfl := ho.value
      cases o with
      | none => exact h.value
      | some u =>
        obtain ⟨_, -, h⟩ := h.of_bind
        exact h.value

theorem joinOrigin_value {may : (c : Call) → c.Res → Prop} {upath : CString}
    {origin : Option CString} (h : Returns may (joinOrigin ctx upath) origin) :
    origin.isSome = ctx.originPath.isSome := by
  unfold joinOrigin at h
  cases ho : ctx.originPath with
  | none =>
    rw [ho] at h
    rw [h.value]
  | some o =>
    rw [ho] at h
    obtain ⟨_, -, h⟩ := h.of_bind
    rw [h.value]
    rfl

section

open Resources (Item ReqState)

theorem fetchError_returns (fd : Nat) :
    Returns (fun _ _ => True) (Resources.fetchError fd) () :=
  .step .ok True.intro (.step true True.intro (.step () True.intro (.pure _)))

theorem fetchOpened_returns (ucxBuild : Bool) (fd : Nat) :
    Returns (fun _ _ => True) (Resources.fetchOpened ucxBuild fd) () :=
  .step .badfio True.intro (fetchError_returns fd)

theorem rangeOpened_returns (fd : Nat) (offset length : UInt64) :
    Returns (fun _ _ => True) (Resources.rangeOpened fd offset length) () :=
  .step .badfio True.intro (fetchError_returns fd)

theorem workerFinish_returns (item : Item) (h : item.reqState ≠ none) :
    ∃ item', Returns (fun _ _ => True) (Resources.dyadFetchWorkerFinish item)
      item' := by
  unfold Resources.dyadFetchWorkerFinish
  split
  · obtain ⟨state, hsome⟩ := Option.ne_none_iff_exists'.1 h
    rw [hsome]
    dsimp only
    unfold Resources.workerDetached
    split
    · exact ⟨_, .bind (Resources.rpcAbortDetached_returns state) (.pure _)⟩
    · obtain ⟨rc, hrc, -⟩ := Resources.rpcSendDetached_returns state true
      exact ⟨_, .bind hrc (.pure _)⟩
  · exact ⟨item, .pure _⟩

theorem workerOpened_returns (item : Item) (fd : Nat)
    (h : item.reqState ≠ none) :
    ∃ item', Returns (fun _ _ => True) (Resources.workerOpened item fd)
      item' := by
  obtain ⟨item', hfinish⟩ :=
    workerFinish_returns { item with rc := .badfio } h
  exact ⟨item', .step .badfio True.intro (.step true True.intro hfinish)⟩

theorem complete_returns (item : Item) :
    Returns (fun _ _ => True) (Resources.dyadFetchComplete item) () := by
  have hdestroy : Returns (fun _ _ => True)
      (Resources.dyadFetchWorkItemDestroy item) () :=
    .step () True.intro
      (.step () True.intro (.step () True.intro (.pure _)))
  unfold Resources.dyadFetchComplete
  cases item.reqState with
  | none => exact .step () True.intro hdestroy
  | some state =>
    refine .bind (a := ()) ?_ (.step () True.intro hdestroy)
    unfold Resources.finishDetached
    split
    · exact Resources.rpcAbortDetached_returns state
    · obtain ⟨rc, hrc, -⟩ := Resources.rpcSendDetached_returns state true
      exact .bind hrc (.pure _)

end

theorem pathPiece_sound :
    Table.Sound (fun _ _ => True) (PathPiece hash realpath ctx) := by
  intro α β s t R h x hret
  cases h with
  | userPath fname =>
    exact ⟨(), .pure (), congrArg Option.isSome (userPath_value hret)⟩
  | joinPath | fill => exact ⟨(), .pure (), True.intro⟩
  | joinOrigin upath => exact ⟨(), .pure (), joinOrigin_value hret⟩
  | openName | openPath | malloc =>
    cases x with
    | true => exact returns_perform (some 0) rfl
    | false => exact returns_perform none rfl
  | pread fd n offset =>
    cases x with
    | true => exact returns_perform n (iff_of_true rfl rfl)
    | false => exact returns_perform (-1) (iff_of_false nofun
      (show (-1 : Int) ≠ n by omega))
  | fetchMetadata upath =>
    cases x with
    | error rc => exact returns_perform (.error rc) rfl
    | ok there =>
      exact returns_perform (.ok (if there then some 0 else none))
        (by cases there <;> rfl)
  | getData => exact returns_perform (x, none) rfl
  | getDataRange margo offset length =>
    by_cases hx : x.isError = true
    · obtain ⟨y, hy, hcode⟩ :=
        Resources.getDataRange_returns margo offset length (r := .error x) hx
      exact ⟨y, hy, hcode.symm⟩
    · obtain rfl : x = .ok := not_not.1 (mt x.isError_iff.2 hx)
      obtain ⟨y, hy, hcode⟩ := Resources.getDataRange_returns margo offset
        length (r := .ok Posix.Bytes.empty) True.intro
      exact ⟨y, hy, hcode.symm⟩
  | returnFileData buf =>
    cases buf with
    | none => exact ⟨(), .pure (), True.intro⟩
    | some buf => exact ⟨(), .step () True.intro (.pure ()), True.intro⟩
  | rpcUnpackRange =>
    cases hx : x.isError with
    | true => exact returns_perform none hx
    | false => exact returns_perform (some (0, 0)) hx
  | getBuffer k n =>
    cases hx : x.isError with
    | true => exact returns_perform none hx
    | false => exact returns_perform (some 0) hx
  | rpcDetachRequest margo =>
    obtain ⟨state, hstate, hsome⟩ :=
      Resources.rpcDetachRequest_returns margo (!x.isError)
    refine ⟨state, hstate, ?_⟩
    change x.isError = state.isNone
    rw [← Option.not_isSome, ← hsome, Bool.not_not]
  | rpcAbortDetached state =>
    exact ⟨(), Resources.rpcAbortDetached_returns state, True.intro⟩
  | msgIncref => exact returns_perform 0 True.intro
  | serve ucxBuild fd => exact ⟨(), fetchOpened_returns ucxBuild fd, True.intro⟩
  | serveRange fd offset length =>
    exact ⟨(), rangeOpened_returns fd offset length, True.intro⟩
  | serveItem item fd h =>
    obtain ⟨item', hret⟩ := workerOpened_returns item fd h
    exact ⟨item', hret, True.intro⟩
  | workerFinish item h =>
    obtain ⟨item', hret⟩ := workerFinish_returns item h
    exact ⟨item', hret, True.intro⟩
  | complete item => exact ⟨(), complete_returns item, True.intro⟩
  | _ => first
    | exact returns_perform _ rfl
    | exact returns_perform () True.intro
    | exact returns_perform .ok True.intro

/-! ## `dyad_consume` -/

theorem consumeClose_shows {β : Type} {p : PathProgram Rc}
    {q : Resources.Program β} {Q : Rc → β → Prop}
    (h : ShowsHandles hash realpath ctx p q Q) :
    ShowsHandles hash realpath ctx
      (do
        let rc ← p
        consumeClose (some ctx) rc)
      (do
        let r ← q
        Resources.consumeClose (some ctx) r) Q :=
  .bind h fun _ _ hQ =>
    .right pathPiece_sound (.setReenter true) fun _ _ => .pure hQ

theorem consumeDone_shows (lockFd : Nat) (fileData : Option Nat) (rc : Rc) :
    ShowsHandles hash realpath ctx (consumeDone rc)
      (Resources.consumeDone lockFd fileData rc) Eq := by
  refine .step pathPiece_sound (.close .lockFd lockFd) fun closed closed' h => ?_
  obtain rfl : closed = closed' := h
  refine .right pathPiece_sound (.returnFileData fileData) fun _ _ => ?_
  cases closed with
  | true => exact .pure rfl
  | false => exact .pure rfl

theorem consumeUnlock_shows (lockFd : Nat) (fileData : Option Nat) (rc : Rc) :
    ShowsHandles hash realpath ctx (consumeUnlock rc)
      (Resources.consumeUnlock lockFd fileData rc) Eq :=
  .step pathPiece_sound (.releaseFlock .lockFd lockFd) fun _ _ _ =>
    consumeDone_shows lockFd fileData rc

section

variable {dir : CString} (hdir : ctx.cons.managedPath = some dir)

include hdir

theorem consumeStored_shows (lockFd : Nat) (fileData : Option Nat) (rc : Rc) :
    ShowsHandles hash realpath ctx (consumeStored ctx rc)
      (Resources.consumeStored lockFd fileData rc) Eq := by
  unfold consumeStored
  rw [hdir]
  refine .step pathPiece_sound (.releaseFlock .lockFd lockFd) fun _ _ _ => ?_
  change ShowsHandles hash realpath ctx
    (do
      perform (.cacheMaybeEvict dir)
      consumeDone rc) _ _
  exact .step pathPiece_sound (.cacheMaybeEvict dir) fun _ _ _ =>
    consumeDone_shows lockFd fileData rc

end

theorem unfetched_shows {size : Int} {size' : Nat} (h : size.toNat = size') :
    unfetched ctx size = Resources.unfetched ctx size' := by
  unfold unfetched Resources.unfetched
  congr 2
  exact propext (by omega)

theorem consumeShared_shows (lockFd : Nat) (upath : CString) {size : Int}
    {size' : Nat} (h : size.toNat = size') :
    ShowsHandles hash realpath ctx (consumeShared ctx upath size)
      (Resources.consumeShared ctx lockFd size') Eq := by
  refine .step pathPiece_sound (.releaseFlock .lockFd lockFd) fun _ _ _ => ?_
  rw [unfetched_shows h]
  split
  · refine .step pathPiece_sound (.fetchMetadata upath) fun r r' hr => ?_
    obtain rfl : r = r'.map Option.isSome := hr
    cases r' with
    | error rc => exact consumeDone_shows lockFd none rc
    | ok mdata => exact consumeDone_shows lockFd none .ok
  · exact consumeDone_shows lockFd none .ok

theorem consumeLocal_shows {dir : CString}
    (hdir : ctx.cons.managedPath = some dir) (lockFd : Nat)
    (fname upath : CString) {size : Int} {size' : Nat}
    (h : size.toNat = size') :
    ShowsHandles hash realpath ctx (consumeLocal ctx fname upath size)
      (Resources.consumeLocal ctx lockFd size') Eq := by
  unfold consumeLocal Resources.consumeLocal
  rw [unfetched_shows h]
  split
  · refine .step pathPiece_sound (.fetchMetadata upath) fun r r' hr => ?_
    obtain rfl : r = r'.map Option.isSome := hr
    rcases r' with rc | _ | mdata
    · exact consumeUnlock_shows lockFd none rc
    · exact consumeUnlock_shows lockFd none .ok
    · refine .step pathPiece_sound .getData fun rc y hy => ?_
      obtain ⟨rc', fileData⟩ := y
      obtain rfl : rc = rc' := hy
      change ShowsHandles hash realpath ctx (if rc.isError then _ else _)
        (if rc.isError then _ else _) _
      by_cases hrc : rc.isError = true
      · rw [if_pos hrc, if_pos hrc]
        exact consumeUnlock_shows lockFd fileData rc
      rw [if_neg hrc, if_neg hrc]
      refine .step pathPiece_sound (.openName fname .ioFd) fun opened ioFd h => ?_
      rcases opened with _ | _ <;> rcases ioFd with _ | ioFd <;> cases h
      · exact .pure rfl
      refine .step pathPiece_sound (.consStore upath ioFd) fun rc rc' hrc => ?_
      obtain rfl : rc = rc' := hrc
      refine .right pathPiece_sound (.freeMetadata mdata) fun _ _ => ?_
      refine .step pathPiece_sound (.close .ioFd ioFd) fun closed closed' h => ?_
      obtain rfl : closed = closed' := h
      cases closed with
      | false => exact consumeUnlock_shows lockFd fileData .badfio
      | true =>
        change ShowsHandles hash realpath ctx (if rc.isError then _ else _)
          (if rc.isError then _ else _) _
        split
        · exact consumeUnlock_shows lockFd fileData rc
        · exact consumeStored_shows hdir lockFd fileData rc
  · exact consumeStored_shows hdir lockFd none .ok

theorem consumeLocked_shows {dir : CString}
    (hdir : ctx.cons.managedPath = some dir) (lockFd : Nat)
    (fname upath : CString) :
    ShowsHandles hash realpath ctx (consumeLocked ctx fname upath)
      (Resources.consumeOpened ctx lockFd) Eq := by
  refine .step pathPiece_sound (.exclFlock .lockFd lockFd) fun rc rc' hrc => ?_
  obtain rfl : rc = rc' := hrc
  by_cases hrc : rc.isError = true
  · rw [if_pos hrc, if_pos hrc]
    exact consumeUnlock_shows lockFd none rc
  rw [if_neg hrc, if_neg hrc]
  refine .step pathPiece_sound (.getFileSize .lockFd lockFd)
    fun size size' hsize => ?_
  split
  · exact consumeShared_shows lockFd upath hsize
  · exact consumeLocal_shows hdir lockFd fname upath hsize

/-- `dyad_consume` with its paths goes the way of `dyad_consume` with its
handles. -/
theorem dyadConsume_shows :
    ShowsHandles hash realpath ctx
      (dyadConsume hash realpath (some ctx) fname)
      (Resources.dyadConsume hash realpath (some ctx) fname) Eq := by
  refine consumeClose_shows ?_
  unfold consumeBody Resources.consumeBody
  dsimp only
  split
  · exact .pure rfl
  cases hdir : ctx.cons.managedPath with
  | none => exact .pure rfl
  | some dir =>
    refine .left pathPiece_sound (.userPath fname) fun upath hu => ?_
    cases upath with
    | none =>
      have hnot : ¬ Resources.tracked hash realpath ctx fname = true := by
        rw [← hu]
        decide
      rw [if_neg hnot]
      exact .pure rfl
    | some upath =>
      have hpos : Resources.tracked hash realpath ctx fname = true := hu.symm
      rw [if_pos hpos]
      refine .right pathPiece_sound (.setReenter false) fun _ _ => ?_
      refine .step pathPiece_sound (.openName fname .lockFd)
        fun opened fd h => ?_
      rcases opened with _ | _ <;> rcases fd with _ | fd <;> cases h
      · exact .pure rfl
      · exact consumeLocked_shows hdir fd fname upath

/-! ## `dyad_consume_w_metadata` -/

theorem consumeReturn_shows (fileData : Option Nat) (rc : Rc) :
    ShowsHandles hash realpath ctx (.pure rc)
      (Resources.consumeReturn fileData rc) Eq :=
  .right pathPiece_sound (.returnFileData fileData) fun _ _ => .pure rfl

theorem consumeGiveUp_shows (k : Resources.Slot) (fd : Nat)
    (fileData : Option Nat) (rc : Rc) :
    ShowsHandles hash realpath ctx (consumeGiveUp rc)
      (do
        let _ ← Resources.perform (.releaseFlock k fd)
        Resources.consumeReturn fileData rc) Eq :=
  .step pathPiece_sound (.releaseFlock k fd) fun _ _ _ =>
    consumeReturn_shows fileData rc

theorem consumeWMetadataStored_shows {dir : CString}
    (hdir : ctx.cons.managedPath = some dir) (lockFd : Nat)
    (fileData : Option Nat) :
    ShowsHandles hash realpath ctx (consumeStored ctx .ok)
      (Resources.consumeWMetadataStored lockFd fileData) Eq := by
  unfold consumeStored
  rw [hdir]
  refine .step pathPiece_sound (.releaseFlock .lockFd lockFd) fun _ _ _ => ?_
  change ShowsHandles hash realpath ctx
    (do
      perform (.cacheMaybeEvict dir)
      consumeDone .ok) _ _
  refine .step pathPiece_sound (.cacheMaybeEvict dir) fun _ _ _ => ?_
  refine .step pathPiece_sound (.close .lockFd lockFd) fun closed closed' h => ?_
  obtain rfl : closed = closed' := h
  cases closed with
  | true => exact consumeReturn_shows fileData .ok
  | false => exact consumeReturn_shows fileData .badfio

theorem consumeWMetadataLocked_shows {dir : CString}
    (hdir : ctx.cons.managedPath = some dir) (lockFd : Nat)
    (fname fpath : CString) :
    ShowsHandles hash realpath ctx (consumeWMetadataLocked ctx fname fpath)
      (Resources.consumeWMetadataOpened lockFd) Eq := by
  refine .step pathPiece_sound (.exclFlock .lockFd lockFd) fun rc rc' hrc => ?_
  obtain rfl : rc = rc' := hrc
  by_cases hrc : rc.isError = true
  · rw [if_pos hrc, if_pos hrc]
    exact .step pathPiece_sound (.releaseFlock .lockFd lockFd)
      fun _ _ _ => .pure rfl
  rw [if_neg hrc, if_neg hrc]
  refine .step pathPiece_sound (.getFileSize .lockFd lockFd)
    fun size size' hsize => ?_
  have hiff : size' ≤ 0 ↔ size ≤ 0 := by
    obtain rfl : size.toNat = size' := hsize
    exact Nat.le_zero.trans Int.toNat_eq_zero
  by_cases hempty : size ≤ 0
  · rw [if_pos hempty, if_pos (hiff.2 hempty)]
    refine .step pathPiece_sound .getData fun rc y hy => ?_
    obtain ⟨rc', fileData⟩ := y
    obtain rfl : rc = rc' := hy
    change ShowsHandles hash realpath ctx (if rc.isError then _ else _)
      (if rc.isError then _ else _) _
    by_cases hrc : rc.isError = true
    · rw [if_pos hrc, if_pos hrc]
      exact consumeGiveUp_shows .lockFd lockFd fileData rc
    rw [if_neg hrc, if_neg hrc]
    refine .step pathPiece_sound (.openName fname .ioFd) fun opened ioFd h => ?_
    rcases opened with _ | _ <;> rcases ioFd with _ | ioFd <;> cases h
    · exact .pure rfl
    refine .step pathPiece_sound (.consStore fpath ioFd) fun rc rc' hrc => ?_
    obtain rfl : rc = rc' := hrc
    refine .step pathPiece_sound (.close .ioFd ioFd) fun closed closed' h => ?_
    obtain rfl : closed = closed' := h
    cases closed with
    | false => exact consumeGiveUp_shows .lockFd lockFd fileData .badfio
    | true =>
      change ShowsHandles hash realpath ctx (if rc.isError then _ else _)
        (if rc.isError then _ else _) _
      split
      · exact consumeGiveUp_shows .ioFd ioFd fileData rc
      · exact consumeWMetadataStored_shows hdir lockFd fileData
  · rw [if_neg hempty, if_neg (mt hiff.1 hempty)]
    exact consumeWMetadataStored_shows hdir lockFd none

/-- So does `dyad_consume_w_metadata`. -/
theorem dyadConsumeWMetadata_shows (mdata : Option CString) :
    ShowsHandles hash realpath ctx
      (dyadConsumeWMetadata (some ctx) fname mdata)
      (Resources.dyadConsumeWMetadata (some ctx) mdata.isSome) Eq := by
  refine consumeClose_shows ?_
  unfold consumeWMetadataBody Resources.consumeWMetadataBody
  dsimp only
  split
  · exact .pure rfl
  cases mdata with
  | none => exact .pure rfl
  | some fpath =>
    cases hdir : ctx.cons.managedPath with
    | none => exact .pure rfl
    | some dir =>
      refine .right pathPiece_sound (.setReenter false) fun _ _ => ?_
      refine .step pathPiece_sound (.openName fname .lockFd)
        fun opened fd h => ?_
      rcases opened with _ | _ <;> rcases fd with _ | fd <;> cases h
      · exact .pure rfl
      · exact consumeWMetadataLocked_shows hdir fd fname fpath

/-! ## `dyad_consume_range` -/

/-- The same code is returned. -/
abbrev SameCode (rc : Rc) (r : Rc × Resources.Out) : Prop := rc = r.1

theorem short_iff (nread : Int) {n : Nat} :
    (nread < 0 ∨ nread.toNat ≠ n) ↔ ¬ nread = n := by
  omega

theorem consumeRangeRead_shows (fd : Nat) (offset length : UInt64) :
    ShowsHandles hash realpath ctx consumeRangeRead
      (do
        let rc ← Resources.perform (.sharedFlock .fd fd)
        if rc.isError then
          let _ ← Resources.perform (.close .fd fd)
          return (rc, Resources.Out.empty)
        else
          Resources.consumeRangeRead fd offset length) SameCode := by
  refine .step pathPiece_sound (.sharedFlock .fd fd) fun rc rc' hrc => ?_
  obtain rfl : rc = rc' := hrc
  by_cases hrc : rc.isError = true
  · rw [if_pos hrc, if_pos hrc]
    exact .step pathPiece_sound (.close .fd fd) fun _ _ _ => .pure rfl
  rw [if_neg hrc, if_neg hrc]
  refine .step pathPiece_sound (.malloc .data length.toNat)
    fun granted buf h => ?_
  rcases granted with _ | _ <;> rcases buf with _ | buf <;> cases h
  · refine .step pathPiece_sound (.releaseFlock .fd fd) fun _ _ _ => ?_
    exact .step pathPiece_sound (.close .fd fd) fun _ _ _ => .pure rfl
  refine .step pathPiece_sound (.pread fd length.toNat offset)
    fun complete nread hread => ?_
  refine .step pathPiece_sound (.releaseFlock .fd fd) fun _ _ _ => ?_
  refine .step pathPiece_sound (.close .fd fd) fun _ _ _ => ?_
  have hshort : (nread < 0 ∨ nread.toNat ≠ length.toNat) ↔
      ¬ complete = true := (short_iff nread).trans (not_congr hread.symm)
  by_cases hc : complete = true
  · rw [if_pos hc, if_neg (mt hshort.1 (not_not.2 hc))]
    exact .pure rfl
  · rw [if_neg hc, if_pos (hshort.2 hc)]
    exact .right pathPiece_sound (.free .data buf) fun _ _ => .pure rfl

theorem consumeRangeEnsured_shows (fullpath : CString) (offset length : UInt64)
    (rc : Rc) :
    ShowsHandles hash realpath ctx
      (do
        if rc.isError then
          return rc
        else if ← perform (.openPath fullpath) then
          consumeRangeRead
        else
          return .badfio)
      (Resources.consumeRangeEnsured offset length rc) SameCode := by
  unfold Resources.consumeRangeEnsured
  split
  · exact .pure rfl
  refine .step pathPiece_sound (.openPath fullpath) fun opened fd h => ?_
  rcases opened with _ | _ <;> rcases fd with _ | fd <;> cases h
  · exact .pure rfl
  · exact consumeRangeRead_shows fd offset length

theorem consumeRangeLocal_shows (upath : CString) (offset length : UInt64) :
    ShowsHandles hash realpath ctx (consumeRangeLocal ctx upath)
      (Resources.consumeRangeLocal ctx offset length) SameCode := by
  refine .left pathPiece_sound (.joinPath _ upath) fun fullpath _ => ?_
  refine .left pathPiece_sound (.joinOrigin upath) fun origin ho => ?_
  unfold Resources.consumeRangeLocal
  rw [← ho]
  cases origin with
  | none => exact consumeRangeEnsured_shows fullpath offset length .ok
  | some originFullpath =>
    refine .step pathPiece_sound
      (.rangeCacheEnsure fullpath originFullpath offset length)
      fun rc rc' hrc => ?_
    obtain rfl : rc = rc' := hrc
    exact consumeRangeEnsured_shows fullpath offset length rc

/-- And so does `dyad_consume_range`. -/
theorem dyadConsumeRange_shows (offset length : UInt64) :
    ShowsHandles hash realpath ctx
      (dyadConsumeRange hash realpath (some ctx) fname)
      (Resources.dyadConsumeRange hash realpath (some ctx) fname offset length)
      SameCode := by
  refine consumeClose_shows ?_
  unfold consumeRangeBody Resources.consumeRangeBody
  dsimp only
  split
  · exact .pure rfl
  split
  · exact .pure rfl
  cases hd : ctx.dtlHandle with
  | none => exact .pure rfl
  | some dtl =>
    have hall : (some dtl).all (·.mode = .ucx) = true ↔ dtl.mode = .ucx :=
      decide_eq_true_iff
    dsimp only
    by_cases hu : dtl.mode = .ucx
    · rw [if_pos (hall.2 hu), if_pos hu]
      exact .pure rfl
    rw [if_neg (mt hall.1 hu), if_neg hu]
    refine .left pathPiece_sound (.userPath fname) fun upath hu => ?_
    cases upath with
    | none =>
      have hnot : ¬ Resources.tracked hash realpath ctx fname = true := by
        rw [← hu]
        decide
      rw [if_neg hnot]
      exact .pure rfl
    | some upath =>
      have hpos : Resources.tracked hash realpath ctx fname = true := hu.symm
      rw [if_pos hpos]
      refine .right pathPiece_sound (.setReenter false) fun _ _ => ?_
      refine .step pathPiece_sound (.fetchMetadata upath) fun r r' hr => ?_
      obtain rfl : r = r'.map Option.isSome := hr
      rcases r' with rc | _ | mdata
      · exact .pure rfl
      · exact consumeRangeLocal_shows upath offset length
      · refine .last (.piece pathPiece_sound (.getDataRange _ offset length))
          fun rc y hy => ?_
        exact .right pathPiece_sound (.freeMetadata mdata) fun _ _ => .pure hy

/-! ## The service -/

/-- Nothing is asked of what is returned. -/
abbrev Any {α β : Type} (_ : α) (_ : β) : Prop := True

theorem fetchErrorWoFlock_shows (failed : Bool) :
    ShowsHandles hash realpath ctx (.pure failed) Resources.fetchErrorWoFlock
      Any :=
  .silent pathPiece_sound .respondError fun _ => True.intro

/-- An exit of the range handler, which enqueues nothing. -/
theorem exit_shows (failed : Bool) :
    ShowsHandles hash realpath ctx (.pure failed)
      (Prog.bind (do
        Resources.fetchErrorWoFlock
        return none) Resources.processItem) Any :=
  .assoc_right (.right pathPiece_sound .respondError fun _ _ =>
    .pure True.intro)

/-- `dyad_fetch_request_cb` with its paths goes the way of the handler with its
handles. -/
theorem dyadFetchRequestCb_shows (ucxBuild : Bool) (upath : CString) :
    ShowsHandles hash realpath ctx (dyadFetchRequestCb ctx upath)
      (Resources.dyadFetchRequestCb ucxBuild) Any := by
  refine .assoc (.step pathPiece_sound .isStreaming fun b b' hb => ?_)
  obtain rfl : b = b' := hb
  cases b with
  | false => exact fetchErrorWoFlock_shows true
  | true =>
    refine .assoc (.step pathPiece_sound .getUserid fun b b' hb => ?_)
    obtain rfl : b = b' := hb
    cases b with
    | false => exact fetchErrorWoFlock_shows true
    | true =>
      refine .assoc (.step pathPiece_sound .rpcUnpack fun rc rc' hrc => ?_)
      obtain rfl : rc = rc' := hrc
      by_cases hrc : rc.isError = true
      · rw [if_pos hrc, if_pos hrc]
        exact fetchErrorWoFlock_shows true
      rw [if_neg hrc, if_neg hrc]
      refine .assoc (.step pathPiece_sound .rpcRespond fun rc rc' hrc => ?_)
      obtain rfl : rc = rc' := hrc
      cases hrc : rc.isError with
      | true => exact fetchErrorWoFlock_shows true
      | false =>
        change ShowsHandles hash realpath ctx
          (Prog.bind (joinPath ctx.prod.managedPath upath) _) _ _
        refine .left pathPiece_sound (.joinPath _ upath) fun fullpath _ => ?_
        refine .step pathPiece_sound (.openPath fullpath) fun opened fd h => ?_
        rcases opened with _ | _ <;> rcases fd with _ | fd <;> cases h
        · exact fetchErrorWoFlock_shows true
        · exact .ahead (.piece pathPiece_sound (.serve ucxBuild fd))
            fun _ _ _ => .pure True.intro

theorem complete_shows (item : Resources.Item) (failed : Bool) :
    ShowsHandles hash realpath ctx (.pure failed)
      (Resources.dyadFetchComplete item) Any :=
  .silent pathPiece_sound (.complete item) fun _ => True.intro

/-- The range that a worker serves, and its completion. -/
theorem serveItem_shows (item : Resources.Item) (h : item.reqState ≠ none)
    (fullpath : CString) (rc : Rc) :
    ShowsHandles hash realpath ctx
      (do
        if rc.isError then
          return true
        else if ← perform (.openPath fullpath) then
          let served ← perform .serve
          return !served
        else
          return true)
      (Prog.bind (Resources.workerEnsured item rc)
        Resources.dyadFetchComplete) Any := by
  have hfinish : ShowsHandles hash realpath ctx (.pure true)
      (Prog.bind
        (Resources.dyadFetchWorkerFinish { item with rc := .badfio })
        Resources.dyadFetchComplete) Any :=
    .right pathPiece_sound (.workerFinish _ h) fun item' _ =>
      complete_shows item' true
  unfold Resources.workerEnsured
  by_cases hrc : rc.isError = true
  · rw [if_pos hrc, if_pos hrc]
    exact hfinish
  rw [if_neg hrc, if_neg hrc]
  refine .assoc_right (.step pathPiece_sound (.openPath fullpath)
    fun opened fd hopen => ?_)
  rcases opened with _ | _ <;> rcases fd with _ | fd <;> cases hopen
  · exact hfinish
  · exact .step pathPiece_sound (.serveItem item fd h) fun served item' _ =>
      complete_shows item' !served

theorem serveRange_shows (fullpath : CString) (offset length : UInt64)
    (rc : Rc) :
    ShowsHandles hash realpath ctx
      (do
        if rc.isError then
          return true
        else if ← perform (.openPath fullpath) then
          let served ← perform .serve
          return !served
        else
          return true)
      (Resources.rangeEnsured offset length rc) Any := by
  unfold Resources.rangeEnsured
  by_cases hrc : rc.isError = true
  · rw [if_pos hrc, if_pos hrc]
    exact fetchErrorWoFlock_shows true
  rw [if_neg hrc, if_neg hrc]
  refine .step pathPiece_sound (.openPath fullpath) fun opened fd hopen => ?_
  rcases opened with _ | _ <;> rcases fd with _ | fd <;> cases hopen
  · exact fetchErrorWoFlock_shows true
  · exact .ahead (.piece pathPiece_sound (.serveRange fd offset length))
      fun _ _ _ => .pure True.intro

theorem processItem_shows {item : Resources.Item} {origin : Option CString}
    (h : item.reqState ≠ none) (fullpath : CString)
    (ho : origin.isSome = item.hasOrigin) :
    ShowsHandles hash realpath ctx (serveRange fullpath origin)
      (Resources.processItem (some item)) Any := by
  have hitem : Resources.processItem (some item) =
      Prog.bind (Resources.dyadFetchWorkerProcess item)
        Resources.dyadFetchComplete := rfl
  rw [hitem]
  unfold Resources.dyadFetchWorkerProcess
  rw [← ho]
  cases origin with
  | none => exact serveItem_shows item h fullpath .ok
  | some originFullpath =>
    refine .assoc_right (.step pathPiece_sound
      (.rangeCacheEnsure fullpath originFullpath item.offset item.length)
      fun rc rc' hrc => ?_)
    obtain rfl : rc = rc' := hrc
    exact serveItem_shows item h fullpath rc

section

variable {cfg : RangeConfig}
  (horigin : cfg.ctx.originPath = ctx.originPath.isSome)

include horigin

theorem fetchRangeFallback_shows (fullpath upath : CString)
    (offset length : UInt64) :
    ShowsHandles hash realpath ctx (fetchRangeFallback ctx fullpath upath)
      (Resources.rangeSync cfg offset length) Any := by
  refine .left pathPiece_sound (.joinOrigin upath) fun origin ho => ?_
  unfold Resources.rangeSync
  rw [horigin, ← ho]
  cases origin with
  | none => exact serveRange_shows fullpath offset length .ok
  | some originFullpath =>
    refine .step pathPiece_sound
      (.rangeCacheEnsure fullpath originFullpath offset length)
      fun rc rc' hrc => ?_
    obtain rfl : rc = rc' := hrc
    exact serveRange_shows fullpath offset length rc

theorem fetchRangeThreaded_shows (fullpath upath : CString)
    (offset length : UInt64) :
    ShowsHandles hash realpath ctx (fetchRangeThreaded ctx fullpath upath)
      (Prog.bind (Resources.rangeEnqueue cfg offset length)
        Resources.processItem) Any := by
  refine .assoc_right (.step pathPiece_sound (.malloc .item workItemSize)
    fun granted ptr h => ?_)
  rcases granted with _ | _ <;> rcases ptr with _ | ptr <;> cases h
  · exact exit_shows true
  refine .left pathPiece_sound (.fill _) fun _ _ => ?_
  refine .left pathPiece_sound (.joinOrigin upath) fun origin ho => ?_
  refine .assoc_right (.right pathPiece_sound (.msgIncref .msg) fun msg _ => ?_)
  refine .assoc_right (.step pathPiece_sound (.rpcDetachRequest _)
    fun rc state h => ?_)
  cases state with
  | none =>
    have hrc : rc.isError = true := h
    rw [if_pos hrc]
    refine .assoc_right (.right pathPiece_sound (.msgDecref .msg msg)
      fun _ _ => ?_)
    refine .assoc_right (.right pathPiece_sound (.free .item ptr) fun _ _ => ?_)
    exact exit_shows true
  | some state =>
    have hrc : ¬ rc.isError = true := by
      rw [show rc.isError = false from h]
      decide
    rw [if_neg hrc]
    refine .assoc_right (.step pathPiece_sound (.getBuffer .inbuf _)
      fun rc inbuf h => ?_)
    cases inbuf with
    | none =>
      have hrc : rc.isError = true := h
      rw [if_pos hrc]
      refine .assoc_right (.right pathPiece_sound (.rpcAbortDetached state)
        fun _ _ => ?_)
      refine .assoc_right (.right pathPiece_sound (.msgDecref .msg msg)
        fun _ _ => ?_)
      refine .assoc_right (.right pathPiece_sound (.free .item ptr)
        fun _ _ => ?_)
      exact exit_shows true
    | some inbuf =>
      have hrc : ¬ rc.isError = true := by
        rw [show rc.isError = false from h]
        decide
      rw [if_neg hrc]
      exact processItem_shows (Option.some_ne_none state) _
        (ho.trans horigin.symm)

/-- So does the handler of a range, with the worker and the completion that come
after it. -/
theorem dyadFetchRangeRequestCb_shows (hmode : cfg.ctx.dtlMode ≠ .ucx)
    (upath : CString) :
    ShowsHandles hash realpath ctx
      (dyadFetchRangeRequestCb ctx cfg.workers upath)
      (Resources.serve (.range cfg)) Any := by
  refine .assoc_right (.assoc (.step pathPiece_sound .isStreaming
    fun b b' hb => ?_))
  obtain rfl : b = b' := hb
  cases b with
  | false => exact exit_shows true
  | true =>
    refine .assoc_right (.assoc (.step pathPiece_sound .getUserid
      fun b b' hb => ?_))
    obtain rfl : b = b' := hb
    cases b with
    | false => exact exit_shows true
    | true =>
      change ShowsHandles hash realpath ctx _
        (Prog.bind (if cfg.ctx.dtlMode = .ucx then _ else _) _) _
      rw [if_neg hmode]
      refine .assoc_right (.assoc (.step pathPiece_sound .rpcUnpackRange
        fun rc range h => ?_))
      cases range with
      | none =>
        have hrc : rc.isError = true := h
        rw [if_pos hrc]
        exact exit_shows true
      | some range =>
        have hrc : ¬ rc.isError = true := by
          rw [show rc.isError = false from h]
          decide
        rw [if_neg hrc]
        refine .assoc_right (.assoc (.step pathPiece_sound .rpcRespond
          fun rc rc' hrc => ?_))
        obtain rfl : rc = rc' := hrc
        cases hrc : rc.isError with
        | true => exact exit_shows true
        | false =>
          change ShowsHandles hash realpath ctx
            (Prog.bind (joinPath ctx.prod.managedPath upath) _) _ _
          refine .left pathPiece_sound (.joinPath _ upath) fun fullpath _ => ?_
          change ShowsHandles hash realpath ctx
            (if cfg.workers then _ else _)
            (Prog.bind (if cfg.workers then _ else _) _) _
          split
          · exact fetchRangeThreaded_shows horigin fullpath upath _ _
          · exact .assoc_right (.last
              (fetchRangeFallback_shows horigin fullpath upath range.1 range.2)
              fun _ _ _ => .pure True.intro)

end

end Dyad.PathOps
