import Dyad.Proofs.NodePieces

/-!
# Serving over a node, and serving with its handles

A request served over the files of a node goes the way of the same request
served with its handles, piece by piece: the two handlers, and the worker and
the completion of a range with them.
-/

namespace Dyad.Resources

open Conc Prog

variable {c : Ctx}

/-- Nothing is asked of what is returned. -/
abbrev Any {α β : Type} (_ : α) (_ : β) : Prop := True

/-! ## The exits -/

theorem fetchErrorWoFlock_shows :
    ShowsHandles c Dyad.fetchErrorWoFlock fetchErrorWoFlock Any :=
  .left nodePiece_sound .errno fun e _ =>
    .piece nodePiece_sound (.respondError e)

theorem fetchErrorWith_shows (e : Posix.Errno) :
    ShowsHandles c (Dyad.fetchErrorWith e) fetchErrorWoFlock Any :=
  .left nodePiece_sound (.setErrno e) fun _ _ => fetchErrorWoFlock_shows

theorem fetchError_shows (fd : Nat) :
    ShowsHandles c (Dyad.fetchError fd) (fetchError fd) Any :=
  .step nodePiece_sound (.unlock .fd fd) fun _ _ _ =>
    .step nodePiece_sound (.close .fd fd) fun _ _ _ =>
      fetchErrorWoFlock_shows

/-- An exit of the range handler, which enqueues nothing. -/
theorem exit_shows {α β : Type} {p : Dyad.Program Unit} {q : Program Unit}
    (h : ShowsHandles c p q Any) (Q : Option α → Option β → Prop)
    (hQ : Q none none) :
    ShowsHandles c (do p; return none) (do q; return none) Q :=
  .bind h fun _ _ _ => .pure hQ

theorem Fails.error {α : Type} {rc rc' : Rc}
    (h : Fails (.error rc : Except Rc α) rc') : rc'.isError = true := by
  simpa [Fails, Except.isOk, Except.toBool] using h

theorem Fails.ok {α : Type} {a : α} {rc' : Rc}
    (h : Fails (.ok a : Except Rc α) rc') : ¬ rc'.isError = true := by
  simpa [Fails, Except.isOk, Except.toBool] using h

theorem fetchSend_shows (payload : Posix.Bytes Byte) (inbuf : Option Nat) :
    ShowsHandles c (Dyad.fetchSend payload) (fetchSend inbuf) Any := by
  refine .step nodePiece_sound .establishConnection fun r rc hr => ?_
  cases r with
  | error e =>
    rw [if_pos hr.error]
    exact fetchErrorWith_shows _
  | ok u =>
    rw [if_neg hr.ok]
    refine .step nodePiece_sound (.send payload inbuf) fun r rc hr => ?_
    cases r with
    | error e =>
      rw [if_pos hr.error]
      exact fetchErrorWith_shows _
    | ok u =>
      rw [if_neg hr.ok]
      refine .step nodePiece_sound .closeConnection fun _ _ _ => ?_
      refine .step nodePiece_sound (.returnBuffer .inbuf inbuf) fun _ _ _ => ?_
      exact .piece nodePiece_sound (.respondError _)

/-! ## `dyad_fetch_request_cb` -/

/-- What has been read of a file, and how much that is. -/
abbrev ReadLen (d : Option (Posix.Bytes Byte)) (n : Option Int) : Prop :=
  d.map (fun d => (d.size : Int)) = n

/-- What both loops over a file do with what one read gave. -/
def readOn (f : Posix.Bytes Byte → Dyad.Program (Option (Posix.Bytes Byte)))
    (r : Option (Posix.Bytes Byte)) :
    Dyad.Program (Option (Posix.Bytes Byte)) :=
  match r with
  | none => return none
  | some d => if d.size = 0 then return none else f d

/-- A turn of a loop: a read, and the turns behind it. -/
theorem readOn_shows {s : Dyad.Program (Option (Posix.Bytes Byte))}
    {t : Program Int} (h : NodePiece c s t fun r n => intoLen r = n)
    {f : Posix.Bytes Byte → Dyad.Program (Option (Posix.Bytes Byte))}
    {g : Int → Program (Option Int)}
    (hmore : ∀ d, ShowsHandles c (f d) (g d.size) ReadLen) :
    ShowsHandles c (s.bind (readOn f))
      (t.bind fun inlen => if inlen ≤ 0 then .pure none else g inlen)
      ReadLen := by
  refine .step nodePiece_sound h fun r n hn => ?_
  obtain rfl : intoLen r = n := hn
  cases r with
  | none => exact .pure rfl
  | some d =>
    change ShowsHandles c (if d.size = 0 then _ else _)
      (if (d.size : Int) ≤ 0 then _ else _) _
    by_cases hd : d.size = 0
    · rw [if_pos hd, if_pos (by omega)]
      exact .pure rfl
    · rw [if_neg hd, if_neg (by omega)]
      exact hmore d

theorem fetchReadLoop_shows (inbuf : Bool) (fd fileSize fuel : Nat)
    (content : Posix.Bytes Byte) :
    ShowsHandles c (Dyad.fetchReadLoop inbuf fd fileSize fuel content)
      (fetchReadLoop fd fileSize fuel content.size) ReadLen := by
  induction fuel generalizing content with
  | zero => exact .pure rfl
  | succ fuel ih =>
    unfold Dyad.fetchReadLoop fetchReadLoop
    by_cases hmore : content.size < fileSize
    · have hmore' : (content.size : Int) < fileSize := by omega
      rw [if_pos hmore, if_pos hmore']
      have hsize : min ((fileSize : Int) - content.size) transferGranularity =
          (min (fileSize - content.size) transferGranularity : Nat) := by
        omega
      dsimp only
      rw [hsize]
      refine readOn_shows (.readInto inbuf fd _ _) fun d => ?_
      have hih := ih (content.append d)
      rw [Posix.Bytes.size_append] at hih
      exact hih
    · rw [if_neg hmore, if_neg (by omega : ¬ (content.size : Int) < fileSize)]
      exact .pure rfl

/-- The same of a read at one go, which may also return -1. -/
abbrev ReadOf (d : Option (Posix.Bytes Byte)) (n : Option Int) : Prop :=
  d = none ∧ n = none ∨ n = some (intoLen d)

theorem ReadLen.readOf {d : Option (Posix.Bytes Byte)} {n : Option Int}
    (h : ReadLen d n) : ReadOf d n := by
  cases d with
  | none => exact Or.inl ⟨rfl, h.symm⟩
  | some d => exact Or.inr h.symm

theorem fetchRead_shows (inbuf : Bool) (fd fileSize : Nat) :
    ShowsHandles c (Dyad.fetchRead inbuf fd fileSize) (fetchRead fd fileSize)
      ReadOf := by
  unfold Dyad.fetchRead fetchRead
  by_cases hsmall : fileSize < transferGranularity
  · rw [if_pos hsmall, if_pos hsmall]
    refine .last (.piece nodePiece_sound (.readInto inbuf fd 0 fileSize))
      fun d n hn => .pure (Or.inr ?_)
    rw [hn]
  · rw [if_neg hsmall, if_neg hsmall]
    exact (fetchReadLoop_shows inbuf fd fileSize fileSize
      Posix.Bytes.empty).imp fun _ _ => ReadLen.readOf

theorem fetchBuffered_shows (ucxBuild : Bool) (inbuf : Option Nat)
    (fd fileSize : Nat) :
    ShowsHandles c (Dyad.fetchBuffered ucxBuild inbuf.isSome fd fileSize)
      (fetchBuffered ucxBuild inbuf fd fileSize) Any := by
  unfold Dyad.fetchBuffered
  by_cases hub : ucxBuild = true ∧ inbuf.isSome = false
  · rw [if_pos hub]
    exact .stuck Empty.elim
  have hub' : ¬ (ucxBuild = true ∧ inbuf = none) := by
    rintro ⟨hu, rfl⟩
    exact hub ⟨hu, rfl⟩
  unfold fetchBuffered
  rw [if_neg hub, if_neg hub']
  by_cases hpos : fileSize > 0
  · rw [if_pos hpos, if_pos hpos]
    refine .bind (fetchRead_shows inbuf.isSome fd fileSize) fun d n hread => ?_
    rcases hread with ⟨rfl, rfl⟩ | rfl
    · exact fetchError_shows fd
    · cases d with
      | none =>
        change ShowsHandles c _ (if (-1 : Int) ≠ fileSize then _ else _) _
        rw [if_pos (by omega)]
        exact fetchError_shows fd
      | some content =>
        change ShowsHandles c (if content.size ≠ fileSize then _ else _)
          (if (content.size : Int) ≠ fileSize then _ else _) _
        by_cases hall : content.size ≠ fileSize
        · rw [if_pos hall, if_pos (by omega)]
          exact fetchError_shows fd
        · rw [if_neg hall, if_neg (by omega)]
          refine .step nodePiece_sound (.releaseFlock .fd fd) fun _ _ _ => ?_
          refine .step nodePiece_sound (.close .fd fd) fun _ _ _ => ?_
          exact fetchSend_shows _ inbuf
  · rw [if_neg hpos, if_neg hpos]
    exact fetchError_shows fd

theorem fetchOpened_shows (ucxBuild : Bool) (fd : Nat) :
    ShowsHandles c (Dyad.fetchOpened ucxBuild fd) (fetchOpened ucxBuild fd)
      Any := by
  refine .step nodePiece_sound (.sharedFlock .fd fd) fun rc rc' hrc => ?_
  obtain rfl : rc = rc' := hrc
  by_cases hrc : rc.isError = true
  · rw [if_pos hrc, if_pos hrc]
    exact fetchError_shows fd
  rw [if_neg hrc, if_neg hrc]
  refine .step nodePiece_sound (.getFileSize .fd fd) fun size size' hsize => ?_
  obtain rfl : size = size' := hsize
  refine .step nodePiece_sound (.getBuffer .inbuf size) fun r inbuf hr => ?_
  cases r with
  | error rc =>
    have hnone : inbuf.isSome = false := hr.symm
    exact hnone ▸ fetchBuffered_shows ucxBuild inbuf fd size
  | ok u =>
    have hsome : inbuf.isSome = true := hr.symm
    exact hsome ▸ fetchBuffered_shows ucxBuild inbuf fd size

theorem dyadFetchRequestCb_shows (ucxBuild : Bool) :
    ShowsHandles c (Dyad.dyadFetchRequestCb ucxBuild)
      (dyadFetchRequestCb ucxBuild) Any := by
  refine .step nodePiece_sound .msgIsStreaming fun b b' hb => ?_
  obtain rfl : b = b' := hb
  cases b with
  | false => exact fetchErrorWith_shows _
  | true =>
    refine .step nodePiece_sound .msgGetUserid fun r found hr => ?_
    obtain rfl : r.isOk = found := hr
    cases r with
    | error e => exact fetchErrorWoFlock_shows
    | ok u =>
      refine .step nodePiece_sound .rpcUnpack fun r rc hr => ?_
      cases r with
      | nullAddress => exact .stuck Empty.elim
      | error rc' =>
        have hrc : rc.isError = true := hr
        rw [if_pos hrc]
        exact fetchErrorWith_shows _
      | ok =>
        have hrc : rc.isError = false := hr
        rw [if_neg (by rw [hrc]; decide)]
        refine .step nodePiece_sound .rpcRespond fun r rc hr => ?_
        cases r with
        | error rc' =>
          rw [if_pos hr.error]
          exact fetchErrorWoFlock_shows
        | ok u =>
          rw [if_neg hr.ok]
          refine .step nodePiece_sound (.open .fd) fun r fd hr => ?_
          cases r with
          | error e =>
            obtain rfl : none = fd := hr
            exact fetchErrorWoFlock_shows
          | ok i =>
            obtain rfl : some i = fd := hr
            exact fetchOpened_shows ucxBuild i

/-! ## The worker and the completion -/

/-- The same work item, with a detached state while it has one. -/
structure ItemShown (item : WorkItem) (item' : Item) : Prop where
  hasOrigin : item.hasOrigin = item'.hasOrigin
  offset : item.offset = item'.offset
  length : item.length = item'.length
  sendDetachedIsThreadSafe :
    item.sendDetachedIsThreadSafe = item'.sendDetachedIsThreadSafe
  reqState : item.reqState = item'.reqState.isSome
  rc : item.rc.isError = item'.rc.isError

theorem rangeReadLoop_shows (fd : Nat) (offset : UInt64) (rangeLen : Int)
    (fuel : Nat) (content : Posix.Bytes Byte) :
    ShowsHandles c
      (Dyad.rangeReadLoop fd offset rangeLen.toNat fuel content)
      (rangeReadLoop fd offset rangeLen fuel content.size) ReadLen := by
  induction fuel generalizing content with
  | zero => exact .pure rfl
  | succ fuel ih =>
    unfold Dyad.rangeReadLoop rangeReadLoop
    by_cases hmore : content.size < rangeLen.toNat
    · have hmore' : (content.size : Int) < rangeLen := by omega
      rw [if_pos hmore, if_pos hmore']
      have hsize : min (rangeLen - content.size) transferGranularity =
          (min (rangeLen.toNat - content.size) transferGranularity : Nat) := by
        omega
      dsimp only
      rw [hsize]
      refine readOn_shows (.preadAt fd _ _) fun d => ?_
      have hih := ih (content.append d)
      rw [Posix.Bytes.size_append] at hih
      exact hih
    · rw [if_neg hmore, if_neg (by omega : ¬ (content.size : Int) < rangeLen)]
      exact .pure rfl

theorem dyadFetchWorkerFinish_shows {item : WorkItem} {item' : Item}
    (hi : ItemShown item item') (hstate : item'.reqState ≠ none) :
    ShowsHandles c (Dyad.dyadFetchWorkerFinish item)
      (dyadFetchWorkerFinish item') ItemShown := by
  unfold Dyad.dyadFetchWorkerFinish dyadFetchWorkerFinish
  by_cases hsafe : item'.sendDetachedIsThreadSafe = true
  · rw [if_pos hsafe, if_pos (hi.sendDetachedIsThreadSafe.trans hsafe)]
    obtain ⟨state, hsome⟩ := Option.ne_none_iff_exists'.1 hstate
    rw [hsome]
    dsimp only
    unfold workerDetached
    by_cases hrc : item'.rc.isError = true
    · rw [if_neg (by rw [hi.rc, hrc]; decide), if_pos hrc]
      refine .step nodePiece_sound (.rpcAbortDetached state) fun _ _ _ => ?_
      exact .pure { hi with reqState := rfl }
    · rw [if_pos (hi.rc.trans (Bool.eq_false_of_not_eq_true hrc)), if_neg hrc]
      refine .step nodePiece_sound (.rpcSendDetached _ state) fun r rc hr => ?_
      cases r with
      | error rc' =>
        rw [if_pos hr.1.error]
        exact .pure { hi with
          reqState := rfl
          rc := (hr.2 rc' rfl).trans hr.1.error.symm }
      | ok u =>
        rw [if_neg hr.1.ok]
        exact .pure { hi with reqState := rfl }
  · rw [if_neg hsafe, if_neg (by rwa [hi.sendDetachedIsThreadSafe])]
    exact .pure hi

theorem workerError_shows {item : WorkItem} {item' : Item}
    (hi : ItemShown item item') (hstate : item'.reqState ≠ none)
    (savedErrno : Posix.Errno) :
    ShowsHandles c (workerError item savedErrno)
      (dyadFetchWorkerFinish { item' with rc := .badfio }) ItemShown :=
  dyadFetchWorkerFinish_shows { hi with rc := rfl } hstate

theorem workerOpened_shows {item : WorkItem} {item' : Item}
    (hi : ItemShown item item') (hstate : item'.reqState ≠ none) (fd : Nat) :
    ShowsHandles c (Dyad.workerOpened item fd) (workerOpened item' fd)
      ItemShown := by
  refine .step nodePiece_sound (.sharedFlock .fd fd) fun rc rc' hrc => ?_
  obtain rfl : rc = rc' := hrc
  by_cases hrc : rc.isError = true
  · rw [if_pos hrc, if_pos hrc]
    refine .left nodePiece_sound .errno fun e _ => ?_
    exact .step nodePiece_sound (.close .fd fd) fun _ _ _ =>
      workerError_shows hi hstate e
  rw [if_neg hrc, if_neg hrc]
  refine .step nodePiece_sound (.getFileSize .fd fd) fun size size' hsize => ?_
  obtain rfl : size = size' := hsize
  have hread : ShowsHandles c
      (Dyad.rangeReadLoop fd item.offset
        (clampRange item.offset item.length size).toNat
        (clampRange item.offset item.length size).toNat Posix.Bytes.empty)
      (rangeReadLoop fd item'.offset
        (clampRange item'.offset item'.length size)
        (clampRange item'.offset item'.length size).toNat 0) ReadLen := by
    rw [hi.offset, hi.length]
    exact rangeReadLoop_shows fd _ _ _ Posix.Bytes.empty
  refine .bind hread fun d n hn => ?_
  obtain rfl : d.map (fun d => (d.size : Int)) = n := hn
  cases d with
  | none =>
    refine .left nodePiece_sound .errno fun e _ => ?_
    refine .step nodePiece_sound (.releaseFlock .fd fd) fun _ _ _ => ?_
    exact .step nodePiece_sound (.close .fd fd) fun _ _ _ =>
      workerError_shows hi hstate _
  | some content =>
    refine .step nodePiece_sound (.releaseFlock .fd fd) fun _ _ _ => ?_
    exact .step nodePiece_sound (.close .fd fd) fun _ _ _ =>
      dyadFetchWorkerFinish_shows { hi with rc := rfl } hstate

/-- The worker over a node, once the range is there. -/
def workerGoesOn (item : WorkItem) (rc : Rc) : Dyad.Program WorkItem := do
  if rc.isError then
    workerError item Posix.Errno.EIO
  else
    match ← sys (.open .data false false) with
    | .error _ =>
      let savedErrno ← Dyad.perform .errno
      workerError item savedErrno
    | .ok fd => Dyad.workerOpened item fd

theorem workerEnsured_shows {item : WorkItem} {item' : Item}
    (hi : ItemShown item item') (hstate : item'.reqState ≠ none) (rc : Rc) :
    ShowsHandles c (workerGoesOn item rc) (workerEnsured item' rc)
      ItemShown := by
  unfold workerGoesOn workerEnsured
  by_cases hrc : rc.isError = true
  · rw [if_pos hrc, if_pos hrc]
    exact workerError_shows hi hstate _
  rw [if_neg hrc, if_neg hrc]
  refine .step nodePiece_sound (.open .fd) fun r fd hr => ?_
  obtain rfl : r.toOption = fd := hr
  cases r with
  | error e =>
    exact .left nodePiece_sound .errno fun e _ => workerError_shows hi hstate e
  | ok i => exact workerOpened_shows hi hstate i

theorem dyadFetchWorkerProcess_shows {item : WorkItem} {item' : Item}
    (hi : ItemShown item item') (hstate : item'.reqState ≠ none) :
    ShowsHandles c (Dyad.dyadFetchWorkerProcess c item)
      (dyadFetchWorkerProcess item') ItemShown := by
  change ShowsHandles c
    (if item.hasOrigin then
      Prog.bind (dyadRangeCacheEnsure c item.offset item.length)
        (workerGoesOn item)
    else workerGoesOn item .ok) _ _
  unfold dyadFetchWorkerProcess
  rw [hi.hasOrigin, hi.offset, hi.length]
  split
  · refine .step nodePiece_sound (.rangeCacheEnsure _ _) fun rc rc' hrc => ?_
    obtain rfl : rc = rc' := hrc
    exact workerEnsured_shows hi hstate rc
  · exact workerEnsured_shows hi hstate .ok

/-- The item destroyed, behind a completion. -/
theorem destroy_shows (item : Item) :
    ShowsHandles c (.pure ()) (dyadFetchWorkItemDestroy item) Any :=
  .right nodePiece_sound (.returnItemBuffer (some item.inbuf)) fun _ _ =>
    .right nodePiece_sound (.msgDecref .msg item.msg) fun _ _ =>
      .piece nodePiece_sound (.free .item item.ptr)

theorem respond_shows (item : Item) (e : Posix.Errno) :
    ShowsHandles c (Dyad.perform (.respondError e))
      (do
        perform .respondError
        dyadFetchWorkItemDestroy item) Any :=
  .last (.piece nodePiece_sound (.respondError e)) fun _ _ _ =>
    destroy_shows item

theorem dyadFetchComplete_shows {item : WorkItem} {item' : Item}
    (hi : ItemShown item item') :
    ShowsHandles c (Dyad.dyadFetchComplete item) (dyadFetchComplete item')
      Any := by
  unfold Dyad.dyadFetchComplete dyadFetchComplete
  cases hs : item'.reqState with
  | none =>
    have hstate : ¬ item.reqState = true := by
      rw [hi.reqState, hs]
      decide
    rw [if_neg hstate, if_neg hstate]
    split
    · exact respond_shows item' _
    · exact respond_shows item' _
  | some state =>
    have hstate : item.reqState = true := by
      rw [hi.reqState, hs]
      rfl
    rw [if_pos hstate, if_pos hstate, hi.rc]
    dsimp only
    unfold finishDetached
    by_cases hrc : item'.rc.isError = true
    · rw [if_neg (by rw [hrc]; decide), if_pos hrc]
      exact .step nodePiece_sound (.rpcAbortDetached state) fun _ _ _ =>
        respond_shows item' _
    · rw [if_pos (Bool.eq_false_of_not_eq_true hrc), if_neg hrc]
      refine .bind (R := Any) ?_ fun _ _ _ => respond_shows item' _
      exact .last (.piece nodePiece_sound (.rpcSendDetached _ state))
        fun _ _ _ => .pure True.intro

/-! ## `dyad_fetch_range_request_cb` -/

theorem rangeRead_shows (fd : Nat) (offset : UInt64) (rangeLen : Int) :
    ShowsHandles c (Dyad.rangeRead fd offset rangeLen)
      (rangeRead fd offset rangeLen) fun d n =>
        if rangeLen > 0 then ReadOf d n else d.isSome ∧ n = some rangeLen := by
  unfold Dyad.rangeRead rangeRead
  by_cases hpos : rangeLen > 0
  · simp only [if_pos hpos]
    by_cases hsmall : rangeLen < transferGranularity
    · rw [if_pos hsmall, if_pos hsmall]
      have hlen : rangeLen = (rangeLen.toNat : Int) := by omega
      refine .last (R := fun d n => intoLen d = n) ?_ fun d n hn =>
        .pure (Or.inr ?_)
      · rw [hlen]
        exact .piece nodePiece_sound (.preadAt fd rangeLen.toNat offset)
      · rw [hn]
    · rw [if_neg hsmall, if_neg hsmall]
      exact (rangeReadLoop_shows fd offset rangeLen rangeLen.toNat
        Posix.Bytes.empty).imp fun _ _ => ReadLen.readOf
  · simp only [if_neg hpos]
    exact .pure ⟨rfl, rfl⟩

theorem rangeClamped_shows (fd : Nat) (offset : UInt64) (rangeLen : Int) :
    ShowsHandles c (Dyad.rangeClamped fd offset rangeLen)
      (rangeClamped fd offset rangeLen) Any := by
  refine .step nodePiece_sound (.getBuffer .inbuf _) fun r inbuf hr => ?_
  rcases r with rc | u <;> rcases inbuf with _ | buf <;> cases hr
  · exact fetchError_shows fd
  refine .bind (rangeRead_shows fd offset rangeLen) fun d n hread => ?_
  have hsend (content : Posix.Bytes Byte) : ShowsHandles c
      (do
        let _ ← dyadReleaseFlock fd
        let _ ← sys (.close fd)
        Dyad.fetchSend (rangePayload content rangeLen))
      (do
        let _ ← perform (.releaseFlock .fd fd)
        let _ ← perform (.close .fd fd)
        fetchSend (some buf)) Any :=
    .step nodePiece_sound (.releaseFlock .fd fd) fun _ _ _ =>
      .step nodePiece_sound (.close .fd fd) fun _ _ _ =>
        fetchSend_shows _ (some buf)
  by_cases hpos : rangeLen > 0
  · rw [if_pos hpos] at hread
    rcases hread with ⟨rfl, rfl⟩ | rfl
    · exact fetchError_shows fd
    · cases d with
      | none =>
        change ShowsHandles c _ (if (-1 : Int) ≠ rangeLen then _ else _) _
        rw [if_pos (by omega)]
        exact fetchError_shows fd
      | some content =>
        change ShowsHandles c
          (if rangeLen > 0 ∧ (content.size : Int) ≠ rangeLen then _ else _)
          (if (content.size : Int) ≠ rangeLen then _ else _) _
        by_cases hall : (content.size : Int) ≠ rangeLen
        · rw [if_pos ⟨hpos, hall⟩, if_pos hall]
          exact fetchError_shows fd
        · rw [if_neg fun h => hall h.2, if_neg hall]
          exact hsend content
  · rw [if_neg hpos] at hread
    obtain ⟨hd, rfl⟩ := hread
    obtain ⟨content, rfl⟩ := Option.isSome_iff_exists.1 hd
    change ShowsHandles c
      (if rangeLen > 0 ∧ (content.size : Int) ≠ rangeLen then _ else _)
      (if rangeLen ≠ rangeLen then _ else _) _
    rw [if_neg fun h => hpos h.1, if_neg fun h => h rfl]
    exact hsend content

theorem rangeOpened_shows (fd : Nat) (offset length : UInt64) :
    ShowsHandles c (Dyad.rangeOpened fd offset length)
      (rangeOpened fd offset length) Any := by
  refine .step nodePiece_sound (.sharedFlock .fd fd) fun rc rc' hrc => ?_
  obtain rfl : rc = rc' := hrc
  by_cases hrc : rc.isError = true
  · rw [if_pos hrc, if_pos hrc]
    exact fetchError_shows fd
  rw [if_neg hrc, if_neg hrc]
  refine .step nodePiece_sound (.getFileSize .fd fd) fun size size' hsize => ?_
  obtain rfl : size = size' := hsize
  exact rangeClamped_shows fd offset _

/-- The synchronous path over a node, once the range is there. -/
def rangeGoesOn (offset length : UInt64) (rc : Rc) : Dyad.Program Unit := do
  if rc.isError then
    Dyad.fetchErrorWith Posix.Errno.EIO
  else
    match ← sys (.open .data false false) with
    | .error _ => Dyad.fetchErrorWoFlock
    | .ok fd => Dyad.rangeOpened fd offset length

theorem rangeEnsured_shows (offset length : UInt64) (rc : Rc) :
    ShowsHandles c (rangeGoesOn offset length rc)
      (rangeEnsured offset length rc) Any := by
  unfold rangeGoesOn rangeEnsured
  by_cases hrc : rc.isError = true
  · rw [if_pos hrc, if_pos hrc]
    exact fetchErrorWith_shows _
  rw [if_neg hrc, if_neg hrc]
  refine .step nodePiece_sound (.open .fd) fun r fd hr => ?_
  obtain rfl : r.toOption = fd := hr
  cases r with
  | error e => exact fetchErrorWoFlock_shows
  | ok i => exact rangeOpened_shows i offset length

variable {cfg : RangeConfig}

theorem rangeSync_shows (offset length : UInt64) :
    ShowsHandles cfg.ctx (Dyad.rangeSync cfg offset length)
      (rangeSync cfg offset length) Any := by
  change ShowsHandles cfg.ctx
    (if cfg.ctx.originPath then
      Prog.bind (dyadRangeCacheEnsure cfg.ctx offset length)
        (rangeGoesOn offset length)
    else rangeGoesOn offset length .ok) _ _
  unfold rangeSync
  split
  · refine .step nodePiece_sound (.rangeCacheEnsure _ _) fun rc rc' hrc => ?_
    obtain rfl : rc = rc' := hrc
    exact rangeEnsured_shows offset length rc
  · exact rangeEnsured_shows offset length .ok

/-- Both enqueued an item, the same one, or neither did. -/
def Enqueued : Option WorkItem → Option Item → Prop
  | none, none => True
  | some item, some item' => ItemShown item item' ∧ item'.reqState ≠ none
  | _, _ => False

theorem rangeEnqueue_shows (offset length : UInt64) :
    ShowsHandles cfg.ctx (Dyad.rangeEnqueue cfg offset length)
      (rangeEnqueue cfg offset length) Enqueued := by
  refine .step nodePiece_sound (.malloc .item workItemSize)
    fun granted ptr hptr => ?_
  rcases granted with _ | _ <;> rcases ptr with _ | ptr <;> cases hptr
  · exact exit_shows (fetchErrorWith_shows _) _ True.intro
  refine .right nodePiece_sound (.msgIncref .msg) fun msg _ => ?_
  refine .step nodePiece_sound (.rpcDetachRequest _) fun r state hr => ?_
  rcases r with rc | u <;> rcases state with _ | state <;> cases hr
  · refine .right nodePiece_sound (.msgDecref .msg msg) fun _ _ => ?_
    refine .right nodePiece_sound (.free .item ptr) fun _ _ => ?_
    exact exit_shows (fetchErrorWith_shows _) _ True.intro
  refine .step nodePiece_sound (.getBuffer .inbuf length.toNat)
    fun r inbuf hr => ?_
  rcases r with rc | u <;> rcases inbuf with _ | inbuf <;> cases hr
  · refine .step nodePiece_sound (.rpcAbortDetached state) fun _ _ _ => ?_
    refine .right nodePiece_sound (.msgDecref .msg msg) fun _ _ => ?_
    refine .right nodePiece_sound (.free .item ptr) fun _ _ => ?_
    exact exit_shows (fetchErrorWith_shows _) _ True.intro
  · exact .pure ⟨⟨rfl, rfl, rfl, rfl, rfl, rfl⟩, nofun⟩

theorem dyadFetchRangeRequestCb_shows :
    ShowsHandles cfg.ctx (Dyad.dyadFetchRangeRequestCb cfg)
      (dyadFetchRangeRequestCb cfg) Enqueued := by
  refine .step nodePiece_sound .msgIsStreaming fun b b' hb => ?_
  obtain rfl : b = b' := hb
  cases b with
  | false => exact exit_shows (fetchErrorWith_shows _) _ True.intro
  | true =>
    refine .step nodePiece_sound .msgGetUserid fun r found hr => ?_
    obtain rfl : r.isOk = found := hr
    cases r with
    | error e => exact exit_shows fetchErrorWoFlock_shows _ True.intro
    | ok u =>
      change ShowsHandles cfg.ctx (if cfg.ctx.dtlMode = .ucx then _ else _)
        (if cfg.ctx.dtlMode = .ucx then _ else _) _
      by_cases hu : cfg.ctx.dtlMode = .ucx
      · rw [if_pos hu]
        exact .stuck Empty.elim
      rw [if_neg hu, if_neg hu]
      refine .step nodePiece_sound .rpcUnpackRange fun r range hr => ?_
      obtain rfl : r.toOption = range := hr
      cases r with
      | error e => exact exit_shows (fetchErrorWith_shows _) _ True.intro
      | ok range =>
        refine .step nodePiece_sound .rpcRespond fun r rc hr => ?_
        cases r with
        | error e =>
          rw [if_pos hr.error]
          exact exit_shows fetchErrorWoFlock_shows _ True.intro
        | ok u =>
          rw [if_neg hr.ok]
          by_cases hw : cfg.workers = true
          · rw [if_pos hw, if_pos hw]
            exact rangeEnqueue_shows range.1 range.2
          · rw [if_neg hw, if_neg hw]
            exact exit_shows (rangeSync_shows range.1 range.2) _ True.intro

/-- A request served over a node goes the way of the request served with its
handles. -/
theorem serve_shows (req : Request)
    (hc : ∀ cfg, req = .range cfg → c = cfg.ctx) :
    ShowsHandles c req.serve (serve req) Any := by
  cases req with
  | whole ucxBuild => exact dyadFetchRequestCb_shows ucxBuild
  | range cfg =>
    obtain rfl := hc cfg rfl
    refine .bind dyadFetchRangeRequestCb_shows fun item item' hi => ?_
    rcases item with _ | item <;> rcases item' with _ | item'
    · exact .pure True.intro
    · exact hi.elim
    · exact hi.elim
    · exact .bind (dyadFetchWorkerProcess_shows hi.1 hi.2) fun _ _ hi =>
        dyadFetchComplete_shows hi

end Dyad.Resources
