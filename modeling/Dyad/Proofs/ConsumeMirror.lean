import Dyad.Proofs.NodePieces

/-!
# Consuming over a node, and consuming with its handles

`dyad_consume`, `dyad_consume_w_metadata` and `dyad_consume_range` over the files
of a node go the way of the same functions over the handles they hold, piece by
piece, and return the same code.
-/

namespace Dyad.Resources

open Conc Prog

variable {c : Ctx}

/-! ## `dyad_consume` -/

theorem returnFileData_shows (fileData : Option Nat) :
    ShowsHandles c (Dyad.returnFileData fileData.isSome)
      (returnFileData fileData) fun _ _ => True := by
  cases fileData with
  | none => exact .pure True.intro
  | some buf => exact .piece nodePiece_sound (.returnBuffer .fileData (some buf))

theorem consumeDone_shows (lockFd : Nat) (fileData : Option Nat) (rc : Rc) :
    ShowsHandles c (Dyad.consumeDone lockFd fileData.isSome rc)
      (consumeDone lockFd fileData rc) Eq := by
  refine .step nodePiece_sound (.close .lockFd lockFd) fun r closed hr => ?_
  refine .bind (returnFileData_shows fileData) fun _ _ _ => ?_
  cases r with
  | ok u =>
    obtain rfl : true = closed := hr
    exact .pure rfl
  | error e =>
    obtain rfl : false = closed := hr
    exact .pure rfl

theorem consumeRelease_shows (lockFd : Nat) (fileData : Option Nat) (rc : Rc) :
    ShowsHandles c (Dyad.consumeRelease lockFd fileData.isSome rc)
      (consumeUnlock lockFd fileData rc) Eq :=
  .step nodePiece_sound (.releaseFlock .lockFd lockFd) fun _ _ _ =>
    consumeDone_shows lockFd fileData rc

theorem consumeStored_shows (lockFd : Nat) (fileData : Option Nat) :
    ShowsHandles c (Dyad.consumeStored c lockFd fileData.isSome)
      (consumeStored lockFd fileData .ok) Eq :=
  .step nodePiece_sound (.releaseFlock .lockFd lockFd) fun _ _ _ =>
    .step nodePiece_sound .cacheMaybeEvict fun _ _ _ =>
      consumeDone_shows lockFd fileData .ok

/-- The fields of a context and the test of the name, as the programs over the
node have them. -/
structure Fields (hash : CString → UInt32 → UInt32)
    (realpath : CString → Option CString) (ctx : DyadCtx) (fname : CString)
    (c : Ctx) : Prop where
  h : c.h = ctx.h.isSome
  consManagedPath : c.consManagedPath = ctx.cons.managedPath.isSome
  tracked : c.tracked = tracked hash realpath ctx fname
  sharedStorage : c.sharedStorage = ctx.sharedStorage
  useFsLocks : c.useFsLocks = ctx.useFsLocks
  originPath : c.originPath = ctx.originPath.isSome
  dtlMode : ctx.dtlHandle.map (·.mode) = some c.dtlMode

variable {hash : CString → UInt32 → UInt32}
  {realpath : CString → Option CString} {ctx : DyadCtx} {fname : CString}

theorem unfetched_iff (hf : c.useFsLocks = ctx.useFsLocks) (fileSize : Nat) :
    (c.useFsLocks = false ∨ fileSize = 0) ↔ unfetched ctx fileSize = true := by
  rw [hf]
  unfold unfetched
  rw [Bool.or_eq_true, Bool.not_eq_true', decide_eq_true_iff]
  exact or_congr_right (by omega)

theorem consumeShared_shows (hf : c.useFsLocks = ctx.useFsLocks)
    (lockFd fileSize : Nat) :
    ShowsHandles c (Dyad.consumeShared c lockFd fileSize)
      (consumeShared ctx lockFd fileSize) Eq := by
  refine .step nodePiece_sound (.releaseFlock .lockFd lockFd) fun _ _ _ => ?_
  by_cases hu : unfetched ctx fileSize = true
  · rw [if_pos ((unfetched_iff hf fileSize).2 hu), if_pos hu]
    refine .step nodePiece_sound .fetchMetadata fun r r' hr => ?_
    cases r with
    | error rc =>
      cases r' with
      | error rc' =>
        cases hr
        exact consumeDone_shows lockFd none rc
      | ok => cases hr
    | ok owner =>
      cases r' with
      | error => cases hr
      | ok mdata => exact consumeDone_shows lockFd none .ok
  · rw [if_neg (mt (unfetched_iff hf fileSize).1 hu), if_neg hu]
    exact consumeDone_shows lockFd none .ok

theorem ok_of_not_error {rc : Rc} (h : ¬ rc.isError = true) : rc = .ok :=
  not_not.1 (mt rc.isError_iff.2 h)

/-- A buffer that is there, as the relation of what is fetched gives it. -/
theorem Fetched.ok {d : Posix.Bytes Byte} {y : Rc × Option Nat}
    (h : Fetched (.ok d) y) : ∃ buf, y = (.ok, some buf) := by
  obtain ⟨rc, buf⟩ := y
  obtain ⟨rfl, hbuf⟩ := h
  obtain ⟨buf, rfl⟩ := Option.isSome_iff_exists.1 hbuf
  exact ⟨buf, rfl⟩

theorem consumeLocal_shows (hf : c.useFsLocks = ctx.useFsLocks)
    (fuel lockFd fileSize : Nat) :
    ShowsHandles c (Dyad.consumeLocal c fuel lockFd fileSize)
      (consumeLocal ctx lockFd fileSize) Eq := by
  by_cases hu : unfetched ctx fileSize = true
  · unfold Dyad.consumeLocal consumeLocal
    rw [if_pos ((unfetched_iff hf fileSize).2 hu), if_pos hu]
    refine .step nodePiece_sound .fetchMetadata fun r r' hr => ?_
    rcases r with rc | _ | owner <;> rcases r' with rc' | _ | mdata <;> cases hr
    · exact consumeRelease_shows lockFd none rc
    · exact consumeRelease_shows lockFd none .ok
    · refine .assoc (.step nodePiece_sound .getData fun r y hy => ?_)
      cases r with
      | error rc =>
        obtain ⟨rfl, hrc⟩ := hy
        change ShowsHandles c _ (if rc.isError then _ else _) _
        rw [if_pos hrc]
        exact consumeRelease_shows lockFd none rc
      | ok data =>
        obtain ⟨buf, rfl⟩ := hy.ok
        refine .assoc (.step nodePiece_sound (.open .ioFd) fun r ioFd hr => ?_)
        cases r with
        | error e =>
          obtain rfl : none = ioFd := hr
          exact .pure rfl
        | ok fd =>
          obtain rfl : some fd = ioFd := hr
          refine .assoc (.step nodePiece_sound (.consStore fuel fd data)
            fun rc rc' hrc => ?_)
          obtain rfl : rc = rc' := hrc
          refine .right nodePiece_sound (.freeMetadata mdata) fun _ _ => ?_
          refine .assoc (.step nodePiece_sound (.close .ioFd fd)
            fun r closed hr => ?_)
          cases r with
          | error e =>
            obtain rfl : false = closed := hr
            exact consumeRelease_shows lockFd (some buf) .badfio
          | ok u =>
            obtain rfl : true = closed := hr
            change ShowsHandles c (if rc.isError then _ else _)
              (if rc.isError then _ else _) _
            by_cases hrc : rc.isError = true
            · rw [if_pos hrc, if_pos hrc]
              exact consumeRelease_shows lockFd (some buf) rc
            · rw [if_neg hrc, if_neg hrc, ok_of_not_error hrc]
              exact consumeStored_shows lockFd (some buf)
  · unfold Dyad.consumeLocal consumeLocal
    rw [if_neg (mt (unfetched_iff hf fileSize).1 hu), if_neg hu]
    exact consumeStored_shows lockFd none

theorem consumeOpened_shows (hf : Fields hash realpath ctx fname c)
    (fuel lockFd : Nat) :
    ShowsHandles c
      (do
        let rc ← dyadExclFlock lockFd
        if rc.isError then
          Dyad.consumeRelease lockFd false rc
        else
          let fileSize ← getFileSize lockFd
          if c.sharedStorage then
            Dyad.consumeShared c lockFd fileSize
          else
            Dyad.consumeLocal c fuel lockFd fileSize)
      (consumeOpened ctx lockFd) Eq := by
  refine .step nodePiece_sound (.exclFlock .lockFd lockFd) fun rc rc' hrc => ?_
  obtain rfl : rc = rc' := hrc
  by_cases hrc : rc.isError = true
  · rw [if_pos hrc, if_pos hrc]
    exact consumeRelease_shows lockFd none rc
  · rw [if_neg hrc, if_neg hrc]
    refine .step nodePiece_sound (.getFileSize .lockFd lockFd)
      fun size size' hsize => ?_
    obtain rfl : size = size' := hsize
    rw [hf.sharedStorage]
    by_cases hs : ctx.sharedStorage = true
    · rw [if_pos hs, if_pos hs]
      exact consumeShared_shows hf.useFsLocks lockFd size
    · rw [if_neg hs, if_neg hs]
      exact consumeLocal_shows hf.useFsLocks fuel lockFd size

/-- `consume_close`, or its like, behind the rest. -/
theorem consumeClose_shows {α β : Type} {p : Dyad.Program α} {q : Program β}
    {Q : α → β → Prop} (h : ShowsHandles c p q Q) :
    ShowsHandles c p (do let r ← q; consumeClose (some ctx) r) Q :=
  .last h fun _ _ hQ =>
    .right nodePiece_sound (.setReenter true) fun _ _ => .pure hQ

/-- `dyad_consume` over a node goes the way of `dyad_consume` with its
handles. -/
theorem dyadConsume_shows (hf : Fields hash realpath ctx fname c) (fuel : Nat) :
    ShowsHandles c (Dyad.dyadConsume c fuel)
      (dyadConsume hash realpath (some ctx) fname) Eq := by
  refine consumeClose_shows ?_
  unfold Dyad.dyadConsume consumeBody
  dsimp only
  rw [hf.h, hf.consManagedPath, hf.tracked]
  cases hh : ctx.h with
  | none => exact .pure rfl
  | some handle =>
    cases hm : ctx.cons.managedPath with
    | none => exact .pure rfl
    | some dir =>
      cases ht : tracked hash realpath ctx fname with
      | false => exact .pure rfl
      | true =>
        refine .right nodePiece_sound (.setReenter false) fun _ _ => ?_
        refine .step nodePiece_sound .openLock fun r lockFd hr => ?_
        cases r with
        | error e =>
          obtain rfl : none = lockFd := hr
          exact .pure rfl
        | ok fd =>
          obtain rfl : some fd = lockFd := hr
          exact consumeOpened_shows hf fuel fd

/-! ## `dyad_consume_w_metadata` -/

theorem consumeReturn_shows (fileData : Option Nat) (rc : Rc) :
    ShowsHandles c
      (do
        Dyad.returnFileData fileData.isSome
        return rc)
      (consumeReturn fileData rc) Eq :=
  .bind (returnFileData_shows fileData) fun _ _ _ => .pure rfl

theorem consumeMetadataRelease_shows (lockFd : Nat) (fileData : Option Nat)
    (rc : Rc) :
    ShowsHandles c (Dyad.consumeMetadataRelease lockFd fileData.isSome rc)
      (do
        let _ ← perform (.releaseFlock .lockFd lockFd)
        consumeReturn fileData rc) Eq :=
  .step nodePiece_sound (.releaseFlock .lockFd lockFd) fun _ _ _ =>
    consumeReturn_shows fileData rc

theorem consumeWMetadataStored_shows (lockFd : Nat) (fileData : Option Nat) :
    ShowsHandles c (Dyad.consumeStored c lockFd fileData.isSome)
      (consumeWMetadataStored lockFd fileData) Eq := by
  refine .step nodePiece_sound (.releaseFlock .lockFd lockFd) fun _ _ _ => ?_
  refine .step nodePiece_sound .cacheMaybeEvict fun _ _ _ => ?_
  refine .step nodePiece_sound (.close .lockFd lockFd) fun r closed hr => ?_
  cases r with
  | error e =>
    obtain rfl : false = closed := hr
    exact consumeReturn_shows fileData .badfio
  | ok u =>
    obtain rfl : true = closed := hr
    exact consumeReturn_shows fileData .ok

theorem consumeWMetadataOpened_shows (fuel lockFd : Nat) :
    ShowsHandles c
      (do
        let rc ← dyadExclFlock lockFd
        if rc.isError then
          let _ ← dyadReleaseFlock lockFd
          return rc
        else
          let fileSize ← getFileSize lockFd
          Dyad.consumeMetadataLocal c fuel lockFd fileSize)
      (consumeWMetadataOpened lockFd) Eq := by
  refine .step nodePiece_sound (.exclFlock .lockFd lockFd) fun rc rc' hrc => ?_
  obtain rfl : rc = rc' := hrc
  by_cases hrc : rc.isError = true
  · rw [if_pos hrc, if_pos hrc]
    exact .step nodePiece_sound (.releaseFlock .lockFd lockFd)
      fun _ _ _ => .pure rfl
  rw [if_neg hrc, if_neg hrc]
  refine .step nodePiece_sound (.getFileSize .lockFd lockFd)
    fun fileSize size' hsize => ?_
  obtain rfl : fileSize = size' := hsize
  unfold Dyad.consumeMetadataLocal
  by_cases hsize : fileSize = 0
  · rw [if_pos hsize, if_pos (Nat.le_zero.2 hsize)]
    refine .assoc (.step nodePiece_sound .getData fun r y hy => ?_)
    cases r with
    | error rc =>
      obtain ⟨rfl, hrc⟩ := hy
      change ShowsHandles c _ (if rc.isError then _ else _) _
      rw [if_pos hrc]
      exact consumeMetadataRelease_shows lockFd none rc
    | ok data =>
      obtain ⟨buf, rfl⟩ := hy.ok
      refine .assoc (.step nodePiece_sound (.open .ioFd) fun r ioFd hr => ?_)
      cases r with
      | error e =>
        obtain rfl : none = ioFd := hr
        exact .pure rfl
      | ok fd =>
        obtain rfl : some fd = ioFd := hr
        refine .assoc (.step nodePiece_sound (.consStore fuel fd data)
          fun rc rc' hrc => ?_)
        obtain rfl : rc = rc' := hrc
        refine .assoc (.step nodePiece_sound (.close .ioFd fd)
          fun r closed hr => ?_)
        cases r with
        | error e =>
          obtain rfl : false = closed := hr
          exact consumeMetadataRelease_shows lockFd (some buf) .badfio
        | ok u =>
          obtain rfl : true = closed := hr
          change ShowsHandles c (if rc.isError then _ else _)
            (if rc.isError then _ else _) _
          by_cases hrc : rc.isError = true
          · rw [if_pos hrc, if_pos hrc]
            exact .step nodePiece_sound (.releaseClosed lockFd fd) fun _ _ _ =>
              consumeReturn_shows (some buf) rc
          · rw [if_neg hrc, if_neg hrc]
            exact consumeWMetadataStored_shows lockFd (some buf)
  · rw [if_neg hsize, if_neg (mt Nat.le_zero.1 hsize)]
    exact consumeWMetadataStored_shows lockFd none

/-- So does `dyad_consume_w_metadata`. -/
theorem dyadConsumeWMetadata_shows (hf : Fields hash realpath ctx fname c)
    (mdata : Bool) (fuel : Nat) :
    ShowsHandles c (Dyad.dyadConsumeWMetadata c mdata fuel)
      (dyadConsumeWMetadata (some ctx) mdata) Eq := by
  refine consumeClose_shows ?_
  unfold Dyad.dyadConsumeWMetadata consumeWMetadataBody
  dsimp only
  rw [hf.h, hf.consManagedPath]
  cases hh : ctx.h with
  | none => exact .pure rfl
  | some handle =>
    cases mdata with
    | false => exact .pure rfl
    | true =>
      cases hm : ctx.cons.managedPath with
      | none => exact .pure rfl
      | some dir =>
        refine .right nodePiece_sound (.setReenter false) fun _ _ => ?_
        refine .step nodePiece_sound .openLock fun r lockFd hr => ?_
        cases r with
        | error e =>
          obtain rfl : none = lockFd := hr
          exact .pure rfl
        | ok fd =>
          obtain rfl : some fd = lockFd := hr
          exact consumeWMetadataOpened_shows fuel fd

/-! ## `dyad_consume_range` -/

/-- The same code is returned. -/
abbrev SameCode (a : Rc × Option (Posix.Bytes Byte)) (b : Rc × Out) : Prop :=
  a.1 = b.1

theorem consumeRangeEnsured_shows (offset length : UInt64) :
    ShowsHandles c (Dyad.consumeRangeRead offset.toNat length.toNat)
      (consumeRangeEnsured offset length .ok) SameCode := by
  refine .step nodePiece_sound (.open .fd) fun r ofd hr => ?_
  cases r with
  | error e =>
    obtain rfl : none = ofd := hr
    exact .pure rfl
  | ok fd =>
    obtain rfl : some fd = ofd := hr
    refine .step nodePiece_sound (.sharedFlock .fd fd) fun rc rc' hrc => ?_
    obtain rfl : rc = rc' := hrc
    by_cases hrc : rc.isError = true
    · rw [if_pos hrc, if_pos hrc]
      exact .step nodePiece_sound (.close .fd fd) fun _ _ _ => .pure rfl
    rw [if_neg hrc, if_neg hrc]
    refine .step nodePiece_sound (.malloc .data length.toNat)
      fun granted buf hbuf => ?_
    cases granted with
    | false =>
      obtain rfl : buf = none := Option.not_isSome_iff_eq_none.1 (by simp [← hbuf])
      refine .step nodePiece_sound (.releaseFlock .fd fd) fun _ _ _ => ?_
      exact .step nodePiece_sound (.close .fd fd) fun _ _ _ => .pure rfl
    | true =>
      obtain ⟨buf, rfl⟩ := Option.isSome_iff_exists.1 hbuf.symm
      refine .step nodePiece_sound (.pread fd length.toNat offset)
        fun r nread hread => ?_
      obtain rfl : readLen r = nread := hread
      refine .step nodePiece_sound (.releaseFlock .fd fd) fun _ _ _ => ?_
      refine .step nodePiece_sound (.close .fd fd) fun _ _ _ => ?_
      cases r with
      | error e =>
        have hneg : readLen (.error e) < 0 := Int.negSucc_lt_zero 0
        rw [if_pos (Or.inl hneg)]
        exact .right nodePiece_sound (.free .data buf) fun _ _ => .pure rfl
      | ok data =>
        change ShowsHandles c (if data.size ≠ length.toNat then _ else _)
          (if (data.size : Int) < 0 ∨ data.size ≠ length.toNat then _ else _) _
        by_cases hsize : data.size ≠ length.toNat
        · rw [if_pos hsize, if_pos (Or.inr hsize)]
          exact .right nodePiece_sound (.free .data buf) fun _ _ => .pure rfl
        · rw [if_neg hsize, if_neg (by omega)]
          exact .pure rfl

theorem consumeRangeLocal_shows (hf : c.originPath = ctx.originPath.isSome)
    (offset length : UInt64) :
    ShowsHandles c (Dyad.consumeRangeLocal c offset length)
      (consumeRangeLocal ctx offset length) SameCode := by
  unfold Dyad.consumeRangeLocal consumeRangeLocal
  rw [hf]
  by_cases ho : ctx.originPath.isSome = true
  · rw [if_pos ho, if_pos ho]
    refine .step nodePiece_sound (.rangeCacheEnsure offset length)
      fun rc rc' hrc => ?_
    obtain rfl : rc = rc' := hrc
    by_cases hrc : rc.isError = true
    · unfold consumeRangeEnsured
      rw [if_pos hrc, if_pos hrc]
      exact .pure rfl
    · rw [if_neg hrc, ok_of_not_error hrc]
      exact consumeRangeEnsured_shows offset length
  · rw [if_neg ho, if_neg ho]
    exact consumeRangeEnsured_shows offset length

/-- And so does `dyad_consume_range`. -/
theorem dyadConsumeRange_shows (hf : Fields hash realpath ctx fname c)
    (offset length : UInt64) :
    ShowsHandles c (Dyad.dyadConsumeRange c offset length)
      (dyadConsumeRange hash realpath (some ctx) fname offset length)
      SameCode := by
  refine consumeClose_shows ?_
  obtain ⟨dtl, hdtl, hmode⟩ := Option.map_eq_some_iff.1 hf.dtlMode
  unfold Dyad.dyadConsumeRange consumeRangeBody
  dsimp only
  rw [hf.h, hf.consManagedPath, hf.tracked, hdtl, ← hmode]
  cases hh : ctx.h with
  | none => exact .pure rfl
  | some handle =>
    cases hm : ctx.cons.managedPath with
    | none => exact .pure rfl
    | some dir =>
      by_cases hu : dtl.mode = .ucx
      · simp only [hu]
        exact .pure rfl
      · dsimp only [Option.isSome_some, Option.isNone_some]
        rw [if_neg hu, if_neg hu]
        cases ht : tracked hash realpath ctx fname with
        | false => exact .pure rfl
        | true =>
          refine .right nodePiece_sound (.setReenter false) fun _ _ => ?_
          refine .step nodePiece_sound .fetchMetadata fun r r' hr => ?_
          rcases r with rc | _ | owner <;> rcases r' with rc' | _ | mdata <;>
            cases hr
          · exact .pure rfl
          · exact consumeRangeLocal_shows hf.originPath offset length
          · refine .step nodePiece_sound (.getDataRange _ offset length)
              fun r y hy => ?_
            refine .right nodePiece_sound (.freeMetadata mdata) fun _ _ => ?_
            cases r with
            | error rc => exact .pure hy.symm
            | ok data => exact .pure hy.symm

end Dyad.Resources
