import Dyad.Conc.Mirror
import Dyad.Wrapper.WrapperOps

/-!
# The wrappers call by call, and what they do

The wrappers over a context that may be missing go the way of the lists of what
they do: with a context, and the answers that a list was made for, the calls
that do something come in the order of the list.
-/

namespace Dyad.WrapperOps

open Conc Prog

/-- What the calls of a wrapper are answered. -/
structure Answers where
  wrappee : Bool
  isPathDir : CString → Bool
  isFdDir : Bool
  getPath : Option CString
  wronly : Bool
  fileno : Int
  real : Int
  lock : Rc

/-- The answers are these. -/
def Answers.Agree (a : Answers) : (c : Call) → c.Res → Prop
  | .gotchaGetWrappee, r => r = a.wrappee
  | .isPathDir path, r => r = a.isPathDir path
  | .isFdDir _, r => r = a.isFdDir
  | .getPath _, r => r = a.getPath
  | .isWronly _, r => r = a.wronly
  | .fileno, r => r = a.fileno
  | .real, r => r = a.real
  | .exclFlock _, r => r = a.lock
  | _, _ => True

/-- What a wrapper does, as a program. -/
def does : List WrapperEvent → Prog (fun _ : WrapperEvent => Unit) Unit
  | [] => .pure ()
  | e :: events => (Prog.perform e).bind fun _ => does events

theorem does_append (events events' : List WrapperEvent) :
    does (events ++ events') = (does events).bind fun _ => does events' := by
  induction events with
  | nil => rfl
  | cons e events ih =>
    rw [List.cons_append, does, does, ih]
    rfl

/-- What stands for what the wrapper does. The other calls ask for something. -/
inductive WrapperPiece (hash : CString → UInt32 → UInt32)
    (realpath : CString → Option CString) (ctx : DyadCtx) (a : Answers) :
    ⦃α β : Type⦄ → Program α → Prog (fun _ : WrapperEvent => Unit) β →
      (α → β → Prop) → Prop
  | gotchaGetWrappee : WrapperPiece hash realpath ctx a
      (perform .gotchaGetWrappee) (.pure ()) fun r _ => r = a.wrappee
  | isPathDir (path : CString) : WrapperPiece hash realpath ctx a
      (perform (.isPathDir path)) (.pure ()) fun r _ => r = a.isPathDir path
  | isFdDir (fd : Int) : WrapperPiece hash realpath ctx a
      (perform (.isFdDir fd)) (.pure ()) fun r _ => r = a.isFdDir
  | getPath (fd : Int) : WrapperPiece hash realpath ctx a
      (perform (.getPath fd)) (.pure ()) fun r _ => r = a.getPath
  | isWronly (fd : Int) : WrapperPiece hash realpath ctx a
      (perform (.isWronly fd)) (.pure ()) fun r _ => r = a.wronly
  | fileno : WrapperPiece hash realpath ctx a
      (perform .fileno) (.pure ()) fun r _ => r = a.fileno
  | dyadConsume (path : CString) : WrapperPiece hash realpath ctx a
      (client (PathOps.dyadConsume hash realpath (some ctx) path))
      (Prog.perform (.dyadConsume path)) fun _ _ => True
  | realOpen : WrapperPiece hash realpath ctx a (perform .real)
      (Prog.perform .realOpen) fun r _ => r = a.real
  | exclFlock (fd : Int) : WrapperPiece hash realpath ctx a
      (perform (.exclFlock fd)) (Prog.perform (.dyadExclFlock fd a.lock))
      fun rc _ => rc = a.lock
  | releaseFlock (fd : Int) : WrapperPiece hash realpath ctx a
      (perform (.releaseFlock fd)) (Prog.perform (.dyadReleaseFlock fd))
      fun _ _ => True
  | fflush : WrapperPiece hash realpath ctx a (perform .fflush)
      (Prog.perform .fflush) fun _ _ => True
  | fsync (fd : Int) : WrapperPiece hash realpath ctx a (perform (.fsync fd))
      (Prog.perform .fsync) fun _ _ => True
  | realClose : WrapperPiece hash realpath ctx a (perform .real)
      (Prog.perform .realClose) fun r _ => r = a.real
  | dyadProduce (path : CString) : WrapperPiece hash realpath ctx a
      (client (PathOps.dyadProduce hash realpath (some ctx) path))
      (Prog.perform (.dyadProduce path)) fun _ _ => True

variable {hash : CString → UInt32 → UInt32}
  {realpath : CString → Option CString} {ctx : DyadCtx} {a : Answers}

theorem wrapperPiece_sound :
    Table.Sound a.Agree (WrapperPiece hash realpath ctx a) := by
  intro α β s t R h x hret
  cases h with
  | gotchaGetWrappee | isPathDir | isFdDir | getPath | isWronly | fileno =>
    exact ⟨(), .pure (), hret.answer⟩
  | realOpen | realClose | exclFlock =>
    exact ⟨(), .call () True.intro (.pure ()), hret.answer⟩
  | _ => exact ⟨(), .call () True.intro (.pure ()), True.intro⟩

/-- A wrapper that goes the way of what is listed. -/
abbrev Shows {α : Type} (hash : CString → UInt32 → UInt32)
    (realpath : CString → Option CString) (ctx : DyadCtx) (a : Answers)
    (p : Program α) (events : List WrapperEvent) (P : α → Prop) : Prop :=
  Mirrors a.Agree (WrapperPiece hash realpath ctx a) p (does events)
    fun x _ => P x

/-- The fields of a context and the tests of a path, as the lists were made
with. -/
structure Fields (hash : CString → UInt32 → UInt32)
    (realpath : CString → Option CString) (ctx : DyadCtx) (a : Answers)
    (w : WrapperCtx) : Prop where
  h : w.h = ctx.h.isSome
  reenter : w.reenter = ctx.reenter
  relativeToManagedPath :
    w.relativeToManagedPath = ctx.relativeToManagedPath
  fsyncWrite : w.fsyncWrite = ctx.fsyncWrite
  isPathDir : w.isPathDir = a.isPathDir
  prodPrefix : ∀ path, w.prodPrefix path =
    (PathOps.userPathOf hash realpath ctx.prod false path).isSome
  delimLen : ctx.delimLen = 1

theorem isRelative_iff {w : WrapperCtx} (hw : Fields hash realpath ctx a w)
    (path : CString) :
    PathOps.isRelative ctx path =
      (w.relativeToManagedPath && !WrapperCtx.startsWithDelim path) := by
  unfold PathOps.isRelative PathOps.startsWithDelim WrapperCtx.startsWithDelim
  rw [hw.relativeToManagedPath, hw.delimLen]
  cases path with
  | nil => rfl
  | cons c path => simp [pathDelim]

/-! ## Opening -/

theorem openSync_shows {w : WrapperCtx} (hw : Fields hash realpath ctx a w)
    (path : CString) :
    Shows hash realpath ctx a (openSync hash realpath (some ctx) path)
      (if !w.isPathDir path && w.h && w.reenter then [.dyadConsume path]
      else []) fun _ => True := by
  refine .left wrapperPiece_sound (.isPathDir path) fun dir hdir => ?_
  obtain rfl : dir = a.isPathDir path := hdir
  rw [hw.isPathDir, hw.h, hw.reenter]
  cases a.isPathDir path with
  | true => exact .pure True.intro
  | false =>
    change Shows hash realpath ctx a
      (if ctx.h.isSome && ctx.reenter then _ else _)
      (if ctx.h.isSome && ctx.reenter then _ else _) _
    split
    · exact .step wrapperPiece_sound (.dyadConsume path) fun _ _ _ =>
        .pure True.intro
    · exact .pure True.intro

theorem lockOpened_shows (fd : Int) :
    Shows hash realpath ctx a (lockOpened fd)
      (.dyadExclFlock fd a.lock ::
        (if a.lock.isError then [.dyadReleaseFlock fd] else []))
      fun _ => True := by
  refine .step wrapperPiece_sound (.exclFlock fd) fun rc _ hrc => ?_
  obtain rfl : rc = a.lock := hrc
  split
  · exact .last (.piece wrapperPiece_sound (.releaseFlock fd))
      fun _ _ _ => .pure True.intro
  · exact .pure True.intro

section

variable {w : WrapperCtx} (hw : Fields hash realpath ctx a w) (path : CString)
  {fd : Program Int} {ret : Int}
  (hfd : Shows hash realpath ctx a fd [] fun x => x = ret)

include hw hfd

theorem openLock_shows :
    Shows hash realpath ctx a (openLock hash realpath (some ctx) path fd)
      (if !w.isPathDir path && w.prodTest path then
        .dyadExclFlock ret a.lock ::
          (if a.lock.isError then [.dyadReleaseFlock ret] else [])
      else []) fun _ => True := by
  have hlock : Shows hash realpath ctx a (fd.bind lockOpened)
      (.dyadExclFlock ret a.lock ::
        (if a.lock.isError then [.dyadReleaseFlock ret] else []))
      fun _ => True := by
    refine .skip hfd fun x _ hx => ?_
    obtain rfl : x = ret := hx
    exact lockOpened_shows x
  refine .left wrapperPiece_sound (.isPathDir path) fun dir hdir => ?_
  obtain rfl : dir = a.isPathDir path := hdir
  rw [hw.isPathDir]
  cases a.isPathDir path with
  | true => exact .pure True.intro
  | false =>
    unfold WrapperCtx.prodTest
    rw [← isRelative_iff hw, hw.prodPrefix]
    change Shows hash realpath ctx a
      (if PathOps.isRelative ctx path then _ else _)
      (if PathOps.isRelative ctx path || _ then _ else _) _
    cases PathOps.isRelative ctx path with
    | true => exact hlock
    | false =>
      unfold PathOps.userPathOf
      cases hcmp : cmpCanonicalPathPrefix hash realpath ctx.prod path pathMax with
      | none => exact .stuck Empty.elim
      | some found =>
        cases found with
        | none => exact .pure True.intro
        | some upath => exact hlock

theorem openReal_shows (opened : Int → Bool) {f : Int → Program Int}
    (hf : f a.real = fd) (writeMode : Bool) :
    Shows hash realpath ctx a
      (openReal hash realpath (some ctx) path writeMode opened f)
      (.realOpen ::
        (if opened a.real && writeMode && !w.isPathDir path &&
            w.prodTest path then
          .dyadExclFlock ret a.lock ::
            (if a.lock.isError then [.dyadReleaseFlock ret] else [])
        else [])) fun r => r = a.real := by
  refine .step wrapperPiece_sound .realOpen fun r _ hr => ?_
  obtain rfl : r = a.real := hr
  cases hmode : opened a.real && writeMode with
  | false => exact .pure rfl
  | true =>
    rw [hf]
    exact .ahead (openLock_shows hw path hfd) fun _ _ _ => .pure rfl

theorem openWrapper_shows (opened : Int → Bool) {f : Int → Program Int}
    (hf : f a.real = fd) (readMode writeMode : Bool) (failure : Int) :
    Shows hash realpath ctx a
      (openWrapper hash realpath (some ctx) path readMode writeMode failure
        opened f)
      (Dyad.openWrapper w path readMode writeMode (opened a.real)
        ⟨a.wrappee, ret, a.lock⟩)
      fun r => r = if a.wrappee then a.real else failure := by
  refine .left wrapperPiece_sound .gotchaGetWrappee fun found hfound => ?_
  obtain rfl : found = a.wrappee := hfound
  unfold Dyad.openWrapper
  cases a.wrappee with
  | false => exact .pure rfl
  | true =>
    have hreal := openReal_shows hw path hfd opened hf writeMode
    cases readMode with
    | false => exact hreal
    | true =>
      change Mirrors _ _ _ (does ((_ ++ _) ++ _)) _
      rw [List.append_assoc, does_append]
      exact .bind (openSync_shows hw path) fun _ _ _ => hreal

end

/-- `dyad_open_wrapper` goes the way of its list. -/
theorem dyadOpenWrapper_shows {w : WrapperCtx}
    (hw : Fields hash realpath ctx a w) (path : CString)
    (oflag arg : BitVec 32) :
    Shows hash realpath ctx a
      (dyadOpenWrapper hash realpath (some ctx) path oflag arg)
      (Dyad.dyadOpenWrapper w path oflag arg ⟨a.wrappee, a.real, a.lock⟩)
      fun ret => ret = if a.wrappee then a.real else -1 :=
  openWrapper_shows hw path (.pure rfl) (fun ret => 0 < ret) rfl _ _ _

/-- So does `dyad_fopen_wrapper`, where a stream has a descriptor. -/
theorem dyadFopenWrapper_shows {w : WrapperCtx}
    (hw : Fields hash realpath ctx a w) (path mode : CString)
    (hstream : a.real ≠ 0 ↔ 0 ≤ a.fileno) :
    Shows hash realpath ctx a
      (dyadFopenWrapper hash realpath (some ctx) path mode)
      (Dyad.dyadFopenWrapper w path mode ⟨a.wrappee, a.fileno, a.lock⟩)
      fun ret => ret = if a.wrappee then a.real else 0 := by
  have hfd : Shows hash realpath ctx a (perform .fileno) []
      fun x => x = a.fileno := .piece wrapperPiece_sound .fileno
  unfold Dyad.dyadFopenWrapper
  rw [← decide_eq_decide.2 hstream]
  exact openWrapper_shows hw path hfd (fun ret => ret ≠ 0) rfl _ _ _

/-! ## Closing -/

theorem closeSync_shows {w : WrapperCtx} (hw : Fields hash realpath ctx a w)
    (fd : Int) :
    Shows hash realpath ctx a (closeSync (some ctx) fd) [] fun found =>
      found = if 0 ≤ fd && w.h && w.reenter && !a.isFdDir then
        a.getPath.map fun path => (ctx, path) else none := by
  rw [hw.h, hw.reenter]
  unfold closeSync
  by_cases hfd : fd < 0
  · rw [if_pos hfd, decide_eq_false (Int.not_le.2 hfd)]
    exact .pure rfl
  · rw [if_neg hfd, decide_eq_true (Int.not_lt.1 hfd), Bool.true_and]
    change Shows hash realpath ctx a
      (if ctx.h.isNone || !ctx.reenter then _ else _) _ _
    rw [← Option.not_isSome, ← Bool.not_and]
    cases ctx.h.isSome && ctx.reenter with
    | false => exact .pure rfl
    | true =>
      refine .left wrapperPiece_sound (.isFdDir fd) fun dir hdir => ?_
      obtain rfl : dir = a.isFdDir := hdir
      cases a.isFdDir with
      | true => exact .pure rfl
      | false =>
        refine .left wrapperPiece_sound (.getPath fd) fun path hpath => ?_
        obtain rfl : path = a.getPath := hpath
        exact .pure rfl

section

variable {w : WrapperCtx} (hw : Fields hash realpath ctx a w) (fd : Int)
  {flush : Program Unit} {stream : Bool}
  (hflush : Shows hash realpath ctx a flush
    (if stream then [.fflush] else []) fun _ => True)

include hw hflush

theorem syncWritten_shows :
    Shows hash realpath ctx a (syncWritten ctx fd flush)
      (if w.fsyncWrite then (if stream then [.fflush] else []) ++ [.fsync]
      else []) fun _ => True := by
  rw [hw.fsyncWrite]
  unfold syncWritten
  cases ctx.fsyncWrite with
  | false => exact .pure True.intro
  | true =>
    change Mirrors _ _ _ (does (_ ++ _)) _
    rw [does_append]
    refine .bind hflush fun _ _ _ => ?_
    exact .last (.piece wrapperPiece_sound (.fsync fd))
      fun _ _ _ => .pure True.intro

theorem closeProduced_shows (path : CString) :
    Shows hash realpath ctx a
      (closeProduced hash realpath ctx path fd flush)
      ((if w.fsyncWrite then (if stream then [.fflush] else []) ++ [.fsync]
        else []) ++ [.dyadReleaseFlock fd, .realClose, .dyadProduce path])
      fun rc => rc = a.real := by
  change Mirrors _ _ _ (does (_ ++ _)) _
  rw [does_append]
  refine .bind (syncWritten_shows hw fd hflush) fun _ _ _ => ?_
  refine .step wrapperPiece_sound (.releaseFlock fd) fun _ _ _ => ?_
  refine .step wrapperPiece_sound .realClose fun rc _ hrc => ?_
  exact .step wrapperPiece_sound (.dyadProduce path) fun _ _ _ => .pure hrc

theorem closeWrapper_shows {getfl : Option AccMode}
    (hgetfl : a.wronly = decide (getfl = some .wronly)) :
    Shows hash realpath ctx a
      (closeWrapper hash realpath (some ctx) fd flush)
      (Dyad.closeWrapper w stream fd ⟨true, a.isFdDir, a.getPath, getfl⟩)
      fun rc => rc = a.real := by
  have hreal : Shows hash realpath ctx a (perform .real) [.realClose]
      fun rc => rc = a.real :=
    .last (.piece wrapperPiece_sound .realClose) fun _ _ hrc => .pure hrc
  have hclose : Shows hash realpath ctx a
      ((perform (.isWronly fd)).bind fun _ => perform .real) [.realClose]
      fun rc => rc = a.real :=
    .left wrapperPiece_sound (.isWronly fd) fun _ _ => hreal
  refine .skip (closeSync_shows hw fd) fun found _ hfound => ?_
  subst hfound
  unfold Dyad.closeWrapper
  rw [← hgetfl]
  cases 0 ≤ fd && w.h && w.reenter && !a.isFdDir with
  | false =>
    cases a.getPath with
    | none => exact hclose
    | some path => exact hclose
  | true =>
    cases a.getPath with
    | none => exact hclose
    | some path =>
      refine .left wrapperPiece_sound (.isWronly fd) fun wronly hwronly => ?_
      obtain rfl : wronly = a.wronly := hwronly
      cases a.wronly with
      | false => exact hreal
      | true => exact closeProduced_shows hw fd hflush path

theorem closeWith_shows {getfl : Option AccMode}
    (hgetfl : a.wronly = decide (getfl = some .wronly)) :
    Shows hash realpath ctx a
      ((perform .gotchaGetWrappee).bind fun found =>
        if found then closeWrapper hash realpath (some ctx) fd flush
        else .pure (-1))
      (Dyad.closeWrapper w stream fd ⟨a.wrappee, a.isFdDir, a.getPath, getfl⟩)
      fun rc => rc = if a.wrappee then a.real else -1 := by
  refine .left wrapperPiece_sound .gotchaGetWrappee fun found hfound => ?_
  obtain rfl : found = a.wrappee := hfound
  cases a.wrappee with
  | false => exact .pure rfl
  | true => exact closeWrapper_shows hw fd hflush hgetfl

end

/-- `dyad_close_wrapper` goes the way of its list. -/
theorem dyadCloseWrapper_shows {w : WrapperCtx}
    (hw : Fields hash realpath ctx a w) (fd : Int) {getfl : Option AccMode}
    (hgetfl : a.wronly = decide (getfl = some .wronly)) :
    Shows hash realpath ctx a
      (dyadCloseWrapper hash realpath (some ctx) fd)
      (Dyad.dyadCloseWrapper w fd ⟨a.wrappee, a.isFdDir, a.getPath, getfl⟩)
      fun rc => rc = if a.wrappee then a.real else -1 :=
  closeWith_shows hw fd (.pure True.intro) hgetfl

/-- So does `dyad_fclose_wrapper`. -/
theorem dyadFcloseWrapper_shows {w : WrapperCtx}
    (hw : Fields hash realpath ctx a w) (fd : Int) {getfl : Option AccMode}
    (hgetfl : a.wronly = decide (getfl = some .wronly)) :
    Shows hash realpath ctx a
      (dyadFcloseWrapper hash realpath (some ctx) fd)
      (Dyad.dyadFcloseWrapper w fd ⟨a.wrappee, a.isFdDir, a.getPath, getfl⟩)
      fun rc => rc = if a.wrappee then a.real else -1 :=
  closeWith_shows hw fd
    (.last (.piece wrapperPiece_sound .fflush) fun _ _ _ => .pure True.intro)
    hgetfl

end Dyad.WrapperOps
