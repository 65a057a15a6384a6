import Dyad.Proofs.LocalCopy

/-!
# The local files under concurrent use: the outline

The range cache, the whole-file client calls, the service and the evictor all
work on the same two files, the local copy and its bitmap. This is the outline
their results share: what is always true of the two files, what a thread can
rely on while it waits, and which steps a run is assumed not to take.

A `Setting` says which of them run. With eviction, the files may go while
nobody works on a range, so only a thread with a range in hand relies on the
local copy staying; without it, everybody does. Whether whole-file results are
claimed (`whole`) decides how much is tracked of a copy that no bitmap
describes: it is then empty, or complete, or in the hands of a process that
has its exclusive lock (`Inv.settled`), and a process relies on its own locks
and on nobody writing to a file it has locked (`Own`). Once there is a bitmap
the locks on the copy stop mattering, since every writer only puts the
origin's bytes in place.

The range threads never leave the bitmap: `guard` keeps their spans inside it,
and the only undefined behaviour they may come to (`Req`) is the missing range
request of the UCX DTL.
-/

namespace Dyad

open Conc Posix

/-- Which operations run, and what is asked of them. `files` are the threads
that work on whole files, at most one in each process when their results are
claimed; the others work on ranges. -/
structure Setting where
  ctx : Ctx
  orig : Bytes Byte
  offT : orig.size < 2 ^ 63
  files : Tid → Prop
  ucxBuild : Bool
  whole : Prop
  lazy : Prop
  serve : Prop
  evict : Prop
  sized : Prop
  hasOrigin : lazy → ctx.originPath = true
  calm : whole → ¬ evict
  one : whole → ∀ t u, files t → files u → t.1 = u.1 → t = u
  wholeSized : whole → sized

namespace Setting

variable (C : Setting)

/-- A copy nobody needs to be told about: empty, or complete. -/
def Settled (f : Bytes Byte) : Prop := f = Bytes.empty ∨ f = C.orig

/-- What always holds of the files. -/
structure Inv (w : Node) : Prop where
  published : w.published = C.orig
  origin : ∀ i, i < w.os.next → w.os.born i = .origin → w.os.file i = C.orig
  bits : ∀ i, w.os.dir .bitmap = some i → BitsOk C.orig w (w.os.file i)
  noBitmap : ¬ C.lazy → w.os.dir .bitmap = none
  size : C.sized → ∀ d, d < w.os.next → w.os.born d = .data →
    (w.os.file d).size ≤ C.orig.size
  settled : C.whole → w.os.dir .bitmap = none →
    ∀ d, w.os.dir .data = some d → C.Settled (w.os.file d) ∨
      ∃ u, C.files u ∧ (w.os.locks d).Holds u.1 .excl ∧ w.busy u = true

/-- The threads the local copy stays for. -/
def Active (t : Tid) (w : Node) : Prop :=
  C.evict → ¬ C.files t ∧ w.busy t = true

/-- What no step undoes. -/
structure Frame (w w' : Node) : Prop where
  next : w.os.next ≤ w'.os.next
  born : ∀ i, i < w.os.next → w'.os.born i = w.os.born i
  has : ∀ d i, d < w.os.next → w.os.born d = .data → i < C.orig.size →
    Has C.orig (w.os.file d) i → Has C.orig (w'.os.file d) i
  linked : ∀ d, w'.os.dir .data = some d → d < w.os.next →
    w.os.dir .data = some d
  bitmap : ¬ C.evict → ∀ i, w.os.dir .bitmap = some i →
    w'.os.dir .bitmap = some i

/-- What no step but the eviction of the local copy undoes. -/
structure Kept (w w' : Node) : Prop where
  data : ∀ d, w.os.dir .data = some d → w'.os.dir .data = some d
  bits : ∀ i, i < w.os.next → w.os.born i = .bitmap →
    BitsOk C.orig w (w.os.file i) → BitsOk C.orig w' (w'.os.file i)

/-- What the others leave of the locks of `t`'s process on local copies. -/
structure Own (t : Tid) (w w' : Node) : Prop where
  lost : ∀ d, d < w'.os.next → w'.os.born d = .data →
    (w'.os.locks d).Holds t.1 .excl →
      d < w.os.next ∧ (w.os.locks d).Holds t.1 .excl
  kept : w.busy t = true → ∀ d m, d < w.os.next → w.os.born d = .data →
    (w.os.locks d).Holds t.1 m → (w'.os.locks d).Holds t.1 m
  file : ∀ d, d < w.os.next → w.os.born d = .data →
    (w'.os.locks d).Holds t.1 .excl → w'.os.file d = w.os.file d

/-- What `t` relies on. -/
structure Rely (t : Tid) (w w' : Node) : Prop where
  frame : C.Frame w w'
  busy : w'.busy t = w.busy t
  kept : C.Active t w → C.Kept w w'
  own : C.whole → C.files t → w'.os.dir .bitmap = none → Own t w w'

variable {C}

theorem Frame.rfl (w : Node) : C.Frame w w :=
  ⟨Nat.le_refl _, fun _ _ => Eq.refl _, fun _ _ _ _ _ h => h,
    fun _ h _ => h, fun _ _ h => h⟩

theorem Frame.trans {w w' w'' : Node} (h : C.Frame w w')
    (h' : C.Frame w' w'') : C.Frame w w'' where
  next := Nat.le_trans h.next h'.next
  born i hi := (h'.born i (Nat.lt_of_lt_of_le hi h.next)).trans (h.born i hi)
  has d i hd hb hi hh :=
    h'.has d i (Nat.lt_of_lt_of_le hd h.next) ((h.born d hd).trans hb) hi
      (h.has d i hd hb hi hh)
  linked d hd hlt :=
    h.linked d (h'.linked d hd (Nat.lt_of_lt_of_le hlt h.next)) hlt
  bitmap he i hi := h'.bitmap he i (h.bitmap he i hi)

theorem Kept.trans {w w' w'' : Node} (hf : C.Frame w w') (h : C.Kept w w')
    (h' : C.Kept w' w'') : C.Kept w w'' where
  data d hd := h'.data d (h.data d hd)
  bits i hi hb hok :=
    h'.bits i (Nat.lt_of_lt_of_le hi hf.next) ((hf.born i hi).trans hb)
      (h.bits i hi hb hok)

theorem Own.trans {t : Tid} {w w' w'' : Node} (hf : C.Frame w w')
    (hf' : C.Frame w' w'') (hb : w'.busy t = w.busy t) (h : Own t w w')
    (h' : Own t w' w'') : Own t w w'' where
  lost d hd hdata hh := by
    obtain ⟨hd', hh'⟩ := h'.lost d hd hdata hh
    exact h.lost d hd' ((hf'.born d hd').symm.trans hdata) hh'
  kept hbusy d m hd hdata hh :=
    h'.kept (hb.trans hbusy) d m (Nat.lt_of_lt_of_le hd hf.next)
      ((hf.born d hd).trans hdata) (h.kept hbusy d m hd hdata hh)
  file d hd hdata hh := by
    have hd' := Nat.lt_of_lt_of_le hd hf.next
    have hdata' := (hf.born d hd).trans hdata
    have hd'' := Nat.lt_of_lt_of_le hd' hf'.next
    obtain ⟨-, hh'⟩ := h'.lost d hd'' ((hf'.born d hd').trans hdata') hh
    exact (h'.file d hd' hdata' hh).trans (h.file d hd hdata hh')

/-- Without eviction, a bitmap that is not there now was not there before. -/
theorem Frame.noBitmap {w w' : Node} (h : C.Frame w w') (he : ¬ C.evict)
    (hn : w'.os.dir .bitmap = none) : w.os.dir .bitmap = none := by
  cases hb : w.os.dir .bitmap with
  | none => rfl
  | some i =>
    have := h.bitmap he i hb
    rw [hn] at this
    exact absurd this (by simp)

theorem Frame.localBlock {w w' : Node} (h : C.Frame w w')
    (hd : ∀ d, w.os.dir .data = some d → w'.os.dir .data = some d) {b : Nat}
    (hb : LocalBlock C.orig w b) : LocalBlock C.orig w' b := by
  obtain ⟨d, hdir, hok⟩ := hb
  obtain ⟨hlt, hborn⟩ := w.os.linked _ _ hdir
  exact ⟨d, hd d hdir, fun i hi hsz => h.has d i hlt hborn hsz (hok i hi hsz)⟩

theorem Frame.bitsOk {w w' : Node} (h : C.Frame w w')
    (hd : ∀ d, w.os.dir .data = some d → w'.os.dir .data = some d)
    {bitmap : Bytes Byte} (hb : BitsOk C.orig w bitmap) :
    BitsOk C.orig w' bitmap :=
  fun b hbit => h.localBlock hd (hb b hbit)

theorem Rely.rfl (t : Tid) (w : Node) : C.Rely t w w where
  frame := Frame.rfl w
  busy := Eq.refl _
  kept _ := ⟨fun _ h => h, fun _ _ _ h => h⟩
  own _ _ _ := ⟨fun _ hd _ h => ⟨hd, h⟩, fun _ _ _ _ _ h => h,
    fun _ _ _ _ => Eq.refl _⟩

theorem Rely.trans {t : Tid} {w w' w'' : Node} (h : C.Rely t w w')
    (h' : C.Rely t w' w'') : C.Rely t w w'' where
  frame := h.frame.trans h'.frame
  busy := h'.busy.trans h.busy
  kept ha := (h.kept ha).trans h.frame <| h'.kept fun he =>
    ⟨(ha he).1, h.busy.trans (ha he).2⟩
  own hw ht hn :=
    (h.own hw ht (h'.frame.noBitmap (C.calm hw) hn)).trans h.frame h'.frame
      h.busy (h'.own hw ht hn)

variable (C)

/-! ## The steps a run is assumed to take -/

/-- The size of the origin, as a file size. -/
def originSize : OffT := ⟨C.orig.size, C.offT⟩

/-- A whole-file write stores what it was given. One that fails is noticed
only when the file is written at once; one that stops short leaves the copy as
settled as it was. -/
def Writes (w : Node) (d : Nat) (x : Choice) : Prop :=
  (∀ e, x = .os (.fail e) → C.orig.size < transferGranularity) ∧
  ∀ k, x = .os (.short k) → C.whole → w.os.file d = C.orig ∨
    if C.orig.size < transferGranularity then k = 0 else 0 < k

/-- Every block of the origin is marked in the bitmap that is there. -/
def AllMarked (w : Node) : Prop :=
  ∀ i, w.os.dir .bitmap = some i →
    ∀ b, b < rangeCacheNumBlocks C.orig.size → Bit (w.os.file i) b

/-- The local copy is evicted while no block of it is marked and no range
request is under way. -/
def Evicts (w : Node) : Prop :=
  (∀ i, w.os.dir .bitmap = some i → ∀ b, ¬ Bit (w.os.file i) b) ∧
  ∀ u, ¬ C.files u → w.busy u = false

/-- A range thread touches the locks of its process on a copy without a
bitmap only while the process is in no whole-file operation. -/
def Touches (w : Node) (t : Tid) (i : Nat) : Prop :=
  C.whole → ¬ C.files t → w.os.born i = .data → w.os.dir .bitmap = none →
    ∀ u, C.files u → u.1 = t.1 → w.busy u = false

/-- The calls. -/
def Acts (w : Node) (t : Tid) (c : Call) (x : Choice) : Prop :=
  match c with
  | .sys (.pwrite d ..) => C.files t → w.os.born d = .data → C.Writes w d x
  | .sys (.fstat d) =>
    C.whole → C.lazy → C.files t → w.os.born d = .data →
      C.AllMarked w ∨ C.Settled (w.os.file d)
  | .sys (.unlink .data) => C.evict → x = .os .ok → C.Evicts w
  | .sys (.close i) => C.Touches w t i
  | .sys (.setlkw i _) => C.Touches w t i
  | .sys (.setlk i _) => C.Touches w t i
  | .sys (.unlock i) => C.Touches w t i
  | .kvsRead => C.whole → C.files t → ∀ rank, w.owner = some rank →
      rank / C.ctx.serviceMux ≠ C.ctx.nodeIdx ∨ Complete C.orig w
  | .getData => C.files t → w.dtl.Strips
  | .rpcUnpackRange => C.serve → ∀ offset length,
      x = .range offset length →
        SpanInBounds C.ctx offset length C.originSize
  | _ => True

/-- A process that dies with the exclusive lock of a copy without a bitmap
leaves it settled. -/
def Dies (w : Node) (p : Nat) : Prop :=
  C.whole → w.os.dir .bitmap = none → ∀ d, w.os.dir .data = some d →
    (w.os.locks d).Holds p .excl → C.Settled (w.os.file d)

/-- The jobs: ranges on their own threads, inside the bitmap; whole files on
the threads for them, on a consumer of node-local storage when their results are
claimed, and with nothing to evict unless eviction is looked at. -/
def Starts (t : Tid) : Job → Prop
  | .ensure offset length =>
    C.lazy ∧ ¬ C.files t ∧ SpanInBounds C.ctx offset length C.originSize
  | .consumeRange offset length =>
    C.lazy ∧ ¬ C.files t ∧ SpanInBounds C.ctx offset length C.originSize
  | .worker item => C.lazy ∧ ¬ C.files t ∧
    SpanInBounds C.ctx item.offset item.length C.originSize
  | .fetchRange .. => C.lazy ∧ ¬ C.files t ∧ C.serve
  | .evict => C.evict ∧ C.files t
  | .fetch ucxBuild => C.files t ∧ (C.whole → ucxBuild = C.ucxBuild)
  | .consume _ => C.files t ∧
    (C.evict ∨ C.ctx.cacheCapacityBytes = 0 ∨
      C.ctx.cachePolicyMode = .none) ∧
    (C.whole → C.ctx.tracked = true ∧ C.ctx.sharedStorage = false)
  | .consumeWMetadata mdata _ => C.files t ∧
    (C.evict ∨ C.ctx.cacheCapacityBytes = 0 ∨
      C.ctx.cachePolicyMode = .none) ∧
    (C.whole → mdata = true)

/-- The runs. -/
def guard : Machine.Guard (node C.ctx) where
  act := C.Acts
  crash := C.Dies
  start _ := C.Starts

/-! ## The outline -/

/-- What may be called: payloads are complete, and only eviction unlinks. -/
def Req (_ : Node) (t : Tid) : Call → Prop
  | .ub => C.files t ∨ C.ctx.dtlMode = .ucx
  | .sys (.unlink _) => C.evict
  | .rpcUnpackRange => C.serve
  | .send payload => C.whole → C.files t →
      payload = fetchPayload C.ucxBuild C.orig
  | _ => True

/-- A lock left behind is on a settled copy. -/
def Quit (t : Tid) (w : Node) : Prop :=
  C.whole → C.files t → w.os.dir .bitmap = none →
    ∀ d, w.os.dir .data = some d → (w.os.locks d).Holds t.1 .excl →
      C.Settled (w.os.file d)

/-- Every block of the span is local. -/
def Ready (bs be : Nat) (w : Node) : Prop :=
  ∀ b, bs ≤ b → b ≤ be → LocalBlock C.orig w b

/-- What a job returns. -/
def Result (w : Node) : (j : Job) → j.Res → Prop
  | .consume _, rc => C.whole → rc = .ok → Complete C.orig w
  | .consumeWMetadata .., rc => C.whole → rc = .ok → Complete C.orig w
  | .ensure offset length, rc => rc = .ok → length ≠ 0 →
      C.Ready (blockStart offset) (blockEnd offset length) w
  | .consumeRange offset length, (rc, data) => C.sized → rc = .ok →
      data = some (C.orig.slice offset.toNat length.toNat)
  | _, _ => True

/-- The outline. -/
def spec : Spec (node C.ctx) where
  Inv := C.Inv
  Rely := C.Rely
  Guar _ _ := True
  Req := C.Req
  Idle t w := w.busy t = false ∧ C.Quit t w
  Post t j a w := C.Quit t w ∧ C.Result w j a
  guard := C.guard
  rely_refl := Rely.rfl
  rely_trans _ _ _ _ h h' := h.trans h'
  guar_refl _ := True.intro
  guar_trans _ _ _ _ _ := True.intro

end Setting

end Dyad
