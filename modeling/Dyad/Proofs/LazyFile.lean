import Dyad.Proofs.ConsumeSafe
import Dyad.Proofs.EvictSound

/-!
# When a lazily filled file is not taken for a complete one

A range request gives the local copy the origin's full size at its first
touch and fills it block by block. A whole-file operation decides by the size
alone: `dyad_consume` takes a copy with a size for fetched, and the service
sends a file of that size. The bitmap would say how much of the copy is there,
and neither looks at it, so a copy with one block filled is served as it is,
zeros and all.

Where a whole-file operation never takes the size of a copy that is part of
the way there, it is right, next to any number of range requests; those are
the runs of `fillingRuns`. They share the conditions of `storingRuns` on the
writes of whole files, and ask of the threads of one process that they do not
take each other's record locks.
-/

namespace Dyad

open Conc Posix

/-- The runs: whole-file consumers, the whole-file and the range requests of
the service, and range consumers, of a node and a build. -/
def lazyRuns (ctx : Ctx) (ucxBuild : Bool) : Machine.Guard (node ctx) where
  act _ _ _ _ := True
  crash _ _ := True
  start _ _ j :=
    match j with
    | .consume _ => True
    | .consumeWMetadata mdata _ => mdata = true
    | .fetch u => u = ucxBuild
    | .evict => False
    | _ => True

/-- A job on a whole file. -/
def Job.isWhole : Job → Prop
  | .consume _ => True
  | .consumeWMetadata .. => True
  | .fetch _ => True
  | .evict => True
  | _ => False

/-- A copy whose size may be taken: nobody fills it in blocks, or every block
is marked, or it is empty or complete. -/
def Sized (orig : Bytes Byte) (w : Node) (d : Nat) : Prop :=
  (∀ i, w.os.dir .bitmap = some i →
    ∀ b, b < rangeCacheNumBlocks orig.size → Bit (w.os.file i) b) ∨
  w.os.file d = Bytes.empty ∨ w.os.file d = orig

/-- A range request may change the locks its process has on the copy `i`: it
has a bitmap, or the process is not at work on the whole of it. -/
def Unheld (w : Node) (t : Tid) (i : Nat) : Prop :=
  t.2 ≠ 0 → w.os.born i = .data → w.os.dir .bitmap = none →
    ∀ u : Tid, u.2 = 0 → u.1 = t.1 → w.busy u = false

/-- Those of their runs in which the size of a copy is taken only when it may
be, what is received and written of a whole file is the whole file, the
whole-file operations of a process come one after the other, on its first thread, and
keep their locks, and the spans keep to the bitmap. -/
def fillingRuns (ctx : Ctx) (ucxBuild : Bool) (orig : Bytes Byte)
    (hs : orig.size < 2 ^ 63) : Machine.Guard (node ctx) where
  act w t c x :=
    match c with
    | .sys (.fstat d) => t.2 = 0 → w.os.born d = .data → Sized orig w d
    | .sys (.pwrite d ..) =>
      t.2 = 0 → w.os.born d = .data → StoresWhole orig w d x
    | .sys (.close i) => Unheld w t i
    | .sys (.setlkw i _) => Unheld w t i
    | .sys (.setlk i _) => Unheld w t i
    | .sys (.unlock i) => Unheld w t i
    | .kvsRead => t.2 = 0 → ∀ rank, w.owner = some rank →
        rank / ctx.serviceMux ≠ ctx.nodeIdx ∨ Complete orig w
    | .getData => w.dtl.Strips
    | .rpcUnpackRange => ∀ offset length, x = .range offset length →
        SpanInBounds ctx offset length ⟨orig.size, hs⟩
    | _ => True
  crash w p := w.os.dir .bitmap = none → ∀ d, w.os.dir .data = some d →
    (w.os.locks d).Holds p .excl →
      w.os.file d = Bytes.empty ∨ w.os.file d = orig
  start w t j := (lazyRuns ctx ucxBuild).start w t j ∧
    (j.isWhole ↔ t.2 = 0) ∧
    match j with
    | .ensure offset length => SpanInBounds ctx offset length ⟨orig.size, hs⟩
    | .consumeRange offset length =>
      SpanInBounds ctx offset length ⟨orig.size, hs⟩
    | .worker item =>
      SpanInBounds ctx item.offset item.length ⟨orig.size, hs⟩
    | _ => True

/-- Before the first request: no bitmap, and a copy that is empty or complete,
if there is one. -/
structure Unfilled (orig : Bytes Byte) (w : Node) : Prop
    extends Managed orig w where
  settled : ∀ d, w.os.dir .data = some d →
    w.os.file d = Bytes.empty ∨ w.os.file d = orig

/-- The payload a thread that serves the whole file is about to send. -/
def sending (s : NodeCfg) (t : Tid) : Option (Bytes Byte) :=
  match s.thread t with
  | some ⟨.fetch _, .call (.send payload) _⟩ => some payload
  | _ => none

theorem thread_of_sending {s : NodeCfg} {t : Tid} {payload : Bytes Byte}
    (h : sending s t = some payload) :
    ∃ u k, s.thread t = some ⟨.fetch u, .call (.send payload) k⟩ := by
  unfold sending at h
  split at h
  · next u payload' k hth =>
    obtain rfl := Option.some.inj h
    exact ⟨u, k, hth⟩
  · exact absurd h (by simp)

/-- What whole-file operations promise next to range requests. -/
structure WholeSound (orig : Bytes Byte) (ucxBuild : Bool) (s : NodeCfg) :
    Prop where
  consumed : ConsumeSafe orig s
  sent : ∀ t payload, sending s t = some payload →
    payload = fetchPayload ucxBuild orig

/-- The setting of these runs. -/
def lazySetting (ctx : Ctx) (horigin : ctx.originPath = true)
    (ucxBuild : Bool) (orig : Bytes Byte) (hs : orig.size < 2 ^ 63) :
    Setting where
  ctx := ctx
  orig := orig
  offT := hs
  files t := t.2 = 0
  ucxBuild := ucxBuild
  whole := True
  lazy := True
  serve := True
  evict := False
  sized := True
  hasOrigin _ := horigin
  calm _ h := h
  one _ _ _ ht hu hp := first_unique ht hu hp
  wholeSized h := h

theorem lazy_reach {ctx : Ctx} (horigin : ctx.originPath = true)
    {ucxBuild : Bool} {orig : Bytes Byte} (hs : orig.size < 2 ^ 63)
    (hlocal : ctx.tracked = true ∧ ctx.sharedStorage = false)
    (hevict : ctx.cacheCapacityBytes = 0 ∨ ctx.cachePolicyMode = .none)
    {s : NodeCfg}
    (h : ((node ctx).lts (Unfilled orig)).Reach
      (fillingRuns ctx ucxBuild orig hs).Allows s) :
    (lazySetting ctx horigin ucxBuild orig hs).spec.Good s := by
  refine Setting.reach (Machine.reach_mono (φ := fun _ _ => True)
    (fun w hw => ?_) (fun _ _ _ _ => True.intro)
    (fun w t j c x _ hc => ?_) (fun w p hp _ => hp)
    (fun w t j hj => ?_) h)
  · exact ⟨hw.published, hw.origin, hw.noBitmap, fun _ => hw.size,
      fun _ => hw.settled, hw.idle⟩
  · cases c with
    | sys c =>
      cases c with
      | pwrite d off b =>
        exact fun ht hb => ⟨(hc ht hb).1, fun k hk _ => (hc ht hb).2 k hk⟩
      | unlink n => cases n <;> first | exact True.intro | exact fun h => h.elim
      | fstat d => exact fun _ _ ht hb => hc ht hb
      | close i => exact fun _ ht hb hn => hc ht hb hn
      | setlkw i m => exact fun _ ht hb hn => hc ht hb hn
      | setlk i m => exact fun _ ht hb hn => hc ht hb hn
      | unlock i => exact fun _ ht hb hn => hc ht hb hn
      | _ => exact True.intro
    | kvsRead => exact fun _ ht rank hrank => hc ht rank hrank
    | getData => exact fun _ => hc
    | rpcUnpackRange => exact fun _ offset length hx => hc offset length hx
    | _ => exact True.intro
  · obtain ⟨hj, hwhole, hspan⟩ := hj
    have hrange : ¬ j.isWhole → ¬ t.2 = 0 := fun hn ht => hn (hwhole.2 ht)
    cases j with
    | consume fuel =>
      exact ⟨hwhole.1 True.intro, Or.inr hevict, fun _ => hlocal⟩
    | consumeWMetadata mdata fuel =>
      exact ⟨hwhole.1 True.intro, Or.inr hevict, fun _ => hj⟩
    | evict => exact hj.elim
    | fetch u => exact ⟨hwhole.1 True.intro, fun _ => hj⟩
    | ensure offset length => exact ⟨True.intro, hrange id, hspan⟩
    | consumeRange offset length => exact ⟨True.intro, hrange id, hspan⟩
    | fetchRange workers detached => exact ⟨True.intro, hrange id, True.intro⟩
    | worker item => exact ⟨True.intro, hrange id, hspan⟩

/-- In every state of every such run, a whole-file call that has returned
`DYAD_RC_OK` has left the complete file, and a payload that is sent for the
whole file is all of it. -/
theorem wholeFile_complete {ctx : Ctx} (horigin : ctx.originPath = true)
    {ucxBuild : Bool} {orig : Bytes Byte} (hs : orig.size < 2 ^ 63)
    (hlocal : ctx.tracked = true ∧ ctx.sharedStorage = false)
    (hevict : ctx.cacheCapacityBytes = 0 ∨ ctx.cachePolicyMode = .none)
    {s : NodeCfg}
    (h : ((node ctx).lts (Unfilled orig)).Reach
      (fillingRuns ctx ucxBuild orig hs).Allows s) :
    WholeSound orig ucxBuild s := by
  have hgood := lazy_reach horigin hs hlocal hevict h
  refine ⟨?_, fun t payload hsend => ?_⟩
  · rintro t fuel (hret | hret)
    · exact (hgood.post hret).2 True.intro rfl
    · exact (hgood.post hret).2 True.intro rfl
  · obtain ⟨u, k, hth⟩ := thread_of_sending hsend
    have ht : t.2 = 0 := Machine.reach_started
      (φ := fun t j => j.isWhole → t.2 = 0)
      (fun _ _ _ (hj : _ ∧ _ ∧ _) => hj.2.1.1) h hth True.intro
    exact hgood.req hth True.intro ht

/-! ## Two runs -/

theorem unfilled_fresh {orig : Bytes Byte} {hs : orig.size < 2 ^ 63}
    {owner : Option Nat} : Unfilled orig (Node.fresh orig hs owner) :=
  ⟨managed_fresh, fun d hd => absurd hd (by simp [Node.fresh])⟩

/-- A request for the whole file, up to the send. -/
def fetches (t : Tid) : List NodeLabel :=
  .start t (.fetch false) :: .act t (.flag true) :: goes t 11

/-- The origin's one byte is requested as a range, and then as a file. -/
def byteSent : NodeCfg :=
  (((node Ctx.consumer).lts (Unfilled oneByte.published)).replay oneByte.idle
    (fillsByte ++ fetches (0, 0))).getD oneByte.idle

/-- The steps of these runs on an origin of one byte: the calls go through, a
size is taken once the byte is marked, and the range requests lie inside the
origin and have a bitmap. -/
def fillsAndFetches : NodeCfg → NodeLabel → Bool :=
  Machine.check
    (fun w t c x =>
      match c with
      | .sys (.fstat _) =>
        match w.os.dir .bitmap with
        | some i => decide (Bit (w.os.file i) 0) || t.2 != 0
        | none => true
      | .sys (.pwrite ..) => x.isOk
      | .sys (.close _) => t.2 = 0 || (w.os.dir .bitmap).isSome
      | .sys (.setlkw ..) => t.2 = 0 || (w.os.dir .bitmap).isSome
      | .sys (.setlk ..) => t.2 = 0 || (w.os.dir .bitmap).isSome
      | .sys (.unlock _) => t.2 = 0 || (w.os.dir .bitmap).isSome
      | .kvsRead => false
      | .getData => false
      | .rpcUnpackRange => false
      | _ => true)
    (fun _ _ => false)
    fun _ t j =>
      match j with
      | .fetch u => !u && t.2 = 0
      | .ensure offset length =>
        t.2 ≠ 0 ∧ offset.toNat + length.toNat ≤ 1
      | _ => false

theorem unheld_of_marked {w : Node} {t : Tid} {i : Nat}
    (h : (decide (t.2 = 0) || (w.os.dir .bitmap).isSome) = true) :
    Unheld w t i := by
  intro ht _ hn
  rw [Bool.or_eq_true] at h
  rcases h with h | h
  · exact absurd (of_decide_eq_true h) ht
  · rw [hn] at h
    exact absurd h (by simp)

theorem wholeFile_complete_byteSent :
    (sending byteSent (0, 0)).isSome = true ∧
    WholeSound oneByte.published false byteSent := by
  refine ⟨rfl, @wholeFile_complete Ctx.consumer rfl false _
    (by decide) ⟨rfl, rfl⟩ (Or.inl rfl) _ ?_⟩
  refine Lts.Reach.of_replay (φ := fillsAndFetches)
    ⟨unfilled_fresh, fun _ => rfl⟩
    (Machine.Guard.allows_of_check (fun w t c x h => ?_)
      (fun _ _ h => absurd h (by simp)) fun w t j h => ?_)
    (by decide) (by decide)
  · cases c with
    | sys c =>
      cases c with
      | fstat d =>
        intro ht _
        refine Or.inl fun i hi b hb => ?_
        have hb0 : b = 0 := Nat.lt_one_iff.1 hb
        simp only [hi, ht, bne_self_eq_false, Bool.or_false] at h
        rw [hb0]
        exact of_decide_eq_true h
      | pwrite d off b =>
        exact fun _ _ => ⟨fun e hx => by simp [hx, Choice.isOk] at h,
          fun k hx => by simp [hx, Choice.isOk] at h⟩
      | close i => exact unheld_of_marked h
      | setlkw i m => exact unheld_of_marked h
      | setlk i m => exact unheld_of_marked h
      | unlock i => exact unheld_of_marked h
      | _ => exact True.intro
    | kvsRead => exact absurd h (by simp)
    | getData => exact absurd h (by simp)
    | rpcUnpackRange => exact absurd h (by simp)
    | _ => exact True.intro
  · cases j with
    | fetch u =>
      simp only [Bool.and_eq_true, Bool.not_eq_true'] at h
      have ht := of_decide_eq_true h.2
      exact ⟨h.1, ⟨fun _ => ht, fun _ => True.intro⟩, True.intro⟩
    | ensure offset length =>
      obtain ⟨ht, hin⟩ := of_decide_eq_true h
      exact ⟨True.intro, ⟨fun h => h.elim, fun h => ht h⟩,
        spanInBounds_of_le (by decide) hin⟩
    | _ => exact absurd h (by simp)

/-- An origin of two blocks, one of them full, on the node of its owner. -/
def twoBlocks : Node :=
  Node.fresh (Bytes.ofFn 65537 fun _ => 1) (by decide) (some 0)

/-- The first byte is requested as a range, and then the whole file. -/
def firstByte : List NodeLabel :=
  .start (0, 1) (.consumeRange 0 1) :: goes (0, 1) 38 ++ fetches (0, 0)

/-- Where that leads. -/
def holeSent : NodeCfg :=
  (((node Ctx.consumer).lts (Unfilled twoBlocks.published)).replay
    twoBlocks.idle firstByte).getD twoBlocks.idle

/-- The service sends a file with a hole in it: the last byte is a zero. -/
theorem wholeFile_hasHole :
    ((node Ctx.consumer).lts (Unfilled twoBlocks.published)).Reach
      (lazyRuns Ctx.consumer false).Allows holeSent ∧
    ¬ WholeSound twoBlocks.published false holeSent := by
  constructor
  · exact Lts.Reach.of_replay (φ := Machine.check (fun _ _ _ _ => true)
        (fun _ _ => false) fun _ _ j => match j with
          | .fetch u => !u
          | .consumeRange .. => true
          | _ => false)
      ⟨unfilled_fresh, fun _ => rfl⟩
      (Machine.Guard.allows_of_check (fun _ _ _ _ _ => True.intro)
        (fun _ _ h => absurd h (by simp)) fun w t j h => by
          cases j with
          | fetch u => exact (Bool.not_eq_true' u).mp h
          | consumeRange offset length => exact True.intro
          | _ => exact absurd h (by simp))
      (by decide) (by decide)
  · intro hsound
    have hpayload := hsound.sent (0, 0) _ rfl
    have hbyte := congrArg (fun b => Bytes.get b 65536) hpayload
    exact absurd hbyte (by decide)

end Dyad
