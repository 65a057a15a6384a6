import Dyad.Proofs.RangeCacheSound

/-!
# When the range cache survives eviction

Range requests fill a local copy block by block and mark the blocks in the
bitmap, whole-file consumers write all of it, and the evictor unlinks what it
ranks lowest. The copy and its bitmap are two entries of one directory, and
the evictor takes them one at a time. That is harmless for the bitmap, whose
bits only say less when it goes, and it is harmless for a copy that no bit
speaks of; a copy that goes from under a marked bitmap leaves bits that
promise blocks nobody has, and so does one that goes while a range request
stands between its fetch and its recording.

The runs in which the evictor does not do that are those of `keepingRuns`. A
thread keeps nothing between two calls, so a thread that works on whole files
and on ranges in turn is two threads here that take turns.
-/

namespace Dyad

open Conc Posix

/-- The runs: whole-file consumers and evictors on some threads, range
requests on the others. -/
def evictRuns (ctx : Ctx) (files : Tid → Prop) : Machine.Guard (node ctx) where
  act _ _ _ _ := True
  crash _ _ := True
  start _ t j :=
    (files t ∧ (j = .evict ∨ ∃ fuel, j = .consume fuel)) ∨
    (¬ files t ∧ ∃ offset length : UInt64,
      j = .ensure offset length ∨ j = .consumeRange offset length)

/-- The local copy may go: no block of it is marked, and no range request is
under way. -/
def Unused (files : Tid → Prop) (w : Node) : Prop :=
  (∀ i, w.os.dir .bitmap = some i → ∀ b, ¬ Bit (w.os.file i) b) ∧
  ∀ t, ¬ files t → w.busy t = false

/-- Those of their runs in which the copy is evicted only when it may go, what
is received of a whole file is the file, no chunk of a file that is stored in
chunks fails to be written, and the spans keep to the bitmap. -/
def keepingRuns (ctx : Ctx) (files : Tid → Prop) (orig : Bytes Byte)
    (hs : orig.size < 2 ^ 63) : Machine.Guard (node ctx) where
  act w t c x :=
    match c with
    | .sys (.unlink .data) => x = .os .ok → Unused files w
    | .sys (.pwrite d ..) => files t → w.os.born d = .data →
        ∀ e, x = .os (.fail e) → orig.size < transferGranularity
    | .getData => w.dtl.Strips
    | _ => True
  crash _ _ := True
  start w t j := (evictRuns ctx files).start w t j ∧
    match j with
    | .ensure offset length => SpanInBounds ctx offset length ⟨orig.size, hs⟩
    | .consumeRange offset length =>
      SpanInBounds ctx offset length ⟨orig.size, hs⟩
    | _ => True

/-- Before the first request: no bitmap, and no copy that is larger than the
origin. -/
structure Managed (orig : Bytes Byte) (w : Node) : Prop
    extends Unmarked orig w where
  size : ∀ d, d < w.os.next → w.os.born d = .data →
    (w.os.file d).size ≤ orig.size

/-- What the range cache promises next to an evictor. -/
structure EvictSound (orig : Bytes Byte) (s : NodeCfg) : Prop where
  bits : ∀ i, s.world.os.dir .bitmap = some i →
    ∀ b, Bit (s.world.os.file i) b → LocalBlock orig s.world b
  returned : ∀ t offset length data,
    Returned s t (.consumeRange offset length) (.ok, data) →
      data = some (orig.slice offset.toNat length.toNat)

/-- The setting of these runs. -/
def evictSetting (ctx : Ctx) (horigin : ctx.originPath = true)
    (files : Tid → Prop) (orig : Bytes Byte) (hs : orig.size < 2 ^ 63) :
    Setting where
  ctx := ctx
  orig := orig
  offT := hs
  files := files
  ucxBuild := false
  whole := False
  lazy := True
  serve := False
  evict := True
  sized := True
  hasOrigin _ := horigin
  calm h := h.elim
  one h := h.elim
  wholeSized h := h.elim

theorem evict_reach {ctx : Ctx} (horigin : ctx.originPath = true)
    {files : Tid → Prop} {orig : Bytes Byte} (hs : orig.size < 2 ^ 63)
    {s : NodeCfg}
    (h : ((node ctx).lts (Managed orig)).Reach
      (keepingRuns ctx files orig hs).Allows s) :
    (evictSetting ctx horigin files orig hs).spec.Good s := by
  refine Setting.reach (Machine.reach_mono (φ := fun _ _ => True)
    (fun w hw => ?_) (fun _ _ _ _ => True.intro)
    (fun w t j c x _ hc => ?_) (fun w p _ h => h.elim)
    (fun w t j hj => ?_) h)
  · exact ⟨hw.published, hw.origin, hw.noBitmap, fun _ => hw.size,
      fun h => h.elim, hw.idle⟩
  · cases c with
    | sys c =>
      cases c with
      | unlink n =>
        cases n with
        | data => exact fun _ hx => hc hx
        | _ => exact True.intro
      | pwrite d off b => exact fun ht hb => ⟨hc ht hb, fun _ _ h => h.elim⟩
      | _ => first | exact True.intro | exact fun h => h.elim
    | getData => exact fun _ => hc
    | _ => first | exact True.intro | exact fun h => h.elim
  · obtain ⟨⟨ht, rfl | ⟨fuel, rfl⟩⟩ | ⟨ht, offset, length, rfl | rfl⟩, hspan⟩ := hj
    · exact ⟨True.intro, ht⟩
    · exact ⟨ht, Or.inl True.intro, fun h => h.elim⟩
    · exact ⟨True.intro, ht, hspan⟩
    · exact ⟨True.intro, ht, hspan⟩

/-- In every state of every such run, the marked blocks are local and the
ranges that were returned are the origin's. -/
theorem evict_keeps {ctx : Ctx} (horigin : ctx.originPath = true)
    {files : Tid → Prop} {orig : Bytes Byte} (hs : orig.size < 2 ^ 63)
    {s : NodeCfg}
    (h : ((node ctx).lts (Managed orig)).Reach
      (keepingRuns ctx files orig hs).Allows s) : EvictSound orig s := by
  have hgood := evict_reach horigin hs h
  refine ⟨fun i hi b hb => hgood.inv.bits i hi b hb,
    fun t offset length data hret => ?_⟩
  exact (hgood.post hret).2 True.intro rfl

/-! ## Two runs -/

/-- A consumer whose managed directory may hold one byte. -/
def Ctx.evicting : Ctx :=
  { Ctx.consumer with
    cachePolicyMode := .lru
    cacheCapacityBytes := 1
    cacheLowWatermark := 1 }

/-- The first threads of processes work on whole files. -/
def firsts (t : Tid) : Prop := t.2 = 0

instance : DecidablePred firsts := fun t =>
  inferInstanceAs (Decidable (t.2 = 0))

theorem managed_fresh {orig : Bytes Byte} {hs : orig.size < 2 ^ 63}
    {owner : Option Nat} : Managed orig (Node.fresh orig hs owner) :=
  ⟨unmarked_fresh, fun _ _ => by simp [Node.fresh]⟩

/-- The steps of these processes that a test of the calls allows: none dies,
and the spans lie inside an origin of one byte. -/
def evicts (act : Call → Choice → Bool) : NodeCfg → NodeLabel → Bool :=
  Machine.check (fun _ _ c x => act c x) (fun _ _ => false) fun _ t j =>
    match j with
    | .evict => t.2 = 0
    | .ensure offset length => t.2 ≠ 0 ∧ offset.toNat + length.toNat ≤ 1
    | _ => false

theorem start_of_evicts (w : Node) (t : Tid) (j : Job)
    (h : (match j with
      | .evict => decide (t.2 = 0)
      | .ensure offset length =>
        decide (t.2 ≠ 0 ∧ offset.toNat + length.toNat ≤ 1)
      | _ => false) = true) :
    (keepingRuns Ctx.evicting firsts oneByte.published (by decide)).start
      w t j := by
  cases j with
  | evict => exact ⟨Or.inl ⟨of_decide_eq_true h, Or.inl rfl⟩, True.intro⟩
  | ensure offset length =>
    obtain ⟨ht, hin⟩ := of_decide_eq_true h
    exact ⟨Or.inr ⟨ht, offset, length, Or.inl rfl⟩,
      spanInBounds_of_le (by decide) hin⟩
  | _ => exact absurd h (by simp)

/-- What the evictor finds when it looks at the directory: the copy, used
first, and the bitmap. -/
def scans (t : Tid) : List NodeLabel :=
  .act t (.count 2) ::
  .act t (.dirent (.name .data)) :: .act t (.os .ok) ::
  .act t (.stamp ⟨true, 0, some 0⟩) :: .act t (.os .ok) ::
  .act t (.dirent (.name .bitmap)) :: .act t (.os .ok) ::
  .act t (.stamp ⟨true, 0, some 1⟩) :: []

/-- A range request marks the byte's block. -/
def marked : NodeCfg :=
  (((node Ctx.evicting).lts (Managed oneByte.published)).replay oneByte.idle
    fillsByte).getD oneByte.idle

/-- No call fails, nothing is unlinked, and no whole file is transferred. -/
def unlinksNothing : Call → Choice → Bool
  | .sys (.unlink _), _ => false
  | .getData, _ => false
  | _, x => x.isOk

theorem evict_keeps_marked :
    (∃ i, marked.world.os.dir .bitmap = some i ∧
      Bit (marked.world.os.file i) 0) ∧
    EvictSound oneByte.published marked := by
  refine ⟨⟨1, rfl, by decide⟩,
    @evict_keeps Ctx.evicting rfl firsts _ (by decide) _ ?_⟩
  refine Lts.Reach.of_replay (φ := evicts unlinksNothing)
    ⟨managed_fresh, fun _ => rfl⟩
    (Machine.Guard.allows_of_check (fun w t c x h => ?_)
      (fun _ _ h => absurd h (by simp)) start_of_evicts)
    (by decide) (by decide)
  cases c with
  | sys c =>
    cases c with
    | unlink n => exact absurd h (by simp [unlinksNothing])
    | pwrite d off b =>
      exact fun _ _ e hx => by simp [hx, unlinksNothing, Choice.isOk] at h
    | _ => exact True.intro
  | getData => exact absurd h (by simp [unlinksNothing])
  | _ => exact True.intro

/-- Then an evictor takes the copy, and leaves the bitmap. -/
def evictsCopy : List NodeLabel :=
  fillsByte ++ .start (0, 0) .evict :: scans (0, 0) ++ goes (0, 0) 2 ++
    scans (0, 0) ++ .act (0, 0) (.time 0) :: goes (0, 0) 3

/-- Where that leads. -/
def copyEvicted : NodeCfg :=
  (((node Ctx.evicting).lts (Managed oneByte.published)).replay oneByte.idle
    evictsCopy).getD oneByte.idle

/-- The bitmap marks a block of a copy that is gone. -/
theorem evict_leaves_bits :
    ((node Ctx.evicting).lts (Managed oneByte.published)).Reach
      (evictRuns Ctx.evicting firsts).Allows copyEvicted ∧
    ¬ EvictSound oneByte.published copyEvicted := by
  constructor
  · exact Lts.Reach.of_replay (φ := evicts fun _ _ => true)
      ⟨managed_fresh, fun _ => rfl⟩
      (Machine.Guard.allows_of_check (fun _ _ _ _ _ => True.intro)
        (fun _ _ h => absurd h (by simp))
        fun w t j h => (start_of_evicts w t j h).1)
      (by decide) (by decide)
  · intro hsound
    obtain ⟨d, hd, -⟩ := hsound.bits 1 rfl 0 (by decide)
    have hgone : copyEvicted.world.os.dir .data = none := rfl
    exact absurd (hgone.symm.trans hd) (by simp)

end Dyad
