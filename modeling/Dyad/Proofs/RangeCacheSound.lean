import Dyad.Proofs.CacheSound

/-!
# The range cache is sound

Any number of threads of any number of processes call
`dyad_range_cache_ensure` on one local path, each for a span that lies inside
the origin. Every I/O call may fail, every read and write may stop short, and
a process may die between any two of its steps. A bit that is set in the
bitmap still means that its block is local, and a call that returns
`DYAD_RC_OK` means that its span is.

Nothing is asked of the local copy at the start but that no bitmap describes
it yet: whatever it holds, bits are only ever set after a fetch.
-/

namespace Dyad

open Conc Posix

/-- The runs: calls of `dyad_range_cache_ensure`, each on a span inside the
origin. -/
def rangeCacheRuns (ctx : Ctx) (orig : Bytes Byte) :
    Machine.Guard (node ctx) where
  act _ _ _ _ := True
  crash _ _ := True
  start _ _ j := ∃ offset length : UInt64, j = .ensure offset length ∧
    offset.toNat + length.toNat ≤ orig.size

/-- The origin is there, no bitmap is, and nothing is running. -/
structure Unmarked (orig : Bytes Byte) (w : Node) : Prop where
  published : w.published = orig
  origin : ∀ i, i < w.os.next → w.os.born i = .origin → w.os.file i = orig
  noBitmap : w.os.dir .bitmap = none
  idle : ∀ t, w.busy t = false

/-- The bytes from `off` on, `len` of them, are local. -/
def LocalBytes (orig : Bytes Byte) (w : Node) (off len : Nat) : Prop :=
  ∀ i, off ≤ i → i < off + len →
    ∃ d, w.os.dir .data = some d ∧ Has orig (w.os.file d) i

/-- What the range cache promises of a state. -/
structure RangeCacheSound (orig : Bytes Byte) (s : NodeCfg) : Prop where
  bits : ∀ i, s.world.os.dir .bitmap = some i →
    ∀ b, b < rangeCacheNumBlocks orig.size → Bit (s.world.os.file i) b →
      LocalBlock orig s.world b
  returned : ∀ t offset length, Returned s t (.ensure offset length) .ok →
    LocalBytes orig s.world offset.toNat length.toNat

/-- A span whose blocks are local is local. -/
theorem localBytes_of_ready {C : Setting} {w : Node} {offset length : UInt64}
    (h : offset.toNat + length.toNat ≤ C.orig.size)
    (hr : length ≠ 0 →
      C.Ready (blockStart offset) (blockEnd offset length) w) :
    LocalBytes C.orig w offset.toNat length.toNat := by
  intro i hi hlt
  have hlen : length ≠ 0 := by
    rintro rfl
    simp at hlt
    omega
  obtain ⟨d, hd, hok⟩ := hr hlen (i / rangeCacheBlockSize)
    (Nat.div_le_div_right hi) (by
      rw [blockEnd, toNat_last C.offT hlen h]
      exact Nat.div_le_div_right (by omega))
  exact ⟨d, hd, hok i rfl (by omega)⟩

/-- The setting of these runs: no whole-file operations and no eviction. -/
def rangeCacheSetting (ctx : Ctx) (horigin : ctx.originPath = true)
    (orig : Bytes Byte) (hs : orig.size < 2 ^ 63) : Setting where
  ctx := ctx
  orig := orig
  offT := hs
  files _ := False
  ucxBuild := false
  whole := False
  lazy := True
  serve := False
  evict := False
  sized := False
  hasOrigin _ := horigin
  calm h := h.elim
  one h := h.elim
  wholeSized h := h

theorem rangeCache_reach {ctx : Ctx} (horigin : ctx.originPath = true)
    {orig : Bytes Byte} (hs : orig.size < 2 ^ 63) {s : NodeCfg}
    (h : ((node ctx).lts (Unmarked orig)).Reach
      (rangeCacheRuns ctx orig).Allows s) :
    (rangeCacheSetting ctx horigin orig hs).spec.Good s := by
  refine Setting.reach (Machine.reach_mono (φ := fun _ _ => True)
    (fun w hw => ?_) (fun _ _ _ _ => True.intro)
    (fun w t j c x _ _ => ?_) (fun w p _ h => h.elim)
    (fun w t j hj => ?_) h)
  · exact ⟨hw.published, hw.origin, hw.noBitmap, fun h => h.elim,
      fun h => h.elim, hw.idle⟩
  · cases c with
    | sys c =>
      cases c with
      | unlink n => cases n <;> first | exact True.intro | exact fun h => h.elim
      | _ => first | exact True.intro | exact fun h => h.elim
    | _ => first | exact True.intro | exact fun h => h.elim
  · obtain ⟨offset, length, rfl, hin⟩ := hj
    exact ⟨True.intro, fun h => h.elim, spanInBounds_of_le hs hin⟩

/-- The range cache is sound in every state of every run. -/
theorem rangeCache_sound {ctx : Ctx} (horigin : ctx.originPath = true)
    {orig : Bytes Byte} (hs : orig.size < 2 ^ 63) {s : NodeCfg}
    (h : ((node ctx).lts (Unmarked orig)).Reach
      (rangeCacheRuns ctx orig).Allows s) : RangeCacheSound orig s := by
  have hgood := rangeCache_reach horigin hs h
  refine ⟨fun i hi b _ hb => hgood.inv.bits i hi b hb,
    fun t offset length hret => ?_⟩
  obtain ⟨o, l, heq, hin⟩ := Machine.reach_started
    (φ := fun _ j => ∃ offset length : UInt64, j = .ensure offset length ∧
      offset.toNat + length.toNat ≤ orig.size) (fun _ _ _ hj => hj) h hret
  obtain ⟨rfl, rfl⟩ := Job.ensure.inj heq
  exact localBytes_of_ready (C := rangeCacheSetting ctx horigin orig hs) hin
    ((hgood.post hret).2 rfl)

/-- A fresh node has no bitmap. -/
theorem unmarked_fresh {orig : Bytes Byte} {hs : orig.size < 2 ^ 63}
    {owner : Option Nat} : Unmarked orig (Node.fresh orig hs owner) :=
  ⟨rfl, fun _ _ _ => rfl, rfl, fun _ => rfl⟩

/-- A node with an origin of one byte. -/
def oneByte : Node :=
  Node.fresh (Bytes.ofList [1]) (by decide) (some 1)

/-- One thread asks for the byte, and gets it. -/
def fillsByte : List NodeLabel := .start (0, 1) (.ensure 0 1) :: goes (0, 1) 31

/-- Where that leads. -/
def byteFilled : NodeCfg :=
  (((node Ctx.consumer).lts (Unmarked oneByte.published)).replay oneByte.idle
    fillsByte).getD oneByte.idle

theorem rangeCache_sound_byteFilled :
    Returned byteFilled (0, 1) (.ensure 0 1) .ok ∧
      RangeCacheSound oneByte.published byteFilled := by
  refine ⟨rfl, @rangeCache_sound Ctx.consumer rfl _ (by decide) _ ?_⟩
  refine Lts.Reach.of_replay
    (φ := Machine.check (fun _ _ _ _ => true) (fun _ _ => true)
      fun _ _ j => match j with
        | .ensure offset length => offset.toNat + length.toNat ≤ 1
        | _ => false)
    ⟨unmarked_fresh, fun _ => rfl⟩
    (Machine.Guard.allows_of_check (fun _ _ _ _ _ => True.intro)
      (fun _ _ _ => True.intro) fun w t j h => ?_)
    (by decide) (by decide)
  cases j with
  | ensure offset length =>
    exact ⟨offset, length, rfl, of_decide_eq_true h⟩
  | _ => exact absurd h (by simp)

end Dyad
