import Dyad.Proofs.CacheSound

/-!
# When a consumed file is complete

Any number of consumer processes of one node call `dyad_consume` or
`dyad_consume_w_metadata` on a file of a remote producer, with no range
requests and no eviction. The one test for a file that has been fetched
already is a size above zero, under the exclusive lock. That is right as long
as nobody leaves a part of the file behind: a write that stops short, or a
process that dies in the middle of a file it writes in chunks, leaves a size
above zero too, and the next consumer takes the part for the whole. It is
right also only where `dyad_get_data` gives back the file and nothing else,
which it does not in a build with UCX that runs in another mode.

The runs in which no step does that are those of `storingRuns`; there every
call that returns `DYAD_RC_OK` leaves the complete file. `partialWrite` is a
run that is not one of them.
-/

namespace Dyad

open Conc Posix

/-- The consumers of a node, each a process of one thread. The producer of
the file is on another node. -/
def consumerRuns (ctx : Ctx) : Machine.Guard (node ctx) where
  act w _ c _ :=
    match c with
    | .kvsRead => ∀ rank, w.owner = some rank →
        rank / ctx.serviceMux ≠ ctx.nodeIdx
    | _ => True
  crash _ _ := True
  start _ t j := t.2 = 0 ∧
    ∃ fuel, j = .consume fuel ∨ j = .consumeWMetadata true fuel

/-- A write to the local copy leaves it empty or complete, or has more to
follow: a file that is written at once is written whole or not at all, and a
chunk of a larger one is written in part at least. -/
def StoresWhole (orig : Bytes Byte) (w : Node) (d : Nat) (x : Choice) : Prop :=
  (∀ e, x = .os (.fail e) → orig.size < transferGranularity) ∧
  ∀ k, x = .os (.short k) → w.os.file d = orig ∨
    if orig.size < transferGranularity then k = 0 else 0 < k

/-- Those of their runs in which no write leaves a part of the file behind, no
process dies in the middle of it, and what is received is the file. -/
def storingRuns (ctx : Ctx) (orig : Bytes Byte) :
    Machine.Guard (node ctx) where
  act w t c x := (consumerRuns ctx).act w t c x ∧
    match c with
    | .sys (.pwrite d ..) => w.os.born d = .data → StoresWhole orig w d x
    | .getData => w.dtl.Strips
    | _ => True
  crash w p := ∀ d, w.os.dir .data = some d →
    (w.os.locks d).Holds p .excl →
      w.os.file d = Bytes.empty ∨ w.os.file d = orig
  start := (consumerRuns ctx).start

/-- Before the first consumer: no local copy, and no bitmap. -/
structure Unfetched (orig : Bytes Byte) (w : Node) : Prop where
  published : w.published = orig
  origin : ∀ i, i < w.os.next → w.os.born i = .origin → w.os.file i = orig
  noCopy : ∀ i, i < w.os.next → w.os.born i ≠ .data
  noBitmap : w.os.dir .bitmap = none
  idle : ∀ t, w.busy t = false

/-- Every consume call that has returned `DYAD_RC_OK` has left the complete
file. -/
def ConsumeSafe (orig : Bytes Byte) (s : NodeCfg) : Prop :=
  ∀ t fuel, (Returned s t (.consume fuel) .ok ∨
    Returned s t (.consumeWMetadata true fuel) .ok) → Complete orig s.world

/-- A process has one first thread. -/
theorem first_unique {t u : Tid} (ht : t.2 = 0) (hu : u.2 = 0)
    (hp : t.1 = u.1) : t = u :=
  Prod.ext hp (ht.trans hu.symm)

/-- The setting of these runs: whole files only. -/
def consumeSetting (ctx : Ctx) (orig : Bytes Byte)
    (hs : orig.size < 2 ^ 63) : Setting where
  ctx := ctx
  orig := orig
  offT := hs
  files t := t.2 = 0
  ucxBuild := false
  whole := True
  lazy := False
  serve := False
  evict := False
  sized := True
  hasOrigin h := h.elim
  calm _ h := h
  one _ _ _ ht hu hp := first_unique ht hu hp
  wholeSized h := h

theorem consume_reach {ctx : Ctx} {orig : Bytes Byte}
    (hs : orig.size < 2 ^ 63)
    (hlocal : ctx.tracked = true ∧ ctx.sharedStorage = false)
    (hevict : ctx.cacheCapacityBytes = 0 ∨ ctx.cachePolicyMode = .none)
    {s : NodeCfg}
    (h : ((node ctx).lts (Unfetched orig)).Reach
      (storingRuns ctx orig).Allows s) :
    (consumeSetting ctx orig hs).spec.Good s := by
  refine Setting.reach (Machine.reach_mono (φ := fun t _ => t.2 = 0)
    (fun w hw => ?_) (fun w t j hj => ?_) (fun w t j c x ht hc => ?_)
    (fun w p hp _ _ => hp) (fun w t j hj => ?_) h)
  · exact ⟨hw.published, hw.origin, hw.noBitmap,
      fun _ d hd hb => absurd hb (hw.noCopy d hd),
      fun _ d hd => absurd (w.os.linked _ _ hd).2
        (hw.noCopy d (w.os.linked _ _ hd).1), hw.idle⟩
  · exact hj.1
  · have hr : ¬ t.2 = 0 → False := fun h => h ht
    cases c with
    | sys c =>
      cases c with
      | pwrite d off b =>
        exact fun _ hb => ⟨(hc.2 hb).1, fun k hk _ => (hc.2 hb).2 k hk⟩
      | unlink n => cases n <;> first | exact True.intro | exact fun h => h.elim
      | fstat d => exact fun _ h => h.elim
      | _ => first | exact True.intro | exact fun _ h => (hr h).elim
    | kvsRead => exact fun _ _ rank hrank => Or.inl (hc.1 rank hrank)
    | getData => exact fun _ => hc.2
    | rpcUnpackRange => exact fun h => h.elim
    | _ => exact True.intro
  · obtain ⟨ht, fuel, rfl | rfl⟩ := hj
    · exact ⟨ht, Or.inr hevict, fun _ => hlocal⟩
    · exact ⟨ht, Or.inr hevict, fun _ => rfl⟩

/-- In every state of every such run, a consume call that has returned
`DYAD_RC_OK` has left the complete file. -/
theorem consume_safe {ctx : Ctx} {orig : Bytes Byte}
    (hs : orig.size < 2 ^ 63)
    (hlocal : ctx.tracked = true ∧ ctx.sharedStorage = false)
    (hevict : ctx.cacheCapacityBytes = 0 ∨ ctx.cachePolicyMode = .none)
    {s : NodeCfg}
    (h : ((node ctx).lts (Unfetched orig)).Reach
      (storingRuns ctx orig).Allows s) : ConsumeSafe orig s := by
  have hgood := consume_reach hs hlocal hevict h
  rintro t fuel (hret | hret)
  · exact (hgood.post hret).2 True.intro rfl
  · exact (hgood.post hret).2 True.intro rfl

/-! ## Two runs -/

/-- A producer's file of two bytes, on another node. -/
def twoBytes : Node :=
  Node.fresh (Bytes.ofList [1, 2]) (by decide) (some 1)

theorem unfetched_fresh {orig : Bytes Byte} {hs : orig.size < 2 ^ 63}
    {owner : Option Nat} : Unfetched orig (Node.fresh orig hs owner) :=
  ⟨rfl, fun _ _ _ => rfl, fun _ _ => by simp [Node.fresh], rfl, fun _ => rfl⟩

/-- The steps of consumers that no process dies in, each call with an outcome
that passes a test. -/
def consumes (outcome : Choice → Bool) : NodeCfg → NodeLabel → Bool :=
  Machine.check
    (fun w _ c x => outcome x && match c with
      | .kvsRead => w.owner = some 1
      | .getData => w.dtl.Strips
      | _ => true)
    (fun _ _ => false)
    fun _ t j => match j with
      | .consume _ => t.2 = 0
      | _ => false

theorem remote_of_consumes (outcome : Choice → Bool) {w : Node} {t : Tid}
    {c : Call} {x : Choice}
    (h : (outcome x && match c with
      | .kvsRead => w.owner = some 1
      | .getData => w.dtl.Strips
      | _ => true) = true) :
    (consumerRuns Ctx.consumer).act w t c x := by
  rw [Bool.and_eq_true] at h
  cases c with
  | kvsRead =>
    intro rank hrank
    rw [show w.owner = some 1 from of_decide_eq_true h.2] at hrank
    obtain rfl := Option.some.inj hrank
    decide
  | _ => exact True.intro

theorem start_of_consumes (w : Node) (t : Tid) (j : Job)
    (h : (match j with
      | .consume _ => t.2 = 0
      | _ => false) = true) : (consumerRuns Ctx.consumer).start w t j := by
  cases j with
  | consume fuel => exact ⟨of_decide_eq_true h, fuel, Or.inl rfl⟩
  | _ => exact absurd h (by simp)

/-- One consumer, and nothing goes wrong. -/
def wholeWrite : List NodeLabel := .start (0, 0) (.consume 1) :: goes (0, 0) 12

/-- Where that leads. -/
def wholeTaken : NodeCfg :=
  (((node Ctx.consumer).lts (Unfetched twoBytes.published)).replay
    twoBytes.idle wholeWrite).getD twoBytes.idle

theorem consume_safe_wholeTaken :
    Returned wholeTaken (0, 0) (.consume 1) .ok ∧
      ConsumeSafe twoBytes.published wholeTaken := by
  refine ⟨rfl, @consume_safe Ctx.consumer _ (by decide) ⟨rfl, rfl⟩
    (Or.inl rfl) _ ?_⟩
  refine Lts.Reach.of_replay (φ := consumes Choice.isOk)
    ⟨unfetched_fresh, fun _ => rfl⟩
    (Machine.Guard.allows_of_check (fun w t c x h => ?_)
      (fun _ _ h => absurd h (by simp)) start_of_consumes)
    (by decide) (by decide)
  refine ⟨remote_of_consumes Choice.isOk h, ?_⟩
  cases c with
  | sys c =>
    cases c with
    | pwrite d off b =>
      exact fun _ => ⟨fun e hx => by simp [hx, Choice.isOk] at h,
        fun k hx => by simp [hx, Choice.isOk] at h⟩
    | _ => exact True.intro
  | getData =>
    rw [Bool.and_eq_true] at h
    exact of_decide_eq_true h.2
  | _ => exact True.intro

/-- The first consumer's write stops after one byte, and the call fails. The
second consumer finds a file that is not empty. -/
def partialWrite : List NodeLabel :=
  .start (0, 0) (.consume 1) :: goes (0, 0) 7 ++
    .act (0, 0) (.os (.short 1)) :: goes (0, 0) 4 ++
    .start (1, 0) (.consume 1) :: goes (1, 0) 5

/-- Where that leads. -/
def partTaken : NodeCfg :=
  (((node Ctx.consumer).lts (Unfetched twoBytes.published)).replay
    twoBytes.idle partialWrite).getD twoBytes.idle

/-- A consumer that returns `DYAD_RC_OK` may have left half the file. -/
theorem consume_takes_part :
    ((node Ctx.consumer).lts (Unfetched twoBytes.published)).Reach
      (consumerRuns Ctx.consumer).Allows partTaken ∧
    ¬ ConsumeSafe twoBytes.published partTaken := by
  constructor
  · exact Lts.Reach.of_replay (φ := consumes fun _ => true)
      ⟨unfetched_fresh, fun _ => rfl⟩
      (Machine.Guard.allows_of_check
        (fun _ _ _ _ h => remote_of_consumes (fun _ => true) h)
        (fun _ _ h => absurd h (by simp)) start_of_consumes)
      (by decide) (by decide)
  · intro hsafe
    obtain ⟨d, hd, hfile⟩ := hsafe (1, 0) 1 (Or.inl rfl)
    obtain rfl : 1 = d := Option.some.inj hd
    have hsize : (partTaken.world.os.file 1).size = 2 :=
      congrArg Bytes.size hfile
    exact absurd hsize (by decide)

end Dyad
