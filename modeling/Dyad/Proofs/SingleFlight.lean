import Dyad.Conc.Noted
import Dyad.Proofs.ConsumeSafe

/-!
# One fetch on a node, however many consumers

Processes of one thread each call `dyad_consume` and `dyad_consume_w_metadata`
on one file of a producer on another node, with file locks and no eviction, and
nothing fails. The machine keeps a tally of the transfers made and of the bytes
put into local copies, so that "once" can be said of a whole run.

The lock is taken on one descriptor and the data is stored through another, and
closing that one drops the lock long before it is released. By then the copy is
complete, so nobody is misled: a consumer that gets the lock finds the copy
either untouched or complete (`Inv`), since whoever is in between still holds
the lock. Complete means all that a transfer gives back; that is the published
file where nothing is left in front of it (`Dtl.Strips`).
-/

namespace Dyad.Flight

open Conc Posix

/-- What the node has done for the file: transfers, and bytes stored. -/
structure Tally where
  transfers : Nat
  stored : Nat
deriving DecidableEq

/-- Nothing yet. -/
def Tally.none : Tally := ⟨0, 0⟩

/-- The tally after a call. -/
def tally (w : Node) : (c : Call) → c.Res → Tally → Tally
  | .getData, .ok _, n => { n with transfers := n.transfers + 1 }
  | .sys (.pwrite d _ _), .ok k, n =>
    if w.os.born d = .data then { n with stored := n.stored + k } else n
  | _, _, n => n

/-- A node, and its tally. -/
abbrev Tallied := Node × Tally

/-- The machine of a node, with the tally. -/
abbrev tallied (ctx : Ctx) : Machine Tallied Tid Nat Choice Call.Res Job.Res :=
  (node ctx).noted tally

/-- A call goes through; a chunk of a large file may be written in part. -/
def Through (orig : Bytes Byte) (c : Call) (x : Choice) : Prop :=
  x = .os .ok ∨ transferGranularity ≤ orig.size ∧
    ∃ k, 0 < k ∧ x = .os (.short k) ∧ ∃ d off b, c = .sys (.pwrite d off b)

/-- Consumers in which nothing fails and no process dies. -/
def calmRuns (ctx : Ctx) (orig : Bytes Byte) : Machine.Guard (node ctx) where
  act w t c x := (consumerRuns ctx).act w t c x ∧ Through orig c x
  crash _ _ := False
  start := (consumerRuns ctx).start

/-- Before the first consumer: no local copy. -/
structure NoCopy (orig : Bytes Byte) (w : Node) : Prop where
  published : w.published = orig
  noCopy : w.os.dir .data = none

/-- And a transfer gives back the file. -/
structure Stripped (orig : Bytes Byte) (w : Node) : Prop
    extends NoCopy orig w where
  strips : w.dtl.Strips

/-- Before the first consumer, where a transfer gives back these bytes. -/
structure Receiving (orig : Bytes Byte) (w : Node) : Prop where
  received : w.dtl.received w.published = orig
  noCopy : w.os.dir .data = none

variable {orig recv : Bytes Byte} {ctx : Ctx} {t u : Tid} {d : Nat}
  {w w' w'' : Tallied}

/-! ## The outline -/

/-- The process of `t` has the exclusive lock of the copy `d`. -/
def Mine (t : Tid) (d : Nat) (w : Tallied) : Prop :=
  (w.1.os.locks d).Holds t.1 .excl

/-- The local copy is the file `d`. -/
def At (d : Nat) (w : Tallied) : Prop := w.1.os.dir .data = some d

/-- Nothing has been transferred. -/
def Fresh (d : Nat) (w : Tallied) : Prop :=
  w.2 = .none ∧ w.1.os.file d = Bytes.empty

/-- One transfer has been made, and the copy holds its first `pos` bytes. -/
def Flying (orig : Bytes Byte) (pos d : Nat) (w : Tallied) : Prop :=
  w.2 = ⟨1, pos⟩ ∧ w.1.os.file d = orig.slice 0 pos ∧ pos ≤ orig.size

/-- One transfer has been made, and the copy is complete. -/
def Landed (orig : Bytes Byte) (d : Nat) (w : Tallied) : Prop :=
  w.2 = ⟨1, orig.size⟩ ∧ w.1.os.file d = orig

/-- What always holds, where a transfer gives back `orig`. -/
structure Inv (orig : Bytes Byte) (w : Tallied) : Prop where
  received : w.1.dtl.received w.1.published = orig
  noCopy : w.1.os.dir .data = none → w.2 = .none
  copy : ∀ d, At d w → Fresh d w ∨ Landed orig d w ∨
    ∃ t, t.2 = 0 ∧ Mine t d w ∧ ∃ pos, Flying orig pos d w
  excl : ∀ d, At d w → ∀ q m, (w.1.os.locks d).Holds q m → m = .excl

/-- What a thread relies on: the copy stays, complete once it is; and the
thread of a process keeps its locks and what is under them. -/
structure Rely (orig : Bytes Byte) (t : Tid) (w w' : Tallied) : Prop where
  copy : ∀ d, At d w → At d w'
  landed : ∀ d, At d w → Landed orig d w → Landed orig d w'
  gained : t.2 = 0 → ∀ d, At d w' → Mine t d w' → At d w ∧ Mine t d w
  kept : t.2 = 0 → ∀ d, At d w → Mine t d w →
    Mine t d w' ∧ w'.1.os.file d = w.1.os.file d ∧ w'.2 = w.2

theorem At.unique {e : Nat} (h : At d w) (h' : At e w) : e = d :=
  Option.some.inj (h'.symm.trans h)

theorem Rely.rfl (t : Tid) (w : Tallied) : Rely orig t w w :=
  ⟨fun _ h => h, fun _ _ h => h, fun _ _ h h' => ⟨h, h'⟩,
    fun _ _ _ h => ⟨h, Eq.refl _, Eq.refl _⟩⟩

theorem Rely.trans (h : Rely orig t w w') (h' : Rely orig t w' w'') :
    Rely orig t w w'' where
  copy d hd := h'.copy d (h.copy d hd)
  landed d hd hl := h'.landed d (h.copy d hd) (h.landed d hd hl)
  gained ht d hd hm := by
    obtain ⟨hd', hm'⟩ := h'.gained ht d hd hm
    exact h.gained ht d hd' hm'
  kept ht d hd hm := by
    obtain ⟨hm', hf, hn⟩ := h.kept ht d hd hm
    obtain ⟨hm'', hf', hn'⟩ := h'.kept ht d (h.copy d hd) hm'
    exact ⟨hm'', hf'.trans hf, hn'.trans hn⟩

/-- A process has no lock on the copy. -/
def Free (t : Tid) (w : Tallied) : Prop :=
  t.2 = 0 ∧ ∀ d, At d w → ¬ Mine t d w

/-- The copy is complete and was transferred once. -/
def Once (orig : Bytes Byte) (w : Tallied) : Prop :=
  ∃ d, At d w ∧ Landed orig d w

/-- What a call that has finished has come to. -/
def Result (orig : Bytes Byte) (w : Tallied) : (j : Job) → j.Res → Prop
  | .consume _, rc => rc = .ok ∧ Once orig w
  | .consumeWMetadata .., rc => rc = .ok ∧ Once orig w
  | _, _ => True

/-- What is called: the lock of the copy by a thread that does not have it yet,
and else what goes through at once, but for the wait for the file's key. -/
def Req (w : Tallied) (t : Tid) (c : Call) : Prop :=
  (∃ d, c = .sys (.setlkw d .excl) ∧ At d w ∧ ¬ Mine t d w) ∨ c = .spin ∨
    c = .kvsRead ∨ ∀ w : Node, (w.exec t c (.os .ok)).isSome = true

/-- The outline. -/
def spec (ctx : Ctx) (orig : Bytes Byte) : Spec (tallied ctx) where
  Inv := Inv orig
  Rely := Rely orig
  Guar _ _ := True
  Req := Req
  Idle t w := t.2 = 0 → Free t w
  Post t j a w := Free t w ∧ Result orig w j a
  guard := (calmRuns ctx orig).noted tally
  rely_refl := Rely.rfl
  rely_trans _ _ _ _ h h' := h.trans h'
  guar_refl _ := True.intro
  guar_trans _ _ _ _ _ := True.intro

/-! ## What the thread knows -/

/-- The thread has the lock, and `Q` of the copy and the tally under it. -/
def Under (t : Tid) (d : Nat) (Q : Bytes Byte → Tally → Prop) (w : Tallied) :
    Prop :=
  At d w ∧ Mine t d w ∧ Q (w.1.os.file d) w.2

/-- The thread does not have the lock. -/
def Without (t : Tid) (d : Nat) (w : Tallied) : Prop :=
  At d w ∧ ¬ Mine t d w

/-- The thread is done with a complete copy. -/
def Over (orig : Bytes Byte) (t : Tid) (d : Nat) (w : Tallied) : Prop :=
  Without t d w ∧ Landed orig d w

theorem stable_under (ht : t.2 = 0) (Q : Bytes Byte → Tally → Prop) :
    (spec ctx orig).Stable t (Under t d Q) := by
  rintro w w' - - hr ⟨hd, hm, hq⟩
  obtain ⟨hm', hf, hn⟩ := hr.kept ht d hd hm
  refine ⟨hr.copy d hd, hm', ?_⟩
  rw [hf, hn]
  exact hq

theorem stable_without (ht : t.2 = 0) :
    (spec ctx orig).Stable t (Without t d) :=
  fun _ _ _ _ hr h =>
    ⟨hr.copy d h.1, fun hm => h.2 (hr.gained ht d (hr.copy d h.1) hm).2⟩

theorem stable_over (ht : t.2 = 0) : (spec ctx orig).Stable t (Over orig t d) :=
  fun w w' hi hi' hr h =>
    ⟨stable_without ht w w' hi hi' hr h.1, hr.landed d h.1.1 h.2⟩

theorem stable_free : (spec ctx orig).Stable t (Free t) := by
  rintro w w' - - hr ⟨ht, h⟩
  refine ⟨ht, fun d hd hm => ?_⟩
  obtain ⟨hd', hm'⟩ := hr.gained ht d hd hm
  exact h d hd' hm'

theorem Without.free (ht : t.2 = 0) (h : Without t d w) : Free t w := by
  refine ⟨ht, fun e he => ?_⟩
  rw [At.unique h.1 he]
  exact h.2

/-! ## The steps -/

/-- A step on the copy of a thread that has its lock, or that leaves the
content of the copy and the tally alone. -/
theorem moves_own (ht : t.2 = 0) (hi : Inv orig w) (hd : At d w)
    (hdir : w'.1.os.dir = w.1.os.dir)
    (hrecv : w'.1.dtl.received w'.1.published =
      w.1.dtl.received w.1.published)
    (hlocks : ∀ u, u.2 = 0 → u ≠ t → (Mine u d w' ↔ Mine u d w))
    (hexcl : ∀ q m, (w'.1.os.locks d).Holds q m → m = .excl)
    (hsame : (w'.1.os.file d = w.1.os.file d ∧ w'.2 = w.2) ∨
      (Mine t d w ∧ ¬ Landed orig d w))
    (hcopy : Fresh d w' ∨ Landed orig d w' ∨
      ∃ t, t.2 = 0 ∧ Mine t d w' ∧ ∃ pos, Flying orig pos d w') :
    (spec ctx orig).Moves t w w' where
  inv := by
    refine ⟨hrecv.trans hi.received, fun hn => ?_, fun e he => ?_, fun e he => ?_⟩
    · rw [hdir] at hn
      exact absurd (hd.symm.trans hn) (by simp)
    · rw [At, hdir] at he
      rwa [At.unique hd he]
    · rw [At, hdir] at he
      rwa [At.unique hd he]
  guar := True.intro
  rely u hu := by
    have hat : ∀ e, At e w' ↔ At e w := fun e => by rw [At, At, hdir]
    refine ⟨fun e he => (hat e).2 he, fun e he hl => ?_, fun hu0 e he hm => ?_,
      fun hu0 e he hm => ?_⟩
    · rw [At.unique hd he] at hl ⊢
      rcases hsame with ⟨hf, hn⟩ | ⟨-, hnot⟩
      · rwa [Landed, hf, hn]
      · exact absurd hl hnot
    · rw [hat] at he
      refine ⟨he, ?_⟩
      rw [At.unique hd he] at hm ⊢
      exact (hlocks u hu0 hu).1 hm
    · rw [At.unique hd he] at hm ⊢
      refine ⟨(hlocks u hu0 hu).2 hm, ?_⟩
      rcases hsame with hsame | ⟨hmine, -⟩
      · exact hsame
      · exact absurd (first_unique hu0 ht (hmine.excl_unique hm)) hu

/-- The copy is made, empty. -/
theorem moves_create (hi : Inv orig w)
    (hn : w.1.os.dir .data = none)
    (hw : w' = ({ w.1 with os := w.1.os.create .data }, w.2)) :
    (spec ctx orig).Moves t w w' ∧ Without t w.1.os.next w' := by
  subst hw
  have hat : At w.1.os.next ({ w.1 with os := w.1.os.create .data }, w.2) := by
    show Function.update w.1.os.dir .data (some w.1.os.next) .data = _
    rw [Function.update_self]
  have hfree : ∀ u, ¬ Mine u w.1.os.next
      ({ w.1 with os := w.1.os.create .data }, w.2) := by
    intro u hm
    rw [Mine, Os.create_locks, Function.update_self] at hm
    exact LockTable.not_holds_free _ _ hm
  refine ⟨⟨⟨hi.received, fun h => absurd (hat.symm.trans h) (by simp),
    fun e he => ?_, fun e he q m hm => ?_⟩, True.intro, fun u _ => ?_⟩, hat,
    hfree t⟩
  · rw [At.unique hat he]
    exact Or.inl ⟨hi.noCopy hn, Function.update_self ..⟩
  · rw [At.unique hat he, Os.create_locks, Function.update_self] at hm
    exact absurd hm (LockTable.not_holds_free _ _)
  · have hnone : ∀ {e}, ¬ At e w := fun he => absurd (hn.symm.trans he) (by simp)
    refine ⟨fun e he => absurd he hnone, fun e he => absurd he hnone,
      fun _ e he hm => ?_, fun _ e he => absurd he hnone⟩
    rw [At.unique hat he] at hm
    exact absurd hm (hfree u)

/-- A lock table in which only `t`'s process has changed. -/
theorem mine_setLocks {l : LockTable Nat} (ht : t.2 = 0) {n : Tally}
    (hl : ∀ q, q ≠ t.1 → (l.Holds q .excl ↔ (w.1.os.locks d).Holds q .excl))
    (u : Tid) (hu : u.2 = 0) (hne : u ≠ t) :
    Mine u d ({ w.1 with os := w.1.os.setLocks d l }, n) ↔ Mine u d w := by
  rw [Mine, Mine, Os.setLocks_locks, Function.update_self]
  exact hl _ fun h => hne (first_unique hu ht h)

/-- A lock is dropped where the copy is complete. -/
theorem moves_release (ht : t.2 = 0) (hi : Inv orig w) (hd : At d w)
    (hl : Landed orig d w)
    (hw : w' = ({ w.1 with
      os := w.1.os.setLocks d ((w.1.os.locks d).release t.1) }, w.2)) :
    (spec ctx orig).Moves t w w' ∧ Over orig t d w' := by
  subst hw
  refine ⟨moves_own ht hi hd rfl rfl (mine_setLocks ht fun q hq => ?_)
    (fun q m hm => ?_) (Or.inl ⟨rfl, rfl⟩) (Or.inr (Or.inl hl)),
    ⟨hd, fun hm => ?_⟩, hl⟩
  · rw [LockTable.holds_release]
    exact ⟨fun h => h.2, fun h => ⟨hq, h⟩⟩
  · rw [Os.setLocks_locks, Function.update_self, LockTable.holds_release] at hm
    exact hi.excl d hd q m hm.2
  · rw [Mine, Os.setLocks_locks, Function.update_self,
      LockTable.holds_release] at hm
    exact hm.1 rfl

/-- What a thread finds under the lock: nothing, or everything. -/
def Settled (orig f : Bytes Byte) (n : Tally) : Prop :=
  (n = .none ∧ f = Bytes.empty) ∨ (n = ⟨1, orig.size⟩ ∧ f = orig)

/-- The lock is granted, so nobody is in the middle of a transfer. -/
theorem moves_lock (ht : t.2 = 0) (hi : Inv orig w) (h : Without t d w)
    {l : LockTable Nat} (hl : (w.1.os.locks d).acquire t.1 .excl = some l)
    (hw : w' = ({ w.1 with os := w.1.os.setLocks d l }, w.2)) :
    (spec ctx orig).Moves t w w' ∧ Under t d (Settled orig) w' := by
  subst hw
  obtain ⟨hd, hfree⟩ := h
  have hsettled : Fresh d w ∨ Landed orig d w := by
    rcases hi.copy d hd with hf | hl' | ⟨u, hu, hm, -⟩
    · exact Or.inl hf
    · exact Or.inr hl'
    · have hut := LockTable.acquire_excl_alone hl hm
      rw [first_unique hu ht hut] at hm
      exact absurd hm hfree
  refine ⟨moves_own ht hi hd rfl rfl (mine_setLocks ht fun q hq => ?_)
    (fun q m hm => ?_) (Or.inl ⟨rfl, rfl⟩) (hsettled.imp_right Or.inl), hd, ?_,
    hsettled⟩
  · rw [LockTable.holds_acquire hl]
    simp [hq]
  · rw [Os.setLocks_locks, Function.update_self, LockTable.holds_acquire hl] at hm
    rcases hm with ⟨-, rfl⟩ | ⟨-, hm⟩
    · rfl
    · exact hi.excl d hd q m hm
  · rw [Mine, Os.setLocks_locks, Function.update_self]
    exact (LockTable.holds_acquire hl).2 (Or.inl ⟨rfl, rfl⟩)

/-- A step of a transfer, under the lock. -/
theorem moves_fly (ht : t.2 = 0) (hi : Inv orig w) {pos : Nat}
    (hd : At d w) (hm : Mine t d w) (hnot : ¬ Landed orig d w)
    (hdir : w'.1.os.dir = w.1.os.dir)
    (hrecv : w'.1.dtl.received w'.1.published =
      w.1.dtl.received w.1.published)
    (hlocks : w'.1.os.locks = w.1.os.locks) (hf : Flying orig pos d w') :
    (spec ctx orig).Moves t w w' := by
  have hsame : ∀ u, Mine u d w' ↔ Mine u d w := fun u => by
    rw [Mine, Mine, hlocks]
  exact moves_own ht hi hd hdir hrecv (fun u _ _ => hsame u)
    (fun q m h => hi.excl d hd q m (by rwa [← hlocks])) (Or.inr ⟨hm, hnot⟩)
    (Or.inr (Or.inr ⟨t, ht, (hsame t).2 hm, pos, hf⟩))

/-! ## Rules -/

variable {α : Type} {c : Call} {P : Tallied → Prop} {f : c.Res → Program α}
  {R : α → Tallied → Prop}

/-- A call to the operating system that goes through. -/
theorem exec_ok {w w' : Node} {c : Sys Name Byte} {r : c.Res}
    (h : w.exec t (.sys c) (.os .ok) = some (w', r)) :
    ∃ os', w.os.exec t.1 t c .ok = some (os', r) ∧ w' = { w with os := os' } := by
  obtain ⟨o, os', ho, hos, rfl⟩ := Node.exec_sys h
  obtain rfl := Choice.os.inj ho
  exact ⟨os', hos, rfl⟩

/-- A call that goes through wherever it is made. -/
theorem req_through {c : Call}
    (h : ∀ w : Node, (w.exec t c (.os .ok)).isSome = true) : Req w t c :=
  Or.inr (Or.inr (Or.inr h))

theorem exec_open_isSome (w : Node) {n : Name} {creat trunc : Bool} :
    (w.exec t (.sys (.open n creat trunc)) (.os .ok)).isSome = true := by
  simp only [Node.exec, Os.exec]
  split <;> rfl

/-- Any call but a write goes through. -/
theorem triple_ok {A : c.Res → Tallied → Prop}
    (hP : (spec ctx orig).Stable t P)
    (hc : ∀ d off b, c ≠ .sys (.pwrite d off b)) (hreq : ∀ w, P w → Req w t c)
    (hstep : ∀ w w' r, Inv orig w → P w →
      w.1.exec t c (.os .ok) = some (w'.1, r) →
      w'.2 = tally w.1 c r w.2 → (consumerRuns ctx).act w.1 t c (.os .ok) →
      (spec ctx orig).Moves t w w' ∧ A r w')
    (hk : ∀ r, (spec ctx orig).Triple t (A r) (f r) R) :
    (spec ctx orig).Triple t P ((perform c).bind f) R := by
  refine Spec.Triple.call hP (fun w hi hp => ⟨hreq w hp, ?_⟩) hk
  intro x w' r hex hok
  obtain ⟨hex, hn⟩ := Machine.noted_exec.1 hex
  rcases hok.2 with rfl | ⟨-, k, -, -, d, off, b, rfl⟩
  · exact hstep w w' r hi hp hex hn hok.1
  · exact absurd rfl (hc d off b)

/-- A call that changes nothing and is not counted. -/
theorem triple_look {φ : c.Res → Prop} (hP : (spec ctx orig).Stable t P)
    (hc : c.reads = true) (hreq : ∀ w, Req w t c)
    (hnote : ∀ w r n, tally w c r n = n)
    (hφ : ∀ w r, P w → w.1.exec t c (.os .ok) = some (w.1, r) →
      (consumerRuns ctx).act w.1 t c (.os .ok) → φ r)
    (hk : ∀ r, φ r → (spec ctx orig).Triple t P (f r) R) :
    (spec ctx orig).Triple t P ((perform c).bind f) R := by
  refine triple_ok (A := fun r w => φ r ∧ P w) hP (fun d off b h => ?_)
    (fun w _ => hreq w) (fun w w' r hi hp hex hn hact => ?_) fun r => Spec.Triple.assume (hk r)
  · subst h
    exact absurd hc (by simp [Call.reads, Call.quiet])
  · have hw : w'.1 = w.1 := Node.exec_reads hc hex
    obtain rfl : w' = w := Prod.ext hw (hn.trans (hnote _ _ _))
    exact ⟨Spec.Moves.stay hi, hφ _ r hp hex hact, hp⟩

/-- What stays complete. -/
theorem stable_landed :
    (spec ctx orig).Stable t fun w => At d w ∧ Landed orig d w :=
  fun _ _ _ _ hr h => ⟨hr.copy d h.1, hr.landed d h.1 h.2⟩

/-- The lock on a complete copy is dropped. -/
theorem triple_unlock (ht : t.2 = 0) {f : Except Errno Unit → Program α}
    (hk : (spec ctx orig).Triple t (Over orig t d) (f (.ok ())) R) :
    (spec ctx orig).Triple t (fun w => At d w ∧ Landed orig d w)
      ((sys (.unlock d)).bind f) R := by
  refine triple_ok (A := fun r w => r = .ok () ∧ Over orig t d w) stable_landed
    (fun _ _ _ h => by simp at h) (fun _ _ => req_through fun _ => rfl) (fun w w' r hi hp hex hn _ => ?_)
    fun r => Spec.Triple.assume fun hr => hr ▸ hk
  obtain ⟨os', hos, hw⟩ := exec_ok hex
  simp only [Os.exec, Option.some.injEq, Prod.mk.injEq] at hos
  obtain ⟨rfl, rfl⟩ := hos
  obtain ⟨hm, hover⟩ := moves_release ht hi hp.1 hp.2 (Prod.ext hw hn)
  exact ⟨hm, rfl, hover⟩

/-- Closing a descriptor of a complete copy drops the lock too. -/
theorem triple_close (ht : t.2 = 0) {f : Except Errno Unit → Program α}
    (hk : (spec ctx orig).Triple t (Over orig t d) (f (.ok ())) R) :
    (spec ctx orig).Triple t (fun w => At d w ∧ Landed orig d w)
      ((sys (.close d)).bind f) R := by
  refine triple_ok (A := fun r w => r = .ok () ∧ Over orig t d w) stable_landed
    (fun _ _ _ h => by simp at h) (fun _ _ => req_through fun _ => rfl) (fun w w' r hi hp hex hn _ => ?_)
    fun r => Spec.Triple.assume fun hr => hr ▸ hk
  obtain ⟨os', hos, hw⟩ := exec_ok hex
  simp only [Os.exec, Option.some.injEq, Prod.mk.injEq] at hos
  obtain ⟨rfl, rfl⟩ := hos
  obtain ⟨hm, hover⟩ := moves_release ht hi hp.1 hp.2 (Prod.ext hw hn)
  exact ⟨hm, rfl, hover⟩

/-- The lock of the copy is taken, and the copy is found untouched or
complete. -/
theorem triple_exclFlock (ht : t.2 = 0) {f : Rc → Program α}
    (hk : (spec ctx orig).Triple t (Under t d (Settled orig)) (f .ok) R) :
    (spec ctx orig).Triple t (Without t d) ((dyadExclFlock d).bind f) R := by
  refine triple_ok (A := fun r w => r = .ok () ∧ Under t d (Settled orig) w)
    (stable_without ht) (fun _ _ _ h => by simp at h)
    (fun _ hp => Or.inl ⟨d, rfl, hp⟩) (fun w w' r hi hp hex hn _ => ?_)
    fun r => Spec.Triple.assume fun hr => hr ▸ hk
  obtain ⟨os', hos, hw⟩ := exec_ok hex
  simp only [Os.exec] at hos
  split at hos
  · next l hl =>
    obtain ⟨rfl, rfl⟩ := Prod.mk.inj (Option.some.inj hos)
    obtain ⟨hm, hu⟩ := moves_lock ht hi hp hl (Prod.ext hw hn)
    exact ⟨hm, rfl, hu⟩
  · exact absurd hos (by simp)

/-- The copy is opened, and made where it is missing. -/
theorem triple_create {f : Except Errno Nat → Program α}
    (hk : ∀ d, (spec ctx orig).Triple t (Without t d) (f (.ok d)) R) :
    (spec ctx orig).Triple t (Free t) ((sys (.open .data true false)).bind f)
      R := by
  refine triple_ok (A := fun r w => ∃ d, r = .ok d ∧ Without t d w) stable_free
    (fun _ _ _ h => by simp at h)
    (fun _ _ => req_through fun w => exec_open_isSome w) (fun w w' r hi hp hex hn _ => ?_)
    fun r w hi h => ?_
  · obtain ⟨os', hos, hw⟩ := exec_ok hex
    cases hd : w.1.os.dir .data with
    | some d =>
      simp only [Os.exec, hd, Bool.false_eq_true, if_false, Option.some.injEq,
        Prod.mk.injEq] at hos
      obtain ⟨rfl, rfl⟩ := hos
      obtain rfl : w' = w := Prod.ext hw hn
      exact ⟨Spec.Moves.stay hi, d, rfl, hd, hp.2 d hd⟩
    | none =>
      simp only [Os.exec, hd, Option.some.injEq, Prod.mk.injEq] at hos
      obtain ⟨rfl, rfl⟩ := hos
      obtain ⟨hm, hwo⟩ := moves_create hi hd (Prod.ext hw hn)
      exact ⟨hm, _, rfl, hwo⟩
  · obtain ⟨d, rfl, hwo⟩ := h
    exact hk d w hi hwo

/-- The copy is opened again. -/
theorem triple_reopen (hP : (spec ctx orig).Stable t P)
    (hat : ∀ w, P w → At d w) {f : Except Errno Nat → Program α}
    (hk : (spec ctx orig).Triple t P (f (.ok d)) R) :
    (spec ctx orig).Triple t P ((sys (.open .data false false)).bind f) R := by
  refine triple_ok (A := fun r w => r = .ok d ∧ P w) hP
    (fun _ _ _ h => by simp at h)
    (fun _ _ => req_through fun w => exec_open_isSome w) (fun w w' r hi hp hex hn _ => ?_)
    fun r => Spec.Triple.assume fun hr => hr ▸ hk
  obtain ⟨os', hos, hw⟩ := exec_ok hex
  have hd : w.1.os.dir .data = some d := hat w hp
  simp only [Os.exec, hd, Bool.false_eq_true, if_false, Option.some.injEq,
    Prod.mk.injEq] at hos
  obtain ⟨rfl, rfl⟩ := hos
  obtain rfl : w' = w := Prod.ext hw hn
  exact ⟨Spec.Moves.stay hi, rfl, hp⟩

/-! ## The programs -/

/-- Nothing transferred, as the copy and the tally show it. -/
def Untouched (f : Bytes Byte) (n : Tally) : Prop :=
  n = .none ∧ f = Bytes.empty

/-- One transfer, and `pos` bytes of it stored. -/
def Stored (orig : Bytes Byte) (pos : Nat) (f : Bytes Byte) (n : Tally) : Prop :=
  n = ⟨1, pos⟩ ∧ f = orig.slice 0 pos ∧ pos ≤ orig.size

theorem landed_of_stored
    (h : Under t d (Stored orig orig.size) w) : At d w ∧ Landed orig d w := by
  refine ⟨h.1, h.2.2.1, ?_⟩
  rw [h.2.2.2.1, Bytes.slice_zero_size (Nat.le_refl _)]

/-- The end of a call on a complete copy. -/
theorem triple_consumeDone (ht : t.2 = 0) (fileData : Bool) :
    (spec ctx orig).Triple t (fun w => At d w ∧ Landed orig d w)
      (consumeDone d fileData .ok) fun rc w => rc = .ok ∧ Over orig t d w := by
  unfold consumeDone
  refine triple_close ht ?_
  have hend : (spec ctx orig).Triple t (Over orig t d) (.pure Rc.ok)
      fun rc w => rc = .ok ∧ Over orig t d w :=
    Spec.Triple.pure (stable_over ht) fun _ _ h => ⟨rfl, h⟩
  cases fileData with
  | false => exact hend
  | true =>
    exact triple_look (φ := fun _ => True) (stable_over ht) rfl
      (fun _ => req_through fun _ => rfl) (fun _ _ _ => rfl) (fun _ _ _ _ _ => True.intro) fun _ _ => hend

theorem triple_consumeStored (ht : t.2 = 0) (fileData : Bool)
    (hevict : ctx.cacheCapacityBytes = 0 ∨ ctx.cachePolicyMode = .none) :
    (spec ctx orig).Triple t (fun w => At d w ∧ Landed orig d w)
      (consumeStored ctx d fileData) fun rc w => rc = .ok ∧ Over orig t d w := by
  unfold consumeStored
  refine triple_unlock ht ?_
  -- there is nothing to evict
  rw [dyadCacheMaybeEvict, if_pos hevict]
  exact (triple_consumeDone ht fileData).pre fun _ _ h => ⟨h.1.1, h.2⟩

/-- What is written of the origin after the first `pos` bytes. -/
theorem splice_slice {pos m : Nat} (h : pos + m ≤ orig.size) :
    (orig.slice 0 pos).splice pos (orig.slice pos m) = orig.slice 0 (pos + m) := by
  have hsize : (orig.slice 0 pos).size = pos := by
    rw [Bytes.size_slice]; omega
  have happend := @Bytes.slice_append _ _ orig 0 pos m (by omega)
  rwa [Bytes.append, hsize, Nat.zero_add] at happend

/-- A write that stored the next `m` bytes. -/
theorem moves_write (ht : t.2 = 0) (hi : Inv orig w) {pos m : Nat} (hm : 0 < m)
    (hfit : pos + m ≤ orig.size) (hp : Under t d (Stored orig pos) w)
    {b : Bytes Byte} (hb : b = orig.slice pos m)
    (hw : w' = ({ w.1 with
      os := w.1.os.setFile d ((w.1.os.file d).splice pos b) }, ⟨1, pos + m⟩)) :
    (spec ctx orig).Moves t w w' ∧ Under t d (Stored orig (pos + m)) w' := by
  subst hw hb
  obtain ⟨hd, hmine, hn, hf, -⟩ := hp
  have hnot : ¬ Landed orig d w := by
    rintro ⟨hn', -⟩
    have := congrArg Tally.stored (hn.symm.trans hn')
    simp only at this
    omega
  have hfile : (w.1.os.setFile d
      ((w.1.os.file d).splice pos (orig.slice pos m))).file d =
        orig.slice 0 (pos + m) := by
    rw [Os.setFile_file, Function.update_self, hf, splice_slice hfit]
  exact ⟨moves_fly ht hi hd hmine hnot rfl rfl rfl ⟨rfl, hfile, hfit⟩, hd, hmine,
    rfl, hfile, hfit⟩

/-- A write of `len` bytes from `pos` on stores some of them, and all of them
where the file is stored at one go. -/
theorem triple_write (ht : t.2 = 0) {pos len : Nat} (hlen : 0 < len)
    (hfit : pos + len ≤ orig.size) {f : Except Errno Nat → Program α}
    (hk : ∀ m, 0 < m → m ≤ len → (orig.size < transferGranularity → m = len) →
      (spec ctx orig).Triple t (Under t d (Stored orig (pos + m))) (f (.ok m))
        R) :
    (spec ctx orig).Triple t (Under t d (Stored orig pos))
      ((sys (.pwrite d pos (orig.slice pos len))).bind f) R := by
  have hsize : (orig.slice pos len).size = len := by
    rw [Bytes.size_slice]; omega
  refine Spec.Triple.call (A := fun r w => ∃ m, 0 < m ∧ m ≤ len ∧
      (orig.size < transferGranularity → m = len) ∧ r = .ok m ∧
        Under t d (Stored orig (pos + m)) w)
    (stable_under ht _) (fun w hi hp => ⟨req_through fun _ => rfl, ?_⟩)
    fun r w hi h => ?_
  · intro x w' r hex hok
    obtain ⟨hex, hnote⟩ := Machine.noted_exec.1 hex
    have hborn : w.1.os.born d = .data := (w.1.os.linked _ _ hp.1).2
    obtain ⟨o, os', rfl, hos, hw⟩ := Node.exec_sys hex
    -- the tally goes up by what was written
    have htally : ∀ m, r = .ok m → w'.2 = ⟨1, pos + m⟩ := by
      rintro m rfl
      rw [hnote, hp.2.2.1]
      simp only [tally, hborn, if_true]
    rcases Os.exec_pwrite hos with ⟨e, rfl, -⟩ | ⟨rfl, rfl, rfl⟩ |
        ⟨k, rfl, hk, rfl, rfl⟩
    · rcases hok.2 with hx | ⟨-, k, -, hx, -⟩
      · exact absurd hx (by simp)
      · exact absurd hx (by simp)
    · obtain ⟨hm, hu⟩ := moves_write ht hi hlen hfit hp rfl
        (Prod.ext hw (htally len (by rw [hsize])))
      exact ⟨hm, len, hlen, Nat.le_refl _, fun _ => rfl, by rw [hsize], hu⟩
    · rcases hok.2 with hx | ⟨hbig, k', hpos, hx, -⟩
      · exact absurd hx (by simp)
      · obtain rfl : k = k' := by simpa using hx
        rw [hsize] at hk
        have hpart : (orig.slice pos len).slice 0 k = orig.slice pos k := by
          refine Bytes.ext ?_ fun i hi => ?_
          · simp only [Bytes.size_slice]; omega
          · simp only [Bytes.size_slice] at hi
            rw [Bytes.get_slice_of_lt _ (by omega), Bytes.get_slice_of_lt _
              (by omega), Bytes.get_slice_of_lt _ (by omega), Nat.zero_add]
        obtain ⟨hm, hu⟩ := moves_write ht hi hpos (by omega) hp hpart
          (Prod.ext hw (htally k rfl))
        exact ⟨hm, k, hpos, by omega, fun h => absurd h (by omega), rfl, hu⟩
  · obtain ⟨m, hm, hle, hall, rfl, hu⟩ := h
    exact hk m hm hle hall w hi hu

/-- The chunked loop stores the rest, as long as it is unrolled. -/
theorem triple_consStoreLoop (ht : t.2 = 0) (fuel : Nat) {pos : Nat}
    (hpos : pos ≤ orig.size) :
    (spec ctx orig).Triple t (Under t d (Stored orig pos))
      (consStoreLoop d orig fuel pos pos) fun a w =>
        a = some (orig.size : Int) ∧ Under t d (Stored orig orig.size) w := by
  induction fuel generalizing pos with
  | zero =>
    exact Spec.Triple.call (A := fun _ _ => False) (stable_under ht _)
      (fun _ _ _ => ⟨Or.inr (Or.inl rfl), fun _ _ r => r.elim⟩) fun r => r.elim
  | succ fuel ih =>
    rw [consStoreLoop]
    by_cases hlt : pos < orig.size
    · rw [if_pos (by omega), if_neg (by omega)]
      simp only [Int.toNat_natCast]
      have hgran : 0 < transferGranularity := by decide
      refine triple_write ht (by omega) (by omega) fun m hm hle _ => ?_
      obtain ⟨m, rfl⟩ : ∃ k, m = k + 1 := ⟨m - 1, by omega⟩
      have hnext : pos + (m + 1) ≤ orig.size := by omega
      exact_mod_cast ih hnext
    · obtain rfl : pos = orig.size := by omega
      rw [if_neg (by omega)]
      exact Spec.Triple.pure (stable_under ht _) fun _ _ h => ⟨rfl, h⟩

theorem triple_consStoreWrite (ht : t.2 = 0) (hne : 0 < orig.size)
    (fuel : Nat) :
    (spec ctx orig).Triple t (Under t d (Stored orig 0))
      (consStoreWrite fuel d orig) fun rc w =>
        rc = .ok ∧ Under t d (Stored orig orig.size) w := by
  unfold consStoreWrite
  have hend : ∀ rc, rc = Rc.ok →
      (spec ctx orig).Triple t (Under t d (Stored orig orig.size)) (.pure rc)
        fun rc w => rc = .ok ∧ Under t d (Stored orig orig.size) w :=
    fun rc hrc => Spec.Triple.pure (stable_under ht _) fun _ _ h => ⟨hrc, h⟩
  by_cases hsmall : orig.size < transferGranularity
  · rw [if_pos hsmall]
    have hwhole : orig.slice 0 orig.size = orig :=
      Bytes.slice_zero_size (Nat.le_refl _)
    have hwrite := @triple_write orig ctx t d Rc
      (fun rc w => rc = .ok ∧ Under t d (Stored orig orig.size) w) ht 0
      orig.size hne (by omega)
    rw [hwhole] at hwrite
    refine hwrite fun m _ _ hall => ?_
    obtain rfl := hall hsmall
    rw [Nat.zero_add]
    exact hend _ (if_pos rfl)
  · rw [if_neg hsmall]
    refine Spec.Triple.bind (triple_consStoreLoop ht fuel (Nat.zero_le _))
      fun a => Spec.Triple.assume fun ha => ?_
    subst ha
    exact hend _ (if_pos rfl)

theorem triple_consStore (ht : t.2 = 0) (hne : 0 < orig.size) (fuel : Nat) :
    (spec ctx orig).Triple t (Under t d (Stored orig 0))
      (dyadConsStore ctx fuel d orig) fun rc w =>
        rc = .ok ∧ Under t d (Stored orig orig.size) w := by
  unfold dyadConsStore
  split
  · exact triple_consStoreWrite ht hne fuel
  · refine triple_look (φ := fun r => r = .ok ()) (stable_under ht _) rfl
      (fun _ => req_through fun _ => rfl) (fun _ _ _ => rfl) (fun w r _ hex _ => ?_) fun r hr => ?_
    · exact (Option.some.inj (Node.exec_quiet rfl hex).2).symm
    · subst hr
      exact triple_consStoreWrite ht hne fuel

/-- A transfer into an untouched copy. -/
theorem triple_fetchAndStore (ht : t.2 = 0) (hne : 0 < orig.size) (fuel : Nat) :
    (spec ctx orig).Triple t (Under t d Untouched) (fetchAndStore ctx fuel)
      fun a w => a = .stored .ok ∧ Over orig t d w := by
  unfold fetchAndStore
  refine triple_ok (A := fun r w => r = .ok orig ∧ Under t d (Stored orig 0) w)
    (stable_under ht _) (fun _ _ _ h => by simp at h)
    (fun _ _ => req_through fun _ => rfl) (fun w w' r hi hp hex hn _ => ?_) fun r => Spec.Triple.assume fun hr => ?_
  · obtain ⟨hw, hr⟩ := Node.exec_quiet rfl hex
    obtain rfl := Option.some.inj hr
    obtain ⟨hd, hm, htally, hf⟩ := hp
    rw [htally] at hn
    have hempty : orig.slice 0 0 = Bytes.empty :=
      Bytes.eq_empty_of_size (by rw [Bytes.size_slice]; omega)
    have hfly : Stored orig 0 (w'.1.os.file d) w'.2 := by
      refine ⟨hn, ?_, Nat.zero_le _⟩
      rw [hw, hf, hempty]
    have hnot : ¬ Landed orig d w := by
      rintro ⟨hn', -⟩
      have := congrArg Tally.transfers (htally.symm.trans hn')
      exact absurd this (by simp [Tally.none])
    refine ⟨moves_fly ht hi hd hm hnot (by rw [hw]) (by rw [hw]) (by rw [hw])
      hfly, ?_, ?_⟩
    · rw [hi.received]
    · rw [Under, At, Mine, hw]
      exact ⟨hd, hm, hw ▸ hfly⟩
  · subst hr
    refine triple_reopen (stable_under ht _) (fun _ h => h.1) ?_
    refine Spec.Triple.bind (triple_consStore ht hne fuel) fun rc =>
      Spec.Triple.assume fun hrc => ?_
    subst hrc
    refine (triple_close ht ?_).pre fun _ _ h => landed_of_stored h
    exact Spec.Triple.pure (stable_over ht) fun _ _ h => ⟨rfl, h⟩

/-- The size under the lock tells an untouched copy from a complete one. -/
theorem triple_getFileSize (ht : t.2 = 0) (hne : 0 < orig.size)
    {f : Nat → Program α}
    (hfresh : (spec ctx orig).Triple t (Under t d Untouched) (f 0) R)
    (hfull : ∀ n, n ≠ 0 → (spec ctx orig).Triple t
      (fun w => At d w ∧ Landed orig d w) (f n) R) :
    (spec ctx orig).Triple t (Under t d (Settled orig))
      ((getFileSize d).bind f) R := by
  refine triple_ok (A := fun r w => (r = .ok 0 ∧ Under t d Untouched w) ∨
      ∃ n, n ≠ 0 ∧ r = .ok n ∧ At d w ∧ Landed orig d w)
    (stable_under ht _) (fun _ _ _ h => by simp at h)
    (fun _ _ => req_through fun _ => rfl) (fun w w' r hi hp hex hn _ => ?_)
    fun r w hi h => ?_
  · obtain ⟨os', hos, hw⟩ := exec_ok hex
    simp only [Os.exec, Option.some.injEq, Prod.mk.injEq] at hos
    obtain ⟨rfl, rfl⟩ := hos
    obtain rfl : w' = w := Prod.ext hw hn
    refine ⟨Spec.Moves.stay hi, ?_⟩
    rcases hp.2.2 with ⟨htally, hf⟩ | ⟨htally, hf⟩
    · left
      refine ⟨?_, hp.1, hp.2.1, htally, hf⟩
      rw [hf]
      rfl
    · right
      refine ⟨orig.size, by omega, ?_, hp.1, htally, hf⟩
      rw [hf]
  · rcases h with ⟨rfl, h⟩ | ⟨n, hn, rfl, h⟩
    · exact hfresh w hi h
    · exact hfull n hn w hi h

/-- The producer is on another node. -/
theorem triple_fetchMetadata (ht : t.2 = 0) (Q : Bytes Byte → Tally → Prop)
    {f : Except Rc (Option Nat) → Program α}
    (hk : ∀ rank, (spec ctx orig).Triple t (Under t d Q) (f (.ok (some rank)))
      R) :
    (spec ctx orig).Triple t (Under t d Q) ((dyadFetchMetadata ctx).bind f)
      R := by
  refine triple_look
    (φ := fun r => ∃ rank, r = .ok rank ∧ rank / ctx.serviceMux ≠ ctx.nodeIdx)
    (stable_under ht _) rfl (fun _ => Or.inr (Or.inr (Or.inl rfl)))
    (fun _ _ _ => rfl) (fun w r _ hex hact => ?_) fun r hr => ?_
  · obtain ⟨rank, hrank, rfl⟩ :=
      Option.map_eq_some_iff.1 (Node.exec_quiet rfl hex).2
    exact ⟨rank, rfl, hact rank hrank⟩
  · obtain ⟨rank, rfl, hremote⟩ := hr
    simp only [Prog.pure_bind, Prog.pure_eq, if_neg hremote]
    exact hk rank

/-- The setting: a consumer of node-local storage that uses file locks and
evicts nothing. -/
structure Consumer (ctx : Ctx) : Prop where
  h : ctx.h = true
  consManagedPath : ctx.consManagedPath = true
  tracked : ctx.tracked = true
  notShared : ctx.sharedStorage = false
  locks : ctx.useFsLocks = true
  noEviction : ctx.cacheCapacityBytes = 0 ∨ ctx.cachePolicyMode = .none

theorem triple_consumeLocal (hctx : Consumer ctx) (ht : t.2 = 0)
    (hne : 0 < orig.size) (fuel : Nat) :
    (spec ctx orig).Triple t (Under t d (Settled orig))
      ((getFileSize d).bind fun n => consumeLocal ctx fuel d n)
      fun rc w => rc = .ok ∧ Over orig t d w := by
  refine triple_getFileSize ht hne ?_ fun n hn => ?_
  · rw [consumeLocal, if_pos (Or.inr rfl)]
    refine triple_fetchMetadata ht _ fun rank => ?_
    refine Spec.Triple.bind (triple_fetchAndStore ht hne fuel) fun a =>
      Spec.Triple.assume fun ha => ?_
    subst ha
    exact (triple_consumeStored ht true hctx.noEviction).pre fun _ _ h =>
      ⟨h.1.1, h.2⟩
  · rw [consumeLocal, if_neg (by simp [hctx.locks, hn])]
    exact triple_consumeStored ht false hctx.noEviction

theorem triple_consume (hctx : Consumer ctx) (ht : t.2 = 0)
    (hne : 0 < orig.size) (fuel : Nat) :
    (spec ctx orig).Triple t (Free t) (dyadConsume ctx fuel)
      fun rc w => rc = .ok ∧ ∃ d, Over orig t d w := by
  rw [dyadConsume, if_neg (by simp [hctx.h]),
    if_neg (by simp [hctx.consManagedPath]), if_neg (by simp [hctx.tracked])]
  refine triple_create fun d => ?_
  refine triple_exclFlock ht ?_
  rw [if_neg (by decide)]
  simp only [hctx.notShared, Bool.false_eq_true, if_false]
  exact (triple_consumeLocal hctx ht hne fuel).imp (fun _ _ h => h)
    fun _ _ _ h => ⟨h.1, d, h.2⟩

theorem triple_consumeWMetadata (hctx : Consumer ctx) (ht : t.2 = 0)
    (hne : 0 < orig.size) (fuel : Nat) :
    (spec ctx orig).Triple t (Free t) (dyadConsumeWMetadata ctx true fuel)
      fun rc w => rc = .ok ∧ ∃ d, Over orig t d w := by
  rw [dyadConsumeWMetadata, if_neg (by simp [hctx.h]), if_neg (by decide),
    if_neg (by simp [hctx.consManagedPath])]
  refine triple_create fun d => ?_
  refine triple_exclFlock ht ?_
  rw [if_neg (by decide)]
  have hend : ∀ fileData, (spec ctx orig).Triple t
      (fun w => At d w ∧ Landed orig d w) (consumeStored ctx d fileData)
        fun rc w => rc = .ok ∧ ∃ d, Over orig t d w := fun fileData =>
    (triple_consumeStored ht fileData hctx.noEviction).imp (fun _ _ h => h)
      fun _ _ _ h => ⟨h.1, d, h.2⟩
  refine triple_getFileSize ht hne ?_ fun n hn => ?_
  · rw [consumeMetadataLocal, if_pos rfl]
    refine Spec.Triple.bind (triple_fetchAndStore ht hne fuel) fun a =>
      Spec.Triple.assume fun ha => ?_
    subst ha
    exact (hend true).pre fun _ _ h => ⟨h.1.1, h.2⟩
  · rw [consumeMetadataLocal, if_neg hn]
    exact hend false

/-! ## Every run -/

theorem moves_setBusy (hi : Inv orig w) (b : Bool) :
    (spec ctx orig).Moves t w (w.1.setBusy t b, w.2) :=
  ⟨⟨hi.received, hi.noCopy, hi.copy, hi.excl⟩, True.intro, fun _ _ =>
    ⟨fun _ h => h, fun _ _ h => h, fun _ _ h h' => ⟨h, h'⟩,
      fun _ _ _ h => ⟨h, rfl, rfl⟩⟩⟩

theorem sound (hctx : Consumer ctx) (hne : 0 < orig.size) :
    (spec ctx orig).Sound where
  idle_stable t w w' hi hi' hr h ht := stable_free w w' hi hi' hr (h ht)
  start w t j p hi hidle hs hj := by
    obtain ⟨ht, fuel, hj'⟩ := hs
    obtain rfl := Option.some.inj hj
    have hm : (spec ctx orig).Moves t w (w.1.setBusy t true, w.2) :=
      moves_setBusy hi true
    refine ⟨hm, ?_⟩
    have hdone : ∀ {w'}, (∃ d, Over orig t d w') → Free t w' ∧ Once orig w' := by
      rintro w' ⟨d, h⟩
      exact ⟨h.1.free ht, d, h.1.1, h.2⟩
    rcases hj' with rfl | rfl
    · exact (triple_consume hctx ht hne fuel _ hm.inv (hidle ht)).imp
        fun rc w' _ h => ⟨(hdone h.2).1, h.1, (hdone h.2).2⟩
    · exact (triple_consumeWMetadata hctx ht hne fuel _ hm.inv (hidle ht)).imp
        fun rc w' _ h => ⟨(hdone h.2).1, h.1, (hdone h.2).2⟩
  finish w t j a hi hpost := ⟨moves_setBusy hi false, fun _ => hpost.1⟩
  crash w p hi hg := hg.elim

/-- The runs with a tally, from such a node. -/
abbrev FlightReach (ctx : Ctx) (orig : Bytes Byte) (init : Node → Prop)
    (s : Machine.Cfg Tallied Tid Call.Res Job.Res) : Prop :=
  ((tallied ctx).lts (Machine.notedInit init .none)).Reach
    ((calmRuns ctx orig).noted tally).Allows s

theorem flight_good (hctx : Consumer ctx) (hne : 0 < orig.size)
    {init : Node → Prop} (hinit : ∀ w, init w → Receiving orig w)
    {s : Machine.Cfg Tallied Tid Call.Res Job.Res}
    (h : FlightReach ctx orig init s) : (spec ctx orig).Good s := by
  refine (sound hctx hne).reach (fun w hw => ?_) h
  obtain ⟨hpub, hnone⟩ := hinit _ hw.1
  have htally := hw.2
  have hnocopy : ∀ d, ¬ At d w := fun d hd =>
    absurd (hnone.symm.trans hd) (by simp)
  exact ⟨⟨hpub, fun _ => htally, fun d hd => absurd hd (hnocopy d),
    fun d hd => absurd hd (hnocopy d)⟩, fun t ht => ⟨ht, fun d hd => absurd hd (hnocopy d)⟩⟩

theorem Inv.bounds (hi : Inv orig w) :
    w.2.transfers ≤ 1 ∧ w.2.stored ≤ orig.size := by
  cases hd : w.1.os.dir .data with
  | none =>
    rw [hi.noCopy hd]
    exact ⟨Nat.zero_le _, Nat.zero_le _⟩
  | some d =>
    rcases hi.copy d hd with ⟨hn, -⟩ | ⟨hn, -⟩ | ⟨-, -, -, pos, hn, -, hle⟩
    · rw [hn]
      exact ⟨Nat.zero_le _, Nat.zero_le _⟩
    · rw [hn]
      exact ⟨Nat.le_refl _, Nat.le_refl _⟩
    · rw [hn]
      exact ⟨Nat.le_refl _, hle⟩

/-- A node on which the file is received as it is. -/
theorem Stripped.receiving {w : Node} (h : Stripped orig w) :
    Receiving orig w :=
  ⟨(h.strips.received _).trans h.published, h.noCopy⟩

/-- Where a transfer gives back the file, however many consumers call however
often and however their steps interleave, the file is transferred at most once and no byte of it is stored
twice; and every call that has finished returned `DYAD_RC_OK`, with the copy
complete after exactly one transfer. -/
theorem single_flight (hctx : Consumer ctx) (hne : 0 < orig.size)
    {s : Machine.Cfg Tallied Tid Call.Res Job.Res}
    (h : FlightReach ctx orig (Stripped orig) s) :
    s.world.2.transfers ≤ 1 ∧ s.world.2.stored ≤ orig.size ∧
      ∀ t fuel rc, (Returned s.forget t (.consume fuel) rc ∨
        Returned s.forget t (.consumeWMetadata true fuel) rc) →
          rc = .ok ∧ s.world.2 = ⟨1, orig.size⟩ ∧
            Complete orig s.world.1 := by
  have hgood := flight_good hctx hne (fun _ hw => hw.receiving) h
  have hbounds := hgood.inv.bounds
  refine ⟨hbounds.1, hbounds.2, fun t fuel rc hret => ?_⟩
  rcases hret with hret | hret
  · obtain ⟨-, hrc, d, hd, hn, hf⟩ := hgood.post hret
    exact ⟨hrc, hn, d, hd, hf⟩
  · obtain ⟨-, hrc, d, hd, hn, hf⟩ := hgood.post hret
    exact ⟨hrc, hn, d, hd, hf⟩

/-- Two consumers: the second opens the copy while the first has its lock, and
gets the lock as the first is done storing. -/
def twoConsumers : List NodeLabel :=
  .start (0, 0) (.consume 1) :: .start (1, 0) (.consumeWMetadata true 1) ::
    goes (0, 0) 2 ++ goes (1, 0) 1 ++ goes (0, 0) 7 ++ goes (1, 0) 2 ++
    goes (0, 0) 3 ++ goes (1, 0) 2

/-- A node with nothing running on it, and an empty tally. -/
def idle (w : Node) : Machine.Cfg Tallied Tid Call.Res Job.Res :=
  ⟨(w, .none), fun _ => none⟩

/-- Where that leads. -/
def bothTaken : Machine.Cfg Tallied Tid Call.Res Job.Res :=
  (((tallied Ctx.consumer).lts
    (Machine.notedInit (Stripped twoBytes.published) .none)).replay
      (idle twoBytes) twoConsumers).getD (idle twoBytes)

theorem eq_of_isOk {x : Choice} (h : x.isOk = true) : x = .os .ok := by
  cases x with
  | os o =>
    cases o with
    | ok => rfl
    | _ => exact absurd h (by simp [Choice.isOk])
  | _ => exact absurd h (by simp [Choice.isOk])

/-- The steps of consumers, each call going through. -/
def goesThrough : Machine.Cfg Tallied Tid Call.Res Job.Res → NodeLabel → Bool :=
  Machine.check
    (fun w _ c x => x.isOk && match c with
      | .kvsRead => w.1.owner = some 1
      | .getData => w.1.dtl.Strips
      | _ => true)
    (fun _ _ => false)
    fun _ t j => match j with
      | .consume _ => t.2 = 0
      | .consumeWMetadata true _ => t.2 = 0
      | _ => false

theorem single_flight_bothTaken :
    Returned bothTaken.forget (0, 0) (.consume 1) .ok ∧
      Returned bothTaken.forget (1, 0) (.consumeWMetadata true 1) .ok ∧
      bothTaken.world.2.transfers ≤ 1 ∧ bothTaken.world.2 = ⟨1, 2⟩ := by
  have hctx : Consumer Ctx.consumer := ⟨rfl, rfl, rfl, rfl, rfl, Or.inl rfl⟩
  have hflight := @single_flight twoBytes.published Ctx.consumer hctx (by decide)
    bothTaken ?_
  · have h0 : Returned bothTaken.forget (0, 0) (.consume 1) .ok := rfl
    exact ⟨h0, rfl, hflight.1, (hflight.2.2 _ _ _ (Or.inl h0)).2.1⟩
  refine Lts.Reach.of_replay (φ := goesThrough)
    ⟨⟨⟨⟨rfl, rfl⟩, Or.inl rfl⟩, rfl⟩, fun _ => rfl⟩
    (Machine.Guard.allows_of_check (fun w t c x h => ?_)
      (fun _ _ h => absurd h (by simp)) fun w t j h => ?_)
    (by decide) (by decide)
  · exact ⟨remote_of_consumes Choice.isOk h,
      Or.inl (eq_of_isOk (Bool.and_eq_true _ _ ▸ h).1)⟩
  · cases j with
    | consume fuel => exact ⟨of_decide_eq_true h, fuel, Or.inl rfl⟩
    | consumeWMetadata m fuel =>
      cases m with
      | true => exact ⟨of_decide_eq_true h, fuel, Or.inr rfl⟩
      | false => exact absurd h (by simp)
    | _ => exact absurd h (by simp)

/-! ## Nobody waits for nothing -/

/-- A thread goes on: it can make its next call, or hand its result over, or a
loop of it has run past its unrolling. -/
def GoesOn (ctx : Ctx) (orig : Bytes Byte) (s : NodeCfg) (t : Tid) : Prop :=
  (∃ j k, s.thread t = some ⟨j, .call .spin k⟩) ∨
    ∃ l s', (l = .act t (.os .ok) ∨ l = .finish t) ∧
      (calmRuns ctx orig).Allows s l ∧ (node ctx).next s l = some s'

/-- The key of the file is in the KVS, under the rank of another node. -/
def Announced (ctx : Ctx) (w : Node) : Prop :=
  ∃ rank, w.owner = some rank ∧ rank / ctx.serviceMux ≠ ctx.nodeIdx

theorem goesOn_call {s : NodeCfg} {j : Job} {k : c.Res → Program j.Res}
    (hkey : Announced ctx s.world) (hth : s.thread t = some ⟨j, .call c k⟩)
    (hex : (s.world.exec t c (.os .ok)).isSome = true) :
    GoesOn ctx orig s t := by
  obtain ⟨⟨w', r⟩, hex⟩ := Option.isSome_iff_exists.1 hex
  refine Or.inr ⟨.act t (.os .ok),
    ⟨w', Function.update s.thread t (some ⟨j, k r⟩)⟩, Or.inl rfl,
    fun i c' k' hth' => ?_, ?_⟩
  · refine ⟨?_, Or.inl rfl⟩
    cases c' with
    | kvsRead =>
      intro rank hrank
      obtain ⟨rank', hrank', hremote⟩ := hkey
      obtain rfl := Option.some.inj (hrank.symm.trans hrank')
      exact hremote
    | _ => exact True.intro
  · simp only [Machine.next, hth]
    rw [show (node ctx).exec s.world t c (.os .ok) = some (w', r) from hex]

/-- A thread that makes a call can make it, or waits for the lock of the copy,
which another process has. -/
theorem goesOn_or_waits {s : NodeCfg} {n : Tally} {j : Job}
    {k : c.Res → Program j.Res} (hg : (spec ctx recv).Good ⟨(s.world, n), s.thread⟩)
    (hkey : Announced ctx s.world)
    (hth : s.thread t = some ⟨j, .call c k⟩) :
    GoesOn ctx orig s t ∨ ∃ d, At d (s.world, n) ∧ ¬ Mine t d (s.world, n) ∧
      ∃ q, q ≠ t.1 ∧ Mine (q, 0) d (s.world, n) := by
  have hreq : Req (s.world, n) t c := hg.req hth
  rcases hreq with ⟨d, rfl, hd, hmine⟩ | rfl | rfl | hthrough
  · cases hl : (s.world.os.locks d).acquire t.1 .excl with
    | some l =>
      refine Or.inl (goesOn_call hkey hth ?_)
      simp only [Node.exec, Os.exec, hl]
      rfl
    | none =>
      right
      -- the lock was refused to `t`'s process for one of another's
      obtain ⟨⟨q, m⟩, hq, hne⟩ : ∃ a ∈ (s.world.os.locks d).holders, a.1 ≠ t.1 := by
        by_contra hall
        have hgrant : (s.world.os.locks d).grantable t.1 .excl = true := by
          refine List.all_eq_true.2 fun a ha => ?_
          have : a.1 = t.1 := by
            by_contra h
            exact hall ⟨a, ha, h⟩
          simp [this]
        rw [LockTable.acquire, dif_pos hgrant] at hl
        exact absurd hl (by simp)
      obtain rfl : m = .excl := hg.inv.excl d hd q m hq
      exact ⟨d, hd, hmine, q, hne, hq⟩
  · exact Or.inl (Or.inl ⟨j, k, hth⟩)
  · obtain ⟨rank, hrank, -⟩ := id hkey
    refine Or.inl (goesOn_call hkey hth ?_)
    simp only [Node.exec, Node.answer, hrank]
    rfl
  · exact Or.inl (goesOn_call hkey hth (hthrough _))

/-- A thread whose process has the lock is at a call that is not waiting. -/
theorem goesOn_of_mine {s : NodeCfg} {n : Tally}
    (hg : (spec ctx recv).Good ⟨(s.world, n), s.thread⟩)
    (hkey : Announced ctx s.world) (ht : t.2 = 0)
    (hd : At d (s.world, n)) (hm : Mine t d (s.world, n)) :
    GoesOn ctx orig s t := by
  cases hth : s.thread t with
  | none =>
    have hidle := hg.holds t
    rw [show (⟨(s.world, n), s.thread⟩ :
      Machine.Cfg Tallied Tid Call.Res Job.Res).thread t = none from hth] at hidle
    exact absurd hm ((hidle ht).2 d hd)
  | some jp =>
    obtain ⟨j, p⟩ := jp
    cases p with
    | pure a =>
      have hpost := hg.post (t := t) (j := j) (a := a) hth
      exact absurd hm (hpost.1.2 d hd)
    | call c k =>
      rcases goesOn_or_waits hg hkey hth with h | ⟨e, he, hnot, -⟩
      · exact h
      · rw [At.unique hd he] at hnot
        exact absurd hm hnot

/-- Such a run starts on a node where a transfer gives back something, which is
not shorter than the file. -/
theorem receiving_of_reach {s : NodeCfg}
    (h : ((node ctx).lts (NoCopy orig)).Reach (calmRuns ctx orig).Allows s) :
    ∃ recv, orig.size ≤ recv.size ∧
      ((node ctx).lts (Receiving recv)).Reach (calmRuns ctx recv).Allows s := by
  obtain ⟨s₀, hi, hr⟩ := h
  have hsize := s₀.world.dtl.size_received orig
  have hact : ∀ w t (j : Job) c x, True → (calmRuns ctx orig).act w t c x →
      (calmRuns ctx (s₀.world.dtl.received orig)).act w t c x := by
    rintro w t - c x - ⟨hremote, hok | ⟨hlarge, hshort⟩⟩
    · exact ⟨hremote, Or.inl hok⟩
    · exact ⟨hremote, Or.inr ⟨Nat.le_trans hlarge hsize, hshort⟩⟩
  exact ⟨s₀.world.dtl.received orig, hsize, s₀,
    ⟨⟨by rw [hi.1.published], hi.1.noCopy⟩, hi.2⟩,
    Machine.run_mono (fun _ _ _ _ => True.intro) hact (fun _ _ h => h)
      (fun _ _ _ h => h) hi hr⟩

/-- Once the file is published, no consumer is left waiting: whenever a call is
under way on a thread, that thread can go on, or it waits for the lock of the
copy and the process that has it can go on. -/
theorem never_stuck (hctx : Consumer ctx) (hne : 0 < orig.size) {s : NodeCfg}
    (h : ((node ctx).lts (NoCopy orig)).Reach (calmRuns ctx orig).Allows s)
    (hkey : Announced ctx s.world)
    (hjob : s.thread t ≠ none) :
    GoesOn ctx orig s t ∨ ∃ d q, s.world.os.dir .data = some d ∧ q ≠ t.1 ∧
      (s.world.os.locks d).Holds q .excl ∧ GoesOn ctx orig s (q, 0) := by
  obtain ⟨recv, hle, h⟩ := receiving_of_reach h
  obtain ⟨n, h⟩ := Machine.reach_noted tally .none h
  have hg := flight_good hctx (by omega) (fun _ hw => hw) h
  cases hth : s.thread t with
  | none => exact absurd hth hjob
  | some jp =>
    obtain ⟨j, p⟩ := jp
    cases p with
    | pure a =>
      refine Or.inl (Or.inr ⟨.finish t, ⟨(node ctx).leave s.world t j,
        Function.update s.thread t none⟩, Or.inr rfl, True.intro, ?_⟩)
      simp only [Machine.next, hth]
    | call c k =>
      refine (goesOn_or_waits hg hkey hth).imp_right ?_
      rintro ⟨d, hd, -, q, hq, hm⟩
      exact ⟨d, q, hd, hq, hm, goesOn_of_mine hg hkey rfl hd hm⟩

/-- The first consumer has the lock, and the second one asks for it. -/
def oneWaits : NodeCfg :=
  (((node Ctx.consumer).lts (NoCopy twoBytes.published)).replay twoBytes.idle
    (.start (0, 0) (.consume 1) :: .start (1, 0) (.consume 1) ::
      goes (0, 0) 2 ++ goes (1, 0) 1)).getD twoBytes.idle

theorem never_stuck_oneWaits :
    (node Ctx.consumer).next oneWaits (.act (1, 0) (.os .ok)) = none ∧
      (GoesOn Ctx.consumer twoBytes.published oneWaits (1, 0) ∨
        ∃ d q, oneWaits.world.os.dir .data = some d ∧ q ≠ 1 ∧
          (oneWaits.world.os.locks d).Holds q .excl ∧
          GoesOn Ctx.consumer twoBytes.published oneWaits (q, 0)) := by
  have hctx : Consumer Ctx.consumer := ⟨rfl, rfl, rfl, rfl, rfl, Or.inl rfl⟩
  refine ⟨rfl, @never_stuck twoBytes.published Ctx.consumer (1, 0) hctx
    (by decide) oneWaits ?_ ⟨1, rfl, by decide⟩
    fun h => absurd (congrArg Option.isSome h) (by decide)⟩
  refine Lts.Reach.of_replay (φ := consumes Choice.isOk)
    ⟨⟨rfl, rfl⟩, fun _ => rfl⟩
    (Machine.Guard.allows_of_check (fun w t c x h => ?_)
      (fun _ _ h => absurd h (by simp)) start_of_consumes)
    (by decide) (by decide)
  exact ⟨remote_of_consumes Choice.isOk h,
    Or.inl (eq_of_isOk (Bool.and_eq_true _ _ ▸ h).1)⟩

end Dyad.Flight
