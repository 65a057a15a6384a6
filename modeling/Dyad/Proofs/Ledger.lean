import Dyad.Resources

/-!
# A point of a function

What is known of a history at a point of a function, `At`: what its variables
hold, whether the lock is dropped, and what was noted of the answers so far. A
function that leaves with a variable full has lost what is in it; one that
leaves with all of them empty has not.

`Walk` notes whether every answer was one that passes.
-/

namespace Dyad.Resources

open Conc HandleEvent

section

variable {β : Type} {note : Prog.Event Call.Res → β → β} {start b : β}
  {h : History} {s : Slot → Option Nat} {d : Bool} {k : Slot} {x : Nat}

/-- After the history the variables hold `s`, the lock is known to be dropped
where `d` says so, and `b` is what was noted. -/
structure At (note : Prog.Event Call.Res → β → β) (start : β) (h : History)
    (s : Slot → Option Nat) (d : Bool) (b : β) : Prop where
  held : Held (ledger h) s
  dropped : d = true → lockHeld h = false
  noted : h.foldr note start = b

theorem At.nil : At note start [] (fun _ => none) true start :=
  ⟨Held.nil, fun _ => rfl, rfl⟩

theorem lockHeld_of_none {e : Prog.Event Call.Res} (he : locks e = none) :
    lockHeld (e :: h) = lockHeld h := by
  unfold lockHeld
  rw [List.findSome?_cons, he]

/-- A call that touches neither a handle nor the lock. -/
theorem At.skip (hs : At note start h s d b) {e : Prog.Event Call.Res}
    (he : entry e = none) (hl : locks e = none) :
    At note start (e :: h) s d (note e b) := by
  constructor
  · rw [ledger_cons, he]
    exact hs.held
  · exact fun hd => (lockHeld_of_none hl).trans (hs.dropped hd)
  · rw [List.foldr_cons, hs.noted]

theorem At.obtain (hs : At note start h s d b) {c : Call} {r : c.Res}
    (hm : May h c r) (he : entry ⟨c, r⟩ = some (.obtained ⟨k, x⟩))
    (hk : s k = none) (hl : locks ⟨c, r⟩ = none) :
    At note start (⟨c, r⟩ :: h) (Function.update s k (some x)) d
      (note ⟨c, r⟩ b) := by
  constructor
  · rw [ledger_cons, he]
    exact hs.held.obtain hk (hm.1 _ he)
  · exact fun hd => (lockHeld_of_none hl).trans (hs.dropped hd)
  · rw [List.foldr_cons, hs.noted]

/-- A call on a handle that is live; what it makes of the lock is left open. -/
theorem At.use (hs : At note start h s d b) {e : Prog.Event Call.Res}
    (he : entry e = some (.used ⟨k, x⟩)) (hk : s k = some x) :
    At note start (e :: h) s false (note e b) := by
  constructor
  · rw [ledger_cons, he]
    exact hs.held.use hk
  · intro hd
    cases hd
  · rw [List.foldr_cons, hs.noted]

/-- A call on a handle that has nothing to do with the lock. -/
theorem At.touch (hs : At note start h s d b) {e : Prog.Event Call.Res}
    (he : entry e = some (.used ⟨k, x⟩)) (hk : s k = some x)
    (hl : locks e = none) : At note start (e :: h) s d (note e b) :=
  { hs.use he hk with
    dropped := fun hd => (lockHeld_of_none hl).trans (hs.dropped hd) }

theorem At.free (hs : At note start h s d b) {e : Prog.Event Call.Res}
    (he : entry e = some (.freed ⟨k, x⟩)) (hk : s k = some x)
    (hl : locks e = none) :
    At note start (e :: h) (Function.update s k none) d (note e b) := by
  constructor
  · rw [ledger_cons, he]
    exact hs.held.free hk
  · exact fun hd => (lockHeld_of_none hl).trans (hs.dropped hd)
  · rw [List.foldr_cons, hs.noted]

/-- Closing a descriptor drops the lock. -/
theorem At.close (hs : At note start h s d b) {r : Bool} (hk : s k = some x) :
    At note start (⟨.close k x, r⟩ :: h) (Function.update s k none) true
      (note ⟨.close k x, r⟩ b) := by
  constructor
  · rw [ledger_cons]
    exact hs.held.free hk
  · exact fun _ => rfl
  · rw [List.foldr_cons, hs.noted]

theorem At.balanced (hs : At note start h s true b) (hnone : ∀ k, s k = none) :
    Balanced h :=
  ⟨hs.held.settled_iff.2 hnone, hs.dropped rfl⟩

/-- A variable that is full is lost. -/
theorem At.unbalanced (hs : At note start h s d b) (hk : s k = some x) :
    ¬ Balanced h :=
  fun hb => hs.held.not_settled hk hb.settled

end

/-! ## Answers that pass -/

section

variable {passes : Prog.Event Call.Res → Bool} {h : History}
  {s : Slot → Option Nat} {d ok : Bool} {k : Slot} {x : Nat}

/-- Whether every answer passes, noted one by one. -/
def noting (passes : Prog.Event Call.Res → Bool) (e : Prog.Event Call.Res)
    (ok : Bool) : Bool :=
  passes e && ok

/-- `ok` is whether every answer passes. -/
abbrev Walk (passes : Prog.Event Call.Res → Bool) (h : History)
    (s : Slot → Option Nat) (d ok : Bool) : Prop :=
  At (noting passes) true h s d ok

theorem At.passed (hs : Walk passes h s d ok) : h.all passes = ok := by
  rw [← hs.noted]
  clear hs
  induction h with
  | nil => rfl
  | cons e h ih => rw [List.all_cons, ih, List.foldr_cons, noting]

/-- What has to hold where a function is left. -/
def Done (passes : Prog.Event Call.Res → Bool) (h : History) : Prop :=
  Balanced h ↔ h.all passes = true

theorem At.settled (hs : Walk passes h s true true)
    (hnone : ∀ k, s k = none) : Done passes h :=
  iff_of_true (hs.balanced hnone) hs.passed

theorem At.lost (hs : Walk passes h s d false) (hk : s k = some x) :
    Done passes h := by
  refine iff_of_false (hs.unbalanced hk) ?_
  rw [hs.passed]
  exact Bool.false_ne_true

end

/-- From the history on, the program is left as it should be. -/
abbrev Ends (passes : Prog.Event Call.Res → Bool) {α : Type} (p : Program α)
    (h : History) : Prop :=
  Prog.wp May (fun _ _ => True) (fun h _ => Done passes h) p h

end Dyad.Resources
