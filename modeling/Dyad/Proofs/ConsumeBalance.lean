import Dyad.Client.ConsumeResources
import Dyad.Proofs.Ledger

/-!
# What consuming a file leaves behind

Both whole-file functions are walked with what their variables hold. The labels
cover different subsets of them, so every lemma says which variables may be
full where a label is reached, and whether an answer that does not pass has led
there.
-/

namespace Dyad.Resources

open Conc HandleEvent PathOps

/-! ## The variables of the whole-file functions -/

/-- The four of them. -/
def vars (lockFd ioFd mdata fileData : Option Nat) : Slot → Option Nat
  | .lockFd => lockFd
  | .ioFd => ioFd
  | .mdata => mdata
  | .fileData => fileData
  | _ => none

section

variable {lockFd ioFd mdata fileData x : Option Nat}

theorem vars_none : vars none none none none = fun _ => none := by
  funext k
  cases k <;> rfl

@[simp]
theorem update_lockFd :
    Function.update (vars lockFd ioFd mdata fileData) .lockFd x =
      vars x ioFd mdata fileData := by
  funext k
  cases k <;> rfl

@[simp]
theorem update_ioFd :
    Function.update (vars lockFd ioFd mdata fileData) .ioFd x =
      vars lockFd x mdata fileData := by
  funext k
  cases k <;> rfl

@[simp]
theorem update_mdata :
    Function.update (vars lockFd ioFd mdata fileData) .mdata x =
      vars lockFd ioFd x fileData := by
  funext k
  cases k <;> rfl

@[simp]
theorem update_fileData :
    Function.update (vars lockFd ioFd mdata fileData) .fileData x =
      vars lockFd ioFd mdata x := by
  funext k
  cases k <;> rfl

end

section

variable {passes : Prog.Event Call.Res → Bool} {h : History} {d ok : Bool}
  {lockFd ioFd mdata buf : Option Nat}

theorem returnFileData_ends {α : Type} {f : Unit → Program α}
    (hs : Walk passes h (vars lockFd ioFd mdata buf) d ok)
    (hp : ∀ b, passes ⟨.returnBuffer .fileData b, ()⟩ = true)
    (hf : ∀ h', Walk passes h' (vars lockFd ioFd mdata none) d ok →
      Ends passes (f ()) h') :
    Ends passes ((returnFileData buf).bind f) h := by
  cases buf with
  | none => exact hf h hs
  | some b =>
    refine Prog.wp_step True.intro fun r _ => hf _ ?_
    have hs := hs.free (e := ⟨.returnBuffer .fileData (some b), r⟩) rfl rfl rfl
    rwa [update_fileData, noting, hp, Bool.true_and] at hs

/-- The data may have arrived or not. -/
theorem At.getData (hs : Walk passes h (vars lockFd ioFd mdata none) d ok)
    {rc : Rc} (hm : May h .getData (rc, buf)) :
    Walk passes (⟨.getData, (rc, buf)⟩ :: h) (vars lockFd ioFd mdata buf) d
      (noting passes ⟨.getData, (rc, buf)⟩ ok) := by
  cases buf with
  | none => exact hs.skip rfl rfl
  | some b =>
    have hs := hs.obtain (k := .fileData) hm rfl rfl rfl
    rwa [update_fileData] at hs

end

/-! ## `dyad_consume` -/

section

variable {ctx : Option DyadCtx} {fname : CString} {h : History} {d : Bool}
  {n m : Nat} {mdata buf : Option Nat} {rc : Rc}

/-- The label gives the descriptor and the buffer back, and so metadata must
not be there. -/
theorem consumeDone_ends
    (hs : Walk (Consume.passes ctx (.plain fname)) h
      (vars (some n) none mdata buf) d mdata.isNone) :
    Ends (Consume.passes ctx (.plain fname)) (consumeDone n buf rc) h := by
  refine Prog.wp_step True.intro fun r _ => ?_
  have hs := hs.close (k := .lockFd) (r := r) rfl
  rw [update_lockFd] at hs
  refine returnFileData_ends hs (fun _ => rfl) fun h' hs => ?_
  cases mdata with
  | none => exact hs.settled fun k => by rw [vars_none]
  | some m => exact hs.lost (k := .mdata) rfl

theorem consumeUnlock_ends
    (hs : Walk (Consume.passes ctx (.plain fname)) h
      (vars (some n) none mdata buf) d mdata.isNone) :
    Ends (Consume.passes ctx (.plain fname)) (consumeUnlock n buf rc) h :=
  Prog.wp_step True.intro fun r _ => consumeDone_ends
    (hs.use (e := ⟨.releaseFlock .lockFd n, r⟩) (k := .lockFd) rfl rfl)

theorem consumeStored_ends
    (hs : Walk (Consume.passes ctx (.plain fname)) h
      (vars (some n) none none buf) d true) :
    Ends (Consume.passes ctx (.plain fname)) (consumeStored n buf rc) h := by
  refine Prog.wp_step True.intro fun r _ => ?_
  have hs := hs.use (e := ⟨.releaseFlock .lockFd n, r⟩) (k := .lockFd) rfl rfl
  refine Prog.wp_step True.intro fun r _ => ?_
  exact consumeDone_ends (hs.skip (e := ⟨.cacheMaybeEvict, r⟩) rfl rfl)

/-- Metadata that shared storage has no use for is lost. -/
theorem consumeShared_ends {c : DyadCtx} {size : Int}
    (hc : c.sharedStorage = true)
    (hs : Walk (Consume.passes (some c) (.plain fname)) h
      (vars (some n) none none none) d true) :
    Ends (Consume.passes (some c) (.plain fname))
      (consumeShared c n size) h := by
  refine Prog.wp_step True.intro fun r _ => ?_
  have hs := hs.use (e := ⟨.releaseFlock .lockFd n, r⟩) (k := .lockFd) rfl rfl
  split
  · refine Prog.wp_step True.intro fun r hm => ?_
    cases r with
    | error rc =>
      exact consumeDone_ends
        (hs.skip (e := ⟨.fetchMetadata, .error rc⟩) rfl rfl)
    | ok mdata =>
      cases mdata with
      | none =>
        exact consumeDone_ends
          (hs.skip (e := ⟨.fetchMetadata, .ok none⟩) rfl rfl)
      | some m =>
        have hs := hs.obtain (k := .mdata) hm rfl rfl rfl
        rw [update_mdata, noting, Consume.passes, Option.any_some, hc] at hs
        exact consumeDone_ends hs
  · exact consumeDone_ends hs

/-- Where the file does not open again, the function goes past the label that
gives everything back. -/
theorem consumeStore_ends
    (hs : Walk (Consume.passes ctx (.plain fname)) h
      (vars (some n) none (some m) buf) d true) :
    Ends (Consume.passes ctx (.plain fname)) (consumeStore n m buf) h := by
  refine Prog.wp_step True.intro fun r hm => ?_
  cases r with
  | none =>
    have hs := hs.skip (e := ⟨.open .ioFd, none⟩) rfl rfl
    exact hs.lost (k := .lockFd) rfl
  | some io =>
    have hs := hs.obtain (k := .ioFd) hm rfl rfl rfl
    rw [update_ioFd] at hs
    refine Prog.wp_step True.intro fun rc _ => ?_
    have hs := hs.use (e := ⟨.consStore io, rc⟩) (k := .ioFd) rfl rfl
    refine Prog.wp_step True.intro fun r _ => ?_
    have hs := hs.free (e := ⟨.freeMetadata m, r⟩) (k := .mdata) rfl rfl rfl
    rw [update_mdata] at hs
    refine Prog.wp_step True.intro fun r _ => ?_
    have hs := hs.close (k := .ioFd) (r := r) rfl
    rw [update_ioFd] at hs
    cases r with
    | false => exact consumeUnlock_ends hs
    | true =>
      rw [if_pos rfl]
      split
      · exact consumeUnlock_ends hs
      · exact consumeStored_ends hs

theorem consumeLocal_ends {c : DyadCtx} {size : Int}
    (hc : c.sharedStorage = false)
    (hs : Walk (Consume.passes (some c) (.plain fname)) h
      (vars (some n) none none none) d true) :
    Ends (Consume.passes (some c) (.plain fname))
      (consumeLocal c n size) h := by
  unfold consumeLocal Ends
  split
  · refine Prog.wp_step True.intro fun r hm => ?_
    cases r with
    | error rc =>
      exact consumeUnlock_ends
        (hs.skip (e := ⟨.fetchMetadata, .error rc⟩) rfl rfl)
    | ok mdata =>
      cases mdata with
      | none =>
        exact consumeUnlock_ends
          (hs.skip (e := ⟨.fetchMetadata, .ok none⟩) rfl rfl)
      | some m =>
        have hs := hs.obtain (k := .mdata) hm rfl rfl rfl
        rw [update_mdata, noting, Consume.passes, Option.any_some, hc] at hs
        refine Prog.wp_step True.intro fun r hm => ?_
        obtain ⟨rc, buf⟩ := r
        have hs := hs.getData hm
        show Prog.wp _ _ _ (ite _ _ _) _
        cases hrc : rc.isError with
        | true =>
          rw [noting, Consume.passes, hrc] at hs
          rw [if_pos rfl]
          exact consumeUnlock_ends hs
        | false =>
          rw [noting, Consume.passes, hrc] at hs
          rw [if_neg Bool.false_ne_true]
          exact consumeStore_ends hs
  · exact consumeStored_ends hs

theorem consumeOpened_ends {c : DyadCtx}
    (hs : Walk (Consume.passes (some c) (.plain fname)) h
      (vars (some n) none none none) d true) :
    Ends (Consume.passes (some c) (.plain fname)) (consumeOpened c n) h := by
  refine Prog.wp_step True.intro fun rc _ => ?_
  have hs := hs.use (e := ⟨.exclFlock .lockFd n, rc⟩) (k := .lockFd) rfl rfl
  split
  · exact consumeUnlock_ends hs
  · refine Prog.wp_step True.intro fun size _ => ?_
    have hs := hs.use (e := ⟨.getFileSize .lockFd n, size⟩) (k := .lockFd)
      rfl rfl
    cases hc : c.sharedStorage with
    | true => exact consumeShared_ends hc hs
    | false => exact consumeLocal_ends hc hs

theorem consumeBody_ends (hash : CString → UInt32 → UInt32)
    (realpath : CString → Option CString)
    (hs : Walk (Consume.passes ctx (.plain fname)) h
      (vars none none none none) true true) :
    Ends (Consume.passes ctx (.plain fname))
      (consumeBody hash realpath ctx fname) h := by
  have hdone : ∀ {h}, Walk (Consume.passes ctx (.plain fname)) h
      (vars none none none none) true true →
      Done (Consume.passes ctx (.plain fname)) h :=
    fun hs => hs.settled fun k => by rw [vars_none]
  cases ctx with
  | none => exact hdone hs
  | some c =>
    unfold consumeBody Ends
    dsimp only
    split
    · exact hdone hs
    · split
      · exact hdone hs
      · split
        · refine Prog.wp_step True.intro fun r _ => ?_
          have hs := hs.skip (e := ⟨.setReenter false, r⟩) rfl rfl
          refine Prog.wp_step True.intro fun r hm => ?_
          cases r with
          | none => exact hdone (hs.skip (e := ⟨.open .lockFd, none⟩) rfl rfl)
          | some n =>
            have hs := hs.obtain (k := .lockFd) hm rfl rfl rfl
            rw [update_lockFd] at hs
            exact consumeOpened_ends hs
        · exact hdone hs

end

/-! ## `dyad_consume_w_metadata` -/

section

variable {ctx : Option DyadCtx} {md : Bool} {h : History} {d : Bool}
  {n : Nat} {buf : Option Nat} {rc : Rc}

/-- The label only gives the buffer back, and so the descriptor must not be
there. -/
theorem consumeReturn_ends {lockFd : Option Nat}
    (hs : Walk (Consume.passes ctx (.withMetadata md)) h
      (vars lockFd none none buf) d lockFd.isNone)
    (hd : lockFd = none → d = true) :
    Ends (Consume.passes ctx (.withMetadata md)) (consumeReturn buf rc) h := by
  refine returnFileData_ends hs (fun _ => rfl) fun h' hs => ?_
  cases lockFd with
  | none =>
    obtain rfl := hd rfl
    exact hs.settled fun k => by rw [vars_none]
  | some n => exact hs.lost (k := .lockFd) rfl

theorem consumeWMetadataStored_ends
    (hs : Walk (Consume.passes ctx (.withMetadata md)) h
      (vars (some n) none none buf) d true) :
    Ends (Consume.passes ctx (.withMetadata md))
      (consumeWMetadataStored n buf) h := by
  refine Prog.wp_step True.intro fun r _ => ?_
  have hs := hs.use (e := ⟨.releaseFlock .lockFd n, r⟩) (k := .lockFd) rfl rfl
  refine Prog.wp_step True.intro fun r _ => ?_
  have hs := hs.skip (e := ⟨.cacheMaybeEvict, r⟩) rfl rfl
  refine Prog.wp_step True.intro fun r _ => ?_
  have hs := hs.close (k := .lockFd) (r := r) rfl
  rw [update_lockFd] at hs
  split
  · exact consumeReturn_ends hs fun _ => rfl
  · exact consumeReturn_ends hs fun _ => rfl

/-- What was used after it was given back stays wrong. -/
theorem consumeReturn_broken
    (hs : ¬ Proper (ledger h))
    (hf : h.all (Consume.passes ctx (.withMetadata md)) = false) :
    Ends (Consume.passes ctx (.withMetadata md)) (consumeReturn buf rc) h := by
  have hdone : ∀ {h}, ¬ Proper (ledger h) →
      h.all (Consume.passes ctx (.withMetadata md)) = false →
      Done (Consume.passes ctx (.withMetadata md)) h := by
    intro h hs hf
    refine iff_of_false (fun hb => hs hb.settled.1) ?_
    rw [hf]
    exact Bool.false_ne_true
  cases buf with
  | none => exact hdone hs hf
  | some b =>
    refine Prog.wp_step True.intro fun r _ => hdone ?_ ?_
    · rw [ledger_cons]
      exact fun hp => hs hp.of_append
    · rw [List.all_cons, hf, Bool.and_false]

/-- The lock descriptor is closed only if the data could be stored, and the
other one is used after its close if not. -/
theorem consumeWMetadataStore_ends
    (hs : Walk (Consume.passes ctx (.withMetadata md)) h
      (vars (some n) none none buf) d true) :
    Ends (Consume.passes ctx (.withMetadata md))
      (consumeWMetadataStore n buf) h := by
  refine Prog.wp_step True.intro fun r hm => ?_
  cases r with
  | none =>
    have hs := hs.skip (e := ⟨.open .ioFd, none⟩) rfl rfl
    exact hs.lost (k := .lockFd) rfl
  | some io =>
    have hs := hs.obtain (k := .ioFd) hm rfl rfl rfl
    rw [update_ioFd] at hs
    refine Prog.wp_step True.intro fun rc _ => ?_
    have hs := hs.use (e := ⟨.consStore io, rc⟩) (k := .ioFd) rfl rfl
    refine Prog.wp_step True.intro fun closed _ => ?_
    have hs := hs.close (k := .ioFd) (r := closed) rfl
    rw [update_ioFd] at hs
    cases closed with
    | false =>
      refine Prog.wp_step True.intro fun r _ => ?_
      have hs := hs.use (e := ⟨.releaseFlock .lockFd n, r⟩) (k := .lockFd)
        rfl rfl
      exact consumeReturn_ends hs fun hn => by cases hn
    | true =>
      rw [if_pos rfl]
      cases hrc : rc.isError with
      | true =>
        rw [if_pos rfl]
        refine Prog.wp_step True.intro fun r _ => consumeReturn_broken ?_ ?_
        · rw [ledger_cons]
          intro hp
          cases (hs.held.live .ioFd io).1 hp.1
        · rw [List.all_cons, hs.passed]
          simp [noting, Consume.passes, hrc]
      | false =>
        rw [if_neg Bool.false_ne_true]
        refine consumeWMetadataStored_ends (d := true) ?_
        simpa [noting, Consume.passes, hrc] using hs

theorem consumeWMetadataOpened_ends
    (hs : Walk (Consume.passes ctx (.withMetadata md)) h
      (vars (some n) none none none) d true) :
    Ends (Consume.passes ctx (.withMetadata md))
      (consumeWMetadataOpened n) h := by
  refine Prog.wp_step True.intro fun rc _ => ?_
  have hs := hs.use (e := ⟨.exclFlock .lockFd n, rc⟩) (k := .lockFd) rfl rfl
  rw [noting, Consume.passes] at hs
  split
  · next hrc =>
    rw [hrc] at hs
    refine Prog.wp_step True.intro fun r _ => ?_
    have hs := hs.use (e := ⟨.releaseFlock .lockFd n, r⟩) (k := .lockFd)
      rfl rfl
    exact hs.lost (k := .lockFd) rfl
  · next hrc =>
    rw [Bool.eq_false_of_not_eq_true hrc] at hs
    refine Prog.wp_step True.intro fun size _ => ?_
    have hs := hs.use (e := ⟨.getFileSize .lockFd n, size⟩) (k := .lockFd)
      rfl rfl
    split
    · refine Prog.wp_step True.intro fun r hm => ?_
      obtain ⟨rc, buf⟩ := r
      have hs := hs.getData hm
      rw [noting, Consume.passes] at hs
      show Prog.wp _ _ _ (ite _ _ _) _
      cases hrc : rc.isError with
      | true =>
        rw [hrc] at hs
        rw [if_pos rfl]
        refine Prog.wp_step True.intro fun r _ => ?_
        have hs := hs.use (e := ⟨.releaseFlock .lockFd n, r⟩) (k := .lockFd)
          rfl rfl
        exact consumeReturn_ends hs fun hn => by cases hn
      | false =>
        rw [hrc] at hs
        rw [if_neg Bool.false_ne_true]
        exact consumeWMetadataStore_ends hs
    · exact consumeWMetadataStored_ends hs

theorem consumeWMetadataBody_ends
    (hs : Walk (Consume.passes ctx (.withMetadata md)) h
      (vars none none none none) true true) :
    Ends (Consume.passes ctx (.withMetadata md))
      (consumeWMetadataBody ctx md) h := by
  have hdone : ∀ {h}, Walk (Consume.passes ctx (.withMetadata md)) h
      (vars none none none none) true true →
      Done (Consume.passes ctx (.withMetadata md)) h :=
    fun hs => hs.settled fun k => by rw [vars_none]
  cases ctx with
  | none => exact hdone hs
  | some c =>
    unfold consumeWMetadataBody Ends
    dsimp only
    split
    · exact hdone hs
    · split
      · exact hdone hs
      · split
        · exact hdone hs
        · refine Prog.wp_step True.intro fun r _ => ?_
          have hs := hs.skip (e := ⟨.setReenter false, r⟩) rfl rfl
          refine Prog.wp_step True.intro fun r hm => ?_
          cases r with
          | none => exact hdone (hs.skip (e := ⟨.open .lockFd, none⟩) rfl rfl)
          | some n =>
            have hs := hs.obtain (k := .lockFd) hm rfl rfl rfl
            rw [update_lockFd] at hs
            exact consumeWMetadataOpened_ends hs

end

/-! ## Both functions -/

/-- `consume_close` sets the flag, and changes nothing else. -/
theorem consumeClose_ends {α : Type} {passes : Prog.Event Call.Res → Bool}
    {ctx : Option DyadCtx} {h : History} {a : α} (hd : Done passes h)
    (hp : passes ⟨.setReenter true, ()⟩ = true) :
    Prog.wp May (fun _ _ => True)
      (fun h _ => LeavesNothing h ↔ h.all passes = true)
      (consumeClose ctx a) h := by
  cases ctx with
  | none => exact ⟨True.intro, fun r => r.elim⟩
  | some c =>
    refine Prog.wp_step True.intro fun r _ => ?_
    have hb : LeavesNothing (⟨.setReenter true, r⟩ :: h) ↔ Balanced h :=
      ⟨fun hl => ⟨hl.balanced.settled, hl.balanced.unlocked⟩,
        fun hb => ⟨⟨hb.settled, hb.unlocked⟩, rfl⟩⟩
    rw [Prog.pure_eq, Prog.wp_pure, List.all_cons, hp, Bool.true_and]
    exact hb.trans hd

/-- Each of the functions leaves nothing behind exactly if every answer that
it was given is one after which it leaves through the labels that cover what
it holds. -/
theorem leavesNothing_iff (hash : CString → UInt32 → UInt32)
    (realpath : CString → Option CString) (op : Consume)
    (ctx : Option DyadCtx) (h : History) (rc : Rc)
    (hp : Prog.Path May (op.run hash realpath ctx) h (.pure rc)) :
    LeavesNothing h ↔ h.all (op.passes ctx) = true := by
  suffices hw : Prog.wp May (fun _ _ => True)
      (fun h _ => LeavesNothing h ↔ h.all (op.passes ctx) = true)
      (op.run hash realpath ctx) [] from hp.wp hw
  have hs : Walk (op.passes ctx) [] (vars none none none none) true true := by
    rw [vars_none]
    exact At.nil
  cases op with
  | plain fname =>
    exact Prog.wp_bind.2 (Prog.wp_imp (consumeBody_ends hash realpath hs)
      fun h rc hd => consumeClose_ends hd rfl)
  | withMetadata md =>
    exact Prog.wp_bind.2 (Prog.wp_imp (consumeWMetadataBody_ends hs)
      fun h rc hd => consumeClose_ends hd rfl)

/-- A consumer with node-local storage that gives names relative to its
directory. -/
def consumer : DyadCtx :=
  { dyadCtxDefault with
    h := some .opened
    cons := { ManagedPath.unset with managedPath := some ['d'] }
    delimLen := 1
    relativeToManagedPath := true }

/-- A call all of whose answers pass. -/
theorem leavesNothing_fetched :
    ∃ h rc, Prog.Path May
        ((Consume.plain ['f']).run (fun _ _ => 0) some (some consumer)) h
        (.pure rc) ∧
      LeavesNothing h := by
  have hp := path_of_granting (fun _ => false) 0
    ((Consume.plain ['f']).run (fun _ _ => 0) some (some consumer)) rfl
  exact ⟨_, _, hp, (leavesNothing_iff _ _ _ _ _ _ hp).2 rfl⟩

/-- The file does not open again once the data is there: the lock, its
descriptor, the buffer and the metadata are all kept. -/
theorem reopen_refused :
    ∃ h rc, Prog.Path May
        ((Consume.plain ['f']).run (fun _ _ => 0) some (some consumer)) h
        (.pure rc) ∧
      ¬ LeavesNothing h ∧ lockHeld h = true := by
  have hp := path_of_granting (fun c => c = .open .ioFd) 0
    ((Consume.plain ['f']).run (fun _ _ => 0) some (some consumer)) rfl
  refine ⟨_, _, hp, fun hl => ?_, rfl⟩
  exact absurd hl.balanced.unlocked (by decide)

end Dyad.Resources
