import Dyad.Client.ConsumeResources
import Dyad.Proofs.Ledger

/-!
# The output parameters of `dyad_consume_range`

The buffer of the caller is one that the local path reads into or that the
receiving side of the DTL copies a payload into. `Calm` is what is known of a
history before such a copy; after one, everything hangs on how the end of the
stream is answered.
-/

namespace Dyad.Resources

open Conc HandleEvent PathOps

/-! ## Calm histories -/

/-- Neither a payload copied nor the end of the stream waited for. -/
def calm : Prog.Event Call.Res → Bool
  | ⟨.memcpy .., _⟩ => false
  | ⟨.rpcGet, _⟩ => false
  | _ => true

/-- The three variables of `dyad_consume_range`. -/
def rangeVars (fd mdata data : Option Nat) : Slot → Option Nat
  | .fd => fd
  | .mdata => mdata
  | .data => data
  | _ => none

section

variable {fd mdata data x : Option Nat}

@[simp]
theorem update_fd :
    Function.update (rangeVars fd mdata data) .fd x =
      rangeVars x mdata data := by
  funext k
  cases k <;> rfl

@[simp]
theorem update_rangeMdata :
    Function.update (rangeVars fd mdata data) .mdata x =
      rangeVars fd x data := by
  funext k
  cases k <;> rfl

@[simp]
theorem update_data :
    Function.update (rangeVars fd mdata data) .data x =
      rangeVars fd mdata x := by
  funext k
  cases k <;> rfl

end

section

variable {h : History} {s : Slot → Option Nat} {d : Bool} {r : Rc × Out}
  {buf len m : Nat} {mdata : Option Nat}

theorem At.not_copied (hs : Walk calm h s d true) (buf len : Nat) :
    ⟨.memcpy .data buf len, ()⟩ ∉ h :=
  fun hmem => Bool.false_ne_true (List.all_eq_true.1 hs.passed _ hmem)

theorem At.not_waited (hs : Walk calm h s d true) (e : Except Bool Unit) :
    ⟨.rpcGet, e⟩ ∉ h :=
  fun hmem => Bool.false_ne_true (List.all_eq_true.1 hs.passed _ hmem)

/-- What is known once the function has what it returns, the metadata not
given back yet. -/
inductive Got (mdata : Option Nat) (h : History) : Rc × Out → Prop
  | nothing {rc : Rc} (error : rc ≠ .ok)
      (held : Held (ledger h) (rangeVars none mdata none))
      (regular : ¬ Overrun h) : Got mdata h (rc, Out.empty)
  | buffer {rc : Rc} {buf len : Nat}
      (held : Held (ledger h) (rangeVars none mdata (some buf)))
      (allocated : Allocated h buf len) (regular : rc = .ok ↔ ¬ Overrun h) :
      Got mdata h (rc, ⟨some buf, len⟩)

/-- What is returned keeps the contract, unless the stream went on. -/
theorem Got.contract (hg : Got none h r) : Contract h r ↔ ¬ Overrun h := by
  cases hg with
  | nothing hrc hheld hr =>
    refine iff_of_true ?_ hr
    rw [Contract, if_neg hrc]
    refine ⟨rfl, hheld.settled_iff.2 fun k => ?_⟩
    cases k <;> rfl
  | @buffer rc buf len hheld halloc hr =>
    by_cases hrc : rc = .ok
    · refine iff_of_true ?_ (hr.1 hrc)
      rw [Contract, if_pos hrc]
      refine ⟨buf, rfl, halloc, fun k x => ?_⟩
      rw [hheld.live]
      cases k <;> simp [rangeVars, eq_comm]
    · refine iff_of_false ?_ (fun hno => hrc (hr.2 hno))
      rw [Contract, if_neg hrc]
      rintro ⟨hout, -⟩
      cases hout

theorem overrun_cons {e : Prog.Event Call.Res} (he : calm e = true) :
    Overrun (e :: h) ↔ Overrun h := by
  have hne : ∀ {e'}, calm e' = false → (e' ∈ e :: h ↔ e' ∈ h) := by
    intro e' he'
    refine List.mem_cons.trans (or_iff_right ?_)
    rintro rfl
    exact Bool.false_ne_true (he'.symm.trans he)
  unfold Overrun
  simp only [hne (show calm ⟨.memcpy .data _ _, ()⟩ = false from rfl),
    hne (show calm ⟨.rpcGet, _⟩ = false from rfl)]

/-- Where nothing was copied, the stream may end as it likes. -/
theorem At.regular (hs : Walk calm h s d true) : ¬ Overrun h := by
  rintro ⟨⟨buf, len, hmem⟩, -⟩
  exact hs.not_copied buf len hmem

theorem Allocated.cons {e : Prog.Event Call.Res} (ha : Allocated h buf len) :
    Allocated (e :: h) buf len :=
  ha.imp (List.mem_cons_of_mem _) (List.mem_cons_of_mem _)

end

/-! ## The remote path -/

/-- What the receiving side of the DTL has done. -/
inductive Received (mdata : Option Nat) : History → Rc × Out → Prop
  | nothing {h : History} {d : Bool} {rc : Rc} (error : rc ≠ .ok)
      (walked : Walk calm h (rangeVars none mdata none) d true) :
      Received mdata h (rc, Out.empty)
  | payload {h : History} {d : Bool} {buf len : Nat}
      (walked : Walk calm h (rangeVars none mdata (some buf)) d true)
      (allocated : Allocated h buf len) :
      Received mdata (⟨.memcpy .data buf len, ()⟩ :: h) (.ok, ⟨some buf, len⟩)

section

variable {h : History} {d : Bool} {mdata : Option Nat}

theorem dyadDtlFluxRecv_received
    (hs : Walk calm h (rangeVars none mdata none) d true) :
    Prog.wp May (fun _ _ => True) (Received mdata)
      (dyadDtlFluxRecv Out.empty) h := by
  refine Prog.wp_step True.intro fun r _ => ?_
  have hs := hs.skip (e := ⟨.rpcGetRaw, r⟩) rfl rfl
  cases r with
  | error enodata =>
    refine Received.nothing ?_ hs
    cases enodata <;> decide
  | ok len =>
    refine Prog.wp_step True.intro fun r hm => ?_
    cases r with
    | none =>
      exact Received.nothing (by decide)
        (hs.skip (e := ⟨.posixMemalign .data len, none⟩) rfl rfl)
    | some buf =>
      have hs := hs.obtain (k := .data) hm rfl rfl rfl
      rw [update_data] at hs
      refine Prog.wp_step True.intro fun r _ => ?_
      exact Received.payload hs (Or.inr List.mem_cons_self)

theorem dyadDtlMargoRecv_received
    (hs : Walk calm h (rangeVars none mdata none) d true) :
    Prog.wp May (fun _ _ => True) (Received mdata) dyadDtlMargoRecv h := by
  refine Prog.wp_step True.intro fun len _ => ?_
  have hs := hs.skip (e := ⟨.recvReady, len⟩) rfl rfl
  refine Prog.wp_step True.intro fun r hm => ?_
  cases r with
  | none => exact ⟨True.intro, fun r => r.elim⟩
  | some buf =>
    have hs := hs.obtain (k := .data) hm rfl rfl rfl
    rw [update_data] at hs
    refine Prog.wp_step True.intro fun r _ => ?_
    exact Received.payload hs (Or.inl List.mem_cons_self)

theorem dyadDtlRecv_received (margo : Bool)
    (hs : Walk calm h (rangeVars none mdata none) d true) :
    Prog.wp May (fun _ _ => True) (Received mdata)
      (dyadDtlRecv margo Out.empty) h := by
  cases margo with
  | false => exact dyadDtlFluxRecv_received hs
  | true => exact dyadDtlMargoRecv_received hs

/-- With nothing received the output parameters are as they were. -/
theorem getRangeDone_nothing {f : Bool} {rc : Rc}
    (hrc : rc ≠ .ok ∨ f = false)
    (hs : Walk calm h (rangeVars none mdata none) d true) :
    Prog.wp May (fun _ _ => True) (Got mdata)
      (getRangeDone f rc Out.empty) h := by
  unfold getRangeDone
  split
  · split
    · next hf =>
      refine Prog.wp_step True.intro fun r _ => ?_
      have hheld := hs.skip (e := ⟨.rpcGet, r⟩) rfl rfl |>.held
      have hregular : ¬ Overrun (⟨.rpcGet, r⟩ :: h) := by
        rintro ⟨⟨buf, len, hmem⟩, -⟩
        rcases List.mem_cons.1 hmem with heq | hmem
        · cases heq
        · exact hs.not_copied buf len hmem
      rw [hf, or_iff_left Bool.noConfusion] at hrc
      split
      · exact Got.nothing hrc hheld hregular
      · exact Got.nothing (by decide) hheld hregular
    · exact Got.nothing (by decide) hs.held hs.regular
  · next hne =>
    refine Got.nothing ?_ hs.held hs.regular
    rintro rfl
    exact hne ⟨by decide, by decide⟩

/-- With a payload received the output parameters are set, whatever the end of
the stream is answered with. -/
theorem getRangeDone_payload {h₀ : History} {buf len : Nat}
    (hs : Walk calm h₀ (rangeVars none mdata (some buf)) d true)
    (ha : Allocated h₀ buf len)
    (hh : h = ⟨.closeConnection, ()⟩ :: ⟨.memcpy .data buf len, ()⟩ :: h₀) :
    Prog.wp May (fun _ _ => True) (Got mdata)
      (getRangeDone true .ok ⟨some buf, len⟩) h := by
  have hheld : Held (ledger h) (rangeVars none mdata (some buf)) := by
    rw [hh, ledger_cons, ledger_cons]
    exact hs.held.use rfl
  have halloc : Allocated h buf len := by
    rw [hh]
    exact ha.cons.cons
  have hwaited : ∀ r, ⟨.rpcGet, r⟩ ∉ h := by
    intro r hmem
    simp only [hh, List.mem_cons, hs.not_waited, or_false] at hmem
    rcases hmem with heq | heq <;> cases heq
  refine Prog.wp_step True.intro fun r _ => ?_
  have hheld : Held (ledger (⟨.rpcGet, r⟩ :: h))
      (rangeVars none mdata (some buf)) := hheld
  have hover : Overrun (⟨.rpcGet, r⟩ :: h) ↔ r ≠ .error true := by
    constructor
    · rintro ⟨-, r', hmem, hne⟩
      rcases List.mem_cons.1 hmem with heq | hmem
      · cases heq
        exact hne
      · exact absurd hmem (hwaited r')
    · exact fun hne => ⟨⟨buf, len, by simp [hh]⟩, r, List.mem_cons_self, hne⟩
  split
  · exact Got.buffer hheld halloc.cons (iff_of_true rfl (by simp [hover]))
  · next hne =>
    refine Got.buffer hheld halloc.cons (iff_of_false (by decide) ?_)
    exact fun hno => hno (hover.2 hne)

theorem getRangeResponse_got (margo : Bool)
    (hs : Walk calm h (rangeVars none mdata none) d true) :
    Prog.wp May (fun _ _ => True) (Got mdata)
      (getRangeResponse margo Out.empty) h := by
  have hne : ∀ {rc : Rc}, rc.isError = true → rc ≠ .ok := by
    rintro rc hrc rfl
    exact Bool.false_ne_true hrc
  refine Prog.wp_step True.intro fun rc _ => ?_
  have hs := hs.skip (e := ⟨.rpcRecvResponse, rc⟩) rfl rfl
  split
  · next hrc => exact getRangeDone_nothing (Or.inl (hne hrc)) hs
  · refine Prog.wp_step True.intro fun rc _ => ?_
    have hs := hs.skip (e := ⟨.establishConnection, rc⟩) rfl rfl
    split
    · next hrc => exact getRangeDone_nothing (Or.inl (hne hrc)) hs
    · refine Prog.wp_bind.2 (Prog.wp_imp (dyadDtlRecv_received margo hs)
        fun h r hr => ?_)
      refine Prog.wp_step True.intro fun u _ => ?_
      cases hr with
      | nothing hrc hs =>
        exact getRangeDone_nothing (Or.inl hrc)
          (hs.skip (e := ⟨.closeConnection, u⟩) rfl rfl)
      | payload hs ha => exact getRangeDone_payload hs ha rfl

theorem dyadGetDataRange_got (margo : Bool) (offset length : UInt64)
    (hs : Walk calm h (rangeVars none mdata none) d true) :
    Prog.wp May (fun _ _ => True) (Got mdata)
      (dyadGetDataRange margo offset length Out.empty) h := by
  refine Prog.wp_step True.intro fun rc _ => ?_
  have hs := hs.skip (e := ⟨.rpcPackRange offset length, rc⟩) rfl rfl
  split
  · exact getRangeDone_nothing (Or.inr rfl) hs
  · refine Prog.wp_step True.intro fun sent _ => ?_
    have hs := hs.skip (e := ⟨.fluxRpcPack, sent⟩) rfl rfl
    split
    · exact getRangeResponse_got margo hs
    · exact getRangeDone_nothing (Or.inr rfl) hs

end

/-! ## The local path -/

section

variable {h : History} {d : Bool}

/-- A buffer that was not filled is freed again. -/
theorem consumeRangeRead_got {n : Nat} (offset length : UInt64)
    (hs : Walk calm h (rangeVars (some n) none none) d true) :
    Prog.wp May (fun _ _ => True) (Got none) (consumeRangeRead n offset length) h := by
  refine Prog.wp_step True.intro fun r hm => ?_
  cases r with
  | none =>
    have hs := hs.skip (e := ⟨.malloc .data length.toNat, none⟩) rfl rfl
    refine Prog.wp_step True.intro fun r _ => ?_
    have hs := hs.use (e := ⟨.releaseFlock .fd n, r⟩) (k := .fd) rfl rfl
    refine Prog.wp_step True.intro fun r _ => ?_
    have hs := hs.close (k := .fd) (r := r) rfl
    rw [update_fd] at hs
    exact Got.nothing (by decide) hs.held (At.regular hs)
  | some buf =>
    have hs := hs.obtain (k := .data) hm rfl rfl rfl
    rw [update_data] at hs
    refine Prog.wp_step True.intro fun nread _ => ?_
    have hs := hs.use (e := ⟨.pread n length.toNat offset, nread⟩) (k := .fd) rfl rfl
    refine Prog.wp_step True.intro fun unlocked _ => ?_
    have hs := hs.use (e := ⟨.releaseFlock .fd n, unlocked⟩) (k := .fd) rfl rfl
    refine Prog.wp_step True.intro fun closed _ => ?_
    have hs := hs.close (k := .fd) (r := closed) rfl
    rw [update_fd] at hs
    split
    · refine Prog.wp_step True.intro fun r _ => ?_
      have hs := hs.free (e := ⟨.free .data buf, r⟩) (k := .data) rfl rfl rfl
      rw [update_data] at hs
      exact Got.nothing (by decide) hs.held (At.regular hs)
    · refine Got.buffer hs.held (Or.inl ?_) (iff_of_true rfl (At.regular hs))
      simp

theorem consumeRangeEnsured_got (offset length : UInt64) (rc : Rc)
    (hs : Walk calm h (rangeVars none none none) d true) :
    Prog.wp May (fun _ _ => True) (Got none)
      (consumeRangeEnsured offset length rc) h := by
  have hne : ∀ {rc : Rc}, rc.isError = true → rc ≠ .ok := by
    rintro rc hrc rfl
    exact Bool.false_ne_true hrc
  unfold consumeRangeEnsured
  split
  · next hrc => exact Got.nothing (hne hrc) hs.held hs.regular
  · refine Prog.wp_step True.intro fun r hm => ?_
    cases r with
    | none =>
      have hs := hs.skip (e := ⟨.open .fd, none⟩) rfl rfl
      exact Got.nothing (by decide) hs.held (At.regular hs)
    | some n =>
      have hs := hs.obtain (k := .fd) hm rfl rfl rfl
      rw [update_fd] at hs
      refine Prog.wp_step True.intro fun rc _ => ?_
      have hs := hs.use (e := ⟨.sharedFlock .fd n, rc⟩) (k := .fd) rfl rfl
      split
      · next hrc =>
        refine Prog.wp_step True.intro fun closed _ => ?_
        have hs := hs.close (k := .fd) (r := closed) rfl
        rw [update_fd] at hs
        exact Got.nothing (hne hrc) hs.held (At.regular hs)
      · exact consumeRangeRead_got offset length hs

theorem consumeRangeLocal_got (ctx : DyadCtx) (offset length : UInt64)
    (hs : Walk calm h (rangeVars none none none) d true) :
    Prog.wp May (fun _ _ => True) (Got none)
      (consumeRangeLocal ctx offset length) h := by
  unfold consumeRangeLocal
  split
  · refine Prog.wp_step True.intro fun rc _ => ?_
    exact consumeRangeEnsured_got offset length rc
      (hs.skip (e := ⟨.rangeCacheEnsure offset length, rc⟩) rfl rfl)
  · exact consumeRangeEnsured_got offset length .ok hs

end

/-! ## The whole call -/

section

variable {h : History} {d : Bool} {r : Rc × Out}

/-- A call that touches no handle changes nothing about what was got. -/
theorem Got.skip {mdata : Option Nat} {e : Prog.Event Call.Res}
    (hg : Got mdata h r) (he : entry e = none) (hc : calm e = true) :
    Got mdata (e :: h) r := by
  cases hg with
  | nothing hrc hheld hr =>
    refine Got.nothing hrc ?_ (fun ho => hr ((overrun_cons hc).1 ho))
    rw [ledger_cons, he]
    exact hheld
  | buffer hheld halloc hr =>
    refine Got.buffer ?_ halloc.cons (hr.trans (not_congr (overrun_cons hc).symm))
    rw [ledger_cons, he]
    exact hheld

/-- The metadata given back. -/
theorem Got.freeMetadata {m : Nat} {u : Unit} (hg : Got (some m) h r) :
    Got none (⟨.freeMetadata m, u⟩ :: h) r := by
  have hc : calm ⟨.freeMetadata m, u⟩ = true := rfl
  cases hg with
  | nothing hrc hheld hr =>
    refine Got.nothing hrc ?_ (fun ho => hr ((overrun_cons hc).1 ho))
    rw [← update_rangeMdata, ledger_cons]
    exact hheld.free rfl
  | buffer hheld halloc hr =>
    refine Got.buffer ?_ halloc.cons (hr.trans (not_congr (overrun_cons hc).symm))
    rw [← update_rangeMdata, ledger_cons]
    exact hheld.free rfl

theorem consumeRangeTracked_got (ctx : DyadCtx) (margo : Bool)
    (offset length : UInt64)
    (hs : Walk calm h (rangeVars none none none) d true) :
    Prog.wp May (fun _ _ => True) (Got none)
      (consumeRangeTracked ctx margo offset length) h := by
  refine Prog.wp_step True.intro fun u _ => ?_
  have hs := hs.skip (e := ⟨.setReenter false, u⟩) rfl rfl
  refine Prog.wp_step True.intro fun r hm => ?_
  cases r with
  | error rc =>
    have hs := hs.skip (e := ⟨.fetchMetadata, .error rc⟩) rfl rfl
    refine Got.nothing ?_ hs.held (At.regular hs)
    rintro rfl
    exact Bool.false_ne_true hm.2
  | ok mdata =>
    cases mdata with
    | none =>
      exact consumeRangeLocal_got ctx offset length
        (hs.skip (e := ⟨.fetchMetadata, .ok none⟩) rfl rfl)
    | some m =>
      have hs := hs.obtain (k := .mdata) hm rfl rfl rfl
      rw [update_rangeMdata] at hs
      refine Prog.wp_bind.2 (Prog.wp_imp (dyadGetDataRange_got margo offset length hs)
        fun h r hg => ?_)
      exact Prog.wp_step True.intro fun u _ => hg.freeMetadata

theorem consumeRangeBody_got (hash : CString → UInt32 → UInt32)
    (realpath : CString → Option CString) (ctx : Option DyadCtx)
    (fname : CString) (offset length : UInt64) :
    Prog.wp May (fun _ _ => True) (Got none)
      (consumeRangeBody hash realpath ctx fname offset length) [] := by
  have hs : Walk calm [] (rangeVars none none none) true true := by
    have hnone : rangeVars none none none = fun _ => none := by
      funext k
      cases k <;> rfl
    rw [hnone]
    exact At.nil
  have herror : ∀ {rc : Rc}, rc ≠ .ok → Got none [] (rc, Out.empty) :=
    fun hrc => Got.nothing hrc hs.held hs.regular
  cases ctx with
  | none => exact herror (by decide)
  | some c =>
    unfold consumeRangeBody
    dsimp only
    split
    · exact herror (by decide)
    · split
      · exact herror (by decide)
      · cases c.dtlHandle with
        | none => exact herror (by decide)
        | some dtl =>
          dsimp only
          split
          · exact herror (by decide)
          · split
            · exact consumeRangeTracked_got c _ offset length hs
            · exact herror (by decide)

end

/-- The output parameters keep the contract exactly if the stream ends where a
payload was received. -/
theorem contract_iff (hash : CString → UInt32 → UInt32)
    (realpath : CString → Option CString) (ctx : Option DyadCtx)
    (fname : CString) (offset length : UInt64) (h : History) (r : Rc × Out)
    (hp : Prog.Path May (dyadConsumeRange hash realpath ctx fname offset length) h
      (.pure r)) :
    Contract h r ↔ ¬ Overrun h := by
  suffices hw : Prog.wp May (fun _ _ => True)
      (fun h r => Contract h r ↔ ¬ Overrun h)
      (dyadConsumeRange hash realpath ctx fname offset length) [] from hp.wp hw
  refine Prog.wp_bind.2 (Prog.wp_imp
    (consumeRangeBody_got hash realpath ctx fname offset length) fun h r hg => ?_)
  cases ctx with
  | none => exact ⟨True.intro, fun r => r.elim⟩
  | some c => exact Prog.wp_step True.intro fun u _ => (hg.skip rfl rfl).contract

/-- A consumer that gives names relative to its directory and fetches through
Flux. -/
def rangeConsumer : DyadCtx :=
  { dyadCtxDefault with
    h := some .opened
    dtlHandle := some ⟨.fluxRpc, none⟩
    cons := { ManagedPath.unset with managedPath := some ['d'] }
    delimLen := 1
    relativeToManagedPath := true }

/-- Four bytes fetched, with the stream ended behind them. -/
theorem contract_fetched :
    ∃ h r, Prog.Path May (dyadConsumeRange (fun _ _ => 0) some
        (some rangeConsumer) ['f'] 0 4) h (.pure r) ∧
      r.1 = .ok ∧ r.2 ≠ Out.empty ∧ Contract h r := by
  have hp := path_of_granting (fun _ => false) 4
    (dyadConsumeRange (fun _ _ => 0) some (some rangeConsumer) ['f'] 0 4) rfl
  refine ⟨_, _, hp, rfl, nofun, (contract_iff _ _ _ _ _ _ _ _ hp).2 ?_⟩
  rintro ⟨-, r, hr, hne⟩
  exact hne (by simpa using hr)

/-- The stream goes on behind the payload: an error is returned, and the
buffer with it. -/
theorem overrun_returned :
    ∃ h r, Prog.Path May (dyadConsumeRange (fun _ _ => 0) some
        (some rangeConsumer) ['f'] 0 4) h (.pure r) ∧
      r.1 = .badrpc ∧ r.2 ≠ Out.empty ∧ ¬ Contract h r := by
  have hp := path_of_granting (fun c => c = .rpcGet) 4
    (dyadConsumeRange (fun _ _ => 0) some (some rangeConsumer) ['f'] 0 4) rfl
  refine ⟨_, _, hp, rfl, fun hout => ?_, fun hc => ?_⟩
  · cases hout
  · cases hc.1

end Dyad.Resources
