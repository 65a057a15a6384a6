import Dyad.Service.HandlerResources
import Dyad.Proofs.Ledger

/-!
# What serving a request leaves behind

The handlers are walked with what their variables hold, and with whether a
buffer was obtained and whether one was sent. All the rest is given back on
every path; a buffer that the DTL handed to the handler itself only goes back
behind a send, whereas a work item gives its buffer back when it is destroyed.
-/

namespace Dyad.Resources

open Conc HandleEvent

/-! ## Walking -/

/-- Whether a buffer was obtained, and whether one was sent. -/
def noteBuffer (e : Prog.Event Call.Res) (b : Bool × Bool) : Bool × Bool :=
  (gotBuffer e || b.1, sent e || b.2)

/-- The state itself, and the reference to the message in it. -/
def ReqState.ptr : ReqState → Nat
  | .flux state _ => state
  | .margo state => state

def ReqState.ref : ReqState → Option Nat
  | .flux _ msg => some msg
  | .margo _ => none

/-- The variables of the service. -/
def serviceVars (fd inbuf item msg : Option Nat) (st : Option ReqState) :
    Slot → Option Nat
  | .fd => fd
  | .inbuf => inbuf
  | .item => item
  | .msg => msg
  | .reqState => st.map ReqState.ptr
  | .stateMsg => st.bind ReqState.ref
  | _ => none

/-- A point of the service. -/
abbrev Serving (h : History) (fd inbuf item msg : Option Nat)
    (st : Option ReqState) (d : Bool) (b : Bool × Bool) : Prop :=
  At noteBuffer (false, false) h (serviceVars fd inbuf item msg st) d b

/-- The balance is kept, or a buffer that was not sent is lost. -/
def BufferRule (onWorkers : Bool) (h : History) : Prop :=
  Balanced h ↔
    onWorkers = true ∨ h.any gotBuffer = false ∨ h.any sent = true

section

variable {h : History} {fd inbuf item msg x : Option Nat}
  {st : Option ReqState} {d : Bool} {b : Bool × Bool} {n m : Nat}

theorem serviceVars_none :
    serviceVars none none none none none = fun _ => none := by
  funext k
  cases k <;> rfl

@[simp]
theorem update_serviceFd :
    Function.update (serviceVars fd inbuf item msg st) .fd x =
      serviceVars x inbuf item msg st := by
  funext k
  cases k <;> rfl

@[simp]
theorem update_inbuf :
    Function.update (serviceVars fd inbuf item msg st) .inbuf x =
      serviceVars fd x item msg st := by
  funext k
  cases k <;> rfl

@[simp]
theorem update_item :
    Function.update (serviceVars fd inbuf item msg st) .item x =
      serviceVars fd inbuf x msg st := by
  funext k
  cases k <;> rfl

@[simp]
theorem update_msg :
    Function.update (serviceVars fd inbuf item msg st) .msg x =
      serviceVars fd inbuf item x st := by
  funext k
  cases k <;> rfl

@[simp]
theorem update_reqState :
    Function.update (serviceVars fd inbuf item msg none) .reqState (some n) =
      serviceVars fd inbuf item msg (some (.margo n)) := by
  funext k
  cases k <;> rfl

@[simp]
theorem update_stateMsg :
    Function.update (serviceVars fd inbuf item msg (some (.margo n)))
        .stateMsg (some m) =
      serviceVars fd inbuf item msg (some (.flux n m)) := by
  funext k
  cases k <;> rfl

@[simp]
theorem free_stateMsg :
    Function.update (serviceVars fd inbuf item msg (some (.flux n m)))
        .stateMsg none =
      serviceVars fd inbuf item msg (some (.margo n)) := by
  funext k
  cases k <;> rfl

@[simp]
theorem free_reqState :
    Function.update (serviceVars fd inbuf item msg (some (.margo n)))
        .reqState none =
      serviceVars fd inbuf item msg none := by
  funext k
  cases k <;> rfl

theorem At.noted_any {s : Slot → Option Nat}
    (hs : At noteBuffer (false, false) h s d b) :
    h.any gotBuffer = b.1 ∧ h.any sent = b.2 := by
  rw [← hs.noted]
  clear hs
  induction h with
  | nil => exact ⟨rfl, rfl⟩
  | cons e h ih =>
    rw [List.any_cons, List.any_cons, ih.1, ih.2, List.foldr_cons]
    exact ⟨rfl, rfl⟩

theorem Serving.kept {onWorkers : Bool}
    (hs : Serving h none none none none none true b)
    (hb : onWorkers = true ∨ b.1 = false ∨ b.2 = true) :
    BufferRule onWorkers h := by
  refine iff_of_true (hs.balanced fun k => by rw [serviceVars_none]) ?_
  rwa [hs.noted_any.1, hs.noted_any.2]

theorem Serving.lost
    (hs : Serving h fd (some n) item msg st d (true, false)) :
    BufferRule false h := by
  refine iff_of_false (hs.unbalanced (k := .inbuf) rfl) ?_
  rw [hs.noted_any.1, hs.noted_any.2]
  simp

/-! ## The exits of the handlers -/

/-- `fetch_error_wo_flock` leaves a buffer where it is. -/
theorem fetchErrorWoFlock_rule {onWorkers : Bool}
    (hs : Serving h none inbuf none none none true (inbuf.isSome, false))
    (hw : onWorkers = true → inbuf = none) :
    Prog.wp May (fun _ _ => True) (fun h _ => BufferRule onWorkers h)
      fetchErrorWoFlock h := by
  refine Prog.wp_step True.intro fun r _ => ?_
  have hs := hs.skip (e := ⟨.respondError, r⟩) rfl rfl
  cases inbuf with
  | none => exact Serving.kept hs (Or.inr (Or.inl rfl))
  | some n =>
    cases onWorkers with
    | false => exact Serving.lost hs
    | true => cases hw rfl

theorem fetchError_rule
    (hs : Serving h (some n) inbuf none none none d (inbuf.isSome, false)) :
    Prog.wp May (fun _ _ => True) (fun h _ => BufferRule false h)
      (fetchError n) h := by
  refine Prog.wp_step True.intro fun r _ => ?_
  have hs := hs.use (e := ⟨.releaseFlock .fd n, r⟩) (k := .fd) rfl rfl
  refine Prog.wp_step True.intro fun closed _ => ?_
  have hs := hs.close (k := .fd) (r := closed) rfl
  rw [update_serviceFd] at hs
  exact fetchErrorWoFlock_rule hs fun hw => by cases hw

theorem Serving.send (hs : Serving h fd inbuf item msg st d b) (rc : Rc) :
    Serving (⟨.send inbuf, rc⟩ :: h) fd inbuf item msg st d
      (b.1, !rc.isError || b.2) := by
  cases inbuf with
  | none => exact hs.skip (e := ⟨.send none, rc⟩) rfl rfl
  | some n =>
    exact hs.touch (e := ⟨.send (some n), rc⟩) (k := .inbuf) rfl rfl rfl

theorem Serving.returnBuffer (hs : Serving h fd inbuf item msg st d b)
    (r : Unit) :
    Serving (⟨.returnBuffer .inbuf inbuf, r⟩ :: h) fd none item msg st d b := by
  cases inbuf with
  | none => exact hs.skip (e := ⟨.returnBuffer .inbuf none, r⟩) rfl rfl
  | some n =>
    have hs := hs.free (e := ⟨.returnBuffer .inbuf (some n), r⟩) (k := .inbuf)
      rfl rfl rfl
    rwa [update_inbuf] at hs

/-- A buffer only goes back behind a send. -/
theorem fetchSend_rule
    (hs : Serving h none inbuf none none none true (inbuf.isSome, false)) :
    Prog.wp May (fun _ _ => True) (fun h _ => BufferRule false h)
      (fetchSend inbuf) h := by
  have hw : false = true → inbuf = none := fun hw => by cases hw
  refine Prog.wp_step True.intro fun rc _ => ?_
  have hs := hs.skip (e := ⟨.establishConnection, rc⟩) rfl rfl
  split
  · exact fetchErrorWoFlock_rule hs hw
  · refine Prog.wp_step True.intro fun rc _ => ?_
    have hs := Serving.send hs rc
    split
    · next hrc =>
      rw [hrc] at hs
      exact fetchErrorWoFlock_rule hs hw
    · next hrc =>
      rw [Bool.eq_false_of_not_eq_true hrc] at hs
      refine Prog.wp_step True.intro fun closed _ => ?_
      have hs := hs.skip (e := ⟨.closeConnection, closed⟩) rfl rfl
      refine Prog.wp_step True.intro fun r _ => ?_
      have hs := Serving.returnBuffer hs r
      refine Prog.wp_step True.intro fun r _ => ?_
      exact Serving.kept (hs.skip (e := ⟨.respondError, r⟩) rfl rfl)
        (Or.inr (Or.inr rfl))

/-! ## The whole-file handler -/

/-- What is known of the lock is forgotten. -/
theorem fetchReadLoop_serving {size : Int} (fuel : Nat) (readData : Int)
    (hs : Serving h (some n) inbuf item msg st false b) :
    Prog.wp May (fun _ _ => True)
      (fun h _ => Serving h (some n) inbuf item msg st false b)
      (fetchReadLoop n size fuel readData) h := by
  induction fuel generalizing h readData with
  | zero => exact hs
  | succ fuel ih =>
    unfold fetchReadLoop
    split
    · refine Prog.wp_step True.intro fun inlen _ => ?_
      have hs := hs.use (e := ⟨.read n _, inlen⟩) (k := .fd) rfl rfl
      split
      · exact hs
      · exact ih _ hs
    · exact hs

theorem fetchRead_serving {size : Nat}
    (hs : Serving h (some n) inbuf item msg st false b) :
    Prog.wp May (fun _ _ => True)
      (fun h _ => Serving h (some n) inbuf item msg st false b)
      (fetchRead n size) h := by
  unfold fetchRead
  split
  · refine Prog.wp_step True.intro fun inlen _ => ?_
    exact hs.use (e := ⟨.read n size, inlen⟩) (k := .fd) rfl rfl
  · exact fetchReadLoop_serving size 0 hs

/-- The end of a handler that has read its file. -/
theorem fetchClose_rule {α : Type} {f : Program α}
    (hs : Serving h (some n) inbuf none none none d (inbuf.isSome, false))
    (hf : ∀ h, Serving h none inbuf none none none true (inbuf.isSome, false) →
      Prog.wp May (fun _ _ => True) (fun h _ => BufferRule false h) f h) :
    Prog.wp May (fun _ _ => True) (fun h _ => BufferRule false h)
      ((perform (.releaseFlock .fd n)).bind fun _ =>
        (perform (.close .fd n)).bind fun _ => f) h := by
  refine Prog.wp_step True.intro fun r _ => ?_
  have hs := hs.use (e := ⟨.releaseFlock .fd n, r⟩) (k := .fd) rfl rfl
  refine Prog.wp_step True.intro fun closed _ => hf _ ?_
  have hs := hs.close (k := .fd) (r := closed) rfl
  rwa [update_serviceFd] at hs

theorem fetchBuffered_rule {ucxBuild : Bool} {size : Nat}
    (hs : Serving h (some n) inbuf none none none false (inbuf.isSome, false)) :
    Prog.wp May (fun _ _ => True) (fun h _ => BufferRule false h)
      (fetchBuffered ucxBuild inbuf n size) h := by
  unfold fetchBuffered
  split
  · exact ⟨True.intro, fun r => r.elim⟩
  · split
    · refine Prog.wp_bind.2 (Prog.wp_imp (fetchRead_serving hs) fun h r hs => ?_)
      cases r with
      | none => exact fetchError_rule hs
      | some inlen =>
        show Prog.wp _ _ _ (ite _ _ _) _
        split
        · exact fetchError_rule hs
        · exact fetchClose_rule hs fun h hs => fetchSend_rule hs
    · exact fetchError_rule hs

theorem fetchOpened_rule {ucxBuild : Bool}
    (hs : Serving h (some n) none none none none d (false, false)) :
    Prog.wp May (fun _ _ => True) (fun h _ => BufferRule false h)
      (fetchOpened ucxBuild n) h := by
  refine Prog.wp_step True.intro fun rc _ => ?_
  have hs := hs.use (e := ⟨.sharedFlock .fd n, rc⟩) (k := .fd) rfl rfl
  split
  · exact fetchError_rule hs
  · refine Prog.wp_step True.intro fun size _ => ?_
    have hs := hs.use (e := ⟨.getFileSize .fd n, size⟩) (k := .fd) rfl rfl
    refine Prog.wp_step True.intro fun inbuf hm => ?_
    cases inbuf with
    | none =>
      exact fetchBuffered_rule
        (hs.skip (e := ⟨.getBuffer .inbuf size, none⟩) rfl rfl)
    | some buf =>
      have hs := hs.obtain (k := .inbuf) hm rfl rfl rfl
      rw [update_inbuf] at hs
      exact fetchBuffered_rule hs

theorem dyadFetchRequestCb_rule (ucxBuild : Bool)
    (hs : Serving h none none none none none true (false, false)) :
    Prog.wp May (fun _ _ => True) (fun h _ => BufferRule false h)
      (dyadFetchRequestCb ucxBuild) h := by
  have hexit : ∀ {h}, Serving h none none none none none true (false, false) →
      Prog.wp May (fun _ _ => True) (fun h _ => BufferRule false h)
        fetchErrorWoFlock h := fun hs => fetchErrorWoFlock_rule hs fun _ => rfl
  refine Prog.wp_step True.intro fun streaming _ => ?_
  have hs := hs.skip (e := ⟨.msgIsStreaming, streaming⟩) rfl rfl
  split
  · refine Prog.wp_step True.intro fun userid _ => ?_
    have hs := hs.skip (e := ⟨.msgGetUserid, userid⟩) rfl rfl
    split
    · refine Prog.wp_step True.intro fun rc _ => ?_
      have hs := hs.skip (e := ⟨.rpcUnpack, rc⟩) rfl rfl
      split
      · exact hexit hs
      · refine Prog.wp_step True.intro fun rc _ => ?_
        have hs := hs.skip (e := ⟨.rpcRespond, rc⟩) rfl rfl
        split
        · exact hexit hs
        · refine Prog.wp_step True.intro fun fd hm => ?_
          cases fd with
          | none => exact hexit (hs.skip (e := ⟨.open .fd, none⟩) rfl rfl)
          | some n =>
            have hs := hs.obtain (k := .fd) hm rfl rfl rfl
            rw [update_serviceFd] at hs
            exact fetchOpened_rule hs
    · exact hexit hs
  · exact hexit hs

/-! ## The synchronous path of the range handler -/

theorem rangeReadLoop_serving (size : Int) (offset : UInt64) (fuel : Nat)
    (readData : Int) (hs : Serving h (some n) inbuf item msg st false b) :
    Prog.wp May (fun _ _ => True)
      (fun h _ => Serving h (some n) inbuf item msg st false b)
      (rangeReadLoop n offset size fuel readData) h := by
  induction fuel generalizing h readData with
  | zero => exact hs
  | succ fuel ih =>
    unfold rangeReadLoop
    split
    · refine Prog.wp_step True.intro fun inlen _ => ?_
      have hs := hs.use (e := ⟨.pread n _ _, inlen⟩) (k := .fd) rfl rfl
      split
      · exact hs
      · exact ih _ hs
    · exact hs

theorem rangeRead_serving {size : Int} {offset : UInt64}
    (hs : Serving h (some n) inbuf item msg st false b) :
    Prog.wp May (fun _ _ => True)
      (fun h _ => Serving h (some n) inbuf item msg st false b)
      (rangeRead n offset size) h := by
  unfold rangeRead
  split
  · split
    · refine Prog.wp_step True.intro fun inlen _ => ?_
      exact hs.use (e := ⟨.pread n size offset, inlen⟩) (k := .fd) rfl rfl
    · exact rangeReadLoop_serving size offset _ 0 hs
  · exact hs

theorem rangeClamped_rule {size : Int} {offset : UInt64}
    (hs : Serving h (some n) none none none none false (false, false)) :
    Prog.wp May (fun _ _ => True) (fun h _ => BufferRule false h)
      (rangeClamped n offset size) h := by
  refine Prog.wp_step True.intro fun inbuf hm => ?_
  cases inbuf with
  | none =>
    exact fetchError_rule (hs.skip (e := ⟨.getBuffer .inbuf _, none⟩) rfl rfl)
  | some buf =>
    have hs := hs.obtain (k := .inbuf) hm rfl rfl rfl
    rw [update_inbuf] at hs
    refine Prog.wp_bind.2 (Prog.wp_imp (rangeRead_serving hs) fun h r hs => ?_)
    cases r with
    | none => exact fetchError_rule hs
    | some inlen =>
      show Prog.wp _ _ _ (ite _ _ _) _
      split
      · exact fetchError_rule hs
      · exact fetchClose_rule hs fun h hs => fetchSend_rule hs

theorem rangeEnsured_rule {offset length : UInt64} {rc : Rc}
    (hs : Serving h none none none none none true (false, false)) :
    Prog.wp May (fun _ _ => True) (fun h _ => BufferRule false h)
      (rangeEnsured offset length rc) h := by
  unfold rangeEnsured
  split
  · exact fetchErrorWoFlock_rule hs fun _ => rfl
  · refine Prog.wp_step True.intro fun fd hm => ?_
    cases fd with
    | none =>
      exact fetchErrorWoFlock_rule (hs.skip (e := ⟨.open .fd, none⟩) rfl rfl)
        fun _ => rfl
    | some n =>
      have hs := hs.obtain (k := .fd) hm rfl rfl rfl
      rw [update_serviceFd] at hs
      refine Prog.wp_step True.intro fun rc _ => ?_
      have hs := hs.use (e := ⟨.sharedFlock .fd n, rc⟩) (k := .fd) rfl rfl
      split
      · exact fetchError_rule hs
      · refine Prog.wp_step True.intro fun size _ => ?_
        exact rangeClamped_rule
          (hs.use (e := ⟨.getFileSize .fd n, size⟩) (k := .fd) rfl rfl)

theorem rangeSync_rule {cfg : RangeConfig} {offset length : UInt64}
    (hs : Serving h none none none none none true (false, false)) :
    Prog.wp May (fun _ _ => True) (fun h _ => BufferRule false h)
      (rangeSync cfg offset length) h := by
  unfold rangeSync
  split
  · refine Prog.wp_step True.intro fun rc _ => ?_
    exact rangeEnsured_rule
      (hs.skip (e := ⟨.rangeCacheEnsure offset length, rc⟩) rfl rfl)
  · exact rangeEnsured_rule hs

/-! ## The detached state -/

section

variable {state : ReqState}

theorem rpcDetachRequest_serving (margo : Bool)
    (hs : Serving h fd inbuf item msg none d b) :
    Prog.wp May (fun _ _ => True)
      (fun h st => Serving h fd inbuf item msg st d b)
      (rpcDetachRequest margo) h := by
  cases margo with
  | true =>
    refine Prog.wp_step True.intro fun r hm => ?_
    cases r with
    | none => exact hs.skip (e := ⟨.malloc .reqState 24, none⟩) rfl rfl
    | some p =>
      have hs := hs.obtain (k := .reqState) hm rfl rfl rfl
      rw [update_reqState] at hs
      exact hs
  | false =>
    refine Prog.wp_step True.intro fun r hm => ?_
    cases r with
    | none => exact hs.skip (e := ⟨.malloc .reqState 16, none⟩) rfl rfl
    | some p =>
      have hs := hs.obtain (k := .reqState) hm rfl rfl rfl
      rw [update_reqState] at hs
      refine Prog.wp_step True.intro fun m hm => ?_
      have hs := hs.obtain (k := .stateMsg) hm rfl rfl rfl
      rw [update_stateMsg] at hs
      exact hs

/-- Both ways to consume the state end with it freed. -/
theorem rpcAbortDetached_serving (state : ReqState)
    (hs : Serving h fd inbuf item msg (some state) d b) :
    Prog.wp May (fun _ _ => True)
      (fun h _ => Serving h fd inbuf item msg none d b)
      (rpcAbortDetached state) h := by
  cases state with
  | margo p =>
    refine Prog.wp_step True.intro fun r _ => ?_
    have hs := hs.free (e := ⟨.free .reqState p, r⟩) (k := .reqState) rfl rfl rfl
    rw [free_reqState] at hs
    exact hs
  | flux p m =>
    refine Prog.wp_step True.intro fun r _ => ?_
    have hs := hs.free (e := ⟨.msgDecref .stateMsg m, r⟩) (k := .stateMsg)
      rfl rfl rfl
    rw [free_stateMsg] at hs
    refine Prog.wp_step True.intro fun r _ => ?_
    have hs := hs.free (e := ⟨.free .reqState p, r⟩) (k := .reqState) rfl rfl rfl
    rw [free_reqState] at hs
    exact hs

theorem rpcSendDetached_serving
    (hs : Serving h fd inbuf item msg (some state) d b) :
    Prog.wp May (fun _ _ => True)
      (fun h _ => Serving h fd inbuf item msg none d b)
      (rpcSendDetached state) h := by
  cases state with
  | margo p =>
    refine Prog.wp_step True.intro fun rc _ => ?_
    have hs := hs.touch (e := ⟨.margoSendTo p, rc⟩) (k := .reqState) rfl rfl rfl
    exact Prog.wp_bind.2 (rpcAbortDetached_serving _ hs)
  | flux p m =>
    refine Prog.wp_step True.intro fun rc _ => ?_
    have hs := hs.touch (e := ⟨.respondRaw p, rc⟩) (k := .reqState) rfl rfl rfl
    exact Prog.wp_bind.2 (rpcAbortDetached_serving _ hs)

end

/-! ## The work item -/

/-- The item carries all that is left to give back. -/
def Carried (h : History) (item : Item) : Prop :=
  Serving h none (some item.inbuf) (some item.ptr) (some item.msg)
    item.reqState true (true, false)

section

variable {it : Item}

theorem workerDetached_carried {state : ReqState}
    (hst : it.reqState = some state) (hs : Carried h it) :
    Prog.wp May (fun _ _ => True) Carried (workerDetached it state) h := by
  unfold Carried at hs
  rw [hst] at hs
  unfold workerDetached
  split
  · exact Prog.wp_bind.2 (Prog.wp_imp (rpcAbortDetached_serving _ hs)
      fun h _ hs => hs)
  · exact Prog.wp_bind.2 (Prog.wp_imp (rpcSendDetached_serving hs)
      fun h _ hs => hs)

theorem dyadFetchWorkerFinish_carried (hs : Carried h it) :
    Prog.wp May (fun _ _ => True) Carried (dyadFetchWorkerFinish it) h := by
  unfold dyadFetchWorkerFinish
  split
  · cases hst : it.reqState with
    | none => exact ⟨True.intro, fun r => r.elim⟩
    | some state => exact workerDetached_carried hst hs
  · exact hs

theorem workerRead_carried {size : Int}
    (hs : Serving h (some n) (some it.inbuf) (some it.ptr) (some it.msg)
      it.reqState false (true, false)) :
    Prog.wp May (fun _ _ => True) Carried (workerRead it n size) h := by
  refine Prog.wp_bind.2 (Prog.wp_imp
    (rangeReadLoop_serving size it.offset size.toNat 0 hs) fun h read hs => ?_)
  refine Prog.wp_step True.intro fun r _ => ?_
  have hs := hs.use (e := ⟨.releaseFlock .fd n, r⟩) (k := .fd) rfl rfl
  refine Prog.wp_step True.intro fun closed _ => ?_
  have hs := hs.close (k := .fd) (r := closed) rfl
  rw [update_serviceFd] at hs
  exact dyadFetchWorkerFinish_carried hs

theorem workerOpened_carried
    (hs : Serving h (some n) (some it.inbuf) (some it.ptr) (some it.msg)
      it.reqState d (true, false)) :
    Prog.wp May (fun _ _ => True) Carried (workerOpened it n) h := by
  refine Prog.wp_step True.intro fun rc _ => ?_
  have hs := hs.use (e := ⟨.sharedFlock .fd n, rc⟩) (k := .fd) rfl rfl
  split
  · refine Prog.wp_step True.intro fun closed _ => ?_
    have hs := hs.close (k := .fd) (r := closed) rfl
    rw [update_serviceFd] at hs
    exact dyadFetchWorkerFinish_carried hs
  · refine Prog.wp_step True.intro fun size _ => ?_
    have hs := hs.use (e := ⟨.getFileSize .fd n, size⟩) (k := .fd) rfl rfl
    -- the loop that follows would unfold it as its fuel
    generalize clampRange it.offset it.length size = rangeLen
    exact workerRead_carried hs

theorem workerEnsured_carried {rc : Rc} (hs : Carried h it) :
    Prog.wp May (fun _ _ => True) Carried (workerEnsured it rc) h := by
  unfold workerEnsured
  split
  · exact dyadFetchWorkerFinish_carried hs
  · refine Prog.wp_step True.intro fun fd hm => ?_
    cases fd with
    | none =>
      exact dyadFetchWorkerFinish_carried
        (At.skip hs (e := ⟨.open .fd, none⟩) rfl rfl)
    | some n =>
      have hs := At.obtain hs (k := .fd) hm rfl rfl rfl
      rw [update_serviceFd] at hs
      exact workerOpened_carried hs

theorem dyadFetchWorkerProcess_carried (hs : Carried h it) :
    Prog.wp May (fun _ _ => True) Carried (dyadFetchWorkerProcess it) h := by
  unfold dyadFetchWorkerProcess
  split
  · refine Prog.wp_step True.intro fun rc _ => workerEnsured_carried ?_
    exact At.skip hs (e := ⟨.rangeCacheEnsure _ _, rc⟩) rfl rfl
  · exact workerEnsured_carried hs

theorem dyadFetchWorkItemDestroy_rule
    (hs : Serving h none (some it.inbuf) (some it.ptr) (some it.msg) none true
      (true, false)) :
    Prog.wp May (fun _ _ => True) (fun h _ => BufferRule true h)
      (dyadFetchWorkItemDestroy it) h := by
  refine Prog.wp_step True.intro fun r _ => ?_
  have hs := Serving.returnBuffer hs r
  refine Prog.wp_step True.intro fun r _ => ?_
  have hs := hs.free (e := ⟨.msgDecref .msg it.msg, r⟩) (k := .msg) rfl rfl rfl
  rw [update_msg] at hs
  refine Prog.wp_step True.intro fun r _ => ?_
  have hs := hs.free (e := ⟨.free .item it.ptr, r⟩) (k := .item) rfl rfl rfl
  rw [update_item] at hs
  exact Serving.kept hs (Or.inl rfl)

theorem finishDetached_serving {state : ReqState}
    (hs : Serving h fd inbuf item msg (some state) d b) :
    Prog.wp May (fun _ _ => True)
      (fun h _ => Serving h fd inbuf item msg none d b)
      (finishDetached it state) h := by
  unfold finishDetached
  split
  · exact rpcAbortDetached_serving _ hs
  · exact Prog.wp_bind.2 (Prog.wp_imp (rpcSendDetached_serving hs)
      fun h _ hs => hs)

theorem dyadFetchComplete_rule (hs : Carried h it) :
    Prog.wp May (fun _ _ => True) (fun h _ => BufferRule true h)
      (dyadFetchComplete it) h := by
  unfold Carried at hs
  unfold dyadFetchComplete
  cases hst : it.reqState with
  | none =>
    rw [hst] at hs
    refine Prog.wp_step True.intro fun r _ => ?_
    exact dyadFetchWorkItemDestroy_rule
      (hs.skip (e := ⟨.respondError, r⟩) rfl rfl)
  | some state =>
    rw [hst] at hs
    refine Prog.wp_bind.2 (Prog.wp_imp (finishDetached_serving hs)
      fun h _ hs => ?_)
    refine Prog.wp_step True.intro fun r _ => ?_
    exact dyadFetchWorkItemDestroy_rule
      (hs.skip (e := ⟨.respondError, r⟩) rfl rfl)

end

/-! ## The range handler -/

/-- What the handler has done: answered the request, or enqueued an item. -/
def Handled (onWorkers : Bool) (h : History) : Option Item → Prop
  | none => BufferRule onWorkers h
  | some item => onWorkers = true ∧ Carried h item

section

variable {cfg : RangeConfig} {offset length : UInt64} {p q : Nat}

theorem rangeDetached_handled {state : ReqState} (hw : cfg.workers = true)
    (hs : Serving h none none (some p) (some q) (some state) true
      (false, false)) :
    Prog.wp May (fun _ _ => True) (Handled cfg.workers)
      (rangeDetached cfg offset length p q state) h := by
  refine Prog.wp_step True.intro fun inbuf hm => ?_
  cases inbuf with
  | none =>
    have hs := hs.skip (e := ⟨.getBuffer .inbuf length.toNat, none⟩) rfl rfl
    refine Prog.wp_bind.2 (Prog.wp_imp (rpcAbortDetached_serving _ hs)
      fun h _ hs => ?_)
    refine Prog.wp_step True.intro fun r _ => ?_
    have hs := hs.free (e := ⟨.msgDecref .msg q, r⟩) (k := .msg) rfl rfl rfl
    rw [update_msg] at hs
    refine Prog.wp_step True.intro fun r _ => ?_
    have hs := hs.free (e := ⟨.free .item p, r⟩) (k := .item) rfl rfl rfl
    rw [update_item] at hs
    exact Prog.wp_bind.2 (fetchErrorWoFlock_rule hs fun _ => rfl)
  | some buf =>
    have hs := hs.obtain (k := .inbuf) hm rfl rfl rfl
    rw [update_inbuf] at hs
    exact ⟨hw, hs⟩

theorem rangeEnqueue_handled (hw : cfg.workers = true)
    (hs : Serving h none none none none none true (false, false)) :
    Prog.wp May (fun _ _ => True) (Handled cfg.workers)
      (rangeEnqueue cfg offset length) h := by
  refine Prog.wp_step True.intro fun ptr hm => ?_
  cases ptr with
  | none =>
    exact Prog.wp_bind.2 (fetchErrorWoFlock_rule
      (hs.skip (e := ⟨.malloc .item workItemSize, none⟩) rfl rfl) fun _ => rfl)
  | some p =>
    have hs := hs.obtain (k := .item) hm rfl rfl rfl
    rw [update_item] at hs
    refine Prog.wp_step True.intro fun q hm => ?_
    have hs := hs.obtain (k := .msg) hm rfl rfl rfl
    rw [update_msg] at hs
    refine Prog.wp_bind.2 (Prog.wp_imp (rpcDetachRequest_serving _ hs)
      fun h st hs => ?_)
    cases st with
    | none =>
      refine Prog.wp_step True.intro fun r _ => ?_
      have hs := hs.free (e := ⟨.msgDecref .msg q, r⟩) (k := .msg) rfl rfl rfl
      rw [update_msg] at hs
      refine Prog.wp_step True.intro fun r _ => ?_
      have hs := hs.free (e := ⟨.free .item p, r⟩) (k := .item) rfl rfl rfl
      rw [update_item] at hs
      exact Prog.wp_bind.2 (fetchErrorWoFlock_rule hs fun _ => rfl)
    | some state => exact rangeDetached_handled hw hs

theorem dyadFetchRangeRequestCb_handled
    (hs : Serving h none none none none none true (false, false)) :
    Prog.wp May (fun _ _ => True) (Handled cfg.workers)
      (dyadFetchRangeRequestCb cfg) h := by
  have hexit : ∀ {h}, Serving h none none none none none true (false, false) →
      Prog.wp May (fun _ _ => True) (Handled cfg.workers)
        (fetchErrorWoFlock.bind fun _ => .pure none) h :=
    fun hs => Prog.wp_bind.2 (fetchErrorWoFlock_rule hs fun _ => rfl)
  refine Prog.wp_step True.intro fun streaming _ => ?_
  have hs := hs.skip (e := ⟨.msgIsStreaming, streaming⟩) rfl rfl
  split
  · refine Prog.wp_step True.intro fun userid _ => ?_
    have hs := hs.skip (e := ⟨.msgGetUserid, userid⟩) rfl rfl
    split
    · split
      · exact ⟨True.intro, fun r => r.elim⟩
      · refine Prog.wp_step True.intro fun range _ => ?_
        have hs := hs.skip (e := ⟨.rpcUnpackRange, range⟩) rfl rfl
        cases range with
        | none => exact hexit hs
        | some range =>
          refine Prog.wp_step True.intro fun rc _ => ?_
          have hs := hs.skip (e := ⟨.rpcRespond, rc⟩) rfl rfl
          split
          · exact hexit hs
          · split
            · next hw => exact rangeEnqueue_handled hw hs
            · next hw =>
              refine Prog.wp_bind.2 (Prog.wp_imp (rangeSync_rule hs)
                fun h _ hr => ?_)
              rw [Bool.eq_false_of_not_eq_true hw]
              exact hr
    · exact hexit hs
  · exact hexit hs

end

end

/-- Serving a request keeps the balance exactly if the workers did it, no
buffer was obtained, or the buffer was sent. -/
theorem balanced_iff (req : Request) (h : History)
    (hp : Prog.Path May (serve req) h (.pure ())) :
    Balanced h ↔
      threaded req = true ∨ h.any gotBuffer = false ∨ h.any sent = true := by
  suffices hw : Prog.wp May (fun _ _ => True)
      (fun h _ => BufferRule (threaded req) h) (serve req) [] from hp.wp hw
  have hs : Serving [] none none none none none true (false, false) := by
    unfold Serving
    rw [serviceVars_none]
    exact At.nil
  cases req with
  | whole ucxBuild => exact dyadFetchRequestCb_rule ucxBuild hs
  | range cfg =>
    refine Prog.wp_bind.2 (Prog.wp_imp (dyadFetchRangeRequestCb_handled hs)
      fun h item hi => ?_)
    cases item with
    | none => exact hi
    | some item =>
      obtain ⟨hw, hc⟩ := hi
      rw [show threaded (.range cfg) = true from hw]
      exact Prog.wp_bind.2 (Prog.wp_imp (dyadFetchWorkerProcess_carried hc)
        fun h item hc => dyadFetchComplete_rule hc)

/-- A range served by a worker. -/
theorem balanced_threaded :
    ∃ h, Prog.Path May
        (serve (.range ⟨Ctx.consumer, true, false⟩)) h (.pure ()) ∧
      h.any gotBuffer = true ∧ Balanced h := by
  have hp := path_of_granting (fun _ => false) 4
    (serve (.range ⟨Ctx.consumer, true, false⟩)) rfl
  exact ⟨_, hp, rfl, (balanced_iff _ _ hp).2 (Or.inl rfl)⟩

/-- The file is empty, and no call fails: the buffer stays. -/
theorem empty_file_keeps_buffer :
    ∃ h, Prog.Path May (serve (.whole false)) h (.pure ()) ∧
      h.any gotBuffer = true ∧ ¬ Balanced h := by
  have hp := path_of_granting (fun _ => false) 0 (serve (.whole false)) rfl
  refine ⟨_, hp, rfl, fun hb => hb.settled.2 ⟨.inbuf, 7⟩ ⟨?_, Or.inl rfl⟩⟩
  exact nofun

end Dyad.Resources
