import Dyad.Proofs.PoolSafe

/-!
# What stopping the pool leaves unanswered

`dyad_fetch_pool_stop` runs on the reactor thread. It joins the workers, who
empty the work queue into the completion queue before they leave, and then
takes down the watcher, which is the only one that empties the completion
queue and could not have run meanwhile. So no request is answered between the
call and its return: every request is answered when stop returns exactly when
nothing was on its way when it was called.
-/

namespace Dyad

open Conc Posix

/-- The reactor is in `dyad_fetch_pool_stop`, or through with it. -/
def Reactor.stopping : Reactor → Bool
  | .joining _ => true
  | .stopped => true
  | _ => false

/-- Every accepted item has been answered and destroyed, once. -/
def Answered (s : Pool) : Prop :=
  ∀ i, i < s.accepted → (s.responses i).length = 1 ∧ s.destroyed i = 1

/-- What stopping the pool promises once it has returned. -/
def StopAnswers (s : Pool) : Prop :=
  s.reactor = .stopped →
    Answered s ∧ s.work = Fifo.empty ∧ s.completion = Fifo.empty

variable {cfg : PoolConfig} {s s' : Pool}

theorem look_reactor (w : Nat) : (s.look w).reactor = s.reactor := by
  rw [Pool.look]
  split
  · rfl
  · split <;> rfl

theorem look_record (w : Nat) : (s.look w).accepted = s.accepted ∧
    (s.look w).responses = s.responses ∧
      (s.look w).destroyed = s.destroyed := by
  rw [Pool.look]
  split
  · exact ⟨rfl, rfl, rfl⟩
  · split <;> exact ⟨rfl, rfl, rfl⟩

/-- A step that ends inside stop began there or is the call of it, and answers
nothing. -/
theorem step_stopping {l : PoolLabel} (hs : s.step cfg l = some s')
    (hr : s'.reactor.stopping = true) :
    (s.reactor.stopping = true ∨ l = .stop) ∧ s'.accepted = s.accepted ∧
      s'.responses = s.responses ∧ s'.destroyed = s.destroyed := by
  have hwrite : ∀ {w x}, s.write cfg w x = some s' →
      s'.reactor = s.reactor ∧ s'.accepted = s.accepted ∧
        s'.responses = s.responses ∧ s'.destroyed = s.destroyed := by
    intro w x h
    cases x with
    | ok =>
      rw [Pool.write, Option.ite_none_right_eq_some] at h
      obtain rfl := Option.some.inj h.2
      exact ⟨rfl, rfl, rfl, rfl⟩
    | fail e =>
      rw [Pool.write] at h
      split at h
      · obtain rfl := Option.some.inj h
        exact ⟨rfl, rfl, rfl, rfl⟩
      · rw [Option.ite_none_right_eq_some] at h
        obtain rfl := Option.some.inj h.2
        exact ⟨rfl, rfl, rfl, rfl⟩
    | short n => exact absurd h (by simp [Pool.write])
  cases l with
  | enqueue item o =>
    simp only [Pool.step, Option.ite_none_right_eq_some] at hs
    have hidle : s'.reactor = .idle := by
      rw [← hs.1.1]
      cases o with
      | none =>
        have := hs.2
        rw [Pool.signal, Option.ite_none_right_eq_some] at this
        rw [← Option.some.inj this.2]
        rfl
      | some w =>
        have := hs.2
        rw [Pool.signal, Option.ite_none_right_eq_some] at this
        rw [← Option.some.inj this.2]
        rfl
    rw [hidle] at hr
    exact absurd hr (by decide)
  | wakeUp w =>
    simp only [Pool.step, Option.ite_none_right_eq_some] at hs
    obtain rfl := Option.some.inj hs.2
    exact ⟨Or.inl hr, rfl, rfl, rfl⟩
  | look w =>
    simp only [Pool.step, Option.ite_none_right_eq_some] at hs
    obtain rfl := Option.some.inj hs.2
    rw [look_reactor] at hr
    exact ⟨Or.inl hr, look_record w⟩
  | process w item =>
    simp only [Pool.step] at hs
    split at hs
    · obtain rfl := Option.some.inj hs
      exact ⟨Or.inl hr, rfl, rfl, rfl⟩
    · exact absurd hs (by simp)
  | push w =>
    simp only [Pool.step] at hs
    split at hs
    · obtain rfl := Option.some.inj hs
      exact ⟨Or.inl hr, rfl, rfl, rfl⟩
    · exact absurd hs (by simp)
  | write w x =>
    simp only [Pool.step, Option.ite_none_right_eq_some] at hs
    obtain ⟨hreactor, hrecord⟩ := hwrite hs.2
    rw [hreactor] at hr
    exact ⟨Or.inl hr, hrecord⟩
  | callback =>
    simp only [Pool.step, Option.ite_none_right_eq_some] at hs
    obtain rfl := Option.some.inj hs.2
    exact absurd (show Reactor.draining.stopping = true from hr) (by decide)
  | read x =>
    simp only [Pool.step, Option.ite_none_right_eq_some] at hs
    obtain ⟨hdrain, hs⟩ := hs
    cases x with
    | ok =>
      rw [Pool.read] at hs
      split at hs
      · obtain rfl := Option.some.inj hs
        exact absurd (show Reactor.taking.stopping = true from hr) (by decide)
      · obtain rfl := Option.some.inj hs
        exact absurd (hdrain ▸ hr : Reactor.draining.stopping = true)
          (by decide)
    | fail e =>
      rw [Pool.read, Option.ite_none_right_eq_some] at hs
      obtain rfl := Option.some.inj hs.2
      exact absurd (show Reactor.taking.stopping = true from hr) (by decide)
    | short n => exact absurd hs (by simp [Pool.read])
  | take =>
    simp only [Pool.step, Option.ite_none_right_eq_some] at hs
    obtain rfl := Option.some.inj hs.2
    exact absurd (show Reactor.stopping (.completing s.completion.head) = true
      from hr) (by simp [Reactor.stopping])
  | complete =>
    simp only [Pool.step] at hs
    split at hs
    · next i _ =>
      obtain rfl := Option.some.inj hs
      exact absurd (show Reactor.stopping (.completing (s.next i)) = true
        from hr) (by simp [Reactor.stopping])
    · obtain rfl := Option.some.inj hs
      exact absurd (show Reactor.idle.stopping = true from hr) (by decide)
    · exact absurd hs (by simp)
  | stop =>
    simp only [Pool.step, Option.ite_none_right_eq_some] at hs
    obtain rfl := Option.some.inj hs.2
    refine ⟨Or.inr rfl, ?_⟩
    rw [Pool.stop]
    split <;> exact ⟨rfl, rfl, rfl⟩
  | join =>
    simp only [Pool.step] at hs
    split at hs
    · next k hk =>
      have hjoin : s.reactor.stopping = true := by
        rw [hk]
        rfl
      split at hs
      · rw [Option.ite_none_right_eq_some] at hs
        obtain rfl := Option.some.inj hs.2
        exact ⟨Or.inl hjoin, rfl, rfl, rfl⟩
      · obtain rfl := Option.some.inj hs
        exact ⟨Or.inl hjoin, rfl, rfl, rfl⟩
    · exact absurd hs (by simp)

/-- Nothing is on its way: both queues are empty and no worker has an item. -/
def Quiet (s : Pool) : Prop :=
  s.work.head = none ∧ s.completion.head = none ∧
    ∀ w, (s.worker w).item = none

/-- The runs in which stop is called only when nothing is on its way. -/
def quietStop (s : Pool) (l : PoolLabel) : Prop :=
  l = .stop → Quiet s

theorem Answered.of_record (h : Answered s) (ha : s'.accepted = s.accepted)
    (hr : s'.responses = s.responses) (hd : s'.destroyed = s.destroyed) :
    Answered s' := by
  intro i hi
  rw [ha] at hi
  rw [hr, hd]
  exact h i hi

/-- Once every item has been answered, both queues are empty and no worker has
an item. -/
theorem Placed.nothing_on_its_way {place : Nat → Option Place}
    {wl cl bl : List Nat} (hp : Placed place wl cl bl s) (ha : Answered s) :
    wl = [] ∧ cl = [] ∧ ∀ w, (s.worker w).item = none := by
  have hfinished : ∀ i p, place i = some p → p = .finished := by
    intro i p hpl
    have hi : i < s.accepted := (hp.accepted i).1 (by rw [hpl]; rfl)
    have hone := (ha i hi).2
    rw [hp.destroyed] at hone
    split at hone
    · next hf =>
      rw [hpl] at hf
      exact Option.some.inj hf
    · exact absurd hone (by decide)
  refine ⟨?_, ?_, fun w => ?_⟩
  · exact List.eq_nil_iff_forall_not_mem.2 fun i hi =>
      absurd (hfinished i _ ((hp.inWork i).1 hi)) (by decide)
  · exact List.eq_nil_iff_forall_not_mem.2 fun i hi =>
      absurd (hfinished i _ ((hp.inCompletion i).1 hi)) (by decide)
  · exact Option.eq_none_iff_forall_ne_some.2 fun i hi =>
      absurd (hfinished i _ ((hp.inWorker w i).1 hi)) (by simp)

/-- Between callbacks, what is not on its way has been answered. -/
theorem quiet_iff_answered (h : PoolInv s) (hidle : s.reactor = .idle) :
    Quiet s ↔ Answered s := by
  obtain ⟨⟨place, wl, cl, bl, hp⟩, -⟩ := h
  constructor
  · intro ⟨hwork, hcompletion, hworker⟩ i hi
    obtain ⟨p, hpl⟩ := Option.isSome_iff_exists.1 ((hp.accepted i).2 hi)
    have hfinished : place i = some .finished := by
      cases p with
      | work =>
        have hmem := (hp.inWork i).2 hpl
        rw [hp.work.head_eq_none hwork] at hmem
        exact absurd hmem List.not_mem_nil
      | worker w =>
        have hitem := (hp.inWorker w i).2 hpl
        rw [hworker w] at hitem
        exact absurd hitem (by simp)
      | completion =>
        have hmem := (hp.inCompletion i).2 hpl
        rw [hp.completion.head_eq_none hcompletion] at hmem
        exact absurd hmem List.not_mem_nil
      | batch =>
        have hmem := (hp.inBatch i).2 hpl
        have hbatch := hp.batch
        rw [hidle] at hbatch
        rw [hbatch.unique (show Chain s.next none [] from rfl)] at hmem
        exact absurd hmem List.not_mem_nil
      | finished => exact hpl
    rw [hp.answered, hp.destroyed, if_pos hfinished]
    exact ⟨rfl, rfl⟩
  · intro ha
    obtain ⟨rfl, rfl, hworker⟩ := hp.nothing_on_its_way ha
    exact ⟨hp.work.chain, hp.completion.chain, hworker⟩

theorem stopping_answered (h : (pool cfg).Reach quietStop s)
    (hr : s.reactor.stopping = true) : Answered s := by
  suffices PoolInv s ∧ (s.reactor.stopping = true → Answered s) from this.2 hr
  refine h.invariant
    (P := fun s => PoolInv s ∧ (s.reactor.stopping = true → Answered s))
    (fun s (hs : PoolStarted s) => ⟨hs.inv, fun hr => ?_⟩)
    (fun s l s' ih hok hn => ⟨ih.1.step hn, fun hr => ?_⟩)
  · rw [hs.reactor] at hr
    exact absurd hr (by decide)
  · obtain ⟨hbefore, ha, hresp, hdest⟩ := step_stopping hn hr
    have hanswered : Answered s := by
      rcases hbefore with hbefore | rfl
      · exact ih.2 hbefore
      · have hidle : s.reactor = .idle :=
          (Option.ite_none_right_eq_some.1 hn).1
        exact (quiet_iff_answered ih.1 hidle).1 (hok rfl)
    exact hanswered.of_record ha hresp hdest

/-- Where stop is called with nothing on its way, every item has been answered
and destroyed once when it has returned, and both queues are empty. -/
theorem stop_answers (h : (pool cfg).Reach quietStop s) :
    StopAnswers s := by
  intro hr
  have ha := stopping_answered h (by rw [hr]; rfl)
  obtain ⟨⟨place, wl, cl, bl, hp⟩, -⟩ := pool_inv h
  obtain ⟨rfl, rfl, -⟩ := hp.nothing_on_its_way ha
  exact ⟨ha, hp.work.eq_empty, hp.completion.eq_empty⟩

/-! ## Two runs of one request -/

/-- The watcher runs after the worker. -/
def answersOne : List PoolLabel :=
  finishesOne ++ [.callback, .read .ok, .read .ok, .take, .complete, .complete]

/-- Where that leads. -/
def oneAnswered : Pool :=
  ((pool oneWorker).replay startedPool answersOne).getD startedPool

/-- Stop is called, and joins the worker. -/
def stops : List PoolLabel := [.stop, .look 0, .join, .join]

/-- A label other than the call of stop. -/
def notStop (_ : Pool) : PoolLabel → Bool
  | .stop => false
  | _ => true

theorem quietStop_of_notStop (s : Pool) (l : PoolLabel)
    (h : notStop s l = true) : quietStop s l := by
  rintro rfl
  exact absurd h (by simp [notStop])

theorem quiet_oneAnswered : Quiet oneAnswered := by
  refine ⟨by decide, by decide, fun w => ?_⟩
  cases w with
  | zero => rfl
  | succ w => rfl

theorem stop_answers_oneAnswered : ∃ s,
    (pool oneWorker).replay oneAnswered stops = some s ∧
      s.reactor = .stopped ∧ s.accepted = 1 ∧ StopAnswers s := by
  refine ⟨_, rfl, rfl, rfl, @stop_answers oneWorker _ ?_⟩
  have hreach : (pool oneWorker).Reach quietStop oneAnswered :=
    Lts.Reach.of_replay poolStarted_startedPool quietStop_of_notStop
      (by decide) (by decide)
  refine hreach.run ?_
  have hstop : (pool oneWorker).Run quietStop oneAnswered
      (oneAnswered.stop oneWorker) :=
    .step .refl (fun _ => quiet_oneAnswered) (l := .stop) rfl
  exact hstop.trans (@Lts.Run.of_replay _ _ _ _ _ _ stops.tail
    (Lts.meets_of_checks quietStop_of_notStop (by decide)) rfl)

/-- Stop is called before the watcher has run. -/
def stopsAfterWorker : Pool :=
  ((pool oneWorker).replay startedPool (finishesOne ++ stops)).getD startedPool

theorem stop_strands_finished :
    (pool oneWorker).Reach (fun _ _ => True) stopsAfterWorker ∧
      ¬ StopAnswers stopsAfterWorker := by
  refine ⟨Lts.Reach.of_replay (φ := fun _ _ => true) poolStarted_startedPool
    (fun _ _ _ => True.intro) (by decide) (by decide), fun h => ?_⟩
  have hempty := (h (by decide)).2.2
  exact absurd (congrArg Fifo.head hempty) (by decide)

end Dyad
