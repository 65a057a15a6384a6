import Dyad.Proofs.RequestEnsure

/-!
# The terminal response

Every path of a request ends its stream once. What is left to say is the
errno, and whether it is `ENODATA` exactly when the file went out.

An exit comes after one of three things: the request failed and owes the
client an errno (`Owes`), the payload was sent (`Sent`), or a detached send was
lost and nobody looked (`Lost`). For each, the response settles whether the
request has been answered as expected, and under which condition
(`Settled`). Undefined behaviour is no exit, and comes after a history that
leads there. The rest is to follow the handlers, the worker and the completion
from `At` to one of the three.
-/

namespace Dyad.Request

open Conc Posix

/-- Nothing undefined was done, and the request is answered as expected if and
only if nothing happened to it that its exits do not tell. -/
structure Settled (req : Request) (h : ServiceHistory) : Prop where
  legal : req.Legal h
  answered : req.Answered h (.pure ()) ↔ req.Untroubled h

/-- Every errno that no call had set, and that is used, is one to respond
with. -/
def ErrnoKept (h : ServiceHistory) : Prop :=
  ∀ x ∈ stale h, x.1 ≠ Errno.ENODATA ∧ (x.1 = 0 → x.2 = true)

/-- Most calls lead to nothing undefined. -/
theorem Legal.cons {req : Request} {h : ServiceHistory} (hl : req.Legal h)
    {c : Call} {r : c.Res} (hc : c.harmless = true) :
    req.Legal (⟨c, r⟩ :: h) :=
  @Legal.step req h hl ⟨none, Bytes.empty, rangeAsked h, false, mutexTurns h⟩
    rfl rfl c r (permits_of_harmless hc r)

theorem At.calm {req : Request} {o : Seen} {h : ServiceHistory}
    (ha : At req o h) {c : Call} {r : c.Res} (hc : c.calm = true)
    (hs : Sane h c r) : At req (o.after c r) (⟨c, r⟩ :: h) := by
  obtain ⟨hplain, hharmless⟩ := (Bool.and_eq_true _ _).mp hc
  exact ha.step hplain (permits_of_harmless hharmless r) hs

/-- The request has failed and is to respond with `e`. -/
structure Owes (req : Request) (e : Errno) (h : ServiceHistory) : Prop where
  legal : req.Legal h
  unanswered : h.filterMap terminal = []
  unsent : h.filterMap handedOver = []
  noticed : h.any sendLost = true → req.sendDetachedIsThreadSafe = true
  errno : ErrnoKept h ↔ e ≠ 0 ∧ e ≠ Errno.ENODATA

/-- The payload has been sent. -/
structure Sent (req : Request) (h : ServiceHistory) : Prop where
  legal : req.Legal h
  unanswered : h.filterMap terminal = []
  unlost : h.any sendLost = false
  fresh : stale h = []
  handed : ∃ payload, h.filterMap handedOver = [payload] ∧
    (sizeSeen h ≠ none → req.payload h = some payload)

/-- A detached send has failed, and not on the worker. -/
structure Lost (req : Request) (h : ServiceHistory) : Prop where
  legal : req.Legal h
  unanswered : h.filterMap terminal = []
  unsent : h.filterMap handedOver = []
  lost : h.any sendLost = true
  unnoticed : req.sendDetachedIsThreadSafe = false

section Responses

variable {req : Request} {h : ServiceHistory} {e : Errno} {u : Unit}

/-- The response that is owed answers the request. -/
theorem Owes.respond (ho : Owes req e h) :
    Settled req (⟨.respondError e, u⟩ :: h) := by
  have hterm : (⟨.respondError e, u⟩ :: h).filterMap terminal = [e] := by
    show e :: h.filterMap terminal = [e]
    rw [ho.unanswered]
  have hunsent : ¬ req.HandedOver (⟨.respondError e, u⟩ :: h) := by
    rintro ⟨p, hp, -⟩
    rw [List.filterMap_cons_none rfl, ho.unsent] at hp
    exact absurd hp (by simp)
  refine ⟨ho.legal.cons rfl, ?_, ?_⟩
  · rintro ⟨-, e', he', hne, hiff⟩
    rw [hterm] at he'
    obtain rfl := List.head_eq_of_cons_eq he'
    have hnd : e ≠ Errno.ENODATA := fun hn => hunsent (hiff.1 hn)
    refine ⟨ho.legal.cons rfl, ho.errno.2 ⟨hne, hnd⟩, ho.noticed,
      fun hs => ?_⟩
    rw [List.filterMap_cons_none rfl, ho.unsent] at hs
    exact absurd rfl hs
  · rintro ⟨-, hk, -, -⟩
    obtain ⟨hne, hnd⟩ := ho.errno.1 hk
    exact ⟨rfl, e, hterm, hne,
      fun hn => absurd hn hnd, fun hs => absurd hs hunsent⟩

/-- After a send, `ENODATA` answers the request if the file's size was
known. -/
theorem Sent.respond (hs : Sent req h) :
    Settled req (⟨.respondError Errno.ENODATA, u⟩ :: h) := by
  obtain ⟨payload, hhanded, hfull⟩ := hs.handed
  have hterm : (⟨.respondError Errno.ENODATA, u⟩ :: h).filterMap terminal =
      [Errno.ENODATA] := by
    show Errno.ENODATA :: h.filterMap terminal = [Errno.ENODATA]
    rw [hs.unanswered]
  have hsent : (⟨.respondError Errno.ENODATA, u⟩ :: h).filterMap handedOver =
      [payload] := by
    rw [List.filterMap_cons_none rfl, hhanded]
  refine ⟨hs.legal.cons rfl, ?_, ?_⟩
  · rintro ⟨-, e, he, -, hiff⟩
    rw [hterm] at he
    obtain rfl := List.head_eq_of_cons_eq he
    obtain ⟨p, -, hp⟩ := hiff.1 rfl
    refine ⟨hs.legal.cons rfl, fun x hx => ?_, fun hl => ?_, fun _ hn => ?_⟩
    · rw [show stale (⟨.respondError Errno.ENODATA, u⟩ :: h) = [] from
        hs.fresh] at hx
      exact absurd hx (by simp)
    · rw [show (⟨.respondError Errno.ENODATA, u⟩ :: h).any sendLost = false from
        hs.unlost] at hl
      exact absurd hl (by simp)
    · have hn : sizeSeen h = none := hn
      have hp : req.payload h = some p := hp
      cases req <;> simp [Request.payload, hn] at hp
  · rintro ⟨-, -, -, hsize⟩
    have hsize := hsize (by rw [hsent]; simp)
    refine ⟨rfl, Errno.ENODATA, hterm, by decide, fun _ => ?_, fun _ => rfl⟩
    exact ⟨payload, by rw [hsent]; simp, hfull hsize⟩

/-- Nothing answers a request whose payload was lost. -/
theorem Lost.respond (hl : Lost req h) :
    Settled req (⟨.respondError Errno.ENODATA, u⟩ :: h) := by
  refine ⟨hl.legal.cons rfl, ?_, ?_⟩
  · rintro ⟨-, e, he, -, hiff⟩
    have he : Errno.ENODATA :: h.filterMap terminal = [e] := he
    rw [hl.unanswered] at he
    obtain rfl := List.head_eq_of_cons_eq he
    obtain ⟨p, hp, -⟩ := hiff.1 rfl
    rw [List.filterMap_cons_none rfl, hl.unsent] at hp
    exact absurd hp (by simp)
  · rintro ⟨-, -, hts, -⟩
    exact absurd (hts hl.lost) (by simp [hl.unnoticed])

end Responses

/-! ## Exits -/

section Exits

variable {α : Type} {req : Request} {o : Seen} {h : ServiceHistory} {e : Errno}

/-- An errno that was chosen is owed. -/
theorem At.owes (ha : At req o h) (he : e ≠ 0 ∧ e ≠ Errno.ENODATA) :
    Owes req e h where
  legal := ha.legal
  unanswered := ha.unanswered
  unsent := ha.unsent
  noticed hl := absurd (ha.unlost.symm.trans hl) (by simp)
  errno := by
    refine iff_of_true (fun x hx => ?_) he
    rw [ha.fresh] at hx
    exact absurd hx (by simp)

/-- An errno that was set and then read is owed. -/
theorem At.owes_set (ha : At req o h) {e₀ : Errno} (hp : pinned h = some e₀)
    (hs : Sane h .errno e) : Owes req e (⟨.errno, e⟩ :: h) where
  legal := ha.legal.cons rfl
  unanswered := ha.unanswered
  unsent := ha.unsent
  noticed hl := absurd (ha.unlost.symm.trans hl) (by simp)
  errno := by
    have hstale : stale (⟨.errno, e⟩ :: h) = [] := by
      rw [stale, hp, if_neg (by simp), ha.fresh]
    have he : e = e₀ := hs.2 e₀ hp
    refine iff_of_true (fun x hx => ?_) (he ▸ ha.errno e₀ hp)
    rw [hstale] at hx
    exact absurd hx (by simp)

/-- An errno that nothing had set is read, and `e'` is owed for it. -/
theorem At.owes_unset (ha : At req o h) (hp : pinned h = none) {e' : Errno}
    (he : (e ≠ Errno.ENODATA ∧ (e = 0 → o.detached = true)) ↔
      e' ≠ 0 ∧ e' ≠ Errno.ENODATA) :
    Owes req e' (⟨.errno, e⟩ :: h) where
  legal := ha.legal.cons rfl
  unanswered := ha.unanswered
  unsent := ha.unsent
  noticed hl := absurd (ha.unlost.symm.trans hl) (by simp)
  errno := by
    have hstale : stale (⟨.errno, e⟩ :: h) = [(e, o.detached)] := by
      rw [stale, hp, if_pos rfl, ha.fresh, ha.detached]
    rw [ErrnoKept, hstale]
    simp only [List.mem_singleton, forall_eq]
    exact he

/-- A calm call leaves what is owed. -/
theorem Owes.step (ho : Owes req e h) {c : Call} {r : c.Res}
    (hc : c.calm = true) : Owes req e (⟨c, r⟩ :: h) := by
  obtain ⟨hc, hharmless⟩ := (Bool.and_eq_true _ _).mp hc
  have hl := @Legal.cons req h ho.legal c r hharmless
  obtain ⟨-, h1, h2, h3, h4⟩ := ho
  cases c with
  | respondError e => exact absurd hc (by simp [Call.plain])
  | send payload => exact absurd hc (by simp [Call.plain])
  | rpcSendDetached payload => exact absurd hc (by simp [Call.plain])
  | errno => exact absurd hc (by simp [Call.plain])
  | setErrno e => exact absurd hc (by simp [Call.plain])
  | _ => exact ⟨hl, h1, h2, h3, h4⟩

/-- The payload that `o` promises. -/
def Full (req : Request) (o : Seen) (payload : Bytes Byte) : Prop :=
  ∀ h, At req o h → sizeSeen h ≠ none → req.payload h = some payload

theorem At.sent (ha : At req o h) {payload : Bytes Byte} (hf : Full req o payload)
    {u : Unit} : Sent req (⟨.send payload, .ok u⟩ :: h) where
  legal := ha.legal.cons rfl
  unanswered := ha.unanswered
  unlost := ha.unlost
  fresh := ha.fresh
  handed := ⟨payload, congrArg (payload :: ·) ha.unsent,
    fun hsize => by cases req <;> exact hf h ha hsize⟩

theorem At.sentDetached (ha : At req o h) {payload : Bytes Byte}
    (hf : Full req o payload) {u : Unit} :
    Sent req (⟨.rpcSendDetached payload, .ok u⟩ :: h) where
  legal := ha.legal.cons rfl
  unanswered := ha.unanswered
  unlost := ha.unlost
  fresh := ha.fresh
  handed := ⟨payload, congrArg (payload :: ·) ha.unsent,
    fun hsize => by cases req <;> exact hf h ha hsize⟩

theorem At.lost (ha : At req o h) {payload : Bytes Byte} {rc : Rc}
    (hts : req.sendDetachedIsThreadSafe = false) :
    Lost req (⟨.rpcSendDetached payload, .error rc⟩ :: h) where
  legal := ha.legal.cons rfl
  unanswered := ha.unanswered
  unsent := ha.unsent
  lost := rfl
  unnoticed := hts

/-- A send on the worker that failed is owed an errno. -/
theorem At.told (ha : At req o h) {payload : Bytes Byte} {rc : Rc}
    (hts : req.sendDetachedIsThreadSafe = true)
    (he : e ≠ 0 ∧ e ≠ Errno.ENODATA) :
    Owes req e (⟨.rpcSendDetached payload, .error rc⟩ :: h) where
  legal := ha.legal.cons rfl
  unanswered := ha.unanswered
  unsent := ha.unsent
  noticed _ := hts
  errno := by
    refine iff_of_true (fun x hx => ?_) he
    have hx : x ∈ stale h := hx
    rw [ha.fresh] at hx
    exact absurd hx (by simp)

/-- A send that failed sent nothing. -/
theorem At.unsend (ha : At req o h) {payload : Bytes Byte} {rc : Rc} :
    At req o (⟨.send payload, .error rc⟩ :: h) where
  unanswered := ha.unanswered
  unsent := ha.unsent
  unlost := ha.unlost
  fresh := ha.fresh
  errno e he := absurd he (by simp [pinned, failedWith, Call.leavesErrno])
  size := ha.size
  data := ha.data
  asked := ha.asked
  detached := ha.detached
  turns := ha.turns
  legal := ha.legal.cons rfl

/-! ### The exits of the handlers -/

/-- Where `p` ends, the request is settled. -/
abbrev Ends (req : Request) (o : Seen) (p : Program α) : Prop :=
  From req o p fun h _ => Settled req h

theorem fetchErrorWoFlock_ends (hd : o.detached = false) :
    Ends req o fetchErrorWoFlock := by
  intro h ha
  refine Prog.wp_step True.intro fun e hs => ⟨True.intro, fun _ _ => ?_⟩
  cases hp : pinned h with
  | some e₀ => exact (ha.owes_set hp hs).respond
  | none =>
    refine Owes.respond (ha.owes_unset hp ?_)
    rw [hd]
    exact ⟨fun ⟨hnd, hz⟩ => ⟨fun he => absurd (hz he) (by simp), hnd⟩,
      fun ⟨hne, hnd⟩ => ⟨hnd, fun he => absurd he hne⟩⟩

theorem fetchErrorWith_ends (he : e ≠ 0 ∧ e ≠ Errno.ENODATA) :
    Ends req o (fetchErrorWith e) := by
  intro h ha
  refine Prog.wp_step True.intro fun _ _ =>
    Prog.wp_step True.intro fun e' hs => ⟨True.intro, fun _ _ => ?_⟩
  exact ((ha.setErrno he).owes_set rfl hs).respond

theorem fetchError_ends (hd : o.detached = false) (fd : Nat) :
    Ends req o (fetchError fd) :=
  From.skip rfl (fun _ => rfl) fun _ => From.skip rfl (fun _ => rfl) fun _ =>
    fetchErrorWoFlock_ends hd

theorem fetchSend_ends {payload : Bytes Byte} (hf : Full req o payload) :
    Ends req o (fetchSend payload) := by
  refine From.skip rfl (fun _ => rfl) fun connected => ?_
  cases connected with
  | error rc => exact fetchErrorWith_ends (by decide)
  | ok u =>
    intro h ha
    refine Prog.wp_step True.intro fun sent hs => ?_
    cases sent with
    | error rc => exact fetchErrorWith_ends (by decide) _ ha.unsend
    | ok u =>
      have hsent := ha.sent hf (u := u)
      refine ⟨True.intro, fun _ _ => ⟨True.intro, fun _ _ =>
        ⟨True.intro, fun _ _ => Sent.respond ?_⟩⟩⟩
      refine ⟨(hsent.legal.cons rfl).cons rfl, hsent.unanswered,
        hsent.unlost, hsent.fresh, ?_⟩
      obtain ⟨payload, hhanded, hfull⟩ := hsent.handed
      exact ⟨payload, hhanded, by cases req <;> exact hfull⟩

end Exits

/-! ## The whole file -/

/-- What a read may have added to what was seen. -/
def Seen.with (o : Seen) (data : Bytes Byte) : Seen := { o with data }

/-- A read appends what it returns. -/
def ReadsInto (o o' : Seen) (len : Nat) (d : Option (Bytes Byte)) : Prop :=
  ∃ data, o' = o.with data ∧ ∀ d', d = some d' →
    data = o.data.append d' ∧ d'.size ≤ len

section Whole

variable {req : Request} {o : Seen}

/-- What the size of a file is known from. -/
def Sized (o o' : Seen) (size : Nat) : Prop :=
  o'.data = Bytes.empty ∧ o'.asked = o.asked ∧ o'.detached = o.detached ∧
    o'.turns = o.turns ∧
    (o'.size = some size ∨ (o'.size = none ∧ size = 0)) ∧ size < 2 ^ 63

theorem getFileSize_does (o : Seen) (fd : Nat) :
    Does req o (getFileSize fd) (Sized o) := by
  refine From.call rfl fun h size hs => ⟨permits_of_harmless rfl size, ?_⟩
  cases size with
  | error e =>
    exact Does.pure ⟨rfl, rfl, rfl, rfl, Or.inr ⟨rfl, rfl⟩, by omega⟩
  | ok size => exact Does.pure ⟨rfl, rfl, rfl, rfl, Or.inl rfl, hs.2⟩

theorem readsInto_pread {h : ServiceHistory} {fd off len : Nat}
    {d : Except Errno (Bytes Byte)} (hs : Sane h (.sys (.pread fd off len)) d) :
    ReadsInto o (o.after (.sys (.pread fd off len)) d) len d.toOption := by
  cases d with
  | error e => exact ⟨o.data, rfl, fun _ hd => nomatch hd⟩
  | ok d =>
    refine ⟨_, rfl, fun d' hd => ?_⟩
    obtain rfl := Option.some.inj hd
    exact ⟨rfl, hs.2⟩

theorem readInto_does (o : Seen) (he : o.turns % 2 = 0) (inbuf : Bool)
    (fd off len : Nat) :
    Does req o (readInto inbuf fd off len)
      (fun o' d => ReadsInto o o' len d) := by
  rw [readInto]
  split
  · refine From.call rfl fun h d hs => ⟨permits_pread he d, ?_⟩
    cases d <;> exact Does.pure (readsInto_pread hs)
  · exact From.setErrno (by decide)
      (Does.pure ⟨o.data, rfl, fun _ hd => absurd hd (by simp)⟩)

/-- What the chunked loop of the whole file has read when it ends. -/
theorem fetchReadLoop_does (inbuf : Bool) (fd fileSize fuel : Nat)
    (o : Seen) (he : o.turns % 2 = 0) :
    Does req o (fetchReadLoop inbuf fd fileSize fuel o.data)
      (fun o' d => ∃ data, o' = o.with data ∧ ∀ d', d = some d' → data = d') := by
  induction fuel generalizing o with
  | zero =>
    exact Does.pure ⟨o.data, rfl, fun d' hd => Option.some.inj hd⟩
  | succ fuel ih =>
    rw [fetchReadLoop]
    split
    · refine (readInto_does o he inbuf fd _ _).bind fun o' d hr => ?_
      obtain ⟨data, rfl, hd⟩ := hr
      cases d with
      | none => exact Does.pure ⟨data, rfl, fun _ hd => absurd hd (by simp)⟩
      | some d =>
        obtain ⟨rfl, -⟩ := hd d rfl
        dsimp only
        split
        · exact Does.pure ⟨_, rfl, fun _ hd => absurd hd (by simp)⟩
        · exact (ih (o.with (o.data.append d)) he).imp fun o' d' hd' => hd'
    · exact Does.pure ⟨o.data, rfl, fun d' hd => Option.some.inj hd⟩

theorem empty_append (d : Bytes Byte) : Bytes.empty.append d = d :=
  Bytes.splice_empty d

theorem fetchRead_does (inbuf : Bool) (fd fileSize : Nat)
    (he : o.turns % 2 = 0) (ho : o.data = Bytes.empty) :
    Does req o (fetchRead inbuf fd fileSize)
      (fun o' d => ∃ data, o' = o.with data ∧ ∀ d', d = some d' → data = d') := by
  rw [fetchRead]
  split
  · refine (readInto_does o he inbuf fd 0 fileSize).imp fun o' d hr => ?_
    obtain ⟨data, rfl, hd⟩ := hr
    refine ⟨data, rfl, fun d' hd' => ?_⟩
    rw [(hd d' hd').1, ho, empty_append]
  · have hloop := @fetchReadLoop_does req inbuf fd fileSize fileSize o he
    rwa [ho] at hloop

theorem full_whole {ucxBuild : Bool} {size : Nat}
    (hsize : o.size = some size ∨ (o.size = none ∧ size = 0))
    (hdata : o.data.size = size) :
    Full (.whole ucxBuild) o (fetchPayload ucxBuild o.data) := by
  intro h ha hseen
  rw [ha.size] at hseen
  rcases hsize with hsize | ⟨hsize, -⟩
  · simp only [Request.payload]
    rw [ha.size, hsize, ha.data]
    exact if_pos hdata
  · exact absurd hsize hseen

theorem fetchBuffered_ends (ucxBuild inbuf : Bool) (fd : Nat) {fileSize : Nat}
    {o₀ : Seen} (ho : Sized o₀ o fileSize) (hd : o₀.detached = false)
    (he : o₀.turns % 2 = 0) (hbuf : ¬ (ucxBuild ∧ inbuf = false)) :
    Ends (.whole ucxBuild) o (fetchBuffered ucxBuild inbuf fd fileSize) := by
  obtain ⟨hdata, -, hdet, hturns, hsize, -⟩ := ho
  have hdet : o.detached = false := hdet.trans hd
  rw [fetchBuffered, if_neg hbuf]
  split
  · refine (fetchRead_does inbuf fd fileSize (hturns ▸ he) hdata).bind fun o' d hr => ?_
    obtain ⟨data, rfl, hd'⟩ := hr
    cases d with
    | none => exact fetchError_ends (o := o.with data) hdet fd
    | some content =>
      obtain rfl := hd' content rfl
      dsimp only
      split
      · exact fetchError_ends (o := o.with data) hdet fd
      · next hfull =>
        refine From.skip rfl (fun r => by cases r <;> rfl) fun r => ?_
        cases r <;>
          exact From.skip rfl (fun _ => rfl) fun _ =>
            fetchSend_ends (o := o.with data)
              (full_whole hsize (not_not.1 hfull))
  · exact fetchError_ends hdet fd

/-- Without a buffer the size has nowhere to go. -/
theorem fetchGranted_ends (ucxBuild : Bool) (fd : Nat) {fileSize : Nat}
    {o₀ : Seen} (ho : Sized o₀ o fileSize) (hd : o₀.detached = false)
    (he : o₀.turns % 2 = 0) :
    Ends (.whole ucxBuild) o (do
      match ← perform (.getBuffer fileSize) with
      | .ok _ => fetchBuffered ucxBuild true fd fileSize
      | .error _ => fetchBuffered ucxBuild false fd fileSize) := by
  intro h ha
  refine Prog.wp_step True.intro fun buffer hs => ?_
  cases buffer with
  | ok u =>
    have hp : Permits (whole ucxBuild) o (.getBuffer fileSize) (.ok u) := rfl
    exact fetchBuffered_ends ucxBuild true fd ho hd he (by simp) _
      (ha.step rfl hp hs)
  | error rc =>
    cases ucxBuild with
    | true => exact ⟨faults_null rfl, fun r => r.elim⟩
    | false =>
      have hp : Permits (whole false) o (.getBuffer fileSize) (.error rc) := rfl
      exact fetchBuffered_ends false false fd ho hd he (by simp) _
        (ha.step rfl hp hs)

/-- The handler once the request is unpacked. -/
theorem fetchUnpacked_ends (ucxBuild : Bool) (hd : o.detached = false)
    (he : o.turns % 2 = 0) :
    Ends (.whole ucxBuild) o (do
      match ← perform .rpcRespond with
      | .error _ => fetchErrorWoFlock
      | .ok _ =>
        match ← sys (.open .data false false) with
        | .error _ => fetchErrorWoFlock
        | .ok fd => fetchOpened ucxBuild fd) := by
  refine From.skip rfl (fun _ => rfl) fun responded => ?_
  cases responded with
  | error rc => exact fetchErrorWoFlock_ends hd
  | ok u =>
    refine From.skip rfl (fun _ => rfl) fun opened => ?_
    cases opened with
    | error e => exact fetchErrorWoFlock_ends hd
    | ok fd =>
      refine From.skip rfl (fun _ => rfl) fun locked => ?_
      cases locked with
      | error e => exact fetchError_ends hd fd
      | ok u =>
        refine (getFileSize_does o fd).bind fun o' size hsize => ?_
        exact fetchGranted_ends ucxBuild fd hsize hd he

/-- A whole-file request is settled on every path. -/
theorem dyadFetchRequestCb_ends (ucxBuild : Bool) (hd : o.detached = false)
    (he : o.turns % 2 = 0) :
    Ends (.whole ucxBuild) o (dyadFetchRequestCb ucxBuild) := by
  refine From.skip rfl (fun _ => rfl) fun streaming => ?_
  cases streaming with
  | false => exact fetchErrorWith_ends (by decide)
  | true =>
    refine From.call rfl fun h userid _ => ?_
    cases userid with
    | error e => exact ⟨rfl, fetchErrorWoFlock_ends hd⟩
    | ok u =>
      refine ⟨rfl, fun h ha => Prog.wp_step True.intro fun unpacked hs => ?_⟩
      cases unpacked with
      | nullAddress => exact ⟨faults_null rfl, fun r => r.elim⟩
      | error rc =>
        have hp : Permits (whole ucxBuild) o .rpcUnpack (.error rc) := rfl
        exact fetchErrorWith_ends (by decide) _ (ha.step rfl hp hs)
      | ok =>
        have hp : Permits (whole ucxBuild) o .rpcUnpack .ok := rfl
        exact fetchUnpacked_ends ucxBuild hd he _ (ha.step rfl hp hs)

end Whole

/-! ## The range -/

section Range

variable {α : Type} {req : Request} {o : Seen} {cfg : RangeConfig}
  {offset length : UInt64}

theorem toSsize_bounds (x : UInt64) :
    -2 ^ 63 ≤ toSsize x ∧ toSsize x < 2 ^ 63 := by
  have hx := x.toNat_lt
  have hcases := toSsize_cases x
  omega

attribute [local irreducible] toSsize

/-- The clamped length is that of a range, or too large for a buffer. -/
theorem clampRange_bounds {size : Nat} (hs : size < 2 ^ 63) :
    -2 ^ 63 ≤ clampRange offset length size ∧
      clampRange offset length size < 2 ^ 64 := by
  have ho := toSsize_bounds offset
  have hl := toSsize_bounds length
  rw [clampRange]
  split
  · omega
  · split <;> omega

/-- A length that a buffer can have is not clamped below zero. -/
theorem clampRange_nonneg (hl : length.toNat < 2 ^ 63) (size : Nat) :
    0 ≤ clampRange offset length size := by
  rw [clampRange]
  split
  · omega
  · next ho =>
    split
    · omega
    · rw [toSsize_of_lt hl]
      omega

theorem rangePayload_eq {content : Bytes Byte} {rangeLen : Int}
    (hc : content.size = rangeLen) (hr : rangeLen < 2 ^ 64) :
    rangePayload content rangeLen = content := by
  rw [rangePayload, Int.emod_eq_of_lt (by omega) hr, ← hc, Int.toNat_natCast,
    Bytes.truncate_self]

theorem full_range {size : Nat}
    (hsize : o.size = some size ∨ (o.size = none ∧ size = 0))
    (hlt : size < 2 ^ 63) (hasked : o.asked = some (offset, length))
    (hdata : o.data.size = clampRange offset length size) :
    Full (.range cfg) o
      (rangePayload o.data (clampRange offset length size)) := by
  rw [rangePayload_eq hdata (clampRange_bounds hlt).2]
  intro h ha hseen
  rw [ha.size] at hseen
  rcases hsize with hsize | ⟨hsize, -⟩
  · simp only [Request.payload]
    rw [ha.size, hsize, ha.asked, hasked, ha.data]
    exact if_pos hdata
  · exact absurd hsize hseen

theorem preadAt_does (o : Seen) (he : o.turns % 2 = 0) (fd : Nat)
    (off : UInt64) (len : Nat) :
    Does req o (preadAt fd off len) (fun o' d => ReadsInto o o' len d) := by
  rw [preadAt]
  split
  · exact From.setErrno (by decide)
      (Does.pure ⟨o.data, rfl, fun _ hd => absurd hd (by simp)⟩)
  · refine From.call rfl fun h d hs => ⟨permits_pread he d, ?_⟩
    cases d <;> exact Does.pure (readsInto_pread hs)

/-- The chunked loop of a range reads all of it, or fails. -/
theorem rangeReadLoop_does (fd : Nat) (offset : UInt64) (rangeLen fuel : Nat)
    (o : Seen) (he : o.turns % 2 = 0) (hle : o.data.size ≤ rangeLen)
    (hfuel : rangeLen ≤ o.data.size + fuel) :
    Does req o (rangeReadLoop fd offset rangeLen fuel o.data)
      (fun o' d => ∃ data, o' = o.with data ∧
        ∀ d', d = some d' → data = d' ∧ data.size = rangeLen) := by
  induction fuel generalizing o with
  | zero =>
    exact Does.pure ⟨o.data, rfl, fun d' hd =>
      ⟨Option.some.inj hd, by omega⟩⟩
  | succ fuel ih =>
    rw [rangeReadLoop]
    split
    · refine (preadAt_does o he fd _ _).bind fun o' d hr => ?_
      obtain ⟨data, rfl, hd⟩ := hr
      cases d with
      | none => exact Does.pure ⟨data, rfl, fun _ hd => absurd hd (by simp)⟩
      | some d =>
        obtain ⟨rfl, hlen⟩ := hd d rfl
        have hsize := Bytes.size_append o.data d
        dsimp only
        split
        · exact Does.pure ⟨_, rfl, fun _ hd => absurd hd (by simp)⟩
        · refine ih (o.with (o.data.append d)) he ?_ ?_
          · show (o.data.append d).size ≤ rangeLen
            omega
          · show rangeLen ≤ (o.data.append d).size + fuel
            omega
    · exact Does.pure ⟨o.data, rfl, fun d' hd =>
        ⟨Option.some.inj hd, by omega⟩⟩

/-- As many turns as there are bytes read all of them, or fail. -/
theorem rangeReadAll_does (fd : Nat) (offset : UInt64) (rangeLen : Nat)
    (he : o.turns % 2 = 0) (ho : o.data = Bytes.empty) :
    Does req o (rangeReadLoop fd offset rangeLen rangeLen Bytes.empty)
      (fun o' d => ∃ data, o' = o.with data ∧
        ∀ d', d = some d' → data = d' ∧ data.size = rangeLen) := by
  have hloop := @rangeReadLoop_does req fd offset rangeLen rangeLen o he
    (by rw [ho, Bytes.size_empty]; omega) (by omega)
  rwa [ho] at hloop

theorem rangeRead_does (fd : Nat) (offset : UInt64) (rangeLen : Int)
    (he : o.turns % 2 = 0) (ho : o.data = Bytes.empty) :
    Does req o (rangeRead fd offset rangeLen)
      (fun o' d => ∃ data, o' = o.with data ∧ ∀ d', d = some d' →
        data = d' ∧ (rangeLen ≤ 0 → data.size = 0)) := by
  rw [rangeRead]
  split
  · split
    · refine (preadAt_does o he fd offset _).imp fun o' d hr => ?_
      obtain ⟨data, rfl, hd⟩ := hr
      refine ⟨data, rfl, fun d' hd' => ⟨?_, fun hz => by omega⟩⟩
      rw [(hd d' hd').1, ho, empty_append]
    · refine (rangeReadAll_does fd offset rangeLen.toNat he ho).imp
        fun o' d ⟨data, heq, hd⟩ => ?_
      exact ⟨data, heq, fun d' hd' => ⟨(hd d' hd').1, fun hz => by omega⟩⟩
  · refine Does.pure ⟨o.data, rfl, fun d' hd' => ?_⟩
    obtain rfl := Option.some.inj hd'
    exact ⟨ho, fun _ => by rw [ho, Bytes.size_empty]⟩

theorem rangeOpened_ends (fd : Nat) (hd : o.detached = false)
    (he : o.turns % 2 = 0) (hasked : o.asked = some (offset, length)) :
    Ends (.range cfg) o (rangeOpened fd offset length) := by
  refine From.skip rfl (fun _ => rfl) fun locked => ?_
  cases locked with
  | error e => exact fetchError_ends hd fd
  | ok u =>
    refine (getFileSize_does o fd).bind fun o' size hs => ?_
    obtain ⟨hdata, hask, hdet, hturns, hsize, hlt⟩ := hs
    have hd' : o'.detached = false := hdet.trans hd
    refine From.call rfl fun h buffer hb => ?_
    cases buffer with
    | error rc => exact ⟨rfl, fetchError_ends hd' fd⟩
    | ok u =>
      refine ⟨rfl, ?_⟩
      -- a buffer that large means the length was not negative
      have hbuf : (clampRange offset length size % 2 ^ 64).toNat < 2 ^ 63 :=
        hb.2
      have hbounds := @clampRange_bounds offset length size hlt
      refine (rangeRead_does fd offset _ (hturns ▸ he) hdata).bind fun o'' d hr => ?_
      obtain ⟨data, rfl, hd''⟩ := hr
      cases d with
      | none => exact fetchError_ends (o := o'.with data) hd' fd
      | some content =>
        obtain ⟨rfl, hzero⟩ := hd'' content rfl
        dsimp only
        split
        · exact fetchError_ends (o := o'.with data) hd' fd
        · next hfull =>
          have hfull : (data.size : Int) = clampRange offset length size := by
            omega
          refine From.skip rfl (fun _ => rfl) fun r => ?_
          cases r <;>
            exact From.skip rfl (fun _ => rfl) fun _ =>
              fetchSend_ends (o := o'.with data)
                (full_range hsize hlt (hask.trans hasked) hfull)

/-- The synchronous path, once the range cache has been seen to. -/
theorem rangeEnsured_ends (rc : Rc) (hd : o.detached = false)
    (he : o.turns % 2 = 0) (hasked : o.asked = some (offset, length)) :
    Ends (.range cfg) o (if rc.isError then
      fetchErrorWith Errno.EIO
    else do
      match ← sys (.open .data false false) with
      | .error _ => fetchErrorWoFlock
      | .ok fd => rangeOpened fd offset length) := by
  split
  · exact fetchErrorWith_ends (by decide)
  · refine From.skip rfl (fun _ => rfl) fun opened => ?_
    cases opened with
    | error e => exact fetchErrorWoFlock_ends hd
    | ok fd => exact rangeOpened_ends fd hd he hasked

theorem rangeSync_ends (hd : o.detached = false) (ht : o.turns = 0)
    (hasked : o.asked = some (offset, length)) :
    Ends (.range cfg) o (rangeSync cfg offset length) := by
  unfold rangeSync
  dsimp only
  split
  · exact (dyadRangeCacheEnsure_leaves cfg.ctx hasked ht).bind
      fun o' rc ho => rangeEnsured_ends rc (ho.detached.trans hd) ho.unlocked
        (ho.asked.trans hasked)
  · exact rangeEnsured_ends .ok hd (by rw [ht]) hasked

end Range

/-! ## The worker and the completion -/

section Worker

attribute [local irreducible] clampRange rangeReadLoop

variable {cfg : RangeConfig} {o : Seen} {h : ServiceHistory} {e : Errno}

/-- The item as the handler enqueues it. -/
structure Enqueued (cfg : RangeConfig) (o : Seen) (item : WorkItem) : Prop where
  detached : o.detached = true
  asked : o.asked = some (item.offset, item.length)
  unlocked : o.turns % 2 = 0
  length : item.length.toNat < 2 ^ 63
  threadSafe : item.sendDetachedIsThreadSafe = cfg.sendDetachedIsThreadSafe
  reqState : item.reqState = true

/-- What the completion finds: an item that failed, one whose payload the
worker has sent, or one it is to send. -/
inductive Finished (cfg : RangeConfig) (h : ServiceHistory)
    (item : WorkItem) : Prop
  | failed : item.rc.isError = true → Owes (.range cfg) item.savedErrno h →
      Finished cfg h item
  | sent : item.rc.isError = false → item.reqState = false →
      Sent (.range cfg) h → Finished cfg h item
  | ready (o : Seen) : item.rc.isError = false → item.reqState = true →
      At (.range cfg) o h →
      Full (.range cfg) o (rangePayload item.content item.rangeLen) →
      cfg.sendDetachedIsThreadSafe = false → Finished cfg h item

/-- The worker's error exit leaves an item that failed. -/
theorem workerError_finishes {item : WorkItem} (ho : Owes (.range cfg) e h) :
    Prog.wp Sane (Faults (.range cfg)) (Finished cfg) (workerError item e) h := by
  rw [workerError, dyadFetchWorkerFinish]
  split
  · have hbad : ¬ Rc.badfio.isError = false := by decide
    rw [if_neg hbad]
    exact Prog.wp_step True.intro fun _ _ => .failed rfl (ho.step rfl)
  · exact .failed rfl ho

/-- An item that was read is sent, if the worker may send, or is ready. -/
theorem dyadFetchWorkerFinish_finishes {item : WorkItem}
    (hts : item.sendDetachedIsThreadSafe = cfg.sendDetachedIsThreadSafe)
    (hreq : item.reqState = true) (hrc : item.rc = .ok)
    (hf : Full (.range cfg) o (rangePayload item.content item.rangeLen)) :
    From (.range cfg) o (dyadFetchWorkerFinish item) (Finished cfg) := by
  have hok : item.rc.isError = false := by rw [hrc]; rfl
  intro h ha
  rw [dyadFetchWorkerFinish]
  split
  · next hitem =>
    refine Prog.wp_step True.intro fun sent hs => ?_
    cases sent with
    | ok u => exact .sent hok rfl (ha.sentDetached hf)
    | error rc =>
      have he : Errno.ECOMM ≠ 0 ∧ Errno.ECOMM ≠ Errno.ENODATA := by decide
      exact .failed hs.2 (ha.told (hts.symm.trans hitem) he)
  · next hitem =>
    exact .ready o hok hreq ha hf (hts.symm.trans (Bool.not_eq_true _ ▸ hitem))

/-- The worker's error exit after a call that has set errno. -/
theorem readErrno_finishes {e₀ : Errno} (ha : At (.range cfg) o h)
    (hp : pinned h = some e₀) {f : Errno → Program WorkItem}
    (hf : ∀ e h, Owes (.range cfg) e h →
      Prog.wp Sane (Faults (.range cfg)) (Finished cfg) (f e) h) :
    Prog.wp Sane (Faults (.range cfg)) (Finished cfg)
      ((perform .errno).bind f) h :=
  Prog.wp_step True.intro fun _ hs => hf _ _ (ha.owes_set hp hs)

/-- The worker's error exit after a read that failed or came back short. -/
theorem readFailed_finishes {item : WorkItem} (hd : o.detached = true)
    (fd : Nat) :
    From (.range cfg) o (do
      let errno ← perform .errno
      let _ ← dyadReleaseFlock fd
      let _ ← sys (.close fd)
      workerError item (if errno ≠ 0 then errno else Errno.EIO))
      (Finished cfg) := by
  intro h ha
  refine Prog.wp_step True.intro fun e hs => ?_
  have howes : Owes (.range cfg) (if e ≠ 0 then e else Errno.EIO)
      (⟨.errno, e⟩ :: h) := by
    cases hp : pinned h with
    | some e₀ =>
      have he : e = e₀ := hs.2 e₀ hp
      rw [if_pos (he ▸ (ha.errno e₀ hp).1)]
      exact ha.owes_set hp hs
    | none =>
      refine ha.owes_unset hp ?_
      split
      · next hne =>
        exact ⟨fun ⟨hnd, _⟩ => ⟨hne, hnd⟩, fun ⟨_, hnd⟩ => ⟨hnd, fun _ => hd⟩⟩
      · next hz =>
        rw [not_not.1 hz]
        exact iff_of_true ⟨by decide, fun _ => hd⟩ (by decide)
  refine Prog.wp_step True.intro fun r _ => ?_
  cases r <;> exact Prog.wp_step True.intro fun _ _ =>
    workerError_finishes ((howes.step rfl).step rfl)

theorem workerOpened_finishes {item : WorkItem} (hi : Enqueued cfg o item)
    (fd : Nat) : From (.range cfg) o (workerOpened item fd) (Finished cfg) := by
  intro h ha
  refine Prog.wp_step True.intro fun locked hs => ?_
  have ha := ha.calm rfl hs
  cases locked with
  | error e =>
    exact readErrno_finishes ha rfl fun e h ho =>
      Prog.wp_step True.intro fun _ _ => workerError_finishes (ho.step rfl)
  | ok u =>
    refine (getFileSize_does o fd).bind (fun o' size hsized => ?_) _ ha
    obtain ⟨hdata, hask, hdet, hturns, hsize, hlt⟩ := hsized
    have hnonneg := @clampRange_nonneg item.offset item.length hi.length size
    refine (rangeReadAll_does fd item.offset _
      (hturns ▸ hi.unlocked) hdata).bind fun o'' d hr => ?_
    obtain ⟨data, rfl, hd⟩ := hr
    cases d with
    | none =>
      exact readFailed_finishes (o := o'.with data) (hdet.trans hi.detached) fd
    | some content =>
      obtain ⟨rfl, hlen⟩ := hd content rfl
      refine From.skip rfl (fun _ => rfl) fun r => ?_
      have hfull := @full_range (o'.with data) cfg item.offset item.length _
        hsize hlt (hask.trans hi.asked) (by show (data.size : Int) = _; omega)
      cases r <;>
        exact From.skip rfl (fun _ => rfl) fun _ =>
          dyadFetchWorkerFinish_finishes hi.threadSafe hi.reqState rfl hfull

/-- A worker, once the range cache has been seen to. -/
theorem workerEnsured_finishes {item : WorkItem} (rc : Rc)
    (hi : Enqueued cfg o item) :
    From (.range cfg) o (if rc.isError then
      workerError item Errno.EIO
    else do
      match ← sys (.open .data false false) with
      | .error _ =>
        let savedErrno ← perform .errno
        workerError item savedErrno
      | .ok fd => workerOpened item fd) (Finished cfg) := by
  intro h ha
  split
  · exact workerError_finishes (ha.owes (by decide))
  · refine Prog.wp_step True.intro fun opened hs => ?_
    have ha := ha.calm rfl hs
    cases opened with
    | error e =>
      exact readErrno_finishes ha rfl fun e h ho => workerError_finishes ho
    | ok fd => exact workerOpened_finishes hi fd _ ha

theorem dyadFetchWorkerProcess_finishes (ctx : Ctx) {item : WorkItem}
    (hi : Enqueued cfg o item) (ht : o.turns = 0) :
    From (.range cfg) o (dyadFetchWorkerProcess ctx item) (Finished cfg) := by
  unfold dyadFetchWorkerProcess
  dsimp only
  split
  · exact (dyadRangeCacheEnsure_leaves ctx hi.asked ht).bind
      fun o' rc ho => workerEnsured_finishes rc
        ⟨ho.detached.trans hi.detached, ho.asked.trans hi.asked, ho.unlocked,
          hi.length, hi.threadSafe, hi.reqState⟩
  · exact workerEnsured_finishes .ok hi

/-- The completion settles what the worker has finished. -/
theorem dyadFetchComplete_settles {item : WorkItem} (hf : Finished cfg h item) :
    Prog.wp Sane (Faults (.range cfg)) (fun h _ => Settled (.range cfg) h)
      (dyadFetchComplete item) h := by
  rw [dyadFetchComplete]
  cases hf with
  | failed hrc ho =>
    rw [if_neg (by rw [hrc]; simp)]
    split
    · exact Prog.wp_step True.intro fun _ _ =>
        ⟨True.intro, fun _ _ => (ho.step rfl).respond⟩
    · exact ⟨True.intro, fun _ _ => ho.respond⟩
  | sent hrc hreq hs =>
    rw [if_pos hrc, hreq]
    exact ⟨True.intro, fun _ _ => hs.respond⟩
  | ready o hrc hreq ha hf hts =>
    rw [if_pos hrc, hreq]
    refine Prog.wp_step True.intro fun sent _ => ?_
    cases sent with
    | ok u => exact ⟨True.intro, fun _ _ => (ha.sentDetached hf).respond⟩
    | error rc =>
      exact ⟨True.intro, fun _ _ => (@At.lost (.range cfg) o _ ha _ _ hts).respond⟩

end Worker

/-! ## The range handler -/

section Handler

variable {cfg : RangeConfig} {o : Seen}

/-- What the range handler leaves: an answer, or an item. -/
def Handled (cfg : RangeConfig) (h : ServiceHistory) : Option WorkItem → Prop
  | none => Settled (.range cfg) h
  | some item => ∃ o, At (.range cfg) o h ∧ Enqueued cfg o item ∧ o.turns = 0

/-- The handler has answered. -/
theorem Ends.handled {p : Program Unit} (hp : Ends (.range cfg) o p) :
    From (.range cfg) o (p.bind fun _ => .pure none) (Handled cfg) :=
  fun h ha => Prog.wp_bind.2 (hp h ha)

theorem rangeEnqueue_handles {offset length : UInt64} (ht : o.turns = 0)
    (hasked : o.asked = some (offset, length)) :
    From (.range cfg) o (rangeEnqueue cfg offset length) (Handled cfg) := by
  refine From.skip rfl (fun _ => rfl) fun allocated => ?_
  cases allocated with
  | false => exact (fetchErrorWith_ends (by decide)).handled
  | true =>
    refine From.call rfl fun h r _ => ⟨permits_of_harmless rfl r, ?_⟩
    cases r with
    | error rc => exact (fetchErrorWith_ends (by decide)).handled
    | ok u =>
      refine From.call rfl fun h buffer hb => ?_
      cases buffer with
      | error rc =>
        exact ⟨rfl, From.skip rfl (fun _ => rfl) fun _ =>
          (fetchErrorWith_ends (by decide)).handled⟩
      | ok u =>
        exact ⟨rfl, fun h ha => ⟨_, ha, ⟨rfl, hasked, by
          show o.turns % 2 = 0
          omega, hb.2, rfl, rfl⟩, ht⟩⟩

theorem dyadFetchRangeRequestCb_handles (hd : o.detached = false)
    (ht : o.turns = 0) :
    From (.range cfg) o (dyadFetchRangeRequestCb cfg) (Handled cfg) := by
  refine From.skip rfl (fun _ => rfl) fun streaming => ?_
  cases streaming with
  | false => exact (fetchErrorWith_ends (by decide)).handled
  | true =>
    intro h ha
    refine Prog.wp_step True.intro fun userid hs => ?_
    cases userid with
    | error e =>
      have hp : Permits (.range cfg) o .msgGetUserid (.error e) := rfl
      exact (fetchErrorWoFlock_ends hd).handled _ (ha.step rfl hp hs)
    | ok u =>
      dsimp only
      split
      · next hucx =>
        refine ⟨faults_null ?_, fun r => r.elim⟩
        exact decide_eq_true hucx
      · next hucx =>
        have hp : Permits (.range cfg) o .msgGetUserid (.ok u) :=
          decide_eq_false hucx
        refine From.call (R := Handled cfg) rfl (fun h asked _ => ⟨?_, ?_⟩) _
          (ha.step rfl hp hs)
        · exact ht
        cases asked with
        | error rc => exact (fetchErrorWith_ends (by decide)).handled
        | ok asked =>
          obtain ⟨offset, length⟩ := asked
          let o' : Seen := { o with asked := some (offset, length) }
          refine From.skip rfl (fun _ => rfl) fun responded => ?_
          cases responded with
          | error rc => exact (fetchErrorWoFlock_ends (o := o') hd).handled
          | ok u =>
            dsimp only
            split
            · exact rangeEnqueue_handles (o := o') ht rfl
            · exact (rangeSync_ends (o := o') hd ht rfl).handled

end Handler

/-! ## Every request -/

/-- A request that has seen nothing yet. -/
def Seen.nothing : Seen := ⟨none, Bytes.empty, none, false, 0⟩

theorem serve_ends (req : Request) : Ends req Seen.nothing req.serve := by
  cases req with
  | whole ucxBuild => exact dyadFetchRequestCb_ends ucxBuild rfl rfl
  | range cfg =>
    intro h ha
    refine Prog.wp_bind.2 (Prog.wp_imp
      (dyadFetchRangeRequestCb_handles rfl rfl h ha) fun h item hi => ?_)
    cases item with
    | none => exact hi
    | some item =>
      obtain ⟨o, ha, hq, ht⟩ := hi
      exact Prog.wp_bind.2 (Prog.wp_imp
        (dyadFetchWorkerProcess_finishes cfg.ctx hq ht h ha) fun _ _ hf =>
          dyadFetchComplete_settles hf)

end Dyad.Request
