import Dyad.Dtl.Ucx
import Dyad.Proofs.Unanswered

/-!
# Whose endpoint a payload goes through

Two things decide which endpoint the UCX DTL sends through: the endpoint the
handle still holds, and the endpoint the cache has under the key of the
request. The key is made of the process id alone, so two consumers on two
nodes may share it. And an endpoint that is still in the handle, because the
request before it did not get as far as `close_connection`, makes the lookup
fail, after which the insertion finds the key cached and leaves the handle as
it is.

The outline below follows one service rank. Its invariant says what the cache
holds: every endpoint was created for a request with the key it is under, and
is connected to the address that request carried. The rest is what each
request knows of the handle between `rpc_unpack` and `send`.
-/

namespace Dyad

open Conc Posix

/-! ## The calls that leave the handle alone -/

/-- Neither a transfer nor the preparation of one. -/
def Call.offDtl : Call → Bool
  | .rpcUnpack => false
  | .establishConnection => false
  | .send _ => false
  | .closeConnection => false
  | _ => true

namespace UcxService

theorem exec_offDtl {w w' : UcxService} {c : Call} {x : UcxChoice} {r : c.Res}
    (hc : c.offDtl = true) (h : w.exec c x = some (w', r)) : w' = w := by
  cases c with
  | rpcUnpack => exact absurd hc (by simp [Call.offDtl])
  | establishConnection => exact absurd hc (by simp [Call.offDtl])
  | send payload => exact absurd hc (by simp [Call.offDtl])
  | closeConnection => exact absurd hc (by simp [Call.offDtl])
  | rpcRespond => exact (Prod.mk.inj (Option.some.inj h)).1.symm
  | getBuffer size => exact (Prod.mk.inj (Option.some.inj h)).1.symm
  | returnBuffer => exact (Prod.mk.inj (Option.some.inj h)).1.symm
  | _ =>
    obtain ⟨a, -, heq⟩ := Option.map_eq_some_iff.1 h
    exact (Prod.mk.inj heq).1.symm

end UcxService

abbrev OffDtl {α : Type} (p : Program α) : Prop :=
  p.All fun c => c.offDtl = true

theorem filesOnly_offDtl {α : Type} {p : Program α}
    (h : Request.FilesOnly p) : OffDtl p :=
  h.imp fun c hc => by cases c <;> first | rfl | exact absurd hc (by simp [Call.ofFile])

theorem fetchErrorWoFlock_offDtl : OffDtl fetchErrorWoFlock :=
  .step rfl fun _ => .step rfl fun _ => True.intro

theorem fetchErrorWith_offDtl (e : Errno) : OffDtl (fetchErrorWith e) :=
  .step rfl fun _ => fetchErrorWoFlock_offDtl

theorem fetchError_offDtl (fd : Nat) : OffDtl (fetchError fd) :=
  .step rfl fun _ => .step rfl fun _ => fetchErrorWoFlock_offDtl

theorem readInto_offDtl (inbuf : Bool) (fd off len : Nat) :
    OffDtl (readInto inbuf fd off len) := by
  cases inbuf with
  | true => exact .step rfl fun r => by cases r <;> exact True.intro
  | false => exact .step rfl fun _ => True.intro

theorem fetchReadLoop_offDtl (inbuf : Bool) (fd fileSize fuel : Nat)
    (content : Bytes Byte) :
    OffDtl (fetchReadLoop inbuf fd fileSize fuel content) := by
  induction fuel generalizing content with
  | zero => exact True.intro
  | succ fuel ih =>
    rw [fetchReadLoop]
    split
    · refine .bind (readInto_offDtl inbuf fd _ _) fun r => ?_
      match r with
      | none => exact True.intro
      | some d =>
        dsimp only
        split
        · exact True.intro
        · exact ih (content.append d)
    · exact True.intro

theorem fetchRead_offDtl (inbuf : Bool) (fd fileSize : Nat) :
    OffDtl (fetchRead inbuf fd fileSize) := by
  unfold fetchRead
  split
  · exact readInto_offDtl inbuf fd 0 fileSize
  · exact fetchReadLoop_offDtl inbuf fd fileSize fileSize Bytes.empty

/-! ## The outline -/

/-- Two requests that carry the same worker address, as far as they carry
one. -/
def UcxRequest.SameAddress (r r' : UcxRequest) : Prop :=
  ∀ a b, r.address = some a → r'.address = some b → a = b

/-- The key tells the process ids apart. -/
theorem UcxRequest.pid_of_key {r r' : UcxRequest} (h : r.key = r'.key) :
    r.pidCons = r'.pidCons := by
  have hkey : ∀ q : UcxRequest, q.key.toNat = q.pidCons.toNat * 2 ^ 32 := by
    intro q
    have hlt := q.pidCons.isLt
    show (q.pidCons.setWidth 64 <<< 32 ||| 0#64).toNat = _
    simp only [BitVec.or_zero, BitVec.toNat_shiftLeft,
      BitVec.toNat_setWidth, Nat.shiftLeft_eq]
    omega
  have hnat := congrArg BitVec.toNat h
  rw [hkey, hkey] at hnat
  exact BitVec.eq_of_toNat_eq (by omega)

/-- No endpoint is left over in the handle of a rank whose cache knows the
key of the request. -/
def UcxService.Untangled (w : UcxService) : Prop :=
  w.handle.ep = none ∨ w.handle.epCache w.handle.consumerConnKey = none

/-- What holds of a service rank: the requests it took up are `known`, its
cached and its found endpoints were created for requests with their keys, and,
on the runs that `strict` is about, payloads went where their requests
came from. -/
structure UcxService.Sound (known : UcxRequest → Prop) (strict : Prop)
    (w : UcxService) : Prop where
  sending : w.handle.commMode = .send
  takenUp : ∀ r ∈ w.served, known r
  cached : ∀ key ep, w.handle.epCache key = some ep →
    ep.createdFor ∈ w.served ∧ ep.createdFor.key = key ∧
      ep.createdFor.address = some ep.address
  found : ∀ x ∈ w.found, known x.1 ∧ known x.2.createdFor ∧
    x.2.createdFor.key = x.1.key ∧ x.2.createdFor.address = some x.2.address
  agree : strict → ∀ r ∈ w.served, ∀ r' ∈ w.served,
    r.pidCons = r'.pidCons → r.SameAddress r'
  transmitted : strict → ∀ x ∈ w.transmitted, x.1.address = some x.2.address

/-- A request has been taken up. -/
def UcxService.Serving (w : UcxService) : Prop := w.current ∈ w.served

/-- It has been unpacked. -/
structure UcxService.Unpacked (w : UcxService) : Prop where
  serving : w.Serving
  address : ∃ a, w.current.address = some a ∧
    w.handle.remoteAddress = some a
  key : w.handle.consumerConnKey = w.current.key

/-- The endpoint in the handle is the request's own. -/
def UcxService.Aligned (w : UcxService) : Prop :=
  ∀ ep, w.handle.ep = some ep → w.current.address = some ep.address

/-- The outline of a service rank. -/
def ucxSpec (known : UcxRequest → Prop) (strict : Prop) : Spec ucxService where
  Inv := UcxService.Sound known strict
  Rely _ w w' := w = w'
  Guar _ _ := True
  Req _ _ _ := True
  Idle _ _ := True
  Post _ _ _ _ := True
  guard := {
    act := fun w _ c _ =>
      match c with
      | .establishConnection => strict → w.Untangled
      | _ => True
    crash := fun _ _ => True
    start := fun w _ req => known req ∧
      (strict → ∀ r ∈ w.served, r.pidCons = req.pidCons → r.SameAddress req) }
  rely_refl _ _ := rfl
  rely_trans _ _ _ _ h h' := h.trans h'
  guar_refl _ := True.intro
  guar_trans _ _ _ _ _ := True.intro

variable {known : UcxRequest → Prop} {strict : Prop}

theorem ucxSpec_stable (t : Unit) (P : UcxService → Prop) :
    (ucxSpec known strict).Stable t P :=
  fun _ _ _ _ hr hp => hr ▸ hp

/-- With one thread, a step only has to keep the invariant. -/
theorem ucxSpec_moves {t : Unit} {w w' : UcxService}
    (h : w'.Sound known strict) : (ucxSpec known strict).Moves t w w' :=
  ⟨h, True.intro, fun u hu => absurd (Subsingleton.elim u t) hu⟩

theorem offDtl_atomic (t : Unit) (P : UcxService → Prop) (c : Call)
    (hc : c.offDtl = true) :
    (ucxSpec known strict).Atomic t P c fun _ => P := by
  refine fun w hi hp => ⟨True.intro, fun x w' r hex _ => ?_⟩
  obtain rfl := UcxService.exec_offDtl hc hex
  exact ⟨ucxSpec_moves hi, hp⟩

theorem offDtl_triple {α : Type} (t : Unit) (P : UcxService → Prop)
    {p : Program α} (hp : OffDtl p) :
    (ucxSpec known strict).Triple t P p fun _ => P :=
  Spec.Triple.of_all (ucxSpec_stable t P) (offDtl_atomic t P) hp

theorem offDtl_ends {α : Type} (t : Unit) (P : UcxService → Prop)
    {p : Program α} (hp : OffDtl p) :
    (ucxSpec known strict).Triple t P p fun _ _ => True :=
  (offDtl_triple t P hp).imp (fun _ _ h => h) fun _ _ _ _ => True.intro

/-! ## The calls of the DTL -/

/-- What the requests go by is the cache and the mode; the rest of the handle
may change. -/
theorem UcxService.Sound.handle {w : UcxService} (hi : w.Sound known strict)
    {h : UcxHandle} (hmode : h.commMode = w.handle.commMode)
    (hcache : h.epCache = w.handle.epCache) :
    UcxService.Sound known strict { w with handle := h } where
  sending := hmode.trans hi.sending
  takenUp := hi.takenUp
  cached key ep hep := hi.cached key ep (by rwa [← hcache])
  found := hi.found
  agree := hi.agree
  transmitted := hi.transmitted

theorem ucxDecode_cases {h h' : UcxHandle} {msg : UcxRequest}
    {o : UnpackOutcome} {r : Except Rc Unit}
    (hdec : ucxDecode h msg o = (h', r)) :
    h'.commMode = h.commMode ∧ h'.epCache = h.epCache ∧
      h'.consumerConnKey = h.consumerConnKey ∧
      ∀ u, r = .ok u → ∃ a, msg.address = some a ∧
        h'.remoteAddress = some a := by
  unfold ucxDecode at hdec
  split at hdec
  · obtain ⟨rfl, rfl⟩ := Prod.mk.inj hdec
    exact ⟨rfl, rfl, rfl, fun u hu => nomatch hu⟩
  split at hdec
  · obtain ⟨rfl, rfl⟩ := Prod.mk.inj hdec
    exact ⟨rfl, rfl, rfl, fun u hu => nomatch hu⟩
  · next address haddr =>
    dsimp only at hdec
    split at hdec
    · obtain ⟨rfl, rfl⟩ := Prod.mk.inj hdec
      exact ⟨rfl, rfl, rfl, fun u hu => nomatch hu⟩
    split at hdec
    · obtain ⟨rfl, rfl⟩ := Prod.mk.inj hdec
      exact ⟨rfl, rfl, rfl, fun u hu => nomatch hu⟩
    · obtain ⟨rfl, rfl⟩ := Prod.mk.inj hdec
      exact ⟨rfl, rfl, rfl, fun _ _ => ⟨address, haddr, rfl⟩⟩

/-- What `rpc_unpack` leaves alone, and what it sets when it succeeds. -/
theorem rpcUnpack_cases {h h' : UcxHandle} {msg : UcxRequest}
    {o : UnpackOutcome} {r : Except Rc Unit}
    (hun : dyadDtlUcxRpcUnpack h msg o = some (h', r)) :
    h'.commMode = h.commMode ∧ h'.epCache = h.epCache ∧
      ∀ u, r = .ok u → (∃ a, msg.address = some a ∧
        h'.remoteAddress = some a) ∧ h'.consumerConnKey = msg.key := by
  unfold dyadDtlUcxRpcUnpack at hun
  split at hun
  · exact absurd hun (by simp)
  · obtain ⟨rfl, rfl⟩ := Prod.mk.inj (Option.some.inj hun)
    exact ⟨rfl, rfl, fun u hu => nomatch hu⟩
  · obtain ⟨hmode, hcache, hkey, haddr⟩ :=
      ucxDecode_cases (Option.some.inj hun)
    exact ⟨hmode, hcache, fun u hu => ⟨haddr u hu, hkey⟩⟩

theorem rpcUnpack_atomic (t : Unit) :
    (ucxSpec known strict).Atomic t UcxService.Serving .rpcUnpack
      fun r w => r = .ok → w.Unpacked := by
  refine fun w hi hp => ⟨True.intro, fun x w' r hex _ => ?_⟩
  have hun : w.unpacked (dyadDtlUcxRpcUnpack w.handle w.current x.unpack) =
      (w', r) := Option.some.inj hex
  cases hr : dyadDtlUcxRpcUnpack w.handle w.current x.unpack with
  | none =>
    rw [hr] at hun
    obtain ⟨rfl, rfl⟩ := Prod.mk.inj hun
    exact ⟨ucxSpec_moves hi, fun hu => absurd hu (by simp)⟩
  | some hr' =>
    obtain ⟨h, r'⟩ := hr'
    rw [hr] at hun
    obtain ⟨rfl, rfl⟩ := Prod.mk.inj hun
    obtain ⟨hmode, hcache, hok⟩ := rpcUnpack_cases hr
    refine ⟨ucxSpec_moves (hi.handle hmode hcache), fun hu => ?_⟩
    cases r' with
    | error rc => exact absurd hu (by simp [Unpacked.ofExcept])
    | ok u =>
      obtain ⟨haddr, hkey⟩ := hok u rfl
      exact ⟨hp, haddr, hkey⟩

/-- A lookup refuses a handle that holds an endpoint, misses, or hits. -/
theorem find_cases (h : UcxHandle) :
    (∃ ep, h.ep = some ep ∧ dyadUcxEpCacheFind h = (.badbuf, some ep)) ∨
      (h.ep = none ∧ h.epCache h.consumerConnKey = none ∧
        dyadUcxEpCacheFind h = (.notfound, none)) ∨
      ∃ ep, h.ep = none ∧ h.epCache h.consumerConnKey = some ep ∧
        dyadUcxEpCacheFind h = (.ok, some ep) := by
  unfold dyadUcxEpCacheFind
  cases hep : h.ep with
  | some ep => exact Or.inl ⟨ep, rfl, rfl⟩
  | none =>
    cases hcache : h.epCache h.consumerConnKey with
    | none => exact Or.inr (Or.inl ⟨rfl, rfl, rfl⟩)
    | some ep => exact Or.inr (Or.inr ⟨ep, rfl, rfl, rfl⟩)

theorem ucxConnect_cases {h : UcxHandle} {req : UcxRequest}
    {o : ConnectOutcome} {rc : Rc} {ep : Option Endpoint}
    (hc : ucxConnect h req o = (rc, ep)) :
    rc.isError = true ∨ ∃ address, h.remoteAddress = some address ∧
      ep = some ⟨address, req⟩ := by
  unfold ucxConnect at hc
  split at hc
  · exact Or.inl ((Prod.mk.inj hc).1 ▸ rfl)
  · exact Or.inl ((Prod.mk.inj hc).1 ▸ rfl)
  split at hc
  · exact Or.inl ((Prod.mk.inj hc).1 ▸ rfl)
  · next address haddr =>
    exact Or.inr ⟨address, haddr, (Prod.mk.inj hc).2.symm⟩

/-- An insertion finds the key and does nothing, fails without touching the
cache, or connects to the address in the handle and caches that. -/
theorem insert_cases {h h' : UcxHandle} {req : UcxRequest}
    {o : ConnectOutcome} {rc : Rc}
    (hins : dyadUcxEpCacheInsert h req o = (rc, h')) :
    h'.commMode = h.commMode ∧
      ((h' = h ∧ (h.epCache h.consumerConnKey).isSome = true) ∨
        (rc.isError = true ∧ h'.epCache = h.epCache) ∨
        ∃ address, h.remoteAddress = some address ∧
          h'.ep = some ⟨address, req⟩ ∧
          h'.epCache = Function.update h.epCache h.consumerConnKey
            (some ⟨address, req⟩)) := by
  unfold dyadUcxEpCacheInsert at hins
  split at hins
  · next ep hep =>
    obtain ⟨rfl, rfl⟩ := Prod.mk.inj hins
    exact ⟨rfl, Or.inl ⟨rfl, by rw [hep]; rfl⟩⟩
  · cases hcon : ucxConnect h req o with
    | mk rc' ep =>
      rw [hcon] at hins
      dsimp only at hins
      split at hins
      · next herr =>
        obtain ⟨rfl, rfl⟩ := Prod.mk.inj hins
        exact ⟨rfl, Or.inr (Or.inl ⟨herr, rfl⟩)⟩
      · next herr =>
        split at hins
        · obtain ⟨rfl, rfl⟩ := Prod.mk.inj hins
          exact ⟨rfl, Or.inr (Or.inl ⟨rfl, rfl⟩)⟩
        · obtain ⟨rfl, rfl⟩ := Prod.mk.inj hins
          obtain herr' | ⟨address, haddr, rfl⟩ := ucxConnect_cases hcon
          · exact absurd herr' herr
          · exact ⟨rfl, Or.inr (Or.inr ⟨address, haddr, rfl, rfl⟩)⟩

/-- Where the endpoint of a connection that was established comes from, when
nothing was left over where the key is cached: from the cache, or it is new. -/
theorem establishConnection_cases {h h' : UcxHandle} {req : UcxRequest}
    {o : ConnectOutcome} {rc : Rc} (hsend : h.commMode = .send)
    (hest : dyadDtlUcxEstablishConnection h req o = (rc, h')) :
    h'.commMode = .send ∧
      (h'.epCache = h.epCache ∨ ∃ address, h.remoteAddress = some address ∧
        h'.epCache = Function.update h.epCache h.consumerConnKey
          (some ⟨address, req⟩)) ∧
      (rc.isError = false →
        h.ep = none ∨ h.epCache h.consumerConnKey = none → ∀ ep,
        h'.ep = some ep → h.epCache h.consumerConnKey = some ep ∨
          (some ep.address = h.remoteAddress ∧ ep.createdFor = req)) := by
  unfold dyadDtlUcxEstablishConnection at hest
  split at hest
  case h_2 hmode => exact absurd (hsend.symm.trans hmode) (by decide)
  case h_3 hmode => exact absurd (hsend.symm.trans hmode) (by decide)
  obtain ⟨ep, hep, hfind⟩ | ⟨-, hmiss, hfind⟩ | ⟨ep, -, hhit, hfind⟩ :=
    find_cases h
  · rw [hfind] at hest
    have hins : dyadUcxEpCacheInsert { h with ep := some ep } req o =
        (rc, h') := hest
    obtain ⟨hmode, ⟨rfl, hin⟩ | ⟨herr, hcache⟩ | ⟨address, haddr, hnew, hcache⟩⟩ :=
      insert_cases hins
    · refine ⟨hsend, Or.inl rfl, fun _ hleft => ?_⟩
      rcases hleft with hleft | hleft
      · exact absurd (hleft.symm.trans hep) (by simp)
      · exact absurd hin (by simp [hleft])
    · exact ⟨hmode.trans hsend, Or.inl hcache,
        fun hno => absurd herr (by simp [hno])⟩
    · refine ⟨hmode.trans hsend, Or.inr ⟨address, haddr, hcache⟩,
        fun _ _ ep' hep' => Or.inr ?_⟩
      obtain rfl := Option.some.inj (hnew.symm.trans hep')
      exact ⟨haddr.symm, rfl⟩
  · rw [hfind] at hest
    have hins : dyadUcxEpCacheInsert { h with ep := none } req o =
        (rc, h') := hest
    obtain ⟨hmode, ⟨rfl, hin⟩ | ⟨herr, hcache⟩ | ⟨address, haddr, hnew, hcache⟩⟩ :=
      insert_cases hins
    · exact absurd hin (by simp [hmiss])
    · exact ⟨hmode.trans hsend, Or.inl hcache,
        fun hno => absurd herr (by simp [hno])⟩
    · refine ⟨hmode.trans hsend, Or.inr ⟨address, haddr, hcache⟩,
        fun _ _ ep' hep' => Or.inr ?_⟩
      obtain rfl := Option.some.inj (hnew.symm.trans hep')
      exact ⟨haddr.symm, rfl⟩
  · rw [hfind] at hest
    obtain ⟨rfl, rfl⟩ := Prod.mk.inj hest
    exact ⟨hsend, Or.inl rfl, fun _ _ ep' hep' => Or.inl (hhit.trans hep')⟩

theorem UcxService.mem_hits {w : UcxService} {y : UcxRequest × Endpoint}
    (hy : y ∈ w.hits) : y.1 = w.current ∧
      w.handle.epCache w.handle.consumerConnKey = some y.2 := by
  unfold UcxService.hits at hy
  obtain ⟨_, -, hfind⟩ | ⟨-, -, hfind⟩ | ⟨ep, -, hhit, hfind⟩ :=
    find_cases w.handle
  · rw [hfind] at hy
    exact absurd hy List.not_mem_nil
  · rw [hfind] at hy
    exact absurd hy List.not_mem_nil
  · rw [hfind] at hy
    obtain rfl := List.mem_singleton.1 hy
    exact ⟨rfl, hhit⟩

theorem Rc.toExcept_ok {rc : Rc} {u : Unit} (h : rc.toExcept = .ok u) :
    rc.isError = false := by
  unfold Rc.toExcept at h
  split at h
  · exact nomatch h
  · next hno => exact Bool.eq_false_of_not_eq_true hno

theorem establishConnection_atomic (t : Unit) :
    (ucxSpec known strict).Atomic t UcxService.Unpacked .establishConnection
      fun r w => ∀ u, r = .ok u → strict → w.Aligned := by
  refine fun w hi hp => ⟨True.intro, fun x w' r hex hok => ?_⟩
  obtain ⟨rfl, rfl⟩ := Prod.mk.inj (Option.some.inj hex)
  obtain ⟨hmode, hcache, haligned⟩ :=
    @establishConnection_cases w.handle _ w.current x.connect _ hi.sending rfl
  obtain ⟨a, hcur, hremote⟩ := hp.address
  refine ⟨ucxSpec_moves ?_, fun u hu hs ep hep => ?_⟩
  · refine ⟨hmode, hi.takenUp, fun key ep hep => ?_, fun y hy => ?_, hi.agree,
      hi.transmitted⟩
    · obtain hcache | ⟨address, ha, hcache⟩ := hcache
      · exact hi.cached key ep (hcache ▸ hep)
      · rw [hcache] at hep
        by_cases hkey : key = w.handle.consumerConnKey
        · subst hkey
          rw [Function.update_self] at hep
          obtain rfl := Option.some.inj hep
          exact ⟨hp.serving, hp.key.symm, hcur.trans (hremote.symm.trans ha)⟩
        · rw [Function.update_of_ne hkey] at hep
          exact hi.cached key ep hep
    · rcases List.mem_append.1 hy with hy | hy
      · obtain ⟨hcurrent, hhit⟩ := UcxService.mem_hits hy
        obtain ⟨hserved, hkey, hcreated⟩ := hi.cached _ _ hhit
        rw [hcurrent]
        exact ⟨hi.takenUp _ hp.serving, hi.takenUp _ hserved,
          hkey.trans hp.key, hcreated⟩
      · exact hi.found y hy
  · rcases haligned (Rc.toExcept_ok hu) (hok hs) ep hep with hhit | ⟨haddress, -⟩
    · -- what the cache holds came with an earlier request of the same pid
      obtain ⟨hserved, hkey, hcreated⟩ := hi.cached _ ep hhit
      have hpid := UcxRequest.pid_of_key (hkey.trans hp.key)
      rw [hi.agree hs _ hserved _ hp.serving hpid _ _ hcreated hcur]
      exact hcur
    · exact hcur.trans (hremote.symm.trans haddress.symm)

theorem dyadDtlUcxSend_ep {h : UcxHandle} {o : SendOutcome} {ep : Endpoint}
    (hs : (dyadDtlUcxSend h o).2 = some ep) : h.ep = some ep := by
  unfold dyadDtlUcxSend at hs
  split at hs
  · next ep' _ hep _ =>
    rw [hep]
    cases o with
    | rkeyFails => exact absurd hs (by simp)
    | putFails => exact hs
    | ok => exact hs
  · exact absurd hs (by simp)

theorem send_atomic (t : Unit) (payload : Bytes Byte) :
    (ucxSpec known strict).Atomic t (fun w => strict → w.Aligned)
      (.send payload) fun _ _ => True := by
  refine fun w hi hp => ⟨True.intro, fun x w' r hex _ => ?_⟩
  obtain ⟨rfl, -⟩ := Prod.mk.inj (Option.some.inj hex)
  refine ⟨ucxSpec_moves { hi with transmitted := fun hs y hy => ?_ },
    True.intro⟩
  rcases List.mem_append.1 hy with hy | hy
  · obtain ⟨ep, hep, rfl⟩ := List.mem_map.1 hy
    exact hp hs ep (dyadDtlUcxSend_ep (Option.mem_toList.1 hep))
  · exact hi.transmitted hs y hy

theorem closeConnection_atomic (t : Unit) :
    (ucxSpec known strict).Atomic t (fun _ => True) .closeConnection
      fun _ _ => True := by
  refine fun w hi _ => ⟨True.intro, fun x w' r hex _ => ?_⟩
  obtain ⟨rfl, -⟩ := Prod.mk.inj (Option.some.inj hex)
  have hclose : (dyadDtlUcxCloseConnection w.handle).commMode =
      w.handle.commMode ∧
      (dyadDtlUcxCloseConnection w.handle).epCache = w.handle.epCache := by
    unfold dyadDtlUcxCloseConnection
    split <;> exact ⟨rfl, rfl⟩
  exact ⟨ucxSpec_moves (hi.handle hclose.1 hclose.2), True.intro⟩

/-! ## The handler -/

theorem fetchSend_triple (t : Unit) (payload : Bytes Byte) :
    (ucxSpec known strict).Triple t UcxService.Unpacked (fetchSend payload)
      fun _ _ => True := by
  refine .step (ucxSpec_stable t _) (establishConnection_atomic t) fun r => ?_
  cases r with
  | error e => exact offDtl_ends t _ (fetchErrorWith_offDtl _)
  | ok u =>
    refine .pre ?_ fun w _ h => h u rfl
    refine .step (ucxSpec_stable t _) (send_atomic t payload) fun r => ?_
    cases r with
    | error e => exact offDtl_triple t _ (fetchErrorWith_offDtl _)
    | ok u =>
      refine .step (ucxSpec_stable t _) (closeConnection_atomic t) fun _ => ?_
      exact offDtl_triple t _ (.step rfl fun _ => .step rfl fun _ => True.intro)

theorem fetchBuffered_triple (t : Unit) (inbuf : Bool) (fd fileSize : Nat) :
    (ucxSpec known strict).Triple t UcxService.Unpacked
      (fetchBuffered true inbuf fd fileSize) fun _ _ => True := by
  unfold fetchBuffered
  have hfail := @offDtl_ends known strict _ t UcxService.Unpacked _
    (fetchError_offDtl fd)
  split
  · exact .call (ucxSpec_stable t _) (offDtl_atomic t _ .ub rfl) (nomatch ·)
  split
  · refine .bind (offDtl_triple t _ (fetchRead_offDtl inbuf fd fileSize))
      fun r => ?_
    cases r with
    | none => exact hfail
    | some content =>
      dsimp only
      split
      · exact hfail
      · refine .bind (offDtl_triple t _ (filesOnly_offDtl
          (Request.dyadReleaseFlock_filesOnly fd))) fun _ => ?_
        refine .step (ucxSpec_stable t _) (offDtl_atomic t _ _ rfl) fun _ => ?_
        exact fetchSend_triple t _
  · exact hfail

theorem fetchOpened_triple (t : Unit) (fd : Nat) :
    (ucxSpec known strict).Triple t UcxService.Unpacked (fetchOpened true fd)
      fun _ _ => True := by
  unfold fetchOpened
  refine .bind (offDtl_triple t _ (filesOnly_offDtl
    (Request.dyadSharedFlock_filesOnly fd))) fun rc => ?_
  split
  · exact offDtl_ends t _ (fetchError_offDtl fd)
  · refine .bind (offDtl_triple t _ (filesOnly_offDtl
      (Request.getFileSize_filesOnly fd))) fun fileSize => ?_
    refine .step (ucxSpec_stable t _) (offDtl_atomic t _ _ rfl) fun r => ?_
    cases r with
    | ok _ => exact fetchBuffered_triple t true fd fileSize
    | error _ => exact fetchBuffered_triple t false fd fileSize

theorem dyadFetchRequestCb_triple (t : Unit) :
    (ucxSpec known strict).Triple t UcxService.Serving (dyadFetchRequestCb true)
      fun _ _ => True := by
  unfold dyadFetchRequestCb
  refine .step (ucxSpec_stable t _) (offDtl_atomic t _ _ rfl) fun streaming => ?_
  split
  · refine .step (ucxSpec_stable t _) (offDtl_atomic t _ _ rfl) fun r => ?_
    cases r with
    | error e => exact offDtl_ends t _ fetchErrorWoFlock_offDtl
    | ok _ =>
      refine .step (ucxSpec_stable t _) (rpcUnpack_atomic t) fun r => ?_
      cases r with
      | nullAddress =>
        exact .call (ucxSpec_stable t _) (offDtl_atomic t _ .ub rfl) (nomatch ·)
      | error e => exact offDtl_ends t _ (fetchErrorWith_offDtl _)
      | ok =>
        refine .pre ?_ fun w _ h => h rfl
        refine .step (ucxSpec_stable t _) (offDtl_atomic t _ _ rfl) fun r => ?_
        cases r with
        | error e => exact offDtl_ends t _ fetchErrorWoFlock_offDtl
        | ok _ =>
          refine .step (ucxSpec_stable t _) (offDtl_atomic t _ _ rfl) fun r => ?_
          cases r with
          | error e => exact offDtl_ends t _ fetchErrorWoFlock_offDtl
          | ok fd => exact fetchOpened_triple t fd
  · exact offDtl_ends t _ (fetchErrorWith_offDtl _)

/-! ## Every run -/

theorem UcxService.Sound.take {w : UcxService} (hi : w.Sound known strict)
    {req : UcxRequest} (hknown : known req)
    (hpid : strict → ∀ r ∈ w.served, r.pidCons = req.pidCons →
      r.SameAddress req) : (w.take req).Sound known strict where
  sending := hi.sending
  takenUp r hr := by
    rcases List.mem_cons.1 hr with rfl | hr
    · exact hknown
    · exact hi.takenUp r hr
  cached key ep hep := by
    obtain ⟨hserved, hrest⟩ := hi.cached key ep hep
    exact ⟨List.mem_cons_of_mem _ hserved, hrest⟩
  found := hi.found
  agree hs r hr r' hr' hp := by
    rcases List.mem_cons.1 hr with rfl | hold
    · rcases List.mem_cons.1 hr' with rfl | hold'
      · exact fun a b ha hb => Option.some.inj (ha.symm.trans hb)
      · exact fun a b ha hb => (hpid hs r' hold' hp.symm b a hb ha).symm
    · rcases List.mem_cons.1 hr' with rfl | hold'
      · exact hpid hs r hold hp
      · exact hi.agree hs r hold r' hold' hp
  transmitted := hi.transmitted

theorem UcxService.Sound.restart {w : UcxService}
    (hi : w.Sound known strict) : w.restart.Sound known strict where
  sending := hi.sending
  takenUp r hr := absurd hr List.not_mem_nil
  cached key ep hep := absurd hep (by simp [UcxService.restart])
  found := hi.found
  agree hs r hr := absurd hr List.not_mem_nil
  transmitted := hi.transmitted

theorem ucxSpec_sound : (ucxSpec known strict).Sound where
  idle_stable t := ucxSpec_stable t _
  start w t req p hi _ hok hjob := by
    obtain rfl := Option.some.inj hjob
    have hi' := hi.take hok.1 hok.2
    exact ⟨ucxSpec_moves hi',
      dyadFetchRequestCb_triple t _ hi' List.mem_cons_self⟩
  finish w t _ _ hi _ := ⟨ucxSpec_moves hi, True.intro⟩
  crash w p hi _ := by
    refine ⟨hi.restart, True.intro, fun u => ?_⟩
    rw [if_pos (Subsingleton.elim _ _)]
    exact True.intro

theorem UcxService.Fresh.sound {w : UcxService} (h : w.Fresh) :
    w.Sound known strict := by
  obtain ⟨hsend, -, hcache, hserved, hfound, htransmitted⟩ := h
  refine ⟨hsend, ?_, fun key ep hep => ?_, ?_, fun _ => ?_, fun _ => ?_⟩
  · rw [hserved]
    exact fun r hr => absurd hr List.not_mem_nil
  · exact absurd (hcache key ▸ hep) (by simp)
  · rw [hfound]
    exact fun x hx => absurd hx List.not_mem_nil
  · rw [hserved]
    exact fun r hr => absurd hr List.not_mem_nil
  · rw [htransmitted]
    exact fun x hx => absurd hx List.not_mem_nil

/-- What a service rank and its handler look like between two steps. -/
abbrev UcxCfg := Machine.Cfg UcxService Unit Call.Res fun _ : UcxRequest => Unit

theorem ucxSpec_reach {s : UcxCfg}
    (h : (ucxService.lts UcxService.Fresh).Reach
      (ucxSpec known strict).guard.Allows s) :
    s.world.Sound known strict :=
  (ucxSpec_sound.reach (fun _ hw => ⟨hw.sound, fun _ => True.intro⟩) h).inv

/-! ## The endpoint and the requester -/

/-- The condition: no connection is established with an endpoint left over
from another request while the cache knows the key, and requests with one pid
carry one address. -/
def untangledRuns : Machine.Guard ucxService where
  act w _ c _ :=
    match c with
    | .establishConnection => w.Untangled
    | _ => True
  crash _ _ := True
  start w _ req :=
    ∀ r ∈ w.served, r.pidCons = req.pidCons → r.SameAddress req

/-- Every payload went through an endpoint connected to the address its own
request carried. -/
def EndpointAgrees (s : UcxCfg) : Prop :=
  ∀ x ∈ s.world.transmitted, x.1.address = some x.2.address

/-- Where the condition is met, the endpoint is the requester's. -/
theorem endpoint_agrees {s : UcxCfg}
    (h : (ucxService.lts UcxService.Fresh).Reach untangledRuns.Allows s) :
    EndpointAgrees s := by
  have hreach : (ucxService.lts UcxService.Fresh).Reach
      (ucxSpec (fun _ => True) True).guard.Allows s := by
    refine Machine.reach_mono (φ := fun _ _ => True) (fun _ hw => hw)
      (fun _ _ _ _ => True.intro) (fun w t j c x _ hact => ?_)
      (fun _ _ _ => True.intro) (fun w t req hst => ?_) h
    · cases c with
      | establishConnection => exact fun _ => hact
      | _ => exact True.intro
    · exact ⟨True.intro, fun _ => hst⟩
  exact (ucxSpec_reach hreach).transmitted True.intro

/-- A request of the process `pid` whose worker address is `address`. -/
def UcxRequest.sample (pid : BitVec 32) (address : List Byte) : UcxRequest :=
  ⟨[0x66], 0, 0, pid, Base64.encode address, Base64.encode [1]⟩

/-- A service rank right after its set-up. -/
def UcxService.first : UcxService where
  handle := ⟨.send, 2 ^ 32, some [0], none, none, 0, fun _ => none, 0, none, 0,
    true⟩
  current := .sample 0 []
  served := []
  found := []
  transmitted := []

theorem UcxService.first_fresh : UcxService.first.Fresh :=
  ⟨rfl, rfl, fun _ => rfl, rfl, rfl, rfl⟩

/-- The file is there and has one byte, and only the send may fail. -/
def UcxChoice.sending (o : SendOutcome) : UcxChoice where
  answer
    | .sys (.open ..) => some (.ok 3)
    | .sys (.setlkw ..) => some (.ok ())
    | .sys (.fstat _) => some (.ok 1)
    | .sys (.pread ..) => some (.ok (Bytes.ofList [7]))
    | .sys (.unlock _) => some (.ok ())
    | .sys (.close _) => some (.ok ())
    | .msgIsStreaming => some true
    | .msgGetUserid => some (.ok ())
    | .errno => some (0 : Errno)
    | .setErrno _ => some ()
    | .respondError _ => some ()
    | _ => none
  unpack := .ok
  connect := .ok
  send := o

/-- A request is served, its send as it may. -/
def serveOne (req : UcxRequest) (o : SendOutcome) :
    List (Machine.Label Unit Unit UcxChoice UcxRequest) :=
  .start () req :: List.replicate 16 (.act () (.sending o)) ++ [.finish ()]

/-- Where a rank is after serving requests. -/
def UcxService.after
    (ls : List (Machine.Label Unit Unit UcxChoice UcxRequest)) : UcxCfg :=
  ((ucxService.lts UcxService.Fresh).replay ⟨.first, fun _ => none⟩ ls).getD
    ⟨.first, fun _ => none⟩

/-- Two consumers are served, one after the other. -/
def twoServed : List (Machine.Label Unit Unit UcxChoice UcxRequest) :=
  serveOne (.sample 1 [0x61]) .ok ++ serveOne (.sample 2 [0x62]) .ok

theorem endpoint_agrees_twoServed :
    (UcxService.after twoServed).world.transmitted.length = 2 ∧
      EndpointAgrees (UcxService.after twoServed) := by
  refine ⟨by decide +kernel, endpoint_agrees ?_⟩
  refine Lts.Reach.of_replay (φ := Machine.check
      (fun w _ c _ => match c with
        | .establishConnection => w.handle.ep.isNone
        | _ => true) (fun _ _ => true)
      (fun w _ req => w.served.all fun r => r.pidCons != req.pidCons))
    ⟨UcxService.first_fresh, fun _ => rfl⟩
    (Machine.Guard.allows_of_check (fun w t c x h => ?_)
      (fun _ _ _ => True.intro) fun w t req h r hr hp => ?_)
    (by decide +kernel) (by decide +kernel)
  · cases c with
    | establishConnection => exact Or.inl (Option.isNone_iff_eq_none.1 h)
    | _ => exact True.intro
  · have := List.all_eq_true.1 h r hr
    exact absurd hp (bne_iff_ne.1 this)

/-- The second consumer's payload is lost on the way, and the first one comes
back. -/
def oneLost : List (Machine.Label Unit Unit UcxChoice UcxRequest) :=
  serveOne (.sample 1 [0x61]) .ok ++ serveOne (.sample 2 [0x62]) .putFails ++
    serveOne (.sample 1 [0x61]) .ok

/-- The payload for the first consumer goes to the second. -/
theorem endpoint_left_over :
    (ucxService.lts UcxService.Fresh).Reach (fun _ _ => True)
        (UcxService.after oneLost) ∧
      ¬ EndpointAgrees (UcxService.after oneLost) := by
  constructor
  · exact Lts.Reach.of_replay (φ := fun _ _ => true)
      ⟨UcxService.first_fresh, fun _ => rfl⟩ (fun _ _ _ => True.intro)
      (by decide +kernel) (by decide +kernel)
  · intro hagree
    have hall : ((UcxService.after oneLost).world.transmitted.all fun x =>
        x.1.address == some x.2.address) = true :=
      List.all_eq_true.2 fun x hx => beq_iff_eq.2 (hagree x hx)
    exact absurd hall (by decide +kernel)

/-! ## The key and the consumer -/

/-- A consumer process, and the address of its UCX worker. -/
structure Consumer where
  node : Nat
  pid : BitVec 32
  address : List Byte

/-- A request of the consumer: what `rpc_pack` makes of its pid and its
address. -/
def Consumer.Sends (c : Consumer) (req : UcxRequest) : Prop :=
  ∃ h upath rank, h.localAddress = some c.address ∧
    dyadDtlUcxRpcPack h c.pid upath rank true = .ok req

/-- The runs of a service rank whose requests all come from `cs`. -/
def requestsFrom (cs : Set Consumer) : Machine.Guard ucxService where
  act _ _ _ _ := True
  crash _ _ := True
  start _ _ req := ∃ c ∈ cs, c.Sends req

/-- The keys tell the consumers apart: two consumers with different addresses
have different keys, and an endpoint found for one of them was created for
it, and is connected to it. -/
structure KeysIdentify (cs : Set Consumer) : Prop where
  keys : ∀ c ∈ cs, ∀ d ∈ cs, c.address ≠ d.address →
    ∀ r r', c.Sends r → d.Sends r' → r.key ≠ r'.key
  lookups : ∀ s, (ucxService.lts UcxService.Fresh).Reach
      (requestsFrom cs).Allows s →
    ∀ x ∈ s.world.found, ∀ c ∈ cs, c.Sends x.1 →
      (∀ d ∈ cs, d.Sends x.2.createdFor → d.address = c.address) ∧
      ∃ n, x.2.address = c.address ++ List.replicate n 0

theorem Consumer.Sends.packed {c : Consumer} {req : UcxRequest}
    (h : c.Sends req) :
    req.pidCons = c.pid ∧ req.addr = Base64.encode c.address := by
  obtain ⟨g, upath, rank, haddr, hpack⟩ := h
  simp only [dyadDtlUcxRpcPack, haddr] at hpack
  obtain rfl := Except.ok.inj hpack
  exact ⟨rfl, rfl⟩

/-- What the service decodes is the address, with the buffer's last bytes
behind it. -/
theorem Consumer.Sends.address {c : Consumer} {req : UcxRequest}
    (h : c.Sends req) :
    ∃ n, req.address = some (c.address ++ List.replicate n 0) := by
  rw [UcxRequest.address, decodedBuffer, h.packed.2, Base64.decode_encode]
  exact ⟨_, rfl⟩

/-- Every consumer can send something. -/
theorem Consumer.sends_sample (c : Consumer) :
    c.Sends (.sample c.pid c.address) :=
  ⟨{ UcxService.first.handle with
      localAddress := some c.address, rkeyBuf := some [1] }, [0x66], 0, rfl, rfl⟩

/-- The keys identify the consumers of a set exactly when no two of them with
different addresses have the same pid. -/
theorem keys_identify_iff (cs : Set Consumer) :
    KeysIdentify cs ↔ ∀ c ∈ cs, ∀ d ∈ cs, c.address ≠ d.address →
      c.pid ≠ d.pid := by
  constructor
  · intro h c hc d hd hne hpid
    refine h.keys c hc d hd hne _ _ c.sends_sample d.sends_sample ?_
    simp only [UcxRequest.key, UcxRequest.sample, hpid]
  · intro hpids
    have hkeys : ∀ c ∈ cs, ∀ d ∈ cs, ∀ r r', c.Sends r → d.Sends r' →
        r.key = r'.key → c.address = d.address := by
      intro c hc d hd r r' hr hr' hkey
      by_contra hne
      refine hpids c hc d hd hne ?_
      rw [← hr.packed.1, ← hr'.packed.1]
      exact UcxRequest.pid_of_key hkey
    refine ⟨fun c hc d hd hne r r' hr hr' hkey =>
      hne (hkeys c hc d hd r r' hr hr' hkey), fun s hs x hx c hc hsend => ?_⟩
    have hreach : (ucxService.lts UcxService.Fresh).Reach
        (ucxSpec (fun r => ∃ c ∈ cs, c.Sends r) False).guard.Allows s := by
      refine Machine.reach_mono (φ := fun _ _ => True) (fun _ hw => hw)
        (fun _ _ _ _ => True.intro) (fun w t j c x _ _ => ?_)
        (fun _ _ _ => True.intro) (fun w t req hst => ?_) hs
      · cases c with
        | establishConnection => exact fun h => h.elim
        | _ => exact True.intro
      · exact ⟨hst, fun h => h.elim⟩
    obtain ⟨-, ⟨d, hd, hcreated⟩, hkey, haddr⟩ :=
      (ucxSpec_reach hreach).found x hx
    refine ⟨fun d hd hcreated => hkeys d hd c hc _ _ hcreated hsend hkey, ?_⟩
    obtain ⟨n, hn⟩ := hcreated.address
    refine ⟨n, ?_⟩
    rw [← hkeys d hd c hc _ _ hcreated hsend hkey]
    exact Option.some.inj (haddr.symm.trans hn)

/-- Two consumers on two nodes, whose processes have the same id. -/
def samePid : Set Consumer := { c | c = ⟨0, 7, [0x61]⟩ ∨ c = ⟨1, 7, [0x62]⟩ }

/-- Both are served. -/
def bothServed : List (Machine.Label Unit Unit UcxChoice UcxRequest) :=
  serveOne (.sample 7 [0x61]) .ok ++ serveOne (.sample 7 [0x62]) .ok

/-- The lookup for the second finds the endpoint of the first. -/
theorem keys_collide :
    (∀ c ∈ samePid, ∀ d ∈ samePid, c ≠ d → c.address ≠ d.address) ∧
      ¬ KeysIdentify samePid := by
  constructor
  · rintro c (rfl | rfl) d (rfl | rfl) hne
    · exact absurd rfl hne
    · decide
    · decide
    · exact absurd rfl hne
  · intro h
    have hreach : (ucxService.lts UcxService.Fresh).Reach
        (requestsFrom samePid).Allows (UcxService.after bothServed) := by
      refine Lts.Reach.of_replay (φ := Machine.check (fun _ _ _ _ => true)
          (fun _ _ => true) (fun _ _ req => req == .sample 7 [0x61] ||
            req == .sample 7 [0x62]))
        ⟨UcxService.first_fresh, fun _ => rfl⟩
        (Machine.Guard.allows_of_check (fun _ _ _ _ _ => True.intro)
          (fun _ _ _ => True.intro) fun w t req h => ?_)
        (by decide +kernel) (by decide +kernel)
      rcases Bool.or_eq_true_iff.1 h with h | h
      · obtain rfl := beq_iff_eq.1 h
        exact ⟨⟨0, 7, [0x61]⟩, Or.inl rfl, Consumer.sends_sample _⟩
      · obtain rfl := beq_iff_eq.1 h
        exact ⟨⟨1, 7, [0x62]⟩, Or.inr rfl, Consumer.sends_sample _⟩
    have hfound : (UcxRequest.sample 7 [0x62],
        Endpoint.mk [0x61, 0, 0] (.sample 7 [0x61])) ∈
          (UcxService.after bothServed).world.found := by decide +kernel
    exact absurd ((h.lookups _ hreach _ hfound ⟨1, 7, [0x62]⟩ (Or.inr rfl)
      (Consumer.sends_sample _)).1 ⟨0, 7, [0x61]⟩ (Or.inl rfl)
      (Consumer.sends_sample _)) (by decide)

end Dyad
