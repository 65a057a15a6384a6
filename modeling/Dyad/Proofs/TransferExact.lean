import Dyad.Proofs.Stranded

/-!
# What a transfer gives back

The service puts the size in front of the content in every build with UCX;
the client steps over it when the mode is UCX. The buffer a transfer gives
back is the file exactly when the two agree: in a build without UCX, and in
the UCX mode of a build with it.

What the handler sends is the framed content however short its reads come:
that is said along the handler's own path. What the consumer is given is what
was sent, which is said of the link, and what it makes of that is said along
the consumer's path.
-/

namespace Dyad

open Conc Posix

/-! ## The size in front -/

theorem prefixValue_sizePrefix {b : Bytes Byte} {n : Nat} (k : Nat)
    (hb : ∀ j, j < k → b.get j = BitVec.ofNat 8 (n / 256 ^ j)) :
    prefixValue b k = n % 256 ^ k := by
  induction k with
  | zero =>
    rw [prefixValue, Nat.pow_zero, Nat.mod_one]
  | succ k ih =>
    have hpow : n % 256 ^ (k + 1) =
        n % 256 ^ k + 256 ^ k * (n / 256 ^ k % 256) := Nat.mod_pow_succ
    rw [prefixValue, ih fun j hj => hb j (by omega), hb k (by omega),
      BitVec.toNat_ofNat, hpow, Nat.mul_comm]

/-- The buffer starts with the framed content. -/
def Framed (content nb : Bytes Byte) : Prop :=
  content.size + 8 ≤ nb.size ∧
    ∀ j, j < content.size + 8 → nb.get j = (fetchPayload true content).get j

theorem size_fetchPayload (ucxBuild : Bool) (content : Bytes Byte) :
    (fetchPayload ucxBuild content).size =
      content.size + if ucxBuild then 8 else 0 := by
  cases ucxBuild with
  | true =>
    show ((sizePrefix content.size).append content).size = content.size + 8
    rw [Bytes.size_append, Nat.add_comm]
    rfl
  | false => rfl

theorem get_fetchPayload_prefix (content : Bytes Byte) {j : Nat} (hj : j < 8) :
    (fetchPayload true content).get j =
      BitVec.ofNat 8 (content.size / 256 ^ j) := by
  show ((sizePrefix content.size).append content).get j = _
  rw [Bytes.get_append, if_neg (by simp [sizePrefix]; omega), sizePrefix,
    Bytes.get_ofFn, if_pos hj]

theorem get_fetchPayload_content (content : Bytes Byte) {j : Nat}
    (hj : j < content.size) :
    (fetchPayload true content).get (8 + j) = content.get j := by
  show ((sizePrefix content.size).append content).get (8 + j) = _
  rw [Bytes.get_append, if_pos (by simp [sizePrefix]; omega)]
  congr 1
  simp [sizePrefix]

theorem prefixValue_framed {content nb : Bytes Byte}
    (hsize : content.size < 2 ^ 63) (hf : Framed content nb) :
    prefixValue nb 8 = content.size := by
  rw [prefixValue_sizePrefix 8 fun j hj => by
    rw [hf.2 j (by omega), get_fetchPayload_prefix content hj]]
  exact Nat.mod_eq_of_lt (by omega)

theorem stripPrefix_framed {content nb : Bytes Byte} {rc : Rc}
    (hsize : content.size < 2 ^ 63) (hf : Framed content nb) :
    (stripPrefix rc nb).Exact content := by
  have hlen : readLen nb = content.size := by
    have hval : (prefixValue nb 8 : Int) = content.size :=
      congrArg Nat.cast (prefixValue_framed hsize hf)
    exact (congrArg (fun v : Int => v.bmod (2 ^ 64)) hval).trans
      (Int.bmod_eq_of_le_mul_two (by omega) (by omega))
  rw [stripPrefix, hlen, if_neg (by omega)]
  refine ⟨Int.toNat_natCast _, ?_⟩
  show (nb.slice 8 nb.size).truncate (Int.toNat content.size) = content
  rw [Int.toNat_natCast]
  refine Bytes.ext (Bytes.size_truncate ..) fun j hj => ?_
  rw [Bytes.size_truncate] at hj
  have := hf.1
  rw [Bytes.get_truncate_of_lt _ hj, Bytes.get_slice_of_lt _ (by omega),
    hf.2 _ (by omega), get_fetchPayload_content content hj]

theorem splice_framed (content nb : Bytes Byte) :
    Framed content (nb.splice 0 (fetchPayload true content)) := by
  have hp : (fetchPayload true content).size = content.size + 8 :=
    size_fetchPayload true content
  refine ⟨?_, fun j hj => ?_⟩
  · rw [Bytes.size_splice, hp]
    split <;> omega
  · rw [Bytes.get_splice, hp, if_pos (by omega), Nat.sub_zero]

/-! ## What the handler sends -/

/-- The calls that change no file and no name. -/
def Call.readsOnly : Call → Bool
  | .sys (.open _ creat trunc) => !creat && !trunc
  | .sys (.ftruncate ..) => false
  | .sys (.pwrite ..) => false
  | .sys (.unlink _) => false
  | _ => true

/-- The file `i` has the name of the local copy, and the content. -/
def Node.Keeps (content : Bytes Byte) (i : Nat) (w : Node) : Prop :=
  w.os.dir .data = some i ∧ w.os.file i = content

/-- What a node that keeps the file answers. -/
def Reads (content : Bytes Byte) (i : Nat) : (c : Call) → c.Res → Prop
  | .sys (.open .data _ _), .ok j => j = i
  | .sys (.fstat j), .ok n => j = i → n = content.size
  | .sys (.pread j off len), .ok d =>
    j = i → ∃ k, k ≤ len ∧ d = content.slice off k
  | _, _ => True

/-- A call that only reads leaves the file, and is answered from it. -/
theorem Node.Keeps.exec {content : Bytes Byte} {i : Nat} {w w' : Node}
    {t : Tid} {c : Call} {x : Choice} {r : c.Res} (hw : w.Keeps content i)
    (hc : c.readsOnly = true) (h : w.exec t c x = some (w', r)) :
    w'.Keeps content i ∧ Reads content i c r := by
  obtain ⟨hd, hf⟩ := hw
  cases c with
  | sys c =>
    obtain ⟨o, os', rfl, hex, rfl⟩ := Node.exec_sys h
    have hkeep : ∀ l j, Node.Keeps content i
        { w with os := w.os.setLocks j l } := fun _ _ => ⟨hd, hf⟩
    cases c with
    | «open» n creat trunc =>
      obtain ⟨rfl, rfl⟩ : creat = false ∧ trunc = false := by
        simpa [Call.readsOnly] using hc
      rcases Os.exec_open hex with
        ⟨e, rfl, rfl⟩ | ⟨j, hj, rfl, rfl⟩ | ⟨-, hcreat, -, -⟩
      · exact ⟨⟨hd, hf⟩, by cases n <;> exact True.intro⟩
      · refine ⟨⟨hd, hf⟩, ?_⟩
        cases n with
        | data => exact Option.some.inj (hj.symm.trans hd)
        | _ => exact True.intro
      · exact absurd hcreat (by simp)
    | close j =>
      obtain rfl := Os.exec_close hex
      exact ⟨hkeep _ _, by cases r <;> exact True.intro⟩
    | setlkw j m =>
      rcases Os.exec_setlkw hex with ⟨e, rfl, rfl⟩ | ⟨l, -, rfl, rfl⟩
      · exact ⟨⟨hd, hf⟩, True.intro⟩
      · exact ⟨hkeep _ _, True.intro⟩
    | setlk j m =>
      rcases Os.exec_setlk hex with ⟨e, rfl, rfl⟩ | ⟨l, -, rfl, rfl⟩
      · exact ⟨⟨hd, hf⟩, True.intro⟩
      · exact ⟨hkeep _ _, True.intro⟩
    | unlock j =>
      rcases Os.exec_unlock hex with ⟨e, rfl, rfl⟩ | ⟨rfl, rfl⟩
      · exact ⟨⟨hd, hf⟩, True.intro⟩
      · exact ⟨hkeep _ _, True.intro⟩
    | fstat j =>
      obtain ⟨rfl, ⟨e, rfl⟩ | rfl⟩ := Os.exec_fstat hex
      · exact ⟨⟨hd, hf⟩, True.intro⟩
      · exact ⟨⟨hd, hf⟩, fun hj => by rw [hj, hf]⟩
    | stat n =>
      obtain ⟨rfl, -⟩ := Os.exec_stat hex
      exact ⟨⟨hd, hf⟩, by cases r <;> exact True.intro⟩
    | pread j off len =>
      obtain ⟨rfl, ⟨e, rfl⟩ | ⟨k, hk, rfl⟩⟩ := Os.exec_pread hex
      · exact ⟨⟨hd, hf⟩, True.intro⟩
      · exact ⟨⟨hd, hf⟩, fun hj => ⟨k, hk, by rw [hj, hf]⟩⟩
    | malloc n =>
      obtain ⟨rfl, -⟩ := Os.exec_malloc hex
      exact ⟨⟨hd, hf⟩, True.intro⟩
    | mutexLock =>
      obtain ⟨-, rfl⟩ := Os.exec_mutexLock hex
      exact ⟨⟨hd, hf⟩, True.intro⟩
    | mutexUnlock =>
      obtain rfl := Os.exec_mutexUnlock hex
      exact ⟨⟨hd, hf⟩, True.intro⟩
    | _ => exact absurd hc (by simp [Call.readsOnly])
  | kvsCommit =>
    refine ⟨?_, by cases r <;> exact True.intro⟩
    cases x with
    | count rank =>
      obtain ⟨rfl, -⟩ := Prod.mk.inj (Option.some.inj h)
      exact ⟨hd, hf⟩
    | rc rc =>
      simp only [Node.exec, Option.ite_none_right_eq_some, Option.some.injEq,
        Prod.mk.injEq] at h
      obtain ⟨-, rfl, -⟩ := h
      exact ⟨hd, hf⟩
    | _ => exact absurd h (by simp [Node.exec])
  | ub => exact r.elim
  | spin => exact r.elim
  | _ =>
    obtain ⟨rfl, -⟩ := Node.exec_quiet rfl h
    exact ⟨⟨hd, hf⟩, True.intro⟩

/-- What the handler's calls keep to: no file changes, and what is sent is
the framed content. -/
def sendsFramed (ucxBuild : Bool) (content : Bytes Byte)
    (_ : List (Prog.Event Call.Res)) (c : Call) : Prop :=
  c.readsOnly = true ∧ ∀ payload, c = .send payload →
    payload = fetchPayload ucxBuild content

section

variable {ucxBuild : Bool} {content : Bytes Byte} {i : Nat}
  {h : List (Prog.Event Call.Res)}

variable (ucxBuild content i) in
/-- `p` keeps to that, and ends in `Q`. -/
abbrev Serves {α : Type} (p : Program α) (Q : α → Prop) : Prop :=
  ∀ h, Prog.wp (fun _ => Reads content i) (sendsFramed ucxBuild content)
    (fun _ a => Q a) p h

theorem sendsFramed_of {c : Call} (hc : c.readsOnly = true)
    (hs : ∀ payload, c ≠ .send payload) : sendsFramed ucxBuild content h c :=
  ⟨hc, fun payload heq => absurd heq (hs payload)⟩

theorem Serves.call {α : Type} {c : Call} {f : c.Res → Program α}
    {Q : α → Prop} (hc : c.readsOnly = true)
    (hs : ∀ payload, c ≠ .send payload)
    (hf : ∀ r, Reads content i c r → Serves ucxBuild content i (f r) Q) :
    Serves ucxBuild content i ((perform c).bind f) Q :=
  fun _ => Prog.wp_step (sendsFramed_of hc hs) fun r hr => hf r hr _

theorem Serves.bind {α β : Type} {p : Program α} {f : α → Program β}
    {Q : α → Prop} {R : β → Prop} (hp : Serves ucxBuild content i p Q)
    (hf : ∀ a, Q a → Serves ucxBuild content i (f a) R) :
    Serves ucxBuild content i (p.bind f) R :=
  fun h => Prog.wp_bind.2 (Prog.wp_imp (hp h) fun h a ha => hf a ha h)

theorem Serves.pure {α : Type} {a : α} {Q : α → Prop} (ha : Q a) :
    Serves ucxBuild content i (.pure a) Q :=
  fun _ => ha

theorem fetchErrorWoFlock_serves :
    Serves ucxBuild content i fetchErrorWoFlock fun _ => True :=
  .call rfl (by simp) fun _ _ => .call rfl (by simp) fun _ _ => .pure trivial

theorem fetchErrorWith_serves (e : Errno) :
    Serves ucxBuild content i (fetchErrorWith e) fun _ => True :=
  .call rfl (by simp) fun _ _ => fetchErrorWoFlock_serves

theorem fetchError_serves (fd : Nat) :
    Serves ucxBuild content i (fetchError fd) fun _ => True :=
  .call rfl (by simp) fun _ _ => .call rfl (by simp) fun _ _ =>
    fetchErrorWoFlock_serves

theorem fetchSend_serves :
    Serves ucxBuild content i (fetchSend (fetchPayload ucxBuild content))
      fun _ => True := by
  refine .call rfl (by simp) fun rc _ => ?_
  cases rc with
  | error rc => exact fetchErrorWith_serves _
  | ok u =>
    intro h
    refine Prog.wp_step ⟨rfl, fun payload heq => ?_⟩ fun rc _ => ?_
    · exact (Call.send.inj heq).symm
    · cases rc with
      | error rc => exact fetchErrorWith_serves _ _
      | ok u =>
        exact Serves.call rfl (by simp) (fun _ _ => .call rfl (by simp)
          fun _ _ => .call rfl (by simp) fun _ _ => .pure trivial) _

/-- A read of the file reads a part of it. -/
theorem readInto_serves (inbuf : Bool) (off len : Nat) :
    Serves ucxBuild content i (readInto inbuf i off len) fun d =>
      ∀ b, d = some b → ∃ k, k ≤ len ∧ b = content.slice off k := by
  rw [readInto]
  cases inbuf with
  | true =>
    refine .call rfl (by simp) fun r hr => ?_
    cases r with
    | error e => exact .pure fun b hb => absurd hb (by simp)
    | ok d =>
      refine .pure fun b hb => ?_
      obtain rfl := Option.some.inj hb
      exact hr rfl
  | false =>
    exact .call rfl (by simp) fun _ _ => .pure fun b hb => absurd hb (by simp)

/-- However the turns cut it, what has been read is the front of the file. -/
theorem fetchReadLoop_serves (inbuf : Bool) (fuel : Nat) {got : Bytes Byte}
    (hle : got.size ≤ content.size) (hgot : got = content.slice 0 got.size) :
    Serves ucxBuild content i
      (fetchReadLoop inbuf i content.size fuel got) fun d =>
        ∀ b, d = some b → b = content.slice 0 b.size := by
  induction fuel generalizing got with
  | zero =>
    refine .pure fun b hb => ?_
    obtain rfl := Option.some.inj hb
    exact hgot
  | succ fuel ih =>
    rw [fetchReadLoop]
    split
    · next hlt =>
      refine (readInto_serves inbuf _ _).bind fun d hd => ?_
      cases d with
      | none => exact .pure fun b hb => absurd hb (by simp)
      | some d =>
        obtain ⟨k, hk, rfl⟩ := hd d rfl
        dsimp only
        split
        · exact .pure fun b hb => absurd hb (by simp)
        · have happ : got.append (content.slice got.size k) =
              content.slice 0 (got.size + k) := by
            have := @Bytes.slice_append Byte _ content 0 got.size k (by omega)
            rwa [← hgot, Nat.zero_add] at this
          have hsize : (content.slice 0 (got.size + k)).size =
              got.size + k := by
            rw [Bytes.size_slice]
            omega
          rw [happ]
          exact ih (by rw [hsize]; omega) (by rw [hsize])
    · refine .pure fun b hb => ?_
      obtain rfl := Option.some.inj hb
      exact hgot

theorem fetchRead_serves (inbuf : Bool) :
    Serves ucxBuild content i (fetchRead inbuf i content.size) fun d =>
      ∀ b, d = some b → b.size = content.size → b = content := by
  have hwhole : ∀ b : Bytes Byte, b = content.slice 0 b.size →
      b.size = content.size → b = content := by
    intro b hb hs
    rw [hb, hs]
    exact Bytes.slice_zero_size (Nat.le_refl _)
  rw [fetchRead]
  split
  · refine fun h => Prog.wp_imp (readInto_serves inbuf 0 _ h)
      fun h d hd b hb hs => ?_
    obtain ⟨k, -, rfl⟩ := hd b hb
    refine hwhole _ (Bytes.ext ?_ fun j hj => ?_) hs
    · simp only [Bytes.size_slice]
      omega
    · simp only [Bytes.get_slice, Bytes.size_slice] at hj ⊢
      rw [if_pos (by omega), if_pos (by omega)]
  · exact fun h => Prog.wp_imp
      (fetchReadLoop_serves inbuf _ (Nat.zero_le _)
        (Bytes.eq_empty_of_size (by simp)).symm h)
      fun h d hd b hb hs => hwhole b (hd b hb) hs

theorem fetchBuffered_serves (inbuf : Bool) {fileSize : Nat}
    (hs : fileSize = content.size ∨ fileSize = 0) :
    Serves ucxBuild content i (fetchBuffered ucxBuild inbuf i fileSize)
      fun _ => True := by
  rw [fetchBuffered]
  split
  · exact fun h => ⟨sendsFramed_of rfl (by simp), fun r => r.elim⟩
  split
  · next hpos =>
    obtain rfl := hs.resolve_right (by omega)
    refine (fetchRead_serves inbuf).bind fun d hd => ?_
    cases d with
    | none => exact fetchError_serves i
    | some d =>
      dsimp only
      split
      · exact fetchError_serves i
      · next hsize =>
        obtain rfl := hd d rfl (by omega)
        refine .bind (Q := fun _ => True) ?_ fun _ _ => ?_
        · refine .call rfl (by simp) fun r _ => ?_
          cases r <;> exact .pure trivial
        · exact .call rfl (by simp) fun _ _ => fetchSend_serves
  · exact fetchError_serves i

theorem fetchOpened_serves :
    Serves ucxBuild content i (fetchOpened ucxBuild i) fun _ => True := by
  refine .bind (Q := fun _ => True) ?_ fun rc _ => ?_
  · refine .call rfl (by simp) fun r _ => ?_
    cases r <;> exact .pure trivial
  split
  · exact fetchError_serves i
  · refine .bind (Q := fun n => n = content.size ∨ n = 0) ?_ fun n hn => ?_
    · refine .call rfl (by simp) fun r hr => ?_
      cases r with
      | error e => exact .pure (Or.inr rfl)
      | ok n => exact .pure (Or.inl (hr rfl))
    · refine .call rfl (by simp) fun r _ => ?_
      cases r <;> exact fetchBuffered_serves _ hn

/-- The handler of a file sends its framed content, or nothing. -/
theorem dyadFetchRequestCb_serves :
    Serves ucxBuild content i (dyadFetchRequestCb ucxBuild)
      fun _ => True := by
  refine .call rfl (by simp) fun streaming _ => ?_
  cases streaming with
  | false => exact fetchErrorWith_serves _
  | true =>
    refine .call rfl (by simp) fun r _ => ?_
    cases r with
    | error e => exact fetchErrorWoFlock_serves
    | ok u =>
      refine .call rfl (by simp) fun r _ => ?_
      cases r with
      | nullAddress =>
        exact fun h => ⟨sendsFramed_of rfl (by simp), fun r => r.elim⟩
      | error rc => exact fetchErrorWith_serves _
      | ok =>
        refine .call rfl (by simp) fun r _ => ?_
        cases r with
        | error rc => exact fetchErrorWoFlock_serves
        | ok u =>
          refine .call rfl (by simp) fun r hr => ?_
          cases r with
          | error e => exact fetchErrorWoFlock_serves
          | ok fd =>
            obtain rfl := hr
            exact fetchOpened_serves

end

/-! ## What the consumer makes of it -/

/-- Whether the consumer has seen the size in front of its buffer. -/
def Polled (h : List (Prog.Event GetCall.Res)) : Prop :=
  ∃ e ∈ h, e.1 = .netBufReady

/-- What a link that carries the framed content answers. -/
def Receives (dtl : Dtl) (content : Bytes Byte)
    (h : List (Prog.Event GetCall.Res)) : (c : GetCall) → c.Res → Prop
  | .rpcGetRaw, .ok data => data = fetchPayload dtl.ucxBuild content
  | .recvReady, data => data = fetchPayload dtl.ucxBuild content
  | .netBuf, nb => Polled h → Framed content nb
  | .rpcPack, .error rc => rc ≠ .ok
  | .getBuffer _, .error rc => rc ≠ .ok
  | _, _ => True

section

variable {dtl : Dtl} {content : Bytes Byte}
  {h : List (Prog.Event GetCall.Res)}

/-- What has been received by the time the stream has to end: the file, or
for UCX the notice that the buffer is filled. -/
def Received (dtl : Dtl) (content : Bytes Byte)
    (h : List (Prog.Event GetCall.Res)) (r : FileData) : Prop :=
  r.rc = .ok → if dtl.mode = .ucx then Polled h else r.Exact content

theorem endOfStream_keeps (f : Bool) (rc : Rc) :
    Prog.wp (Receives dtl content) (fun _ _ => True)
      (fun h' rc' => (rc' = .ok → rc = .ok) ∧ (Polled h → Polled h'))
      (endOfStream f rc) h := by
  rw [endOfStream]
  split
  · split
    · refine Prog.wp_step True.intro fun e _ => ?_
      have hcons : ∀ e, Polled h → Polled (e :: h) := by
        rintro - ⟨e, he, heq⟩
        exact ⟨e, List.mem_cons_of_mem _ he, heq⟩
      cases e with
      | error e =>
        refine ⟨fun hrc => ?_, hcons _⟩
        by_cases he : e = Errno.ENODATA
        · rwa [if_pos he] at hrc
        · rw [if_neg he] at hrc
          exact absurd hrc (by simp)
      | ok u => exact ⟨fun hrc => absurd hrc (by simp), hcons _⟩
    · exact ⟨fun hrc => absurd hrc (by simp), id⟩
  · exact ⟨id, id⟩

theorem getDone_exact (hsize : content.size < 2 ^ 63) (f : Bool) {r : FileData} (hr : Received dtl content h r) :
    Prog.wp (Receives dtl content) (fun _ _ => True)
      (fun _ r => r.rc = .ok → r.Exact content) (getDone dtl f r) h := by
  refine Prog.wp_bind.2 (Prog.wp_imp (endOfStream_keeps f r.rc)
    fun h' rc hrc => ?_)
  split
  · next hucx =>
    refine Prog.wp_step True.intro fun nb hnb hok => ?_
    have hrcok : rc = .ok := by
      rw [stripPrefix] at hok
      split at hok
      · exact absurd hok (by simp)
      · exact hok
    have hrec := hr (hrc.1 hrcok)
    rw [if_pos hucx.2] at hrec
    exact stripPrefix_framed hsize (hnb (hrc.2 hrec))
  · next hucx =>
    intro hok
    have hm : dtl.mode ≠ .ucx := fun hm => hucx ⟨dtl.selectable hm, hm⟩
    have hrec := hr (hrc.1 hok)
    rwa [if_neg hm] at hrec

theorem dyadDtlRecv_received
    (hagree : dtl.ucxBuild = false ∨ dtl.mode = .ucx) :
    Prog.wp (Receives dtl content) (fun _ _ => True)
      (Received dtl content) (dyadDtlRecv dtl.mode) h := by
  have hraw : dtl.mode ≠ .ucx → ∀ data h,
      data = fetchPayload dtl.ucxBuild content →
      Received dtl content h ⟨.ok, data, data.size⟩ := by
    intro hm data h hdata _
    rw [if_neg hm]
    rw [hagree.resolve_right hm] at hdata
    obtain rfl : data = content := hdata
    exact ⟨rfl, Bytes.truncate_self data⟩
  cases hm : dtl.mode with
  | fluxRpc =>
    refine Prog.wp_step True.intro fun r hr => ?_
    cases r with
    | error e =>
      intro hok
      simp only [FileData.failed] at hok
      split at hok <;> exact absurd hok (by simp)
    | ok tmpBuf =>
      refine Prog.wp_step True.intro fun r' hr' => ?_
      cases r' with
      | error rc => exact fun hok => absurd hok hr'
      | ok u => exact hraw (by rw [hm]; simp) _ _ hr
  | ucx =>
    refine Prog.wp_step True.intro fun _ _ _ => ?_
    rw [if_pos hm]
    exact ⟨_, List.mem_cons_self .., rfl⟩
  | margo =>
    refine Prog.wp_step True.intro fun recvBuffer hr => ?_
    refine Prog.wp_step True.intro fun b _ => ?_
    cases b with
    | true => exact hraw (by rw [hm]; simp) _ _ hr
    | false => exact ⟨True.intro, fun r => r.elim⟩

/-- Where the two ends agree about the size in front, a transfer that returns
`DYAD_RC_OK` returns the file. -/
theorem dyadGetData_exact (hsize : content.size < 2 ^ 63)
    (hagree : dtl.ucxBuild = false ∨ dtl.mode = .ucx) :
    Prog.wp (Receives dtl content) (fun _ _ => True)
      (fun _ r => r.rc = .ok → r.Exact content) (dyadGetData dtl) [] := by
  refine Prog.wp_step True.intro fun packed hp => ?_
  cases packed with
  | error rc => exact getDone_exact hsize _ fun hok => absurd hok hp
  | ok u =>
    refine Prog.wp_step True.intro fun f _ => ?_
    cases f with
    | false =>
      exact getDone_exact hsize _ fun hok => absurd hok (by
        simp [FileData.failed])
    | true =>
      exact Prog.wp_bind.2 (Prog.wp_imp (dyadDtlRecv_received hagree)
        fun h r hr => getDone_exact hsize true hr)

end

/-! ## What the link carries -/

/-- Both parties' paths, and what lies between them. -/
structure Carries (dtl : Dtl) (content : Bytes Byte) (i : Nat)
    (s : Transfer) : Prop where
  underway : Underway dtl (fun _ _ _ => True) s
  node : s.node.Keeps content i
  client : Prog.Path (Receives dtl content) (dyadGetData dtl) s.asked s.client
  service : ∀ p, s.service = some p →
    Prog.Path (fun _ => Reads content i) (dyadFetchRequestCb dtl.ucxBuild)
      s.done p
  stream : ∀ data, .raw data ∈ s.link.stream →
    data = fetchPayload dtl.ucxBuild content
  arriving : ∀ data ∈ s.link.arriving,
    data = fetchPayload dtl.ucxBuild content
  ready : ∀ data, s.link.ready = some data →
    data = fetchPayload dtl.ucxBuild content
  /-- Once `rpc_pack` has cleared the size, it is not zero before the file is
  there. -/
  netBuf : dtl.mode = .ucx → s.asked ≠ [] →
    prefixValue s.link.netBuf 8 = 0 ∨ Framed content s.link.netBuf
  polled : Polled s.asked → Framed content s.link.netBuf

section

variable {dtl : Dtl} {content : Bytes Byte} {i : Nat} {s : Transfer}

theorem prefixValue_cleared (nb : Bytes Byte) :
    prefixValue (nb.splice 0 (Bytes.zeros 8)) 8 = 0 := by
  have hzero : ∀ j, j < 8 → (nb.splice 0 (Bytes.zeros 8)).get j =
      BitVec.ofNat 8 (0 / 256 ^ j) := by
    intro j hj
    rw [Bytes.get_splice, Bytes.size_zeros, if_pos (by omega),
      Bytes.get_zeros, Nat.zero_div]
    rfl
  exact (prefixValue_sizePrefix 8 hzero).trans (Nat.zero_mod _)

/-- What the link answers is what it carries. -/
theorem Carries.receives (hc : Carries dtl content i s) {c : GetCall}
    {x : Choice} {link : Link} {r : c.Res}
    (hex : s.link.exec dtl.mode c x = some (link, r)) :
    Receives dtl content s.asked c r := by
  cases c with
  | rpcPack =>
    have hr := (Link.exec_rpcPack hex).2
    cases r with
    | error rc => exact hr rc rfl
    | ok u => exact True.intro
  | rpcGetRaw =>
    rcases Link.exec_rpcGetRaw hex with
      ⟨data, rest, hs, rfl, -⟩ | ⟨e, rest, hs, rfl, -⟩
    · exact hc.stream data (hs ▸ List.mem_cons_self ..)
    · exact True.intro
  | getBuffer size =>
    have hr := (Link.exec_getBuffer hex).2
    cases r with
    | error rc => exact hr rc rfl
    | ok u => exact True.intro
  | recvReady => exact hc.ready _ (Link.exec_recvReady hex).1
  | netBuf =>
    obtain ⟨-, rfl⟩ := Link.exec_netBuf hex
    exact hc.polled
  | ub => exact r.elim
  | _ => exact True.intro

theorem polled_cons {h : List (Prog.Event GetCall.Res)}
    {e : Prog.Event GetCall.Res} :
    Polled (e :: h) ↔ e.1 = .netBufReady ∨ Polled h := by
  simp [Polled]

/-- A call of the consumer takes from the link, and polls what is filled. -/
theorem Carries.link (hc : Carries dtl content i s) {c : GetCall}
    {k : c.Res → GetProgram FileData} {x : Choice} {link : Link} {r : c.Res}
    (hcall : s.client = .call c k)
    (hex : s.link.exec dtl.mode c x = some (link, r)) :
    (∀ a ∈ link.stream, a ∈ s.link.stream) ∧
      link.arriving = s.link.arriving ∧
      (∀ data, link.ready = some data → s.link.ready = some data) ∧
      (dtl.mode = .ucx →
        prefixValue link.netBuf 8 = 0 ∨ Framed content link.netBuf) ∧
      (Polled (⟨c, r⟩ :: s.asked) → Framed content link.netBuf) := by
  have hcl := hc.underway.client
  rw [hcall] at hcl
  have hin := (hcl.wp (dyadGetData_inOrder dtl)).1
  have hfirst : c ≠ .rpcPack → s.asked ≠ [] := by
    intro hpack hnil
    rw [hnil] at hcl
    exact hpack (Prog.call.inj hcl.nil).1
  -- the buffer as it was, at a call that neither clears nor polls it
  have hsame : c ≠ .rpcPack → c ≠ .netBufReady →
      (dtl.mode = .ucx →
        prefixValue s.link.netBuf 8 = 0 ∨ Framed content s.link.netBuf) ∧
      (Polled (⟨c, r⟩ :: s.asked) → Framed content s.link.netBuf) := by
    intro hpack hpoll
    exact ⟨fun hm => hc.netBuf hm (hfirst hpack), fun hp =>
      hc.polled ((polled_cons.1 hp).resolve_left hpoll)⟩
  cases c with
  | rpcPack =>
    obtain ⟨rfl, -⟩ := Link.exec_rpcPack hex
    have hnil : s.asked = [] := hin
    refine ⟨fun a ha => packed_stream dtl.mode s.link ▸ ha, ?_, ?_, ?_, ?_⟩
    · rw [Link.packed]
      split <;> rfl
    · rw [Link.packed]
      split <;> exact fun _ => id
    · intro hm
      rw [Link.packed, if_pos hm]
      exact Or.inl (prefixValue_cleared _)
    · rw [hnil, polled_cons]
      rintro (hpoll | ⟨e, he, -⟩)
      · exact absurd hpoll (by simp)
      · exact absurd he (by simp)
  | fluxRpcPack =>
    obtain rfl := Link.exec_fluxRpcPack hex
    exact ⟨fun _ => id, rfl, fun _ => id, hsame (by simp) (by simp)⟩
  | rpcGetRaw =>
    rcases Link.exec_rpcGetRaw hex with
      ⟨data, rest, hs, -, rfl⟩ | ⟨e, rest, hs, -, rfl⟩
    · exact ⟨fun _ ha => hs ▸ List.mem_cons_of_mem _ ha, rfl, fun _ => id,
        hsame (by simp) (by simp)⟩
    · exact ⟨fun _ ha => hs ▸ List.mem_cons_of_mem _ ha, rfl, fun _ => id,
        hsame (by simp) (by simp)⟩
  | getBuffer size =>
    obtain ⟨rfl, -⟩ := Link.exec_getBuffer hex
    exact ⟨fun _ => id, rfl, fun _ => id, hsame (by simp) (by simp)⟩
  | recvReady =>
    obtain ⟨-, rfl⟩ := Link.exec_recvReady hex
    exact ⟨fun _ => id, rfl, fun _ h => absurd h (by simp),
      hsame (by simp) (by simp)⟩
  | malloc size =>
    obtain rfl := Link.exec_malloc hex
    exact ⟨fun _ => id, rfl, fun _ => id, hsame (by simp) (by simp)⟩
  | netBufReady =>
    obtain ⟨rfl, hne⟩ := Link.exec_netBufReady hex
    have hb := hc.netBuf hin (hfirst (by simp))
    exact ⟨fun _ => id, rfl, fun _ => id, fun _ => hb,
      fun _ => hb.resolve_left hne⟩
  | netBuf =>
    obtain ⟨rfl, -⟩ := Link.exec_netBuf hex
    exact ⟨fun _ => id, rfl, fun _ => id, hsame (by simp) (by simp)⟩
  | rpcGet =>
    obtain ⟨answer, rest, hs, rfl⟩ := Link.exec_rpcGet hex
    exact ⟨fun _ ha => hs ▸ List.mem_cons_of_mem _ ha, rfl, fun _ => id,
      hsame (by simp) (by simp)⟩
  | ub => exact r.elim

theorem Carries.asks (hc : Carries dtl content i s) {c : GetCall}
    {k : c.Res → GetProgram FileData} {x : Choice} {link : Link} {r : c.Res}
    (hcall : s.client = .call c k)
    (hex : s.link.exec dtl.mode c x = some (link, r)) :
    Carries dtl content i (s.asks dtl link c r (k r)) := by
  obtain ⟨hstream, harriving, hready, hnetBuf, hpolled⟩ := hc.link hcall hex
  have hcl := hc.client
  rw [hcall] at hcl
  constructor
  · exact hc.underway.asks hcall hex
  · exact hc.node
  · exact .step hcl (hc.receives hex)
  · intro p hp
    by_cases hr : c.requests r = true
    · have hdone := hc.underway.waiting (hc.underway.requests hcall hr)
      have hp : some (dyadFetchRequestCb dtl.ucxBuild) = some p := by
        simpa [Transfer.asks, hr] using hp
      obtain rfl := Option.some.inj hp
      show Prog.Path _ _ s.done _
      rw [hdone]
      exact .refl
    · exact hc.service p (by simpa [Transfer.asks, hr] using hp)
  · exact fun data hd => hc.stream data (hstream _ hd)
  · exact fun data hd => hc.arriving data (harriving ▸ hd)
  · exact fun data hd => hc.ready data (hready data hd)
  · exact fun hm _ => hnetBuf hm
  · exact hpolled

/-- What a call of the handler leaves on the link: what was there, the framed
content, or the end of the stream. -/
theorem served_link {l : Link} {c : Call} {r : c.Res}
    (hs : ∀ payload, c = .send payload →
      payload = fetchPayload dtl.ucxBuild content) :
    (∀ data, .raw data ∈ (l.served dtl.mode c r).stream →
        .raw data ∈ l.stream ∨ data = fetchPayload dtl.ucxBuild content) ∧
      (∀ data ∈ (l.served dtl.mode c r).arriving,
        data ∈ l.arriving ∨ data = fetchPayload dtl.ucxBuild content) ∧
      (l.served dtl.mode c r).ready = l.ready ∧
      ((l.served dtl.mode c r).netBuf = l.netBuf ∨
        Framed content (l.served dtl.mode c r).netBuf) := by
  have hsame : (∀ data, .raw data ∈ l.stream →
      .raw data ∈ l.stream ∨ data = fetchPayload dtl.ucxBuild content) ∧
      (∀ data ∈ l.arriving,
        data ∈ l.arriving ∨ data = fetchPayload dtl.ucxBuild content) ∧
      l.ready = l.ready ∧ (l.netBuf = l.netBuf ∨ Framed content l.netBuf) :=
    ⟨fun _ => Or.inl, fun _ => Or.inl, rfl, Or.inl rfl⟩
  cases c with
  | send payload =>
    obtain rfl := hs payload rfl
    cases r with
    | error rc => exact hsame
    | ok u =>
      cases hm : dtl.mode with
      | fluxRpc =>
        refine ⟨fun data hd => ?_, fun _ => Or.inl, rfl, Or.inl rfl⟩
        rcases List.mem_append.1 hd with hd | hd
        · exact Or.inl hd
        · exact Or.inr (Response.raw.inj (List.mem_singleton.1 hd))
      | ucx =>
        refine ⟨fun _ => Or.inl, fun _ => Or.inl, rfl, Or.inr ?_⟩
        rw [dtl.selectable hm]
        exact splice_framed content l.netBuf
      | margo =>
        refine ⟨fun _ => Or.inl, fun data hd => ?_, rfl, Or.inl rfl⟩
        rcases List.mem_append.1 hd with hd | hd
        · exact Or.inl hd
        · exact Or.inr (List.mem_singleton.1 hd)
  | respondError e =>
    refine ⟨fun data hd => ?_, fun _ => Or.inl, rfl, Or.inl rfl⟩
    rcases List.mem_append.1 hd with hd | hd
    · exact Or.inl hd
    · exact absurd hd (by simp)
  | _ => exact hsame

theorem Carries.serves (hc : Carries dtl content i s) {c : Call}
    {k : c.Res → Program Unit} {x : Choice} {node : Node} {r : c.Res}
    (hcall : s.service = some (.call c k))
    (hex : s.node.exec reactor c x = some (node, r)) :
    Carries dtl content i (s.serves dtl node c r (k r)) := by
  have hs := hc.service _ hcall
  have hgood := (hs.wp (dyadFetchRequestCb_serves [])).1
  obtain ⟨hnode, hread⟩ := hc.node.exec hgood.1 hex
  obtain ⟨hstream, harriving, hready, hnetBuf⟩ :=
    @served_link dtl content s.link c r hgood.2
  constructor
  · exact hc.underway.serves node r hcall True.intro
  · exact hnode
  · exact hc.client
  · intro p hp
    obtain rfl := Option.some.inj hp
    exact .step hs hread
  · exact fun data hd => (hstream data hd).elim (hc.stream data) id
  · exact fun data hd => (harriving data hd).elim (hc.arriving data) id
  · exact fun data hd => hc.ready data (hready ▸ hd)
  · intro hm hne
    rcases hnetBuf with heq | hf
    · exact heq ▸ hc.netBuf hm hne
    · exact Or.inr hf
  · intro hp
    rcases hnetBuf with heq | hf
    · exact heq ▸ hc.polled hp
    · exact hf

/-- The nodes that keep a file of this content under its name. -/
def Keeping (content : Bytes Byte) (w : Node) : Prop :=
  ∃ i, w.Keeps content i

theorem transfer_carries {ok : Transfer → TransferStep → Prop}
    (h : (transfer dtl (Keeping content)).Reach ok s) :
    ∃ i, Carries dtl content i s := by
  refine h.invariant (P := fun s => ∃ i, Carries dtl content i s)
    (fun s hs => ?_) fun s l s' ⟨i, hc⟩ _ hn => ⟨i, ?_⟩
  · have hreach : (transfer dtl (Keeping content)).Reach ok s := ⟨s, hs, .refl⟩
    have hu : Underway dtl (fun _ _ _ => True) s :=
      transfer_underway hreach fun _ _ _ _ _ _ _ _ _ => True.intro
    obtain ⟨⟨i, hnode⟩, hstream, harriving, hready, hclient, hasked, hservice,
      -⟩ := hs
    refine ⟨i, hu, hnode, ?_, ?_, ?_, ?_, ?_, ?_, ?_⟩
    · rw [hclient, hasked]
      exact .refl
    · exact fun p hp => absurd (hservice.symm.trans hp) (by simp)
    · exact fun data hd => absurd (hstream ▸ hd) (by simp)
    · exact fun data hd => absurd (harriving ▸ hd) (by simp)
    · exact fun data hd => absurd (hready.symm.trans hd) (by simp)
    · exact fun _ hne => absurd hasked hne
    · rintro ⟨e, he, -⟩
      exact absurd (hasked ▸ he) (by simp)
  · rcases transfer_cases hn with ⟨x, c, k, link, r, -, hcall, hex, rfl⟩ |
      ⟨x, c, k, node, r, -, hcall, hex, rfl⟩ | ⟨data, rest, -, ha, rfl⟩
    · exact hc.asks hcall hex
    · exact hc.serves hcall hex
    · have hu := hc.underway
      refine ⟨⟨hu.client, hu.asked, hu.waiting, hu.service, hu.stream⟩,
        hc.node, hc.client, hc.service, hc.stream, ?_, ?_, hc.netBuf,
        hc.polled⟩
      · exact fun data hd => hc.arriving data (ha ▸ List.mem_cons_of_mem _ hd)
      · intro data' hd
        obtain rfl := Option.some.inj hd
        exact hc.arriving _ (ha ▸ List.mem_cons_self ..)

end

/-! ## A transfer that goes through -/

/-- Thread `t` can run `p` from `w` to the end, alone: the calls of `tr`, in
order, with their answers. -/
inductive Plays (t : Tid) {α : Type} :
    Node → Program α → List (Prog.Event Call.Res) → Node → α → Prop
  | pure (w : Node) (a : α) : Plays t w (.pure a) [] w a
  | call {w w₁ w' : Node} {c : Call} {k : c.Res → Program α} {r : c.Res}
      {tr : List (Prog.Event Call.Res)} {a : α} (x : Choice) :
      w.exec t c x = some (w₁, r) → Plays t w₁ (k r) tr w' a →
        Plays t w (.call c k) (⟨c, r⟩ :: tr) w' a

theorem Plays.bind {t : Tid} {α β : Type} {w w₁ w' : Node} {p : Program α}
    {f : α → Program β} {tr tr' : List (Prog.Event Call.Res)} {a : α} {b : β}
    (hp : Plays t w p tr w₁ a) (hf : Plays t w₁ (f a) tr' w' b) :
    Plays t w (p.bind f) (tr ++ tr') w' b := by
  induction hp with
  | pure w a => exact hf
  | call x hex _ ih => exact .call x hex (ih hf)

theorem Plays.step {t : Tid} {α : Type} {w w₁ w' : Node} {c : Call}
    {f : c.Res → Program α} {r : c.Res} {tr : List (Prog.Event Call.Res)}
    {a : α} (x : Choice) (hex : w.exec t c x = some (w₁, r))
    (hf : Plays t w₁ (f r) tr w' a) :
    Plays t w ((perform c).bind f) (⟨c, r⟩ :: tr) w' a :=
  .call x hex hf

/-- The link after the calls of `tr`. -/
def Link.after (mode : DtlMode) (l : Link)
    (tr : List (Prog.Event Call.Res)) : Link :=
  tr.foldl (fun l e => l.served mode e.1 e.2) l

/-- A handler that can run to its end does, while its consumer stands
still. -/
theorem Plays.run {dtl : Dtl} {start : Node → Prop} {s : Transfer}
    {p : Program Unit} {tr : List (Prog.Event Call.Res)} {w' : Node} {a : Unit}
    (hp : Plays reactor s.node p tr w' a) (hs : s.service = some p) :
    (transfer dtl start).Run (fun _ _ => True) s
      { s with
        node := w'
        link := s.link.after dtl.mode tr
        service := some (.pure a)
        done := tr.reverse ++ s.done } := by
  generalize hw : s.node = w at hp
  induction hp generalizing s with
  | pure w a =>
    subst hw
    rw [show ({ s with
        node := s.node, link := s.link.after dtl.mode [],
        service := some (.pure a), done := [].reverse ++ s.done } :
          Transfer) = s by rw [← hs]; rfl]
    exact .refl
  | @call w w₁ w' c k r tr a x hex _ ih =>
    have hn : (transfer dtl start).next s (.service x) =
        some (s.serves dtl w₁ c r (k r)) := by
      simp only [transfer, hs, hw, hex, Option.map_some]
    have hrest := @ih (s.serves dtl w₁ c r (k r)) rfl rfl
    refine (Lts.Run.step .refl True.intro hn).trans ?_
    rw [List.reverse_cons, List.append_assoc]
    exact hrest

/-- A node with a file of this content, and nothing else. -/
def Node.owning (content : Bytes Byte) (h : content.size < 2 ^ 63) : Node where
  os := {
    dir := fun n => if n = .data then some 0 else none
    file := fun _ => content
    locks := fun _ => LockTable.free
    mutex := fun _ => none
    born := fun _ => .data
    next := 1
    linked := fun n i h => by
      split at h
      · next hn =>
        obtain rfl := Option.some.inj h
        exact ⟨Nat.one_pos, hn.symm⟩
      · exact absurd h (by simp) }
  published := content
  owner := none
  busy := fun _ => false
  dtl := Dtl.plain
  offT := h

section

variable {content : Bytes Byte} {i : Nat} {w : Node}

theorem Node.Keeps.readInto_plays (hw : w.Keeps content i) (off len : Nat) :
    Plays reactor w (readInto true i off len)
      [⟨.sys (.pread i off len), .ok (content.slice off len)⟩] w
      (some (content.slice off len)) := by
  have hex : w.exec reactor (.sys (.pread i off len)) (.os .ok) =
      some (w, .ok ((w.os.file i).slice off len)) := rfl
  rw [hw.2] at hex
  exact .step _ hex (.pure w _)

/-- The chunked read reads the file to its end. -/
theorem Node.Keeps.fetchReadLoop_plays (hw : w.Keeps content i) (fuel : Nat)
    {got : Bytes Byte} (hle : got.size ≤ content.size)
    (hgot : got = content.slice 0 got.size)
    (hfuel : content.size ≤ got.size + fuel) :
    ∃ tr, Plays reactor w (fetchReadLoop true i content.size fuel got) tr w
      (some content) ∧ ∀ mode l, Link.after mode l tr = l := by
  have hend : content.size ≤ got.size → got = content := by
    intro hge
    rw [hgot, Nat.le_antisymm hle hge]
    exact Bytes.slice_zero_size (Nat.le_refl _)
  induction fuel generalizing got with
  | zero =>
    rw [fetchReadLoop, hend hfuel]
    exact ⟨[], .pure _ _, fun _ _ => rfl⟩
  | succ fuel ih =>
    rw [fetchReadLoop]
    split
    · next hlt =>
      have hg : 0 < transferGranularity := by decide
      generalize hn : min (content.size - got.size) transferGranularity = n
      have happ : got.append (content.slice got.size n) =
          content.slice 0 (got.size + n) := by
        have := @Bytes.slice_append Byte _ content 0 got.size n (by omega)
        rwa [← hgot, Nat.zero_add] at this
      have hsize : (content.slice 0 (got.size + n)).size = got.size + n := by
        rw [Bytes.size_slice]
        omega
      obtain ⟨tr, htr, hlink⟩ := @ih (content.slice 0 (got.size + n))
        (by rw [hsize]; omega) (by rw [hsize]) (by rw [hsize]; omega)
        (fun hge => by
          rw [hsize] at hge
          rw [Nat.le_antisymm (by omega) hge]
          exact Bytes.slice_zero_size (Nat.le_refl _))
      refine ⟨_, (hw.readInto_plays got.size n).bind ?_,
        fun mode l => hlink mode l⟩
      dsimp only
      rw [if_neg (by rw [Bytes.size_slice]; omega), happ]
      exact htr
    · rw [hend (by omega)]
      exact ⟨[], .pure _ _, fun _ _ => rfl⟩

theorem Node.Keeps.fetchRead_plays (hw : w.Keeps content i) :
    ∃ tr, Plays reactor w (fetchRead true i content.size) tr w
      (some content) ∧ ∀ mode l, Link.after mode l tr = l := by
  rw [fetchRead]
  split
  · have hread := hw.readInto_plays 0 content.size
    rw [Bytes.slice_zero_size (Nat.le_refl _)] at hread
    exact ⟨_, hread, fun _ _ => rfl⟩
  · exact hw.fetchReadLoop_plays _ (Nat.zero_le _)
      (Bytes.eq_empty_of_size (by simp)).symm (by simp)

/-- From `w` the handler can run `p`, send the framed content and end the
stream. -/
def Delivers (content : Bytes Byte) (w : Node) (p : Program Unit) : Prop :=
  ∃ tr w', Plays reactor w p tr w' () ∧ ∀ mode l, Link.after mode l tr =
    (l.send mode (fetchPayload true content)).served mode
      (.respondError Errno.ENODATA) ()

theorem Delivers.step {w₁ : Node} {c : Call} {f : c.Res → Program Unit}
    {r : c.Res} (x : Choice) (hex : w.exec reactor c x = some (w₁, r))
    (hq : ∀ mode l, Link.served mode l c r = l)
    (hf : Delivers content w₁ (f r)) :
    Delivers content w ((perform c).bind f) := by
  obtain ⟨tr, w', hp, hl⟩ := hf
  refine ⟨_, w', .step x hex hp, fun mode l => ?_⟩
  show Link.after mode (l.served mode c r) tr = _
  rw [hq]
  exact hl mode l

theorem Delivers.bind {α : Type} {p : Program α} {f : α → Program Unit} {a : α}
    {w₁ : Node} {tr : List (Prog.Event Call.Res)}
    (hp : Plays reactor w p tr w₁ a)
    (hq : ∀ mode l, Link.after mode l tr = l)
    (hf : Delivers content w₁ (f a)) : Delivers content w (p.bind f) := by
  obtain ⟨tr', w', hp', hl⟩ := hf
  refine ⟨_, w', hp.bind hp', fun mode l => ?_⟩
  rw [Link.after, List.foldl_append]
  show Link.after mode (Link.after mode l tr) tr' = _
  rw [hq]
  exact hl mode l

theorem fetchSend_delivers :
    Delivers content w (fetchSend (fetchPayload true content)) := by
  refine .step (.os .ok) rfl (fun _ _ => rfl) ?_
  refine ⟨_, w, .step (.os .ok) rfl <| .step (.os .ok) rfl <|
    .step (.os .ok) rfl <| .call (.os .ok) rfl <| .pure w (), fun _ _ => rfl⟩

theorem Node.Keeps.fetchBuffered_delivers (hw : w.Keeps content i)
    (hne : 0 < content.size) :
    Delivers content w (fetchBuffered true true i content.size) := by
  obtain ⟨tr, htr, hq⟩ := hw.fetchRead_plays
  rw [fetchBuffered, if_neg (by simp), if_pos hne]
  refine .bind htr hq ?_
  dsimp only
  rw [if_neg (by simp)]
  refine .bind (.step (.os .ok) rfl (.pure _ _)) (fun _ _ => rfl) ?_
  exact .step (.os .ok) rfl (fun _ _ => rfl) fetchSend_delivers

theorem Node.Keeps.fetchOpened_delivers (hw : w.Keeps content i)
    (hfree : w.os.locks i = LockTable.free) (hne : 0 < content.size) :
    Delivers content w (fetchOpened true i) := by
  obtain ⟨l, hl⟩ : ∃ l, (w.os.locks i).acquire reactor.1 .shared = some l := by
    rw [hfree]
    exact ⟨_, rfl⟩
  have hlock : w.exec reactor (.sys (.setlkw i .shared)) (.os .ok) =
      some ({ w with os := w.os.setLocks i l }, .ok ()) := by
    simp only [Node.exec, Os.exec, hl, Option.map_some]
  generalize hw₁ : { w with os := w.os.setLocks i l } = w₁ at hlock
  have hkeep : w₁.Keeps content i := by
    subst hw₁
    exact hw
  refine .bind (.step (.os .ok) hlock (.pure _ _)) (fun _ _ => rfl) ?_
  rw [if_neg (by decide)]
  have hsize : w₁.exec reactor (.sys (.fstat i)) (.os .ok) =
      some (w₁, .ok (w₁.os.file i).size) := rfl
  rw [hkeep.2] at hsize
  refine .bind (.step (.os .ok) hsize (.pure _ _)) (fun _ _ => rfl) ?_
  exact .step (.os .ok) rfl (fun _ _ => rfl)
    (hkeep.fetchBuffered_delivers hne)

/-- The handler of a file that is there sends it, and ends the stream. -/
theorem dyadFetchRequestCb_delivers (hne : 0 < content.size)
    (hsize : content.size < 2 ^ 63) :
    Delivers content (Node.owning content hsize) (dyadFetchRequestCb true) := by
  have hw : (Node.owning content hsize).Keeps content 0 := ⟨rfl, rfl⟩
  have hopen : (Node.owning content hsize).exec reactor
      (.sys (.open .data false false)) (.os .ok) =
        some (Node.owning content hsize, .ok 0) := rfl
  refine .step (.flag true) rfl (fun _ _ => rfl) ?_
  refine .step (.os .ok) rfl (fun _ _ => rfl) ?_
  refine .step (.os .ok) rfl (fun _ _ => rfl) ?_
  refine .step (.os .ok) rfl (fun _ _ => rfl) ?_
  exact .step (.os .ok) hopen (fun _ _ => rfl)
    (hw.fetchOpened_delivers rfl hne)

end

/-- A transfer from such a node that has not begun. -/
def Transfer.ofOwning (dtl : Dtl) (content : Bytes Byte)
    (h : content.size < 2 ^ 63) : Transfer where
  node := Node.owning content h
  link := ⟨[], [], none, Bytes.empty⟩
  client := dyadGetData dtl
  asked := []
  service := none
  done := []

/-- The consumer has asked and stands before its `recv`; the service has sent
the file, with its size in front, and ended the stream. -/
theorem transfer_served {mode : DtlMode} (hsel : mode = .ucx → true = true)
    {content : Bytes Byte} (hne : 0 < content.size)
    (hsize : content.size < 2 ^ 63) :
    ∃ s, (transfer ⟨true, mode, hsel⟩ (Keeping content)).Reach
        (fun _ _ => True) s ∧
      s.client = (dyadDtlRecv mode).bind
        (fun r => getDone ⟨true, mode, hsel⟩ true r) ∧
      s.link = (((Link.mk [] [] none Bytes.empty).packed mode).send mode
        (fetchPayload true content)).served mode
          (.respondError Errno.ENODATA) () := by
  obtain ⟨tr, w', hplay, hafter⟩ := dyadFetchRequestCb_delivers hne hsize
  have hinit : (transfer ⟨true, mode, hsel⟩ (Keeping content)).init
      (.ofOwning ⟨true, mode, hsel⟩ content hsize) :=
    ⟨⟨0, rfl, rfl⟩, rfl, rfl, rfl, rfl, rfl, rfl, rfl⟩
  obtain ⟨s, hask, hnode, hlink, hclient, hservice⟩ :
      ∃ s, (transfer ⟨true, mode, hsel⟩ (Keeping content)).Run
          (fun _ _ => True) (.ofOwning ⟨true, mode, hsel⟩ content hsize) s ∧
        s.node = Node.owning content hsize ∧
        s.link = (Link.mk [] [] none Bytes.empty).packed mode ∧
        s.client = (dyadDtlRecv mode).bind
          (fun r => getDone ⟨true, mode, hsel⟩ true r) ∧
        s.service = some (dyadFetchRequestCb true) :=
    ⟨_, @Lts.Run.replayed _ _ _ _ _ [.client (.os .ok), .client (.flag true)]
      rfl, rfl, rfl, rfl, rfl⟩
  rw [← hnode] at hplay
  refine ⟨_, ⟨_, hinit, hask.trans (hplay.run hservice)⟩, hclient, ?_⟩
  rw [← hlink]
  exact hafter mode s.link

/-- In a build with UCX, the other two modes return the size along with the
content. -/
theorem transfer_prefixed {dtl : Dtl} {content : Bytes Byte}
    (hbuild : dtl.ucxBuild = true) (hm : dtl.mode ≠ .ucx)
    (hne : 0 < content.size) (hsize : content.size < 2 ^ 63) :
    ∃ s r, (transfer dtl (Keeping content)).Reach (fun _ _ => True) s ∧
      s.client = .pure r ∧ r.rc = .ok ∧ r.len = content.size + 8 := by
  obtain ⟨ucxBuild, mode, hsel⟩ := dtl
  obtain rfl : ucxBuild = true := hbuild
  obtain ⟨⟨node, link, client, asked, service, done⟩, hs, hclient, hlink⟩ :=
    transfer_served hsel hne hsize
  obtain rfl : client = _ := hclient
  obtain rfl : link = _ := hlink
  cases mode with
  | ucx => exact absurd rfl hm
  | fluxRpc =>
    exact ⟨_, _, hs.run (@Lts.Run.replayed _ _ _ _ _
      [.client (.os .ok), .client (.os .ok), .client (.os .ok)] rfl),
      rfl, rfl, size_fetchPayload true content⟩
  | margo =>
    exact ⟨_, _, hs.run (@Lts.Run.replayed _ _ _ _ _
      [.deliver, .client (.os .ok), .client (.flag true), .client (.os .ok)]
      rfl), rfl, rfl, size_fetchPayload true content⟩

/-- Every transfer of the file that returns `DYAD_RC_OK` gives back its bytes
and its size. -/
def GivesBack (dtl : Dtl) (content : Bytes Byte) : Prop :=
  ∀ s r, (transfer dtl (Keeping content)).Reach (fun _ _ => True) s →
    s.client = .pure r → r.rc = .ok → r.Exact content

/-- A transfer gives back the file, exactly when the build has no UCX or the
mode is UCX. -/
theorem transfer_exact (dtl : Dtl) (content : Bytes Byte)
    (hne : 0 < content.size) (hsize : content.size < 2 ^ 63) :
    GivesBack dtl content ↔ dtl.ucxBuild = false ∨ dtl.mode = .ucx := by
  constructor
  · intro hexact
    by_contra hno
    obtain ⟨hbuild, hm⟩ := not_or.1 hno
    obtain ⟨s, r, hs, hr, hok, hlen⟩ :=
      transfer_prefixed (by simpa using hbuild) hm hne hsize
    have := (hexact s r hs hr hok).1
    omega
  · intro hagree s r hs hr hok
    obtain ⟨i, hc⟩ := transfer_carries hs
    have hcl := hc.client
    rw [hr] at hcl
    exact hcl.wp (dyadGetData_exact hsize hagree) hok

/-- One byte, over UCX. -/
theorem transfer_exact_ucx :
    GivesBack ⟨true, .ucx, fun _ => rfl⟩ (Bytes.ofList [7]) :=
  (transfer_exact ⟨true, .ucx, fun _ => rfl⟩ (Bytes.ofList [7]) (by decide)
    (by decide)).2 (Or.inr rfl)

/-- Over the Flux RPC of the same build the byte comes with its size. -/
theorem transfer_not_exact :
    ¬ ∀ (dtl : Dtl) (content : Bytes Byte), 0 < content.size →
      content.size < 2 ^ 63 → GivesBack dtl content := by
  intro h
  obtain ⟨s, r, hs, hr, hok, hlen⟩ :=
    @transfer_prefixed ⟨true, .fluxRpc, by decide⟩ (Bytes.ofList [7]) rfl
      (by decide) (by decide) (by decide)
  have := (h _ _ (by decide) (by decide) s r hs hr hok).1
  omega

end Dyad
