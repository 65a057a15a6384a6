import Dyad.Service.Request
import Dyad.Transfer

/-!
# A consumer left waiting

A consumer waits in the `recv` of its DTL before it looks at the end of the
RPC's stream. Over the Flux RPC both come on that stream, so an error response
ends the wait. Margo and UCX wait for data alone: a handler that gives up
before it has sent any leaves its consumer waiting for good. It gives up where
one of its calls does not succeed (`Succeeds`), and with none of these it sends
the data before it ends the stream.

The stream holds what the service has said and the consumer has not taken
yet.
-/

namespace Dyad

open Conc Posix

/-- The calls in which a DTL's `recv` waits for data. -/
def GetCall.receives : GetCall → Bool
  | .rpcGetRaw => true
  | .recvReady => true
  | .netBufReady => true
  | _ => false

/-- Whether a call of the service handed data to the DTL. -/
def sendsData : Prog.Event Call.Res → Bool
  | ⟨.send _, .ok _⟩ => true
  | _ => false

/-- The service has finished with the request, having ended the stream and
sent no data, and the consumer waits in `recv` with none in flight, for
something that will not come. -/
def Stranded (dtl : Dtl) (s : Transfer) : Prop :=
  s.service = some (.pure ()) ∧ s.done.filterMap terminal ≠ [] ∧
    s.done.any sendsData = false ∧ s.link.arriving = [] ∧
    ∃ c k, s.client = .call c k ∧ c.receives = true ∧
      s.link.exec dtl.mode c (.os .ok) = none

/-- A call of the handler goes so that the data can be sent: the request is a
stream that can be unpacked and answered, the file is there, can be locked and
is not empty, all of it can be read, and the DTL has a buffer, connects and
sends. A file that is read in more than one piece may be read in smaller ones.
Without a buffer a build with the UCX DTL does not answer at all. -/
def Succeeds (ucxBuild : Bool) (h : ServiceHistory) (c : Call) (r : c.Res) :
    Prop :=
  match c, r with
  | .msgIsStreaming, b => b = true
  | .msgGetUserid, .error _ => False
  | .rpcUnpack, .error _ => False
  | .rpcRespond, .error _ => False
  | .sys (.open ..), .error _ => False
  | .sys (.setlkw ..), .error _ => False
  | .sys (.fstat _), r => ∃ size, r = .ok size ∧ 0 < size
  | .getBuffer _, .error _ => ucxBuild = true
  | .sys (.pread _ _ len), r => ∃ d, r = .ok d ∧
      (d.size = len ∨ 0 < d.size ∧
        ∀ size, sizeSeen h = some size → transferGranularity ≤ size)
  | .establishConnection, .error _ => False
  | .send _, .error _ => False
  | _, _ => True

/-- The service makes no call that does not succeed, or its data channel is the
stream. -/
def keepsServing (dtl : Dtl) (s : Transfer) (l : TransferStep) : Prop :=
  dtl.mode = .fluxRpc ∨ ∀ x c k node r, l = .service x →
    s.service = some (.call c k) →
    s.node.exec reactor c x = some (node, r) →
    Succeeds dtl.ucxBuild s.done c r

/-! ## What is on the stream -/

/-- What a call of the service says on the stream. -/
def emits (mode : DtlMode) : Prog.Event Call.Res → List Response
  | ⟨.send payload, .ok _⟩ => if mode = .fluxRpc then [.raw payload] else []
  | ⟨.respondError e, _⟩ => [.error e]
  | _ => []

/-- What the service has said. -/
def said (mode : DtlMode) : List (Prog.Event Call.Res) → List Response
  | [] => []
  | e :: h => said mode h ++ emits mode e

/-- How many responses the consumer has taken. -/
def taken (h : List (Prog.Event GetCall.Res)) : Nat :=
  h.countP fun e => match e.1 with
    | .rpcGetRaw => true
    | .rpcGet => true
    | _ => false

theorem served_stream (mode : DtlMode) (l : Link) (c : Call) (r : c.Res) :
    (l.served mode c r).stream = l.stream ++ emits mode ⟨c, r⟩ := by
  cases c with
  | send payload =>
    cases r with
    | ok u => cases mode <;> simp [Link.served, Link.send, emits]
    | error rc => simp [Link.served, emits]
  | respondError e => rfl
  | _ => simp [Link.served, emits]

theorem said_ne_nil {mode : DtlMode} {h : List (Prog.Event Call.Res)}
    (ht : h.filterMap terminal ≠ []) : said mode h ≠ [] := by
  induction h with
  | nil => exact absurd rfl ht
  | cons e h ih =>
    intro hs
    obtain ⟨hs, he⟩ := List.append_eq_nil_iff.1 hs
    refine ih (fun hnil => ht ?_) hs
    rw [List.filterMap_cons, hnil]
    obtain ⟨c, r⟩ := e
    cases c with
    | respondError e => exact absurd he (by simp [emits])
    | _ => rfl

theorem packed_stream (mode : DtlMode) (l : Link) :
    (l.packed mode).stream = l.stream := by
  rw [Link.packed]
  split <;> rfl

/-- A call of the consumer takes the response in front, or none. -/
theorem exec_stream {mode : DtlMode} {l l' : Link} {c : GetCall} {x : Choice}
    {r : c.Res} (h : l.exec mode c x = some (l', r)) :
    ∃ got, got.length = taken [⟨c, r⟩] ∧ l.stream = got ++ l'.stream := by
  cases c with
  | rpcPack =>
    obtain ⟨rfl, -⟩ := Link.exec_rpcPack h
    exact ⟨[], rfl, (packed_stream mode l).symm⟩
  | fluxRpcPack =>
    obtain rfl := Link.exec_fluxRpcPack h
    exact ⟨[], rfl, rfl⟩
  | rpcGetRaw =>
    rcases Link.exec_rpcGetRaw h with
      ⟨data, rest, hs, -, rfl⟩ | ⟨e, rest, hs, -, rfl⟩
    · exact ⟨[.raw data], rfl, hs⟩
    · exact ⟨[.error e], rfl, hs⟩
  | getBuffer size =>
    obtain ⟨rfl, -⟩ := Link.exec_getBuffer h
    exact ⟨[], rfl, rfl⟩
  | recvReady =>
    obtain ⟨-, rfl⟩ := Link.exec_recvReady h
    exact ⟨[], rfl, rfl⟩
  | malloc size =>
    obtain rfl := Link.exec_malloc h
    exact ⟨[], rfl, rfl⟩
  | netBufReady =>
    obtain ⟨rfl, -⟩ := Link.exec_netBufReady h
    exact ⟨[], rfl, rfl⟩
  | netBuf =>
    obtain ⟨rfl, -⟩ := Link.exec_netBuf h
    exact ⟨[], rfl, rfl⟩
  | rpcGet =>
    obtain ⟨answer, rest, hs, rfl⟩ := Link.exec_rpcGet h
    exact ⟨[answer], rfl, hs⟩
  | ub => exact r.elim

/-- The stream holds what has been said and not been taken. -/
def StreamHolds (dtl : Dtl) (s : Transfer) : Prop :=
  ∃ got, got.length = taken s.asked ∧
    said dtl.mode s.done = got ++ s.link.stream

/-! ## The service sends -/

/-- What the handler's calls answer where they succeed. A read returns no more
than was asked for. -/
def Favours (ucxBuild : Bool) (h : ServiceHistory) (c : Call) (r : c.Res) :
    Prop :=
  Succeeds ucxBuild h c r ∧
    match c, r with
    | .sys (.pread _ _ len), .ok d => d.size ≤ len
    | _, _ => True

/-- Where all calls succeed, the part `p` comes to `R`. -/
abbrev Favoured {α : Type} (ucxBuild : Bool) (p : Program α)
    (R : ServiceHistory → α → Prop) (h : ServiceHistory) : Prop :=
  Prog.wp (Favours ucxBuild) (fun _ _ => True) R p h

/-- The data has been sent. -/
abbrev HasSent (h : ServiceHistory) (_ : Unit) : Prop := h.any sendsData = true

section Service

variable {ucxBuild : Bool}

theorem fetchSend_sends (payload : Bytes Byte) (h : ServiceHistory) :
    Favoured ucxBuild (fetchSend payload) HasSent h := by
  refine Prog.wp_step True.intro fun connected hr => ?_
  cases connected with
  | error rc => exact hr.1.elim
  | ok u =>
    refine Prog.wp_step True.intro fun sent hr => ?_
    cases sent with
    | error rc => exact hr.1.elim
    | ok u =>
      exact ⟨True.intro, fun _ _ => ⟨True.intro, fun _ _ =>
        ⟨True.intro, fun _ _ => rfl⟩⟩⟩

/-- The chunked loop reads on to the end of the file. -/
theorem fetchReadLoop_whole (fd fileSize fuel : Nat) (content : Bytes Byte)
    (hle : content.size ≤ fileSize) (hfuel : fileSize ≤ content.size + fuel)
    (h : ServiceHistory) :
    Favoured ucxBuild (fetchReadLoop true fd fileSize fuel content)
      (fun _ r => ∃ d, r = some d ∧ d.size = fileSize) h := by
  induction fuel generalizing content h with
  | zero => exact ⟨content, rfl, by omega⟩
  | succ fuel ih =>
    rw [fetchReadLoop]
    split
    · next hmore =>
      refine Prog.wp_step True.intro fun r hr => ?_
      obtain ⟨⟨d, rfl, hd⟩, hlen⟩ := hr
      have hlen : d.size ≤
          min (fileSize - content.size) transferGranularity := hlen
      have hgran : 0 < transferGranularity := by decide
      have hpos : 0 < d.size := by omega
      have happ := Bytes.size_append content d
      show Favoured ucxBuild (if d.size = 0 then _ else _) _ _
      rw [if_neg (Nat.pos_iff_ne_zero.1 hpos)]
      exact ih _ (by omega) (by omega) _
    · exact ⟨content, rfl, by omega⟩

theorem fetchRead_whole {fd fileSize : Nat} {h : ServiceHistory}
    (hs : sizeSeen h = some fileSize) :
    Favoured ucxBuild (fetchRead true fd fileSize)
      (fun _ r => ∃ d, r = some d ∧ d.size = fileSize) h := by
  rw [fetchRead]
  split
  · next hsmall =>
    refine Prog.wp_step True.intro fun r hr => ?_
    obtain ⟨⟨d, rfl, hfull | ⟨-, hlarge⟩⟩, -⟩ := hr
    · exact ⟨d, rfl, hfull⟩
    · exact absurd (hlarge fileSize hs) (by omega)
  · exact fetchReadLoop_whole fd fileSize fileSize Bytes.empty
      (Nat.zero_le _) (Nat.le_add_left _ _) h

theorem fetchBuffered_sends {fd fileSize : Nat} {h : ServiceHistory}
    (hpos : 0 < fileSize) (hs : sizeSeen h = some fileSize) :
    Favoured ucxBuild (fetchBuffered ucxBuild true fd fileSize) HasSent h := by
  rw [fetchBuffered, if_neg (by simp), if_pos hpos]
  refine Prog.wp_bind.2 (Prog.wp_imp (fetchRead_whole hs)
    fun h r ⟨d, hr, hfull⟩ => ?_)
  subst hr
  dsimp only
  rw [if_neg (not_not.2 hfull)]
  refine Prog.wp_step True.intro fun r _ => ?_
  cases r <;> exact Prog.wp_step True.intro fun _ _ => fetchSend_sends _ _

theorem fetchOpened_sends (fd : Nat) (h : ServiceHistory) :
    Favoured ucxBuild (fetchOpened ucxBuild fd) HasSent h := by
  refine Prog.wp_step True.intro fun locked hr => ?_
  cases locked with
  | error e => exact hr.1.elim
  | ok u =>
    refine Prog.wp_step True.intro fun r hr => ?_
    obtain ⟨⟨size, rfl, hpos⟩, -⟩ := hr
    refine Prog.wp_step True.intro fun buffer hr => ?_
    cases buffer with
    | ok u => exact fetchBuffered_sends hpos rfl
    | error rc =>
      obtain rfl : ucxBuild = true := hr.1
      exact ⟨True.intro, fun r => r.elim⟩

/-- The handler sends the data where its calls succeed. -/
theorem dyadFetchRequestCb_sends (h : ServiceHistory) :
    Favoured ucxBuild (dyadFetchRequestCb ucxBuild) HasSent h := by
  refine Prog.wp_step True.intro fun streaming hr => ?_
  obtain rfl : streaming = true := hr.1
  refine Prog.wp_step True.intro fun userid hr => ?_
  cases userid with
  | error e => exact hr.1.elim
  | ok u =>
    refine Prog.wp_step True.intro fun unpacked hr => ?_
    cases unpacked with
    | nullAddress => exact ⟨True.intro, fun r => r.elim⟩
    | error rc => exact hr.1.elim
    | ok =>
      refine Prog.wp_step True.intro fun responded hr => ?_
      cases responded with
      | error rc => exact hr.1.elim
      | ok u =>
        refine Prog.wp_step True.intro fun opened hr => ?_
        cases opened with
        | error e => exact hr.1.elim
        | ok fd => exact fetchOpened_sends fd _

end Service

/-! ## The consumer's order -/

/-- When each call of `dyad_get_data` is made: the request once, and `recv`,
the mode's own, before anything has been taken from the stream. -/
def inOrder (dtl : Dtl) (h : List (Prog.Event GetCall.Res)) :
    GetCall → Prop
  | .rpcPack => h = []
  | .fluxRpcPack => ∃ r, h = [⟨.rpcPack, r⟩]
  | .rpcGetRaw => dtl.mode = .fluxRpc ∧ taken h = 0
  | .recvReady => dtl.mode = .margo
  | .netBufReady => dtl.mode = .ucx
  | _ => True

abbrev InOrder (dtl : Dtl) (p : GetProgram FileData)
    (h : List (Prog.Event GetCall.Res)) : Prop :=
  Prog.wp (fun _ _ _ => True) (inOrder dtl) (fun _ _ => True) p h

theorem endOfStream_inOrder (dtl : Dtl) (f : Bool) (rc : Rc)
    (h : List (Prog.Event GetCall.Res)) :
    Prog.wp (fun _ _ _ => True) (inOrder dtl) (fun _ _ => True)
      (endOfStream f rc) h := by
  rw [endOfStream]
  split
  · split
    · refine Prog.wp_step True.intro fun e _ => ?_
      cases e <;> exact True.intro
    · exact True.intro
  · exact True.intro

theorem getDone_inOrder (dtl : Dtl) (f : Bool) (r : FileData)
    (h : List (Prog.Event GetCall.Res)) : InOrder dtl (getDone dtl f r) h := by
  refine Prog.wp_bind.2 (Prog.wp_imp (endOfStream_inOrder dtl f r.rc h)
    fun h rc _ => ?_)
  split
  · exact Prog.wp_step True.intro fun _ _ => True.intro
  · exact True.intro

theorem dyadDtlRecv_inOrder (dtl : Dtl)
    {h : List (Prog.Event GetCall.Res)} (ht : taken h = 0) :
    Prog.wp (fun _ _ _ => True) (inOrder dtl) (fun _ _ => True)
      (dyadDtlRecv dtl.mode) h := by
  cases hm : dtl.mode with
  | fluxRpc =>
    refine ⟨⟨hm, ht⟩, fun r _ => ?_⟩
    cases r with
    | error e => exact True.intro
    | ok tmpBuf =>
      refine ⟨True.intro, fun r _ => ?_⟩
      cases r <;> exact True.intro
  | ucx => exact ⟨hm, fun _ _ => True.intro⟩
  | margo =>
    refine ⟨hm, fun recvBuffer _ => ⟨True.intro, fun b _ => ?_⟩⟩
    cases b with
    | true => exact True.intro
    | false => exact ⟨True.intro, fun r => r.elim⟩

theorem dyadGetData_inOrder (dtl : Dtl) : InOrder dtl (dyadGetData dtl) [] := by
  refine Prog.wp_step rfl fun packed _ => ?_
  cases packed with
  | error rc => exact getDone_inOrder dtl false _ _
  | ok u =>
    refine Prog.wp_step ⟨_, rfl⟩ fun f _ => ?_
    cases f with
    | false => exact getDone_inOrder dtl false _ _
    | true =>
      exact Prog.wp_bind.2 (Prog.wp_imp (dyadDtlRecv_inOrder dtl rfl)
        fun h r _ => getDone_inOrder dtl true r h)

/-! ## What every step keeps -/

/-- Where the two parties are in their programs, the service after answers that
`may` allows, and what is on the stream. -/
structure Underway (dtl : Dtl)
    (may : ServiceHistory → (c : Call) → c.Res → Prop) (s : Transfer) :
    Prop where
  client : Prog.Path (fun _ _ _ => True) (dyadGetData dtl) s.asked s.client
  /-- The handler was started by the request. -/
  asked : s.service ≠ none → ∃ e ∈ s.asked, e.1 = .fluxRpcPack
  waiting : s.service = none → s.done = []
  service : ∀ p, s.service = some p →
    Prog.Path may (dyadFetchRequestCb dtl.ucxBuild) s.done p
  stream : StreamHolds dtl s

section Steps

variable {dtl : Dtl} {may : ServiceHistory → (c : Call) → c.Res → Prop}
  {s : Transfer}

/-- The request is made once. -/
theorem Underway.requests (hu : Underway dtl may s)
    {c : GetCall} {k : c.Res → GetProgram FileData}
    (hc : s.client = .call c k) {r : c.Res} (hr : c.requests r = true) :
    s.service = none := by
  have hcl := hu.client
  rw [hc] at hcl
  have hin := (hcl.wp (dyadGetData_inOrder dtl)).1
  cases c with
  | fluxRpcPack =>
    obtain ⟨r', hh⟩ := hin
    by_contra hne
    obtain ⟨e, he, heq⟩ := hu.asked hne
    rw [hh, List.mem_singleton] at he
    subst he
    exact absurd heq (by simp)
  | _ => exact absurd hr (by simp [GetCall.requests])

theorem Underway.asks (hu : Underway dtl may s)
    {c : GetCall} {k : c.Res → GetProgram FileData} {x : Choice}
    {link : Link} {r : c.Res} (hc : s.client = .call c k)
    (hex : s.link.exec dtl.mode c x = some (link, r)) :
    Underway dtl may (s.asks dtl link c r (k r)) := by
  have hcl := hu.client
  rw [hc] at hcl
  constructor
  · exact .step hcl True.intro
  · intro hne
    by_cases hr : c.requests r = true
    · refine ⟨⟨c, r⟩, List.mem_cons_self .., ?_⟩
      cases c with
      | fluxRpcPack => rfl
      | _ => exact absurd hr (by simp [GetCall.requests])
    · have hne : s.service ≠ none := by simpa [Transfer.asks, hr] using hne
      obtain ⟨e, he, heq⟩ := hu.asked hne
      exact ⟨e, List.mem_cons_of_mem _ he, heq⟩
  · intro hn
    by_cases hr : c.requests r = true
    · exact absurd hn (by simp [Transfer.asks, hr])
    · exact hu.waiting (by simpa [Transfer.asks, hr] using hn)
  · intro p hp
    by_cases hr : c.requests r = true
    · have hdone := hu.waiting (hu.requests hc hr)
      have hp : some (dyadFetchRequestCb dtl.ucxBuild) = some p := by
        simpa [Transfer.asks, hr] using hp
      obtain rfl := Option.some.inj hp
      show Prog.Path _ _ s.done _
      rw [hdone]
      exact .refl
    · exact hu.service p (by simpa [Transfer.asks, hr] using hp)
  · obtain ⟨got, hlen, hsaid⟩ := hu.stream
    obtain ⟨got', hlen', hstream⟩ := exec_stream hex
    refine ⟨got ++ got', ?_, ?_⟩
    · rw [List.length_append, hlen, hlen']
      show _ = taken (⟨c, r⟩ :: s.asked)
      rw [taken, taken, taken, ← List.countP_append, List.countP_append,
        List.countP_cons, List.countP_cons]
      simp
    · show said dtl.mode s.done = _
      rw [hsaid, hstream, List.append_assoc]
      rfl

theorem Underway.serves (hu : Underway dtl may s)
    {c : Call} {k : c.Res → Program Unit} (node : Node) (r : c.Res)
    (hc : s.service = some (.call c k)) (hr : may s.done c r) :
    Underway dtl may (s.serves dtl node c r (k r)) := by
  constructor
  · exact hu.client
  · exact fun _ => hu.asked (by rw [hc]; simp)
  · exact fun hn => absurd hn (by simp [Transfer.serves])
  · intro p hp
    obtain rfl := Option.some.inj hp
    exact .step (hu.service _ hc) hr
  · obtain ⟨got, hlen, hsaid⟩ := hu.stream
    refine ⟨got, hlen, ?_⟩
    show said dtl.mode s.done ++ emits dtl.mode ⟨c, r⟩ =
      got ++ (s.link.served dtl.mode c r).stream
    rw [served_stream, hsaid, List.append_assoc]

variable {start : Node → Prop} {ok : Transfer → TransferStep → Prop}

theorem transfer_underway (h : (transfer dtl start).Reach ok s)
    (hmay : ∀ s x c k node r, ok s (.service x) →
      s.service = some (.call c k) →
      s.node.exec reactor c x = some (node, r) → may s.done c r) :
    Underway dtl may s := by
  refine h.invariant (fun s hs => ?_) fun s l s' hu hok hn => ?_
  · obtain ⟨-, hstream, -, -, hclient, hasked, hservice, hdone⟩ := hs
    constructor
    · rw [hclient, hasked]
      exact .refl
    · exact fun hne => absurd hservice hne
    · exact fun _ => hdone
    · exact fun p hp => absurd (hservice.symm.trans hp) (by simp)
    · refine ⟨[], ?_, ?_⟩
      · rw [hasked]
        rfl
      · rw [hdone, hstream]
        rfl
  · rcases transfer_cases hn with ⟨x, c, k, link, r, -, hc, hex, rfl⟩ |
      ⟨x, c, k, node, r, rfl, hc, hex, rfl⟩ | ⟨data, rest, -, -, rfl⟩
    · exact hu.asks hc hex
    · exact hu.serves node r hc (hmay s x c k node r hok hc hex)
    · exact ⟨hu.client, hu.asked, hu.waiting, hu.service, hu.stream⟩

theorem favours_of_succeeds {ucxBuild : Bool} {h : ServiceHistory} {c : Call}
    {r : c.Res} {w w' : Node} {x : Choice} (hs : Succeeds ucxBuild h c r)
    (hex : w.exec reactor c x = some (w', r)) : Favours ucxBuild h c r := by
  refine ⟨hs, ?_⟩
  cases c with
  | sys c =>
    cases c with
    | pread i off len =>
      obtain ⟨o, os', -, hos, -⟩ := Node.exec_sys hex
      obtain ⟨-, ⟨e, rfl⟩ | ⟨k, hk, rfl⟩⟩ := Os.exec_pread hos
      · exact True.intro
      · show ((w.os.file i).slice off k).size ≤ len
        rw [Bytes.size_slice]
        omega
    | _ => exact True.intro
  | _ => exact True.intro

/-- No consumer is left waiting: over the Flux RPC because the end of the stream
ends its wait, in the other modes while the calls of the service succeed. -/
theorem no_stranded (h : (transfer dtl start).Reach (keepsServing dtl) s) :
    ¬ Stranded dtl s := by
  rintro ⟨hfin, hended, hsent, -, c, k, hc, hrecv, hblocked⟩
  by_cases hm : dtl.mode = .fluxRpc
  · have hu : Underway dtl (fun _ _ _ => True) s :=
      transfer_underway h fun _ _ _ _ _ _ _ _ _ => True.intro
    have hcl := hu.client
    rw [hc] at hcl
    have hin := (hcl.wp (dyadGetData_inOrder dtl)).1
    cases c with
    | rpcGetRaw =>
      obtain ⟨got, hlen, hsaid⟩ := hu.stream
      -- nothing has been taken, so what ended the stream is still on it
      rw [hin.2, List.length_eq_zero_iff] at hlen
      subst hlen
      have hne : s.link.stream ≠ [] := by
        rw [← List.nil_append s.link.stream, ← hsaid]
        exact said_ne_nil hended
      rw [Link.exec] at hblocked
      split at hblocked
      · next hnil => exact hne hnil
      · exact absurd hblocked (by simp)
      · exact absurd hblocked (by simp)
    | recvReady => exact absurd (hm.symm.trans hin) (by simp)
    | netBufReady => exact absurd (hm.symm.trans hin) (by simp)
    | _ => exact absurd hrecv (by simp [GetCall.receives])
  · have hu : Underway dtl (Favours dtl.ucxBuild) s :=
      transfer_underway h fun s x c k node r hok hc hex =>
        favours_of_succeeds (hok.resolve_left hm x c k node r rfl hc hex) hex
    have hdone : s.done.any sendsData = true :=
      (hu.service _ hfin).wp (dyadFetchRequestCb_sends [])
    exact absurd (hsent.symm.trans hdone) (by simp)

end Steps

/-- A transfer in the mode `mode` from a node that does not have the file. -/
def Transfer.ofMissing (dtl : Dtl) : Transfer where
  node := Node.fresh Bytes.empty (by decide) none
  link := ⟨[], [], none, Bytes.empty⟩
  client := dyadGetData dtl
  asked := []
  service := none
  done := []

theorem ofMissing_init (dtl : Dtl) :
    (transfer dtl fun _ => True).init (.ofMissing dtl) :=
  ⟨True.intro, rfl, rfl, rfl, rfl, rfl, rfl, rfl⟩

/-- The request arrives, the handler does not find the file, and says so. -/
def missingFile : List TransferStep :=
  [.client (.os .ok), .client (.flag true), .service (.flag true),
    .service (.os .ok), .service (.os .ok), .service (.os .ok),
    .service (.os .ok), .service (.count Errno.ENOENT), .service (.os .ok)]

/-- Over the Flux RPC the consumer hears of the missing file. -/
theorem no_stranded_missing :
    ¬ Stranded ⟨false, .fluxRpc, by decide⟩
      (((transfer ⟨false, .fluxRpc, by decide⟩ fun _ => True).replay
        (.ofMissing ⟨false, .fluxRpc, by decide⟩) missingFile).getD
          (.ofMissing ⟨false, .fluxRpc, by decide⟩)) :=
  no_stranded (Lts.Reach.of_replay (φ := fun _ _ => true)
    (ofMissing_init _) (fun _ _ _ => Or.inl rfl) rfl rfl)

/-- Over Margo it waits for data that nobody will send. -/
theorem margo_strands :
    ¬ ∀ (dtl : Dtl) (start : Node → Prop) (s : Transfer),
      (transfer dtl start).Reach (fun _ _ => True) s → ¬ Stranded dtl s := by
  intro h
  refine h ⟨false, .margo, by decide⟩ (fun _ => True) _
    (@Lts.Reach.of_replay _ _ _ _ (.ofMissing ⟨false, .margo, by decide⟩)
      missingFile (fun _ _ => true) (ofMissing_init _)
      (fun _ _ _ => True.intro) rfl rfl) ?_
  exact ⟨rfl, by decide, rfl, rfl, .recvReady, _, rfl, rfl, rfl⟩

end Dyad
