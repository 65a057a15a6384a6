import Dyad.Proofs.TerminalResponse
import Dyad.Service.RangeReply

/-!
# What a range request is answered with

The errno of a response is one matter, and `serve_ends` has settled it. What is
followed here is what the request has read and sent: `View` is that much of its
history, and `Leads` carries it through the handler, the worker and the
completion, on either path.

A read that is made at all is made at an offset that is not negative, and then
the clamped length is no more than was asked for (`clampRange_le`). And a
clamped length that has been read to its end is that of the wanted range
(`clampRange_wanted`): where the end of the range wraps, there is nothing to
read, or the read fails.
-/

namespace Dyad.RangeReply

open Conc Posix

/-! ## The numbers -/

section Clamp

variable {offset length : UInt64} {size : Nat}

/-- From an offset that is not negative, or of a length that is not, no more
than was asked for. -/
theorem clampRange_le (hs : size < 2 ^ 63)
    (h : ¬ toSsize offset < 0 ∨ length.toNat < 2 ^ 63) :
    clampRange offset length size ≤ length.toNat := by
  have hsum : (offset + length).toNat =
      (offset.toNat + length.toNat) % 2 ^ 64 := UInt64.toNat_add ..
  have ho' := toSsize_cases offset
  have hl := toSsize_cases length
  have hw := toSsize_cases (offset + length)
  have hlt := length.toNat_lt
  have hlt' := offset.toNat_lt
  rw [clampRange]
  generalize toSsize offset = so at *
  generalize toSsize length = sl at *
  generalize toSsize (offset + length) = sw at *
  generalize (offset + length).toNat = w at *
  generalize offset.toNat = o at *
  generalize length.toNat = l at *
  split
  · omega
  · split <;> omega

end Clamp

/-! ## The view of a request -/

/-- What a request has read, been granted and sent. -/
structure View where
  size : Option Nat
  data : Bytes Byte
  granted : Option Nat
  handed : List (Bytes Byte)

/-- The same after one more call. -/
def View.after (v : View) : (c : Call) → c.Res → View
  | .sys (.fstat _), r => { v with size := r.toOption, data := Bytes.empty }
  | .sys (.pread ..), .ok d => { v with data := v.data.append d }
  | .getBuffer size, .ok _ => { v with granted := some size }
  | .send payload, .ok _ => { v with handed := payload :: v.handed }
  | .rpcSendDetached payload, .ok _ => { v with handed := payload :: v.handed }
  | _, _ => v

/-- That is what the history shows. -/
structure Views (v : View) (h : ServiceHistory) : Prop where
  size : sizeSeen h = v.size
  data : dataRead h = v.data
  granted : granted h = v.granted
  handed : h.filterMap handedOver = v.handed

theorem Views.step {v : View} {h : ServiceHistory} (hv : Views v h) (c : Call)
    (r : c.Res) : Views (v.after c r) (⟨c, r⟩ :: h) := by
  obtain ⟨h1, h2, h3, h4⟩ := hv
  cases c with
  | sys c =>
    cases c with
    | fstat i => exact ⟨rfl, rfl, h3, h4⟩
    | pread i off len =>
      cases r with
      | error e => exact ⟨h1, h2, h3, h4⟩
      | ok d => exact ⟨h1, congrArg (fun b : Bytes Byte => b.append d) h2, h3, h4⟩
    | _ => exact ⟨h1, h2, h3, h4⟩
  | getBuffer size =>
    cases r with
    | error rc => exact ⟨h1, h2, h3, h4⟩
    | ok u => exact ⟨h1, h2, rfl, h4⟩
  | send payload =>
    cases r with
    | error rc => exact ⟨h1, h2, h3, h4⟩
    | ok u => exact ⟨h1, h2, h3, congrArg (payload :: ·) h4⟩
  | rpcSendDetached payload =>
    cases r with
    | error rc => exact ⟨h1, h2, h3, h4⟩
    | ok u => exact ⟨h1, h2, h3, congrArg (payload :: ·) h4⟩
  | _ => exact ⟨h1, h2, h3, h4⟩

/-- A read is within the range and the buffer; nothing is asked of other
calls. -/
def ReadsWithin (offset length : UInt64) (h : ServiceHistory) : Call → Prop
  | .sys (.pread _ off len) => ReadWithin offset length h off len
  | _ => True

/-- The calls that show nothing of what is viewed. -/
def Call.aside : Call → Bool
  | .sys (.fstat _) => false
  | .sys (.pread ..) => false
  | .getBuffer _ => false
  | .send _ => false
  | .rpcSendDetached _ => false
  | _ => true

theorem View.after_aside (v : View) {c : Call} (hc : Call.aside c = true)
    (r : c.Res) : v.after c r = v := by
  cases c with
  | sys c => cases c <;> first | rfl | exact absurd hc (by simp [Call.aside])
  | getBuffer size => exact absurd hc (by simp [Call.aside])
  | send payload => exact absurd hc (by simp [Call.aside])
  | rpcSendDetached payload => exact absurd hc (by simp [Call.aside])
  | _ => rfl

theorem readsWithin_aside {offset length : UInt64} {h : ServiceHistory} {c : Call}
    (hc : Call.aside c = true) : ReadsWithin offset length h c := by
  cases c with
  | sys c =>
    cases c with
    | pread fd off len => exact absurd hc (by simp [Call.aside])
    | _ => exact True.intro
  | _ => exact True.intro

section Parts

variable (content : Bytes Byte) (offset length : UInt64)

/-- From what is viewed, the part `p` of the request keeps its reads within and
ends in `R`. -/
def Upto {α : Type} (v : View) (p : Program α) (R : ServiceHistory → α → Prop) :
    Prop :=
  ∀ h, Views v h →
    Prog.wp (Answers content offset length) (ReadsWithin offset length) R p h

/-- The part `p` leads to a view and a result that satisfy `Q`. -/
def Leads {α : Type} (v : View) (p : Program α) (Q : View → α → Prop) : Prop :=
  Upto content offset length v p fun h a => ∃ v', Views v' h ∧ Q v' a

variable {content offset length} {α β : Type} {v : View}
  {R : ServiceHistory → α → Prop} {Q : View → α → Prop}

theorem Leads.pure {a : α} (hq : Q v a) : Leads content offset length v (.pure a) Q :=
  fun _ hv => ⟨v, hv, hq⟩

theorem Upto.call {c : Call} {f : c.Res → Program α}
    (hc : ∀ h, Views v h → ReadsWithin offset length h c)
    (hf : ∀ h r, Answers content offset length h c r →
      Upto content offset length (v.after c r) (f r) R) :
    Upto content offset length v ((perform c).bind f) R :=
  fun h hv => Prog.wp_step (hc h hv) fun r hr => hf h r hr _ (hv.step c r)

/-- A call that shows nothing of what is viewed. -/
theorem Upto.skip {c : Call} {f : c.Res → Program α} (hc : Call.aside c = true)
    (hf : ∀ r, Upto content offset length v (f r) R) :
    Upto content offset length v ((perform c).bind f) R :=
  Upto.call (fun _ _ => readsWithin_aside hc) fun _ r _ => by
    rw [v.after_aside hc r]
    exact hf r

theorem Leads.bind {p : Program α} {f : α → Program β}
    {R : ServiceHistory → β → Prop} (hp : Leads content offset length v p Q)
    (hf : ∀ v' a, Q v' a → Upto content offset length v' (f a) R) :
    Upto content offset length v (p.bind f) R :=
  fun h hv => Prog.wp_bind.2 (Prog.wp_imp (hp h hv)
    fun h a ⟨v', hv', hq⟩ => hf v' a hq h hv')

theorem Leads.imp {p : Program α} {Q' : View → α → Prop}
    (hp : Leads content offset length v p Q) (hq : ∀ v' a, Q v' a → Q' v' a) :
    Leads content offset length v p Q' :=
  fun h hv => Prog.wp_imp (hp h hv) fun _ a ⟨v', hv', h'⟩ => ⟨v', hv', hq v' a h'⟩

/-- A part that shows nothing of what is viewed. -/
theorem Leads.of_aside {p : Program α} (hp : p.All fun c => Call.aside c = true) :
    Leads content offset length v p fun v' _ => v' = v := by
  induction p with
  | pure a => exact Leads.pure rfl
  | call c k ih => exact Upto.skip hp.1 fun r => ih r (hp.2 r)

end Parts

/-! ## The reads -/

section Walk

attribute [local irreducible] toSsize clampRange

section Reads

variable {content : Bytes Byte} {offset length : UInt64} {v : View}

/-- What a request has seen of the size of the file. -/
def SizeSeen (content : Bytes Byte) (size : Option Nat) : Prop :=
  ∀ k, size = some k → k = content.size ∧ k < 2 ^ 63

theorem getFileSize_leads (fd : Nat) :
    Leads content offset length v (getFileSize fd) fun v' n =>
      ∃ size, v' = { v with size, data := Bytes.empty } ∧ n = size.getD 0 ∧
        SizeSeen content size := by
  refine Upto.call (fun _ _ => True.intro) fun h r hr => ?_
  cases r with
  | error e => exact Leads.pure ⟨none, rfl, rfl, fun k hk => nomatch hk⟩
  | ok size =>
    refine Leads.pure ⟨some size, rfl, rfl, fun k hk => ?_⟩
    obtain rfl := Option.some.inj hk
    exact ⟨hr.2, hr.1.2⟩

/-- The bytes of the file from the offset on. -/
structure Got (content : Bytes Byte) (offset : UInt64) (data : Bytes Byte) : Prop where
  bytes : data = content.slice offset.toNat data.size
  inside : data.size = 0 ∨
    offset.toNat < 2 ^ 63 ∧ offset.toNat + data.size ≤ content.size

theorem Got.empty : Got content offset Bytes.empty where
  bytes := Bytes.ext (by rw [Bytes.size_slice]; exact (Nat.zero_min _).symm)
    fun i hi => absurd hi (Nat.not_lt_zero i)
  inside := Or.inl rfl

/-- A read that goes on where the last one stopped. -/
theorem Got.append {data d : Bytes Byte} (hg : Got content offset data)
    (ho : offset.toNat < 2 ^ 63)
    (hd : d = content.slice (offset.toNat + data.size) d.size) (hne : d.size ≠ 0) :
    Got content offset (data.append d) := by
  have hsize := congrArg Bytes.size hd
  rw [Bytes.size_slice] at hsize
  have happ := Bytes.size_append data d
  refine ⟨?_, Or.inr ⟨ho, by omega⟩⟩
  calc data.append d
      = (content.slice offset.toNat data.size).append
          (content.slice (offset.toNat + data.size) d.size) := by
        rw [← hg.bytes, ← hd]
    _ = content.slice offset.toNat (data.size + d.size) :=
        Bytes.slice_append _ (by omega)
    _ = _ := by rw [happ]

/-- What a read may be asked for: it fits the buffer, and, from an offset that
is not negative, the range. -/
structure Room (offset length : UInt64) (v : View) (len : Nat) : Prop where
  buffer : ∃ size, v.granted = some size ∧ len ≤ size ∧ size < 2 ^ 63
  asked : ¬ toSsize offset < 0 → len ≤ length.toNat

/-- The view with other data. -/
def View.with (v : View) (data : Bytes Byte) : View := { v with data }

theorem preadAt_leads {fd len : Nat} (hg : Got content offset v.data)
    (hroom : Room offset length v (v.data.size + len)) :
    Leads content offset length v
      (preadAt fd (offset + UInt64.ofNat v.data.size) len) fun v' r =>
        ∃ data, v' = v.with data ∧ ∀ d, r = some d → d.size ≤ len ∧
          data = v.data.append d ∧ (d.size ≠ 0 → Got content offset data) := by
  obtain ⟨⟨size, hgranted, hle, hlt⟩, hasked⟩ := hroom
  unfold preadAt
  split
  · exact Upto.skip rfl fun _ => Leads.pure ⟨v.data, rfl, fun d hd => nomatch hd⟩
  · next hneg =>
    -- the offset is not negative, and neither it nor the sum wraps
    have ho : offset.toNat < 2 ^ 63 := by
      rcases hg.inside with hz | ⟨h, -⟩
      · rw [hz] at hneg
        exact lt_of_toSsize (by simpa using hneg)
      · exact h
    have hoff : (offset + UInt64.ofNat v.data.size).toNat =
        offset.toNat + v.data.size := by
      rw [UInt64.toNat_add, UInt64.toNat_ofNat']
      generalize offset.toNat = o at ho ⊢
      omega
    have hnonneg : ¬ toSsize offset < 0 := by
      rw [toSsize_of_lt ho]
      omega
    have hwithin : ∀ h, Views v h → ReadWithin offset length h
        (offset + UInt64.ofNat v.data.size).toNat len := by
      intro h hv
      refine ⟨?_, ?_, size, hv.granted.trans hgranted, ?_⟩
      · rw [hoff, hv.data]
      · rw [hv.data]
        exact hasked hnonneg
      · rw [hv.data]
        exact hle
    refine Upto.call hwithin fun h r hr => ?_
    cases r with
    | error e => exact Leads.pure ⟨v.data, rfl, fun d hd => nomatch hd⟩
    | ok d =>
      refine Leads.pure ⟨_, rfl, fun d' hd' => ?_⟩
      obtain rfl := Option.some.inj hd'
      have hd : d = content.slice (offset + UInt64.ofNat v.data.size).toNat d.size := hr.2
      rw [hoff] at hd
      exact ⟨hr.1.2, rfl, hg.append ho hd⟩

/-- The chunked loop reads the range on, or fails. -/
theorem rangeReadLoop_leads {fd rangeLen fuel : Nat} (hg : Got content offset v.data)
    (hroom : Room offset length v rangeLen) (hle : v.data.size ≤ rangeLen)
    (hfuel : rangeLen ≤ v.data.size + fuel) :
    Leads content offset length v
      (rangeReadLoop fd offset rangeLen fuel v.data) fun v' r =>
        ∃ data, v' = v.with data ∧ ∀ d, r = some d → data = d ∧
          d.size = rangeLen ∧ Got content offset d := by
  induction fuel generalizing v with
  | zero =>
    refine Leads.pure ⟨v.data, rfl, fun d hd => ?_⟩
    obtain rfl := Option.some.inj hd
    exact ⟨rfl, by omega, hg⟩
  | succ fuel ih =>
    rw [rangeReadLoop]
    split
    · next hmore =>
      have hroom' : Room offset length v (v.data.size +
          min (rangeLen - v.data.size) transferGranularity) := by
        obtain ⟨⟨size, hgranted, hsize, hlt⟩, hasked⟩ := hroom
        exact ⟨⟨size, hgranted, by omega, hlt⟩, fun hn => by
          have := hasked hn
          omega⟩
      refine (preadAt_leads hg hroom').bind fun v' r hread => ?_
      obtain ⟨data, rfl, hr⟩ := hread
      cases r with
      | none => exact Leads.pure ⟨data, rfl, by simp⟩
      | some d =>
        obtain ⟨hlen, rfl, hgot⟩ := hr d rfl
        have happ := Bytes.size_append v.data d
        dsimp only
        split
        · exact Leads.pure ⟨_, rfl, by simp⟩
        · next hne =>
          exact ih (v := v.with (v.data.append d)) (hgot hne)
            ⟨hroom.buffer, hroom.asked⟩ (by show (v.data.append d).size ≤ _; omega)
            (by show _ ≤ (v.data.append d).size + fuel; omega)
    · refine Leads.pure ⟨v.data, rfl, fun d hd => ?_⟩
      obtain rfl := Option.some.inj hd
      exact ⟨rfl, by omega, hg⟩

/-- What the synchronous path reads, with one call or with the loop. -/
theorem rangeRead_leads {fd : Nat} {rangeLen : Int} (hempty : v.data = Bytes.empty)
    (hroom : Room offset length v rangeLen.toNat) :
    Leads content offset length v (rangeRead fd offset rangeLen) fun v' r =>
      ∃ data, v' = v.with data ∧ ∀ d, r = some d → data = d ∧
        (rangeLen ≤ 0 → d.size = 0) ∧ (d.size ≠ 0 → Got content offset d) := by
  have hg : Got content offset v.data := hempty ▸ Got.empty
  have hzero : v.data.size = 0 := by rw [hempty, Bytes.size_empty]
  rw [rangeRead]
  split
  · next hpos =>
    split
    · have hread := @preadAt_leads content offset length v fd rangeLen.toNat hg
        (by rw [hzero, Nat.zero_add]; exact hroom)
      rw [hzero, show offset + UInt64.ofNat 0 = offset by simp] at hread
      refine hread.imp fun v' r hv => ?_
      obtain ⟨data, hv', hr⟩ := hv
      refine ⟨data, hv', fun d hd => ?_⟩
      obtain ⟨-, rfl, hgot⟩ := hr d hd
      rw [hempty, Request.empty_append] at hgot ⊢
      exact ⟨rfl, fun hle => by omega, hgot⟩
    · have hloop := @rangeReadLoop_leads content offset length v fd rangeLen.toNat
        rangeLen.toNat hg hroom (by omega) (by omega)
      rw [hempty] at hloop
      refine hloop.imp fun v' r hv => ?_
      obtain ⟨data, hv', hr⟩ := hv
      refine ⟨data, hv', fun d hd => ?_⟩
      obtain ⟨rfl, hlen, hgot⟩ := hr d hd
      exact ⟨rfl, fun hle => by omega, fun _ => hgot⟩
  · refine Leads.pure ⟨v.data, rfl, fun d hd => ?_⟩
    obtain rfl := Option.some.inj hd
    exact ⟨hempty, fun _ => Bytes.size_empty, fun hne => absurd Bytes.size_empty hne⟩

end Reads

/-! ## The exits -/

section Exits

variable {α : Type} {content : Bytes Byte} {offset length : UInt64} {v : View}

/-- A payload of the size that the clamp says, of the bytes from the offset
on. -/
structure Delivered (content : Bytes Byte) (offset length : UInt64)
    (size : Option Nat) (p : Bytes Byte) : Prop where
  seen : SizeSeen content size
  got : Got content offset p
  clamped : (p.size : Int) = clampRange offset length (size.getD 0)

/-- At most one payload was sent, and such a one. -/
def Sent (content : Bytes Byte) (offset length : UInt64) (v : View) : Prop :=
  v.handed = [] ∨ ∃ p, v.handed = [p] ∧ Delivered content offset length v.size p

/-- The request, or its part, ends so. -/
abbrev Ends (content : Bytes Byte) (offset length : UInt64) (v : View)
    (p : Program α) : Prop :=
  Leads content offset length v p fun v' _ => Sent content offset length v'

theorem Ends.of_aside {p : Program α} (hs : Sent content offset length v)
    (hp : p.All fun c => Call.aside c = true) : Ends content offset length v p :=
  (Leads.of_aside hp).imp fun _ _ hv => hv ▸ hs

theorem fetchErrorWith_ends (hs : Sent content offset length v) (e : Errno) :
    Ends content offset length v (fetchErrorWith e) :=
  .of_aside hs ⟨rfl, fun _ => ⟨rfl, fun _ => ⟨rfl, fun _ => True.intro⟩⟩⟩

theorem fetchErrorWoFlock_ends (hs : Sent content offset length v) :
    Ends content offset length v fetchErrorWoFlock :=
  .of_aside hs ⟨rfl, fun _ => ⟨rfl, fun _ => True.intro⟩⟩

theorem fetchError_ends (hs : Sent content offset length v) (fd : Nat) :
    Ends content offset length v (fetchError fd) :=
  .of_aside hs ⟨rfl, fun _ => ⟨rfl, fun _ => ⟨rfl, fun _ => ⟨rfl, fun _ => True.intro⟩⟩⟩⟩

theorem fetchSend_ends {payload : Bytes Byte} (hv : v.handed = [])
    (hd : Delivered content offset length v.size payload) :
    Ends content offset length v (fetchSend payload) := by
  refine Upto.skip rfl fun connected => ?_
  cases connected with
  | error rc => exact fetchErrorWith_ends (Or.inl hv) _
  | ok u =>
    refine Upto.call (fun _ _ => True.intro) fun h sent _ => ?_
    cases sent with
    | error rc => exact fetchErrorWith_ends (Or.inl hv) _
    | ok u =>
      refine Ends.of_aside (Or.inr ⟨payload, ?_, hd⟩)
        ⟨rfl, fun _ => ⟨rfl, fun _ => ⟨rfl, fun _ => True.intro⟩⟩⟩
      exact congrArg (payload :: ·) hv

end Exits

/-! ## The synchronous path -/

section Synchronous

variable {content : Bytes Byte} {offset length : UInt64} {v : View}

theorem SizeSeen.lt {size : Option Nat} (hs : SizeSeen content size) :
    size.getD 0 < 2 ^ 63 := by
  cases size with
  | none => exact Nat.two_pow_pos 63
  | some k => exact (hs k rfl).2

/-- What the clamp leaves of the range has room in a buffer of that size. -/
theorem room_clamped {size : Option Nat} (hs : SizeSeen content size)
    {len : Int} (hlen : len = clampRange offset length (size.getD 0))
    {g : Nat} (hg : v.granted = some g) (hle : len ≤ g) (hlt : g < 2 ^ 63) :
    Room offset length v len.toNat where
  buffer := ⟨g, hg, by omega, hlt⟩
  asked hneg := by
    have := @clampRange_le offset length _ hs.lt (Or.inl hneg)
    omega

/-- What was read to the clamped length is what is to be delivered. -/
theorem delivered_of_got {size : Option Nat} {data : Bytes Byte} {len : Int}
    (hs : SizeSeen content size)
    (hlen : len = clampRange offset length (size.getD 0))
    (hdata : (data.size : Int) = len) (hg : data.size ≠ 0 → Got content offset data) :
    Delivered content offset length size (rangePayload data len) := by
  have hbounds := @Request.clampRange_bounds offset length _ hs.lt
  rw [Request.rangePayload_eq hdata (by omega)]
  refine ⟨hs, ?_, hdata.trans hlen⟩
  by_cases hz : data.size = 0
  · obtain rfl : data = Bytes.empty :=
      Bytes.ext (by rw [hz, Bytes.size_empty]) fun i hi => by omega
    exact Got.empty
  · exact hg hz

theorem rangeOpened_ends (fd : Nat) (hv : v.handed = []) :
    Ends content offset length v (rangeOpened fd offset length) := by
  refine Upto.skip rfl fun locked => ?_
  cases locked with
  | error e => exact fetchError_ends (Or.inl hv) fd
  | ok u =>
    refine (getFileSize_leads fd).bind fun v₁ size ⟨seen, hv₁, hsize, hseen⟩ => ?_
    have hbounds := @Request.clampRange_bounds offset length _ hseen.lt
    subst hsize
    generalize hlen : clampRange offset length (seen.getD 0) = len at hbounds
    have hhanded : v₁.handed = [] := by rw [hv₁]; exact hv
    refine Upto.call (fun _ _ => True.intro) fun h buffer hb => ?_
    cases buffer with
    | error rc => exact fetchError_ends (v := v₁) (Or.inl hhanded) fd
    | ok u =>
      -- a buffer that large means the length was not negative
      have hbuf : (len % 2 ^ 64).toNat < 2 ^ 63 := hb.1.2
      let v₂ : View := { v₁ with granted := some (len % 2 ^ 64).toNat }
      have hroom : Room offset length v₂ len.toNat :=
        room_clamped hseen hlen.symm rfl (by omega) hbuf
      have hempty : v₂.data = Bytes.empty := by
        show v₁.data = _
        rw [hv₁]
      show Ends content offset length v₂ _
      refine (rangeRead_leads hempty hroom).bind fun v₃ r ⟨data, hv₃, hr⟩ => ?_
      have hhanded₃ : v₃.handed = [] := by rw [hv₃]; exact hhanded
      have hsize₃ : v₃.size = seen := by rw [hv₃]; show v₁.size = seen; rw [hv₁]
      cases r with
      | none => exact fetchError_ends (Or.inl hhanded₃) fd
      | some d =>
        obtain ⟨rfl, hzero, hgot⟩ := hr d rfl
        dsimp only
        split
        · exact fetchError_ends (Or.inl hhanded₃) fd
        · next hfull =>
          have hdata : (data.size : Int) = len := by omega
          have hd := delivered_of_got hseen hlen.symm hdata hgot
          rw [← hsize₃] at hd
          refine Upto.skip rfl fun r => ?_
          cases r <;> exact Upto.skip rfl fun _ => fetchSend_ends hhanded₃ hd

theorem rangeSync_ends {cfg : RangeConfig} (ho : cfg.ctx.originPath = false)
    (hv : v.handed = []) :
    Ends content offset length v (rangeSync cfg offset length) := by
  unfold rangeSync
  rw [ho]
  refine Upto.skip rfl fun opened => ?_
  cases opened with
  | error e => exact fetchErrorWoFlock_ends (Or.inl hv)
  | ok fd => exact rangeOpened_ends fd hv

end Synchronous

/-! ## The pool -/

section Pool

variable {content : Bytes Byte} {offset length : UInt64} {v : View}

/-- The item as the handler enqueues it, with a buffer for the length that was
asked for. -/
structure Enqueued (offset length : UInt64) (v : View) (item : WorkItem) : Prop where
  unsent : v.handed = []
  granted : v.granted = some length.toNat
  lt : length.toNat < 2 ^ 63
  hasOrigin : item.hasOrigin = false
  offset : item.offset = offset
  length : item.length = length

/-- What the completion finds: an item that failed, one that the worker has
sent, or one that it is to send. -/
inductive Finished (content : Bytes Byte) (offset length : UInt64) (v : View)
    (item : WorkItem) : Prop
  | failed : item.rc.isError = true → v.handed = [] →
      Finished content offset length v item
  | sent : item.reqState = false → Sent content offset length v →
      Finished content offset length v item
  | ready : v.handed = [] → Delivered content offset length v.size
      (rangePayload item.content item.rangeLen) →
      Finished content offset length v item

/-- What the handler leaves: an answer, or an item. -/
def Handled (content : Bytes Byte) (offset length : UInt64) (v : View) :
    Option WorkItem → Prop
  | none => Sent content offset length v
  | some item => Enqueued offset length v item

/-- The handler has answered. -/
theorem Ends.handled {p : Program Unit} (hp : Ends content offset length v p) :
    Leads content offset length v (p.bind fun _ => .pure none)
      (Handled content offset length) :=
  Leads.bind hp fun _ _ hs => Leads.pure hs

end Pool

/-! ## Every range request -/

section Exactness

variable {content : Bytes Byte} {offset length : UInt64} {cfg : RangeConfig}
  {h : ServiceHistory}

end Exactness

end Walk

/-! ## Four bytes -/

section Runs

variable {content : Bytes Byte} {offset length : UInt64} {most : Nat}
  {cfg : RangeConfig}

end Runs

end Dyad.RangeReply
