import Dyad.Service.ReplyBuffer

/-!
# When a reply stays inside its buffer

The reads put one piece after the other into the buffer, so after them the
part that was written is one stretch, from the start of the content for as
many bytes as the reads delivered. `loop_spec` says what the chunked loop does
to the buffer in those terms, and the single read of a small file is the same
with one piece.

A buffer that was granted is at least as large as the file. Without the size
in front that is enough. With it the stretch starts eight bytes in: the UCX
DTL has allowed for that, the others have not. Where `get_buffer` fails the
pointer is null; a read through it fails and writes nothing, and the size is
copied to it all the same.
-/

namespace Dyad.Reply

open Conc Posix

variable {a : Answers} {b : Buffer} {bufOffset fileSize fuel : Nat}

/-! ## What the reads deliver -/

theorem deliveredFrom_le
    (read : Nat → (count : Nat) → Except Errno (Fin (count + 1))) (fuel i left : Nat) :
    deliveredFrom read fuel i left ≤ left := by
  induction fuel generalizing i left with
  | zero => exact Nat.zero_le _
  | succ fuel ih =>
    rw [deliveredFrom]
    split
    · exact Nat.zero_le _
    · split
      · exact Nat.zero_le _
      · next n _ =>
        split
        · exact Nat.zero_le _
        · have hn := n.isLt
          have := ih (i + 1) (left - n.val)
          omega

theorem delivered_le
    (read : Nat → (count : Nat) → Except Errno (Fin (count + 1))) (fileSize : Nat) :
    delivered read fileSize ≤ fileSize := by
  unfold delivered
  split
  · split
    · exact Nat.zero_le _
    · next n _ => exact Nat.le_of_lt_succ n.isLt
  · exact deliveredFrom_le read _ _ _

/-! ## The reads -/

/-- So many bytes from `start` on lie in the buffer. -/
def Fits (granted : Option Nat) (start len : Nat) : Prop :=
  len = 0 ∨ ∃ size, granted = some size ∧ start + len ≤ size

theorem inBuffer_iff {granted : Option Nat} {start len : Nat} :
    Extent.InBuffer ⟨true, start, len⟩ granted ↔ Fits granted start len := by
  simp [Extent.InBuffer, Fits]

/-- Two pieces next to each other are one. -/
theorem fits_add {granted : Option Nat} {start m n : Nat} (hm : 0 < m) :
    Fits granted start m ∧ Fits granted (start + m) n ↔
      Fits granted start (m + n) := by
  unfold Fits
  constructor
  · rintro ⟨hz | ⟨size, hg, hle⟩, hrest⟩
    · omega
    · rcases hrest with rfl | ⟨size', hg', hle'⟩
      · exact Or.inr ⟨size, hg, by omega⟩
      · exact Or.inr ⟨size', hg', by omega⟩
  · rintro (hz | ⟨size, hg, hle⟩)
    · omega
    · exact ⟨Or.inr ⟨size, hg, by omega⟩, Or.inr ⟨size, hg, by omega⟩⟩

/-- What a read that delivers does to the buffer. -/
def Buffer.put (b : Buffer) (start n : Nat) : Buffer :=
  { b with writes := b.writes ++ [⟨true, start, n⟩], reads := b.reads + 1 }

/-- What a read that fails does to the buffer. -/
def Buffer.skip (b : Buffer) : Buffer := { b with reads := b.reads + 1 }

theorem step_read_ok (start : Nat) {count : Nat} {n : Fin (count + 1)}
    (h : a.read b.reads count = .ok n) :
    a.step b (.read true start count) = some (b.put start n.val, .ok n.val) := by
  simp only [Answers.step, if_true, h]
  rfl

theorem step_read_error (start : Nat) {count : Nat} {e : Errno}
    (h : a.read b.reads count = .error e) :
    a.step b (.read true start count) = some (b.skip, .error e) := by
  simp only [Answers.step, if_true, h]
  rfl

/-- What a read program did to the buffer: `n` bytes were written from `start`
on, and nothing else. -/
structure Filled (b b' : Buffer) (start n : Nat) : Prop where
  granted : b'.granted = b.granted
  sends : b'.sends = b.sends
  writes : (∀ e ∈ b'.writes, e.InBuffer b.granted) ↔
    (∀ e ∈ b.writes, e.InBuffer b.granted) ∧ Fits b.granted start n

theorem Filled.nothing (start : Nat) : Filled b b start 0 where
  granted := rfl
  sends := rfl
  writes := (and_iff_left (Or.inl rfl)).symm

theorem Filled.skip (start : Nat) : Filled b b.skip start 0 where
  granted := rfl
  sends := rfl
  writes := (and_iff_left (Or.inl rfl)).symm

theorem Filled.put (start n : Nat) : Filled b (b.put start n) start n where
  granted := rfl
  sends := rfl
  writes := by
    show (∀ e ∈ b.writes ++ [_], e.InBuffer b.granted) ↔ _
    rw [List.forall_mem_append, List.forall_mem_singleton, inBuffer_iff]

theorem Filled.trans {b₁ b₂ : Buffer} {start m n : Nat}
    (h₁ : Filled b b₁ start m) (h₂ : Filled b₁ b₂ (start + m) n) (hm : 0 < m) :
    Filled b b₂ start (m + n) where
  granted := h₂.granted.trans h₁.granted
  sends := h₂.sends.trans h₁.sends
  writes := by
    have hw₂ := h₂.writes
    rw [h₁.granted] at hw₂
    rw [hw₂, h₁.writes, and_assoc, fits_add hm]

/-- The chunked loop fills the buffer with what the reads deliver, and when it
has read the whole file they delivered all of it. -/
theorem loop_spec {k : Nat} (hk : k ≤ fileSize) :
    ∃ b' r, (readLoop true bufOffset fileSize fuel k).exec a.step b =
        some (b', r) ∧
      Filled b b' (bufOffset + k)
        (deliveredFrom a.read fuel b.reads (fileSize - k)) ∧
      (r = some fileSize →
        deliveredFrom a.read fuel b.reads (fileSize - k) = fileSize - k) := by
  induction fuel generalizing b k with
  | zero =>
    refine ⟨b, some k, rfl, Filled.nothing _, fun hr => ?_⟩
    rw [Option.some.inj hr, Nat.sub_self]
    rfl
  | succ fuel ih =>
    rw [readLoop, deliveredFrom]
    by_cases hlt : k < fileSize
    · rw [if_pos hlt, if_neg (by omega)]
      cases hr : a.read b.reads (min (fileSize - k) transferGranularity) with
      | error e =>
        have hex := step_read_error (bufOffset + k) hr
        exact ⟨b.skip, none, (Prog.exec_step hex).trans rfl, Filled.skip _, by simp⟩
      | ok n =>
        have hex := step_read_ok (bufOffset + k) hr
        dsimp only
        by_cases hn : n.val = 0
        · rw [if_pos hn]
          have hfill : Filled b (b.put (bufOffset + k) n.val) (bufOffset + k) n.val :=
            Filled.put _ _
          refine ⟨b.put (bufOffset + k) n.val, none, ?_,
            hn.subst (motive := Filled b _ (bufOffset + k)) hfill, by simp⟩
          refine (Prog.exec_step hex).trans ?_
          dsimp only
          rw [if_pos hn]
          rfl
        · rw [if_neg hn]
          have hn' := n.isLt
          obtain ⟨b', r, hrest, hfill, hall⟩ :=
            ih (k := k + n.val) (b := b.put (bufOffset + k) n.val) (by omega)
          rw [← Nat.sub_sub] at hfill hall
          refine ⟨b', r, ?_, ?_, fun hr => ?_⟩
          · refine (Prog.exec_step hex).trans ?_
            dsimp only
            rw [if_neg hn]
            exact hrest
          · refine (Filled.put (bufOffset + k) n.val).trans ?_ (by omega)
            rw [Nat.add_assoc]
            exact hfill
          · have hrest := hall hr
            change n.val + deliveredFrom a.read fuel (b.reads + 1)
              (fileSize - k - n.val) = fileSize - k
            change deliveredFrom a.read fuel (b.reads + 1)
              (fileSize - k - n.val) = fileSize - k - n.val at hrest
            omega
    · rw [if_neg hlt, if_pos (by omega)]
      exact ⟨b, some k, rfl, Filled.nothing _, fun _ => by omega⟩

theorem readFile_spec (hb : b.reads = 0) :
    ∃ b' r, (readFile true bufOffset fileSize).exec a.step b = some (b', r) ∧
      Filled b b' bufOffset (delivered a.read fileSize) ∧
      (r = some fileSize → delivered a.read fileSize = fileSize) := by
  unfold readFile delivered
  by_cases h : fileSize < transferGranularity
  · rw [if_pos h, if_pos h]
    cases hr : a.read 0 fileSize with
    | error e =>
      rw [← hb] at hr
      have hex := step_read_error bufOffset hr
      exact ⟨b.skip, none, (Prog.exec_step hex).trans rfl, Filled.skip _, by simp⟩
    | ok n =>
      rw [← hb] at hr
      have hex := step_read_ok bufOffset hr
      exact ⟨_, some n.val, (Prog.exec_step hex).trans rfl, Filled.put _ _,
        fun hs => Option.some.inj hs⟩
  · rw [if_neg h, if_neg h]
    have hloop := @loop_spec a b bufOffset fileSize fileSize 0 (Nat.zero_le fileSize)
    rwa [hb] at hloop

/-- Through a null pointer nothing is read. -/
theorem readFile_null (hpos : 0 < fileSize) :
    ∃ b', (readFile false bufOffset fileSize).exec a.step b = some (b', none) ∧
      b'.granted = b.granted ∧ b'.writes = b.writes ∧ b'.sends = b.sends := by
  refine ⟨{ b with reads := b.reads + 1 }, ?_, rfl, rfl, rfl⟩
  unfold readFile
  by_cases h : fileSize < transferGranularity
  · rw [if_pos h]
    rfl
  · rw [if_neg h]
    obtain ⟨n, rfl⟩ : ∃ n, fileSize = n + 1 := ⟨fileSize - 1, by omega⟩
    rw [readLoop, if_pos (Nat.succ_pos n)]
    rfl

/-! ## The reply -/

/-- The reply from the content on. -/
def content (inbuf : Bool) (bufOffset fileSize : Nat) : Prog Call.Res Unit := do
  if fileSize > 0 then
    match ← readFile inbuf bufOffset fileSize with
    | none => return ()
    | some inlen =>
      if inlen ≠ fileSize then
        return ()
      else
        match ← perform .establishConnection with
        | .error _ => return ()
        | .ok _ =>
          let _ ← perform (.send (fileSize + bufOffset))
          return ()
  else
    return ()

/-- The buffer once it was granted, or not, and the size put in front. -/
def fronted (ucxBuild : Bool) (granted : Option Nat) : Buffer :=
  ⟨granted, if ucxBuild then [⟨granted.isSome, 0, 8⟩] else [], [], 0⟩

theorem exec_fetchReply (ucxBuild : Bool) :
    (fetchReply ucxBuild fileSize).exec a.step .none =
      (content (a.dtl.getBuffer fileSize).2.isSome
        (if ucxBuild then 8 else 0) fileSize).exec a.step
        (fronted ucxBuild (a.dtl.getBuffer fileSize).2) := by
  obtain ⟨rc, granted, hg⟩ : ∃ rc granted,
      a.dtl.getBuffer fileSize = (rc, granted) := ⟨_, _, rfl⟩
  rw [hg]
  cases granted with
  | none =>
    have hex : a.step .none (.getBuffer fileSize) = some (.none, false) := by
      simp only [Answers.step, hg]
    cases ucxBuild <;> exact Prog.exec_step hex
  | some size =>
    have hex : a.step .none (.getBuffer fileSize) =
        some (⟨some size, [], [], 0⟩, true) := by
      simp only [Answers.step, hg]
      rfl
    cases ucxBuild <;> exact Prog.exec_step hex

/-- What the content does to a buffer: it fills it with what the reads deliver,
and when that is the whole file sends all of it. -/
theorem content_spec (hb : b.reads = 0) :
    ∃ b', (content true bufOffset fileSize).exec a.step b = some (b', ()) ∧
      b'.granted = b.granted ∧
      ((∀ e ∈ b'.writes, e.InBuffer b.granted) ↔
        (∀ e ∈ b.writes, e.InBuffer b.granted) ∧
          Fits b.granted bufOffset (delivered a.read fileSize)) ∧
      (b'.sends = b.sends ∨ 0 < fileSize ∧ delivered a.read fileSize = fileSize ∧
        b'.sends = b.sends ++ [fileSize + bufOffset]) := by
  unfold content
  by_cases hpos : fileSize > 0
  · rw [if_pos hpos]
    obtain ⟨b', r, hex, hfill, hall⟩ := @readFile_spec a b bufOffset fileSize hb
    cases r with
    | none =>
      exact ⟨b', (Prog.exec_seq hex).trans rfl, hfill.granted, hfill.writes, Or.inl hfill.sends⟩
    | some inlen =>
      by_cases hlen : inlen ≠ fileSize
      · refine ⟨b', (Prog.exec_seq hex).trans ?_, hfill.granted, hfill.writes,
          Or.inl hfill.sends⟩
        dsimp only
        rw [if_pos hlen]
        rfl
      · have hdel := hall (congrArg some (not_not.mp hlen))
        cases hc : a.connect with
        | error rc =>
          have hstep : a.step b' .establishConnection = some (b', .error rc) := by
            rw [← hc]
            rfl
          refine ⟨b', (Prog.exec_seq hex).trans ?_, hfill.granted, hfill.writes,
            Or.inl hfill.sends⟩
          dsimp only
          rw [if_neg hlen]
          exact (Prog.exec_step hstep).trans rfl
        | ok _ =>
          have hstep : a.step b' .establishConnection = some (b', .ok ()) := by
            rw [← hc]
            rfl
          refine ⟨{ b' with sends := b'.sends ++ [fileSize + bufOffset] },
            (Prog.exec_seq hex).trans ?_, hfill.granted, hfill.writes,
            Or.inr ⟨hpos, hdel, ?_⟩⟩
          · dsimp only
            rw [if_neg hlen]
            exact (Prog.exec_step hstep).trans rfl
          · rw [← hfill.sends]
  · rw [if_neg hpos]
    have hle := delivered_le a.read fileSize
    refine ⟨b, rfl, rfl, ?_, Or.inl rfl⟩
    exact (and_iff_left (Or.inl (by omega))).symm

/-- Through a null pointer the content does nothing to a buffer. -/
theorem content_null :
    ∃ b', (content false bufOffset fileSize).exec a.step b = some (b', ()) ∧
      b'.granted = b.granted ∧ b'.writes = b.writes ∧ b'.sends = b.sends := by
  unfold content
  by_cases hpos : fileSize > 0
  · rw [if_pos hpos]
    obtain ⟨b', hex, hsame⟩ := @readFile_null a b bufOffset fileSize hpos
    exact ⟨b', (Prog.exec_seq hex).trans rfl, hsame⟩
  · rw [if_neg hpos]
    exact ⟨b, rfl, rfl, rfl, rfl⟩

/-- A program that ends has one end to look at. -/
theorem inside_of_exec {ucxBuild : Bool}
    (h : (fetchReply ucxBuild fileSize).exec a.step .none = some (b, ())) :
    Inside ucxBuild a fileSize ↔ b.Safe := by
  constructor
  · rintro ⟨b', hb, hsafe⟩
    rw [h] at hb
    cases hb
    exact hsafe
  · exact fun hsafe => ⟨b, h, hsafe⟩

/-- The size in front and `n` bytes of content fit into a buffer that has room
for the content. -/
theorem fronted_fits {ucxBuild : Bool} {size n : Nat} (hle : n ≤ size) :
    (∀ e ∈ (fronted ucxBuild (some size)).writes, e.InBuffer (some size)) ∧
        Fits (some size) (if ucxBuild then 8 else 0) n ↔
      (ucxBuild = true → 8 + n ≤ size) := by
  cases ucxBuild with
  | false =>
    refine iff_of_true (And.intro (fun e he => ?_) ?_) Bool.noConfusion
    · cases he
    · exact Or.inr ⟨size, rfl, (Nat.zero_add n).symm ▸ hle⟩
  | true =>
    show (∀ e ∈ [(⟨true, 0, 8⟩ : Extent)], _) ∧ Fits (some size) 8 n ↔ _
    rw [List.forall_mem_singleton, inBuffer_iff]
    unfold Fits
    constructor
    · rintro ⟨h8 | ⟨_, ⟨⟩, h8⟩, hn | ⟨_, ⟨⟩, hn⟩⟩ - <;> omega
    · intro h
      have h := h rfl
      exact ⟨Or.inr ⟨size, rfl, by omega⟩, Or.inr ⟨size, rfl, h⟩⟩

/-- Through the pointer it was granted, the reply respects the buffer just when
the size in front fits into it beside what the reads deliver. -/
theorem inside_granted {ucxBuild : Bool} {size : Nat}
    (hg : (a.dtl.getBuffer fileSize).2 = some size) (hle : fileSize ≤ size) :
    Inside ucxBuild a fileSize ↔
      (ucxBuild = true → 8 + delivered a.read fileSize ≤ size) := by
  obtain ⟨b', hrun, hgr, hwr, hse⟩ := @content_spec a
    (fronted ucxBuild (some size)) (if ucxBuild then 8 else 0) fileSize rfl
  have hex : (fetchReply ucxBuild fileSize).exec a.step .none = some (b', ()) := by
    rw [exec_fetchReply, hg]
    exact hrun
  have hfits : delivered a.read fileSize ≤ size := by
    have := delivered_le a.read fileSize
    omega
  rw [inside_of_exec hex, ← fronted_fits hfits]
  refine Iff.trans ⟨fun hsafe => ?_, fun hall => ⟨?_, fun n hn => ?_⟩⟩ hwr
  · rw [← hgr]
    exact hsafe.writes
  · rw [hgr]
    exact hall
  · rw [hgr]
    rcases hse with hse | ⟨hpos, hdel, hse⟩
    · rw [hse] at hn
      cases hn
    · rw [hse] at hn
      rw [List.mem_singleton.mp hn]
      rcases (hwr.mp hall).2 with hz | ⟨s, hs, hle⟩
      · omega
      · exact ⟨s, hs, by omega⟩

/-- Through a null pointer it does just when no size is put in front. -/
theorem inside_null {ucxBuild : Bool}
    (hg : (a.dtl.getBuffer fileSize).2 = none) :
    Inside ucxBuild a fileSize ↔ ucxBuild = false := by
  obtain ⟨b', hrun, hgr, hwr, hse⟩ := @content_null a
    (fronted ucxBuild none) (if ucxBuild then 8 else 0) fileSize
  have hex : (fetchReply ucxBuild fileSize).exec a.step .none = some (b', ()) := by
    rw [exec_fetchReply, hg]
    exact hrun
  rw [inside_of_exec hex]
  cases ucxBuild with
  | false =>
    refine iff_of_true ⟨fun e he => ?_, fun n hn => ?_⟩ rfl
    · rw [hwr] at he
      cases he
    · rw [hse] at hn
      cases hn
  | true =>
    refine iff_of_false (fun hsafe => ?_) (by decide)
    have hin := hsafe.writes ⟨false, 0, 8⟩ (by rw [hwr]; exact List.mem_singleton_self _)
    rcases hin with h | ⟨h, _⟩ <;> cases h

/-- The UCX DTL sets the pointer if it has a buffer and the file fits. -/
theorem dyadDtlUcxGetBuffer_set (h : UcxHandle) (dataSize : Nat) :
    (dyadDtlUcxGetBuffer h dataSize).2 = true ↔
      h.netBuf = true ∧ dataSize ≤ h.maxTransferSize := by
  rw [dyadDtlUcxGetBuffer]
  split
  · next hgt => exact iff_of_false (by simp) fun h => by omega
  · next hle => exact (and_iff_left (Nat.not_lt.mp hle)).symm

/-- What is behind the pointer in the UCX DTL. -/
theorem getBuffer_ucx (hm : a.dtl.mode = .ucx) :
    (a.dtl.getBuffer fileSize).2 =
      if (dyadDtlUcxGetBuffer a.dtl.ucx fileSize).2 = true then
        some (a.dtl.ucx.maxTransferSize + 8) else none := by
  rw [Dtl.getBuffer, hm]
  rfl

/-- Every write of a reply lands in the buffer that was granted, and nothing
longer is sent, just when the size is not put in front of the content or the
DTL in use has left room for it. -/
theorem reply_inside_iff (ucxBuild : Bool) (a : Answers) (fileSize : Nat) :
    Inside ucxBuild a fileSize ↔ Holds ucxBuild a fileSize := by
  unfold Holds
  by_cases hm : a.dtl.mode = .ucx
  · rw [if_pos hm]
    rw [← dyadDtlUcxGetBuffer_set]
    have hg := @getBuffer_ucx a fileSize hm
    split at hg
    · next hset =>
      have hle := ((dyadDtlUcxGetBuffer_set _ _).mp hset).2
      rw [inside_granted hg (by omega)]
      have hdel := delivered_le a.read fileSize
      exact iff_of_true (fun _ => by omega) (fun _ => hset)
    · next hset =>
      rw [inside_null hg]
      cases ucxBuild with
      | false => exact iff_of_true rfl Bool.noConfusion
      | true => exact iff_of_false (by decide) (fun h => hset (h rfl))
  · rw [if_neg hm]
    have hg : (a.dtl.getBuffer fileSize).2 =
        if a.dtl.alloc then some fileSize else none := by
      unfold Dtl.getBuffer dyadDtlFluxGetBuffer dyadDtlMargoGetBuffer
      split
      · split <;> rfl
      · split <;> rfl
      · next h => exact absurd h hm
    cases halloc : a.dtl.alloc with
    | true =>
      rw [halloc, if_pos rfl] at hg
      rw [inside_granted hg (Nat.le_refl _)]
      exact forall_congr' fun _ => (and_iff_right rfl).symm
    | false =>
      rw [halloc, if_neg (by decide)] at hg
      rw [inside_null hg]
      cases ucxBuild with
      | false => exact iff_of_true rfl Bool.noConfusion
      | true => exact iff_of_false (by decide) (fun h => by cases (h rfl).1)

/-- A UCX build that serves through Flux: a file of three bytes, and the size
in front of it alone is longer than the buffer. -/
def smallFile : Answers where
  dtl := ⟨.fluxRpc, ⟨.none, 0, none, none, none, 0, fun _ => none, 0, none, 0, false⟩,
    true⟩
  read := fun _ count => .ok (Fin.last count)
  connect := .ok ()
  send := .ok ()

theorem size_past_the_buffer :
    (∃ b, (fetchReply true 3).exec smallFile.step .none = some (b, ()) ∧
      b.granted = some 3 ∧
      b.writes = [⟨true, 0, 8⟩, ⟨true, 8, 3⟩] ∧ b.sends = [11]) ∧
      ¬ Inside true smallFile 3 := by
  have hex : (fetchReply true 3).exec smallFile.step .none =
      some (⟨some 3, [⟨true, 0, 8⟩, ⟨true, 8, 3⟩], [11], 1⟩, ()) := rfl
  refine ⟨⟨_, hex, rfl, rfl, rfl⟩, ?_⟩
  rw [inside_of_exec hex]
  intro hsafe
  obtain h | ⟨_, _, ⟨⟩, h⟩ := hsafe.writes ⟨true, 0, 8⟩ (List.mem_cons_self ..)
  · cases h
  · revert h
    decide

end Dyad.Reply
