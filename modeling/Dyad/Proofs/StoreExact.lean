import Dyad.Client.ConsStore
import Mathlib.Data.UInt

/-!
# When a fetched file is written exactly

The chunked loop of `dyad_cons_store` has one good course: every `write` takes
something, `written_data` is the number of bytes taken, and the bytes taken are
the first ones of the buffer. Along it the loop ends, and ends with the whole
buffer written.

Any other answer leaves that course for good. A `write` that takes nothing
ends the function with `DYAD_RC_OK` and a part of the buffer unwritten. A
`write` that fails takes one off `written_data`. Where nothing had been taken
the next range starts before the buffer. Elsewhere `written_data` is now behind
what was taken, so whatever the loop writes next it writes a second time, and
no matter how it goes on, it never ends with an error again. `Behind` is that
state, and it is kept by every step.

`exact_iff` says that the good course is the only one on which the function
does what it should.
-/

namespace Dyad.Store

open Conc Posix

/-! ## Places -/

theorem length_places (n : Nat) : (places n).length = n := by simp [places]

theorem places_inj {m n : Nat} (h : places m = places n) : m = n := by
  rw [← length_places m, h, length_places]

theorem getElem?_places {n i : Nat} (h : i < n) : (places n)[i]? = some (i : Int) := by
  simp [places, h]

theorem places_add (k n : Nat) :
    places (k + n) = places k ++ (List.range n).map fun i : Nat => (k : Int) + i := by
  rw [places, places, List.range_add, List.map_append, List.map_map]
  refine congrArg _ (List.map_congr_left fun i _ => ?_)
  exact Int.natCast_add k i

theorem taken_snoc (ws : List Write) (w : Write) :
    taken (ws ++ [w]) = taken ws ++ w.took := by
  simp [taken]

/-! ## Words -/

attribute [local irreducible] toSsize

variable {dataLen : UInt64}

theorem toSsize_ofNat {k : Nat} (h : k < 2 ^ 63) :
    toSsize (UInt64.ofNat k) = (k : Int) := by
  have hk : (UInt64.ofNat k).toNat = k := UInt64.toNat_ofNat_of_lt' (by
    show k < 2 ^ 64
    omega)
  rw [toSsize_of_lt (by omega), hk]

theorem toSsize_neg_one : toSsize (-1) = -1 := by
  have hcases := toSsize_cases (-1)
  have hval : (-1 : UInt64).toNat = 2 ^ 64 - 1 := by decide
  omega

/-- What is left of the buffer after `k` bytes, or a chunk of it. -/
theorem writtenSize_ofNat (hlen : dataLen.toNat < 2 ^ 63) {k : Nat}
    (h : k ≤ dataLen.toNat) :
    writtenSize dataLen (UInt64.ofNat k) =
      min (dataLen.toNat - k) transferGranularity := by
  have hsub : dataLen - UInt64.ofNat k = UInt64.ofNat (dataLen.toNat - k) := by
    rw [UInt64.ofNat_sub h, UInt64.ofNat_toNat]
  have hg : transferGranularity = 2 ^ 30 := rfl
  unfold writtenSize
  rw [hsub, toSsize_ofNat (by omega), hg]
  dsimp only
  split <;> omega

theorem add_writtenLen_ok (k n : Nat) :
    UInt64.ofNat k + writtenLen (.ok n) = UInt64.ofNat (k + n) :=
  (UInt64.ofNat_add k n).symm

theorem writtenLen_ok_eq_zero {n : Nat} (h : n < 2 ^ 64) :
    writtenLen (.ok n) = 0 ↔ n = 0 := by
  rw [writtenLen, ← UInt64.toNat_inj, UInt64.toNat_ofNat_of_lt' h]
  rfl

/-! ## A turn of the loop -/

variable {a : Answers} {fuel : Nat} {w : UInt64} {ws : List Write}

/-- The write the loop makes at `w`, once it is answered. -/
def written (a : Answers) (dataLen w : UInt64) (ws : List Write) : Write :=
  ⟨toSsize w, writtenSize dataLen w,
    (a.write ws.length (writtenSize dataLen w)).map (·.val)⟩

theorem loop_done (h : ¬ toSsize w < toSsize dataLen) :
    (consStoreLoop dataLen (fuel + 1) w).exec a.step ws =
      some (ws, .done w) := by
  rw [consStoreLoop, if_neg h]
  rfl

theorem loop_write (h : toSsize w < toSsize dataLen) :
    (consStoreLoop dataLen (fuel + 1) w).exec a.step ws =
      (if writtenLen (written a dataLen w ws).result = 0 then
        Prog.pure .pullDone
      else
        consStoreLoop dataLen fuel
          (w + writtenLen (written a dataLen w ws).result)).exec a.step
        (ws ++ [written a dataLen w ws]) := by
  rw [consStoreLoop, if_pos h]
  exact Prog.exec_step rfl

theorem loop_pullDone (h : toSsize w < toSsize dataLen)
    (hw : writtenLen (written a dataLen w ws).result = 0) :
    (consStoreLoop dataLen (fuel + 1) w).exec a.step ws =
      some (ws ++ [written a dataLen w ws], .pullDone) := by
  rw [loop_write h, if_pos hw]
  rfl

theorem loop_next (h : toSsize w < toSsize dataLen)
    (hw : writtenLen (written a dataLen w ws).result ≠ 0) :
    (consStoreLoop dataLen (fuel + 1) w).exec a.step ws =
      (consStoreLoop dataLen fuel
        (w + writtenLen (written a dataLen w ws).result)).exec a.step
        (ws ++ [written a dataLen w ws]) := by
  rw [loop_write h, if_neg hw]

/-- The loop only adds to the writes that were made. -/
theorem loop_extends {ws' : List Write} {e : Exit}
    (h : (consStoreLoop dataLen fuel w).exec a.step ws = some (ws', e)) :
    ws <+: ws' := by
  induction fuel generalizing w ws with
  | zero =>
    obtain ⟨rfl, -⟩ := Prod.mk.inj (Option.some.inj h)
    exact List.prefix_rfl
  | succ fuel ih =>
    by_cases hlt : toSsize w < toSsize dataLen
    · by_cases hw : writtenLen (written a dataLen w ws).result = 0
      · rw [loop_pullDone hlt hw] at h
        obtain ⟨rfl, -⟩ := Prod.mk.inj (Option.some.inj h)
        exact List.prefix_append _ _
      · rw [loop_next hlt hw] at h
        exact (List.prefix_append _ _).trans (ih h)
    · rw [loop_done hlt] at h
      obtain ⟨rfl, -⟩ := Prod.mk.inj (Option.some.inj h)
      exact List.prefix_rfl

/-- A turn inside the buffer offers what is left of it. -/
theorem written_ofNat (hlen : dataLen.toNat < 2 ^ 63) {k : Nat}
    (h : k < dataLen.toNat) :
    written a dataLen (UInt64.ofNat k) ws =
      ⟨k, min (dataLen.toNat - k) transferGranularity,
        (a.write ws.length (min (dataLen.toNat - k) transferGranularity)).map
          (·.val)⟩ := by
  unfold written
  rw [writtenSize_ofNat hlen (Nat.le_of_lt h), toSsize_ofNat (by omega)]

theorem ofNat_lt (hlen : dataLen.toNat < 2 ^ 63) {k : Nat} :
    k < 2 ^ 63 →
      (toSsize (UInt64.ofNat k) < toSsize dataLen ↔ k < dataLen.toNat) := by
  intro hk
  rw [toSsize_ofNat hk, toSsize_of_lt hlen]
  exact Int.ofNat_lt

/-! ## The good course -/

section Course

/-- A turn that takes `n` of the bytes left. -/
theorem loop_takes (hlen : dataLen.toNat < 2 ^ 63) {k : Nat} (hk : k < dataLen.toNat)
    {n : Fin (min (dataLen.toNat - k) transferGranularity + 1)}
    (hr : a.write ws.length (min (dataLen.toNat - k) transferGranularity) =
      .ok n) (hn : 0 < n.val) :
    (consStoreLoop dataLen (fuel + 1) (UInt64.ofNat k)).exec a.step ws =
      (consStoreLoop dataLen fuel (UInt64.ofNat (k + n.val))).exec a.step
        (ws ++ [⟨k, min (dataLen.toNat - k) transferGranularity, .ok n.val⟩]) := by
  have hw := @written_ofNat dataLen a ws hlen k hk
  rw [hr] at hw
  have hn' := n.isLt
  have hne : writtenLen (written a dataLen (UInt64.ofNat k) ws).result ≠ 0 := by
    rw [hw]
    show writtenLen (.ok n.val) ≠ 0
    rw [Ne, writtenLen_ok_eq_zero (by omega)]
    omega
  rw [loop_next ((ofNat_lt hlen (by omega)).2 hk) hne, hw]
  exact congrArg (fun u => (consStoreLoop dataLen fuel u).exec a.step _)
    (add_writtenLen_ok k n.val)

/-- The bytes such a turn took are the next ones. -/
theorem taken_next {k n m : Nat} (ht : taken ws = places k) :
    taken (ws ++ [⟨k, m, .ok n⟩]) = places (k + n) := by
  rw [taken_snoc, ht, places_add]
  rfl

theorem within_next {k : Nat} (hk : k < dataLen.toNat) {r : Except Errno Nat}
    (hws : ∀ w ∈ ws, w.Within dataLen.toNat) :
    ∀ w ∈ ws ++ [⟨k, min (dataLen.toNat - k) transferGranularity, r⟩],
      w.Within dataLen.toNat := by
  intro w hw
  rcases List.mem_append.1 hw with hw | hw
  · exact hws w hw
  · obtain rfl := List.mem_singleton.1 hw
    refine ⟨Int.natCast_nonneg k, ?_⟩
    show (k : Int) + (min (dataLen.toNat - k) transferGranularity : Nat) ≤ _
    omega

/-- On the good course the loop stays within the buffer, and when it ends it
has written the whole of it. -/
theorem drains_run (hlen : dataLen.toNat < 2 ^ 63) {i left : Nat} (hd : Drains a.write i left) :
    ∀ {k : Nat} {ws : List Write}, i = ws.length → k + left = dataLen.toNat →
      taken ws = places k → (∀ w ∈ ws, w.Within dataLen.toNat) → ∀ fuel,
      ∃ ws' e, (consStoreLoop dataLen fuel (UInt64.ofNat k)).exec a.step ws =
        some (ws', e) ∧ (∀ w ∈ ws', w.Within dataLen.toNat) ∧
        (e = .running ∨
          e = .done dataLen ∧ taken ws' = places dataLen.toNat) := by
  induction hd with
  | nothing i =>
    intro k ws _ hk ht hws fuel
    obtain rfl : k = dataLen.toNat := by omega
    cases fuel with
    | zero => exact ⟨ws, .running, rfl, hws, Or.inl rfl⟩
    | succ fuel =>
      rw [UInt64.ofNat_toNat]
      exact ⟨ws, .done dataLen, loop_done (Int.lt_irrefl _), hws,
        Or.inr ⟨rfl, ht⟩⟩
  | @chunk i left n hleft hr hn _ ih =>
    intro k ws hi hk ht hws fuel
    subst hi
    obtain rfl : left = dataLen.toNat - k := by omega
    cases fuel with
    | zero => exact ⟨ws, .running, rfl, hws, Or.inl rfl⟩
    | succ fuel =>
      rw [loop_takes hlen (by omega) hr hn]
      have hn' := n.isLt
      exact ih (by simp) (by omega) (taken_next ht)
        (within_next (by omega) hws) fuel

/-- And it does end. -/
theorem drains_ends (hlen : dataLen.toNat < 2 ^ 63) {i left : Nat} (hd : Drains a.write i left) :
    ∀ {k : Nat} {ws : List Write}, i = ws.length → k + left = dataLen.toNat →
      ∃ fuel ws', (consStoreLoop dataLen fuel (UInt64.ofNat k)).exec a.step ws =
        some (ws', .done dataLen) := by
  induction hd with
  | nothing i =>
    intro k ws _ hk
    obtain rfl : k = dataLen.toNat := by omega
    refine ⟨1, ws, ?_⟩
    rw [UInt64.ofNat_toNat]
    exact loop_done (Int.lt_irrefl _)
  | @chunk i left n hleft hr hn _ ih =>
    intro k ws hi hk
    subst hi
    obtain rfl : left = dataLen.toNat - k := by omega
    have hn' := n.isLt
    obtain ⟨fuel, ws', h⟩ := @ih (k + n.val)
      (ws ++ [⟨k, min (dataLen.toNat - k) transferGranularity, .ok n.val⟩])
      (by simp) (by omega)
    exact ⟨fuel + 1, ws', (loop_takes hlen (by omega) hr hn).trans h⟩

end Course

/-! ## Off it -/

/-- What was taken can no longer become the buffer: it is ahead of the count,
or out of order already. -/
def Behind (dataLen : UInt64) (c : Nat) (ws : List Write) : Prop :=
  (∃ k, taken ws = places k ∧ c < k ∧ k < dataLen.toNat) ∨
    ¬ taken ws <+: places dataLen.toNat

theorem Behind.ne {c : Nat} (h : Behind dataLen c ws) :
    taken ws ≠ places dataLen.toNat := by
  rcases h with ⟨k, hk, -, hlt⟩ | h
  · rw [hk]
    intro heq
    have := places_inj heq
    omega
  · intro heq
    exact h (heq ▸ List.prefix_rfl)

/-- A turn that takes something writes a byte it has written. -/
theorem Behind.took {c n m : Nat} (h : Behind dataLen c ws) (hn : 0 < n) :
    Behind dataLen (c + n) (ws ++ [⟨c, m, .ok n⟩]) := by
  refine Or.inr fun hpre => ?_
  rw [taken_snoc] at hpre
  rcases h with ⟨k, hk, hlt, hlen⟩ | h
  · have hat : (taken ws ++ Write.took ⟨c, m, .ok n⟩)[k]? = some (c : Int) := by
      rw [hk, List.getElem?_append_right (by rw [length_places]), length_places,
        Nat.sub_self]
      simp [Write.took, hn]
    obtain ⟨hklt, hget⟩ := List.getElem?_eq_some_iff.1 hat
    have hplace := List.prefix_iff_getElem?.1 hpre k hklt
    rw [getElem?_places hlen, hget] at hplace
    have := Option.some.inj hplace
    omega
  · exact h ((List.prefix_append _ _).trans hpre)

theorem taken_failed (c : Int) (m : Nat) (e : Errno) :
    taken (ws ++ [⟨c, m, .error e⟩]) = taken ws := by
  rw [taken_snoc]
  exact List.append_nil _

theorem Behind.failed {c m : Nat} {e : Errno} (h : Behind dataLen (c + 1) ws) :
    Behind dataLen c (ws ++ [⟨(c + 1 : Nat), m, .error e⟩]) := by
  unfold Behind
  rw [taken_failed]
  refine h.imp (fun ⟨k, hk, hlt, hlen⟩ => ⟨k, hk, ?_, hlen⟩) id
  omega

/-- The code an end of the loop leads to. -/
def Exit.rc (dataLen : UInt64) : Exit → Option Rc
  | .running => none
  | .pullDone => some .ok
  | .done writtenData => some (writtenRc writtenData dataLen)

theorem rc_done : Exit.rc dataLen (.done dataLen) = some .ok := by
  simp [Exit.rc, writtenRc]

theorem exec_ofNat_error (hlen : dataLen.toNat < 2 ^ 63) {k : Nat}
    (hk : k < dataLen.toNat) {e : Errno}
    (hr : a.write ws.length (min (dataLen.toNat - k) transferGranularity) =
      .error e) :
    (consStoreLoop dataLen (fuel + 1) (UInt64.ofNat k)).exec a.step ws =
      (consStoreLoop dataLen fuel (UInt64.ofNat k + -1)).exec a.step
        (ws ++ [⟨k, min (dataLen.toNat - k) transferGranularity, .error e⟩]) := by
  have hw := @written_ofNat dataLen a ws hlen k hk
  rw [hr] at hw
  have hne : writtenLen (written a dataLen (UInt64.ofNat k) ws).result ≠ 0 := by
    rw [hw]
    show (-1 : UInt64) ≠ 0
    decide
  rw [loop_next ((ofNat_lt hlen (by omega)).2 hk) hne, hw]
  rfl

theorem exec_ofNat_nothing (hlen : dataLen.toNat < 2 ^ 63) {k : Nat}
    (hk : k < dataLen.toNat)
    {n : Fin (min (dataLen.toNat - k) transferGranularity + 1)}
    (hr : a.write ws.length (min (dataLen.toNat - k) transferGranularity) =
      .ok n) (hn : n.val = 0) :
    (consStoreLoop dataLen (fuel + 1) (UInt64.ofNat k)).exec a.step ws =
      some (ws ++ [⟨k, min (dataLen.toNat - k) transferGranularity, .ok 0⟩],
        .pullDone) := by
  have hw := @written_ofNat dataLen a ws hlen k hk
  rw [hr] at hw
  have hw' : written a dataLen (UInt64.ofNat k) ws =
      ⟨k, min (dataLen.toNat - k) transferGranularity, .ok 0⟩ := by
    rw [hw]
    show Write.mk _ _ (.ok n.val) = _
    rw [hn]
  rw [loop_pullDone ((ofNat_lt hlen (by omega)).2 hk) (by rw [hw']; rfl), hw']

/-- Behind the start of the buffer, the next range is outside it. -/
theorem before_start (hlen : dataLen.toNat < 2 ^ 63) {ws' : List Write}
    {e : Exit}
    (h : (consStoreLoop dataLen fuel (-1)).exec a.step ws = some (ws', e))
    (hin : ∀ w ∈ ws', w.Within dataLen.toNat) : e = .running := by
  cases fuel with
  | zero => exact (Prod.mk.inj (Option.some.inj h)).2.symm
  | succ fuel =>
    have hlt : toSsize (-1) < toSsize dataLen := by
      rw [toSsize_neg_one, toSsize_of_lt hlen]
      omega
    have hmem : written a dataLen (-1) ws ∈ ws' := by
      by_cases hw : writtenLen (written a dataLen (-1) ws).result = 0
      · rw [loop_pullDone hlt hw] at h
        obtain ⟨rfl, -⟩ := Prod.mk.inj (Option.some.inj h)
        simp
      · rw [loop_next hlt hw] at h
        exact (loop_extends h).subset (by simp)
    have hstart : 0 ≤ toSsize (-1) := (hin _ hmem).1
    rw [toSsize_neg_one] at hstart
    omega

theorem ofNat_succ_add_neg_one (c : Nat) :
    UInt64.ofNat (c + 1) + -1 = UInt64.ofNat c := by
  rw [UInt64.ofNat_add]
  show UInt64.ofNat c + 1 + -1 = UInt64.ofNat c
  rw [UInt64.add_assoc]
  exact UInt64.add_zero _

/-- Once behind, the loop stays within the buffer only to end in success, with
something else than the buffer written. -/
theorem behind_ends (hlen : dataLen.toNat < 2 ^ 63) {c : Nat} {ws' : List Write}
    {e : Exit} (hc : c ≤ dataLen.toNat) (hb : Behind dataLen c ws)
    (h : (consStoreLoop dataLen fuel (UInt64.ofNat c)).exec a.step ws =
      some (ws', e)) (hin : ∀ w ∈ ws', w.Within dataLen.toNat) :
    e = .running ∨
      e.rc dataLen = some .ok ∧ taken ws' ≠ places dataLen.toNat := by
  induction fuel generalizing c ws with
  | zero => exact Or.inl (Prod.mk.inj (Option.some.inj h)).2.symm
  | succ fuel ih =>
    rcases Nat.lt_or_eq_of_le hc with hlt | rfl
    · cases hr : a.write ws.length
          (min (dataLen.toNat - c) transferGranularity) with
      | error e =>
        rw [exec_ofNat_error hlen hlt hr] at h
        cases c with
        | zero =>
          rw [show UInt64.ofNat 0 + -1 = -1 from rfl] at h
          exact Or.inl (before_start hlen h hin)
        | succ c =>
          rw [ofNat_succ_add_neg_one] at h
          exact ih (by omega) hb.failed h
      | ok n =>
        by_cases hn : n.val = 0
        · rw [exec_ofNat_nothing hlen hlt hr hn] at h
          obtain ⟨rfl, rfl⟩ := Prod.mk.inj (Option.some.inj h)
          refine Or.inr ⟨rfl, ?_⟩
          rw [taken_snoc]
          show taken ws ++ [] ≠ _
          rw [List.append_nil]
          exact hb.ne
        · rw [loop_takes hlen hlt hr (Nat.pos_of_ne_zero hn)] at h
          have hn' := n.isLt
          exact ih (by omega) (hb.took (Nat.pos_of_ne_zero hn)) h
    · rw [UInt64.ofNat_toNat, loop_done (Int.lt_irrefl _)] at h
      obtain ⟨rfl, rfl⟩ := Prod.mk.inj (Option.some.inj h)
      exact Or.inr ⟨rc_done, hb.ne⟩

/-- The rest of the loop does what it should. -/
def Fine (a : Answers) (dataLen w : UInt64) (ws : List Write) : Prop :=
  (∃ fuel ws' e, (consStoreLoop dataLen fuel w).exec a.step ws = some (ws', e) ∧
    e ≠ .running) ∧
  ∀ fuel ws' e, (consStoreLoop dataLen fuel w).exec a.step ws = some (ws', e) →
    (∀ x ∈ ws', x.Within dataLen.toNat) ∧
      ∀ rc, e.rc dataLen = some rc →
        (rc = .ok ↔ taken ws' = places dataLen.toNat)

/-- A loop that is fine is fine after a turn. -/
theorem Fine.next {w' : UInt64} {ws₁ : List Write} (hf : Fine a dataLen w ws)
    (h : ∀ fuel, (consStoreLoop dataLen (fuel + 1) w).exec a.step ws =
      (consStoreLoop dataLen fuel w').exec a.step ws₁) :
    Fine a dataLen w' ws₁ := by
  obtain ⟨⟨fuel, ws', e, hex, hne⟩, hall⟩ := hf
  refine ⟨?_, fun fuel ws' e hex => hall (fuel + 1) ws' e ((h fuel).trans hex)⟩
  cases fuel with
  | zero => exact absurd (Prod.mk.inj (Option.some.inj hex)).2.symm hne
  | succ fuel => exact ⟨fuel, ws', e, (h fuel).symm.trans hex, hne⟩

theorem not_fine_behind (hlen : dataLen.toNat < 2 ^ 63) {c : Nat}
    (hc : c ≤ dataLen.toNat) (hb : Behind dataLen c ws) :
    ¬ Fine a dataLen (UInt64.ofNat c) ws := by
  rintro ⟨⟨fuel, ws', e, hex, hne⟩, hall⟩
  obtain ⟨hin, hrc⟩ := hall fuel ws' e hex
  rcases behind_ends hlen hc hb hex hin with hrun | ⟨hok, htaken⟩
  · exact hne hrun
  · exact htaken ((hrc .ok hok).1 rfl)

theorem not_fine_before (hlen : dataLen.toNat < 2 ^ 63) :
    ¬ Fine a dataLen (-1) ws := by
  rintro ⟨⟨fuel, ws', e, hex, hne⟩, hall⟩
  exact hne (before_start hlen hex (hall fuel ws' e hex).1)

/-- Only the good course is fine. -/
theorem drains_of_fine (hlen : dataLen.toNat < 2 ^ 63) {k left : Nat}
    (hk : k + left = dataLen.toNat) (ht : taken ws = places k)
    (hf : Fine a dataLen (UInt64.ofNat k) ws) :
    Drains a.write ws.length left := by
  induction left using Nat.strongRecOn generalizing k ws with
  | ind left ih =>
    obtain rfl : left = dataLen.toNat - k := by omega
    rcases Nat.eq_zero_or_pos (dataLen.toNat - k) with hz | hpos
    · rw [hz]
      exact .nothing _
    · cases hr : a.write ws.length
          (min (dataLen.toNat - k) transferGranularity) with
      | error e =>
        have hf' := hf.next fun fuel => exec_ofNat_error hlen (by omega) hr
        cases k with
        | zero => exact absurd hf' (not_fine_before hlen)
        | succ k =>
          rw [ofNat_succ_add_neg_one] at hf'
          refine absurd hf' (not_fine_behind hlen (by omega) (Or.inl ?_))
          exact ⟨k + 1, by rw [taken_failed, ht], by omega, by omega⟩
      | ok n =>
        rcases Nat.eq_zero_or_pos n.val with hn | hn
        · obtain ⟨-, hrc⟩ := hf.2 1 _ _
            (exec_ofNat_nothing hlen (by omega) hr hn)
          have htaken := (hrc .ok rfl).1 rfl
          rw [taken_next ht, Nat.add_zero] at htaken
          have := places_inj htaken
          omega
        · refine .chunk hpos hr hn ?_
          have hn' := n.isLt
          have hrest := ih (dataLen.toNat - k - n.val) (by omega)
            (k := k + n.val) (by omega) (taken_next ht)
            (hf.next fun fuel => loop_takes hlen (by omega) hr hn)
          rwa [List.length_append] at hrest

/-! ## The function -/

theorem exec_noDirectory {dotPath : Bool}
    (h : dotPath = false ∧ a.mkdir ≠ .ok ()) :
    (dyadConsStore dotPath dataLen fuel).exec a.step ws =
      some (ws, some .badfio) := by
  obtain ⟨rfl, hm⟩ := h
  have hstep : a.step ws .mkdirAsNeeded = some (ws, a.mkdir) := rfl
  show Prog.exec a.step (Prog.call Call.mkdirAsNeeded _) ws = _
  rw [Prog.exec_call hstep]
  cases hr : a.mkdir with
  | error e => rfl
  | ok u => exact absurd hr hm

theorem exec_directory {dotPath : Bool}
    (h : ¬ (dotPath = false ∧ a.mkdir ≠ .ok ())) :
    (dyadConsStore dotPath dataLen fuel).exec a.step ws =
      (consStoreWrite dataLen fuel).exec a.step ws := by
  cases dotPath with
  | true => rfl
  | false =>
    have hm : a.mkdir = .ok () := by simpa using h
    have hstep : a.step ws .mkdirAsNeeded = some (ws, a.mkdir) := rfl
    show Prog.exec a.step (Prog.call Call.mkdirAsNeeded _) ws = _
    rw [Prog.exec_call hstep, hm]
    rfl

/-- At one go: one write of the whole buffer. -/
theorem exec_once (h : dataLen.toNat < transferGranularity) :
    (consStoreWrite dataLen fuel).exec a.step [] =
      some ([⟨0, dataLen.toNat, (a.write 0 dataLen.toNat).map (·.val)⟩],
        some (writtenRc
          (writtenLen ((a.write 0 dataLen.toNat).map (·.val))) dataLen)) := by
  rw [consStoreWrite, if_pos h]
  rfl

theorem exec_chunks (h : ¬ dataLen.toNat < transferGranularity) :
    (consStoreWrite dataLen fuel).exec a.step ws =
      ((consStoreLoop dataLen fuel 0).exec a.step ws).map fun x =>
        (x.1, x.2.rc dataLen) := by
  rw [consStoreWrite, if_neg h]
  show Prog.exec a.step (Prog.bind _ _) ws = _
  rw [Prog.exec_bind, Option.map_eq_bind]
  refine congrArg _ (funext fun x => ?_)
  obtain ⟨ws', e⟩ := x
  cases e <;> rfl

theorem writtenRc_ok {n : Nat} (h : n < 2 ^ 64) :
    writtenRc (writtenLen (.ok n)) dataLen =
      if n = dataLen.toNat then .ok else .badfio := by
  have hval : (writtenLen (.ok n)).toNat = n := UInt64.toNat_ofNat_of_lt' h
  unfold writtenRc
  by_cases heq : n = dataLen.toNat
  · have hsame : writtenLen (.ok n) = dataLen :=
      UInt64.toNat_inj.1 (hval.trans heq)
    rw [if_neg (not_not.2 hsame), if_pos heq]
  · have hne : writtenLen (.ok n) ≠ dataLen := by
      intro hsame
      rw [hsame] at hval
      exact heq hval.symm
    rw [if_pos hne, if_neg heq]

theorem writtenRc_error {e : Errno} (h : dataLen.toNat < 2 ^ 63) :
    writtenRc (writtenLen (.error e)) dataLen = .badfio := by
  have hval : (writtenLen (.error e)).toNat = 2 ^ 64 - 1 := rfl
  refine if_pos fun heq => ?_
  rw [heq] at hval
  omega

theorem took_start (n m : Nat) : taken [⟨0, m, .ok n⟩] = places n := by
  simp [taken, Write.took, places]

/-- What a function that comes to the same at every fuel has to do. -/
theorem exact_of_exec {dotPath : Bool} {ws : List Write} {rc : Rc}
    (h : ∀ fuel, (dyadConsStore dotPath dataLen fuel).exec a.step [] =
      some (ws, some rc)) :
    Exact dotPath a dataLen ↔ (∀ w ∈ ws, w.Within dataLen.toNat) ∧
      (rc = .ok ↔ taken ws = places dataLen.toNat) := by
  constructor
  · intro hx
    exact ⟨hx.within 0 ws _ (h 0), hx.ok_iff 0 ws rc (h 0)⟩
  · rintro ⟨hin, hrc⟩
    have hsame : ∀ {fuel ws' o}, (dyadConsStore dotPath dataLen fuel).exec
        a.step [] = some (ws', o) → ws' = ws ∧ o = some rc := by
      intro fuel ws' o hex
      rw [h fuel] at hex
      obtain ⟨rfl, rfl⟩ := Prod.mk.inj (Option.some.inj hex)
      exact ⟨rfl, rfl⟩
    refine ⟨⟨0, ws, rc, h 0⟩, ?_, ?_⟩
    · intro fuel ws' o hex
      rw [(hsame hex).1]
      exact hin
    · intro fuel ws' rc' hex
      obtain ⟨rfl, heq⟩ := hsame hex
      rw [Option.some.inj heq]
      exact hrc

theorem exact_once_iff {dotPath : Bool}
    (hdir : ¬ (dotPath = false ∧ a.mkdir ≠ .ok ()))
    (h : dataLen.toNat < transferGranularity) :
    Exact dotPath a dataLen ↔ (dataLen = 0 → ∃ n, a.write 0 0 = .ok n) := by
  have hg : transferGranularity = 2 ^ 30 := rfl
  rw [exact_of_exec fun fuel => (exec_directory hdir).trans (exec_once h)]
  have hwithin : ∀ r, Write.Within ⟨0, dataLen.toNat, r⟩ dataLen.toNat :=
    fun r => ⟨Int.le_refl 0, by simp⟩
  simp only [List.mem_singleton, forall_eq, hwithin, true_and]
  have hzero : dataLen = 0 ↔ dataLen.toNat = 0 := UInt64.toNat_inj.symm
  cases hr : a.write 0 dataLen.toNat with
  | ok n =>
    have hn := n.isLt
    refine iff_of_true ?_ fun hz => ?_
    · show writtenRc (writtenLen (.ok n.val)) dataLen = .ok ↔
        taken [⟨0, dataLen.toNat, .ok n.val⟩] = _
      rw [writtenRc_ok (by omega), took_start]
      constructor
      · intro hrc
        by_cases heq : n.val = dataLen.toNat
        · rw [heq]
        · rw [if_neg heq] at hrc
          exact absurd hrc (by decide)
      · intro heq
        rw [if_pos (places_inj heq)]
    · have hempty : ∀ m, m = 0 → ∀ n, a.write 0 m = .ok n →
          ∃ n, a.write 0 0 = .ok n := by
        rintro m rfl n hn
        exact ⟨n, hn⟩
      exact hempty _ (hzero.1 hz) n hr
  | error e =>
    have hrc : writtenRc (writtenLen (.error e)) dataLen ≠ .ok := by
      rw [writtenRc_error (by omega)]
      decide
    have hplaces : taken [⟨0, dataLen.toNat, .error e⟩] =
        places dataLen.toNat ↔ dataLen.toNat = 0 := by
      show places 0 = _ ↔ _
      exact ⟨fun heq => (places_inj heq).symm, fun heq => heq ▸ rfl⟩
    show (writtenRc (writtenLen (.error e)) dataLen = .ok ↔
      taken [⟨0, dataLen.toNat, .error e⟩] = places dataLen.toNat) ↔ _
    rw [hplaces, iff_false_left hrc, hzero]
    constructor
    · intro hne hz
      exact absurd hz hne
    · intro hex hz
      obtain ⟨n, hn⟩ := hex hz
      rw [hz] at hr
      exact absurd (hr.symm.trans hn) (by simp)

theorem exact_chunks_iff {dotPath : Bool}
    (hdir : ¬ (dotPath = false ∧ a.mkdir ≠ .ok ()))
    (h : ¬ dataLen.toNat < transferGranularity) :
    Exact dotPath a dataLen ↔ Fine a dataLen 0 [] := by
  have hex : ∀ fuel ws' o, (dyadConsStore dotPath dataLen fuel).exec a.step [] =
      some (ws', o) ↔ ∃ e, (consStoreLoop dataLen fuel 0).exec a.step [] =
        some (ws', e) ∧ e.rc dataLen = o := by
    intro fuel ws' o
    rw [exec_directory hdir, exec_chunks h, Option.map_eq_some_iff]
    constructor
    · rintro ⟨⟨ws'', e⟩, hloop, heq⟩
      obtain ⟨rfl, rfl⟩ := Prod.mk.inj heq
      exact ⟨e, hloop, rfl⟩
    · rintro ⟨e, hloop, rfl⟩
      exact ⟨(ws', e), hloop, rfl⟩
  constructor
  · rintro ⟨⟨fuel, ws', rc, hends⟩, hin, hok⟩
    refine ⟨?_, fun fuel ws' e hloop => ?_⟩
    · obtain ⟨e, hloop, hrc⟩ := (hex _ _ _).1 hends
      refine ⟨fuel, ws', e, hloop, ?_⟩
      rintro rfl
      exact absurd hrc (by simp [Exit.rc])
    · refine ⟨hin fuel ws' _ ((hex _ _ _).2 ⟨e, hloop, rfl⟩), fun rc hrc => ?_⟩
      exact hok fuel ws' rc ((hex _ _ _).2 ⟨e, hloop, hrc⟩)
  · rintro ⟨⟨fuel, ws', e, hloop, hne⟩, hall⟩
    refine ⟨?_, fun fuel ws' o h' => ?_, fun fuel ws' rc h' => ?_⟩
    · cases e with
      | running => exact absurd rfl hne
      | pullDone => exact ⟨fuel, ws', .ok, (hex _ _ _).2 ⟨_, hloop, rfl⟩⟩
      | done u => exact ⟨fuel, ws', _, (hex _ _ _).2 ⟨_, hloop, rfl⟩⟩
    · obtain ⟨e, hloop, -⟩ := (hex _ _ _).1 h'
      exact (hall fuel ws' e hloop).1
    · obtain ⟨e, hloop, hrc⟩ := (hex _ _ _).1 h'
      exact (hall fuel ws' e hloop).2 rc hrc

/-- A buffer larger than a `ssize_t` can say is not written at all, which the
function notices. -/
theorem fine_of_large (h : 2 ^ 63 ≤ dataLen.toNat) : Fine a dataLen 0 [] := by
  have hstop : ¬ toSsize 0 < toSsize dataLen := by
    have hcases := toSsize_cases dataLen
    have hlt := dataLen.toNat_lt
    have hz : toSsize 0 = 0 := toSsize_of_lt (by decide)
    omega
  have hne : (0 : UInt64) ≠ dataLen := by
    intro heq
    have : (0 : UInt64).toNat = 0 := rfl
    rw [heq] at this
    omega
  refine ⟨⟨1, [], .done 0, loop_done hstop, by simp⟩, fun fuel ws' e hex => ?_⟩
  cases fuel with
  | zero =>
    obtain ⟨rfl, rfl⟩ := Prod.mk.inj (Option.some.inj hex)
    exact ⟨by simp, by simp [Exit.rc]⟩
  | succ fuel =>
    rw [loop_done hstop] at hex
    obtain ⟨rfl, rfl⟩ := Prod.mk.inj (Option.some.inj hex)
    refine ⟨by simp, fun rc hrc => ?_⟩
    obtain rfl := Option.some.inj hrc
    rw [writtenRc, if_pos hne]
    refine iff_of_false (by decide) fun heq => ?_
    have hz : 0 = dataLen.toNat := places_inj heq
    omega

/-- A buffer of several chunks is written as it should be if and only if it is
drained. -/
theorem fine_iff_drains (h : dataLen.toNat < 2 ^ 63) :
    Fine a dataLen 0 [] ↔ Drains a.write 0 dataLen.toNat := by
  constructor
  · intro hf
    exact @drains_of_fine dataLen a [] h 0 _ (by omega) rfl hf
  · intro hd
    obtain ⟨fuel, ws', hends⟩ := @drains_ends dataLen a h 0 _ hd 0 [] rfl
      (by omega)
    refine ⟨⟨fuel, ws', .done dataLen, hends, by simp⟩, fun fuel ws' e hex => ?_⟩
    obtain ⟨ws'', e', hrun, hin, hend⟩ := @drains_run dataLen a h 0 _ hd 0 [] rfl
      (by omega) rfl (by simp) fuel
    obtain ⟨rfl, rfl⟩ := Prod.mk.inj (Option.some.inj (hex.symm.trans hrun))
    refine ⟨hin, fun rc hrc => ?_⟩
    rcases hend with rfl | ⟨rfl, ht⟩
    · exact absurd hrc (by simp [Exit.rc])
    · rw [rc_done] at hrc
      exact iff_of_true (Option.some.inj hrc).symm ht

/-- `dyad_cons_store` does what it should if and only if the file's directory
is missing and there is something to store, or it is there and every `write`
takes something until the whole buffer is taken. -/
theorem store_exact_iff (dotPath : Bool) (a : Answers) (dataLen : UInt64) :
    Exact dotPath a dataLen ↔ Holds dotPath a dataLen := by
  unfold Holds
  by_cases hdir : dotPath = false ∧ a.mkdir ≠ .ok ()
  · rw [if_pos hdir, exact_of_exec fun fuel => exec_noDirectory hdir]
    have hzero : dataLen = 0 ↔ dataLen.toNat = 0 := UInt64.toNat_inj.symm
    have hplaces : taken [] = places dataLen.toNat ↔ dataLen.toNat = 0 :=
      ⟨fun heq => (places_inj (m := 0) heq).symm, fun heq => heq ▸ rfl⟩
    rw [hplaces, Ne, hzero]
    simp
  · rw [if_neg hdir]
    by_cases honce : dataLen.toNat < transferGranularity
    · rw [if_pos honce, exact_once_iff hdir honce]
    · rw [if_neg honce, exact_chunks_iff hdir honce]
      rcases Nat.lt_or_ge dataLen.toNat (2 ^ 63) with hlt | hge
      · rw [fine_iff_drains hlt, or_iff_right (Nat.not_le.2 hlt)]
      · exact iff_of_true (fine_of_large hge) (Or.inl hge)

/-- A chunk's worth of data, and a full disk: the second `write` is passed the
byte in front of the buffer. -/
theorem store_before_buffer :
    ¬ Exact false ⟨.ok (), fun _ _ => .error 28⟩ (2 ^ 30) := by
  intro h
  have hrun : (dyadConsStore false (2 ^ 30) 2).exec
      (Answers.step ⟨.ok (), fun _ _ => .error 28⟩) [] =
      some ([⟨0, 2 ^ 30, .error 28⟩, ⟨-1, 2 ^ 30, .error 28⟩], none) := by
    decide +kernel
  have hin := h.within 2 _ _ hrun ⟨-1, 2 ^ 30, .error 28⟩ (by simp)
  exact absurd hin.1 (by decide)

/-! ## Through a descriptor -/

section Descriptor

variable {fd pos : Nat} {data : Bytes Byte}

/-- What `dyad_cons_store` makes of the end of its loop. -/
def loopRc (data : Bytes Byte) : Option Int → Program Rc
  | none => return .ok
  | some writtenData =>
    return if writtenData = data.size then .ok else .badfio

theorem toNat_size (hsize : data.size < 2 ^ 63) :
    (UInt64.ofNat data.size).toNat = data.size :=
  UInt64.toNat_ofNat_of_lt' (by
    show data.size < 2 ^ 64
    omega)

/-- Before the buffer both are stuck, or out of turns. -/
theorem tracks_before (hsize : data.size < 2 ^ 63) :
    Tracks fd data
      ((consStoreLoop (UInt64.ofNat data.size) fuel (-1)).bind
        fun e => Prog.pure (e.rc (UInt64.ofNat data.size))) pos
      ((Dyad.consStoreLoop fd data fuel (-1) pos).bind (loopRc data)) := by
  have hval := toNat_size hsize
  cases fuel with
  | zero => exact congrArg (Prog.call Call.spin) (funext fun r => r.elim)
  | succ fuel =>
    have hlt : toSsize (-1) < toSsize (UInt64.ofNat data.size) := by
      rw [toSsize_neg_one, toSsize_of_lt (by omega)]
      omega
    rw [consStoreLoop, Dyad.consStoreLoop, if_pos hlt, if_pos (by omega),
      if_pos (by decide), toSsize_neg_one]
    show if (-1 : Int) < 0 then _ else _
    rw [if_pos (by decide)]
    exact congrArg (Prog.call Call.ub) (funext fun r => r.elim)

theorem tracks_loop (hsize : data.size < 2 ^ 63) {c : Nat}
    (hc : c ≤ data.size) :
    Tracks fd data
      ((consStoreLoop (UInt64.ofNat data.size) fuel (UInt64.ofNat c)).bind
        fun e => Prog.pure (e.rc (UInt64.ofNat data.size))) pos
      ((Dyad.consStoreLoop fd data fuel c pos).bind (loopRc data)) := by
  have hval := toNat_size hsize
  have hlen : (UInt64.ofNat data.size).toNat < 2 ^ 63 := by rwa [hval]
  induction fuel generalizing c pos with
  | zero => exact congrArg (Prog.call Call.spin) (funext fun r => r.elim)
  | succ fuel ih =>
    rw [consStoreLoop, Dyad.consStoreLoop]
    rcases Nat.lt_or_eq_of_le hc with hlt | rfl
    · have hlt' : c < (UInt64.ofNat data.size).toNat := by rwa [hval]
      rw [if_pos ((ofNat_lt hlen (by omega)).2 hlt'),
        if_pos (Int.ofNat_lt.2 hlt), if_neg (by omega),
        writtenSize_ofNat hlen (by omega), hval, toSsize_ofNat (by omega)]
      refine (if_neg (by omega)).mpr ⟨_, rfl, fun n hn => ?_, fun e => ?_⟩
      · rcases Nat.eq_zero_or_pos n with rfl | hpos
        · exact rfl
        · obtain ⟨m, rfl⟩ : ∃ m, n = m + 1 := ⟨n - 1, by omega⟩
          have hne : writtenLen (.ok (m + 1)) ≠ 0 := by
            rw [Ne, writtenLen_ok_eq_zero (by omega)]
            omega
          show Tracks fd data (Prog.bind (if writtenLen (.ok (m + 1)) = 0 then
            Prog.pure .pullDone else consStoreLoop _ fuel
              (UInt64.ofNat c + writtenLen (.ok (m + 1)))) _) _
            (Prog.bind (Dyad.consStoreLoop fd data fuel ((c : Int) + (m + 1 : Nat))
              (pos + (m + 1))) _)
          rw [if_neg hne, add_writtenLen_ok, ← Int.natCast_add]
          exact ih (by omega)
      · show Tracks fd data (Prog.bind (if writtenLen (.error e) = 0 then
          Prog.pure .pullDone else consStoreLoop _ fuel
            (UInt64.ofNat c + -1)) _) _
          (Prog.bind (Dyad.consStoreLoop fd data fuel ((c : Int) - 1) pos) _)
        have hne : writtenLen (.error e) ≠ 0 := by
          show (-1 : UInt64) ≠ 0
          decide
        rw [if_neg hne]
        cases c with
        | zero => exact tracks_before hsize
        | succ c =>
          rw [ofNat_succ_add_neg_one, Int.natCast_succ, Int.add_sub_cancel]
          exact ih (by omega)
    · rw [if_neg (by rw [ofNat_lt hlen hsize, hval]; omega),
        if_neg (Int.lt_irrefl _)]
      show Tracks fd data (Prog.pure _) pos (Prog.pure _)
      rw [rc_done, if_pos rfl]
      exact rfl

theorem tracks_write (hsize : data.size < 2 ^ 63) :
    Tracks fd data (consStoreWrite (UInt64.ofNat data.size) fuel) 0
      (Dyad.consStoreWrite fuel fd data) := by
  have hval := toNat_size hsize
  have hg : transferGranularity = 2 ^ 30 := rfl
  rw [consStoreWrite, Dyad.consStoreWrite, hval]
  by_cases h : data.size < transferGranularity
  · rw [if_pos h, if_pos h]
    have hwhole : data.slice (Int.toNat 0) data.size = data :=
      Bytes.slice_zero_size (Nat.le_refl _)
    refine (if_neg (Int.lt_irrefl 0)).mpr ?_
    rw [hwhole]
    refine ⟨_, rfl, fun n hn => ?_, fun e => ?_⟩
    · show Prog.pure _ = Prog.pure _
      rw [writtenRc_ok (by omega), hval]
    · show Prog.pure _ = Prog.pure _
      rw [writtenRc_error (by omega)]
  · rw [if_neg h, if_neg h]
    have hloop := @tracks_loop fuel fd 0 data hsize 0 (Nat.zero_le _)
    have hafter : ∀ p : Prog Call.Res Exit,
        (p.bind fun e => Prog.pure (e.rc (UInt64.ofNat data.size))) =
        (p >>= fun e => match e with
          | .running => pure none
          | .pullDone => pure (some .ok)
          | .done w => pure (some (writtenRc w (UInt64.ofNat data.size)))) := by
      intro p
      refine congrArg p.bind (funext fun e => ?_)
      cases e <;> rfl
    rw [hafter] at hloop
    have hbefore : ∀ p : Program (Option Int), p.bind (loopRc data) =
        (p >>= fun o => match o with
          | none => pure .ok
          | some writtenData =>
            pure (if writtenData = data.size then .ok else .badfio)) := by
      intro p
      refine congrArg p.bind (funext fun o => ?_)
      cases o <;> rfl
    rw [hbefore] at hloop
    exact hloop

/-- The store of the consumer is this one: it writes through its descriptor
what `dyad_cons_store` says of the buffer. -/
theorem tracks_consStore (ctx : Ctx) (hsize : data.size < 2 ^ 63) :
    Tracks fd data
      (dyadConsStore ctx.dotPath (UInt64.ofNat data.size) fuel) 0
      (Dyad.dyadConsStore ctx fuel fd data) := by
  rw [dyadConsStore, Dyad.dyadConsStore]
  cases ctx.dotPath with
  | true => exact tracks_write hsize
  | false =>
    refine ⟨_, rfl, fun r => ?_⟩
    cases r with
    | error e => exact rfl
    | ok u => exact tracks_write hsize

end Descriptor

end Dyad.Store
