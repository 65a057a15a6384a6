import Dyad.Utils.PathBuffer
import Mathlib.Data.List.TakeWhile

/-!
# Joining and splitting are inverse

`concat_str` on one side of the network and `extract_user_path` on the other
each trim a delimiter from the end of the prefix. They trim it alike, so what
one of them puts together the other takes apart, and the other way round.
-/

namespace Dyad

variable {pfx full delim upath : CString} {capacity : Nat} {buf : List Char}

/-! ## Strings in buffers -/

theorem nulFree_bufString : NulFree (bufString buf) := by
  intro h
  have := List.mem_takeWhile_imp h
  exact absurd this (by decide)

/-- A string is read back up to the terminator behind it. -/
theorem bufString_append {s rest : List Char} (hs : NulFree s) :
    bufString (s ++ '\x00' :: rest) = s := by
  unfold bufString
  rw [List.takeWhile_append_of_pos]
  · rw [List.takeWhile_cons_of_neg (by decide), List.append_nil]
  · intro c hc
    rw [bne_iff_ne]
    rintro rfl
    exact hs hc

theorem memcpy_zeros {s : List Char} {n : Nat} :
    memcpy (zeros n) s = s ++ zeros (n - s.length) := by
  rw [memcpy, zeros, List.drop_replicate]
  rfl

/-- In a buffer of zeros with a byte to spare, the copy is terminated. -/
theorem bufString_memcpy_zeros {s : CString} {n : Nat} (hs : NulFree s)
    (hn : s.length + 1 ≤ n) : bufString (memcpy (zeros n) s) = s := by
  obtain ⟨k, rfl⟩ : ∃ k, n = s.length + (k + 1) := ⟨n - s.length - 1, by omega⟩
  rw [memcpy_zeros, Nat.add_sub_cancel_left]
  exact bufString_append hs

theorem NulFree.of_start {s t : CString} (ht : NulFree t) (h : s <+: t) :
    NulFree s :=
  fun hs => ht (h.subset hs)

theorem nulFree_append {s t : CString} :
    NulFree (s ++ t) ↔ NulFree s ∧ NulFree t := by
  unfold NulFree
  rw [List.mem_append, not_or]

/-- A join has a NUL in it only where the parts have. -/
theorem nulFree_joinWith (hp : NulFree pfx) (hd : NulFree delim)
    (hu : NulFree upath) : NulFree (joinWith delim pfx upath) := by
  unfold joinWith
  rw [nulFree_append, nulFree_append]
  refine ⟨⟨?_, hd⟩, hu⟩
  split
  · exact hp.of_start (List.take_prefix _ _)
  · exact hp

/-- The user path of a join is as free of it. -/
theorem NulFree.of_joinWith (h : NulFree (joinWith delim pfx upath)) :
    NulFree upath := by
  unfold joinWith at h
  rw [nulFree_append] at h
  exact h.2

/-! ## The functions on buffers -/

/-- `concat_str` leaves the join in the buffer, terminated, or the buffer as it
was. -/
theorem concatStrInto_eq (hd : NulFree delim) (hu : NulFree upath) :
    (concatStrInto buf upath delim capacity).2 =
      decide ((bufString buf).length + delim.length + upath.length + 1 ≤
        capacity) ∧
    ((concatStrInto buf upath delim capacity).2 = false →
      (concatStrInto buf upath delim capacity).1 = buf) ∧
    ((concatStrInto buf upath delim capacity).2 = true →
      bufString (concatStrInto buf upath delim capacity).1 =
        joinWith delim (bufString buf) upath) := by
  have hcat := concatStr_eq (bufString buf) upath delim capacity
  unfold concatStr at hcat
  unfold concatStrInto
  dsimp only at hcat ⊢
  by_cases hroom : (bufString buf).length + delim.length + upath.length + 1 >
      capacity
  · rw [if_pos hroom]
    exact ⟨(decide_eq_false (by omega)).symm, fun _ => rfl, nofun⟩
  · rw [if_neg hroom, if_neg hroom, Option.some.injEq] at hcat
    rw [if_neg hroom, hcat]
    refine ⟨(decide_eq_true (by omega)).symm, nofun, fun _ => ?_⟩
    have hlen := @joinWith_length (bufString buf) delim upath
    obtain ⟨k, hk⟩ : ∃ k, (bufString buf).length + delim.length +
        upath.length = (joinWith delim (bufString buf) upath).length + k := by
      apply Nat.exists_eq_add_of_le
      rw [hlen]
      split <;> omega
    have htmp : (memcpy (zeros ((joinWith delim (bufString buf) upath).length +
        k + 1)) (joinWith delim (bufString buf) upath)).take
          ((joinWith delim (bufString buf) upath).length + k) ++ ['\x00'] =
        joinWith delim (bufString buf) upath ++ zeros (k + 1) := by
      rw [memcpy_zeros, Nat.add_assoc, Nat.add_sub_cancel_left,
        List.take_append, List.take_of_length_le (Nat.le_add_right _ _),
        Nat.add_sub_cancel_left, List.append_assoc]
      unfold zeros
      rw [List.take_replicate, Nat.min_eq_left (Nat.le_succ k),
        List.replicate_succ']
    rw [hk, htmp, memcpy, List.append_assoc]
    exact bufString_append (nulFree_joinWith nulFree_bufString hd hu)

/-- `extract_user_path` on a buffer copies what it finds, or nothing. -/
theorem extractUserPathInto_eq :
    extractUserPathInto pfx full delim buf capacity =
      match extractUserPath pfx full delim capacity with
      | some upath => (memcpy buf upath, true)
      | none => (buf, false) := by
  unfold extractUserPathInto extractUserPath
  dsimp only
  by_cases h₁ : ¬ pfx <+: full
  · rw [if_pos h₁, if_pos h₁]
  · rw [if_neg h₁, if_neg h₁]
    by_cases h₂ : full.length > pathMax ∨ delim.length > pathMax ∨
        pfx.length > pathMax
    · rw [if_pos h₂, if_pos h₂]
    · rw [if_neg h₂, if_neg h₂]
      generalize (if pfx.length ≥ delim.length ∧ delim <:+ pfx
        then pfx.length - delim.length else pfx.length) = prefixLen
      by_cases h₃ : full.length ≤ prefixLen + delim.length
      · rw [if_pos h₃, if_pos h₃]
      · rw [if_neg h₃, if_neg h₃]
        by_cases h₄ : ¬ delim <+: full.drop prefixLen
        · rw [if_pos h₄, if_pos h₄]
        · rw [if_neg h₄, if_neg h₄]
          split <;> rfl

/-! ## Both ways -/

/-- The two functions are inverse to each other for a prefix and a delimiter:
a join that succeeds is taken apart into what was joined, a path that is taken
apart is the join of its parts, and a failure leaves the buffer alone. -/
structure Inverse (delim pfx : CString) : Prop where
  split : ∀ (upath : CString) (buf buf' : List Char) (capacity n : Nat),
    upath ≠ [] → NulFree upath → bufString buf = pfx →
    concatStrInto buf upath delim capacity = (buf', true) →
    (bufString buf').length ≤ pathMax → upath.length + 1 ≤ n →
    ∃ out, extractUserPathInto pfx (bufString buf') delim (zeros n) n =
      (out, true) ∧ bufString out = upath
  join : ∀ (full : CString) (out buf : List Char) (n capacity : Nat),
    NulFree full → bufString buf = pfx →
    extractUserPathInto pfx full delim (zeros n) n = (out, true) →
    pfx.length + delim.length + (bufString out).length + 1 ≤ capacity →
    ∃ buf', concatStrInto buf (bufString out) delim capacity = (buf', true) ∧
      bufString buf' = full
  concatFails : ∀ (toAppend : CString) (buf buf' : List Char) (capacity : Nat),
    concatStrInto buf toAppend delim capacity = (buf', false) → buf' = buf
  extractFails : ∀ (full : CString) (upath out : List Char) (capacity : Nat),
    extractUserPathInto pfx full delim upath capacity = (out, false) →
    out = upath

/-- For every prefix and every delimiter that is not empty. -/
theorem join_split_inverse (delim pfx : CString) (hdelim : delim ≠ [])
    (hd : NulFree delim) : Inverse delim pfx := by
  constructor
  · intro upath buf buf' capacity n hne hu hbuf hcat hmax hn
    obtain ⟨-, -, hjoined⟩ := @concatStrInto_eq delim upath capacity buf hd hu
    rw [hcat, hbuf] at hjoined
    have hfull := hjoined rfl
    have hsome := (extractUserPath_eq_some hdelim).2 ⟨hfull, hne, hn, hmax⟩
    refine ⟨memcpy (zeros n) upath, ?_, bufString_memcpy_zeros hu hn⟩
    rw [extractUserPathInto_eq, hsome]
  · intro full out buf n capacity hfull hbuf hext hroom
    rw [extractUserPathInto_eq] at hext
    split at hext
    · next upath hsome =>
      obtain ⟨rfl, -⟩ := Prod.mk.inj hext
      obtain ⟨rfl, -, hcap, -⟩ := (extractUserPath_eq_some hdelim).1 hsome
      have hu := hfull.of_joinWith
      rw [bufString_memcpy_zeros hu hcap] at hroom ⊢
      obtain ⟨hok, -, hjoined⟩ := @concatStrInto_eq delim upath capacity buf hd hu
      rw [hbuf, decide_eq_true hroom] at hok
      refine ⟨_, Prod.ext rfl hok, ?_⟩
      rw [hjoined hok, hbuf]
    · exact absurd (Prod.mk.inj hext).2 nofun
  · intro toAppend buf buf' capacity hcat
    unfold concatStrInto at hcat
    dsimp only at hcat
    split at hcat
    · exact (Prod.mk.inj hcat).1.symm
    · exact absurd (Prod.mk.inj hcat).2 nofun
  · intro full upath out capacity hext
    rw [extractUserPathInto_eq] at hext
    split at hext
    · exact absurd (Prod.mk.inj hext).2 nofun
    · exact (Prod.mk.inj hext).1.symm

/-- For directories and `/`. -/
theorem join_split_slash : Inverse pathDelim ['/', 'd', '/'] :=
  join_split_inverse pathDelim ['/', 'd', '/'] nofun (by unfold NulFree; decide)

end Dyad
