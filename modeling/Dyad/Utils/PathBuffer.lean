import Dyad.Utils.CanonicalPath

/-!
# The same functions, on buffers (`utils/utils.c`)

`concat_str` and `extract_user_path` write into a buffer of their caller's.
Here the buffer is the list of its bytes, and each of them returns it as it
leaves it, with whether it succeeded. `extract_user_path` copies the user path
and no terminator behind it, so what string the buffer then holds depends on
what was there before.

The strings passed lie outside the buffer, so the tests for an overlap do not
fail.
-/

namespace Dyad

/-- The string in a buffer, up to its terminator. -/
def bufString (buf : List Char) : CString := buf.takeWhile (· != '\x00')

/-- `memcpy` to the start of a buffer. -/
def memcpy (buf src : List Char) : List Char := src ++ buf.drop src.length

/-- A buffer of zeros, as `calloc` gives it. -/
def zeros (n : Nat) : List Char := List.replicate n '\x00'

/-- `concat_str`. The result is put together in a buffer of its own, with room
for a connector more where one is dropped, and copied back whole. -/
def concatStrInto (buf : List Char) (toAppend connector : CString)
    (capacity : Nat) : List Char × Bool :=
  let str := bufString buf
  let allLen := str.length + connector.length + toAppend.length
  if allLen + 1 > capacity then (buf, false)
  else
    let conEnd := str.length ≥ connector.length ∧ connector <:+ str
    let strLen := if conEnd then str.length - connector.length else str.length
    let tmp := memcpy (zeros (allLen + 1))
      (str.take strLen ++ connector ++ toAppend)
    (memcpy buf (tmp.take allLen ++ ['\x00']), true)

/-- `extract_user_path`. -/
def extractUserPathInto (pfx full delim : CString) (upath : List Char)
    (capacity : Nat) : List Char × Bool :=
  if ¬ pfx <+: full then (upath, false)
  else if full.length > pathMax ∨ delim.length > pathMax ∨
      pfx.length > pathMax then (upath, false)
  else
    let prefixLen :=
      if pfx.length ≥ delim.length ∧ delim <:+ pfx
      then pfx.length - delim.length else pfx.length
    if full.length ≤ prefixLen + delim.length then (upath, false)
    else if ¬ delim <+: full.drop prefixLen then (upath, false)
    else
      let uLen := full.length - prefixLen - delim.length
      if uLen + 1 > capacity then (upath, false)
      else (memcpy upath (full.drop (full.length - uLen)), true)

/-- A string as it can stand in a buffer. -/
def NulFree (s : CString) : Prop := '\x00' ∉ s

/-- The prefix, its delimiter dropped where it ends with one, the delimiter and
the user path. -/
def joinWith (delim pfx upath : CString) : CString :=
  (if delim <:+ pfx then pfx.take (pfx.length - delim.length) else pfx) ++
    delim ++ upath

/-! ## What they compute -/

theorem concatStr_eq (str toAppend connector : CString) (capacity : Nat) :
    concatStr str toAppend connector capacity =
      if str.length + connector.length + toAppend.length + 1 > capacity then none
      else some (joinWith connector str toAppend) := by
  unfold concatStr joinWith
  dsimp only
  split
  · rfl
  · congr 3
    by_cases hend : connector <:+ str
    · rw [if_pos ⟨hend.length_le, hend⟩, if_pos hend]
    · rw [if_neg fun h => hend h.2, if_neg hend, List.take_length]

section

variable {pfx full delim upath : CString} {capacity : Nat}

/-- How long a join is. -/
theorem joinWith_length : (joinWith delim pfx upath).length =
    (if delim <:+ pfx then pfx.length else pfx.length + delim.length) +
      upath.length := by
  unfold joinWith
  rw [List.length_append, List.length_append]
  split
  · next hend =>
    have := hend.length_le
    rw [List.length_take]
    omega
  · omega

/-- The prefix is in front of a join. -/
theorem prefix_joinWith : pfx <+: joinWith delim pfx upath := by
  unfold joinWith
  split
  · next hend =>
    obtain ⟨front, rfl⟩ := hend
    rw [List.length_append, Nat.add_sub_cancel, List.take_left]
    exact List.prefix_append _ _
  · rw [List.append_assoc]
    exact List.prefix_append _ _

/-- A user path is extracted exactly from its join with the prefix. -/
theorem extractUserPath_eq_some (hdelim : delim ≠ []) :
    extractUserPath pfx full delim capacity = some upath ↔
      full = joinWith delim pfx upath ∧ upath ≠ [] ∧
        upath.length + 1 ≤ capacity ∧ full.length ≤ pathMax := by
  have hpos : 0 < delim.length := List.length_pos_iff.2 hdelim
  -- the prefix without the delimiter it ends with
  obtain ⟨stem, hstem⟩ : ∃ stem, stem =
      if delim <:+ pfx then pfx.take (pfx.length - delim.length) else pfx :=
    ⟨_, rfl⟩
  have hlen : (if pfx.length ≥ delim.length ∧ delim <:+ pfx
      then pfx.length - delim.length else pfx.length) = stem.length := by
    rw [hstem]
    by_cases hend : delim <:+ pfx
    · rw [if_pos ⟨hend.length_le, hend⟩, if_pos hend, List.length_take]
      omega
    · rw [if_neg fun h => hend h.2, if_neg hend]
  have hpfx : stem <+: pfx := by
    rw [hstem]
    split
    · exact List.take_prefix _ _
    · exact List.prefix_refl _
  have hjoin : joinWith delim pfx upath = stem ++ delim ++ upath := by
    rw [hstem]
    rfl
  unfold extractUserPath
  dsimp only
  rw [hlen]
  constructor
  · intro h
    split at h
    · exact absurd h nofun
    · next hfront =>
      rw [not_not] at hfront
      split at h
      · exact absurd h nofun
      · next hmax =>
        split at h
        · exact absurd h nofun
        · next hlonger =>
          split at h
          · exact absurd h nofun
          · next hat =>
            rw [not_not] at hat
            split at h
            · exact absurd h nofun
            · next hcap =>
              obtain ⟨rest, hrest⟩ := hat
              obtain ⟨tail, rfl⟩ := hpfx.trans hfront
              rw [List.drop_left] at hrest
              subst hrest
              obtain rfl := Option.some.inj h
              rw [List.length_append, List.length_append] at *
              have hu : (stem ++ (delim ++ rest)).drop
                  (stem.length + (delim.length + rest.length) -
                    (stem.length + (delim.length + rest.length) -
                      stem.length - delim.length)) = rest := by
                rw [← List.append_assoc]
                exact List.drop_left' (by rw [List.length_append]; omega)
              rw [hu] at hjoin ⊢
              refine ⟨by rw [hjoin, List.append_assoc], ?_, by omega, by omega⟩
              rintro rfl
              rw [List.length_nil] at hlonger
              omega
  · rintro ⟨hfull, hne, hcap, hmax⟩
    have hupos : 0 < upath.length := List.length_pos_iff.2 hne
    have hfront : pfx <+: full := hfull ▸ prefix_joinWith
    have hfl : full.length = stem.length + delim.length + upath.length := by
      rw [hfull, hjoin, List.length_append, List.length_append]
    have hple := hfront.length_le
    rw [if_neg (not_not_intro hfront), if_neg (by omega), if_neg (by omega),
      hfull, hjoin, List.append_assoc, List.drop_left,
      if_neg (not_not_intro (List.prefix_append _ _)), if_neg]
    · congr 1
      rw [← List.append_assoc]
      apply List.drop_left'
      rw [List.length_append, List.length_append, List.length_append]
      omega
    · rw [List.length_append, List.length_append]
      omega

end

end Dyad
