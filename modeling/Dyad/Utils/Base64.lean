import Mathlib.Data.List.DropRight
import Mathlib.Tactic.IntervalCases
import Dyad.Common

/-!
# Base64 (`utils/base64/base64.c`)

The codec the UCX DTL packs an address with, at the map of RFC 4648. Three
bytes become four characters, a shorter last group is padded with `=`, and the
decoder takes groups of four off the front and leaves the last one, padded or
not, to a case of its own.

`decode_encode` is what the users of the codec rely on: whatever was encoded
comes back, byte for byte.
-/

namespace Dyad.Base64

/-- `encode_map` of `base64_maps_rfc4648`. -/
def encodeMap : List Byte :=
  "ABCDEFGHIJKLMNOPQRSTUVWXYZabcdefghijklmnopqrstuvwxyz0123456789+/".toList.map
    fun c => BitVec.ofNat 8 c.toNat

/-- The padding character, `=`. -/
def pad : Byte := 0x3d

/-- `sixbit_to_b64`. -/
def sixbitToB64 (sixbit : Byte) : Byte := encodeMap.getD sixbit.toNat 0

/-- `sixbit_from_b64`; `decode_map` is the inverse of `encode_map`, and a
character outside the alphabet maps to nothing. -/
def sixbitFromB64 (b64letter : Byte) : Option Byte :=
  (encodeMap.findIdx? (· == b64letter)).map (BitVec.ofNat 8)

/-- `base64_encode_triplet_using_maps`. -/
def encodeTriplet (a b c : Byte) : List Byte :=
  [sixbitToB64 ((a &&& 0xfc) >>> 2),
    sixbitToB64 (((a &&& 0x3) <<< 4) ||| ((b &&& 0xf0) >>> 4)),
    sixbitToB64 (((c &&& 0xc0) >>> 6) ||| ((b &&& 0xf) <<< 2)),
    sixbitToB64 (c &&& 0x3f)]

/-- `base64_encode_using_maps`, with `base64_encode_tail_using_maps` for the
last one or two bytes. -/
def encode : List Byte → List Byte
  | a :: b :: c :: rest => encodeTriplet a b c ++ encode rest
  | [a, b] => (encodeTriplet a b 0).take 3 ++ [pad]
  | [a] => (encodeTriplet a 0 0).take 2 ++ [pad, pad]
  | [] => []

/-- `base64_decode_quartet_using_maps`. -/
def decodeQuartet (a b c d : Byte) : Option (List Byte) := do
  let a ← sixbitFromB64 a
  let b ← sixbitFromB64 b
  let c ← sixbitFromB64 c
  let d ← sixbitFromB64 d
  return [(a <<< 2) ||| (b >>> 4), ((b &&& 0xf) <<< 4) ||| (c >>> 2),
    ((c &&& 0x3) <<< 6) ||| d]

/-- `base64_decode_tail_using_maps`. What is left of the padding is at most
four characters, and those that are missing read as `A`. -/
def decodeTail (src : List Byte) : Option (List Byte) :=
  match src.rdropWhile (· == pad) with
  | [] => some []
  | [_] => none
  | [a, b] => (decodeQuartet a b 0x41 0x41).map (·.take 1)
  | [a, b, c] => (decodeQuartet a b c 0x41).map (·.take 2)
  | a :: b :: c :: d :: _ => decodeQuartet a b c d

/-- `base64_decode_using_maps`. -/
def decode : List Byte → Option (List Byte)
  | a :: b :: c :: d :: e :: rest => do
    let quartet ← decodeQuartet a b c d
    let more ← decode (e :: rest)
    return quartet ++ more
  | src => decodeTail src

/-- `base64_decoded_length`: what a buffer for the decoded bytes has to
hold. -/
def decodedLength (srclen : Nat) : Nat := (srclen + 3) / 4 * 3

/-! ## One group -/

theorem sixbitFromB64_to {v : Byte} (h : v.toNat < 64) :
    sixbitFromB64 (sixbitToB64 v) = some v := by
  have hall : ∀ i : Fin 64,
      sixbitFromB64 (sixbitToB64 (BitVec.ofNat 8 i)) =
        some (BitVec.ofNat 8 i) := by decide +kernel
  have := hall ⟨v.toNat, h⟩
  rwa [BitVec.ofNat_toNat, BitVec.setWidth_eq] at this

theorem sixbitToB64_ne_pad {v : Byte} (h : v.toNat < 64) :
    sixbitToB64 v ≠ pad := by
  have hall : ∀ i : Fin 64, sixbitToB64 (BitVec.ofNat 8 i) ≠ pad := by
    decide +kernel
  have := hall ⟨v.toNat, h⟩
  rwa [BitVec.ofNat_toNat, BitVec.setWidth_eq] at this

/-- The four values a triplet is spread over have six bits each. -/
theorem sixbits_lt (a b c : Byte) :
    ((a &&& 0xfc) >>> 2).toNat < 64 ∧
      (((a &&& 0x3) <<< 4) ||| ((b &&& 0xf0) >>> 4)).toNat < 64 ∧
      (((c &&& 0xc0) >>> 6) ||| ((b &&& 0xf) <<< 2)).toNat < 64 ∧
      (c &&& 0x3f).toNat < 64 := by
  have hor : ∀ x y : Byte, x.toNat < 64 → y.toNat < 64 →
      (x ||| y).toNat < 64 := by
    intro x y hx hy
    rw [BitVec.toNat_or]
    exact Nat.or_lt_two_pow (n := 6) hx hy
  have hand : ∀ (x m : Byte), (x &&& m).toNat ≤ m.toNat := by
    intro x m
    rw [BitVec.toNat_and]
    exact Nat.and_le_right
  have hright : ∀ (x m : Byte) (n : Nat), m.toNat / 2 ^ n < 64 →
      ((x &&& m) >>> n).toNat < 64 := by
    intro x m n hn
    rw [BitVec.toNat_ushiftRight, Nat.shiftRight_eq_div_pow]
    exact Nat.lt_of_le_of_lt (Nat.div_le_div_right (hand x m)) hn
  have hleft : ∀ (x m : Byte) (n : Nat), m.toNat * 2 ^ n < 64 →
      ((x &&& m) <<< n).toNat < 64 := by
    intro x m n hn
    rw [BitVec.toNat_shiftLeft, Nat.shiftLeft_eq]
    have := Nat.mul_le_mul_right (2 ^ n) (hand x m)
    exact Nat.lt_of_le_of_lt (Nat.mod_le _ _) (Nat.lt_of_le_of_lt this hn)
  refine ⟨hright a 0xfc 2 (by decide), hor _ _ (hleft a 0x3 4 (by decide))
    (hright b 0xf0 4 (by decide)), hor _ _ (hright c 0xc0 6 (by decide))
    (hleft b 0xf 2 (by decide)), ?_⟩
  exact Nat.lt_of_le_of_lt (hand c 0x3f) (by decide)

theorem decodeQuartet_to {v w x y : Byte} (hv : v.toNat < 64)
    (hw : w.toNat < 64) (hx : x.toNat < 64) (hy : y.toNat < 64) :
    decodeQuartet (sixbitToB64 v) (sixbitToB64 w) (sixbitToB64 x)
        (sixbitToB64 y) =
      some [(v <<< 2) ||| (w >>> 4), ((w &&& 0xf) <<< 4) ||| (x >>> 2),
        ((x &&& 0x3) <<< 6) ||| y] := by
  simp only [decodeQuartet, sixbitFromB64_to hv, sixbitFromB64_to hw,
    sixbitFromB64_to hx, sixbitFromB64_to hy]
  rfl

/-- The bits of a triplet come back to where they were. -/
theorem regroup (a b c : Byte) :
    (((a &&& 0xfc) >>> 2) <<< 2) |||
        ((((a &&& 0x3) <<< 4) ||| ((b &&& 0xf0) >>> 4)) >>> 4) = a ∧
      (((((a &&& 0x3) <<< 4) ||| ((b &&& 0xf0) >>> 4)) &&& 0xf) <<< 4) |||
        ((((c &&& 0xc0) >>> 6) ||| ((b &&& 0xf) <<< 2)) >>> 2) = b ∧
      (((((c &&& 0xc0) >>> 6) ||| ((b &&& 0xf) <<< 2)) &&& 0x3) <<< 6) |||
        (c &&& 0x3f) = c := by
  refine ⟨?_, ?_, ?_⟩
  · ext i hi
    interval_cases i <;> simp
  · ext i hi
    interval_cases i <;> simp
  · ext i hi
    interval_cases i <;> simp

theorem decodeQuartet_encodeTriplet (a b c : Byte) :
    ∃ w x y z, encodeTriplet a b c = [w, x, y, z] ∧
      decodeQuartet w x y z = some [a, b, c] ∧
      w ≠ pad ∧ x ≠ pad ∧ y ≠ pad ∧ z ≠ pad := by
  obtain ⟨h₁, h₂, h₃, h₄⟩ := sixbits_lt a b c
  obtain ⟨ha, hb, hc⟩ := regroup a b c
  refine ⟨_, _, _, _, rfl, ?_, sixbitToB64_ne_pad h₁, sixbitToB64_ne_pad h₂,
    sixbitToB64_ne_pad h₃, sixbitToB64_ne_pad h₄⟩
  rw [decodeQuartet_to h₁ h₂ h₃ h₄, ha, hb, hc]

/-! ## The whole string -/

/-- The last group: what is in front of the padding is kept. -/
theorem rdropWhile_pad {l p : List Byte} (hp : ∀ x ∈ p, x = pad)
    {x : Byte} (hx : x ≠ pad) :
    ((l ++ [x]) ++ p).rdropWhile (· == pad) = l ++ [x] := by
  induction p using List.reverseRecOn with
  | nil =>
    rw [List.append_nil, List.rdropWhile_concat_neg]
    simpa using hx
  | append_singleton p y ih =>
    rw [← List.append_assoc, List.rdropWhile_concat_pos]
    · exact ih fun z hz => hp z (List.mem_append_left _ hz)
    · simpa using hp y (by simp)

theorem encode_ne_nil {a : Byte} {rest : List Byte} :
    encode (a :: rest) ≠ [] := by
  match rest with
  | [] => simp [encode]
  | [b] => simp [encode]
  | b :: c :: rest => simp [encode, encodeTriplet]

theorem decode_of_length {src : List Byte} (h : src.length ≤ 4) :
    decode src = decodeTail src := by
  match src, h with
  | [], _ => rfl
  | [_], _ => rfl
  | [_, _], _ => rfl
  | [_, _, _], _ => rfl
  | [_, _, _, _], _ => rfl

/-- What was encoded comes back. -/
theorem decode_encode (src : List Byte) : decode (encode src) = some src := by
  induction src using encode.induct with
  | case1 a b c rest ih =>
    obtain ⟨w, x, y, z, henc, hdec, -, -, -, hz⟩ :=
      decodeQuartet_encodeTriplet a b c
    rw [encode, henc]
    cases hrest : encode rest with
    | nil =>
      have : rest = [] := by
        cases rest with
        | nil => rfl
        | cons _ _ => exact absurd hrest encode_ne_nil
      subst this
      have hdrop := rdropWhile_pad (l := [w, x, y]) (p := []) (by simp) hz
      rw [decode_of_length (by simp), decodeTail]
      simp only [List.append_nil, List.cons_append, List.nil_append] at hdrop ⊢
      rw [hdrop]
      exact hdec
    | cons e es =>
      rw [hrest] at ih
      simp only [List.cons_append, List.nil_append, decode, hdec, ih]
      rfl
  | case2 a b =>
    obtain ⟨w, x, y, z, henc, hdec, -, -, hy, -⟩ :=
      decodeQuartet_encodeTriplet a b 0
    have hdrop := rdropWhile_pad (l := [w, x]) (p := [pad]) (by simp) hy
    -- the missing byte is read as zero, which is spelt as it was padded
    have hz : z = 0x41 := by
      simp only [encodeTriplet, List.cons.injEq] at henc
      rw [← henc.2.2.2.1]
      decide +kernel
    rw [encode, henc, decode_of_length (by simp), decodeTail]
    simp only [List.take_succ_cons, List.take_zero, List.cons_append,
      List.nil_append] at hdrop ⊢
    rw [hdrop]
    simp only [← hz, hdec]
    rfl
  | case3 a =>
    obtain ⟨w, x, y, z, henc, hdec, -, hx, -, -⟩ :=
      decodeQuartet_encodeTriplet a 0 0
    have hdrop := rdropWhile_pad (l := [w]) (p := [pad, pad]) (by simp) hx
    have hyz : y = 0x41 ∧ z = 0x41 := by
      simp only [encodeTriplet, List.cons.injEq] at henc
      rw [← henc.2.2.1, ← henc.2.2.2.1]
      decide +kernel
    rw [encode, henc, decode_of_length (by simp), decodeTail]
    simp only [List.take_succ_cons, List.take_zero, List.cons_append,
      List.nil_append] at hdrop ⊢
    rw [hdrop]
    simp only [hyz.1, hyz.2] at hdec
    simp only [hdec]
    rfl
  | case4 => rfl

end Dyad.Base64
