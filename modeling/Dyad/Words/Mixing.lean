import Mathlib.Data.BitVec
import Mathlib.Logic.Function.Basic

/-!
# The steps of a mixing function

Hash functions are put together from a few steps on words: xor and addition of
a word, multiplication by an odd constant, rotation, and the xor of a word with
a shift of itself. None of them loses information. What they are composed of is
then injective by composition, and two inputs that differ can only be mixed to
the same word where more than one word of them differs.
-/

namespace Dyad.Words

variable {w : Nat}

theorem add_injective (m : BitVec w) :
    Function.Injective fun x : BitVec w => x + m :=
  fun _ _ h => (BitVec.add_left_inj m).1 h

/-- A multiplier with an inverse is one that loses nothing. -/
theorem mul_injective {c c' : BitVec w} (h : c * c' = 1#w) :
    Function.Injective fun x : BitVec w => x * c := by
  intro x y hxy
  have hcancel : x * c * c' = y * c * c' := congrArg (· * c') hxy
  rwa [BitVec.mul_assoc, BitVec.mul_assoc, h, BitVec.mul_one, BitVec.mul_one]
    at hcancel

/-- Rotation moves every bit to a place of its own. -/
theorem rotate_injective {r : Nat} (hr : r ≤ w) :
    Function.Injective fun x : BitVec w => (x <<< r) ||| (x >>> (w - r)) := by
  intro x y hxy
  ext i hi
  -- the bit goes up by `r`, or around the end
  by_cases hup : i + r < w
  · have hbit := congrArg (·.getLsbD (i + r)) hxy
    have hout : ¬ w - r + (i + r) < w := by omega
    simp only [BitVec.getLsbD_or, BitVec.getLsbD_shiftLeft,
      BitVec.getLsbD_ushiftRight, BitVec.getLsbD_of_ge _ _ (Nat.le_of_not_lt hout)]
      at hbit
    have hpast : ¬ i + r < r := by omega
    simpa [hup, hpast, BitVec.getLsbD_eq_getElem, hi] using hbit
  · have hbit := congrArg (·.getLsbD (i + r - w)) hxy
    have hlow : i + r - w < r := by omega
    have hback : w - r + (i + r - w) = i := by omega
    simp only [BitVec.getLsbD_or, BitVec.getLsbD_shiftLeft,
      BitVec.getLsbD_ushiftRight, hback] at hbit
    simpa [hlow, BitVec.getLsbD_eq_getElem, hi] using hbit

/-- The highest bits of a word stay as they are, and each of the others is
found once those above it are. -/
theorem xorshift_injective {s : Nat} (hs : 0 < s) :
    Function.Injective fun x : BitVec w => x ^^^ (x >>> s) := by
  intro x y hxy
  have hbits : ∀ n i, w - i ≤ n → x.getLsbD i = y.getLsbD i := by
    intro n
    induction n with
    | zero =>
      intro i hi
      rw [BitVec.getLsbD_of_ge _ _ (by omega), BitVec.getLsbD_of_ge _ _ (by omega)]
    | succ n ih =>
      intro i hi
      have hbit := congrArg (·.getLsbD i) hxy
      simp only [BitVec.getLsbD_xor, BitVec.getLsbD_ushiftRight] at hbit
      rw [ih (s + i) (by omega)] at hbit
      exact Bool.xor_left_inj.1 hbit
  ext i hi
  have := hbits w i (by omega)
  rwa [BitVec.getLsbD_eq_getElem hi, BitVec.getLsbD_eq_getElem hi] at this

/-! ## Words of bytes -/

/-- The word of some bytes, the lowest first. -/
def ofBytes (w : Nat) : List (BitVec 8) → BitVec w
  | [] => 0
  | b :: bs => (ofBytes w bs <<< 8) ||| b.setWidth w

/-- The bits of a word of bytes are those of its bytes. -/
theorem getLsbD_ofBytes (bs : List (BitVec 8)) (i j : Nat) (hj : j < 8)
    (hi : 8 * i + j < w) :
    (ofBytes w bs).getLsbD (8 * i + j) = (bs.getD i 0).getLsbD j := by
  induction bs generalizing i with
  | nil => simp [ofBytes]
  | cons b bs ih =>
    cases i with
    | zero =>
      simp only [ofBytes, BitVec.getLsbD_or, BitVec.getLsbD_shiftLeft,
        BitVec.getLsbD_setWidth, List.getD_cons_zero]
      simp [hj, show j < w by omega]
    | succ i =>
      have hhigh : ¬ 8 * (i + 1) + j < 8 := by omega
      have hsub : 8 * (i + 1) + j - 8 = 8 * i + j := by omega
      simp only [ofBytes, BitVec.getLsbD_or, BitVec.getLsbD_shiftLeft,
        BitVec.getLsbD_setWidth, List.getD_cons_succ, hsub,
        ih i (by omega), BitVec.getLsbD_of_ge b _ (Nat.le_of_not_lt hhigh)]
      simp [hhigh, hi]

/-- As many bytes as the word has room for are all found in it. -/
theorem ofBytes_injective {bs bs' : List (BitVec 8)}
    (hlen : bs.length = bs'.length) (hroom : 8 * bs.length ≤ w)
    (h : ofBytes w bs = ofBytes w bs') : bs = bs' := by
  refine List.ext_getElem hlen fun i hi hi' => ?_
  ext j hj
  have hbit := congrArg (·.getLsbD (8 * i + j)) h
  have hin : 8 * i + j < w := by omega
  simp only [getLsbD_ofBytes _ i j hj hin] at hbit
  rwa [List.getD_eq_getElem?_getD, List.getD_eq_getElem?_getD,
    List.getElem?_eq_getElem hi, List.getElem?_eq_getElem hi',
    Option.getD_some, Option.getD_some, BitVec.getLsbD_eq_getElem hj,
    BitVec.getLsbD_eq_getElem hj] at hbit

end Dyad.Words
