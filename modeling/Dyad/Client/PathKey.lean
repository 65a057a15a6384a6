import Mathlib.Data.List.Basic
import Mathlib.Tactic.IntervalCases

/-!
# The key of a file in the KVS (`client/dyad_client.c`, `gen_path_key`)

The key of a user path is `h1.h2...hN.path`, where the bins `h1` to `hN` come
from hashing the path, padded to 128 bytes, under a different seed each. The
hash itself is a parameter: nothing here depends on which one it is.

`gen_path_key` checks that the bins fit the buffer, and leaves it to `snprintf`
to cut what follows them.
-/

namespace Dyad

/-- A C string, a character for each of its bytes before the terminator. -/
abbrev CString := List Char

/-- `PATH_MAX`. -/
def pathMax : Nat := 4096

/-- The four words `MurmurHash3_x64_128` leaves, folded by `^`, and the depth
and the width of the key tree. -/
structure KeyConfig where
  hash : CString → UInt32 → UInt32
  keyDepth : UInt32
  keyBins : UInt32

/-- `seeds`. -/
def keySeeds : List UInt32 :=
  [104677, 104681, 104683, 104693, 104701, 104707, 104711, 104717, 104723,
    104729]

/-- The text of `%x`. -/
def hex (n : UInt32) : CString := Nat.toDigits 16 n.toNat

/-- `snprintf (buf, cap, ...)` of a text: what is in the buffer after it. -/
def snprintf (cap : Nat) (text : CString) : CString := text.take (cap - 1)

/-- What is hashed: the path, padded to 128 bytes. -/
def strLong (str : CString) : CString :=
  if str.length < 128 then str ++ List.replicate (128 - str.length) '@'
  else str

/-- What the loop over the levels ends with: a remainder by zero, the return in
the middle of it, or the end of the last level. -/
inductive KeyLoop
  | zeroWidth
  | overflow (key : CString)
  | done (key : CString)
deriving DecidableEq

/-- The loop over the levels, `n` of them left, with `key` in the buffer up to
`cx`. -/
def keyLoop (cfg : KeyConfig) (long : CString) (len : Nat) :
    Nat → Nat → UInt32 → CString → KeyLoop
  | 0, _, _, key => .done key
  | n + 1, d, seed, key =>
    let seed := seed + keySeeds.getD (d % 10) 0
    if cfg.keyBins = 0 then .zeroWidth
    else
      let bin := cfg.hash long seed % cfg.keyBins
      let text := hex bin ++ ['.']
      let key' := key ++ snprintf (len - key.length) text
      if len ≤ key.length + text.length then .overflow key'
      else keyLoop cfg long len n (d + 1) seed key'

/-- `gen_path_key` on a buffer that is all zeros: the return value and the
string in the buffer, or `none` where it takes a remainder by zero. -/
def genPathKey (cfg : KeyConfig) (str : CString) (len : Nat) :
    Option (Int × CString) :=
  if len = 0 ∨ str.length = 0 then some (-1, [])
  else
    match keyLoop cfg (strLong str) len cfg.keyDepth.toNat 0 57 [] with
    | .zeroWidth => none
    | .overflow key => some (-1, key)
    | .done key => some (0, key ++ snprintf (len - key.length) str)

/-! ## What the key is -/

/-- The bins of the levels from `d` on, `n` of them. -/
def keyBinsFrom (cfg : KeyConfig) (long : CString) :
    Nat → Nat → UInt32 → List UInt32
  | 0, _, _ => []
  | n + 1, d, seed =>
    let seed := seed + keySeeds.getD (d % 10) 0
    cfg.hash long seed % cfg.keyBins :: keyBinsFrom cfg long n (d + 1) seed

/-- The bins of a path, as they stand before it in the key. -/
def keyPrefix (cfg : KeyConfig) (str : CString) : CString :=
  (keyBinsFrom cfg (strLong str) cfg.keyDepth.toNat 0 57).flatMap
    fun bin => hex bin ++ ['.']

/-- The whole key of a path fits a buffer. -/
def KeyFits (cfg : KeyConfig) (str : CString) (len : Nat) : Prop :=
  (keyPrefix cfg str).length + str.length < len

instance (cfg : KeyConfig) (str : CString) (len : Nat) :
    Decidable (KeyFits cfg str len) := inferInstanceAs (Decidable (_ < _))

variable {cfg : KeyConfig}

theorem snprintf_of_lt {cap : Nat} {text : CString} (h : text.length < cap) :
    snprintf cap text = text :=
  List.take_of_length_le (by omega)

@[simp]
theorem length_keyBinsFrom (long : CString) (n d : Nat) (seed : UInt32) :
    (keyBinsFrom cfg long n d seed).length = n := by
  induction n generalizing d seed with
  | zero => rfl
  | succ n ih => simp only [keyBinsFrom, List.length_cons, ih]

/-- The loop writes every bin where they fit. -/
theorem keyLoop_of_fits {long : CString} {len : Nat} (n d : Nat)
    (seed : UInt32) (key : CString)
    (hfits : (key ++ (keyBinsFrom cfg long n d seed).flatMap
      fun bin => hex bin ++ ['.']).length < len) :
    keyLoop cfg long len n d seed key = .zeroWidth ∨
      keyLoop cfg long len n d seed key = .done (key ++
        (keyBinsFrom cfg long n d seed).flatMap
          fun bin => hex bin ++ ['.']) := by
  induction n generalizing d seed key with
  | zero =>
    right
    rw [keyBinsFrom, List.flatMap_nil, List.append_nil]
    rfl
  | succ n ih =>
    rw [keyLoop]
    by_cases hw : cfg.keyBins = 0
    · exact Or.inl (if_pos hw)
    · rw [keyBinsFrom, List.flatMap_cons, ← List.append_assoc] at hfits ⊢
      simp only [if_neg hw]
      have hshort := Nat.lt_of_le_of_lt
        (List.length_append ▸ Nat.le_add_right _ _) hfits
      rw [List.length_append] at hshort
      rw [if_neg (by omega), snprintf_of_lt (by omega)]
      exact ih _ _ _ hfits

/-- The key of a path whose bins fit is the bins and the path, cut to what the
buffer holds. -/
theorem genPathKey_of_bins_fit {str : CString} {len : Nat} (hne : str ≠ [])
    (hbins : (keyPrefix cfg str).length < len) {r : Int × CString}
    (h : genPathKey cfg str len = some r) :
    r = (0, (keyPrefix cfg str ++ str).take (len - 1)) := by
  have hlen : ¬ (len = 0 ∨ str.length = 0) := by
    rw [List.length_eq_zero_iff]
    rintro (rfl | rfl)
    · exact absurd hbins (Nat.not_lt_zero _)
    · exact hne rfl
  rw [genPathKey, if_neg hlen] at h
  have hloop : ([] ++ keyPrefix cfg str).length < len := hbins
  rcases keyLoop_of_fits _ _ _ _ hloop with hl | hl
  · rw [hl] at h
    exact absurd h (by simp)
  · rw [hl, List.nil_append] at h
    obtain rfl := Option.some.inj h
    have hwhole : (keyPrefix cfg str).take (len - 1) = keyPrefix cfg str :=
      List.take_of_length_le (by omega)
    rw [← keyPrefix, snprintf, List.take_append, hwhole, Nat.sub_right_comm]

/-- The key of a path that fits is the bins and the path. -/
theorem genPathKey_of_fits {str : CString} {len : Nat} (hne : str ≠ [])
    (hfits : KeyFits cfg str len) {r : Int × CString}
    (h : genPathKey cfg str len = some r) :
    r = (0, keyPrefix cfg str ++ str) := by
  rw [KeyFits] at hfits
  rw [genPathKey_of_bins_fit hne (by omega) h, List.take_of_length_le]
  rw [List.length_append]
  omega

/-! ## No two paths share a key that fits -/

theorem digitChar_ne_dot (n : Nat) : Nat.digitChar n ≠ '.' := by
  by_cases hn : n < 16
  · interval_cases n <;> decide
  · simp [Nat.digitChar, show ∀ m, m < 16 → n ≠ m from fun m hm => by omega]

theorem dot_not_mem_toDigitsCore (fuel n : Nat) (ds : CString)
    (hds : '.' ∉ ds) : '.' ∉ Nat.toDigitsCore 16 fuel n ds := by
  induction fuel generalizing n ds with
  | zero => exact hds
  | succ fuel ih =>
    have hcons : '.' ∉ Nat.digitChar (n % 16) :: ds :=
      List.not_mem_cons_of_ne_of_not_mem (digitChar_ne_dot _).symm hds
    rw [Nat.toDigitsCore]
    split
    · exact hcons
    · exact ih _ _ hcons

theorem dot_not_mem_hex (n : UInt32) : '.' ∉ hex n :=
  dot_not_mem_toDigitsCore _ _ _ List.not_mem_nil

/-- What stands before the first dot, and what stands after it. -/
theorem append_dot_inj {x y p q : CString} (hx : '.' ∉ x) (hy : '.' ∉ y)
    (h : x ++ '.' :: p = y ++ '.' :: q) : p = q := by
  induction x generalizing y with
  | nil =>
    cases y with
    | nil => exact (List.cons.inj h).2
    | cons c y => exact absurd ((List.cons.inj h).1 ▸ List.mem_cons_self) hy
  | cons c x ih =>
    cases y with
    | nil =>
      exact absurd ((List.cons.inj h).1.symm ▸ List.mem_cons_self) hx
    | cons d y =>
      exact ih (fun hm => hx (List.mem_cons_of_mem _ hm))
        (fun hm => hy (List.mem_cons_of_mem _ hm)) (List.cons.inj h).2

/-- Behind as many bins, what follows them can be read off. -/
theorem bins_append_inj {bs cs : List UInt32} {p q : CString}
    (hlen : bs.length = cs.length)
    (h : (bs.flatMap fun bin => hex bin ++ ['.']) ++ p =
      (cs.flatMap fun bin => hex bin ++ ['.']) ++ q) : p = q := by
  induction bs generalizing cs with
  | nil =>
    obtain rfl := List.eq_nil_of_length_eq_zero hlen.symm
    exact h
  | cons b bs ih =>
    cases cs with
    | nil => exact absurd hlen (by simp)
    | cons c cs =>
      simp only [List.flatMap_cons, List.append_assoc, List.cons_append,
        List.nil_append] at h
      exact ih (Nat.succ.inj hlen)
        (append_dot_inj (dot_not_mem_hex b) (dot_not_mem_hex c) h)

theorem keyPrefix_append_inj {p q : CString}
    (h : keyPrefix cfg p ++ p = keyPrefix cfg q ++ q) : p = q :=
  bins_append_inj (by simp) h

/-- The key of a path that fits is that of no other path that fits. -/
theorem genPathKey_inj {p q : CString} {len : Nat} {r r' : Int} {key : CString}
    (hp : KeyFits cfg p len) (hq : KeyFits cfg q len)
    (h : genPathKey cfg p len = some (r, key))
    (h' : genPathKey cfg q len = some (r', key)) : p = q := by
  have hnil : ∀ {s r key}, s ≠ [] → KeyFits cfg s len →
      genPathKey cfg s len = some (r, key) → key ≠ [] := by
    intro s r key hs hfits hgen hkey
    obtain ⟨rfl, rfl⟩ := Prod.mk.inj (genPathKey_of_fits hs hfits hgen)
    exact hs (List.append_eq_nil_iff.1 hkey).2
  have hempty : ∀ {r key}, genPathKey cfg [] len = some (r, key) →
      key = [] := by
    intro r key hgen
    rw [genPathKey, if_pos (Or.inr List.length_nil)] at hgen
    exact (Prod.mk.inj (Option.some.inj hgen)).2.symm
  by_cases hp0 : p = []
  · subst hp0
    by_contra hq0
    exact hnil (Ne.symm hq0) hq h' (hempty h)
  · by_cases hq0 : q = []
    · subst hq0
      exact absurd (hempty h') (hnil hp0 hp h)
    · have hkp := (Prod.mk.inj (genPathKey_of_fits hp0 hp h)).2
      have hkq := (Prod.mk.inj (genPathKey_of_fits hq0 hq h')).2
      exact keyPrefix_append_inj (hkp.symm.trans hkq)

end Dyad
