import Dyad.Client.PathKey
import Mathlib.Data.Set.Basic

/-!
# When keys are whole

`gen_path_key` stops when the bins run out of room, and does not look whether
the path behind them had any. `dyad_init` takes any depth and any width, and a
level of width zero divides by it. What a buffer can hold is decided on the
bins and the path, so a set of paths gets whole keys path by path, and whole
keys differ.
-/

namespace Dyad

variable {cfg : KeyConfig} {len : Nat}

/-- A user path, which is not empty. -/
structure UserPath where
  str : CString
  nonempty : str ≠ []

/-- Every level has a bin. -/
def KeyConfig.Divides (cfg : KeyConfig) : Prop :=
  cfg.keyDepth = 0 ∨ cfg.keyBins ≠ 0

/-- The key of one path: the call comes to an end, what it leaves in the buffer
lies inside it, and where it returns 0 that is the bins and the whole path. -/
structure KeySound (cfg : KeyConfig) (len : Nat) (str : CString) : Prop where
  total : ∃ r, genPathKey cfg str len = some r
  within : ∀ r, genPathKey cfg str len = some r →
    r.2 = [] ∨ r.2.length < len
  whole : ∀ key, genPathKey cfg str len = some (0, key) →
    key = keyPrefix cfg str ++ str

/-- The keys of a set of paths: each is sound, and no two that are returned are
the same. -/
structure KeysSound (cfg : KeyConfig) (len : Nat) (S : Set UserPath) :
    Prop where
  each : ∀ p ∈ S, KeySound cfg len p.str
  differ : ∀ p ∈ S, ∀ q ∈ S, p.str ≠ q.str → ∀ kp kq,
    genPathKey cfg p.str len = some (0, kp) →
    genPathKey cfg q.str len = some (0, kq) → kp ≠ kq

/-- There is no buffer to speak of, or else every level has a bin, and the bins
fit together with the path or do not fit without it. -/
def KeyHolds (cfg : KeyConfig) (len : Nat) (str : CString) : Prop :=
  len = 0 ∨ cfg.Divides ∧
    (KeyFits cfg str len ∨ len ≤ (keyPrefix cfg str).length)

/-! ## The loop over the levels -/

/-- Where every bin can be taken, the loop writes them if they fit. -/
theorem keyLoop_eq_done {long : CString} {n d : Nat} {seed : UInt32}
    {key : CString} (hbins : n = 0 ∨ cfg.keyBins ≠ 0)
    (hfits : (key ++ (keyBinsFrom cfg long n d seed).flatMap
      fun bin => hex bin ++ ['.']).length < len) :
    keyLoop cfg long len n d seed key = .done (key ++
      (keyBinsFrom cfg long n d seed).flatMap fun bin => hex bin ++ ['.']) := by
  cases n with
  | zero =>
    rw [keyBinsFrom, List.flatMap_nil, List.append_nil, keyLoop]
  | succ n =>
    have hw : cfg.keyBins ≠ 0 := hbins.resolve_left (Nat.succ_ne_zero n)
    -- no level takes a remainder by zero
    have hne (n d : Nat) (seed : UInt32) (key : CString) :
        keyLoop cfg long len n d seed key ≠ .zeroWidth := by
      induction n generalizing d seed key with
      | zero =>
        rw [keyLoop]
        simp
      | succ n ih =>
        rw [keyLoop, if_neg hw]
        dsimp only
        split
        · simp
        · exact ih _ _ _
    exact (keyLoop_of_fits _ _ _ _ hfits).resolve_left (hne _ _ _ _)

/-- The loop stops inside the buffer if they do not. -/
theorem keyLoop_eq_overflow {long : CString} {n d : Nat} {seed : UInt32}
    {key : CString} (hw : cfg.keyBins ≠ 0) (hkey : key.length < len)
    (hlong : len ≤ (key ++ (keyBinsFrom cfg long n d seed).flatMap
      fun bin => hex bin ++ ['.']).length) :
    ∃ key', keyLoop cfg long len n d seed key = .overflow key' ∧
      key'.length < len := by
  induction n generalizing d seed key with
  | zero =>
    rw [keyBinsFrom, List.flatMap_nil, List.append_nil] at hlong
    omega
  | succ n ih =>
    rw [keyBinsFrom, List.flatMap_cons, ← List.append_assoc] at hlong
    rw [keyLoop, if_neg hw]
    dsimp only
    split
    · next hover =>
      refine ⟨_, rfl, ?_⟩
      rw [snprintf, List.length_append, List.length_take]
      omega
    · next hroom =>
      rw [snprintf_of_lt (by omega)]
      apply ih _ hlong
      rw [List.length_append]
      omega

/-! ## One path -/

section

variable {str : CString}

theorem genPathKey_of_len_zero : genPathKey cfg str 0 = some (-1, []) :=
  if_pos (Or.inl rfl)

theorem genPathKey_of_pos (hlen : 0 < len) (hne : str ≠ []) :
    genPathKey cfg str len =
      match keyLoop cfg (strLong str) len cfg.keyDepth.toNat 0 57 [] with
      | .zeroWidth => none
      | .overflow key => some (-1, key)
      | .done key => some (0, key ++ snprintf (len - key.length) str) := by
  have hgoes : ¬ (len = 0 ∨ str.length = 0) := by
    rintro (h | h)
    · omega
    · exact hne (List.length_eq_zero_iff.1 h)
  unfold genPathKey
  refine (if_neg hgoes).trans ?_
  cases keyLoop cfg (strLong str) len cfg.keyDepth.toNat 0 57 [] <;> rfl

/-- A level without a bin is divided by. -/
theorem genPathKey_eq_none (hlen : 0 < len) (hne : str ≠ [])
    (hdiv : ¬ cfg.Divides) : genPathKey cfg str len = none := by
  unfold KeyConfig.Divides at hdiv
  push Not at hdiv
  obtain ⟨n, hn⟩ : ∃ n, cfg.keyDepth.toNat = n + 1 := by
    apply Nat.exists_eq_succ_of_ne_zero
    intro h
    exact hdiv.1 (UInt32.toNat_inj.1 h)
  rw [genPathKey_of_pos hlen hne, hn, keyLoop, if_pos hdiv.2]

theorem KeyConfig.Divides.levels (hdiv : cfg.Divides) :
    cfg.keyDepth.toNat = 0 ∨ cfg.keyBins ≠ 0 := by
  rcases hdiv with h | h
  · exact Or.inl (by rw [h]; rfl)
  · exact Or.inr h

theorem genPathKey_eq_of_bins_fit (hne : str ≠ []) (hdiv : cfg.Divides)
    (hbins : (keyPrefix cfg str).length < len) :
    genPathKey cfg str len =
      some (0, (keyPrefix cfg str ++ str).take (len - 1)) := by
  have hlen : 0 < len := by omega
  have hloop : keyLoop cfg (strLong str) len cfg.keyDepth.toNat 0 57 [] =
      .done ([] ++ keyPrefix cfg str) := keyLoop_eq_done hdiv.levels hbins
  have hsome : genPathKey cfg str len = _ := genPathKey_of_pos hlen hne
  rw [hloop] at hsome
  rw [hsome]
  exact congrArg some (genPathKey_of_bins_fit hne hbins hsome)

theorem genPathKey_eq_of_bins_long (hne : str ≠ []) (hdiv : cfg.Divides)
    (hlen : 0 < len) (hbins : len ≤ (keyPrefix cfg str).length) :
    ∃ key, genPathKey cfg str len = some (-1, key) ∧ key.length < len := by
  have hw : cfg.keyBins ≠ 0 := by
    refine hdiv.resolve_left fun hdepth => ?_
    rw [keyPrefix, hdepth] at hbins
    exact Nat.not_le.2 hlen hbins
  obtain ⟨key, hloop, hkey⟩ : ∃ key', keyLoop cfg (strLong str) len
      cfg.keyDepth.toNat 0 57 [] = .overflow key' ∧ key'.length < len :=
    keyLoop_eq_overflow hw hlen hbins
  refine ⟨key, ?_, hkey⟩
  rw [genPathKey_of_pos hlen hne, hloop]

/-- A path gets a sound key, or none, exactly where the bins do not crowd it
out. -/
theorem keySound_iff (hne : str ≠ []) :
    KeySound cfg len str ↔ KeyHolds cfg len str := by
  unfold KeyHolds
  rcases Nat.eq_zero_or_pos len with rfl | hlen
  · refine iff_of_true ⟨⟨_, genPathKey_of_len_zero⟩, ?_, ?_⟩ (Or.inl rfl)
    · intro r hr
      rw [genPathKey_of_len_zero] at hr
      obtain rfl := Option.some.inj hr
      exact Or.inl rfl
    · intro key hkey
      rw [genPathKey_of_len_zero] at hkey
      exact absurd hkey (by simp)
  · by_cases hdiv : cfg.Divides
    · rcases Nat.lt_or_ge (keyPrefix cfg str).length len with hbins | hbins
      · have heq := genPathKey_eq_of_bins_fit hne hdiv hbins
        constructor
        · intro h
          have hwhole := h.whole _ heq
          have hlength := congrArg List.length hwhole
          rw [List.length_take, List.length_append] at hlength
          refine Or.inr ⟨hdiv, Or.inl ?_⟩
          unfold KeyFits
          omega
        · intro h
          have hfits : KeyFits cfg str len := by
            rcases h with h | ⟨-, h | h⟩
            · omega
            · exact h
            · omega
          have heq := genPathKey_of_fits hne hfits heq
          refine ⟨⟨_, genPathKey_eq_of_bins_fit hne hdiv hbins⟩, ?_, ?_⟩
          · intro r hr
            rw [genPathKey_of_fits hne hfits hr, List.length_append]
            exact Or.inr hfits
          · intro key hkey
            exact (Prod.mk.inj (genPathKey_of_fits hne hfits hkey)).2
      · obtain ⟨key, heq, hkey⟩ :=
          genPathKey_eq_of_bins_long hne hdiv hlen hbins
        refine iff_of_true ⟨⟨_, heq⟩, ?_, ?_⟩
          (Or.inr ⟨hdiv, Or.inr hbins⟩)
        · intro r hr
          rw [heq] at hr
          obtain rfl := Option.some.inj hr
          exact Or.inr hkey
        · intro key' hkey'
          rw [heq] at hkey'
          exact absurd hkey' (by simp)
    · refine iff_of_false (fun h => ?_) (fun h => ?_)
      · obtain ⟨r, hr⟩ := h.total
        rw [genPathKey_eq_none hlen hne hdiv] at hr
        exact absurd hr nofun
      · rcases h with h | h
        · omega
        · exact hdiv h.1

end

/-! ## Any paths -/

/-- Keys that are whole differ where their paths do. -/
theorem KeySound.differ {p q kp kq : CString} (hp : KeySound cfg len p)
    (hq : KeySound cfg len q) (hne : p ≠ q)
    (hkp : genPathKey cfg p len = some (0, kp))
    (hkq : genPathKey cfg q len = some (0, kq)) : kp ≠ kq := by
  rintro rfl
  apply hne
  apply keyPrefix_append_inj
  rw [← hp.whole kp hkp, ← hq.whole kp hkq]

/-- For every set of user paths, every buffer and every setting: all keys are
sound and differ exactly where each path's own key has room. -/
theorem keysSound_iff (cfg : KeyConfig) (len : Nat) (S : Set UserPath) :
    KeysSound cfg len S ↔ ∀ p ∈ S, KeyHolds cfg len p.str := by
  constructor
  · intro h p hp
    exact (keySound_iff p.nonempty).1 (h.each p hp)
  · intro h
    have heach : ∀ p ∈ S, KeySound cfg len p.str :=
      fun p hp => (keySound_iff p.nonempty).2 (h p hp)
    exact ⟨heach, fun p hp q hq hne _ _ hkp hkq =>
      (heach p hp).differ (heach q hq) hne hkp hkq⟩

/-! ## A buffer that is too short -/

/-- The depth and width of the defaults. -/
def KeyConfig.default : KeyConfig where
  hash _ _ := 0
  keyDepth := 3
  keyBins := 1024

/-- In eight bytes the paths `ab` and `ac` both get the key `0.0.0.a`, and at
width zero there is no key at all. -/
theorem short_keys_collide :
    genPathKey .default ['a', 'b'] 8 = genPathKey .default ['a', 'c'] 8 ∧
    ¬ KeysSound .default 8 {p | p.str = ['a', 'b'] ∨ p.str = ['a', 'c']} ∧
    ¬ KeysSound { KeyConfig.default with keyBins := 0 } 4096
      {p | p.str = ['f']} := by
  refine ⟨by decide, fun h => ?_, fun h => ?_⟩
  · have hkey : genPathKey .default ['a', 'b'] 8 =
        some (0, ['0', '.', '0', '.', '0', '.', 'a']) := by decide
    have hwhole := (h.each ⟨['a', 'b'], nofun⟩ (Or.inl rfl)).whole _ hkey
    exact absurd hwhole (by decide)
  · obtain ⟨r, hr⟩ := (h.each ⟨['f'], nofun⟩ rfl).total
    have hnone : genPathKey { KeyConfig.default with keyBins := 0 } ['f'] 4096 =
        none := by decide
    exact absurd (hnone.symm.trans hr) nofun

end Dyad
