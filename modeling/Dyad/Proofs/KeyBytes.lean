import Dyad.Utils.Murmur3

/-!
# Which bytes of a path its bins depend on

Every step of the hash is injective in the word it mixes in, so nothing within
one block of a key is lost. The bytes after the last whole block are another
matter: each case of the `switch` leaves it, and the word it built is mixed in
by the cases 9 and 1 alone. `seenBytes` is what is left of a key.
-/

namespace Dyad

/-- The byte of a tail that is mixed in. -/
def seenTail (tail : List (BitVec 8)) : List (BitVec 8) :=
  match tail.length with
  | 9 => [tail.getD 8 0]
  | 1 => [tail.getD 0 0]
  | _ => []

/-- The whole blocks of a key, and the byte of its tail that is mixed in. -/
def seenBytes (data : List (BitVec 8)) : List (BitVec 8) :=
  data.take (data.length / 16 * 16) ++
    seenTail (data.drop (data.length / 16 * 16))

/-! ## No step loses anything -/

theorem rotl64_injective {r : Nat} (hr : r ≤ 64) :
    Function.Injective fun x => rotl64 x r :=
  fun _ _ h => Words.rotate_injective hr h

theorem mulC1_injective : Function.Injective fun x => x * mulC1 := by
  have hinv : mulC1 * 12214898983567248765 = 1#64 := by decide
  exact Words.mul_injective hinv

theorem mulC2_injective : Function.Injective fun x => x * mulC2 := by
  have hinv : mulC2 * 12114143059468233855 = 1#64 := by decide
  exact Words.mul_injective hinv

theorem mixK1_injective : Function.Injective mixK1 := by
  intro x y h
  rw [mixK1, mixK1] at h
  exact mulC1_injective (rotl64_injective (by omega) (mulC2_injective h))

theorem mixK2_injective : Function.Injective mixK2 := by
  intro x y h
  rw [mixK2, mixK2] at h
  exact mulC2_injective (rotl64_injective (by omega) (mulC1_injective h))

theorem fmix64_injective : Function.Injective fmix64 := by
  intro x y h
  have hinv : (0xff51afd7ed558ccd : BitVec 64) * 5725274745694666757 = 1#64 := by
    decide
  have hinv' : (0xc4ceb9fe1a85ec53 : BitVec 64) * 11291846944257947611 = 1#64 := by
    decide
  have hs := Words.xorshift_injective (w := 64) (s := 33) (by omega)
  simp only [fmix64] at h
  exact hs (Words.mul_injective hinv (hs (Words.mul_injective hinv' (hs h))))

theorem mixWord_injective {r : Nat} (hr : r ≤ 64) (other add : BitVec 64) :
    Function.Injective fun x => mixWord x r other add := by
  intro x y h
  have h5 : (5 : BitVec 64) * 14757395258967641293 = 1#64 := by decide
  simp only [mixWord] at h
  have hmul := Words.mul_injective h5 (Words.add_injective add h)
  exact rotl64_injective hr (Words.add_injective other hmul)

/-- A round can be undone, given the block. -/
theorem mixBlock_injective (k1 k2 : BitVec 64) :
    Function.Injective fun h : HashWords => mixBlock h k1 k2 := by
  rintro ⟨a1, a2⟩ ⟨b1, b2⟩ h
  simp only [mixBlock, Prod.mk.injEq] at h
  obtain ⟨h1, h2⟩ := h
  rw [h1] at h2
  -- the second word first: the first one was added to it afterwards
  have hx2 := mixWord_injective (by omega) _ _ h2
  have ha2 : a2 = b2 := (BitVec.xor_left_inj _).1 hx2
  rw [ha2] at h1
  have hx1 := mixWord_injective (by omega) _ _ h1
  rw [ha2, (BitVec.xor_left_inj _).1 hx1]

/-- The block of a round can be told from what it makes of a state. -/
theorem mixBlock_block {h : HashWords} {k1 k2 k1' k2' : BitVec 64}
    (heq : mixBlock h k1 k2 = mixBlock h k1' k2') : k1 = k1' ∧ k2 = k2' := by
  simp only [mixBlock, Prod.mk.injEq] at heq
  obtain ⟨h1, h2⟩ := heq
  rw [h1] at h2
  have hx1 := mixWord_injective (by omega) _ _ h1
  have hx2 := mixWord_injective (by omega) _ _ h2
  exact ⟨mixK1_injective ((BitVec.xor_right_inj _).1 hx1),
    mixK2_injective ((BitVec.xor_right_inj _).1 hx2)⟩

theorem mixLength_injective (len : Nat) :
    Function.Injective (mixLength len) := by
  rintro ⟨a1, a2⟩ ⟨b1, b2⟩ h
  simp only [mixLength, Prod.mk.injEq] at h
  obtain ⟨h1, h2⟩ := h
  rw [h1] at h2
  have hf2 := fmix64_injective ((BitVec.add_left_inj _).1 h2)
  rw [hf2] at h1
  have hf1 := fmix64_injective ((BitVec.add_left_inj _).1 h1)
  rw [hf1] at hf2
  have hx2 := (BitVec.add_left_inj _).1 hf2
  rw [hx2] at hf1
  have hx1 := (BitVec.add_left_inj _).1 hf1
  rw [(BitVec.xor_left_inj _).1 hx1, (BitVec.xor_left_inj _).1 hx2]

/-! ## The tail -/

/-- A case of the `switch` that is not 1 or 9 leaves both words alone. -/
theorem mixTail_unseen (tail : List (BitVec 8)) (h : HashWords) (n : Nat)
    (h1 : n ≠ 1) (h9 : n ≠ 9) : (mixTail tail h n).1 = h := by
  unfold mixTail
  split <;> first | rfl | contradiction

theorem mixTail_injective (tail : List (BitVec 8)) (n : Nat) :
    Function.Injective fun h : HashWords => (mixTail tail h n).1 := by
  rintro ⟨a1, a2⟩ ⟨b1, b2⟩ h
  by_cases h1 : n = 1
  · subst h1
    simp only [mixTail, Prod.mk.injEq, BitVec.xor_left_inj] at h
    rw [h.1, h.2]
  · by_cases h9 : n = 9
    · subst h9
      simp only [mixTail, Prod.mk.injEq, BitVec.xor_left_inj] at h
      rw [h.1, h.2]
    · simpa only [mixTail_unseen tail _ n h1 h9] using h

theorem tailByte_inj {t t' : List (BitVec 8)} {i : Nat} :
    tailByte t i = tailByte t' i ↔ t.getD i 0 = t'.getD i 0 := by
  constructor
  · intro h
    have := congrArg (BitVec.setWidth 8) h
    simpa [tailByte] using this
  · intro h
    rw [tailByte, h, ← tailByte]

/-- Two tails of one length are mixed in alike where the bytes seen of them are
the same, and nowhere else. -/
theorem mixTail_tail_iff {t t' : List (BitVec 8)} (hlen : t.length = t'.length)
    (h : HashWords) :
    (mixTail t h t.length).1 = (mixTail t' h t.length).1 ↔
      seenTail t = seenTail t' := by
  rw [seenTail, seenTail, ← hlen]
  by_cases h1 : t.length = 1
  · simp only [h1, mixTail, Prod.mk.injEq, BitVec.xor_right_inj, and_true,
      mixK1_injective.eq_iff, tailByte_inj, List.cons.injEq]
  · by_cases h9 : t.length = 9
    · simp only [h9, mixTail, Prod.mk.injEq, BitVec.xor_right_inj, true_and,
        and_true, mixK2_injective.eq_iff, tailByte_inj, List.cons.injEq]
    · rw [mixTail_unseen t _ _ h1 h9, mixTail_unseen t' _ _ h1 h9]
      simp

/-! ## The body -/

/-- The `i`-th block. -/
def blockAt (data : List (BitVec 8)) (i : Nat) : List (BitVec 8) :=
  (data.drop (16 * i)).take 16

/-- The words of a block are read from it. -/
theorem getblock_eq (data : List (BitVec 8)) (i : Nat) :
    getblock data (i * 2) = Words.ofBytes 64 ((blockAt data i).take 8) ∧
      getblock data (i * 2 + 1) =
        Words.ofBytes 64 ((blockAt data i).drop 8) := by
  constructor
  · rw [getblock, blockAt, List.take_take, show 8 * (i * 2) = 16 * i by omega,
      Nat.min_eq_left (by omega)]
  · rw [getblock, blockAt, List.drop_take, List.drop_drop,
      show 8 * (i * 2 + 1) = 16 * i + 8 by omega]

theorem mixBody_cons (data : List (BitVec 8)) (i : Nat) (is : List Nat)
    (h : HashWords) :
    mixBody data (i :: is) h = mixBody data is
      (mixBlock h (getblock data (i * 2)) (getblock data (i * 2 + 1))) := by
  simp only [mixBody, List.foldl_cons]

theorem mixBody_append (data : List (BitVec 8)) (is js : List Nat)
    (h : HashWords) :
    mixBody data (is ++ js) h = mixBody data js (mixBody data is h) := by
  simp only [mixBody, List.foldl_append]

theorem mixBody_congr {data data' : List (BitVec 8)} {is : List Nat}
    (hsame : ∀ i ∈ is, blockAt data i = blockAt data' i) (h : HashWords) :
    mixBody data is h = mixBody data' is h := by
  induction is generalizing h with
  | nil => simp only [mixBody, List.foldl_nil]
  | cons i is ih =>
    have hblock := hsame i List.mem_cons_self
    rw [mixBody_cons, mixBody_cons, (getblock_eq data i).1,
      (getblock_eq data i).2, (getblock_eq data' i).1, (getblock_eq data' i).2,
      hblock]
    exact ih (fun j hj => hsame j (List.mem_cons_of_mem _ hj)) _

theorem mixBody_injective (data : List (BitVec 8)) (is : List Nat) :
    Function.Injective (mixBody data is) := by
  induction is with
  | nil =>
    intro h h' heq
    simpa only [mixBody, List.foldl_nil] using heq
  | cons i is ih =>
    intro h h' heq
    rw [mixBody_cons, mixBody_cons] at heq
    exact mixBlock_injective _ _ (ih heq)

/-- A whole block can be told from what a round makes of a state. -/
theorem mixBlock_blockAt {data data' : List (BitVec 8)} {i : Nat}
    {h : HashWords} (hin : 16 * (i + 1) ≤ data.length)
    (hin' : 16 * (i + 1) ≤ data'.length)
    (heq : mixBlock h (getblock data (i * 2)) (getblock data (i * 2 + 1)) =
      mixBlock h (getblock data' (i * 2)) (getblock data' (i * 2 + 1))) :
    blockAt data i = blockAt data' i := by
  have hl : (blockAt data i).length = 16 := by
    rw [blockAt, List.length_take, List.length_drop]; omega
  have hl' : (blockAt data' i).length = 16 := by
    rw [blockAt, List.length_take, List.length_drop]; omega
  have hk := mixBlock_block heq
  rw [(getblock_eq data i).1, (getblock_eq data i).2, (getblock_eq data' i).1,
    (getblock_eq data' i).2] at hk
  have hlow := Words.ofBytes_injective (by simp [hl, hl']) (by simp [hl]) hk.1
  have hhigh := Words.ofBytes_injective (by simp [hl, hl']) (by simp [hl]) hk.2
  rw [← List.take_append_drop 8 (blockAt data i), hlow, hhigh,
    List.take_append_drop]

/-! ## What a key is mixed into -/

theorem murmurHash3_eq (data : List (BitVec 8)) (seed : UInt32) :
    murmurHash3 data seed = mixLength data.length
      (mixTail (data.drop (data.length / 16 * 16))
        (mixBody data (List.range (data.length / 16))
          (seed.toBitVec.setWidth 64, seed.toBitVec.setWidth 64))
        (data.drop (data.length / 16 * 16)).length).1 := by
  have htail : (data.drop (data.length / 16 * 16)).length =
      data.length % 16 := by
    rw [List.length_drop]; omega
  rw [htail]
  rfl

/-- The blocks up to `n` are those of the bytes up to `16 * n`. -/
theorem blockAt_congr {data data' : List (BitVec 8)} {n i : Nat}
    (h : data.take (16 * n) = data'.take (16 * n)) (hi : i < n) :
    blockAt data i = blockAt data' i := by
  have hblock : ∀ d : List (BitVec 8),
      blockAt d i = ((d.take (16 * n)).drop (16 * i)).take 16 := by
    intro d
    rw [blockAt, List.drop_take, List.take_take, Nat.min_eq_left (by omega)]
  rw [hblock, hblock, h]

/-- Keys of one length that are seen alike are mixed alike. -/
theorem murmurHash3_of_seen {data data' : List (BitVec 8)}
    (hlen : data.length = data'.length) (hseen : seenBytes data = seenBytes data')
    (seed : UInt32) : murmurHash3 data seed = murmurHash3 data' seed := by
  have hwhole : (data.take (data.length / 16 * 16)).length =
      (data'.take (data'.length / 16 * 16)).length := by
    rw [List.length_take, List.length_take, hlen]
  obtain ⟨hblocks, htails⟩ := List.append_inj hseen hwhole
  rw [murmurHash3_eq, murmurHash3_eq, ← hlen]
  rw [← hlen] at hblocks htails
  have hbody : ∀ h, mixBody data (List.range (data.length / 16)) h =
      mixBody data' (List.range (data.length / 16)) h :=
    mixBody_congr fun i hi =>
      blockAt_congr (by rwa [Nat.mul_comm]) (List.mem_range.1 hi)
  have hdrop : (data.drop (data.length / 16 * 16)).length =
      (data'.drop (data.length / 16 * 16)).length := by
    rw [List.length_drop, List.length_drop, hlen]
  rw [hbody, ← hdrop, (mixTail_tail_iff hdrop _).2 htails]

/-- Keys that are the same up to their last whole block are mixed apart where
the byte seen of what is left of them differs. -/
theorem seenBytes_of_tail {data data' : List (BitVec 8)} {seed : UInt32}
    (hlen : data.length = data'.length)
    (hsame : data.take (data.length / 16 * 16) =
      data'.take (data.length / 16 * 16))
    (h : murmurHash3 data seed = murmurHash3 data' seed) :
    seenBytes data = seenBytes data' := by
  rw [murmurHash3_eq, murmurHash3_eq, ← hlen] at h
  have hbody : ∀ h, mixBody data (List.range (data.length / 16)) h =
      mixBody data' (List.range (data.length / 16)) h :=
    mixBody_congr fun i hi =>
      blockAt_congr (by rwa [Nat.mul_comm]) (List.mem_range.1 hi)
  have hdrop : (data.drop (data.length / 16 * 16)).length =
      (data'.drop (data.length / 16 * 16)).length := by
    rw [List.length_drop, List.length_drop, hlen]
  rw [hbody, ← hdrop] at h
  have htail := (mixTail_tail_iff hdrop _).1 (mixLength_injective _ h)
  rw [seenBytes, seenBytes, ← hlen, hsame, htail]

/-- Keys that are the same but for one whole block are mixed apart where they
differ. -/
theorem eq_of_block {data data' : List (BitVec 8)} {seed : UInt32} {m : Nat}
    (hlen : data.length = data'.length) (hm : m < data.length / 16)
    (hbefore : data.take (16 * m) = data'.take (16 * m))
    (hafter : data.drop (16 * (m + 1)) = data'.drop (16 * (m + 1)))
    (h : murmurHash3 data seed = murmurHash3 data' seed) : data = data' := by
  obtain ⟨k, hk⟩ : ∃ k, data.length / 16 = m + (k + 1) :=
    ⟨data.length / 16 - m - 1, by omega⟩
  have htail : data.drop (data.length / 16 * 16) =
      data'.drop (data.length / 16 * 16) := by
    have hpast : data.length / 16 * 16 = 16 * (m + 1) + 16 * k := by omega
    rw [hpast, ← List.drop_drop, ← List.drop_drop, hafter]
  have hlater : ∀ i ∈ (List.range k).map (fun j => m + 1 + j),
      blockAt data i = blockAt data' i := by
    intro i hi
    obtain ⟨j, -, rfl⟩ := List.mem_map.1 hi
    have hpast : 16 * (m + 1 + j) = 16 * (m + 1) + 16 * j := by omega
    rw [blockAt, blockAt, hpast, ← List.drop_drop, ← List.drop_drop, hafter]
  have hrange : List.range (data.length / 16) =
      List.range m ++ m :: (List.range k).map fun j => m + 1 + j := by
    rw [hk, List.range_add, List.range_succ_eq_map, List.map_cons, List.map_map]
    simp [Function.comp_def, Nat.add_assoc, Nat.add_comm 1]
  -- back through the tail and the later blocks to the one that differs
  rw [murmurHash3_eq, murmurHash3_eq, ← hlen, htail] at h
  have hbody := mixTail_injective _ _ (mixLength_injective _ h)
  rw [hrange, mixBody_append, mixBody_append, mixBody_cons, mixBody_cons,
    mixBody_congr hlater, mixBody_congr fun i hi =>
      blockAt_congr hbefore (List.mem_range.1 hi)] at hbody
  have hblock := mixBlock_blockAt (by omega) (by omega)
    (mixBody_injective _ _ hbody)
  have hsplit : ∀ d : List (BitVec 8), d =
      d.take (16 * m) ++ (blockAt d m ++ d.drop (16 * (m + 1))) := by
    intro d
    rw [blockAt, show 16 * (m + 1) = 16 * m + 16 by omega, ← List.drop_drop,
      List.take_append_drop, List.take_append_drop]
  rw [hsplit data, hsplit data', hbefore, hblock, hafter]

/-- Two keys of one length, and the same outside one window of sixteen bytes,
have the same 128 bits exactly when the bytes seen of them are the same. -/
theorem murmurHash3_window_iff {data data' : List (BitVec 8)} {m : Nat}
    (hlen : data.length = data'.length)
    (hbefore : data.take (16 * m) = data'.take (16 * m))
    (hafter : data.drop (16 * (m + 1)) = data'.drop (16 * (m + 1)))
    (seed : UInt32) :
    murmurHash3 data seed = murmurHash3 data' seed ↔
      seenBytes data = seenBytes data' := by
  refine ⟨fun h => ?_, fun h => murmurHash3_of_seen hlen h seed⟩
  by_cases hm : m < data.length / 16
  · rw [eq_of_block hlen hm hbefore hafter h]
  · refine seenBytes_of_tail hlen ?_ h
    have hmin : data.length / 16 * 16 = min (data.length / 16 * 16) (16 * m) := by
      omega
    rw [hmin, ← List.take_take, hbefore, List.take_take]

/-- Two keys that differ in the last byte of a tail of two. -/
theorem last_byte_unseen :
    murmurHash3 (List.replicate 17 0 ++ [1]) 57 =
      murmurHash3 (List.replicate 18 0) 57 :=
  (murmurHash3_window_iff (m := 1) (by decide) (by decide) (by decide) 57).2
    (by decide)

/-! ## Paths that share their bins -/

@[simp]
theorem length_bytesOf (str : CString) : (bytesOf str).length = str.length :=
  List.length_map _

theorem bytesOf_append (p q : CString) :
    bytesOf (p ++ q) = bytesOf p ++ bytesOf q := List.map_append

theorem strLong_of_long {str : CString} (h : 128 ≤ str.length) :
    strLong str = str := if_neg (by omega)

/-- The bins of a path depend on it through the hash alone. -/
theorem keyBinsFrom_congr {cfg : KeyConfig} {long long' : CString}
    (h : ∀ seed, cfg.hash long seed = cfg.hash long' seed) (n d : Nat)
    (seed : UInt32) :
    keyBinsFrom cfg long n d seed = keyBinsFrom cfg long' n d seed := by
  induction n generalizing d seed with
  | zero => rfl
  | succ n ih => simp only [keyBinsFrom, h, ih]

/-- What is left over after the whole blocks is not seen, but for a tail of one
or of nine bytes. -/
theorem seenBytes_append {pre a b : List (BitVec 8)} (hlen : a.length = b.length)
    (hshort : a.length ≤ (pre ++ a).length % 16)
    (h1 : (pre ++ a).length % 16 ≠ 1) (h9 : (pre ++ a).length % 16 ≠ 9) :
    seenBytes (pre ++ a) = seenBytes (pre ++ b) := by
  have hunseen : ∀ d : List (BitVec 8), d.length % 16 ≠ 1 → d.length % 16 ≠ 9 →
      seenBytes d = d.take (d.length / 16 * 16) := by
    intro d h1 h9
    have htail : (d.drop (d.length / 16 * 16)).length = d.length % 16 := by
      rw [List.length_drop]; omega
    rw [seenBytes, seenTail, htail]
    split
    · contradiction
    · contradiction
    · rw [List.append_nil]
  have hsame : (pre ++ a).length = (pre ++ b).length := by
    rw [List.length_append, List.length_append, hlen]
  rw [hunseen _ h1 h9, hunseen _ (hsame ▸ h1) (hsame ▸ h9), ← hsame]
  rw [List.length_append] at hshort ⊢
  rw [List.take_append_of_le_length (by omega),
    List.take_append_of_le_length (by omega)]

/-- Two paths of at least 128 bytes that differ only after the last whole block
of sixteen have the same bins, under every depth and width of the tree, and the
same hash where they are managed directories, unless one or nine bytes are left
over. -/
theorem names_share_bins {pre a b : CString} (hlong : 128 ≤ pre.length)
    (hlen : a.length = b.length) (hshort : a.length ≤ (pre ++ a).length % 16)
    (h1 : (pre ++ a).length % 16 ≠ 1) (h9 : (pre ++ a).length % 16 ≠ 9)
    (keyDepth keyBins seed : UInt32) :
    keyPrefix ⟨murmurFold, keyDepth, keyBins⟩ (pre ++ a) =
        keyPrefix ⟨murmurFold, keyDepth, keyBins⟩ (pre ++ b) ∧
      hashStr murmurFold (pre ++ a) seed = hashStr murmurFold (pre ++ b) seed := by
  have hsame : (pre ++ a).length = (pre ++ b).length := by
    rw [List.length_append, List.length_append, hlen]
  have hlonga : 128 ≤ (pre ++ a).length := by
    rw [List.length_append]; omega
  have hseen : seenBytes (bytesOf (pre ++ a)) = seenBytes (bytesOf (pre ++ b)) := by
    rw [bytesOf_append, bytesOf_append]
    refine seenBytes_append ?_ ?_ ?_ ?_
    · simpa using hlen
    · simpa using hshort
    · simpa using h1
    · simpa using h9
  have hfold : ∀ seed, murmurFold (pre ++ a) seed = murmurFold (pre ++ b) seed := by
    intro seed
    rw [murmurFold, murmurFold, murmurHash3_of_seen (by simpa using hsame) hseen]
  constructor
  · rw [keyPrefix, keyPrefix, strLong_of_long hlonga,
      strLong_of_long (hsame ▸ hlonga),
      @keyBinsFrom_congr ⟨murmurFold, keyDepth, keyBins⟩ _ _ hfold]
  · rw [hashStr, hashStr, strLong_of_long hlonga,
      strLong_of_long (hsame ▸ hlonga), hsame, hfold]

/-- Numbered files in one directory. -/
theorem numbered_share_bins :
    keyPrefix ⟨murmurFold, 3, 1024⟩ (List.replicate 128 'd' ++ "0001".toList) =
        keyPrefix ⟨murmurFold, 3, 1024⟩
          (List.replicate 128 'd' ++ "0002".toList) ∧
      hashStr murmurFold (List.replicate 128 'd' ++ "0001".toList) 57 =
        hashStr murmurFold (List.replicate 128 'd' ++ "0002".toList) 57 :=
  @names_share_bins (List.replicate 128 'd') "0001".toList "0002".toList
    (by simp) (by decide) (by simp) (by simp) (by simp) 3 1024 57

end Dyad
