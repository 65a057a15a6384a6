import Dyad.Dtl.UcxWire

/-!
# What survives the trip of a UCX request

The path and the process id arrive as they were sent. Of the others, each
survives for some values only. A byte string comes back in a buffer whose
length is three for each group of four characters, so it is the string when
its own length is a multiple of three, and longer otherwise. The text of the
buffer's address is read as a signed number, so the upper half of the
addresses all come back as the largest of those.
-/

namespace Dyad

/-! ## Byte strings -/

theorem Base64.length_encode (src : List Byte) :
    (Base64.encode src).length = (src.length + 2) / 3 * 4 := by
  induction src using Base64.encode.induct with
  | case1 a b c rest ih =>
    rw [Base64.encode, List.length_append, ih]
    simp only [Base64.encodeTriplet, List.length_cons, List.length_nil]
    omega
  | case2 a b => simp [Base64.encode, Base64.encodeTriplet]
  | case3 a => simp [Base64.encode, Base64.encodeTriplet]
  | case4 => rfl

/-- A byte string comes back with zeros after it, up to a multiple of three. -/
theorem decodedBuffer_encode (src : List Byte) :
    decodedBuffer (Base64.encode src) =
      some (src ++ List.replicate ((src.length + 2) / 3 * 3 - src.length) 0) := by
  unfold decodedBuffer
  rw [Base64.decode_encode, Option.map_some, Base64.decodedLength,
    Base64.length_encode]
  have hlen : ((src.length + 2) / 3 * 4 + 3) / 4 = (src.length + 2) / 3 := by
    omega
  rw [hlen]

theorem decodedBuffer_encode_iff (src : List Byte) :
    decodedBuffer (Base64.encode src) = some src ↔ src.length % 3 = 0 := by
  rw [decodedBuffer_encode, Option.some_inj]
  constructor
  · intro heq
    have hlen := congrArg List.length heq
    rw [List.length_append, List.length_replicate] at hlen
    omega
  · intro hmod
    have hzero : (src.length + 2) / 3 * 3 - src.length = 0 := by omega
    rw [hzero]
    exact List.append_nil src

/-! ## The address of the buffer -/

theorem takeWhile_isDigit_toDigits (n : Nat) :
    (Nat.toDigits 10 n).takeWhile Char.isDigit = Nat.toDigits 10 n := by
  refine List.takeWhile_eq_self_iff.2 fun c hc => ?_
  exact Nat.isDigit_of_mem_toDigits (by decide) (by decide) hc

/-- A digit is no whitespace. -/
theorem isSpace_of_isDigit {c : Char} (h : c.isDigit = true) :
    isSpace c = false := by
  have hlo : 48 ≤ c.toNat := by
    simp only [Char.isDigit, Bool.and_eq_true, decide_eq_true_eq] at h
    exact h.1
  have hne : c ≠ ' ' := by
    rintro rfl
    exact absurd hlo (by decide)
  simp only [isSpace, Bool.or_eq_false_iff, decide_eq_false_iff_not,
    Bool.and_eq_false_iff]
  exact ⟨hne, Or.inr (by omega)⟩

/-- A number in decimal is read up to the largest that is signed. -/
theorem atoll_toDigits (n : Nat) :
    atoll (Nat.toDigits 10 n) = min (2 ^ 63 - 1) (n : Int) := by
  have hdigit : ∀ c ∈ Nat.toDigits 10 n, c.isDigit = true := fun c hc =>
    Nat.isDigit_of_mem_toDigits (by decide) (by decide) hc
  obtain ⟨c, cs, hcs⟩ := List.exists_cons_of_ne_nil
    (Nat.toDigits_ne_nil (n := n) (b := 10))
  have hc : c.isDigit = true := hdigit c (by simp [hcs])
  have hspace : isSpace c = false := isSpace_of_isDigit hc
  have hdrop : (Nat.toDigits 10 n).dropWhile isSpace = Nat.toDigits 10 n := by
    rw [hcs, List.dropWhile_cons_of_neg (by simp [hspace])]
  unfold atoll
  rw [hdrop]
  dsimp only
  split
  · next s hs =>
    rw [hs] at hdigit
    exact absurd (hdigit '-' (by simp)) (by decide)
  · next s hs =>
    rw [hs] at hdigit
    exact absurd (hdigit '+' (by simp)) (by decide)
  · rw [takeWhile_isDigit_toDigits, Nat.ofDigitChars_ten_toDigits]

/-- The lower half of the addresses is read as it was printed, the upper half
is not. -/
theorem atoll_address (x : BitVec 64) :
    BitVec.ofInt 64 (atoll (Nat.toDigits 10 x.toNat)) = x ↔
      x.toNat < 2 ^ 63 := by
  rw [atoll_toDigits]
  rcases Nat.lt_or_ge x.toNat (2 ^ 63) with hlt | hge
  · rw [Int.min_eq_right (by omega)]
    refine iff_of_true ?_ hlt
    rw [BitVec.ofInt_natCast, BitVec.ofNat_toNat, BitVec.setWidth_eq]
  · rw [Int.min_eq_left (by omega)]
    refine iff_of_false (fun heq => ?_) (Nat.not_lt.2 hge)
    rw [← heq] at hge
    exact absurd hge (by decide)

/-! ## The request -/

/-- The process id is the upper half of the key. -/
theorem key_shift (req : UcxRequest) :
    req.key >>> 32 = req.pidCons.setWidth 64 := by
  have hpid := req.pidCons.isLt
  rw [UcxRequest.key, show (0 : BitVec 64) = 0#64 from rfl, BitVec.or_zero]
  refine BitVec.eq_of_toNat_eq ?_
  rw [BitVec.toNat_ushiftRight, BitVec.toNat_shiftLeft, BitVec.toNat_setWidth,
    Nat.shiftLeft_eq, Nat.shiftRight_eq_div_pow, Nat.mod_eq_of_lt (by omega),
    Nat.mod_eq_of_lt (by omega)]
  omega

theorem ucxDecode_ok {h : UcxHandle} {msg : UcxRequest} {address rkey : List Byte}
    (ha : msg.address = some address) (hr : decodedBuffer msg.rkey = some rkey) :
    ucxDecode h msg .ok =
      ({ h with remoteAddress := some address, rkeyBuf := some rkey }, .ok ()) := by
  rw [ucxDecode, if_neg (by decide), ha]
  dsimp only
  rw [if_neg (by decide), hr]

/-- What the service's handle holds once it has unpacked what was packed. -/
theorem unpack_packed (s : UcxSender) (hc hs : UcxHandle)
    (producerRank : BitVec 32) :
    ∃ msg h, dyadDtlUcxRpcPackMessage (s.handle hc) s.pid s.upath producerRank
        true = .ok msg ∧
      dyadDtlUcxRpcUnpackMessage hs msg .ok = some (h, .ok s.upath) ∧
      h.remoteAddress = decodedBuffer (Base64.encode s.address) ∧
      h.rkeyBuf = decodedBuffer (Base64.encode s.rkey) ∧
      h.consBufPtr =
        BitVec.ofInt 64 (atoll (Nat.toDigits 10 s.consBuf.toNat)) ∧
      h.consumerConnKey >>> 32 = s.pid.setWidth 64 := by
  obtain ⟨address, haddr⟩ :
      ∃ a, decodedBuffer (Base64.encode s.address) = some a :=
    ⟨_, decodedBuffer_encode _⟩
  obtain ⟨rkey, hrkey⟩ : ∃ k, decodedBuffer (Base64.encode s.rkey) = some k :=
    ⟨_, decodedBuffer_encode _⟩
  let req : UcxRequest := {
    upath := s.upath
    tagProd := producerRank
    consBuf := s.consBuf
    pidCons := s.pid
    addr := Base64.encode s.address
    rkey := Base64.encode s.rkey }
  let taken : UcxHandle := { hs with
    consBufPtr := req.pack.read.consBuf
    commTag := req.pack.read.tagProd.setWidth 64 <<< 32 ||| 0
    consumerConnKey := req.pack.read.key }
  have hdecode : ucxDecode taken req.pack.read .ok =
      ({ taken with remoteAddress := some address, rkeyBuf := some rkey },
        .ok ()) := ucxDecode_ok haddr hrkey
  refine ⟨req.pack,
    { taken with remoteAddress := some address, rkeyBuf := some rkey }, rfl, ?_,
    haddr.symm, hrkey.symm, rfl, key_shift req.pack.read⟩
  show (some (ucxDecode taken req.pack.read .ok)).map _ = _
  rw [hdecode]
  rfl

/-- What a request carries survives if and only if the address and the key are
of a length that is a multiple of three and the buffer lies in the lower half
of the addresses. -/
theorem round_trips_iff (s : UcxSender) (hc hs : UcxHandle)
    (producerRank : BitVec 32) :
    s.RoundTrips hc hs producerRank ↔
      s.address.length % 3 = 0 ∧ s.rkey.length % 3 = 0 ∧
        s.consBuf.toNat < 2 ^ 63 := by
  obtain ⟨msg, h, hpack, hunpack, haddr, hrkey, hbuf, hkey⟩ :=
    unpack_packed s hc hs producerRank
  have hrec : s.RoundTrips hc hs producerRank ↔ s.RecoveredIn h := by
    constructor
    · rintro ⟨msg', h', hpack', hunpack', hrec⟩
      obtain rfl := Except.ok.inj (hpack.symm.trans hpack')
      obtain ⟨rfl, -⟩ :=
        Prod.mk.inj (Option.some.inj (hunpack.symm.trans hunpack'))
      exact hrec
    · intro hrec
      exact ⟨msg, h, hpack, hunpack, hrec⟩
  rw [hrec, UcxSender.RecoveredIn, haddr, hrkey, hbuf, hkey,
    decodedBuffer_encode_iff, decodedBuffer_encode_iff, atoll_address]
  simp

/-- A handle as it is set up. -/
def UcxHandle.idle (commMode : CommMode) : UcxHandle where
  commMode := commMode
  maxTransferSize := 0
  localAddress := none
  remoteAddress := none
  ep := none
  commTag := 0
  epCache _ := none
  consumerConnKey := 0
  rkeyBuf := none
  consBufPtr := 0
  netBuf := true

/-- A worker address of one byte comes back as one of three. -/
theorem one_byte_address :
    ¬ UcxSender.RoundTrips ⟨[], [0x2a], [], 0, 1⟩ (.idle .recv) (.idle .send) 0 := by
  rintro ⟨msg, h, hpack, hunpack, haddr, -⟩
  obtain rfl := Except.ok.inj hpack
  have hlen : h.remoteAddress = some [0x2a, 0, 0] := by
    obtain ⟨rfl, -⟩ := Prod.mk.inj (Option.some.inj hunpack)
    decide +kernel
  rw [hlen] at haddr
  exact absurd haddr (by decide)

end Dyad
