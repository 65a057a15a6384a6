import Dyad.Dtl.Margo

/-!
# Who owns an address handle of the Margo DTL

The address cache does: until the end, what is live is the process's own
address and what is in the cache, each once. `remote_addr` and the requests
that are detached only borrow from it, and no call frees anything but a handle
it has just obtained and could not put into the cache. `Owns` says so, every
call keeps it, and the handles that are sent to are live by it.

`dyad_dtl_margo_finalize` frees the process's own address and the cache, which
is all there is. Before the cache it also frees `remote_addr` where that is
set, and a handle it is set to is in the cache too.
-/

namespace Dyad.Margo

open Conc

variable {m : Margo} {addrStr : CString} {a : HgAddr}

/-- The handles the cache holds. -/
def cached (m : Margo) : List HgAddr := m.addrCache.map (·.addr)

/-- The cache and the process's own address are what is live, and whatever
else names a handle names one in the cache. -/
structure Owns (m : Margo) : Prop where
  proper : HandleEvent.Proper m.events
  fresh : ∀ a, .obtained a ∈ m.events → a < m.next
  live : ∀ a, HandleEvent.Live m.events a ↔ a ∈ m.localAddr :: m.cached
  nodup : (m.localAddr :: m.cached).Nodup
  borrowed : ∀ a, m.remoteAddr = some a → a ∈ m.cached
  lent : ∀ a, some a ∈ m.detached → a ∈ m.cached
  cacheOk : m.CacheOk

theorem init_owns : Owns init where
  proper := ⟨by simp, trivial⟩
  fresh a h := by
    obtain rfl : a = 0 := by simpa [init] using h
    exact Nat.one_pos
  live a := by
    show a = 0 ∨ False ↔ a ∈ [0]
    simp
  nodup := by simp [init, cached]
  borrowed a h := nomatch h
  lent a h := absurd h (by simp [init])
  cacheOk := ⟨List.nodup_nil, Nat.le_refl 0⟩

/-! ## The library's side -/

theorem Owns.next_not_live (h : m.Owns) : m.next ∉ m.localAddr :: m.cached := by
  intro hmem
  exact Nat.lt_irrefl _ (h.fresh _ ((h.live _).2 hmem).obtained)

/-- A handle that is given out is a new one. -/
theorem Owns.obtain_proper (h : m.Owns) : HandleEvent.Proper m.obtain.events :=
  ⟨fun hmem => Nat.lt_irrefl _ (h.fresh _ hmem), h.proper⟩

theorem Owns.obtain_fresh (h : m.Owns) (hmem : .obtained a ∈ m.obtain.events) :
    a < m.next + 1 := by
  rcases List.mem_cons.1 hmem with heq | hmem
  · obtain rfl := HandleEvent.obtained.inj heq
    exact Nat.lt_succ_self _
  · exact Nat.lt_succ_of_lt (h.fresh a hmem)

/-- Passing a handle of the cache to the library, or none. -/
theorem Owns.use (h : m.Owns) {o : Option HgAddr}
    (ho : ∀ a, o = some a → a ∈ m.cached) : (m.use o).Owns := by
  cases o with
  | none => exact h
  | some a =>
    have ha : HandleEvent.Live m.events a :=
      (h.live a).2 (List.mem_cons_of_mem _ (ho a rfl))
    exact {
      proper := ⟨ha, h.proper⟩
      fresh := fun b hb => h.fresh b (by simpa [Margo.use] using hb)
      live := h.live
      nodup := h.nodup
      borrowed := h.borrowed
      lent := h.lent
      cacheOk := h.cacheOk }

/-- A handle that is obtained and freed again leaves everything as it was. -/
theorem Owns.obtain_free (h : m.Owns) {cap : Nat} (hcap : m.addrCacheCap ≤ cap) :
    Owns { m.obtain.free m.next with addrCacheCap := cap } where
  proper := ⟨Or.inl rfl, h.obtain_proper⟩
  fresh b hb := h.obtain_fresh (by simpa [Margo.free] using hb)
  live b := by
    show b ≠ m.next ∧ (b = m.next ∨ HandleEvent.Live m.events b) ↔ _
    rw [h.live b]
    constructor
    · rintro ⟨hne, heq | hmem⟩
      · exact absurd heq hne
      · exact hmem
    · intro hmem
      exact ⟨fun heq => h.next_not_live (heq ▸ hmem), Or.inr hmem⟩
  nodup := h.nodup
  borrowed := h.borrowed
  lent := h.lent
  cacheOk := ⟨h.cacheOk.1, Nat.le_trans h.cacheOk.2 hcap⟩

/-- There is room for one more. -/
theorem lt_grown (h : m.addrCache.length ≤ m.addrCacheCap) :
    m.addrCache.length < m.grown := by
  unfold grown
  split
  · split <;> omega
  · omega

theorem le_grown : m.addrCacheCap ≤ m.grown := by
  unfold grown
  split
  · split <;> omega
  · exact Nat.le_refl _

/-- A handle that is obtained and put into the cache. -/
theorem Owns.add (h : m.Owns) (hnew : addrStr ∉ m.addrCache.map (·.addrStr)) :
    Owns { m.obtain with
      addrCacheCap := m.grown
      addrCache := m.addrCache ++ [⟨addrStr, m.next⟩] } where
  proper := h.obtain_proper
  fresh b hb := h.obtain_fresh hb
  live b := by
    show b = m.next ∨ HandleEvent.Live m.events b ↔ _
    rw [h.live b]
    simp only [cached, List.map_append, List.map_cons, List.map_nil,
      List.mem_cons, List.mem_append, List.not_mem_nil, or_false]
    exact or_comm.trans or_assoc
  nodup := by
    have hnext := h.next_not_live
    show (m.localAddr :: (m.addrCache ++ [_]).map _).Nodup
    rw [List.map_append, ← List.cons_append, List.nodup_append]
    refine ⟨h.nodup, by simp, fun x hx y hy heq => ?_⟩
    obtain rfl := List.mem_singleton.1 hy
    rw [heq] at hx
    exact hnext hx
  borrowed b hb := by
    show b ∈ (m.addrCache ++ [_]).map _
    rw [List.map_append]
    exact List.mem_append_left _ (h.borrowed b hb)
  lent b hb := by
    show b ∈ (m.addrCache ++ [_]).map _
    rw [List.map_append]
    exact List.mem_append_left _ (h.lent b hb)
  cacheOk := by
    refine ⟨?_, ?_⟩
    · show ((m.addrCache ++ [_]).map _).Nodup
      rw [List.map_append, List.nodup_append]
      refine ⟨h.cacheOk.1, by simp, fun x hx y hy heq => ?_⟩
      obtain rfl := List.mem_singleton.1 hy
      rw [heq] at hx
      exact hnew hx
    · show (m.addrCache ++ [_]).length ≤ m.grown
      have := lt_grown h.cacheOk.2
      rw [List.length_append]
      exact this

/-! ## The calls -/

/-- A lookup keeps what the cache owns, and what it finds is in the cache. -/
theorem Owns.lookup (h : m.Owns) (o : LookupAnswers) :
    (m.dyadDtlMargoAddrCacheLookup addrStr o).2.Owns ∧
      ∀ a, (m.dyadDtlMargoAddrCacheLookup addrStr o).1 = .ok a →
        a ∈ (m.dyadDtlMargoAddrCacheLookup addrStr o).2.cached := by
  unfold dyadDtlMargoAddrCacheLookup
  split
  · next e he =>
    refine ⟨h, fun a ha => ?_⟩
    obtain rfl := Except.ok.inj ha
    exact List.mem_map_of_mem (List.mem_of_find?_eq_some he)
  · next hnone =>
    split
    · dsimp only
      split
      · exact ⟨h.obtain_free (Nat.le_refl _), fun a ha => nomatch ha⟩
      · split
        · have hnew : addrStr ∉ m.addrCache.map (·.addrStr) := by
            intro hmem
            obtain ⟨e, he, heq⟩ := List.mem_map.1 hmem
            exact List.find?_eq_none.1 hnone e he (by simpa using heq)
          refine ⟨h.add hnew, fun a ha => ?_⟩
          obtain rfl := Except.ok.inj ha
          show m.next ∈ (m.addrCache ++ [_]).map _
          simp
        · exact ⟨h.obtain_free le_grown, fun a ha => nomatch ha⟩
    · exact ⟨h, fun a ha => nomatch ha⟩

theorem Owns.resolve (h : m.Owns) (o : LookupAnswers) :
    (m.resolve addrStr o).2.Owns := by
  have hl := @Owns.lookup m addrStr h o
  unfold Margo.resolve
  generalize m.dyadDtlMargoAddrCacheLookup addrStr o = x at hl ⊢
  obtain ⟨r, m'⟩ := x
  cases r with
  | error rc => exact hl.1
  | ok a =>
    exact { hl.1 with
      borrowed := fun b hb => by
        obtain rfl := Option.some.inj hb
        exact hl.2 a rfl }

theorem rpcUnpack_snd (msg : Option MargoRequest) (o : LookupAnswers) :
    (m.dyadDtlMargoRpcUnpack msg o).2 =
      (msg.map fun req => (m.resolve req.addr o).2).getD m := by
  cases msg with
  | none => rfl
  | some req =>
    simp only [dyadDtlMargoRpcUnpack, Option.map_some, Option.getD_some]
    split <;> next heq => rw [heq]

theorem rpcUnpackRange_snd (msg : Option MargoRangeRequest) (o : LookupAnswers) :
    (m.dyadDtlMargoRpcUnpackRange msg o).2 =
      (msg.map fun req => (m.resolve req.addr o).2).getD m := by
  cases msg with
  | none => rfl
  | some req =>
    simp only [dyadDtlMargoRpcUnpackRange, Option.map_some, Option.getD_some]
    split <;> next heq => rw [heq]

theorem Owns.sendTo (h : m.Owns) {remote : Option HgAddr}
    (hr : ∀ a, remote = some a → a ∈ m.cached) (o : MargoSendAnswers) :
    (m.dyadDtlMargoSendTo remote o).2.Owns := by
  unfold dyadDtlMargoSendTo
  split
  · dsimp only
    split
    · exact h.use hr
    · exact h.use hr
  · exact h

/-- A request that is no longer detached. -/
theorem Owns.erase (h : m.Owns) (i : Nat) :
    Owns { m with detached := m.detached.eraseIdx i } :=
  { h with lent := fun a ha => h.lent a (List.mem_of_mem_eraseIdx ha) }

theorem Owns.step (h : m.Owns) (op : Op) : (m.step op).Owns := by
  cases op with
  | rpcUnpack msg o =>
    rw [Margo.step, rpcUnpack_snd]
    cases msg with
    | none => exact h
    | some req => exact h.resolve o
  | rpcUnpackRange msg o =>
    rw [Margo.step, rpcUnpackRange_snd]
    cases msg with
    | none => exact h
    | some req => exact h.resolve o
  | addrCacheLookup addrStr o => exact (h.lookup o).1
  | send o => exact h.sendTo h.borrowed o
  | detachRequest alloc =>
    cases alloc with
    | false => exact h
    | true =>
      exact { h with
        borrowed := fun a ha => nomatch ha
        lent := fun a ha => by
          rcases List.mem_append.1 ha with ha | ha
          · exact h.lent a ha
          · exact h.borrowed a (List.mem_singleton.1 ha).symm }
  | sendDetached i o =>
    show Owns (((m.dyadDtlMargoSendDetached i o).map (·.2)).getD m)
    unfold dyadDtlMargoSendDetached
    cases hi : m.detached[i]? with
    | none => exact h
    | some remote =>
      have hr : ∀ a, remote = some a → a ∈ m.cached := by
        rintro a rfl
        exact h.lent a (List.mem_of_getElem? hi)
      have hsend := (h.sendTo hr o).erase i
      exact hsend
  | abortDetached i =>
    show Owns (((m.dyadDtlMargoAbortDetached i).map (·.2)).getD m)
    unfold dyadDtlMargoAbortDetached
    cases m.detached[i]? with
    | none => exact h
    | some remote => exact h.erase i

theorem Owns.foldl (h : m.Owns) (ops : List Op) : (ops.foldl Margo.step m).Owns := by
  induction ops generalizing m with
  | nil => exact h
  | cons op ops ih => exact ih (h.step op)

theorem run_owns (ops : List Op) : (run ops).Owns := init_owns.foldl ops

/-! ## The end -/

theorem foldl_free (l : List MargoAddrCacheEntry) (m : Margo) :
    (l.foldl (fun m e => m.free e.addr) m).events =
      ((l.map (·.addr)).map HandleEvent.freed).reverse ++ m.events := by
  induction l generalizing m with
  | nil => rfl
  | cons e l ih =>
    rw [List.foldl_cons, ih]
    simp [Margo.free]

/-- What the end frees: the process's own address, what is borrowed, and the
cache. -/
theorem finalize_eq (m : Margo) :
    m.dyadDtlMargoFinalize =
      (m.cached.map HandleEvent.freed).reverse ++
        ((m.remoteAddr.map HandleEvent.freed).toList ++
          .freed m.localAddr :: m.events) := by
  obtain ⟨localAddr, remoteAddr, addrCache, cap, detached, next, events⟩ := m
  cases remoteAddr with
  | none => exact foldl_free addrCache _
  | some a => exact foldl_free addrCache _

/-- With nothing borrowed, the end frees what there is. -/
theorem Owns.finalize (h : m.Owns) (hr : m.remoteAddr = none) :
    HandleEvent.Released m.dyadDtlMargoFinalize := by
  have hevents : m.dyadDtlMargoFinalize =
      ((m.localAddr :: m.cached).map HandleEvent.freed).reverse ++ m.events := by
    rw [finalize_eq, hr, List.map_cons, List.reverse_cons, List.append_assoc]
    rfl
  obtain ⟨hproper, hlive⟩ := h.proper.free_all h.nodup
    fun x hx => (h.live x).2 hx
  rw [hevents]
  refine hproper.released fun x hx => ?_
  obtain ⟨hx, hnot⟩ := (hlive x).1 hx
  exact hnot ((h.live x).1 hx)

/-- What is borrowed at the end is freed twice. -/
theorem Owns.freed_twice (h : m.Owns) (hr : m.remoteAddr = some a) :
    ¬ HandleEvent.Released m.dyadDtlMargoFinalize := by
  have ha : a ∈ m.cached := h.borrowed a hr
  have hevents : m.dyadDtlMargoFinalize =
      (m.cached.map HandleEvent.freed).reverse ++
        (.freed a :: .freed m.localAddr :: m.events) := by
    rw [finalize_eq, hr]
    rfl
  have hobtained : .obtained a ∈ m.events :=
    ((h.live a).2 (List.mem_cons_of_mem _ ha)).obtained
  rw [hevents]
  intro hrel
  have hone := hrel.once a (by simp [hobtained])
  have hcache : 0 < ((m.cached.map HandleEvent.freed).reverse).count (.freed a) := by
    rw [List.count_pos_iff, List.mem_reverse]
    exact List.mem_map_of_mem ha
  rw [List.count_append, List.count_cons_self] at hone
  omega

/-- The handles are owned throughout a sequence of calls and freed as they
should be at its end if and only if it leaves `remote_addr` null. -/
theorem owned_iff (ops : List Op) : Owned ops ↔ (run ops).remoteAddr = none := by
  have h := run_owns ops
  constructor
  · rintro ⟨-, hrel⟩
    cases hr : (run ops).remoteAddr with
    | none => rfl
    | some a => exact absurd hrel (h.freed_twice hr)
  · intro hr
    exact ⟨fun before _ => (run_owns before).cacheOk, h.finalize hr⟩

/-- One request for a whole file, sent and not detached: the address of its
consumer is freed twice. -/
theorem freed_twice_after_send :
    ¬ Owned [.rpcUnpack (some ⟨['f'], ['a']⟩) ⟨true, true, true⟩,
      .send ⟨true, true, true, true⟩] := by
  rintro ⟨-, hrel⟩
  have := hrel.once 1 (by decide)
  exact absurd this (by decide)

end Dyad.Margo
