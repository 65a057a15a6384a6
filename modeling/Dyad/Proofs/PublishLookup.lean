import Dyad.Client.Kvs

/-!
# What a lookup finds

While no commit fails behind its future and every key fits its buffer, the KVS
binds the key of a path to the rank of the last producer that was told its
publication had gone through, and to nothing where there is none. The step
that keeps this is the update of one key: a publication that returned
`DYAD_RC_OK` has bound its own key, and no path that fits shares it.
-/

namespace Dyad

open Conc Kvs

variable {cfg : KeyConfig} {s s' : Published}

/-- The key of a path is bound as the history has it. -/
def Bound (cfg : KeyConfig) (s : Published) : Prop :=
  ∀ p r key, KeyFits cfg p pathMax → genPathKey cfg p pathMax = some (r, key) →
    s.kvs key = (s.lastProducer p).map packRank

/-- The publications whose commit does not fail behind its future and whose
key fits. -/
def soundPublication (cfg : KeyConfig) (_ : Published) (p : Publication) :
    Prop :=
  p.choice.commit ≠ .failed ∧ ∀ upath, p.upath = some upath →
    KeyFits cfg upath pathMax

/-- What a publication that is not lost does: nothing, and it does not return
`DYAD_RC_OK` for a managed file, or it binds the key. -/
theorem dyadProduce_cases {ctx : KvsCtx} {kvs kvs' : Kvs}
    {o : Option CString} {x : PublishChoice} {rc : Rc}
    (hx : x.commit ≠ .failed)
    (h : dyadProduce cfg ctx kvs o x = some (kvs', rc)) :
    (kvs' = kvs ∧ (rc = .ok → o = none)) ∨
      ∃ upath r key, o = some upath ∧ rc = .ok ∧
        genPathKey cfg upath pathMax = some (r, key) ∧
        kvs' = Function.update kvs key (some (packRank ctx.rank)) := by
  rw [dyadProduce] at h
  split at h
  · obtain ⟨rfl, rfl⟩ := Prod.mk.inj (Option.some.inj h)
    exact Or.inl ⟨rfl, fun h => absurd h (by decide)⟩
  split at h
  · obtain ⟨rfl, rfl⟩ := Prod.mk.inj (Option.some.inj h)
    exact Or.inl ⟨rfl, fun h => absurd h (by decide)⟩
  cases o with
  | none =>
    obtain ⟨rfl, rfl⟩ := Prod.mk.inj (Option.some.inj h)
    exact Or.inl ⟨rfl, fun _ => rfl⟩
  | some upath =>
    rw [dyadCommit, publishViaFlux, Option.map_eq_some_iff] at h
    obtain ⟨⟨r, key⟩, hkey, h⟩ := h
    simp only at h
    split at h
    · obtain ⟨rfl, rfl⟩ := Prod.mk.inj h
      exact Or.inl ⟨rfl, fun h => absurd h (by decide)⟩
    split at h
    · obtain ⟨rfl, rfl⟩ := Prod.mk.inj h
      exact Or.inl ⟨rfl, fun h => absurd h (by decide)⟩
    cases hc : x.commit with
    | refused =>
      rw [hc, dyadKvsCommit] at h
      obtain ⟨rfl, rfl⟩ := Prod.mk.inj h
      exact Or.inl ⟨rfl, fun h => absurd h (by simp)⟩
    | failed => exact absurd hc hx
    | applied =>
      rw [hc, dyadKvsCommit] at h
      obtain ⟨rfl, rfl⟩ := Prod.mk.inj h
      exact Or.inr ⟨upath, r, key, rfl, rfl, hkey, rfl⟩

theorem lastProducer_cons (kvs : Kvs) (p q : CString) (rank : UInt32)
    (okay : List (CString × UInt32)) :
    (Published.mk kvs ((q, rank) :: okay)).lastProducer p =
      if p = q then some rank else (Published.mk kvs okay).lastProducer p := by
  rw [Published.lastProducer, List.find?_cons]
  by_cases hp : p = q
  · subst hp
    simp
  · rw [if_neg hp, Published.lastProducer]
    simp [Ne.symm hp]

theorem Bound.step {p : Publication} (hb : Bound cfg s)
    (hok : soundPublication cfg s p)
    (hs : (publications cfg).next s p = some s') : Bound cfg s' := by
  obtain ⟨⟨kvs', rc⟩, hp, rfl⟩ := Option.map_eq_some_iff.1 hs
  rcases dyadProduce_cases hok.1 hp with
    ⟨rfl, hnone⟩ | ⟨upath, r, key, hup, rfl, hkey, rfl⟩
  · have hsame : p.okay rc = [] := by
      rw [Publication.okay]
      split
      · next upath hup =>
        refine if_neg fun hrc => ?_
        exact absurd (hnone hrc) (by rw [hup]; simp)
      · rfl
    simp only [hsame, List.nil_append]
    exact hb
  · have hnew : p.okay .ok = [(upath, p.ctx.rank)] := by
      rw [Publication.okay, hup]
      rfl
    intro q r' key' hq hkey'
    simp only [hnew, List.singleton_append, lastProducer_cons]
    by_cases hqu : q = upath
    · subst hqu
      obtain ⟨-, rfl⟩ := Prod.mk.inj (Option.some.inj (hkey.symm.trans hkey'))
      rw [if_pos rfl, Function.update_self]
      rfl
    · have hne : key' ≠ key := fun he =>
        hqu (genPathKey_inj hq (hok.2 upath hup) (he ▸ hkey') hkey)
      rw [if_neg hqu, Function.update_of_ne hne]
      exact hb q r' key' hq hkey'

theorem dyadKvsRead_ok {kvs : Kvs} {topic upath : CString} {wait : Bool}
    {old : Option (Option Metadata)} {x : LookupChoice} {m : Option Metadata}
    (h : dyadKvsRead kvs topic upath wait old x = some (.ok, m)) :
    ∃ v, kvs topic = some v ∧ m = some ⟨upath, unpackRank v⟩ := by
  cases old with
  | none => exact absurd h (by simp [dyadKvsRead])
  | some old =>
    rw [dyadKvsRead] at h
    split at h
    · exact absurd h (by simp)
    split at h
    · exact absurd h (by simp)
    split at h
    · exact absurd h (by simp)
    split at h
    · exact absurd h (by simp)
    split at h
    · next v hv =>
      exact ⟨v, hv, (Prod.mk.inj (Option.some.inj h)).2.symm⟩
    · split at h <;> exact absurd h (by simp)

theorem Bound.read (hb : Bound cfg s) {p : CString} {r : Int} {key : CString}
    {wait : Bool} {old : Option (Option Metadata)} {x : LookupChoice}
    {m : Option Metadata} (hp : KeyFits cfg p pathMax)
    (hkey : genPathKey cfg p pathMax = some (r, key))
    (h : dyadKvsRead s.kvs key p wait old x = some (.ok, m)) :
    ∃ rank, s.lastProducer p = some rank ∧ m = some ⟨p, rank⟩ := by
  obtain ⟨v, hv, rfl⟩ := dyadKvsRead_ok h
  rw [hb p r key hp hkey, Option.map_eq_some_iff] at hv
  obtain ⟨rank, hrank, rfl⟩ := hv
  exact ⟨rank, hrank, by rw [unpackRank_packRank]⟩

end Dyad
