import Nerthus.Lib.Table

/-!
# Ledgers

A table with one entry for each key, and the sum of what its entries are worth. Sums
over two ledgers are compared key by key over any set that has the keys of both.
-/

namespace Nerthus.Lib

open List

universe u v

structure Ledger (κ : Type u) (ν : Type v) where
  entries : Table κ ν
  nodup : (entries.map Prod.fst).Nodup

namespace Ledger

variable {κ : Type u} {ν : Type v} [DecidableEq κ] (f : κ → ν → Nat) (l : Ledger κ ν)

def keys : Finset κ := (l.entries.map Prod.fst).toFinset

def get? (k : κ) : Option ν := l.entries.get k

def put (k : κ) (v : ν) : Ledger κ ν where
  entries := l.entries.put k v
  nodup := by
    rw [Table.put, List.map_cons, List.nodup_cons]
    constructor
    · simp
    · exact l.nodup.sublist (List.Sublist.map _ List.filter_sublist)

def update (f : κ → ν → ν) : Ledger κ ν where
  entries := l.entries.map fun e => (e.1, f e.1 e.2)
  nodup := by
    have hkeys : (l.entries.map fun e => (e.1, f e.1 e.2)).map Prod.fst =
        l.entries.map Prod.fst := by
      rw [List.map_map]
      rfl
    rw [hkeys]
    exact l.nodup

@[simp] theorem get?_put_self (k : κ) (v : ν) : (l.put k v).get? k = some v :=
  Table.get_put_self _ _ _

@[simp] theorem get?_put_of_ne {k k' : κ} (h : k' ≠ k) (v : ν) :
    (l.put k v).get? k' = l.get? k' :=
  Table.get_put_of_ne _ h _

@[simp] theorem get?_update (f : κ → ν → ν) (k : κ) :
    (l.update f).get? k = (l.get? k).map (f k) := by
  have hentries : ∀ t : Table κ ν, Table.get (t.map fun e => (e.1, f e.1 e.2)) k =
      (t.get k).map (f k) := by
    intro t
    induction t with
    | nil => rfl
    | cons e t ih =>
      by_cases h : e.1 = k
      · simp [Table.get, h]
      · simpa [Table.get, h] using ih
  exact hentries l.entries

theorem mem_keys {l : Ledger κ ν} {k : κ} : k ∈ l.keys ↔ ∃ v, (k, v) ∈ l.entries := by
  simp [keys]

theorem get?_eq_some {l : Ledger κ ν} {k : κ} {v : ν} : l.get? k = some v ↔ (k, v) ∈ l.entries := by
  have hentries : ∀ t : Table κ ν, (t.map Prod.fst).Nodup →
      (t.get k = some v ↔ (k, v) ∈ t) := by
    intro t
    induction t with
    | nil => simp
    | cons e t ih =>
      intro hnodup
      rw [map_cons, nodup_cons] at hnodup
      by_cases h : e.1 = k
      · have hnot : (k, v) ∉ t := fun hmem => hnodup.1 (h ▸ mem_map_of_mem hmem)
        subst h
        simp [Table.get, hnot, Prod.ext_iff, eq_comm]
      · have hne : (k, v) ≠ e := fun heq => h (heq ▸ rfl)
        have hget : Table.get (e :: t) k = Table.get t k := by simp [Table.get, h]
        rw [hget, mem_cons, ih hnodup.2]
        simp [hne]
  exact hentries l.entries l.nodup

theorem get?_eq_none {l : Ledger κ ν} {k : κ} (h : k ∉ l.keys) : l.get? k = none := by
  cases hget : l.get? k with
  | none => rfl
  | some v => exact absurd (mem_keys.mpr ⟨v, get?_eq_some.mp hget⟩) h

theorem update_eq_self {l : Ledger κ ν} {f : κ → ν → ν}
    (h : ∀ k v, l.get? k = some v → f k v = v) : l.update f = l := by
  obtain ⟨entries, nodup⟩ := l
  have hentry : ∀ e ∈ entries, (e.1, f e.1 e.2) = e := by
    intro e he
    rw [h e.1 e.2 (get?_eq_some.mpr he)]
  have hentries : (entries.map fun e => (e.1, f e.1 e.2)) = entries :=
    (map_congr_left hentry).trans (map_id' _)
  simp only [update, hentries]

def worth : Nat := (l.entries.map fun e => f e.1 e.2).sum

def share (k : κ) : Nat := (l.get? k).elim 0 (f k)

theorem worth_eq_sum {S : Finset κ} (hS : l.keys ⊆ S) :
    l.worth f = ∑ k ∈ S, l.share f k := by
  have hshare : ∀ e ∈ l.entries, f e.1 e.2 = l.share f e.1 := by
    intro e he
    rw [share, get?_eq_some.mpr he]
    rfl
  calc l.worth f = (l.entries.map fun e => l.share f e.1).sum := by
        rw [worth, map_congr_left hshare]
    _ = ((l.entries.map Prod.fst).map fun k => l.share f k).sum := by rw [map_map]; rfl
    _ = ∑ k ∈ l.keys, l.share f k := (sum_toFinset _ l.nodup).symm
    _ = ∑ k ∈ S, l.share f k := by
        refine Finset.sum_subset hS fun k _ hk => ?_
        rw [share, get?_eq_none hk]
        rfl

@[simp] theorem share_put_self (k : κ) (v : ν) :
    (l.put k v).share f k = f k v := by
  rw [share, get?_put_self]
  rfl

@[simp] theorem share_put_of_ne {k k' : κ} (h : k' ≠ k)
    (v : ν) : (l.put k v).share f k' = l.share f k' := by
  rw [share, get?_put_of_ne l h, share]

theorem worth_le_worth {f g : κ → ν → Nat} {l m : Ledger κ ν}
    (h : ∀ k, l.share f k ≤ m.share g k) : l.worth f ≤ m.worth g := by
  have hl : l.keys ⊆ l.keys ∪ m.keys := Finset.subset_union_left
  have hm : m.keys ⊆ l.keys ∪ m.keys := Finset.subset_union_right
  rw [worth_eq_sum f l hl, worth_eq_sum g m hm]
  exact Finset.sum_le_sum fun k _ => h k

theorem worth_put (k : κ) (v : ν) :
    (l.put k v).worth f + l.share f k = l.worth f + f k v := by
  have hsub : l.keys ⊆ insert k l.keys := Finset.subset_insert _ _
  have hsub' : (l.put k v).keys ⊆ insert k l.keys := by
    intro x hx
    obtain ⟨w, hw⟩ := mem_keys.mp hx
    by_cases h : x = k
    · exact h ▸ Finset.mem_insert_self _ _
    · rw [← get?_eq_some, get?_put_of_ne l h] at hw
      exact Finset.mem_insert_of_mem (mem_keys.mpr ⟨w, get?_eq_some.mp hw⟩)
  rw [worth_eq_sum f _ hsub', worth_eq_sum f _ hsub,
    ← Finset.add_sum_erase _ _ (Finset.mem_insert_self k l.keys),
    ← Finset.add_sum_erase _ (fun x => l.share f x) (Finset.mem_insert_self k l.keys),
    share_put_self]
  have hrest : ∑ x ∈ (insert k l.keys).erase k, (l.put k v).share f x =
      ∑ x ∈ (insert k l.keys).erase k, l.share f x :=
    Finset.sum_congr rfl fun x hx => share_put_of_ne f l (Finset.ne_of_mem_erase hx) v
  rw [hrest]
  omega

theorem worth_add (f g : κ → ν → Nat) (l : Ledger κ ν) :
    l.worth (fun k v => f k v + g k v) = l.worth f + l.worth g := by
  rw [worth, worth, worth, sum_map_add]

theorem sum_gain_le {f : κ → ν → Nat} {l m : Ledger κ ν} {S : Finset κ} (hl : l.keys ⊆ S)
    (hm : m.keys ⊆ S) {gain : κ → Nat} {c : κ} {v : Nat}
    (h : ∀ k, gain k + l.share f k ≤ m.share f k + if k = c then v else 0) :
    ∑ k ∈ S, gain k + l.worth f ≤ m.worth f + v := by
  have hgiven : ∑ k ∈ S, (if k = c then v else 0) ≤ v := by
    rw [Finset.sum_ite_eq']
    split
    · exact Nat.le_refl _
    · exact Nat.zero_le _
  calc ∑ k ∈ S, gain k + l.worth f = ∑ k ∈ S, (gain k + l.share f k) := by
        rw [worth_eq_sum f l hl, Finset.sum_add_distrib]
    _ ≤ ∑ k ∈ S, (m.share f k + if k = c then v else 0) := Finset.sum_le_sum fun k _ => h k
    _ ≤ m.worth f + v := by
        rw [worth_eq_sum f m hm, Finset.sum_add_distrib]
        exact Nat.add_le_add_left hgiven _

end Ledger

theorem sum_map_le_sum {κ : Type u} {γ : Type v} [DecidableEq κ] {l : List γ} {key : γ → κ}
    {S : Finset κ} {f : γ → Nat} {g : κ → Nat} (hnodup : (l.map key).Nodup)
    (hS : ∀ c ∈ l, key c ∈ S) (h : ∀ c ∈ l, f c ≤ g (key c)) : (l.map f).sum ≤ ∑ k ∈ S, g k := by
  calc (l.map f).sum ≤ (l.map fun c => g (key c)).sum := sum_le_sum h
    _ = ((l.map key).map g).sum := by rw [map_map]; rfl
    _ = ∑ k ∈ (l.map key).toFinset, g k := (sum_toFinset g hnodup).symm
    _ ≤ ∑ k ∈ S, g k := by
        refine Finset.sum_le_sum_of_subset fun k hk => ?_
        obtain ⟨c, hc, rfl⟩ := mem_map.mp (mem_toFinset.mp hk)
        exact hS c hc

end Nerthus.Lib
