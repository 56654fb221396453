import Mathlib.Algebra.BigOperators.Group.List.Basic
import Mathlib.Algebra.GroupWithZero.Nat
import Mathlib.Data.List.Sort
import StagedLoad.Table

/-!
# Tables with the same entries, and tables that count

A table lists its entries in ascending order of their keys, so it is determined by what it holds
at each key.  A table that counts how often each key was told holds the same whatever order the
keys were told in.

## Main definitions

* `Table.tally` — how often each key of a list occurs in it.

## Main results

* `Table.keys_eq_of_mem_iff`, `Table.ext_get?` — tables are determined by their keys and values.
* `Table.get?_tally`, `Table.sum_values_tally` — every key is counted under itself, and once.
* `Table.tally_perm` — the order of what is counted does not matter.
-/

namespace StagedLoad.Table

variable {κ α β : Type} [TableKey κ]

/-! ### What determines a table -/

/-- Keys that ascend are in the only order in which they do. -/
theorem eq_of_ascending {ks ks' : List κ}
    (hks : ks.Pairwise fun a b => TableKey.lt a b = true)
    (hks' : ks'.Pairwise fun a b => TableKey.lt a b = true)
    (h : ∀ k, k ∈ ks ↔ k ∈ ks') : ks = ks' := by
  have : Std.Irrefl fun a b : κ => TableKey.lt a b = true :=
    ⟨fun a ha => by rw [TableKey.lt_irrefl] at ha; cases ha⟩
  have : Std.Antisymm fun a b : κ => TableKey.lt a b = true := by
    refine ⟨fun a b hab hba => ?_⟩
    have hself := TableKey.lt_trans hab hba
    rw [TableKey.lt_irrefl] at hself
    cases hself
  exact hks.eq_of_mem_iff hks' h

/-- Tables with the same keys list them in the same order. -/
theorem keys_eq_of_mem_iff {t : Table κ α} {t' : Table κ β}
    (h : ∀ k, k ∈ t.keys ↔ k ∈ t'.keys) : t.keys = t'.keys :=
  eq_of_ascending (List.pairwise_map.mpr t.sorted) (List.pairwise_map.mpr t'.sorted) h

variable [DecidableEq κ]

omit [TableKey κ] in
/-- Entries with the same keys, each there once, are the same if they hold the same at each key. -/
theorem entries_eq {l l' : List (κ × α)} (hkeys : l.map Prod.fst = l'.map Prod.fst)
    (hnodup : (l.map Prod.fst).Nodup) (h : ∀ k, lookup k l = lookup k l') : l = l' := by
  induction l generalizing l' with
  | nil => exact (List.map_eq_nil_iff.mp hkeys.symm).symm
  | cons e l ih =>
    cases l' with
    | nil => cases hkeys
    | cons e' l' =>
      simp only [List.map_cons, List.cons.injEq] at hkeys
      obtain ⟨hkey, hrest⟩ := hkeys
      rw [List.map_cons, List.nodup_cons] at hnodup
      have hhead : some e.2 = some e'.2 := by
        have := h e.1
        rwa [lookup_cons, if_pos rfl, lookup_cons, if_pos hkey.symm] at this
      obtain rfl : e = e' := Prod.ext hkey (Option.some.inj hhead)
      congr 1
      refine ih hrest hnodup.2 fun k => ?_
      by_cases hk : e.1 = k
      · -- the key of the first entry is not found behind it
        subst hk
        rw [lookup_eq_none_iff.mpr hnodup.1, lookup_eq_none_iff.mpr (hrest ▸ hnodup.1)]
      · have := h k
        rwa [lookup_cons, if_neg hk, lookup_cons, if_neg hk] at this

/-- A table is determined by what it holds at each key. -/
theorem ext_get? {t t' : Table κ α} (h : ∀ k, t.get? k = t'.get? k) : t = t' := by
  have hkeys : t.keys = t'.keys := by
    refine keys_eq_of_mem_iff fun k => ?_
    rw [mem_keys_iff, mem_keys_iff, h]
  have hentries := entries_eq hkeys t.keys_nodup h
  cases t
  cases t'
  cases hentries
  rfl

/-! ### Counting keys -/

omit [DecidableEq κ] in
/-- One more at a key is one more in all. -/
theorem sum_values_update_succ (t : Table κ Nat) (k : κ) :
    (t.update k fun n => n.getD 0 + 1).values.sum = t.values.sum + 1 := by
  obtain ⟨l, h⟩ := t
  simp only [update, values]
  clear h
  induction l with
  | nil => rfl
  | cons e rest ih =>
    obtain ⟨k', n⟩ := e
    unfold change
    split
    · simp
      omega
    · split
      · rw [List.map_cons, List.sum_cons, ih, List.map_cons, List.sum_cons]
        omega
      · simp
        omega

/-- How often each key of a list occurs in it. -/
def tally (ks : List κ) : Table κ Nat :=
  ks.foldl (fun t k => t.update k fun n => n.getD 0 + 1) empty

/-- Every key is counted under itself. -/
theorem get?_tally (ks : List κ) (k : κ) :
    (tally ks).get? k = if ks.count k = 0 then none else some (ks.count k) := by
  have hgeneral : ∀ t : Table κ Nat,
      (ks.foldl (fun t k => t.update k fun n => n.getD 0 + 1) t).get? k =
        if ks.count k = 0 then t.get? k else some ((t.get? k).getD 0 + ks.count k) := by
    -- the table is what the keys before have left, so the induction is for every table
    induction ks with
    | nil => intro t; rfl
    | cons j rest ih =>
      intro t
      rw [List.foldl_cons, ih, get?_update, List.count_cons]
      by_cases hj : k = j
      · subst hj
        by_cases hrest : rest.count k = 0
        · simp [hrest]
        · simp [hrest]
          omega
      · have hj' : (j == k) = false := by simp [Ne.symm hj]
        simp [hj, hj']
  rw [tally, hgeneral]
  simp

omit [DecidableEq κ] in
/-- And none is counted twice. -/
theorem sum_values_tally (ks : List κ) : (tally ks).values.sum = ks.length := by
  have hgeneral : ∀ t : Table κ Nat,
      (ks.foldl (fun t k => t.update k fun n => n.getD 0 + 1) t).values.sum =
        t.values.sum + ks.length := by
    induction ks with
    | nil => intro t; rfl
    | cons j rest ih =>
      intro t
      rw [List.foldl_cons, ih, sum_values_update_succ, List.length_cons]
      omega
  rw [tally, hgeneral]
  simp [empty, values]

/-- The order of what is counted does not matter. -/
theorem tally_perm {ks ks' : List κ} (h : ks.Perm ks') : tally ks = tally ks' := by
  refine ext_get? fun k => ?_
  rw [get?_tally, get?_tally, h.count_eq]

end StagedLoad.Table
