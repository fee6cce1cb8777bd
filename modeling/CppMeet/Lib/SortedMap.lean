import Std.Data.TreeMap
import Mathlib.Data.List.Basic

/-!
# Sorted maps

Maps whose loops visit the entries in key order are `Std.TreeMap`s. The lemmas below give the
entries after an update with an `if` on the keys, and the result of a scan for the first entry on
which a function succeeds when it can succeed on one entry only.
-/

set_option autoImplicit false

namespace CppMeet.Lib.SortedMap

universe u v w

variable {K : Type u} {V : Type v} {α : Type w} [Ord K] [Std.TransOrd K] [Std.LawfulEqOrd K]
  [DecidableEq K]

theorem getElem?_insert_ite (m : Std.TreeMap K V) (k k' : K) (v : V) :
    (m.insert k v)[k']? = if k' = k then some v else m[k']? := by
  rw [Std.TreeMap.getElem?_insert]
  by_cases h : k' = k
  · rw [if_pos h, if_pos (Std.LawfulEqOrd.compare_eq_iff_eq.2 h.symm)]
  · rw [if_neg h, if_neg fun hc => h (Std.LawfulEqOrd.compare_eq_iff_eq.1 hc).symm]

theorem getElem?_erase_ite (m : Std.TreeMap K V) (k k' : K) :
    (m.erase k)[k']? = if k' = k then none else m[k']? := by
  rw [Std.TreeMap.getElem?_erase]
  by_cases h : k' = k
  · rw [if_pos h, if_pos (Std.LawfulEqOrd.compare_eq_iff_eq.2 h.symm)]
  · rw [if_neg h, if_neg fun hc => h (Std.LawfulEqOrd.compare_eq_iff_eq.1 hc).symm]

omit [DecidableEq K] [Std.LawfulEqOrd K] in
theorem notMem_iff {m : Std.TreeMap K V} {k : K} : k ∉ m ↔ m[k]? = none := by
  rw [Std.TreeMap.mem_iff_isSome_getElem?, Bool.not_eq_true, Option.isSome_eq_false_iff,
    Option.isNone_iff_eq_none]

/-- `emplace` keeps the entry that is already there. -/
theorem getElem?_insertIfNew_ite (m : Std.TreeMap K V) (k k' : K) (v : V) :
    (m.insertIfNew k v)[k']? = if k' = k ∧ m[k]? = none then some v else m[k']? := by
  rw [Std.TreeMap.getElem?_insertIfNew]
  refine if_congr (and_congr ?_ notMem_iff) rfl rfl
  rw [Std.LawfulEqOrd.compare_eq_iff_eq]
  exact eq_comm

/-- The entries after an `emplace`: the new one if its key was free, and those from before. -/
theorem getElem?_insertIfNew_eq_some_iff {m : Std.TreeMap K V} {k k' : K} {v v' : V} :
    (m.insertIfNew k v)[k']? = some v' ↔
      k' = k ∧ m[k]? = none ∧ v' = v ∨ m[k']? = some v' := by
  rw [getElem?_insertIfNew_ite]
  by_cases h : k' = k ∧ m[k]? = none
  · have hfree : m[k']? = none := by rw [h.1, h.2]
    rw [if_pos h, hfree, Option.some.injEq]
    simp only [h, true_and, reduceCtorEq, or_false]
    exact eq_comm
  · rw [if_neg h]
    constructor
    · exact Or.inr
    · rintro (⟨hk, hnone, -⟩ | hold)
      · exact absurd ⟨hk, hnone⟩ h
      · exact hold

/-- An entry that is left after an erasure. -/
theorem getElem?_erase_eq_some_iff {m : Std.TreeMap K V} {k k' : K} {v : V} :
    (m.erase k)[k']? = some v ↔ k' ≠ k ∧ m[k']? = some v := by
  rw [getElem?_erase_ite]
  by_cases h : k' = k
  · simp [h]
  · simp [h]

omit [DecidableEq K] [Std.LawfulEqOrd K] in
theorem isEmpty_eq_false {m : Std.TreeMap K V} {k : K} {v : V} (h : m[k]? = some v) :
    m.isEmpty = false := by
  refine Std.TreeMap.isEmpty_eq_false_of_contains (a := k) ?_
  rw [Std.TreeMap.contains_eq_isSome_getElem?, h]
  rfl

omit [DecidableEq K] [Std.LawfulEqOrd K] in
/-- Erasing an entry makes the map smaller. -/
theorem size_erase_lt {m : Std.TreeMap K V} {k : K} {v : V} (h : m[k]? = some v) :
    (m.erase k).size < m.size := by
  have hne := isEmpty_eq_false h
  rw [Std.TreeMap.isEmpty_eq_size_eq_zero, beq_eq_false_iff_ne] at hne
  rw [Std.TreeMap.size_erase, if_pos]
  · omega
  · rw [Std.TreeMap.contains_eq_isSome_getElem?, h]
    rfl

omit [DecidableEq K] in
/-- What `begin` points to: an entry with the least key. -/
theorem first_toList {m : Std.TreeMap K V} {k : K} {v : V} {rest : List (K × V)}
    (h : m.toList = (k, v) :: rest) :
    m[k]? = some v ∧ ∀ k' v', m[k']? = some v' → k' ≠ k → compare k k' = .lt := by
  have hsorted := Std.TreeMap.ordered_keys_toList (t := m)
  rw [h, List.pairwise_cons] at hsorted
  constructor
  · rw [← Std.TreeMap.mem_toList_iff_getElem?_eq_some, h]
    exact List.mem_cons_self
  · intro k' v' hk' hne
    rw [← Std.TreeMap.mem_toList_iff_getElem?_eq_some, h, List.mem_cons] at hk'
    rcases hk' with heq | hrest
    · exact absurd (congrArg Prod.fst heq) hne
    · exact hsorted.1 (k', v') hrest

omit [DecidableEq K] in
/-- A scan in which no entry but one can succeed has the result of that entry. -/
theorem findSome?_toList_eq {m : Std.TreeMap K V} {k : K} {v : V} (hk : m[k]? = some v)
    {f : K × V → Option α} (hother : ∀ k' v', k' ≠ k → m[k']? = some v' → f (k', v') = none) :
    m.toList.findSome? f = f (k, v) := by
  cases hscan : m.toList.findSome? f with
  | none =>
      rw [List.findSome?_eq_none_iff] at hscan
      exact (hscan (k, v) (Std.TreeMap.mem_toList_iff_getElem?_eq_some.2 hk)).symm
  | some a =>
      obtain ⟨⟨k', v'⟩, hmem, hfound⟩ := List.exists_of_findSome?_eq_some hscan
      have hentry := Std.TreeMap.mem_toList_iff_getElem?_eq_some.1 hmem
      by_cases hkey : k' = k
      · subst hkey
        obtain rfl : v = v' := Option.some.inj (hk.symm.trans hentry)
        exact hfound.symm
      · rw [hother k' v' hkey hentry] at hfound
        cases hfound

/-! ## Entries as a list -/

omit [DecidableEq K] [Std.LawfulEqOrd K] in
theorem nodup_toList (m : Std.TreeMap K V) : m.toList.Nodup := by
  have hkeys := Std.TreeMap.ordered_keys_toList (t := m)
  refine hkeys.imp fun {a b} hlt heq => ?_
  rw [heq] at hlt
  simp at hlt

omit [DecidableEq K] in
/-- A list of the entries, in whatever order. -/
theorem toList_perm_of_forall {m : Std.TreeMap K V} {l : List (K × V)} (hl : l.Nodup)
    (h : ∀ k v, (k, v) ∈ l ↔ m[k]? = some v) : m.toList.Perm l := by
  rw [List.perm_ext_iff_of_nodup (nodup_toList m) hl]
  rintro ⟨k, v⟩
  rw [Std.TreeMap.mem_toList_iff_getElem?_eq_some, h]

/-- An `emplace` under a free key adds its entry. -/
theorem toList_insertIfNew_perm {m : Std.TreeMap K V} {k : K} (h : m[k]? = none) (v : V) :
    (m.insertIfNew k v).toList.Perm ((k, v) :: m.toList) := by
  apply toList_perm_of_forall
  · refine List.nodup_cons.2 ⟨fun hmem => ?_, nodup_toList m⟩
    rw [Std.TreeMap.mem_toList_iff_getElem?_eq_some, h] at hmem
    cases hmem
  · intro k' v'
    rw [getElem?_insertIfNew_eq_some_iff, List.mem_cons,
      Std.TreeMap.mem_toList_iff_getElem?_eq_some, Prod.mk.injEq, and_iff_right h]

/-- Under a key that is taken it adds nothing. -/
theorem toList_insertIfNew_perm_self {m : Std.TreeMap K V} {k : K} (h : m[k]? ≠ none) (v : V) :
    (m.insertIfNew k v).toList.Perm m.toList := by
  apply toList_perm_of_forall (nodup_toList m)
  intro k' v'
  rw [getElem?_insertIfNew_eq_some_iff, Std.TreeMap.mem_toList_iff_getElem?_eq_some, or_iff_right]
  exact fun hnew => h hnew.2.1

theorem toList_erase_perm {m : Std.TreeMap K V} {k : K} {v : V} (h : m[k]? = some v) :
    m.toList.Perm ((k, v) :: (m.erase k).toList) := by
  apply toList_perm_of_forall
  · refine List.nodup_cons.2 ⟨fun hmem => ?_, nodup_toList _⟩
    rw [Std.TreeMap.mem_toList_iff_getElem?_eq_some, getElem?_erase_eq_some_iff] at hmem
    exact hmem.1 rfl
  · intro k' v'
    rw [List.mem_cons, Std.TreeMap.mem_toList_iff_getElem?_eq_some, getElem?_erase_eq_some_iff,
      Prod.mk.injEq]
    by_cases hk : k' = k
    · rw [hk, h]
      simp [eq_comm]
    · simp [hk]

end CppMeet.Lib.SortedMap
