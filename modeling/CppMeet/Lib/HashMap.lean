import Mathlib.Data.Finmap

/-!
# Hash maps with an unspecified iteration order

`UnorderedMap K V` is a finite map: two of them are equal when they hold the same entries.
`Iteration m` is one order in which a loop over `m` may visit its entries, each of them once.
`IterOrder K V` picks such an order for every map, so a definition that loops over a map takes one
as an argument and a theorem about it quantifies over all of them. `SetIteration` and `SetOrder` are
the same for hash sets, which are finite sets here.
-/

set_option autoImplicit false

namespace CppMeet.Lib.HashMap

universe u v w

/-- A finite map from `K` to `V`. -/
abbrev UnorderedMap (K : Type u) (V : Type v) := Finmap fun _ : K => V

variable {K : Type u} {V : Type v}

/-- A list that visits every entry of `m` once. -/
structure Iteration (m : UnorderedMap K V) where
  visits : List (Σ _ : K, V)
  visits_eq : (visits : Multiset (Σ _ : K, V)) = m.entries

/-- A choice of an iteration order for every map. -/
abbrev IterOrder (K : Type u) (V : Type v) := (m : UnorderedMap K V) → Iteration m

/-- Some order. -/
noncomputable def someVisits : IterOrder K V := fun m => ⟨m.entries.toList, m.entries.coe_toList⟩

variable {m : UnorderedMap K V}

theorem Iteration.nodupKeys (it : Iteration m) : it.visits.NodupKeys := by
  rw [← Multiset.coe_nodupKeys, it.visits_eq]
  exact m.nodupKeys

/-- Two iterations over one map visit the same entries. -/
theorem Iteration.perm (it it' : Iteration m) : it.visits.Perm it'.visits :=
  Multiset.coe_eq_coe.1 (it.visits_eq.trans it'.visits_eq.symm)

variable [DecidableEq K]

/-- An iteration visits exactly the entries of the map. -/
theorem Iteration.mem_iff (it : Iteration m) {k : K} {v : V} :
    ⟨k, v⟩ ∈ it.visits ↔ m.lookup k = some v := by
  rw [Finmap.lookup_eq_some_iff, ← it.visits_eq, Multiset.mem_coe]

/-- Looking a key up among the visited entries is looking it up in the map. -/
theorem Iteration.dlookup_eq (it : Iteration m) (k : K) :
    it.visits.dlookup k = m.lookup k := by
  ext v
  rw [← Option.mem_def, List.mem_dlookup_iff it.nodupKeys, it.mem_iff]

theorem filter_key {l : List (Σ _ : K, V)} (hl : l.NodupKeys) (k : K) :
    l.filter (fun p => p.1 = k) = ((l.dlookup k).map (Sigma.mk k)).toList := by
  induction l with
  | nil => rfl
  | cons p l ih =>
      obtain ⟨k', v⟩ := p
      rw [List.nodupKeys_cons] at hl
      have hrest := ih hl.2
      rw [List.filter_cons]
      by_cases hk : k' = k
      · have hnone : l.dlookup k = none := List.dlookup_eq_none.2 (hk ▸ hl.1)
        rw [hnone] at hrest
        rw [if_pos (decide_eq_true hk), hrest, hk, List.dlookup_cons_eq]
        rfl
      · rw [if_neg (by simpa using hk), hrest,
          List.dlookup_cons_ne l (⟨k', v⟩ : Σ _ : K, V) (Ne.symm hk)]

/-- A loop over a map meets a key once, if the map has it. -/
theorem Iteration.filter_key (it : Iteration m) (k : K) :
    it.visits.filter (fun p => p.1 = k) = ((m.lookup k).map (Sigma.mk k)).toList := by
  rw [HashMap.filter_key it.nodupKeys, it.dlookup_eq]

theorem lookup_insert_ite (m : UnorderedMap K V) (k k' : K) (v : V) :
    (m.insert k v).lookup k' = if k' = k then some v else m.lookup k' := by
  by_cases h : k' = k
  · rw [if_pos h, h, Finmap.lookup_insert]
  · rw [if_neg h, Finmap.lookup_insert_of_ne _ h]

theorem lookup_erase_ite (m : UnorderedMap K V) (k k' : K) :
    (m.erase k).lookup k' = if k' = k then none else m.lookup k' := by
  by_cases h : k' = k
  · rw [if_pos h, h, Finmap.lookup_erase]
  · rw [if_neg h, Finmap.lookup_erase_ne h]

/-- Writing back the value that is there. -/
theorem insert_of_lookup {k : K} {v : V} (h : m.lookup k = some v) : m.insert k v = m := by
  apply Finmap.ext_lookup
  intro k'
  rw [lookup_insert_ite]
  by_cases hk : k' = k
  · rw [if_pos hk, hk, h]
  · rw [if_neg hk]

/-- Updates of one key each, for different keys, do not disturb each other. -/
theorem lookup_foldl {W : Type w} {f : UnorderedMap K W → K → V → UnorderedMap K W}
    (g : Option W → V → Option W)
    (hf : ∀ m k v k', (f m k v).lookup k' = if k' = k then g (m.lookup k) v else m.lookup k')
    (m : UnorderedMap K W) {l : List (Σ _ : K, V)} (hl : l.NodupKeys) (k : K) :
    (l.foldl (fun m p => f m p.1 p.2) m).lookup k =
      (l.dlookup k).elim (m.lookup k) (g (m.lookup k)) := by
  induction l generalizing m with
  | nil => rfl
  | cons p l ih =>
      rw [List.nodupKeys_cons] at hl
      rw [List.foldl_cons, ih _ hl.2, hf]
      by_cases hk : k = p.1
      · have hnone : l.dlookup k = none := List.dlookup_eq_none.2 (hk ▸ hl.1)
        rw [hnone, if_pos hk, hk, List.dlookup_cons_eq]
        rfl
      · rw [if_neg hk, List.dlookup_cons_ne _ _ hk]

/-- The map after the entries of `l` are written, each at its key. -/
def insertAll (m : UnorderedMap K V) (l : List (Σ _ : K, V)) : UnorderedMap K V :=
  l.foldl (fun m p => m.insert p.1 p.2) m

/-- Inserted entries replace those of the map. -/
theorem lookup_insertAll (m : UnorderedMap K V) {l : List (Σ _ : K, V)} (hl : l.NodupKeys)
    (k : K) : (insertAll m l).lookup k = (l.dlookup k).or (m.lookup k) := by
  rw [insertAll, lookup_foldl (fun _ v => some v) (fun m k v k' => lookup_insert_ite m k k' v) m hl]
  cases l.dlookup k with
  | none => rfl
  | some v => rfl

/-- Writing the entries that a loop over `m` visits into an empty map gives `m` back. -/
theorem Iteration.insertAll_visits (it : Iteration m) : insertAll ∅ it.visits = m := by
  apply Finmap.ext_lookup
  intro k
  rw [lookup_insertAll _ it.nodupKeys, it.dlookup_eq, Finmap.lookup_empty, Option.or_none]

/-! ## Hash sets -/

/-- A list that visits every element of `s` once. -/
structure SetIteration (s : Finset K) where
  visits : List K
  nodup : visits.Nodup
  mem_iff : ∀ x, x ∈ visits ↔ x ∈ s

/-- A choice of an iteration order for every set. -/
abbrev SetOrder (K : Type u) := (s : Finset K) → SetIteration s

/-- Some order. -/
noncomputable def someOrder : SetOrder K := fun s =>
  ⟨s.toList, s.nodup_toList, fun _ => s.mem_toList⟩

end CppMeet.Lib.HashMap
