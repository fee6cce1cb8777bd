import Mathlib.Logic.Function.Basic
import Mathlib.Data.List.Infix

/-!
# Registries

A registry hands out numbers. A key that joins gets the next number and holds it until it leaves;
joining again while it holds one changes nothing, and a key that comes back gets a new number. The
list of all registrations only ever grows, and number `i` belongs to its `i`-th element, so a number
is held by one key at most and never passes on to another (`Registry.eq_of_holds`).
-/

set_option autoImplicit false

namespace CppMeet.Lib.Enrollment

universe u

/-- The keys in the order of their registrations, and the number that each key holds now. -/
structure Registry (K : Type u) where
  registrations : List K
  holds : K → Option ℕ
  held : ∀ k i, holds k = some i → registrations[i]? = some k

namespace Registry

variable {K : Type u}

/-- A registry before any registration. -/
def empty : Registry K where
  registrations := []
  holds _ := none
  held := by
    intro k i h
    cases h

/-- The key has joined and not left since. -/
def Registered (r : Registry K) (k : K) : Prop := (r.holds k).isSome = true

instance (r : Registry K) (k : K) : Decidable (r.Registered k) :=
  inferInstanceAs (Decidable (_ = true))

variable [DecidableEq K] (r : Registry K)

/-- The registry after `k` has got the next number. -/
def enroll (k : K) : Registry K where
  registrations := r.registrations ++ [k]
  holds := Function.update r.holds k (some r.registrations.length)
  held := by
    intro k' i h
    by_cases hk : k' = k
    · subst hk
      rw [Function.update_self, Option.some.injEq] at h
      rw [← h, List.getElem?_concat_length]
    · rw [Function.update_of_ne hk] at h
      have hold := r.held k' i h
      rw [List.getElem?_append_left (List.getElem?_eq_some_iff.1 hold).1]
      exact hold

/-- A key that holds no registration gets the next one. -/
def join (k : K) : Registry K :=
  match r.holds k with
  | some _ => r
  | none => r.enroll k

/-- The key gives its registration up; the number is not used again. -/
def leave (k : K) : Registry K where
  registrations := r.registrations
  holds := Function.update r.holds k none
  held := by
    intro k' i h
    by_cases hk : k' = k
    · subst hk
      rw [Function.update_self] at h
      cases h
    · rw [Function.update_of_ne hk] at h
      exact r.held k' i h

variable {r}

theorem holds_enroll (k k' : K) :
    (r.enroll k).holds k' = if k' = k then some r.registrations.length else r.holds k' :=
  Function.update_apply _ _ _ _

theorem holds_leave (k k' : K) :
    (r.leave k).holds k' = if k' = k then none else r.holds k' :=
  Function.update_apply _ _ _ _

/-- An enrolled key is registered, and nobody else's registration changes. -/
theorem registered_enroll {k k' : K} :
    (r.enroll k).Registered k' ↔ r.Registered k' ∨ k' = k := by
  rw [Registered, Registered, holds_enroll]
  by_cases hk : k' = k
  · rw [if_pos hk]
    exact iff_of_true rfl (Or.inr hk)
  · rw [if_neg hk, or_iff_left hk]

/-- A key that leaves is not registered, and nobody else's registration changes. -/
theorem registered_leave {k k' : K} :
    (r.leave k).Registered k' ↔ r.Registered k' ∧ k' ≠ k := by
  rw [Registered, Registered, holds_leave]
  by_cases hk : k' = k
  · rw [if_pos hk]
    exact iff_of_false Bool.false_ne_true fun h => h.2 hk
  · rw [if_neg hk, and_iff_left hk]

theorem join_of_registered {k : K} (h : r.Registered k) : r.join k = r := by
  obtain ⟨i, hi⟩ := Option.isSome_iff_exists.1 h
  rw [join, hi]

theorem join_of_not_registered {k : K} (h : ¬ r.Registered k) : r.join k = r.enroll k := by
  have hnone : r.holds k = none := Option.not_isSome_iff_eq_none.1 h
  rw [join, hnone]

omit [DecidableEq K] in
/-- A key holds a registration that took place. -/
theorem lt_of_holds {k : K} {i : ℕ} (h : r.holds k = some i) : i < r.registrations.length :=
  (List.getElem?_eq_some_iff.1 (r.held k i h)).1

theorem le_join (k : K) : r.registrations <+: (r.join k).registrations := by
  by_cases h : r.Registered k
  · rw [join_of_registered h]
  · rw [join_of_not_registered h]
    exact List.prefix_append _ _

omit [DecidableEq K] in
/-- A number held now and a number held at a later moment belong to one key if they are equal. -/
theorem eq_of_holds {r' : Registry K} (hgrows : r.registrations <+: r'.registrations) {k k' : K}
    {i : ℕ} (h : r.holds k = some i) (h' : r'.holds k' = some i) : k = k' := by
  obtain ⟨more, hmore⟩ := hgrows
  have hearly := r.held k i h
  have hlate := r'.held k' i h'
  rw [← hmore, List.getElem?_append_left (lt_of_holds h), hearly] at hlate
  exact Option.some.inj hlate

end Registry

end CppMeet.Lib.Enrollment
