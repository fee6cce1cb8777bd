import Mathlib.Data.Finset.Basic
import Mathlib.Logic.Function.Basic

/-!
# Handles with one owner

Slots hold a handle each or nothing. `Owned slots live` says that the live handles are those that
some slot holds, and that no two slots hold the same one. A slot that takes a new handle, one that
gives its handle up when the handle dies, and one that passes its handle on to an empty slot keep
this.
-/

set_option autoImplicit false

namespace CppMeet.Lib.Ownership

universe u v

variable {ι : Type u} {H : Type v} {slots : ι → Option H} {live : Finset H} {i j : ι} {h : H}

/-- Every live handle is in exactly one slot, and the slots hold no others. -/
structure Owned (slots : ι → Option H) (live : Finset H) : Prop where
  held : ∀ i h, slots i = some h → h ∈ live
  holder : ∀ h ∈ live, ∃ i, slots i = some h
  alone : ∀ i j h, slots i = some h → slots j = some h → i = j

theorem owned_empty : Owned (fun _ : ι => (none : Option H)) ∅ where
  held _ _ hi := by cases hi
  holder h hh := absurd hh (Finset.notMem_empty h)
  alone _ _ _ hi := by cases hi

variable [DecidableEq ι]

/-- Which slots hold a handle after an update. -/
theorem update_eq_some_iff {o : Option H} :
    Function.update slots i o j = some h ↔ j = i ∧ o = some h ∨ j ≠ i ∧ slots j = some h := by
  rw [Function.update_apply]
  split_ifs with hij
  · simp [hij]
  · simp [hij]

variable [DecidableEq H]

theorem Owned.take (ho : Owned slots live) (hfree : slots i = none) (hnew : h ∉ live) :
    Owned (Function.update slots i (some h)) (insert h live) where
  held j g hj := by
    rcases update_eq_some_iff.1 hj with ⟨-, heq⟩ | ⟨-, hold⟩
    · rw [← Option.some.inj heq]
      exact Finset.mem_insert_self h live
    · exact Finset.mem_insert_of_mem (ho.held j g hold)
  holder g hg := by
    rcases Finset.mem_insert.1 hg with rfl | hold
    · exact ⟨i, update_eq_some_iff.2 (Or.inl ⟨rfl, rfl⟩)⟩
    · obtain ⟨j, hj⟩ := ho.holder g hold
      refine ⟨j, update_eq_some_iff.2 (Or.inr ⟨?_, hj⟩)⟩
      rintro rfl
      cases hfree.symm.trans hj
  alone j k g hj hk := by
    rcases update_eq_some_iff.1 hj with ⟨rfl, heq⟩ | ⟨-, hold⟩
    · rcases update_eq_some_iff.1 hk with ⟨rfl, -⟩ | ⟨-, hold⟩
      · rfl
      · exact absurd (Option.some.inj heq ▸ ho.held k g hold) hnew
    · rcases update_eq_some_iff.1 hk with ⟨-, heq⟩ | ⟨-, hold'⟩
      · exact absurd (Option.some.inj heq ▸ ho.held j g hold) hnew
      · exact ho.alone j k g hold hold'

theorem Owned.drop (ho : Owned slots live) (hi : slots i = some h) :
    Owned (Function.update slots i none) (live.erase h) where
  held j g hj := by
    rcases update_eq_some_iff.1 hj with ⟨-, heq⟩ | ⟨hne, hold⟩
    · cases heq
    · refine Finset.mem_erase.2 ⟨?_, ho.held j g hold⟩
      rintro rfl
      exact hne (ho.alone j i g hold hi)
  holder g hg := by
    obtain ⟨hne, hold⟩ := Finset.mem_erase.1 hg
    obtain ⟨j, hj⟩ := ho.holder g hold
    refine ⟨j, update_eq_some_iff.2 (Or.inr ⟨?_, hj⟩)⟩
    rintro rfl
    exact hne (Option.some.inj (hj.symm.trans hi))
  alone j k g hj hk := by
    rcases update_eq_some_iff.1 hj with ⟨-, heq⟩ | ⟨-, hold⟩
    · cases heq
    · rcases update_eq_some_iff.1 hk with ⟨-, heq⟩ | ⟨-, hold'⟩
      · cases heq
      · exact ho.alone j k g hold hold'

/-- The handle of slot `j`, if it has one, goes to the empty slot `i`. -/
theorem Owned.transfer (ho : Owned slots live) (hfree : slots i = none) (hne : i ≠ j) :
    Owned (Function.update (Function.update slots i (slots j)) j none) live := by
  cases hj : slots j with
  | none =>
      have hi : Function.update slots i none = slots := by rw [← hfree, Function.update_eq_self]
      have hsame : Function.update slots j none = slots := by rw [← hj, Function.update_eq_self]
      rw [hi, hsame]
      exact ho
  | some h =>
      -- as if the handle had died and were new
      have hlive := ho.held j h hj
      have hdropped := ho.drop hj
      have htaken := hdropped.take (i := i) (by rw [Function.update_of_ne hne, hfree])
        (Finset.notMem_erase h live)
      rwa [Finset.insert_erase hlive, Function.update_comm hne.symm] at htaken

end CppMeet.Lib.Ownership
