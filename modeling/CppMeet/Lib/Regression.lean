import Mathlib.Algebra.BigOperators.Group.List.Basic
import Mathlib.Algebra.BigOperators.Fin
import Mathlib.Algebra.BigOperators.Ring.List
import Mathlib.Algebra.CharZero.Defs
import Mathlib.Algebra.Field.Basic
import Mathlib.Algebra.Order.Chebyshev
import Mathlib.Tactic.Linarith

/-!
# Linear regression

Two quantities `f` and `g` are measured on every member of a sample. `codeviation f g` adds up the
products of their deviations from the mean, and the line through the points `(f i, g i)` that fits
them best in the sense of least squares has the slope `codeviation f g / codeviation f f`.

Only deviations enter, so it makes no difference from which zero a quantity is measured
(`codeviation_add_const`). If `g` rises between any two members by at least `c` times what `f` rises
by, then the slope is at least `c`, and likewise for upper bounds (`mul_codeviation_le`,
`codeviation_le_mul`).
-/

set_option autoImplicit false

namespace CppMeet.Lib.Regression

universe u v w

variable {ι : Type u} {κ : Type v} {K : Type w} [Field K]

/-- The arithmetic mean of `f` over the sample. -/
def mean (f : ι → K) (l : List ι) : K := (l.map f).sum / l.length

/-- The sum of the products of the deviations of `f` and of `g`. -/
def codeviation (f g : ι → K) (l : List ι) : K :=
  (l.map fun i => (f i - mean f l) * (g i - mean g l)).sum

/-- Measuring on the images of the members. -/
theorem mean_map (f : ι → K) (h : κ → ι) (l : List κ) :
    mean f (l.map h) = mean (fun k => f (h k)) l := by
  rw [mean, mean, List.map_map, List.length_map]
  rfl

/-- Sampling the family through a map samples the two functions. -/
theorem codeviation_map (f g : ι → K) (h : κ → ι) (l : List κ) :
    codeviation f g (l.map h) = codeviation (fun k => f (h k)) (fun k => g (h k)) l := by
  rw [codeviation, codeviation, List.map_map, mean_map, mean_map]
  rfl

/-- Multiples of `g` and of `f` itself. -/
theorem codeviation_add_mul (f g : ι → K) (a b : K) (l : List ι) :
    codeviation f (fun i => a * g i + b * f i) l =
      a * codeviation f g l + b * codeviation f f l := by
  have hmean : mean (fun i => a * g i + b * f i) l = a * mean g l + b * mean f l := by
    rw [mean, List.sum_map_add, List.sum_map_mul_left, List.sum_map_mul_left, add_div,
      mul_div_assoc, mul_div_assoc, mean, mean]
  have hterm (i : ι) : (f i - mean f l) * (a * g i + b * f i - (a * mean g l + b * mean f l)) =
      a * ((f i - mean f l) * (g i - mean g l)) + b * ((f i - mean f l) * (f i - mean f l)) := by
    ring
  simp only [codeviation, hmean, hterm]
  rw [List.sum_map_add, List.sum_map_mul_left, List.sum_map_mul_left]

section CharZero

variable [CharZero K]

/-- The mean moves with the zero of the quantity. -/
theorem mean_add_const (f : ι → K) (c : K) {l : List ι} (hl : l ≠ []) :
    mean (fun i => f i + c) l = mean f l + c := by
  have hlength : (l.length : K) ≠ 0 := Nat.cast_ne_zero.2 (mt List.length_eq_zero_iff.1 hl)
  have hconst : (l.map fun _ => c).sum = l.length * c := by
    rw [List.map_const', List.sum_replicate, nsmul_eq_mul]
  rw [mean, mean, List.sum_map_add, hconst, add_div, mul_div_cancel_left₀ c hlength]

/-- The deviations do not depend on the zero of a quantity. -/
theorem codeviation_add_const (f g : ι → K) (c : K) (l : List ι) :
    codeviation f (fun i => g i + c) l = codeviation f g l := by
  cases l with
  | nil => rfl
  | cons i l =>
      rw [codeviation, codeviation, mean_add_const g c (List.cons_ne_nil i l)]
      simp only [add_sub_add_right_eq_sub]

/-- The deviations cancel. -/
theorem sum_deviations (f : ι → K) (l : List ι) : (l.map fun i => f i - mean f l).sum = 0 := by
  rcases eq_or_ne l [] with rfl | hl
  · rfl
  · have hlength : (l.length : K) ≠ 0 := Nat.cast_ne_zero.2 (mt List.length_eq_zero_iff.1 hl)
    have hconst : (l.map fun _ => -mean f l).sum = -(l.map f).sum := by
      rw [List.map_const', List.sum_replicate, nsmul_eq_mul, mul_neg, mean,
        mul_div_cancel₀ _ hlength]
    simp only [sub_eq_add_neg]
    rw [List.sum_map_add, hconst, add_neg_cancel]

end CharZero

/-! ## Slopes -/

section Order

variable [LinearOrder K] [IsStrictOrderedRing K] {f g : ι → K} {c : K} {l : List ι}

/-- Quantities that rise together. -/
theorem codeviation_nonneg (h : ∀ i ∈ l, ∀ j ∈ l, f i < f j → g i ≤ g j) :
    0 ≤ codeviation f g l := by
  rcases eq_or_ne l [] with rfl | hl
  · exact le_refl 0
  · have hlength : (0 : K) < l.length := Nat.cast_pos.2 (List.length_pos_iff.2 hl)
    have hvary : Monovary (fun i : Fin l.length => f l[i.1] - mean f l)
        fun i : Fin l.length => g l[i.1] - mean g l := by
      intro i j hij
      by_contra hnot
      have hrise := h _ (List.getElem_mem j.isLt) _ (List.getElem_mem i.isLt)
        ((sub_lt_sub_iff_right _).1 (not_le.1 hnot))
      exact absurd (sub_le_sub_right hrise (mean g l)) (not_le.2 hij)
    -- Chebyshev's inequality, where the deviations add up to zero
    have hsum := hvary.sum_mul_sum_le_card_mul_sum
    rw [Fin.sum_univ_fun_getElem l fun i => f i - mean f l, sum_deviations, zero_mul,
      Fintype.card_fin, Fin.sum_univ_fun_getElem l fun i => (f i - mean f l) * (g i - mean g l)]
      at hsum
    exact nonneg_of_mul_nonneg_right hsum hlength

/-- Between any two members `g` rises by at least `c` times what `f` rises by. -/
theorem mul_codeviation_le (h : ∀ i ∈ l, ∀ j ∈ l, f i < f j → c * (f j - f i) ≤ g j - g i) :
    c * codeviation f f l ≤ codeviation f g l := by
  have hnonneg : 0 ≤ codeviation f (fun i => 1 * g i + -c * f i) l := by
    apply codeviation_nonneg
    intro i hi j hj hij
    have hrise := h i hi j hj hij
    rw [mul_sub] at hrise
    linarith
  rw [codeviation_add_mul] at hnonneg
  linarith

/-- Between any two members `g` rises by at most `c` times what `f` rises by. -/
theorem codeviation_le_mul (h : ∀ i ∈ l, ∀ j ∈ l, f i < f j → g j - g i ≤ c * (f j - f i)) :
    codeviation f g l ≤ c * codeviation f f l := by
  have hnonneg : 0 ≤ codeviation f (fun i => -1 * g i + c * f i) l := by
    apply codeviation_nonneg
    intro i hi j hj hij
    have hrise := h i hi j hj hij
    rw [mul_sub] at hrise
    linarith
  rw [codeviation_add_mul] at hnonneg
  linarith

/-- Two members of a sample bound its deviation from below. -/
theorem sq_div_two_le_codeviation (i j : ι) (l : List ι) :
    (f j - f i) ^ 2 / 2 ≤ codeviation f f (i :: j :: l) := by
  rw [codeviation, List.map_cons, List.map_cons, List.sum_cons, List.sum_cons]
  generalize mean f (i :: j :: l) = m
  have hrest : 0 ≤ (l.map fun k => (f k - m) * (f k - m)).sum := by
    apply List.sum_nonneg
    rintro _ hx
    obtain ⟨k, -, rfl⟩ := List.mem_map.1 hx
    exact mul_self_nonneg _
  nlinarith only [hrest, sq_nonneg (f i - m + (f j - m))]

end Order

end CppMeet.Lib.Regression
