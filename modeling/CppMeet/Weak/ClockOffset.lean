import CppMeet.Weak.Gcc

/-!
# Clock offsets

The clocks of the sender and of the receiver need not agree, so a delay is only known up to an
unknown constant. An estimator whose receiver's clock is ahead by `c` has every delay in its window
raised by `c` (`onPacketArrival_ahead`). The slope does not see this, so the state and the rate are
the same after every call (`decisions_ahead`).
-/

set_option autoImplicit false

namespace CppMeet.Weak.ClockOffset

open CppMeet.Lib CppMeet.Lib.Run CppMeet.Weak.Gcc

/-- The report that a receiver makes whose clock is ahead by `c`. -/
def ahead (c : ℤ) (r : Report) : Report := { r with recvTimeMs := r.recvTimeMs + c }

/-- The sample with its delay raised by `c`. -/
def raise (c : ℤ) (s : Sample) : Sample := { s with y := s.y + c }

/-- The estimator with all delays in its window raised by `c`. -/
def raiseAll (c : ℤ) (e : GccEstimator) : GccEstimator :=
  { e with trendlineBuf := e.trendlineBuf.map (raise c) }

section

variable (c : ℤ) (buf : List Sample)

/-! ## The window -/

/-- Numbering the samples again does not touch the delays. -/
theorem renumber_raise : renumber (buf.map (raise c)) = (renumber buf).map (raise c) := by
  apply List.ext_getElem?
  intro i
  simp only [renumber, List.getElem?_mapIdx, List.getElem?_map, Option.map_map]
  rfl

/-- The new sample is raised like the others. -/
theorem pushSample_raise (delay : ℤ) :
    pushSample (buf.map (raise c)) (delay + c) = (pushSample buf delay).map (raise c) := by
  have hpush : buf.map (raise c) ++ [Sample.mk (buf.map (raise c)).length (delay + c : ℤ)] =
      (buf ++ [Sample.mk buf.length delay]).map (raise c) := by
    rw [List.map_append, List.map_singleton, List.length_map, Int.cast_add]
    rfl
  simp only [pushSample]
  rw [hpush, List.length_map, ← List.map_tail, renumber_raise]
  exact (apply_ite (List.map (raise c)) _ _ _).symm

/-! ## The slope -/

/-- A common offset does not change the slope. -/
theorem computeTrendline_raise : computeTrendline (buf.map (raise c)) = computeTrendline buf := by
  have hden : Regression.codeviation Sample.x Sample.x (buf.map (raise c)) =
      Regression.codeviation Sample.x Sample.x buf := Regression.codeviation_map _ _ _ _
  have hnum : Regression.codeviation Sample.x Sample.y (buf.map (raise c)) =
      Regression.codeviation Sample.x Sample.y buf :=
    (Regression.codeviation_map _ _ _ _).trans (Regression.codeviation_add_const _ _ (c : ℚ) buf)
  rw [computeTrendline_eq, computeTrendline_eq, hden, hnum, List.length_map]

/-! ## The estimator -/

theorem adapt_raise (e : GccEstimator) :
    (raiseAll c e).adapt (buf.map (raise c)) = raiseAll c (e.adapt buf) := by
  rw [GccEstimator.adapt, GccEstimator.adapt, List.length_map, computeTrendline_raise]
  by_cases hshort : buf.length < 4
  · rw [if_pos hshort, if_pos hshort]
    rfl
  · rw [if_neg hshort, if_neg hshort]
    rfl

/-- The step of the estimator that is fed the report with the offset. -/
theorem onPacketArrival_ahead (e : GccEstimator) (r : Report) :
    (raiseAll c e).onPacketArrival (ahead c r) = raiseAll c (e.onPacketArrival r) := by
  have hdelay : (ahead c r).recvTimeMs - (ahead c r).sendTimeMs =
      r.recvTimeMs - r.sendTimeMs + c := add_sub_right_comm _ _ _
  have hpush := pushSample_raise c e.trendlineBuf (r.recvTimeMs - r.sendTimeMs)
  rw [GccEstimator.onPacketArrival, hdelay]
  exact (congrArg _ hpush).trans (adapt_raise c _ e)

end

/-- Two estimators that are fed the same reports, the second one with the receive times moved by a
constant, go through the same states and the same rates. -/
theorem decisions_ahead (c : ℤ) (reports : List Report) :
    decisions {} (reports.map (ahead c)) = decisions {} reports := by
  refine trace_map (raiseAll c) (ahead c) (onPacketArrival_ahead c) (fun e r => ?_) {} reports
  rw [onPacketArrival_ahead]
  rfl

end CppMeet.Weak.ClockOffset
