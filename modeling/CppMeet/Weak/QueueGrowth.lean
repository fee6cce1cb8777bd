import CppMeet.Weak.Gcc

/-!
# Growing and draining queues

The window of the estimator holds the delays of the last 20 packets under the numbers 0 to 19
(`trendlineBuf_run`), whatever came before. The slope that it takes lies between the least and the
greatest step from one delay to the next (`computeTrendline_between`). So in the long run the rate
follows the queue (`rate_follows_queue`): as long as every packet is delayed longer than the one
before, the rate stays as it is, cut once at most; as long as none is, the rate goes up with every
packet.
-/

set_option autoImplicit false

namespace CppMeet.Weak.QueueGrowth

open CppMeet.Lib CppMeet.Lib.Run CppMeet.Weak.Gcc

/-- The one-way delays that the reports show. -/
def delays (reports : List Report) : List ℤ :=
  reports.map fun r => r.recvTimeMs - r.sendTimeMs

/-- Delays under their positions. -/
def numbered (ds : List ℤ) : List Sample := ds.mapIdx fun i (d : ℤ) => { x := i, y := d }

/-- The last delays, as many as the window holds. -/
def window (ds : List ℤ) : List ℤ := ds.drop (ds.length - trendlineWin)

/-! ## The window -/

section Window

theorem length_numbered (ds : List ℤ) : (numbered ds).length = ds.length := by
  rw [numbered, List.length_mapIdx]

theorem numbered_concat (ds : List ℤ) (d : ℤ) :
    numbered (ds ++ [d]) = numbered ds ++ [{ x := ds.length, y := d }] := by
  rw [numbered, List.mapIdx_concat, numbered]

/-- The oldest delay goes and the others move up. -/
theorem renumber_tail (ds : List ℤ) : renumber (numbered ds).tail = numbered ds.tail := by
  apply List.ext_getElem?
  intro i
  simp only [renumber, numbered, List.getElem?_mapIdx, List.getElem?_tail, Option.map_map]
  rfl

theorem window_concat (ds : List ℤ) (d : ℤ) :
    window (ds ++ [d]) = (ds ++ [d]).drop (ds.length + 1 - trendlineWin) := by
  rw [window, List.length_append, List.length_singleton]

/-- The estimator keeps the window, numbered from 0 on. -/
theorem pushSample_window (ds : List ℤ) (d : ℤ) :
    pushSample (numbered (window ds)) d = numbered (window (ds ++ [d])) := by
  have hlen : (window ds ++ [d]).length = min ds.length trendlineWin + 1 := by
    rw [List.length_append, List.length_singleton, window, List.length_drop]
    omega
  have hbuf : numbered (window ds) ++ [{ x := (numbered (window ds)).length, y := d }] =
      numbered (window ds ++ [d]) := by
    rw [numbered_concat, length_numbered]
  rw [pushSample, hbuf, length_numbered, hlen, window_concat]
  by_cases hfull : trendlineWin ≤ ds.length
  · -- the window is full and the oldest delay goes
    have hdrop : (window ds ++ [d]).tail = (ds ++ [d]).drop (ds.length + 1 - trendlineWin) := by
      rw [window, ← List.drop_append_of_le_length (by omega), List.tail_drop]
      congr 1
      omega
    rw [if_pos (by omega), ← hdrop, ← renumber_tail]
  · have hdrop : window ds ++ [d] = (ds ++ [d]).drop (ds.length + 1 - trendlineWin) := by
      rw [window, ← List.drop_append_of_le_length (by omega)]
      congr 1
      omega
    rw [if_neg (by omega), hdrop]

theorem delays_concat (reports : List Report) (r : Report) :
    delays (reports ++ [r]) = delays reports ++ [r.recvTimeMs - r.sendTimeMs] := by
  rw [delays, List.map_append, List.map_singleton, delays]

/-- The buffer of the estimator after any reports. -/
theorem trendlineBuf_run (reports : List Report) :
    (run GccEstimator.onPacketArrival {} reports).trendlineBuf =
      numbered (window (delays reports)) := by
  induction reports using List.reverseRecOn with
  | nil => rfl
  | append_singleton reports r ih =>
      rw [run_concat, delays_concat, ← pushSample_window, ← ih, GccEstimator.onPacketArrival,
        GccEstimator.adapt]
      dsimp only
      split
      · rfl
      · rfl

end Window

/-! ## The slope -/

/-- The delay rises by at least `c` for every packet between the samples. -/
def AtLeast (c : ℤ) (s t : Sample) : Prop := s.x < t.x ∧ c * (t.x - s.x) ≤ t.y - s.y

/-- The delay rises by at most `c` for every packet between the samples. -/
def AtMost (c : ℤ) (s t : Sample) : Prop := s.x < t.x ∧ t.y - s.y ≤ c * (t.x - s.x)

section Slope

variable {c : ℤ} {ds : List ℤ}

instance : Trans (AtLeast c) (AtLeast c) (AtLeast c) where
  trans h h' := ⟨h.1.trans h'.1, by linarith [h.2, h'.2]⟩

instance : Trans (AtMost c) (AtMost c) (AtMost c) where
  trans h h' := ⟨h.1.trans h'.1, by linarith [h.2, h'.2]⟩

/-- What holds from one delay to the next holds between any two samples of the window. -/
theorem of_lt {R : Sample → Sample → Prop} [Trans R R R] (hx : ∀ s t, R s t → s.x < t.x)
    (h : ds.IsChain fun (d d' : ℤ) => ∀ i : ℕ, R { x := i, y := d } { x := i + 1, y := d' })
    {s t : Sample} (hs : s ∈ numbered ds) (ht : t ∈ numbered ds) (hlt : s.x < t.x) : R s t := by
  have hchain : (numbered ds).IsChain R := by
    rw [List.isChain_iff_getElem]
    intro i hi
    rw [length_numbered] at hi
    simp only [numbered, List.getElem_mapIdx, Nat.cast_add, Nat.cast_one]
    exact List.IsChain.getElem h i hi i
  have hpairs := List.pairwise_iff_getElem.1 hchain.pairwise
  obtain ⟨i, hi, rfl⟩ := List.mem_iff_getElem.1 hs
  obtain ⟨j, hj, rfl⟩ := List.mem_iff_getElem.1 ht
  rcases Nat.lt_trichotomy i j with hij | rfl | hij
  · exact hpairs i j hi hj hij
  · exact absurd hlt (lt_irrefl _)
  · exact absurd hlt (hx _ _ (hpairs j i hj hi hij)).not_gt

/-- The samples under the numbers 0 and 1 alone keep the denominator away from 0. -/
theorem half_le_codeviation (hlen : 2 ≤ ds.length) :
    1 / 2 ≤ Regression.codeviation Sample.x Sample.x (numbered ds) := by
  match ds, hlen with
  | d :: d' :: rest, _ =>
      have hsq := Regression.sq_div_two_le_codeviation (f := Sample.x) { x := (0 : ℕ), y := d }
        { x := (1 : ℕ), y := d' } (rest.mapIdx fun i (d : ℤ) => { x := (i + 1 + 1 : ℕ), y := d })
      rw [numbered, List.mapIdx_cons, List.mapIdx_cons]
      refine le_trans ?_ hsq
      norm_num

/-- The slope of a window of at least two samples. -/
theorem computeTrendline_numbered (hlen : 2 ≤ ds.length) :
    computeTrendline (numbered ds) = Regression.codeviation Sample.x Sample.y (numbered ds) /
      Regression.codeviation Sample.x Sample.x (numbered ds) := by
  have hden := half_le_codeviation hlen
  have hzero : ¬|Regression.codeviation Sample.x Sample.x (numbered ds)| < 1 / 1000000000 := by
    rw [abs_of_nonneg (by linarith)]
    linarith
  rw [computeTrendline_eq, length_numbered, if_neg (by omega), if_neg hzero]

/-- Delays that grow by `c` each time have a slope of at least `c`. -/
theorem le_computeTrendline (hlen : 2 ≤ ds.length) (h : ds.IsChain fun d d' => c ≤ d' - d) :
    c ≤ computeTrendline (numbered ds) := by
  have hden := half_le_codeviation hlen
  rw [computeTrendline_numbered hlen, le_div_iff₀ (by linarith)]
  apply Regression.mul_codeviation_le
  intro s hs t ht hlt
  refine (of_lt (R := AtLeast c) (fun _ _ hst => hst.1) (h.imp fun d d' hstep i => ?_) hs ht hlt).2
  have hcast : (c : ℚ) ≤ ((d' - d : ℤ) : ℚ) := Int.cast_le.2 hstep
  push_cast at hcast
  exact ⟨by simp, by linarith⟩

/-- Delays that grow by at most `c` each time have a slope of at most `c`. -/
theorem computeTrendline_le (hlen : 2 ≤ ds.length) (h : ds.IsChain fun d d' => d' - d ≤ c) :
    computeTrendline (numbered ds) ≤ c := by
  have hden := half_le_codeviation hlen
  rw [computeTrendline_numbered hlen, div_le_iff₀ (by linarith)]
  apply Regression.codeviation_le_mul
  intro s hs t ht hlt
  refine (of_lt (R := AtMost c) (fun _ _ hst => hst.1) (h.imp fun d d' hstep i => ?_) hs ht hlt).2
  have hcast : ((d' - d : ℤ) : ℚ) ≤ c := Int.cast_le.2 hstep
  push_cast at hcast
  exact ⟨by simp, by linarith⟩

end Slope

/-! ## The rate -/

/-- The estimator after some reports. -/
def after (reports : List Report) : GccEstimator := run GccEstimator.onPacketArrival {} reports

section Rate

variable {history stretch : List Report} {n : ℕ}

/-- A report from the fourth on sets the state by the slope of the window, and the rate by the old
and the new state. -/
theorem after_concat (reports : List Report) (r : Report) (hlen : 3 ≤ reports.length) :
    (after (reports ++ [r])).state =
        stateOf (computeTrendline (numbered (window (delays (reports ++ [r]))))) ∧
      (after (reports ++ [r])).estimatedBps =
        aimd (after reports).state (after (reports ++ [r])).state (after reports).estimatedBps := by
  have hfull : ¬(numbered (window (delays (reports ++ [r])))).length < 4 := by
    rw [length_numbered, window, List.length_drop, delays, List.length_map, List.length_append,
      List.length_singleton, trendlineWin]
    omega
  have hstep : after (reports ++ [r]) =
      (after reports).adapt (numbered (window (delays (reports ++ [r])))) := by
    rw [after, run_concat, delays_concat, ← pushSample_window, ← trendlineBuf_run]
    rfl
  rw [hstep, GccEstimator.adapt, if_neg hfull]
  exact ⟨rfl, rfl⟩

variable (history) in
/-- Once a stretch fills the window, the window holds a part of it. -/
theorem window_isInfix (hn : 20 ≤ n) (hlen : n ≤ stretch.length) :
    window (delays (history ++ stretch.take n)) <:+: delays stretch ∧
      2 ≤ (window (delays (history ++ stretch.take n))).length := by
  have htake : (delays (stretch.take n)).length = n := by
    rw [delays, List.length_map, List.length_take]
    omega
  have hsplit : delays (history ++ stretch.take n) = delays history ++ delays (stretch.take n) := by
    rw [delays, List.map_append, delays, delays]
  have hwindow : window (delays (history ++ stretch.take n)) =
      (delays (stretch.take n)).drop (n - trendlineWin) := by
    have htrend : trendlineWin = 20 := rfl
    rw [window, hsplit, List.length_append, htake, List.drop_append, List.drop_eq_nil_of_le,
      List.nil_append]
    · congr 1
      omega
    · omega
  rw [hwindow]
  constructor
  · refine List.IsInfix.trans (List.drop_suffix _ _).isInfix ?_
    rw [delays, List.map_take]
    exact (List.take_prefix _ _).isInfix
  · rw [List.length_drop, htake, trendlineWin]
    omega

/-- From four reports on the state is the one of the slope. -/
theorem state_after {reports : List Report} (hlen : 4 ≤ reports.length) :
    (after reports).state =
      stateOf (computeTrendline (numbered (window (delays reports)))) := by
  obtain rfl | ⟨reports, r, rfl⟩ := List.eq_nil_or_concat' reports
  · exact absurd hlen (by decide)
  · rw [List.length_append, List.length_singleton] at hlen
    exact (after_concat reports r (by omega)).1

variable (history) in
/-- A stretch that begins behind twenty reports fills the window. -/
theorem length_stretch (hn : 20 ≤ n) (hlen : n ≤ stretch.length) :
    20 ≤ (history ++ stretch.take n).length := by
  rw [List.length_append, List.length_take]
  omega

variable (history) in
/-- The state while every packet is delayed longer than the one before. -/
theorem state_of_growing (hn : 20 ≤ n) (hlen : n ≤ stretch.length)
    (h : (delays stretch).IsChain (· < ·)) :
    (after (history ++ stretch.take n)).state = .overuse := by
  obtain ⟨hpart, htwo⟩ := window_isInfix history hn hlen
  have hgrows := List.IsChain.infix h hpart
  have hslope := le_computeTrendline (c := 1) htwo
    (hgrows.imp fun d d' hlt => by linarith [Int.add_one_le_iff.2 hlt])
  have hlong := length_stretch history hn hlen
  rw [state_after (by omega), stateOf, if_pos]
  rw [Int.cast_one] at hslope
  linarith

variable (history) in
/-- The state while no packet is. -/
theorem state_of_not_growing (hn : 20 ≤ n) (hlen : n ≤ stretch.length)
    (h : (delays stretch).IsChain (· ≥ ·)) :
    (after (history ++ stretch.take n)).state ≠ .overuse := by
  obtain ⟨hpart, htwo⟩ := window_isInfix history hn hlen
  have hfalls := List.IsChain.infix h hpart
  have hslope := computeTrendline_le (c := 0) htwo
    (hfalls.imp fun d d' hge => by linarith)
  have hlong := length_stretch history hn hlen
  rw [Int.cast_zero] at hslope
  rw [state_after (by omega), stateOf, if_neg (by linarith)]
  split
  · exact State.noConfusion
  · exact State.noConfusion

/-- What the next packet of the stretch does to the rate. -/
theorem estimatedBps_succ (hn : 20 ≤ n) (hlen : n + 1 ≤ stretch.length) :
    (after (history ++ stretch.take (n + 1))).estimatedBps =
      aimd (after (history ++ stretch.take n)).state
        (after (history ++ stretch.take (n + 1))).state
        (after (history ++ stretch.take n)).estimatedBps := by
  have hlong := length_stretch history hn (Nat.le_of_succ_le hlen)
  have hnext : history ++ stretch.take (n + 1) =
      history ++ stretch.take n ++ [stretch[n]] := by
    rw [List.take_succ_eq_append_getElem hlen, List.append_assoc]
  rw [hnext]
  exact (after_concat _ _ (by omega)).2

end Rate

/-- Whatever was reported before, from the twentieth packet of a stretch on: while every packet is
delayed longer than the one before it, the state is `Overuse` and the rate stays as it is; while no
packet is, the state is another one and the rate has gone up by 100 kbit/s with every packet. -/
theorem rate_follows_queue (history stretch : List Report) (n : ℕ) (hn : 20 ≤ n)
    (hlen : n ≤ stretch.length) :
    let before := after (history ++ stretch.take 20)
    let now := after (history ++ stretch.take n)
    ((delays stretch).IsChain (· < ·) →
      now.state = .overuse ∧ now.estimatedBps = before.estimatedBps) ∧
    ((delays stretch).IsChain (· ≥ ·) →
      now.state ≠ .overuse ∧ now.estimatedBps = before.estimatedBps + 100000 * (n - 20)) := by
  constructor
  · intro h
    refine ⟨state_of_growing history hn hlen h, ?_⟩
    induction n, hn using Nat.le_induction with
    | base => rfl
    | succ n hn ih =>
        -- the state was Overuse before this packet and is Overuse with it
        have hlt := Nat.le_of_succ_le hlen
        have hstate := state_of_growing history hn hlt h
        rw [estimatedBps_succ hn hlen, hstate, state_of_growing history (by omega) hlen h, ← ih hlt]
        rfl
  · intro h
    refine ⟨state_of_not_growing history hn hlen h, ?_⟩
    induction n, hn using Nat.le_induction with
    | base => simp
    | succ n hn ih =>
        have hstate := state_of_not_growing history (by omega) hlen h
        -- each of the other two states raises the rate
        have hrise : (after (history ++ stretch.take (n + 1))).state = .normal ∨
            (after (history ++ stretch.take (n + 1))).state = .underuse := by
          cases hcase : (after (history ++ stretch.take (n + 1))).state with
          | normal => exact Or.inl rfl
          | overuse => exact absurd hcase hstate
          | underuse => exact Or.inr rfl
        rw [estimatedBps_succ hn hlen, aimd, if_neg fun hboth => hstate hboth.1, if_pos hrise,
          ih (Nat.le_of_succ_le hlen)]
        push_cast
        ring

/-- Twenty-five packets, sent every 20 ms and received every 21 ms. -/
def slowing : List Report :=
  (List.range 25).map fun i => { sendTimeMs := 20 * i, recvTimeMs := 21 * i }

theorem rate_follows_queue_slowing :
    (after slowing).state = .overuse ∧
      (after slowing).estimatedBps = (after (slowing.take 20)).estimatedBps :=
  (rate_follows_queue [] slowing 25 (by decide) (by decide)).1 (by decide)

end CppMeet.Weak.QueueGrowth
