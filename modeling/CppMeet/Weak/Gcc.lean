import CppMeet.Lib.Regression
import CppMeet.Lib.Run
import Mathlib.Algebra.Order.Field.Rat

/-!
# The bandwidth estimator

`GccEstimator` keeps the one-way delays of the last 20 packets, fits a line through them and takes
its slope, in milliseconds for each packet, as the sign of a queue that fills or drains. The rate is
cut when an overuse begins and goes up with every report that does not tell of one.

The arithmetic on `double` values is read over the rationals, and the 64-bit times and rates are
integers.
-/

set_option autoImplicit false

namespace CppMeet.Weak.Gcc

open CppMeet.Lib CppMeet.Lib.Run

/-- `x` is the number of the packet in the window and `y` its delay. -/
structure Sample where
  x : ℚ
  y : ℚ
  deriving DecidableEq, Repr

/-- What the queue of the network does, as the slope of the delays tells. -/
inductive State where
  | normal
  | overuse
  | underuse
  deriving DecidableEq, Repr

/-- The samples of the window, the state and the estimate in bits per second. -/
structure GccEstimator where
  trendlineBuf : List Sample := []
  state : State := .normal
  estimatedBps : ℤ := 1000000
  deriving DecidableEq, Repr

/-- The arguments of a call of `on_packet_arrival`. -/
structure Report where
  sendTimeMs : ℤ
  recvTimeMs : ℤ
  deriving DecidableEq, Repr

/-- The samples in the window. -/
def trendlineWin : ℕ := 20

/-- `static_cast<int64_t>` drops the fraction. -/
def truncate (v : ℚ) : ℤ := v.num.tdiv v.den

/-- The `x` of the samples become their positions. -/
def renumber (buf : List Sample) : List Sample := buf.mapIdx fun i s => { s with x := i }

/-- The buffer with one delay more, and the oldest one gone once there are too many. -/
def pushSample (buf : List Sample) (delay : ℤ) : List Sample :=
  let buf := buf ++ [{ x := buf.length, y := delay }]
  if buf.length > trendlineWin then renumber buf.tail else buf

/-- The slope of the least squares line through the samples, 0 where there is none. -/
def computeTrendline (buf : List Sample) : ℚ :=
  let n := buf.length
  if n < 2 then 0
  else
    let meanX := (buf.map Sample.x).sum / n
    let meanY := (buf.map Sample.y).sum / n
    let num := (buf.map fun s => (s.x - meanX) * (s.y - meanY)).sum
    let den := (buf.map fun s => (s.x - meanX) * (s.x - meanX)).sum
    if |den| < 1 / 1000000000 then 0 else num / den

/-- The slope is a quotient of codeviations. -/
theorem computeTrendline_eq (buf : List Sample) :
    computeTrendline buf =
      if buf.length < 2 then 0
      else if |Regression.codeviation Sample.x Sample.x buf| < 1 / 1000000000 then 0
      else Regression.codeviation Sample.x Sample.y buf /
        Regression.codeviation Sample.x Sample.x buf := rfl

/-- The state that a slope stands for. -/
def stateOf (slope : ℚ) : State :=
  if slope > 1 / 2 then .overuse
  else if slope < -1 / 2 then .underuse
  else .normal

/-- The control of the rate: additive increase, multiplicative decrease. -/
def aimd (prevState state : State) (estimatedBps : ℤ) : ℤ :=
  if state = .overuse ∧ prevState ≠ .overuse then
    let reduced := truncate (estimatedBps * (85 / 100))
    if reduced < 50000 then 50000 else reduced
  else if state = .normal ∨ state = .underuse then estimatedBps + 100000
  else estimatedBps

namespace GccEstimator

/-- The rest of the call, once the delay is in the buffer. -/
def adapt (e : GccEstimator) (buf : List Sample) : GccEstimator :=
  if buf.length < 4 then { e with trendlineBuf := buf }
  else
    let state := stateOf (computeTrendline buf)
    { trendlineBuf := buf, state := state, estimatedBps := aimd e.state state e.estimatedBps }

/-- A report adds the delay it shows, and the state and the estimate follow the new slope. -/
def onPacketArrival (e : GccEstimator) (r : Report) : GccEstimator :=
  let delay := r.recvTimeMs - r.sendTimeMs
  e.adapt (pushSample e.trendlineBuf delay)

end GccEstimator

/-- `state_` and `estimated_bps_` after every call. -/
def decisions (e : GccEstimator) (reports : List Report) : List (State × ℤ) :=
  trace GccEstimator.onPacketArrival
    (fun e r => [((e.onPacketArrival r).state, (e.onPacketArrival r).estimatedBps)]) e reports

end CppMeet.Weak.Gcc
