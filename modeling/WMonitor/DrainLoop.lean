import WMonitor.Delivery
import WMonitor.Time

/-!
# The waits of the drain loop

`drainLoop` and `retryAfterDelay` of `agent/agent.go`. Durations are `int64` nanoseconds, so that sums
and products wrap around. What `http.ParseTime` makes of a text is a parameter, and the jitter of each
wait is what `rand.Int63n` returns.
-/

namespace WMonitor

def minBackoff : ℤ := second
def maxBackoff : ℤ := 5 * minute

/-- The `int64` that an exact result becomes. -/
def wrapInt64 (n : ℤ) : ℤ := n.bmod (2 ^ 64)

def retryAfterDelay (parseTime : String → Option ℤ) (raw : String) (now : ℤ) : ℤ :=
  match (atoi raw.toList).filter fun s => 0 < s ∧ s ≤ (2 ^ 63 - 1) / second with
  | some seconds => wrapInt64 (seconds * second)
  | none =>
    match (parseTime raw).filter (now < ·) with
    | some deadline => timeSub deadline now
    | none => minBackoff

/-- What a pass of `DrainBatches` returned, and the jitter that is drawn if it failed. -/
structure DrainPass where
  result : Except (ℕ × SpoolError) ℕ
  jitter : Fin 1000000000

/-- `errors.As(err, &retry)`: the delay of an error that may be retried. -/
def SpoolError.retryAfter : SpoolError → Option ℤ
  | .deliver _ delay => delay
  | _ => none

/-- One turn of `drainLoop` after the pass: the new backoff, and the wait that the timer is given. -/
def drainLoopTurn (backoff : ℤ) (p : DrainPass) : ℤ × ℤ :=
  match p.result with
  | .ok _ => (minBackoff, 250000000)
  | .error (_, err) =>
    let backoff := wrapInt64 (backoff * 2)
    let backoff := if backoff > maxBackoff then maxBackoff else backoff
    let wait := match err.retryAfter with
      | some retryAfter => if retryAfter > backoff then retryAfter else backoff
      | none => backoff
    (backoff, wrapInt64 (wait + p.jitter))

/-- The backoff of `drainLoop` after some passes. -/
def drainLoopBackoff (passes : List DrainPass) : ℤ :=
  passes.foldl (fun backoff p => (drainLoopTurn backoff p).1) minBackoff

/-- The wait of `drainLoop` after a pass, when there were others before it. -/
def drainLoopWait (before : List DrainPass) (p : DrainPass) : ℤ :=
  (drainLoopTurn (drainLoopBackoff before) p).2

/-- The error of `deliver` for a reply with status 429. -/
def rateLimited (parseTime : String → Option ℤ) (raw : String) (now : ℤ) : SpoolError :=
  retryable "agent: rate or accepted-data budget exceeded" (retryAfterDelay parseTime raw now)

end WMonitor
