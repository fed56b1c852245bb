import WMonitor.DrainLoop

/-!
# When the drain loop waits as long as the Hub asked

Each part of the wait is in range: the backoff stays between its bounds (`backoff_bounds`) and the
delay of a header is a positive duration (`retryAfterDelay_bounds`). Their maximum and the jitter may
be more than a duration can hold, and the wait is then negative.
-/

namespace WMonitor

theorem wrapInt64_of_range {n : ℤ} (hlow : -2 ^ 63 ≤ n) (hhigh : n < 2 ^ 63) : wrapInt64 n = n :=
  Int.bmod_eq_of_le_mul_two (by norm_num; omega) (by norm_num; omega)

/-- A sum of two durations that does not fit is negative. -/
theorem wrapInt64_of_overflow {n : ℤ} (hlow : 2 ^ 63 ≤ n) (hhigh : n < 2 ^ 64) : wrapInt64 n < 0 := by
  unfold wrapInt64
  rw [Int.bmod_def]
  norm_num at hlow hhigh ⊢
  split_ifs <;> omega

theorem timeSub_bounds {t u : ℤ} (h : u < t) : 0 < timeSub t u ∧ timeSub t u < 2 ^ 63 := by
  unfold timeSub
  omega

theorem retryAfterDelay_bounds (parseTime : String → Option ℤ) (raw : String) (now : ℤ) :
    0 < retryAfterDelay parseTime raw now ∧ retryAfterDelay parseTime raw now < 2 ^ 63 := by
  unfold retryAfterDelay
  split
  · next seconds h =>
    obtain ⟨-, hrange⟩ := Option.filter_eq_some_iff.mp h
    obtain ⟨hpos, hle⟩ : 0 < seconds ∧ seconds ≤ (2 ^ 63 - 1) / second :=
      of_decide_eq_true hrange
    have hns : second = 1000000000 := rfl
    rw [hns] at hle ⊢
    rw [wrapInt64_of_range (by omega) (by omega)]
    omega
  · split
    · next deadline h =>
      obtain ⟨-, hafter⟩ := Option.filter_eq_some_iff.mp h
      exact timeSub_bounds (of_decide_eq_true hafter)
    · exact ⟨by decide, by decide⟩

/-- A failed pass doubles the backoff up to its limit; what it was stays in range. -/
theorem drainLoopTurn_backoff {backoff : ℤ} (p : DrainPass)
    (h : minBackoff ≤ backoff ∧ backoff ≤ maxBackoff) :
    minBackoff ≤ (drainLoopTurn backoff p).1 ∧ (drainLoopTurn backoff p).1 ≤ maxBackoff := by
  have hmin : minBackoff = 1000000000 := rfl
  have hmax : maxBackoff = 300000000000 := rfl
  unfold drainLoopTurn
  split
  · exact ⟨le_rfl, by decide⟩
  · rw [wrapInt64_of_range (by omega) (by omega)]
    dsimp only
    split_ifs <;> omega

theorem backoff_bounds (passes : List DrainPass) :
    minBackoff ≤ drainLoopBackoff passes ∧ drainLoopBackoff passes ≤ maxBackoff := by
  induction passes using List.reverseRecOn with
  | nil => exact ⟨le_rfl, by decide⟩
  | append_singleton passes p ih =>
    rw [drainLoopBackoff, List.foldl_append]
    exact drainLoopTurn_backoff p ih

theorem ite_gt_eq_max (a b : ℤ) : (if a > b then a else b) = max a b := by
  split_ifs with h
  · exact (max_eq_left h.le).symm
  · exact (max_eq_right (not_lt.mp h)).symm

/-- The delay asked for and the backoff, before the jitter is added. -/
theorem drainLoopTurn_wait (backoff : ℤ) {n : ℕ} {err : SpoolError} {delay : ℤ}
    (hdelay : err.retryAfter = some delay) (jitter : Fin 1000000000) :
    (drainLoopTurn backoff ⟨.error (n, err), jitter⟩).2
      = wrapInt64 (max delay (drainLoopTurn backoff ⟨.error (n, err), jitter⟩).1 + jitter) := by
  simp only [drainLoopTurn, hdelay, ite_gt_eq_max]

/-- A wait of a duration and a jitter is as long as the duration unless the sum does not fit. -/
theorem le_wait_iff {d : ℤ} (h0 : 0 < d) (h63 : d < 2 ^ 63) (jitter : Fin 1000000000) :
    d ≤ wrapInt64 (d + jitter) ↔ d + jitter ≤ 2 ^ 63 - 1 := by
  have hj := jitter.isLt
  constructor
  · intro hle
    by_contra hover
    have hneg := @wrapInt64_of_overflow (d + jitter) (by omega) (by norm_num; omega)
    omega
  · intro hfits
    rw [wrapInt64_of_range (by omega) (by omega)]
    omega

/-- The error of a reply with status 429 is the one that the loop reads the delay from. -/
theorem deliver_rateLimited {η θ : Type} (W : Wire) (parseTime : String → Option ℤ) (raw : String)
    (now : ℤ) (ack : Option Ack) (reauth : Option (SpoolM η θ Unit)) (payloadType : String)
    (body : List UInt8) :
    W.deliver (fun _ _ => pure (.response 429 ack (retryAfterDelay parseTime raw now))) reauth
      payloadType body = .fail (rateLimited parseTime raw now) := rfl

/-- After a reply with status 429, whatever its header says, the wait is as long as the delay and the
backoff exactly if their maximum and the jitter fit into a duration. -/
theorem drainLoop_waits_iff (W : Wire) (parseTime : String → Option ℤ) (raw : String) (now : ℤ)
    (ack : Option Ack) (reauth : Option (SpoolM Unit Unit Unit)) (body : List UInt8)
    (before : List DrainPass) (n : ℕ) (jitter : Fin 1000000000) :
    ∃ err, W.deliver (fun _ _ => pure (.response 429 ack (retryAfterDelay parseTime raw now)))
        reauth "batch" body = .fail err
      ∧ (retryAfterDelay parseTime raw now ≤ drainLoopWait before ⟨.error (n, err), jitter⟩
          ∧ drainLoopBackoff (before ++ [⟨.error (n, err), jitter⟩])
            ≤ drainLoopWait before ⟨.error (n, err), jitter⟩
        ↔ max (retryAfterDelay parseTime raw now)
            (drainLoopBackoff (before ++ [⟨.error (n, err), jitter⟩])) + jitter ≤ 2 ^ 63 - 1) := by
  refine ⟨_, deliver_rateLimited W parseTime raw now ack reauth "batch" body, ?_⟩
  have hdelay := retryAfterDelay_bounds parseTime raw now
  have hbackoff :=
    backoff_bounds (before ++ [⟨.error (n, rateLimited parseTime raw now), jitter⟩])
  have hmax : maxBackoff = 300000000000 := rfl
  have hwait : drainLoopWait before ⟨.error (n, rateLimited parseTime raw now), jitter⟩
      = wrapInt64 (max (retryAfterDelay parseTime raw now)
          (drainLoopBackoff (before ++ [⟨.error (n, rateLimited parseTime raw now), jitter⟩]))
        + jitter) := by
    rw [drainLoopWait, drainLoopTurn_wait _ rfl, drainLoopBackoff, drainLoopBackoff,
      List.foldl_append]
    rfl
  rw [hwait, ← max_le_iff]
  exact le_wait_iff (lt_max_of_lt_left hdelay.1) (max_lt hdelay.2 (by norm_num; omega)) jitter

/-- The Hub asks for a wait of 292 years, and the next request follows at once. -/
theorem drainLoop_wait_wraps :
    retryAfterDelay (fun _ => none) "9223372036" 0 = 9223372036000000000
      ∧ drainLoopWait [] ⟨.error (0, rateLimited (fun _ => none) "9223372036" 0), 999999999⟩
        = -9223372036854775808 + 145224191 := by
  decide +kernel

end WMonitor
