import WMonitor.RangeMap
import WMonitor.TokenBucket
import WMonitor.Ingest

/-!
# The request limiter

`server/ratelimit.go`: a token bucket for each key, made on the first request of the key and forgotten
by a sweep once it had time to fill up. Tokens, rates and durations are exact; the clock is in
nanoseconds.
-/

namespace WMonitor

open RangeMap

def defaultRatePerSecond : ℚ := 20
def defaultBurst : ℚ := 60
def maxRateBuckets : ℕ := 10000

structure RateBucket where
  tokens : ℚ
  last : ℤ
  deriving DecidableEq

structure RateLimiter where
  buckets : Map String RateBucket
  rate : ℚ
  burst : ℚ
  lastSweep : ℤ

def newRateLimiter (rate burst : ℚ) (now : ℤ) : RateLimiter where
  buckets := ∅
  rate := if rate ≤ 0 then defaultRatePerSecond else rate
  burst := if burst ≤ 0 then defaultBurst else burst
  lastSweep := now

/-- `Duration.Seconds`. -/
def seconds (d : ℤ) : ℚ := d / second

namespace RateLimiter

/-- How long a bucket is idle before a sweep forgets it. -/
def idle (rl : RateLimiter) : ℤ := ⌊rl.burst / rl.rate * second⌋ + minute

def sweepLocked (rl : RateLimiter) (now : ℤ) : RateLimiter :=
  if now - rl.lastSweep < minute then rl
  else { rl with
    lastSweep := now
    buckets := ranged (fun e => now - e.2.last > rl.idle) rl.buckets.entries rl.buckets }

/-- The factor on rate and burst: a shared proxy peer gets headroom for the fleet behind it. -/
def scale (key : String) : ℚ := if key.startsWith "preauth:" then 100 else 1

/-- The key a request is counted under. -/
def keyOf (key : String) : String := if key = "" then "anonymous" else key

/-- The request of a key that has a bucket. -/
def spend (rate burst : ℚ) (now : ℤ) (bucket : RateBucket) : Bool × RateBucket :=
  let elapsed := seconds (now - bucket.last)
  let bucket :=
    if elapsed > 0 then
      let tokens := bucket.tokens + elapsed * rate
      ⟨if tokens > burst then burst else tokens, now⟩
    else bucket
  if bucket.tokens < 1 then (false, bucket) else (true, { bucket with tokens := bucket.tokens - 1 })

def allow (rl : RateLimiter) (key : String) (now : ℤ) : Bool × RateLimiter :=
  let key := keyOf key
  let rl := rl.sweepLocked now
  let rate := rl.rate * scale key
  let burst := rl.burst * scale key
  match rl.buckets.lookup key with
  | none =>
    if size rl.buckets ≥ maxRateBuckets then (false, rl)
    else (true, { rl with buckets := rl.buckets.insert key ⟨burst - 1, now⟩ })
  | some bucket =>
    let (allowed, bucket) := spend rate burst now bucket
    (allowed, { rl with buckets := rl.buckets.insert key bucket })

/-- The decisions on a list of requests, each a key and the time of the call. -/
def decisions (rl : RateLimiter) : List (String × ℤ) → List Bool
  | [] => []
  | (key, now) :: calls => (rl.allow key now).1 :: decisions (rl.allow key now).2 calls

/-- What the limiter is for: a token bucket for each key, and nothing ever forgotten. -/
def unswept (rate burst : ℚ) (buckets : String → Option (TokenBucket.Bucket ℚ)) :
    List (String × ℤ) → List Bool
  | [] => []
  | (key, now) :: calls =>
    let k := keyOf key
    let (allowed, b) :=
      TokenBucket.take (rate * scale k) (burst * scale k) (seconds now) (buckets k)
    allowed :: unswept rate burst (Function.update buckets k (some b)) calls

/-- How many requests of a key were allowed from time `a` to time `a + d`. -/
def allowedWithin (rl : RateLimiter) (calls : List (String × ℤ)) (key : String) (a d : ℤ) : ℕ :=
  (calls.zip (rl.decisions calls)).countP fun c =>
    keyOf c.1.1 = keyOf key ∧ a ≤ c.1.2 ∧ c.1.2 ≤ a + d ∧ c.2 = true

end RateLimiter

end WMonitor
