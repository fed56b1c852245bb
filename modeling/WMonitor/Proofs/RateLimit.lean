import WMonitor.RateLimit

/-!
# The limiter is a token bucket per key

A sweep forgets a bucket only after it had time to fill up, so forgetting it changes no decision: the
limiter's buckets follow those of a limiter that keeps everything (`Follows`), as long as the table
has room for every key. The bound on what a key is allowed in a span of time is then that of one
bucket.
-/

namespace WMonitor

open RangeMap TokenBucket

theorem seconds_sub (a b : ℤ) : seconds (a - b) = seconds a - seconds b := by
  simp [seconds, sub_div]

theorem seconds_le {a b : ℤ} : seconds a ≤ seconds b ↔ a ≤ b := by
  have hpos : (0 : ℚ) < second := by norm_num [second]
  rw [seconds, seconds, div_le_div_iff_of_pos_right hpos, Int.cast_le]

theorem seconds_nonneg {a : ℤ} (h : 0 ≤ a) : 0 ≤ seconds a := by
  simpa [seconds] using seconds_le.mpr h

/-- The token bucket that a bucket of the limiter is. -/
def RateBucket.view (b : RateBucket) : Bucket ℚ := ⟨b.tokens, seconds b.last⟩

namespace RateLimiter

theorem scale_ge_one (key : String) : 1 ≤ scale key := by
  unfold scale
  split_ifs <;> norm_num

section Buckets

variable {rate burst : ℚ} {b : RateBucket} {s t now : ℤ}

theorem cap_eq_min (x burst : ℚ) : (if x > burst then burst else x) = min burst x := by
  rcases lt_or_ge burst x with h | h
  · rw [if_pos h, min_eq_left h.le]
  · rw [if_neg (not_lt.mpr h), min_eq_right h]

theorem spend_view (rate burst : ℚ) (now : ℤ) (b : RateBucket) :
    ((spend rate burst now b).1, (spend rate burst now b).2.view)
      = b.view.take rate burst (seconds now) := by
  have hrefill : (if seconds (now - b.last) > 0 then
        (⟨if b.tokens + seconds (now - b.last) * rate > burst then burst
          else b.tokens + seconds (now - b.last) * rate, now⟩ : RateBucket)
      else b).view = b.view.refill rate burst (seconds now) := by
    rw [cap_eq_min, seconds_sub]
    by_cases hlt : seconds b.last < seconds now
    · rw [if_pos (sub_pos.mpr hlt)]
      exact (if_pos hlt).symm
    · rw [if_neg (by simpa using hlt)]
      exact (if_neg hlt).symm
  rw [Bucket.take, ← hrefill, spend]
  simp only [RateBucket.view]
  split_ifs <;> rfl

/-- The limiter's bucket for a key, and the one that is never forgotten: they are the same, or the
limiter has none and the other one is full. -/
def Tracks (rate burst : ℚ) (t : ℤ) : Option RateBucket → Option (Bucket ℚ) → Prop
  | none, none => True
  | none, some c => c.Sound burst (seconds t) ∧ c.Fills rate burst (seconds t)
  | some b, c => c = some b.view ∧ b.view.Sound burst (seconds t)

theorem Tracks.mono {ob : Option RateBucket} {oc : Option (Bucket ℚ)} (hr : 0 ≤ rate)
    (h : Tracks rate burst s ob oc) (hst : s ≤ t) : Tracks rate burst t ob oc := by
  have hle : seconds s ≤ seconds t := seconds_le.mpr hst
  match ob, oc, h with
  | none, none, _ => trivial
  | none, some _, ⟨hs, hf⟩ => exact ⟨⟨hs.nonneg, hs.le, hs.last.trans hle⟩, hf.mono hr hle⟩
  | some _, _, ⟨hc, hs⟩ => exact ⟨hc, hs.nonneg, hs.le, hs.last.trans hle⟩

theorem Tracks.sound {ob : Option RateBucket} {oc : Option (Bucket ℚ)}
    (h : Tracks rate burst t ob oc) : ∀ c ∈ oc, c.Sound burst (seconds t) := by
  intro c hc
  match ob, oc, h with
  | none, some _, ⟨hs, _⟩ => rw [Option.mem_some.mp hc] at hs; exact hs
  | some _, _, ⟨heq, hs⟩ =>
    rw [heq] at hc
    rwa [← Option.mem_some.mp hc]

/-- Forgetting a bucket that fills up. -/
theorem Tracks.forget {oc : Option (Bucket ℚ)} (h : Tracks rate burst t (some b) oc)
    (hf : b.view.Fills rate burst (seconds t)) : Tracks rate burst t none oc := by
  obtain ⟨rfl, hs⟩ := h
  exact ⟨hs, hf⟩

/-- A request of a key without a bucket is answered as the full bucket answers it. -/
theorem Tracks.take_none {oc : Option (Bucket ℚ)} (hb : 1 ≤ burst)
    (h : Tracks rate burst t none oc) :
    take rate burst (seconds t) oc = (true, (⟨burst - 1, t⟩ : RateBucket).view) := by
  cases oc with
  | none => rfl
  | some c => exact take_of_fills hb h.1 h.2

end Buckets

/-- The limiter at time `t`, all of whose keys are among `keys`, follows the buckets `σ`. -/
structure Follows (keys : Finset String) (rate burst : ℚ) (t : ℤ) (rl : RateLimiter)
    (σ : String → Option (Bucket ℚ)) : Prop where
  rate_eq : rl.rate = rate
  burst_eq : rl.burst = burst
  among : ∀ k ∈ rl.buckets, k ∈ keys
  tracks : ∀ k, Tracks (rate * scale k) (burst * scale k) t (rl.buckets.lookup k) (σ k)

section Runs

variable {keys : Finset String} {rate burst : ℚ} {s t now : ℤ} {rl : RateLimiter}
  {σ : String → Option (Bucket ℚ)} {key : String}

theorem follows_new (start : ℤ) (hr : 0 < rate) (hb : 1 ≤ burst) :
    Follows keys rate burst t (newRateLimiter rate burst start) fun _ => none where
  rate_eq := if_neg (not_le.mpr hr)
  burst_eq := if_neg (not_le.mpr (by linarith))
  among := fun _ hk => absurd hk (AList.notMem_empty _)
  tracks := fun _ => trivial

/-- A bucket idle for longer than `idle` has filled up. -/
theorem fills_of_idle (hr : 0 < rl.rate) (key : String) {b : RateBucket}
    (hnonneg : 0 ≤ b.tokens) (hlast : b.last ≤ now) (hidle : now - b.last > rl.idle) :
    b.view.Fills (rl.rate * scale key) (rl.burst * scale key) (seconds now) := by
  have hsecond : (0 : ℚ) < second := by norm_num [second]
  have hns : rl.burst / rl.rate * second ≤ ((now - b.last : ℤ) : ℚ) := by
    have hfloor := (Int.lt_floor_add_one (rl.burst / rl.rate * (second : ℚ))).le
    have hgap : ⌊rl.burst / rl.rate * (second : ℚ)⌋ + 1 ≤ now - b.last := by
      unfold idle at hidle
      norm_num [minute, second] at hidle ⊢
      omega
    exact hfloor.trans (by exact_mod_cast hgap)
  have hwait : rl.burst / rl.rate ≤ seconds now - seconds b.last := by
    rw [← seconds_sub, seconds, le_div_iff₀ hsecond]
    exact hns
  have hgain : rl.burst * scale key
      ≤ (seconds now - seconds b.last) * (rl.rate * scale key) := by
    rw [div_le_iff₀ hr] at hwait
    rw [← mul_assoc]
    exact mul_le_mul_of_nonneg_right hwait (by linarith [scale_ge_one key])
  exact ⟨seconds_le.mpr hlast, hgain.trans (le_add_of_nonneg_left hnonneg)⟩

theorem Follows.mono (h : Follows keys rate burst s rl σ) (hr : 0 < rate) (hst : s ≤ t) :
    Follows keys rate burst t rl σ := by
  refine ⟨h.rate_eq, h.burst_eq, h.among, fun k => (h.tracks k).mono ?_ hst⟩
  exact mul_nonneg hr.le (by linarith [scale_ge_one k])

theorem Follows.sweep (h : Follows keys rate burst t rl σ) (hr : 0 < rate) :
    Follows keys rate burst t (rl.sweepLocked t) σ := by
  unfold sweepLocked
  split_ifs with hsoon
  · exact h
  refine ⟨h.rate_eq, h.burst_eq, fun k hk => ?_, fun k => ?_⟩
  · rw [← AList.lookup_isSome, lookup_ranged (List.Perm.refl _)] at hk
    exact h.among k (AList.lookup_isSome.mp (Option.isSome_of_isSome_filter _ _ hk))
  · have hk := h.tracks k
    rw [lookup_ranged (List.Perm.refl _)]
    cases hl : rl.buckets.lookup k with
    | none => rwa [hl] at hk
    | some b =>
      rw [hl] at hk
      by_cases hidle : t - b.last > rl.idle
      · rw [Option.filter_some_neg (by simpa using hidle)]
        have hf := fills_of_idle (h.rate_eq ▸ hr) k hk.2.nonneg (seconds_le.mp hk.2.last) hidle
        rw [h.rate_eq, h.burst_eq] at hf
        exact hk.forget hf
      · rw [Option.filter_some_pos (by simpa using hidle)]
        exact hk

theorem Follows.insert (h : Follows keys rate burst t rl σ) {k : String} (hk : k ∈ keys)
    {b : RateBucket} (hs : b.view.Sound (burst * scale k) (seconds t)) :
    Follows keys rate burst t { rl with buckets := rl.buckets.insert k b }
      (Function.update σ k (some b.view)) := by
  refine ⟨h.rate_eq, h.burst_eq, fun k' hk' => ?_, fun k' => ?_⟩
  · rcases (AList.mem_insert _).mp hk' with rfl | hk'
    · exact hk
    · exact h.among k' hk'
  · by_cases heq : k' = k
    · subst heq
      rw [AList.lookup_insert, Function.update_self]
      exact ⟨rfl, hs⟩
    · rw [AList.lookup_insert_ne heq, Function.update_of_ne heq]
      exact h.tracks k'

/-- A key without a bucket finds room for one. -/
theorem Follows.room (h : Follows keys rate burst t rl σ) (hroom : keys.card < maxRateBuckets)
    {k : String} (hk : k ∈ keys) (hnone : rl.buckets.lookup k = none) :
    size rl.buckets < maxRateBuckets := by
  have hsub : rl.buckets.keys.toFinset ⊆ keys.erase k := by
    intro k' hk'
    rw [List.mem_toFinset, ← AList.mem_keys] at hk'
    refine Finset.mem_erase.mpr ⟨?_, h.among k' hk'⟩
    rintro rfl
    exact AList.lookup_eq_none.mp hnone hk'
  have hcard := Finset.card_le_card hsub
  rw [List.toFinset_card_of_nodup rl.buckets.keys_nodup, Finset.card_erase_of_mem hk] at hcard
  have hsize : size rl.buckets = rl.buckets.keys.length := (List.length_map _).symm
  omega

theorem allow_of_none (hl : (rl.sweepLocked now).buckets.lookup (keyOf key) = none)
    (hroom : size (rl.sweepLocked now).buckets < maxRateBuckets) :
    rl.allow key now = (true, { rl.sweepLocked now with
      buckets := (rl.sweepLocked now).buckets.insert (keyOf key)
        ⟨(rl.sweepLocked now).burst * scale (keyOf key) - 1, now⟩ }) := by
  simp only [RateLimiter.allow, hl]
  exact if_neg (not_le.mpr hroom)

theorem allow_of_some {b : RateBucket}
    (hl : (rl.sweepLocked now).buckets.lookup (keyOf key) = some b) :
    rl.allow key now =
      ((spend ((rl.sweepLocked now).rate * scale (keyOf key))
          ((rl.sweepLocked now).burst * scale (keyOf key)) now b).1,
        { rl.sweepLocked now with
          buckets := (rl.sweepLocked now).buckets.insert (keyOf key)
            (spend ((rl.sweepLocked now).rate * scale (keyOf key))
              ((rl.sweepLocked now).burst * scale (keyOf key)) now b).2 }) := by
  simp only [RateLimiter.allow, hl]

/-- One request: the limiter decides as the bucket of the key does, and goes on following. -/
theorem Follows.allow (h : Follows keys rate burst t rl σ) (hr : 0 < rate) (hb : 1 ≤ burst)
    (hroom : keys.card < maxRateBuckets) (hk : keyOf key ∈ keys) :
    (rl.allow key t).1
        = (take (rate * scale (keyOf key)) (burst * scale (keyOf key)) (seconds t)
          (σ (keyOf key))).1
      ∧ Follows keys rate burst t (rl.allow key t).2
        (Function.update σ (keyOf key)
          (some (take (rate * scale (keyOf key)) (burst * scale (keyOf key)) (seconds t)
            (σ (keyOf key))).2)) := by
  have hscale := scale_ge_one (keyOf key)
  have hburst : 1 ≤ burst * scale (keyOf key) := one_le_mul_of_one_le_of_one_le hb hscale
  have hrate : 0 ≤ rate * scale (keyOf key) := mul_nonneg hr.le (by linarith)
  have hsw := h.sweep hr
  have htr := hsw.tracks (keyOf key)
  have hsound := (take_sound hrate hburst htr.sound le_rfl).1
  cases hl : (rl.sweepLocked t).buckets.lookup (keyOf key) with
  | none =>
    rw [hl] at htr
    rw [htr.take_none hburst] at hsound ⊢
    rw [allow_of_none hl (hsw.room hroom hk hl), hsw.burst_eq]
    exact ⟨rfl, hsw.insert hk hsound⟩
  | some b =>
    rw [hl] at htr
    have htake : take (rate * scale (keyOf key)) (burst * scale (keyOf key)) (seconds t)
        (σ (keyOf key)) = ((spend (rate * scale (keyOf key)) (burst * scale (keyOf key)) t b).1,
          (spend (rate * scale (keyOf key)) (burst * scale (keyOf key)) t b).2.view) := by
      rw [htr.1, spend_view]
      rfl
    rw [htake] at hsound ⊢
    rw [allow_of_some hl, hsw.rate_eq, hsw.burst_eq]
    exact ⟨rfl, hsw.insert hk hsound⟩

theorem decisions_eq_unswept (calls : List (String × ℤ)) (hr : 0 < rate) (hb : 1 ≤ burst)
    (hroom : keys.card < maxRateBuckets) (hkeys : ∀ c ∈ calls, keyOf c.1 ∈ keys)
    (hsorted : (t :: calls.map Prod.snd).Pairwise (· ≤ ·))
    (h : Follows keys rate burst t rl σ) :
    rl.decisions calls = unswept rate burst σ calls := by
  induction calls generalizing t rl σ with
  | nil => rfl
  | cons c calls ih =>
    obtain ⟨key, now⟩ := c
    rw [List.map_cons, List.pairwise_cons] at hsorted
    have hnow := h.mono hr (hsorted.1 now (by simp))
    obtain ⟨hdec, hnext⟩ := hnow.allow hr hb hroom (hkeys (key, now) (by simp))
    rw [decisions, unswept, hdec]
    rw [ih (fun c hc => hkeys c (List.mem_cons_of_mem _ hc)) hsorted.2 hnext]

/-- A key's requests among all requests. -/
def timesOf (key : String) (calls : List (String × ℤ)) : List ℚ :=
  (calls.filter fun c => keyOf c.1 = key).map fun c => seconds c.2

/-- The requests of other keys do not matter to a key. -/
theorem unswept_of_key (key : String) (a d : ℤ) (calls : List (String × ℤ)) :
    ((calls.zip (unswept rate burst σ calls)).countP fun c =>
        keyOf c.1.1 = key ∧ a ≤ c.1.2 ∧ c.1.2 ≤ a + d ∧ c.2 = true)
      = grants (fun t => seconds a ≤ t ∧ t ≤ seconds a + seconds d) (rate * scale key)
          (burst * scale key) (σ key) (timesOf key calls) := by
  induction calls generalizing σ with
  | nil => rfl
  | cons c calls ih =>
    obtain ⟨k, now⟩ := c
    have hspan : (seconds a ≤ seconds now ∧ seconds now ≤ seconds a + seconds d)
        ↔ a ≤ now ∧ now ≤ a + d := by
      have hadd : seconds a + seconds d = seconds (a + d) := by simp [seconds, add_div]
      rw [hadd, seconds_le, seconds_le]
    simp only [unswept, List.zip_cons_cons, List.countP_cons]
    rw [ih]
    by_cases hk : keyOf k = key
    · subst hk
      simp only [timesOf, List.filter_cons_of_pos, decide_true, List.map_cons, grants,
        TokenBucket.decisions, List.zip_cons_cons, List.countP_cons, Function.update_self,
        true_and, hspan]
      simp only [and_assoc]
    · have htimes : timesOf key ((k, now) :: calls) = timesOf key calls := by
        rw [timesOf, List.filter_cons_of_neg (by simpa using hk), timesOf]
      rw [htimes, Function.update_of_ne (Ne.symm hk)]
      simp [hk]

theorem pairwise_headD {α : Type*} {r : α → α → Prop} [Std.Refl r] {l : List α} (x : α)
    (h : l.Pairwise r) : (l.headD x :: l).Pairwise r := by
  cases l with
  | nil => exact List.pairwise_singleton r x
  | cons y l =>
    refine List.pairwise_cons.mpr ⟨fun z hz => ?_, h⟩
    rcases List.mem_cons.mp hz with rfl | hz
    · exact Std.Refl.refl _
    · exact (List.pairwise_cons.mp h).1 z hz

theorem timesOf_sorted (key : String) {calls : List (String × ℤ)}
    (h : (calls.map Prod.snd).Pairwise (· ≤ ·)) : (timesOf key calls).Pairwise (· ≤ ·) := by
  rw [List.pairwise_map] at h
  refine List.pairwise_map.mpr ((h.filter _).imp fun hle => seconds_le.mpr hle)

end Runs

end RateLimiter

end WMonitor
