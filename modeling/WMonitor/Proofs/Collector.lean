import WMonitor.Collector
import WMonitor.Proofs.Arith

/-!
# The rates of a poll

A poll compares its counters with those of the poll before, whether that one could read them or not.
What it reports is the increase since the last reading unless the poll before failed; then it is
everything since the system started, and that is no more than the increase just when the last
reading was still zero (`rates_iff`).
-/

namespace WMonitor

/-! ## The increase of two counters -/

theorem toNat_counterDelta (cur prev : UInt64) :
    (counterDelta cur prev).1.toNat = cur.toNat - prev.toNat := by
  unfold counterDelta
  split_ifs with h
  · have h := UInt64.lt_iff_toNat_lt.1 h
    simp
    omega
  · exact UInt64.toNat_sub_of_le _ _ (UInt64.not_lt.1 h)

/-- The sum of the increases may wrap around, and is then smaller. -/
theorem deltas_le {cur prev : UInt64 × UInt64} {d : UInt64} (h : deltas cur prev = some d) :
    d.toNat ≤ (cur.1.toNat - prev.1.toNat) + (cur.2.toNat - prev.2.toNat) := by
  simp only [deltas] at h
  split_ifs at h
  cases h
  rw [UInt64.toNat_add, toNat_counterDelta, toNat_counterDelta]
  exact Nat.mod_le _ _

theorem deltas_zero (cur : UInt64 × UInt64) : deltas cur (0, 0) = some (cur.1 + cur.2) := by
  simp [deltas, counterDelta]

/-! ## The last reading -/

variable (read : Poll → Option (UInt64 × UInt64))

/-- The counters as the polls last read them. -/
def lastRead (polls : List Poll) : Option (UInt64 × UInt64) := (polls.filterMap read).getLast?

/-- How much both counters together increased since they were last read, nothing when they were not
or are not read. -/
def increase (polls : List Poll) (p : Poll) : ℕ :=
  match lastRead read polls, read p with
  | some prev, some cur => (cur.1.toNat - prev.1.toNat) + (cur.2.toNat - prev.2.toNat)
  | _, _ => 0

/-- Whenever a poll reads the counters after one that could not, some time later, all they counted
since the system started is no more than their increase. -/
def NoStaleRead (polls : List Poll) : Prop :=
  ∀ pre q p post cur, polls = pre ++ q :: p :: post → read q = none → read p = some cur →
    q.now ≠ zeroTime → 0 < timeSub p.now q.now →
    (cur.1 + cur.2).toNat ≤ increase read pre p

/-- What a poll makes of its counters and those of the poll before, over so many units of time. -/
def pollRate (unit : ℚ) (q p : Poll) : F64 :=
  if q.now = zeroTime ∨ ¬ 0 < timeSub p.now q.now then .fin 0
  else match deltas ((read p).getD (0, 0)) ((read q).getD (0, 0)) with
    | none => .fin 0
    | some d => .fin (d.toNat / (timeSub p.now q.now * unit))

/-- The rate is that of an increase of no more than `n`. -/
def RateWithin (rate : F64) (unit : ℚ) (elapsed : ℤ) (n : ℕ) : Prop :=
  ∃ v, rate = .fin v ∧ v * (elapsed * unit) ≤ n

variable {read} {unit : ℚ} {q p : Poll} {pre : List Poll}

theorem lastRead_concat (pre : List Poll) (q : Poll) :
    lastRead read (pre ++ [q]) = (read q).or (lastRead read pre) := by
  unfold lastRead
  rw [List.filterMap_append]
  rcases h : read q with _ | cur <;> simp [List.filterMap, h]

/-- The rate of a poll is within the increase unless the poll before could not read. -/
theorem pollRate_within_iff (hunit : 0 < unit) :
    RateWithin (pollRate read unit q p) unit (timeSub p.now q.now) (increase read (pre ++ [q]) p)
      ↔ ∀ cur, read q = none → read p = some cur → q.now ≠ zeroTime → 0 < timeSub p.now q.now →
        (cur.1 + cur.2).toNat ≤ increase read pre p := by
  unfold pollRate
  by_cases htime : q.now = zeroTime ∨ ¬ 0 < timeSub p.now q.now
  · rw [if_pos htime]
    refine ⟨fun _ cur _ _ hz he => absurd htime (by tauto), fun _ => ⟨0, rfl, by simp⟩⟩
  rw [if_neg htime]
  simp only [not_or, not_not] at htime
  have hscale : (0 : ℚ) < timeSub p.now q.now * unit :=
    mul_pos (by exact_mod_cast htime.2) hunit
  have hwithin : ∀ (d : UInt64) (n : ℕ),
      RateWithin (.fin (d.toNat / (timeSub p.now q.now * unit))) unit (timeSub p.now q.now) n
        ↔ d.toNat ≤ n := by
    intro d n
    constructor
    · rintro ⟨v, hv, hle⟩
      cases hv
      rw [div_mul_cancel₀ _ hscale.ne'] at hle
      exact_mod_cast hle
    · intro hle
      refine ⟨_, rfl, ?_⟩
      rw [div_mul_cancel₀ _ hscale.ne']
      exact_mod_cast hle
  have hzero : ∀ n, RateWithin (.fin 0) unit (timeSub p.now q.now) n :=
    fun n => ⟨0, rfl, by simp⟩
  have hlast : increase read (pre ++ [q]) p = match (read q).or (lastRead read pre), read p with
      | some prev, some cur => (cur.1.toNat - prev.1.toNat) + (cur.2.toNat - prev.2.toNat)
      | _, _ => 0 := by
    rw [increase, lastRead_concat]
  rcases hp : read p with _ | cur
  · refine ⟨fun _ cur _ h => (by cases h), fun _ => ?_⟩
    rw [Option.getD_none]
    split
    · exact hzero _
    · rename_i d hd
      rw [hwithin]
      have := deltas_le hd
      simp at this
      simp [this]
  · rw [Option.getD_some]
    rcases hq : read q with _ | prev
    · have hsame : increase read (pre ++ [q]) p = increase read pre p := by
        rw [increase, lastRead_concat, hq]
        rfl
      rw [Option.getD_none, deltas_zero, hsame, hwithin]
      refine ⟨fun h cur' _ hcur _ _ => ?_, fun h => h cur rfl rfl htime.1 htime.2⟩
      rw [← Option.some.inj hcur]
      exact h
    · refine ⟨fun _ cur' h => (by cases h), fun _ => ?_⟩
      rw [Option.getD_some, hlast, hq, hp]
      split
      · exact hzero _
      · rename_i d hd
        rw [hwithin]
        exact deltas_le hd

/-! ## Runs of polls -/

namespace Collector

variable {c : Collector} {polls : List Poll}

/-- The bytes that were sent and received over all interfaces. -/
def netBytes (c : Collector) (p : Poll) : Option (UInt64 × UInt64) :=
  (p.traffic c.externalIface).map fun t => (t.sent, t.recv)

theorem after_concat (c : Collector) (pre : List Poll) (q : Poll) :
    c.after exactArith (pre ++ [q]) = ((c.after exactArith pre).collect exactArith q).1 :=
  Run.run_append

theorem collect_externalIface (c : Collector) (p : Poll) :
    (c.collect exactArith p).1.externalIface = c.externalIface := by
  unfold collect
  split_ifs <;> rfl

theorem after_externalIface (c : Collector) (polls : List Poll) :
    (c.after exactArith polls).externalIface = c.externalIface := by
  induction polls using List.reverseRecOn with
  | nil => rfl
  | append_singleton pre q ih => rw [after_concat, collect_externalIface, ih]

/-- What a poll compares with is what the poll before found. -/
theorem collect_prev (c : Collector) (q : Poll) :
    (c.collect exactArith q).1.prevTime = q.now
      ∧ ((c.collect exactArith q).1.prevReadOps, (c.collect exactArith q).1.prevWriteOps)
        = q.diskOps.getD (0, 0)
      ∧ ((c.collect exactArith q).1.prevNetSent, (c.collect exactArith q).1.prevNetRecv)
        = (c.netBytes q).getD (0, 0) := by
  have hnet : (c.netBytes q).getD (0, 0)
      = (((q.traffic c.externalIface).getD ⟨0, 0, 0, 0, 0, 0⟩).sent,
        ((q.traffic c.externalIface).getD ⟨0, 0, 0, 0, 0, 0⟩).recv) := by
    unfold netBytes
    cases q.traffic c.externalIface <;> rfl
  rw [hnet]
  unfold collect
  split_ifs <;> exact ⟨rfl, rfl, rfl⟩

/-- The rates are within the increase of the counters since they were last read. -/
structure RatesWithin (c : Collector) (pre : List Poll) (p : Poll) : Prop where
  disk : RateWithin ((c.after exactArith pre).metric exactArith p).diskIOPS (1 / 10 ^ 9)
    (timeSub p.now (c.after exactArith pre).prevTime) (increase Poll.diskOps pre p)
  net : RateWithin ((c.after exactArith pre).metric exactArith p).netMBps (1024 * 1024 / 10 ^ 9)
    (timeSub p.now (c.after exactArith pre).prevTime) (increase c.netBytes pre p)

theorem metric_rates (c : Collector) (q p : Poll) :
    ((c.collect exactArith q).1.metric exactArith p).diskIOPS
        = pollRate Poll.diskOps (1 / 10 ^ 9) q p
      ∧ ((c.collect exactArith q).1.metric exactArith p).netMBps
        = pollRate c.netBytes (1024 * 1024 / 10 ^ 9) q p := by
  obtain ⟨htime, hops, hnet⟩ := collect_prev c q
  have hiface := collect_externalIface c q
  generalize (c.collect exactArith q).1 = c' at *
  have hcur : (c'.netBytes p).getD (0, 0)
      = (((p.traffic c'.externalIface).getD ⟨0, 0, 0, 0, 0, 0⟩).sent,
        ((p.traffic c'.externalIface).getD ⟨0, 0, 0, 0, 0, 0⟩).recv) := by
    unfold netBytes
    cases p.traffic c'.externalIface <;> rfl
  have hsame : c'.netBytes = c.netBytes := by
    unfold netBytes
    rw [hiface]
  have helapsed : (F64.fin 0).lt (exactArith.seconds (timeSub p.now q.now)) = true
      ↔ 0 < timeSub p.now q.now := by
    rw [seconds_exact, fin_lt_fin, div_pos_iff_of_pos_right (by norm_num)]
    exact_mod_cast Iff.rfl
  simp only [metric, rates, pollRate]
  rw [← hcur, hsame, hops, hnet, htime]
  by_cases hz : q.now = zeroTime
  · simp only [if_pos hz, if_pos (Or.inl hz)]
    exact ⟨trivial, trivial⟩
  by_cases hpos : 0 < timeSub p.now q.now
  · have hne : (timeSub p.now q.now : ℚ) ≠ 0 := by exact_mod_cast hpos.ne'
    have hdisk : ∀ d : ℤ, exactArith.div (exactArith.ofInt d)
        (exactArith.seconds (timeSub p.now q.now))
          = .fin (d / (timeSub p.now q.now * (1 / 10 ^ 9))) := by
      intro d
      rw [seconds_exact, exact_ofInt, exact_div (div_ne_zero hne (by norm_num)), mul_one_div]
    have hnet : ∀ d : ℤ, exactArith.div (exactArith.ofInt d)
        (exactArith.mul (exactArith.mul (exactArith.seconds (timeSub p.now q.now))
          (exactArith.lit 1024)) (exactArith.lit 1024))
          = .fin (d / (timeSub p.now q.now * (1024 * 1024 / 10 ^ 9))) := by
      intro d
      rw [seconds_exact, exact_lit, exact_mul, exact_mul, exact_ofInt, exact_div]
      · congr 2
        ring
      · exact mul_ne_zero (mul_ne_zero (div_ne_zero hne (by norm_num)) (by norm_num)) (by norm_num)
    simp only [if_neg hz, helapsed.2 hpos, if_neg (not_or.2 ⟨hz, not_not.2 hpos⟩), hdisk, hnet,
      Int.cast_natCast]
    exact ⟨rfl, rfl⟩
  · have hlt : (F64.fin 0).lt (exactArith.seconds (timeSub p.now q.now)) = false := by
      rw [← Bool.not_eq_true, helapsed]
      exact hpos
    simp only [if_neg hz, hlt, if_pos (Or.inr hpos : q.now = zeroTime ∨ ¬ 0 < timeSub p.now q.now)]
    exact ⟨rfl, rfl⟩

/-- In a run from a new collector, the rates of every poll are within the increase of the counters
since they were last read just when no poll reads them after one that could not, unless they counted
no more than that since the system started. -/
theorem rates_iff (host : Option String) (counts : Option ℤ) (serverID externalIface : String)
    (polls : List Poll) :
    (∀ pre p post, polls = pre ++ p :: post →
        (Collector.new host counts serverID externalIface).RatesWithin pre p)
      ↔ NoStaleRead Poll.diskOps polls
        ∧ NoStaleRead (Collector.new host counts serverID externalIface).netBytes polls := by
  generalize hc : Collector.new host counts serverID externalIface = c
  have hstep : ∀ pre q p, c.RatesWithin (pre ++ [q]) p
      ↔ (∀ cur, q.diskOps = none → p.diskOps = some cur → q.now ≠ zeroTime →
          0 < timeSub p.now q.now → (cur.1 + cur.2).toNat ≤ increase Poll.diskOps pre p)
        ∧ (∀ cur, c.netBytes q = none → c.netBytes p = some cur → q.now ≠ zeroTime →
          0 < timeSub p.now q.now → (cur.1 + cur.2).toNat ≤ increase c.netBytes pre p) := by
    intro pre q p
    obtain ⟨hdisk, hnet⟩ := metric_rates (c.after exactArith pre) q p
    obtain ⟨htime, -, -⟩ := collect_prev (c.after exactArith pre) q
    have hsame : (c.after exactArith pre).netBytes = c.netBytes := by
      unfold netBytes
      rw [after_externalIface]
    rw [hsame] at hnet
    rw [← pollRate_within_iff (by norm_num : (0 : ℚ) < 1 / 10 ^ 9),
      ← pollRate_within_iff (by norm_num : (0 : ℚ) < 1024 * 1024 / 10 ^ 9)]
    constructor
    · rintro ⟨h₁, h₂⟩
      rw [after_concat, htime] at h₁ h₂
      rw [hdisk] at h₁
      rw [hnet] at h₂
      exact ⟨h₁, h₂⟩
    · rintro ⟨h₁, h₂⟩
      constructor
      · rw [after_concat, htime, hdisk]
        exact h₁
      · rw [after_concat, htime, hnet]
        exact h₂
  constructor
  · intro h
    constructor
    · intro pre q p post cur hsplit
      exact ((hstep pre q p).1 (h _ p post (by simp [hsplit]))).1 cur
    · intro pre q p post cur hsplit
      exact ((hstep pre q p).1 (h _ p post (by simp [hsplit]))).2 cur
  · rintro ⟨hdisk, hnet⟩ pre p post hsplit
    rcases List.eq_nil_or_concat' pre with rfl | ⟨pre, q, rfl⟩
    · have hfirst : c.rates exactArith p.now = fun _ _ => (.fin 0, .fin 0) := by
        subst hc
        funext ops traffic
        exact if_pos rfl
      constructor
      · refine ⟨0, ?_, by simp⟩
        simp only [after, Run.run, List.foldl_nil, metric, hfirst]
      · refine ⟨0, ?_, by simp⟩
        simp only [after, Run.run, List.foldl_nil, metric, hfirst]
    · refine (hstep pre q p).2 ⟨fun cur => hdisk pre q p post cur ?_,
        fun cur => hnet pre q p post cur ?_⟩ <;> simp [hsplit]

/-- A poll that reads nothing but the counters of one disk, if it can. -/
def diskPoll (now : ℤ) (ops : Option DiskCounters) : Poll where
  now := now
  cpuPercents := []
  memory := none
  rootUsage := none
  driveUsage := none
  diskCounters := ops.map fun d => [d]
  ifaceCounters := none
  detectedIface := ""
  concurrentUsers := 0
  stored := true
  processes := none
  tie := id
  perm _ := .refl _

/-- Polls every ten seconds, of which the second cannot read the counters. -/
def gapPolls : List Poll :=
  [diskPoll (1767225600 * second) (some ⟨1000, 0⟩), diskPoll (1767225610 * second) none]

def gapPoll : Poll := diskPoll (1767225620 * second) (some ⟨1010, 0⟩)

/-- The third poll reports 1010 operations in ten seconds, of which 10 are new. -/
theorem rates_since_boot :
    ((((Collector.new none none "agent-a" "").after exactArith gapPolls).collect exactArith
        gapPoll).2.1).diskIOPS = .fin 101
      ∧ increase Poll.diskOps gapPolls gapPoll = 10 := by
  constructor
  · decide +kernel
  · decide +kernel

end Collector

end WMonitor
