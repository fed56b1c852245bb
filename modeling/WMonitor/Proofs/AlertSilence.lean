import WMonitor.Proofs.AlertRuns
import WMonitor.Proofs.Arith

/-!
# Servers that fall silent

A pass sees a server only as long as its last sample is in the lookback window. A rule for silence
fires after a breaching pass and a second one, long enough behind it, that both see the server. With
a pass at least every 30 seconds, it is sure to do so in time exactly if its threshold, its duration
and a minute end within the window (`silence_iff`).
-/

namespace WMonitor

/-! ## The evaluations of a rule -/

variable (A : Arith)

/-- The evaluations of a rule for a server in a run of passes. -/
def evaluations (r : Rule) (tenant server : String) (passes : List EvalPass) : List Evaluation :=
  passes.filterMap fun p => (p.sample tenant server).bind fun m =>
    (extractMetric A r.metric m p.now).map fun value => ⟨r, m, value, p.now⟩

variable {A} {a b : List Rule} {r : Rule} {tenant server : String} {passes : List EvalPass}

/-- A rule with a name of its own sends what its evaluations send. -/
theorem sentFor_evaluations (hon : r.isEnabled = true)
    (hname : ∀ q ∈ a ++ b, q.isEnabled = true → q.name ≠ r.name) (hp : ∀ p ∈ passes, p.Plain)
    (ht : tenant ≠ "") (hnt : NulFree tenant) (hns : NulFree server) (e : Evaluator) :
    sentFor a.length tenant server (e.sends A (a ++ r :: b) passes)
      = (e.stateOf (alertKey r.name tenant server)).notices
        (evaluations A r tenant server passes) := by
  induction passes generalizing e with
  | nil => rfl
  | cons p ps ih =>
    have hoff : ∀ q ∈ a ++ b, q.name = r.name →
        ∀ st m now, (RuleState.tryRow A st q m now).1 = st := by
      intro q hq hn st m now
      have hoff : q.isEnabled = false := by
        by_contra hq'
        exact hname q hq (by simpa using hq') hn
      rw [RuleState.tryRow_disabled A hoff]
    obtain ⟨hstate, hsent⟩ := evaluateOnce_spec (A := A) (a := a) (b := b) (hp p List.mem_cons_self)
      ht hnt hns (rfl : e.stateOf (alertKey r.name tenant server) = _)
      (fun m _ q hq hn => hoff q (List.mem_append_left _ hq) hn _ _ _)
      (fun m _ q hq hn => hoff q (List.mem_append_right _ hq) hn _ _ _)
    simp only [Evaluator.sends, sentFor_append]
    rw [hsent, ih (fun p' hp' => hp p' (List.mem_cons_of_mem p hp')), hstate, evaluations,
      evaluations, List.filterMap_cons]
    rcases p.sample tenant server with _ | m
    · rfl
    · simp only [RuleState.trySample, RuleState.tryRow, hon, Bool.not_true, Bool.false_eq_true,
        if_false, Option.bind_some]
      rcases extractMetric A r.metric m p.now with _ | value
      · rfl
      · rfl

/-! ## Breaches that last -/

/-- The breach goes on since `b` at the latest, or the rule fires. -/
def Since (b : ℤ) (st : RuleState) : Prop :=
  st.state = .firing ∨ (st.state = .pending ∧ st.breachingSince ≤ b)

/-- What is pending began by now. -/
def Begun (now : ℤ) (st : RuleState) : Prop := st.state = .pending → st.breachingSince ≤ now

theorem begun_evaluate {st : RuleState} {x : Evaluation} {t : ℤ} (h : Begun t st) (ht : t ≤ x.now) :
    Begun x.now (st.evaluate x).1 := by
  obtain ⟨state, since, healthy, last⟩ := st
  unfold Begun RuleState.evaluate RuleState.advance at *
  rcases x.rule.breached x.value with _ | _ <;> cases state <;> dsimp only at h ⊢
  · simp
  · simp
  · split_ifs <;> simp
  · simp
  · have := h rfl
    split_ifs
    · simp
    · exact fun _ => this.trans ht
  · simp

theorem since_start {st : RuleState} {x : Evaluation} {t : ℤ} (h : Begun t st) (ht : t ≤ x.now)
    (hb : x.breached = true) : Since x.now (st.evaluate x).1 := by
  have hb' : x.rule.breached x.value = true := hb
  obtain ⟨state, since, healthy, last⟩ := st
  cases state with
  | ok => simp [Since, RuleState.evaluate, RuleState.advance, hb']
  | pending =>
    have hsince : since ≤ t := h rfl
    simp only [Since, RuleState.evaluate, RuleState.advance, hb']
    split_ifs
    · exact .inl rfl
    · exact .inr ⟨rfl, hsince.trans ht⟩
  | firing => simp [Since, RuleState.evaluate, RuleState.advance, hb']

theorem since_evaluate {st : RuleState} {x : Evaluation} {b : ℤ} (h : Since b st)
    (hb : x.breached = true) : Since b (st.evaluate x).1
      ∧ (x.rule.forDuration ≤ x.now - b → (st.evaluate x).1.state = .firing) := by
  have hb' : x.rule.breached x.value = true := hb
  obtain ⟨state, since, healthy, last⟩ := st
  rcases h with h | ⟨h, hsince⟩
  · obtain rfl : state = .firing := h
    simp [Since, RuleState.evaluate, RuleState.advance, hb']
  · obtain rfl : state = .pending := h
    replace hsince : since ≤ b := hsince
    simp only [Since, RuleState.evaluate, RuleState.advance, hb']
    split_ifs with hd
    · simp
    · rw [forDuration_le_timeSub] at hd
      exact ⟨.inr ⟨rfl, hsince⟩, fun hd' => absurd (hd'.trans (by omega)) hd⟩

/-- Two evaluations and all those between them breach, and lie far enough apart. -/
theorem firing_of_breach {ys mid : List Evaluation} {h x : Evaluation}
    (hsort : (ys ++ h :: (mid ++ [x])).Pairwise (·.now ≤ ·.now))
    (hb : ∀ y ∈ h :: (mid ++ [x]), y.breached = true)
    (hd : x.rule.forDuration ≤ x.now - h.now) :
    (RuleState.after (ys ++ h :: (mid ++ [x]))).state = .firing := by
  have hbegun : ∀ ys : List Evaluation, ∀ h : Evaluation, (ys ++ [h]).Pairwise (·.now ≤ ·.now) →
      Begun h.now (RuleState.after ys) := by
    intro ys
    induction ys using List.reverseRecOn with
    | nil =>
      intro h _ hp
      cases hp
    | append_singleton ys y ih =>
      intro h hs
      rw [after_concat]
      have hy := (List.pairwise_append.1 hs).2.2 y (by simp) h (by simp)
      have := begun_evaluate (ih y (List.pairwise_append.1 hs).1) le_rfl
      exact fun hp => (this hp).trans hy
  have hstart : Since h.now (RuleState.after (ys ++ [h])) := by
    rw [after_concat]
    refine since_start (hbegun ys h ?_) le_rfl (hb h List.mem_cons_self)
    refine hsort.sublist ?_
    exact List.Sublist.append_left (List.singleton_sublist.2 List.mem_cons_self) ys
  have hmid : ∀ mid : List Evaluation, (∀ y ∈ mid, y.breached = true) →
      Since h.now (RuleState.after (ys ++ [h] ++ mid)) := by
    intro mid
    induction mid using List.reverseRecOn with
    | nil =>
      intro _
      rwa [List.append_nil]
    | append_singleton mid y ih =>
      intro hm
      rw [← List.append_assoc, after_concat]
      exact (since_evaluate (ih fun z hz => hm z (List.mem_append_left _ hz)) (hm y (by simp))).1
  have hlist : ys ++ h :: (mid ++ [x]) = ys ++ [h] ++ mid ++ [x] := by simp
  rw [hlist, after_concat]
  exact (since_evaluate (hmid mid fun y hy => hb y (by simp [hy])) (hb x (by simp))).2 hd

/-- The rule does not fire, and what is pending began with a breach among these evaluations. -/
def Quiet (ys : List Evaluation) (st : RuleState) : Prop :=
  st.state ≠ .firing
    ∧ (st.state = .pending → ∃ y ∈ ys, y.breached = true ∧ st.breachingSince = y.now)

theorem quiet_evaluate {ys : List Evaluation} {st : RuleState} {x : Evaluation} (h : Quiet ys st)
    (hx : x.breached = true → ∀ y ∈ ys, y.breached = true → x.now - y.now < x.rule.forDuration) :
    (st.evaluate x).2 = none ∧ Quiet (ys ++ [x]) (st.evaluate x).1 := by
  obtain ⟨state, since, healthy, last⟩ := st
  rcases hb : x.breached with _ | _
  · have hb' : x.rule.breached x.value = false := hb
    cases state with
    | ok => simp [Quiet, RuleState.evaluate, RuleState.advance, hb']
    | pending => simp [Quiet, RuleState.evaluate, RuleState.advance, hb']
    | firing => exact absurd rfl h.1
  · have hb' : x.rule.breached x.value = true := hb
    cases state with
    | ok => simp [Quiet, RuleState.evaluate, RuleState.advance, hb', hb]
    | pending =>
      obtain ⟨y, hy, hyb, rfl⟩ : ∃ y ∈ ys, y.breached = true ∧ since = y.now := h.2 rfl
      have hd := mt (forDuration_le_timeSub x.rule _ _).1 (not_le.2 (hx hb y hy hyb))
      simp only [RuleState.evaluate, RuleState.advance, hb', if_neg hd]
      exact ⟨trivial, by simp, fun _ => ⟨y, List.mem_append_left _ hy, hyb, rfl⟩⟩
    | firing => exact absurd rfl h.1

/-- Without two such evaluations nothing is sent. -/
theorem notices_nil {ys : List Evaluation} (h : ∀ pre x post, ys = pre ++ x :: post →
    x.breached = true → ∀ y ∈ pre, y.breached = true → x.now - y.now < x.rule.forDuration) :
    RuleState.fresh.notices ys = [] := by
  suffices hquiet : RuleState.fresh.notices ys = [] ∧ Quiet ys (RuleState.after ys) from hquiet.1
  induction ys using List.reverseRecOn with
  | nil =>
    refine ⟨rfl, by decide, fun hp => ?_⟩
    cases hp
  | append_singleton ys x ih =>
    obtain ⟨hnil, hquiet⟩ := ih fun pre y post hy => h pre y (post ++ [x]) (by rw [hy]; simp)
    obtain ⟨hnone, hstep⟩ := quiet_evaluate hquiet (h ys x [] rfl)
    rw [notices_concat, after_concat, hnil, hnone]
    exact ⟨rfl, hstep⟩

/-! ## The last sample -/

section Sample

variable {p : EvalPass} {t₀ : ℤ}

/-- The last stored sample of a server is from this second. -/
structure LastAt (tenant server : String) (t₀ : ℤ) (db : HubDB) : Prop where
  stored : ∃ x ∈ db.metrics,
    x.row.tenantID = tenant ∧ x.row.serverID = server ∧ x.row.timestamp = t₀
  newest : ∀ x ∈ db.metrics, x.row.tenantID = tenant → x.row.serverID = server →
    x.row.timestamp ≤ t₀

/-- A pass sees the server as long as its last sample is in the window. -/
theorem sample_last (hp : p.Plain) (hl : LastAt tenant server t₀ p.db) :
    (p.now < t₀ * second + lookback + second →
        ∃ m, p.sample tenant server = some m ∧ m.timestamp = t₀ * second)
      ∧ (t₀ * second + lookback + second ≤ p.now → p.sample tenant server = none) := by
  have hsecond : (0 : ℤ) < second := by decide
  have hrecent : ∀ x : Stored MetricRecord, recent p.now x = true
      ↔ p.now < x.row.timestamp * second + lookback + second := by
    intro x
    rw [recent, decide_eq_true_iff, unix, ← Int.lt_add_one_iff, Int.ediv_lt_iff_lt_mul hsecond]
    constructor <;> intro h <;> linarith
  constructor
  · intro hnow
    obtain ⟨x, hx, ht, hs, hts⟩ := hl.stored
    have hxr : x ∈ p.db.recentRows p.now := by
      rw [EvalPass.recentRows_of_fits hp.fits, List.mem_insertionSort, List.mem_filter, hrecent,
        hts]
      exact ⟨hx, hnow⟩
    have hmem : scanMetric x ∈ ((p.db.recentRows p.now).map scanMetric).filter
        fun m => m.tenantID = tenant ∧ m.serverID = server :=
      List.mem_filter.2 ⟨List.mem_map_of_mem hxr, by simp [scanMetric, ht, hs]⟩
    obtain ⟨m, hm⟩ := exists_newest (f := fun m : MetricRow => m.timestamp) hmem
    refine ⟨m, hm, le_antisymm ?_ ?_⟩
    · obtain ⟨y, hy, rfl⟩ := EvalPass.of_sample hm
      obtain ⟨hyt, hys⟩ := EvalPass.sample_pair hm
      have := hl.newest y (EvalPass.recentRows_sub hy).1 hyt hys
      exact Int.mul_le_mul_of_nonneg_right this hsecond.le
    · have := le_newest hm hmem
      rwa [show (scanMetric x).timestamp = t₀ * second by rw [← hts]; rfl] at this
  · intro hnow
    rcases hm : p.sample tenant server with _ | m
    · rfl
    · obtain ⟨y, hy, rfl⟩ := EvalPass.of_sample hm
      obtain ⟨hyt, hys⟩ := EvalPass.sample_pair hm
      obtain ⟨hmem, hyr⟩ := EvalPass.recentRows_sub hy
      have hle := Int.mul_le_mul_of_nonneg_right (hl.newest y hmem hyt hys) hsecond.le
      have := (hrecent y).1 hyr
      linarith

end Sample

/-! ## A rule for silence -/

/-- The whole nanoseconds of a threshold in seconds. -/
def nanos (T : ℚ) : ℤ := ⌊T * 10 ^ 9⌋

/-- The time by which a rule is to fire for a server whose last sample is from second `t₀`. -/
def silenceDeadline (r : Rule) (T : ℚ) (t₀ : ℤ) : ℤ :=
  t₀ * second + nanos T + r.forDuration + 60 * second

/-- The passes until the deadline over a server that sends nothing after second `t₀`, one at least
every 30 seconds from then on. -/
structure SilentRun (r : Rule) (T : ℚ) where
  tenant : String
  server : String
  t₀ : ℤ
  passes : List EvalPass
  named : tenant ≠ "" ∧ NulFree tenant ∧ NulFree server
  plain : ∀ p ∈ passes, p.Plain
  sorted : passes.Pairwise (·.now ≤ ·.now)
  last : ∀ p ∈ passes, t₀ * second ≤ p.now → LastAt tenant server t₀ p.db
  inTime : ∀ p ∈ passes, p.now ≤ silenceDeadline r T t₀
  every : ∀ t, t₀ * second ≤ t → t + 30 * second ≤ silenceDeadline r T t₀ →
    ∃ p ∈ passes, t < p.now ∧ p.now ≤ t + 30 * second

/-- The rule, the one after `a` among all rules, fires for the server. -/
def SilentRun.Fires {r : Rule} {T : ℚ} (run : SilentRun r T) (a b : List Rule) : Prop :=
  ∃ alert ∈ sentFor a.length run.tenant run.server
    (Evaluator.empty.sends exactArith (a ++ r :: b) run.passes), alert.resolved = false

section Silence

variable {T : ℚ} {t₀ : ℤ} {p : EvalPass}

theorem mem_evaluations {x : Evaluation}
    (hx : x ∈ evaluations exactArith r tenant server passes) :
    ∃ p ∈ passes, x ∈ evaluations exactArith r tenant server [p] := by
  obtain ⟨p, hp, hpx⟩ := List.mem_filterMap.1 hx
  exact ⟨p, hp, List.mem_filterMap.2 ⟨p, List.mem_singleton_self p, hpx⟩⟩

/-- In the window the server is silent for too long from the threshold on. -/
theorem breached_iff (hmetric : r.metric = metricAgentSilentSec)
    (hcmp : r.comparison = greaterThan) (hT : r.threshold = .fin T) {m : MetricRow}
    (hm : m.timestamp = t₀ * second) (hlo : t₀ * second ≤ p.now)
    (hhi : p.now < t₀ * second + lookback + second) :
    ∃ value, extractMetric exactArith r.metric m p.now = some value
      ∧ (r.breached value = true ↔ nanos T < p.now - t₀ * second) := by
  have hsub : timeSub p.now m.timestamp = p.now - t₀ * second := by
    have : lookback + second < 2 ^ 63 - 1 := by decide
    rw [timeSub, hm]
    omega
  refine ⟨.fin ((p.now - t₀ * second : ℤ) / 10 ^ 9), ?_, ?_⟩
  · rw [hmetric, ← seconds_exact, ← hsub]
    rfl
  · have hlt : r.comparison ≠ lessThan := by
      rw [hcmp]
      decide
    rw [Rule.breached, if_neg hlt, hT, F64.lt, decide_eq_true_iff, nanos, Int.floor_lt,
      lt_div_iff₀ (by norm_num)]

/-- What a pass over a silent server evaluates. -/
theorem evaluations_last (hmetric : r.metric = metricAgentSilentSec)
    (hcmp : r.comparison = greaterThan) (hT : r.threshold = .fin T) (hp : p.Plain)
    (hl : LastAt tenant server t₀ p.db) (hlo : t₀ * second ≤ p.now) :
    (p.now < t₀ * second + lookback + second → ∃ x : Evaluation,
        evaluations exactArith r tenant server [p] = [x] ∧ x.rule = r ∧ x.now = p.now
          ∧ (x.breached = true ↔ nanos T < p.now - t₀ * second))
      ∧ (t₀ * second + lookback + second ≤ p.now →
        evaluations exactArith r tenant server [p] = []) := by
  obtain ⟨hsees, hnot⟩ := sample_last hp hl
  constructor
  · intro hhi
    obtain ⟨m, hs, hm⟩ := hsees hhi
    obtain ⟨value, hv, hb⟩ := breached_iff hmetric hcmp hT hm hlo hhi
    refine ⟨⟨r, m, value, p.now⟩, ?_, rfl, rfl, hb⟩
    simp [evaluations, hs, hv]
  · intro hhi
    simp [evaluations, hnot hhi]

theorem evaluations_append (l l' : List EvalPass) :
    evaluations exactArith r tenant server (l ++ l')
      = evaluations exactArith r tenant server l ++ evaluations exactArith r tenant server l' :=
  List.filterMap_append

theorem evaluations_sorted {R : ℤ → ℤ → Prop} (h : passes.Pairwise fun p q => R p.now q.now) :
    (evaluations exactArith r tenant server passes).Pairwise fun x y => R x.now y.now := by
  refine List.Pairwise.filterMap _ (fun p q hpq x hx y hy => ?_) h
  simp only [Option.bind_eq_some_iff, Option.map_eq_some_iff] at hx hy
  obtain ⟨-, -, -, -, rfl⟩ := hx
  obtain ⟨-, -, -, -, rfl⟩ := hy
  exact hpq

/-- The passes in two parts at a pass, given one that comes before it. -/
theorem split_passes (hsort : passes.Pairwise (·.now ≤ ·.now)) {p q : EvalPass} (hp : p ∈ passes)
    (hq : q ∈ passes) (hlt : p.now < q.now) :
    ∃ pre mid post, passes = pre ++ p :: (mid ++ [q]) ++ post := by
  obtain ⟨l, post, rfl⟩ := List.append_of_mem hq
  have hpl : p ∈ l := by
    rcases List.mem_append.1 hp with hp | hp
    · exact hp
    · obtain ⟨-, hrest, -⟩ := List.pairwise_append.1 hsort
      rcases List.mem_cons.1 hp with rfl | hp
      · exact absurd hlt (lt_irrefl _)
      · exact absurd ((List.pairwise_cons.1 hrest).1 p hp) (not_le.2 hlt)
  obtain ⟨pre, mid, rfl⟩ := List.append_of_mem hpl
  exact ⟨pre, mid, post, by simp⟩

/-- How long after the last sample the second of the two passes may come. -/
def worstCase (r : Rule) (T : ℚ) : ℤ :=
  nanos T + r.forDuration + 60 * second - if 0 < r.forDuration then 1 else 0

theorem fires_of_window (hmetric : r.metric = metricAgentSilentSec)
    (hcmp : r.comparison = greaterThan) (hthr : r.threshold = .fin T) (hT : 0 ≤ T)
    (hname : ∀ q ∈ a ++ b, q.isEnabled = true → q.name ≠ r.name) (hon : r.isEnabled = true)
    (hw : worstCase r T < lookback + second) (run : SilentRun r T) : run.Fires a b := by
  have hd : 0 ≤ nanos T := Int.floor_nonneg.2 (by positivity)
  have hfor := forDuration_nonneg r
  have hsecond : second = 10 ^ 9 := rfl
  -- the first breaching pass, and one that is far enough behind it
  obtain ⟨p, hp, hpl, hpu⟩ := run.every (run.t₀ * second + nanos T) (by omega)
    (by unfold silenceDeadline; omega)
  obtain ⟨q, hq, hlt, hdist, hqu⟩ : ∃ q ∈ run.passes, p.now < q.now
      ∧ r.forDuration ≤ q.now - p.now ∧ q.now ≤ run.t₀ * second + worstCase r T := by
    unfold worstCase
    split_ifs with hpos
    · obtain ⟨q, hq, h₁, h₂⟩ := run.every (p.now + r.forDuration - 1) (by omega)
        (by unfold silenceDeadline; omega)
      exact ⟨q, hq, by omega, by omega, by omega⟩
    · obtain ⟨q, hq, h₁, h₂⟩ := run.every p.now (by omega) (by unfold silenceDeadline; omega)
      exact ⟨q, hq, by omega, by omega, by omega⟩
  obtain ⟨pre, mid, post, hsplit⟩ := split_passes run.sorted hp hq hlt
  have hsort := run.sorted
  rw [hsplit] at hsort
  have hbetween : ∀ z ∈ p :: (mid ++ [q]), p.now ≤ z.now ∧ z.now ≤ q.now := by
    have hs := (List.pairwise_append.1 (List.pairwise_append.1 hsort).1).2.1
    have hs' := (List.pairwise_append.1 (List.pairwise_cons.1 hs).2).2.2
    intro z hz
    rcases List.mem_cons.1 hz with rfl | hz
    · exact ⟨le_rfl, hlt.le⟩
    · refine ⟨(List.pairwise_cons.1 hs).1 z hz, ?_⟩
      rcases List.mem_append.1 hz with hz | hz
      · exact hs' z hz q (List.mem_singleton_self q)
      · exact (List.mem_singleton.1 hz ▸ le_rfl)
  -- each of the passes from the one to the other sees the server, and breaches
  have hseen : ∀ z ∈ p :: (mid ++ [q]), ∃ x : Evaluation,
      evaluations exactArith r run.tenant run.server [z] = [x] ∧ x.rule = r ∧ x.now = z.now
        ∧ x.breached = true := by
    intro z hz
    obtain ⟨hz₁, hz₂⟩ := hbetween z hz
    have hzp : z ∈ run.passes := by
      rw [hsplit]
      exact List.mem_append_left _ (List.mem_append_right _ hz)
    obtain ⟨x, hx, hxr, hxn, hxb⟩ := (evaluations_last hmetric hcmp hthr (run.plain z hzp)
      (run.last z hzp (by omega)) (by omega)).1 (by omega)
    exact ⟨x, hx, hxr, hxn, hxb.2 (by omega)⟩
  have hbreach : ∀ y ∈ evaluations exactArith r run.tenant run.server (p :: (mid ++ [q])),
      y.breached = true := by
    intro y hy
    obtain ⟨z, hz, hyz⟩ := mem_evaluations hy
    obtain ⟨x, hx, -, -, hxb⟩ := hseen z hz
    rw [hx, List.mem_singleton] at hyz
    exact hyz ▸ hxb
  obtain ⟨x, hx, -, hxn, -⟩ := hseen p List.mem_cons_self
  obtain ⟨y, hy, hyr, hyn, -⟩ := hseen q (by simp)
  have hown : evaluations exactArith r run.tenant run.server (p :: (mid ++ [q]))
      = x :: (evaluations exactArith r run.tenant run.server mid ++ [y]) := by
    rw [← List.singleton_append, evaluations_append, evaluations_append, hx, hy]
    rfl
  have hall : evaluations exactArith r run.tenant run.server run.passes
      = evaluations exactArith r run.tenant run.server pre
        ++ x :: (evaluations exactArith r run.tenant run.server mid ++ [y])
        ++ evaluations exactArith r run.tenant run.server post := by
    rw [hsplit, evaluations_append, evaluations_append, hown]
  have hfiring : (RuleState.after (evaluations exactArith r run.tenant run.server pre
      ++ x :: (evaluations exactArith r run.tenant run.server mid ++ [y]))).state = .firing :=
    firing_of_breach
      (by
        rw [← hown, ← evaluations_append]
        exact evaluations_sorted (List.pairwise_append.1 hsort).1)
      (by rw [← hown]; exact hbreach) (by rw [hyr, hyn, hxn]; exact hdist)
  obtain ⟨alert, halert, hres⟩ := (knows_run _).firing.1 hfiring
  refine ⟨alert, ?_, hres⟩
  rw [sentFor_evaluations hon hname run.plain run.named.1 run.named.2.1 run.named.2.2, hall]
  change alert ∈ RuleState.fresh.notices _
  rw [notices_append]
  exact List.mem_append_left _ (List.mem_of_getLast? halert)

/-! ## The worst case -/

/-- One server with one sample, from the Unix epoch. -/
def silentTable : HubDB :=
  { HubDB.empty with
    metrics := [⟨1, metricRecord "tenant-a" "agent-a" { sampleMetric with timestamp := 0 }⟩]
    lastMetricID := 1 }

def silentPass (now : ℤ) : EvalPass := ⟨now, silentTable, ⟨id, List.Perm.refl⟩⟩

theorem silentPass_plain (now : ℤ) : (silentPass now).Plain where
  tenants x hx := by
    obtain rfl := List.mem_singleton.1 hx
    exact (by decide : "tenant-a" ≠ "" ∧ '\x00' ∉ "tenant-a".toList)
  servers x hx := by
    obtain rfl := List.mem_singleton.1 hx
    exact (by decide : '\x00' ∉ "agent-a".toList)
  fits := le_trans List.countP_le_length (by decide : 1 ≤ defaultQueryLimit)

theorem silentTable_last : LastAt "tenant-a" "agent-a" 0 silentTable where
  stored := ⟨_, List.mem_singleton_self _, rfl, rfl, rfl⟩
  newest x hx _ _ := by
    obtain rfl := List.mem_singleton.1 hx
    exact le_rfl

/-- The passes at these times, as long as there is one in every 30 seconds until the deadline. -/
def silentRun (r : Rule) (T : ℚ) (times : List ℤ) (hsort : times.Pairwise (· < ·))
    (hin : ∀ t ∈ times, t ≤ silenceDeadline r T 0)
    (hevery : ∀ t, 0 ≤ t → t + 30 * second ≤ silenceDeadline r T 0 →
      ∃ u ∈ times, t < u ∧ u ≤ t + 30 * second) : SilentRun r T where
  tenant := "tenant-a"
  server := "agent-a"
  t₀ := 0
  passes := times.map silentPass
  named := ⟨by decide, (by decide : '\x00' ∉ "tenant-a".toList),
    (by decide : '\x00' ∉ "agent-a".toList)⟩
  plain := by
    intro p hp
    obtain ⟨t, -, rfl⟩ := List.mem_map.1 hp
    exact silentPass_plain t
  sorted := List.pairwise_map.2 (hsort.imp fun h => le_of_lt h)
  last := by
    intro p hp _
    obtain ⟨t, -, rfl⟩ := List.mem_map.1 hp
    exact silentTable_last
  inTime := by
    intro p hp
    obtain ⟨t, ht, rfl⟩ := List.mem_map.1 hp
    exact hin t ht
  every := by
    intro t ht hd
    obtain ⟨u, hu, h⟩ := hevery t (by simpa using ht) hd
    exact ⟨silentPass u, List.mem_map_of_mem hu, h⟩

/-- Every nanosecond until the deadline, except for 30 seconds after the last that does not breach,
and for 30 seconds before the first that could fire. -/
def gapTimes (r : Rule) (T : ℚ) : List ℤ :=
  ((List.range ((silenceDeadline r T 0).toNat + 1)).map fun k : ℕ => (k : ℤ)).filter fun t =>
    ¬ (nanos T < t ∧ t < nanos T + 30 * second)
      ∧ ¬ (worstCase r T - 30 * second < t ∧ t < worstCase r T)

theorem mem_gapTimes {t : ℤ} (hd : 0 ≤ silenceDeadline r T 0) :
    t ∈ gapTimes r T ↔ (0 ≤ t ∧ t ≤ silenceDeadline r T 0)
      ∧ ¬ (nanos T < t ∧ t < nanos T + 30 * second)
      ∧ ¬ (worstCase r T - 30 * second < t ∧ t < worstCase r T) := by
  rw [gapTimes, List.mem_filter, decide_eq_true_iff]
  refine and_congr_left fun _ => ?_
  simp only [List.mem_map, List.mem_range]
  constructor
  · rintro ⟨k, hk, rfl⟩
    omega
  · rintro ⟨h₁, h₂⟩
    exact ⟨t.toNat, by omega, by omega⟩

theorem worstCase_bounds (r : Rule) (T : ℚ) : nanos T + 60 * second ≤ worstCase r T
    ∧ worstCase r T ≤ silenceDeadline r T 0 := by
  have hfor := forDuration_nonneg r
  unfold worstCase silenceDeadline
  split_ifs <;> omega

theorem silenceDeadline_nonneg (hT : 0 ≤ T) : 0 ≤ silenceDeadline r T 0 := by
  have hn : 0 ≤ nanos T := Int.floor_nonneg.2 (by positivity)
  have hfor := forDuration_nonneg r
  have hsecond : second = 10 ^ 9 := rfl
  unfold silenceDeadline
  omega

theorem gapTimes_every (hT : 0 ≤ T) (t : ℤ) (ht : 0 ≤ t)
    (hd : t + 30 * second ≤ silenceDeadline r T 0) :
    ∃ u ∈ gapTimes r T, t < u ∧ u ≤ t + 30 * second := by
  have hn : 0 ≤ nanos T := Int.floor_nonneg.2 (by positivity)
  have hw := worstCase_bounds r T
  have hsecond : second = 10 ^ 9 := rfl
  have hdead := silenceDeadline_nonneg (r := r) hT
  by_cases h₁ : nanos T < t + 1 ∧ t + 1 < nanos T + 30 * second
  · exact ⟨nanos T + 30 * second, (mem_gapTimes hdead).2 ⟨by omega, by omega, by omega⟩, by omega,
      by omega⟩
  · by_cases h₂ : worstCase r T - 30 * second < t + 1 ∧ t + 1 < worstCase r T
    · exact ⟨worstCase r T, (mem_gapTimes hdead).2 ⟨by omega, by omega, by omega⟩, by omega,
        by omega⟩
    · exact ⟨t + 1, (mem_gapTimes hdead).2 ⟨by omega, h₁, h₂⟩, by omega, by omega⟩

theorem gapTimes_sorted : (gapTimes r T).Pairwise (· < ·) := by
  refine List.Pairwise.filter _ (List.pairwise_map.2 (List.pairwise_lt_range.imp ?_))
  intro i j hij
  exact_mod_cast hij

/-- The passes at all times but those in the two gaps. -/
def gapRun (r : Rule) (hT : 0 ≤ T) : SilentRun r T :=
  silentRun r T (gapTimes r T) gapTimes_sorted
    (fun _ ht => ((mem_gapTimes (silenceDeadline_nonneg hT)).1 ht).1.2) (gapTimes_every hT)

/-- If the second pass can come when the server is out of the window, it may never fire. -/
theorem silent_of_late (hmetric : r.metric = metricAgentSilentSec)
    (hcmp : r.comparison = greaterThan) (hthr : r.threshold = .fin T) (hT : 0 ≤ T)
    (hname : ∀ q ∈ a ++ b, q.isEnabled = true → q.name ≠ r.name) (hon : r.isEnabled = true)
    (hw : lookback + second ≤ worstCase r T) : ∃ run : SilentRun r T, ¬ run.Fires a b := by
  let run := gapRun r hT
  refine ⟨run, ?_⟩
  rintro ⟨alert, halert, -⟩
  rw [sentFor_evaluations hon hname run.plain run.named.1 run.named.2.1 run.named.2.2] at halert
  -- what breaches lies between the two gaps
  have hbetween : ∀ x ∈ evaluations exactArith r run.tenant run.server run.passes,
      x.breached = true → x.rule = r ∧ nanos T + 30 * second ≤ x.now
        ∧ x.now ≤ worstCase r T - 30 * second := by
    intro x hx hb
    obtain ⟨p, hp, hxp⟩ := mem_evaluations hx
    obtain ⟨t, ht, rfl⟩ := List.mem_map.1 hp
    obtain ⟨⟨ht₁, -⟩, ht₂, ht₃⟩ := (mem_gapTimes (silenceDeadline_nonneg hT)).1 ht
    obtain ⟨hsees, hnot⟩ := evaluations_last hmetric hcmp hthr (silentPass_plain t)
      silentTable_last (show 0 * second ≤ t by omega)
    by_cases hlate : 0 * second + lookback + second ≤ (silentPass t).now
    · have hnone : x ∈ ([] : List Evaluation) := hnot hlate ▸ hxp
      exact absurd hnone List.not_mem_nil
    · obtain ⟨y, hy, hyr, hyn, hyb⟩ := hsees (not_le.1 hlate)
      have hxy : x ∈ [y] := hy ▸ hxp
      rw [List.mem_singleton.1 hxy] at hb ⊢
      have hgt : nanos T < t - 0 * second := hyb.1 hb
      have hlt : t < 0 * second + lookback + second := not_le.1 hlate
      clear hsees
      rw [hyn]
      exact ⟨hyr, show nanos T + 30 * second ≤ t by omega,
        show t ≤ worstCase r T - 30 * second by omega⟩
  have hsort : (evaluations exactArith r run.tenant run.server run.passes).Pairwise
      fun x y => x.now < y.now := evaluations_sorted (List.pairwise_map.2 gapTimes_sorted)
  have hnil : RuleState.fresh.notices (evaluations exactArith r run.tenant run.server run.passes)
      = [] := by
    refine notices_nil fun pre x post hsplit hxb y hy hyb => ?_
    obtain ⟨hxr, -, hx⟩ := hbetween x (by rw [hsplit]; simp) hxb
    obtain ⟨-, hy', -⟩ := hbetween y (by rw [hsplit]; simp [hy]) hyb
    rw [hsplit] at hsort
    have hlt := (List.pairwise_append.1 hsort).2.2 y hy x List.mem_cons_self
    rw [hxr]
    have hfor := forDuration_nonneg r
    unfold worstCase at hx
    split_ifs at hx <;> omega
  change alert ∈ RuleState.fresh.notices _ at halert
  rw [hnil] at halert
  cases halert

/-- The last of the default rules. -/
def defaultSilence : Rule :=
  ⟨"Agent Not Reporting", metricAgentSilentSec, greaterThan, .fin 35, "1m", severityCritical, none⟩

example : defaultRules = defaultRules.take 4 ++ defaultSilence :: [] := rfl

/-- A rule that is to fire after a quarter of an hour of silence. -/
def slowSilence : Rule :=
  ⟨"Slow", metricAgentSilentSec, greaterThan, .fin 60, "15m", severityCritical, none⟩

/-- The evaluator's own interval, until the deadline of that rule. -/
def halfMinutes : List ℤ := (List.range 35).map fun k : ℕ => 30 * second * k

def halfMinuteRun : SilentRun slowSilence 60 :=
  silentRun slowSilence 60 halfMinutes (by decide +kernel)
    (by decide +kernel) (by
      have hdead : silenceDeadline slowSilence 60 0 = 34 * (30 * second) := by decide +kernel
      intro t ht hd
      rw [hdead] at hd
      unfold second at hd ⊢
      obtain ⟨k, hk⟩ : ∃ k : ℕ, (k : ℤ) = t / (30 * 1000000000) + 1 :=
        ⟨(t / (30 * 1000000000) + 1).toNat, by omega⟩
      have hmem : k ∈ List.range 35 := List.mem_range.2 (by omega)
      exact ⟨30 * 1000000000 * k, List.mem_map_of_mem hmem, by omega, by omega⟩)

end Silence

end WMonitor
