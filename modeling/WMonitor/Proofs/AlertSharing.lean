import WMonitor.Proofs.Alerting

/-!
# Rules that share a name

Two enabled rules of one name advance one state. When the value of one breaches on a sample and the
same value is there a long time later, that rule alone fires on the second sample. With the other
beside it, either both are breached and only the first of them fires, or the other one resets what
the breach started.
-/

namespace WMonitor

variable {A : Arith}

/-! ## What a rule does to a state -/

section Advance

variable {st : RuleState} {q : Rule} {row : MetricRow} {now : ℤ} {value : F64}

theorem tryRow_value (hon : q.isEnabled = true)
    (hv : extractMetric A q.metric row now = some value) :
    st.tryRow A q row now = st.advance q row value now := by
  simp [RuleState.tryRow, hon, hv]

theorem advance_healthy (hb : q.breached value = false) (hst : st.state ≠ .firing) :
    (st.advance q row value now).1.state = .ok := by
  obtain ⟨_ | _ | _, since, healthy, last⟩ := st
  · simp [RuleState.advance, hb]
  · simp [RuleState.advance, hb]
  · exact absurd rfl hst

theorem advance_ok (hst : st.state = .ok) : (st.advance q row value now).2 = none
    ∧ (st.advance q row value now).1.state ≠ .firing := by
  obtain ⟨s, since, healthy, last⟩ := st
  obtain rfl : s = .ok := hst
  rcases hb : q.breached value with _ | _ <;> simp [RuleState.advance, hb]

/-- A breached rule sends nothing on a state that fires. -/
theorem advance_again (hst : st.state = .firing) (hb : q.breached value = true) :
    (st.advance q row value now).2 = none := by
  obtain ⟨s, since, healthy, last⟩ := st
  obtain rfl : s = .firing := hst
  simp [RuleState.advance, hb]

/-- A state that fires does so until a recovery is sent. -/
theorem advance_firing (hst : st.state = .firing)
    (h : (st.advance q row value now).2 = none) :
    (st.advance q row value now).1.state = .firing := by
  obtain ⟨s, since, healthy, last⟩ := st
  obtain rfl : s = .firing := hst
  revert h
  rcases hb : q.breached value with _ | _
  · simp only [RuleState.advance, hb]
    split_ifs <;> simp
  · simp [RuleState.advance, hb]

theorem advance_fires {alert : Alert} (hb : q.breached value = true)
    (h : (st.advance q row value now).2 = some alert) :
    (st.advance q row value now).1.state = .firing := by
  obtain ⟨_ | _ | _, since, healthy, last⟩ := st <;> revert h <;>
    simp only [RuleState.advance, hb]
  · simp
  · split_ifs <;> simp
  · simp

theorem firedAt_advance {alert : Alert} (h : (st.advance q row value now).2 = some alert) :
    alert.firedAt = now := by
  revert h
  obtain ⟨_ | _ | _, since, healthy, last⟩ := st <;> rcases hb : q.breached value with _ | _ <;>
    simp only [RuleState.advance, hb]
  · simp
  · simp
  · simp
  · split_ifs
    · rintro ⟨⟩
      rfl
    · simp
  · split_ifs <;> first | (rintro ⟨⟩; rfl) | simp
  · simp

end Advance

/-! ## Two samples of the same values -/

/-- Two samples of one server, each with the same value of every rule, that lie longer apart than
any rule waits. -/
structure Probe (A : Arith) (rules : List Rule) (value : Rule → F64) (m m' : MetricRow)
    (t t' : ℤ) : Prop where
  tenant : m'.tenantID = m.tenantID
  server : m'.serverID = m.serverID
  before : ∀ q ∈ rules, extractMetric A q.metric m t = some (value q)
  after : ∀ q ∈ rules, extractMetric A q.metric m' t' = some (value q)
  later : t ≠ t'
  waited : ∀ q ∈ rules, q.forDuration ≤ timeSub t' t

section Probe

variable {rules a b c : List Rule} {value : Rule → F64} {m m' : MetricRow} {t t' : ℤ}
  {e : Evaluator} {x y : Rule}

/-- A rule alone fires on the second of two samples that breach it. -/
theorem Probe.alone (h : Probe A rules value m m' t t') {q : Rule} (hq : q ∈ rules)
    (hon : q.isEnabled = true) :
    (RuleState.fresh.tryRow A q m t).2 = none
      ∧ (((RuleState.fresh.tryRow A q m t).1.tryRow A q m' t').2
        = if q.breached (value q) then some (buildAlert q m' (value q) t' false) else none) := by
  rw [tryRow_value hon (h.before q hq), tryRow_value hon (h.after q hq)]
  have hw := h.waited q hq
  rcases hb : q.breached (value q) with _ | _
  · simp [RuleState.advance, RuleState.fresh, hb]
  · simp [RuleState.advance, RuleState.fresh, hb, hw]

/-- What the rules send on the second sample when each sends what it sends alone. -/
def SendsAlone (A : Arith) (rules : List Rule) (value : Rule → F64) (m' : MetricRow) (t' : ℤ)
    (e : Evaluator) : Prop :=
  ∀ (j : ℕ) (q : Rule), rules[j]? = some q → q.isEnabled = true →
    (e.evaluateRow A m' t' rules).2[j]?.join
      = if q.breached (value q) then some (buildAlert q m' (value q) t' false) else none

theorem SendsAlone.append (h : SendsAlone A (a ++ b) value m' t' e) :
    SendsAlone A a value m' t' e
      ∧ SendsAlone A b value m' t' (e.evaluateRow A m' t' a).1 := by
  unfold SendsAlone at h
  rw [Evaluator.evaluateRow_append] at h
  constructor
  · intro j q hq hon
    have hlt := (List.getElem?_eq_some_iff.1 hq).1
    rw [← h j q (by rw [List.getElem?_append_left hlt, hq]) hon,
      List.getElem?_append_left (by rwa [Evaluator.length_evaluateRow])]
  · intro j q hq hon
    rw [← h (a.length + j) q (by rw [List.getElem?_append_right (by omega),
        Nat.add_sub_cancel_left, hq]) hon,
      List.getElem?_append_right (by rw [Evaluator.length_evaluateRow]; omega),
      Evaluator.length_evaluateRow, Nat.add_sub_cancel_left]

theorem SendsAlone.head (h : SendsAlone A (x :: c) value m' t' e) (hon : x.isEnabled = true) :
    ((e.stateOf (alertKey x.name m'.tenantID m'.serverID)).tryRow A x m' t').2
      = if x.breached (value x) then some (buildAlert x m' (value x) t' false) else none := by
  rw [← (Evaluator.tryRule_spec e x m' t' "").2]
  exact h 0 x rfl hon

/-- Of two breached rules of one name, only the first can fire on a sample. -/
theorem not_both_breached (hv : ∀ q ∈ a ++ x :: (b ++ y :: c),
      extractMetric A q.metric m' t' = some (value q))
    (hs : SendsAlone A (a ++ x :: (b ++ y :: c)) value m' t' e) (hname : x.name = y.name)
    (hx : x.isEnabled = true) (hy : y.isEnabled = true) (hbx : x.breached (value x) = true) :
    y.breached (value y) = false := by
  have hvx := hv x (by simp)
  have hvy := hv y (by simp)
  obtain ⟨-, hs⟩ := hs.append
  have hsx := hs.head hx
  obtain ⟨-, hs⟩ := SendsAlone.append (a := [x]) hs
  obtain ⟨hsb, hsy⟩ := hs.append
  have hsy := hsy.head hy
  rw [← hname] at hsy
  rw [if_pos hbx, tryRow_value hx hvx] at hsx
  -- the first fires, and no rule between the two sends a recovery
  have hfires : ((((e.evaluateRow A m' t' a).1.evaluateRow A m' t' [x]).1.evaluateRow A m' t'
      b).1.stateOf (alertKey x.name m'.tenantID m'.serverID)).state = .firing := by
    refine Evaluator.evaluateRow_keeps (P := (·.state = .firing)) ?_ ?_
    · simp only [Evaluator.evaluateRow]
      rw [(Evaluator.tryRule_spec _ x m' t' _).1, if_pos rfl, tryRow_value hx hvx]
      exact advance_fires hbx hsx
    · intro j q hq _ st hst hsent
      rcases hon : q.isEnabled with _ | _
      · rw [RuleState.tryRow_disabled A hon]
        exact hst
      have hvq := hv q (by simp [List.mem_of_getElem? hq])
      rw [tryRow_value hon hvq] at hsent ⊢
      refine advance_firing hst ?_
      rcases hb : q.breached (value q) with _ | _
      · rw [← hsent, hsb j q hq hon, hb]
        rfl
      · exact advance_again hst hb
  by_contra hby
  rw [Bool.not_eq_false] at hby
  rw [if_pos hby, tryRow_value hy hvy, advance_again hfires hby] at hsy
  cases hsy

/-- Rules that are not breached keep a state from firing, and any of them turns it to ok. -/
theorem healthy_rules (rules : List Rule) {k : String}
    (hv : ∀ q ∈ rules, extractMetric A q.metric m t = some (value q))
    (hb : ∀ q ∈ rules, q.isEnabled = true → k = alertKey q.name m.tenantID m.serverID →
      q.breached (value q) = false) (hst : (e.stateOf k).state ≠ .firing) :
    ((e.evaluateRow A m t rules).1.stateOf k).state ≠ .firing
      ∧ ((e.stateOf k).state = .ok ∨ (∃ y ∈ rules, y.isEnabled = true
          ∧ k = alertKey y.name m.tenantID m.serverID) →
        ((e.evaluateRow A m t rules).1.stateOf k).state = .ok) := by
  induction rules generalizing e with
  | nil => simpa [Evaluator.evaluateRow] using hst
  | cons q rules ih =>
    have ih := fun hst => ih (e := (e.tryRule A q m t).1)
      (fun q' hq' => hv q' (List.mem_cons_of_mem q hq'))
      (fun q' hq' => hb q' (List.mem_cons_of_mem q hq')) hst
    have hstate := (Evaluator.tryRule_spec (A := A) e q m t k).1
    by_cases hq : q.isEnabled = true ∧ k = alertKey q.name m.tenantID m.serverID
    · have hok : ((e.tryRule A q m t).1.stateOf k).state = .ok := by
        rw [hstate, if_pos hq.2, tryRow_value hq.1 (hv q List.mem_cons_self)]
        exact advance_healthy (hb q List.mem_cons_self hq.1 hq.2) hst
      obtain ⟨h₁, h₂⟩ := ih (by rw [hok]; decide)
      exact ⟨h₁, fun _ => h₂ (.inl hok)⟩
    · have hsame : (e.tryRule A q m t).1.stateOf k = e.stateOf k := by
        rw [hstate]
        split_ifs with hk
        · rw [RuleState.tryRow_disabled A (by simpa [hk] using hq)]
        · rfl
      obtain ⟨h₁, h₂⟩ := ih (by rw [hsame]; exact hst)
      refine ⟨h₁, fun h => h₂ ?_⟩
      rw [hsame]
      rcases h with h | ⟨y, hy, hyq⟩
      · exact .inl h
      · exact .inr ⟨y, (List.mem_cons.1 hy).resolve_left fun h => hq (h ▸ hyq), hyq⟩

/-- A breached rule does not fire on the second sample next to an enabled rule of its name. -/
theorem Probe.not_alone (h : Probe A (a ++ x :: b) value m m' t t') (hx : x.isEnabled = true)
    (hbx : x.breached (value x) = true) (hy : y ∈ a ++ b) (hyon : y.isEnabled = true)
    (hname : y.name = x.name) (he : ∀ k, e.stateOf k = .fresh) :
    ¬ SendsAlone A (a ++ x :: b) value m' t' (e.evaluateRow A m t (a ++ x :: b)).1 := by
  intro hs
  have hhealthy : ∀ q ∈ a ++ b, q.isEnabled = true → q.name = x.name →
      q.breached (value q) = false := by
    intro q hq hon hqname
    rcases List.mem_append.1 hq with hq | hq
    · obtain ⟨a₁, a₂, rfl⟩ := List.append_of_mem hq
      rw [List.append_assoc, List.cons_append] at hs h
      by_contra hbq
      rw [Bool.not_eq_false] at hbq
      rw [not_both_breached h.after hs hqname hon hx hbq] at hbx
      cases hbx
    · obtain ⟨b₁, b₂, rfl⟩ := List.append_of_mem hq
      exact not_both_breached h.after hs hqname.symm hx hon hbx
  have hkey : ∀ q : Rule, alertKey x.name m.tenantID m.serverID
      = alertKey q.name m.tenantID m.serverID → q.name = x.name :=
    fun q hk => (alertKey_name hk).symm
  have hyk : alertKey x.name m.tenantID m.serverID = alertKey y.name m.tenantID m.serverID := by
    rw [hname]
  -- the first sample leaves the state pending, or ok when the other rule comes after
  have hbefore := (healthy_rules a (e := e) (k := alertKey x.name m.tenantID m.serverID)
    (fun q hq => h.before q (List.mem_append_left _ hq))
    (fun q hq hon hk => hhealthy q (List.mem_append_left _ hq) hon (hkey q hk))
    (by rw [he]; decide)).2 (.inl (by rw [he]; rfl))
  have hx₁ : (((e.evaluateRow A m t a).1.tryRule A x m t).1.stateOf
      (alertKey x.name m.tenantID m.serverID)).state ≠ .firing := by
    rw [(Evaluator.tryRule_spec _ x m t _).1, if_pos rfl, tryRow_value hx (h.before x (by simp))]
    exact (advance_ok hbefore).2
  obtain ⟨hafter, hafter'⟩ := healthy_rules b
    (fun q hq => h.before q (by simp [hq]))
    (fun q hq hon hk => hhealthy q (List.mem_append_right _ hq) hon (hkey q hk)) hx₁
  have hpass : (e.evaluateRow A m t (a ++ x :: b)).1
      = (((e.evaluateRow A m t a).1.tryRule A x m t).1.evaluateRow A m t b).1 := by
    rw [Evaluator.evaluateRow_append]
    rfl
  rw [hpass] at hs
  -- so before the rule sees the second sample, the state is ok
  obtain ⟨-, hsecond⟩ := healthy_rules a (m := m') (t := t')
    (fun q hq => h.after q (List.mem_append_left _ hq))
    (fun q hq hon hk => hhealthy q (List.mem_append_left _ hq) hon
      (hkey q (by rwa [h.tenant, h.server] at hk))) hafter
  have hsx := hs.append.2.head hx
  rw [h.tenant, h.server, if_pos hbx, tryRow_value hx (h.after x (by simp)), (advance_ok _).1] at hsx
  · cases hsx
  · refine hsecond ?_
    rcases List.mem_append.1 hy with hy | hy
    · exact .inr ⟨y, hy, hyon, by rw [h.tenant, h.server, hyk]⟩
    · exact .inl (hafter' (.inr ⟨y, hy, hyon, hyk⟩))

end Probe

/-! ## A probe for a rule that can be breached -/

theorem validateRules_ok {rules : List Rule} (h : validateRules rules = .ok ()) :
    ∀ q ∈ rules, q.validate = .ok () := by
  induction rules with
  | nil => simp
  | cons r rules ih =>
    simp only [validateRules] at h
    split at h
    · cases h
    · rename_i hr
      intro q hq
      rcases List.mem_cons.1 hq with rfl | hq
      · exact hr
      · exact ih h q hq

/-- The rules that are loaded are about metrics that a sample has. -/
theorem loadRules_metric {path : String} {file : Except String (List Rule)} {rules : List Rule}
    (h : loadRules path file = .ok rules) : ∀ q ∈ rules, q.metric ∈ Rule.knownMetrics := by
  unfold loadRules at h
  split_ifs at h with hpath
  · cases h
    decide
  split at h
  · cases h
  split_ifs at h
  split at h
  · cases h
  rename_i hval
  cases h
  intro q hq
  have hq := validateRules_ok hval q hq
  unfold Rule.validate at hq
  split_ifs at hq with h₁ h₂
  simpa using h₂

theorem parseDuration_le {text : String} {d : ℤ} (h : parseDuration text = some d) :
    d ≤ 2 ^ 63 - 1 := by
  unfold parseDuration at h
  generalize splitSign text.toList = sign at h
  obtain ⟨neg, s⟩ := sign
  dsimp only at h
  split_ifs at h with h₀ h₁ hneg
  · cases h
    decide
  all_goals
    split at h
    · cases h
  · cases h
    omega
  · split_ifs at h
    cases h
    omega

theorem forDuration_le (r : Rule) : r.forDuration ≤ 2 ^ 63 - 1 := by
  have hfive : 5 * minute ≤ 2 ^ 63 - 1 := by decide
  unfold Rule.forDuration
  split_ifs
  · exact hfive
  rcases hd : parseDuration r.forText with _ | d
  · exact hfive
  dsimp only
  split_ifs
  · exact hfive
  · exact parseDuration_le hd

/-- The record with a disk of known size, unless the metric reads the size, `k` seconds later. -/
def probeRecord (metric : String) (x : MetricRecord) (k : ℤ) : MetricRecord :=
  { x with
    timestamp := x.timestamp + k
    tenantID := "tenant-a"
    serverID := "agent-a"
    diskTotalGB := if metric = metricDiskFreePct then x.diskTotalGB else .fin 1 }

/-- A pass over that record alone. -/
def probePass (metric : String) (x : MetricRecord) (n : ℕ) (now k : ℤ) : EvalPass where
  now := now + k * second
  db := { HubDB.empty with metrics := [⟨n, probeRecord metric x k⟩], lastMetricID := n }
  visit := ⟨id, fun _ => .refl _⟩

section ProbePass

variable {metric : String} {x : Stored MetricRecord} {n : ℕ} {now k : ℤ} {value : F64}

theorem recent_probe (metric : String) (n : ℕ) (hx : recent now x = true) :
    recent (now + k * second) ⟨n, probeRecord metric x.row k⟩ = true := by
  unfold recent at hx ⊢
  rw [decide_eq_true_eq] at hx ⊢
  change _ ≤ x.row.timestamp + k
  generalize lookback = d at *
  unfold unix second at *
  omega

theorem plain_probe (metric : String) (x : MetricRecord) (n : ℕ) (now k : ℤ) :
    (probePass metric x n now k).Plain where
  tenants r hr := by
    obtain rfl := List.mem_singleton.1 hr
    exact (by decide : "tenant-a" ≠ "" ∧ '\x00' ∉ "tenant-a".toList)
  servers r hr := by
    obtain rfl := List.mem_singleton.1 hr
    exact (by decide : '\x00' ∉ "agent-a".toList)
  fits := le_trans List.countP_le_length (by decide : 1 ≤ defaultQueryLimit)

theorem rows_probe (hx : recent now x = true) :
    (probePass metric x.row n now k).rows = [scanMetric ⟨n, probeRecord metric x.row k⟩] := by
  have hrows := EvalPass.recentRows_of_fits (plain_probe metric x.row n now k).fits
  have hfilter : (probePass metric x.row n now k).db.metrics.filter
      (recent (probePass metric x.row n now k).now) = [⟨n, probeRecord metric x.row k⟩] :=
    List.filter_cons_of_pos (recent_probe metric n hx)
  rw [hfilter] at hrows
  unfold EvalPass.rows
  rw [evaluatedRows_eq, hrows]
  rfl

theorem extract_later (name : String) :
    extractMetric A name (scanMetric ⟨n, probeRecord metric x.row k⟩) (now + k * second)
      = extractMetric A name (scanMetric ⟨n, probeRecord metric x.row 0⟩) now := by
  have hsilent : timeSub (now + k * second) ((x.row.timestamp + k) * second)
      = timeSub now ((x.row.timestamp + 0) * second) := by
    unfold timeSub
    rw [add_mul, add_zero, add_sub_add_right_eq_sub]
  simp only [extractMetric, scanMetric, probeRecord]
  rw [hsilent]
  rfl

theorem extract_probe (h : extractMetric A metric (scanMetric x) now = some value) :
    extractMetric A metric (scanMetric ⟨n, probeRecord metric x.row 0⟩) now = some value := by
  rw [← h]
  by_cases hm : metric = metricDiskFreePct
  · subst hm
    rfl
  · simp [extractMetric, scanMetric, probeRecord, hm]

theorem extract_known (h : extractMetric A metric (scanMetric x) now = some value) {name : String}
    (hname : name ∈ Rule.knownMetrics) :
    ∃ v, extractMetric A name (scanMetric ⟨n, probeRecord metric x.row 0⟩) now = some v := by
  by_cases hfree : name = metricDiskFreePct
  · by_cases hm : metric = metricDiskFreePct
    · subst hfree
      subst hm
      exact ⟨value, h⟩
    · subst hfree
      exact ⟨_, by simp only [extractMetric, scanMetric, probeRecord, if_neg hm]; rfl⟩
  · simp only [Rule.knownMetrics, List.mem_cons, List.not_mem_nil, or_false] at hname
    simp only [extractMetric, if_neg hfree]
    rcases hname with rfl | rfl | rfl | rfl | rfl | rfl | rfl | rfl
    all_goals first | exact absurd rfl hfree | exact ⟨_, rfl⟩

/-- Seconds that are more than any duration. -/
def probeWait : ℤ := 9223372037

theorem waits_probe (q : Rule) (now : ℤ) :
    q.forDuration ≤ timeSub (now + probeWait * second) (now + 0 * second) := by
  have := forDuration_le q
  unfold timeSub probeWait second
  omega

/-- The value of a rule in the probe. -/
def probeValue (A : Arith) (metric : String) (x : MetricRecord) (n : ℕ) (now : ℤ) (q : Rule) : F64 :=
  (extractMetric A q.metric (scanMetric ⟨n, probeRecord metric x 0⟩) now).getD .nan

theorem probe (h : extractMetric A metric (scanMetric x) now = some value) (rules : List Rule)
    (hrules : ∀ q ∈ rules, q.metric ∈ Rule.knownMetrics) :
    Probe A rules (probeValue A metric x.row n now) (scanMetric ⟨n, probeRecord metric x.row 0⟩)
      (scanMetric ⟨n, probeRecord metric x.row probeWait⟩) (now + 0 * second)
      (now + probeWait * second) := by
  have hvalue : ∀ k, ∀ q ∈ rules, extractMetric A q.metric
      (scanMetric ⟨n, probeRecord metric x.row k⟩) (now + k * second)
        = some (probeValue A metric x.row n now q) := by
    intro k q hq
    obtain ⟨v, hv⟩ := extract_known (n := n) h (hrules q hq)
    rw [extract_later, probeValue, hv]
    rfl
  exact ⟨rfl, rfl, hvalue 0, hvalue probeWait, by unfold probeWait second; omega,
    fun q _ => waits_probe q now⟩

/-- What a rule sends for the server of the probe in the two passes. -/
theorem sentFor_probe (hx : recent now x = true) (rules : List Rule) (i : ℕ) :
    sentFor i "tenant-a" "agent-a" (Evaluator.empty.sends A rules
        [probePass metric x.row n now 0, probePass metric x.row n now probeWait])
      = ((Evaluator.empty.evaluateRow A (scanMetric ⟨n, probeRecord metric x.row 0⟩)
          (now + 0 * second) rules).2[i]?.join).toList
        ++ (((Evaluator.empty.evaluateRow A (scanMetric ⟨n, probeRecord metric x.row 0⟩)
          (now + 0 * second) rules).1.evaluateRow A
            (scanMetric ⟨n, probeRecord metric x.row probeWait⟩) (now + probeWait * second)
            rules).2[i]?.join).toList := by
  have hone : ∀ (k : ℤ) (e : Evaluator), e.evaluateOnce A rules
      (probePass metric x.row n now k).now (probePass metric x.row n now k).db
      (probePass metric x.row n now k).visit
        = ((e.evaluateRow A (scanMetric ⟨n, probeRecord metric x.row k⟩) (now + k * second) rules).1,
          [(scanMetric ⟨n, probeRecord metric x.row k⟩,
            (e.evaluateRow A (scanMetric ⟨n, probeRecord metric x.row k⟩) (now + k * second)
              rules).2)]) := by
    intro k e
    change e.evaluateRows A rules _ (probePass metric x.row n now k).rows = _
    rw [rows_probe hx]
    rfl
  have hsent : ∀ (m : MetricRow) (l : List (Option Alert)), m.tenantID = "tenant-a" →
      m.serverID = "agent-a" → sentFor i "tenant-a" "agent-a" [(m, l)] = (l[i]?.join).toList := by
    intro m l h₁ h₂
    rw [sentFor, List.filterMap_cons, if_pos ⟨h₁, h₂⟩]
    rcases l[i]?.join with _ | alert <;> rfl
  simp only [Evaluator.sends, hone, sentFor_append]
  rw [hsent _ _ rfl rfl, hsent _ _ rfl rfl]
  simp [sentFor]

theorem only_probe (k : ℤ) : (probePass metric x.row n now k).only "tenant-a" "agent-a"
    = probePass metric x.row n now k := by
  simp [EvalPass.only, probePass, probeRecord]

theorem alone_probe (hx : recent now x = true)
    (h : extractMetric A metric (scanMetric x) now = some value) {q : Rule}
    (hq : q.metric ∈ Rule.knownMetrics) (hon : q.isEnabled = true) :
    sentFor 0 "tenant-a" "agent-a" (Evaluator.empty.sends A [q]
        [probePass metric x.row n now 0, probePass metric x.row n now probeWait])
      = if q.breached (probeValue A metric x.row n now q) then
          [buildAlert q (scanMetric ⟨n, probeRecord metric x.row probeWait⟩)
            (probeValue A metric x.row n now q) (now + probeWait * second) false] else [] := by
  have hprobe := probe (n := n) h [q] (by simpa using hq)
  obtain ⟨h₁, h₂⟩ := hprobe.alone (List.mem_singleton_self q) hon
  have hspec := Evaluator.tryRule_spec (A := A) Evaluator.empty q
    (scanMetric ⟨n, probeRecord metric x.row 0⟩) (now + 0 * second)
    (alertKey q.name "tenant-a" "agent-a")
  have hstate := hspec.1.trans (if_pos rfl)
  rw [sentFor_probe hx]
  simp only [Evaluator.evaluateRow, List.getElem?_cons_zero, Option.join_some]
  rw [hspec.2, (Evaluator.tryRule_spec _ q _ _ "").2]
  change ((RuleState.fresh.tryRow A q _ _).2).toList ++ ((Evaluator.stateOf _
    (alertKey q.name "tenant-a" "agent-a")).tryRow A q _ _).2.toList = _
  rw [hstate]
  change ((RuleState.fresh.tryRow A q _ _).2).toList
    ++ ((RuleState.fresh.tryRow A q _ _).1.tryRow A q _ _).2.toList = _
  rw [h₁, h₂]
  split_ifs <;> rfl

theorem firedAt_evaluateRow {rules : List Rule} {m : MetricRow} {t : ℤ} {e : Evaluator} {j : ℕ}
    {q : Rule} (hq : rules[j]? = some q) {alert : Alert}
    (h : (e.evaluateRow A m t rules).2[j]?.join = some alert) : alert.firedAt = t := by
  obtain ⟨a, b, rfl, rfl⟩ := exists_split hq
  rw [Evaluator.evaluateRow_sent, (Evaluator.tryRule_spec _ q m t "").2] at h
  rcases hon : q.isEnabled with _ | _
  · rw [RuleState.tryRow_disabled A hon] at h
    cases h
  · rcases hv : extractMetric A q.metric m t with _ | v
    · simp [RuleState.tryRow, hv] at h
    · rw [tryRow_value hon hv] at h
      exact firedAt_advance h

theorem sendsAlone_of_isolated (hx : recent now x = true)
    (h : extractMetric A metric (scanMetric x) now = some value) {rules : List Rule}
    (hrules : ∀ q ∈ rules, q.metric ∈ Rule.knownMetrics)
    (hiso : Isolated A rules
      [probePass metric x.row n now 0, probePass metric x.row n now probeWait]) :
    SendsAlone A rules (probeValue A metric x.row n now)
      (scanMetric ⟨n, probeRecord metric x.row probeWait⟩) (now + probeWait * second)
      (Evaluator.empty.evaluateRow A (scanMetric ⟨n, probeRecord metric x.row 0⟩)
        (now + 0 * second) rules).1 := by
  intro j q hq hon
  have hsent := hiso j q "tenant-a" "agent-a" hq (by decide)
  simp only [List.map_cons, List.map_nil, only_probe] at hsent
  rw [sentFor_probe hx, alone_probe hx h (hrules q (List.mem_of_getElem? hq)) hon] at hsent
  rcases hfirst : (Evaluator.empty.evaluateRow A (scanMetric ⟨n, probeRecord metric x.row 0⟩)
    (now + 0 * second) rules).2[j]?.join with _ | alert
  · rw [hfirst] at hsent
    generalize ((Evaluator.empty.evaluateRow A (scanMetric ⟨n, probeRecord metric x.row 0⟩)
      (now + 0 * second) rules).1.evaluateRow A _ _ rules).2[j]?.join = second at hsent ⊢
    rcases second with _ | alert <;> split_ifs at hsent ⊢ <;> simp_all
  · have hfired := firedAt_evaluateRow hq hfirst
    rw [hfirst] at hsent
    split_ifs at hsent
    · simp only [Option.toList_some, List.singleton_append, List.cons.injEq] at hsent
      rw [hsent.1] at hfired
      exact absurd hfired.symm (probe (n := n) h _ hrules).later
    · simp at hsent

theorem unshared_of_isolated {rules : List Rule}
    (hrules : ∀ q ∈ rules, q.metric ∈ Rule.knownMetrics)
    (hiso : ∀ passes : List EvalPass, (∀ p ∈ passes, p.Plain) → Isolated A rules passes) :
    Unshared A rules := by
  rintro i j r q hij hi hj hron hqon hname ⟨x, now, value, hx, hv, hb⟩
  obtain ⟨a, b, rfl, rfl⟩ := exists_split hi
  have hplain : ∀ p ∈ [probePass r.metric x.row 1 now 0, probePass r.metric x.row 1 now probeWait],
      p.Plain := by
    intro p hp
    simp only [List.mem_cons, List.not_mem_nil, or_false] at hp
    rcases hp with rfl | rfl <;> exact plain_probe ..
  have hval : probeValue A r.metric x.row 1 now r = value := by
    rw [probeValue, extract_probe hv]
    rfl
  have hq : q ∈ a ++ b := mem_of_position hij.symm hj
  exact (probe hv _ hrules).not_alone hron (by rw [hval]; exact hb) hq hqon hname.symm
    (fun k => rfl) (sendsAlone_of_isolated hx hv hrules (hiso _ hplain))

end ProbePass

/-! ## Rules that are never breached, and passes that do not read their window -/

section Unbreachable

variable {rules : List Rule}

theorem evaluateRow_unbreachable (h : ∀ r ∈ rules, r.isEnabled = true → ¬ r.Breachable A)
    {x : Stored MetricRecord} {now : ℤ} (hx : recent now x = true) {e : Evaluator}
    (he : ∀ k, e.stateOf k = .fresh) :
    (∀ k, (e.evaluateRow A (scanMetric x) now rules).1.stateOf k = .fresh)
      ∧ ∀ i : ℕ, (e.evaluateRow A (scanMetric x) now rules).2[i]?.join = none := by
  have hstill : ∀ l : List Rule, (∀ q ∈ l, q ∈ rules) → ∀ k,
      (e.evaluateRow A (scanMetric x) now l).1.stateOf k = .fresh := by
    intro l hl k
    refine Evaluator.evaluateRow_still (he k) fun q hq _ => ?_
    rw [tryRow_fresh hx (h q (hl q hq))]
  refine ⟨hstill rules fun q hq => hq, fun i => ?_⟩
  rcases hi : rules[i]? with _ | r
  · rw [List.getElem?_eq_none_iff] at hi
    rw [List.getElem?_eq_none (by rwa [Evaluator.length_evaluateRow])]
    rfl
  · obtain ⟨a, b, rfl, rfl⟩ := exists_split hi
    rw [Evaluator.evaluateRow_sent, (Evaluator.tryRule_spec _ r _ now "").2,
      hstill a fun q hq => List.mem_append_left _ hq, tryRow_fresh hx (h r (by simp))]

theorem evaluateRows_unbreachable (h : ∀ r ∈ rules, r.isEnabled = true → ¬ r.Breachable A)
    (now : ℤ) (rows : List MetricRow)
    (hrows : ∀ m ∈ rows, ∃ x : Stored MetricRecord, recent now x = true ∧ scanMetric x = m)
    {e : Evaluator} (he : ∀ k, e.stateOf k = .fresh) (i : ℕ) (tenant server : String) :
    (∀ k, (e.evaluateRows A rules now rows).1.stateOf k = .fresh)
      ∧ sentFor i tenant server (e.evaluateRows A rules now rows).2 = [] := by
  induction rows generalizing e with
  | nil => exact ⟨he, rfl⟩
  | cons m rows ih =>
    obtain ⟨x, hx, rfl⟩ := hrows m List.mem_cons_self
    obtain ⟨hstate, hnone⟩ := evaluateRow_unbreachable h hx he
    obtain ⟨h₁, h₂⟩ := ih (fun m' hm' => hrows m' (List.mem_cons_of_mem _ hm')) hstate
    refine ⟨h₁, ?_⟩
    simp only [Evaluator.evaluateRows]
    rw [← List.singleton_append, sentFor_append, h₂, sentFor]
    simp [hnone]

/-- Rules that cannot be breached send nothing. -/
theorem sentFor_unbreachable (h : ∀ r ∈ rules, r.isEnabled = true → ¬ r.Breachable A)
    {e : Evaluator} (he : ∀ k, e.stateOf k = .fresh) (passes : List EvalPass) (i : ℕ)
    (tenant server : String) : sentFor i tenant server (e.sends A rules passes) = [] := by
  induction passes generalizing e with
  | nil => rfl
  | cons p ps ih =>
    obtain ⟨hstate, hnone⟩ := evaluateRows_unbreachable h p.now p.rows
      (fun m hm => by
        obtain ⟨x, hx, rfl⟩ := EvalPass.of_mem_rows hm
        exact ⟨x, (EvalPass.recentRows_sub hx).2, rfl⟩) he i tenant server
    simp only [Evaluator.sends, sentFor_append]
    exact List.append_eq_nil_iff.2 ⟨hnone, ih hstate⟩

end Unbreachable

/-- The probe behind `n` rows of another tenant that are as new. -/
def crowdedPass (metric : String) (x : MetricRecord) (n : ℕ) (now k : ℤ) : EvalPass where
  now := now + k * second
  db := { HubDB.empty with
    metrics := crowd { probeRecord metric x k with tenantID := "tenant-b" } n (probeRecord metric x k)
    lastMetricID := n + 1 }
  visit := ⟨id, fun _ => .refl _⟩

section Crowded

variable {metric : String} {x : Stored MetricRecord} {n : ℕ} {now k : ℤ}

theorem only_crowded : (crowdedPass metric x.row n now k).only "tenant-a" "agent-a"
    = probePass metric x.row (n + 1) now k := by
  simp [EvalPass.only, crowdedPass, crowd, probePass, probeRecord]

/-- A pass that reads no more rows than there are before the probe has no sample of its tenant. -/
theorem rows_crowded (hx : recent now x = true) (hn : defaultQueryLimit ≤ n) {m : MetricRow}
    (hm : m ∈ (crowdedPass metric x.row n now k).rows) : m.tenantID = "tenant-b" := by
  obtain ⟨r, hr, rfl⟩ := EvalPass.of_mem_rows hm
  have hrow := crowd_unread (c := { probeRecord metric x.row k with tenantID := "tenant-b" })
    (y := probeRecord metric x.row k) _ rfl hn (of_decide_eq_true (recent_probe metric n hx))
    le_rfl hr
  simp only [scanMetric, hrow]

end Crowded

/-- Over passes that read their whole window, the rules and servers do not influence each other just
when no two enabled rules have one name, unless neither can be breached. Over all passes they do as
soon as a rule can be breached, because the rows of others may fill what a pass reads. -/
theorem isolated_iff (A : Arith) (path : String) (file : Except String (List Rule))
    (rules : List Rule) (h : loadRules path file = .ok rules) :
    ((∀ passes : List EvalPass, (∀ p ∈ passes, p.Plain) → Isolated A rules passes)
        ↔ Unshared A rules)
      ∧ ((∀ passes : List EvalPass, Isolated A rules passes)
        ↔ ∀ r ∈ rules, r.isEnabled = true → ¬ r.Breachable A) := by
  have hrules := loadRules_metric h
  refine ⟨⟨unshared_of_isolated hrules, fun h passes => isolated_of_unshared h⟩, ?_, ?_⟩
  · rintro hiso r hr hon ⟨x, now, value, hx, hv, hb⟩
    obtain ⟨i, hi⟩ := List.mem_iff_getElem?.1 hr
    have hval : probeValue A r.metric x.row (defaultQueryLimit + 1) now r = value := by
      rw [probeValue, extract_probe hv]
      rfl
    have hsent := hiso [crowdedPass r.metric x.row defaultQueryLimit now 0,
      crowdedPass r.metric x.row defaultQueryLimit now probeWait] i r "tenant-a" "agent-a" hi
      (by decide)
    rw [sentFor_sends_nil] at hsent
    · simp only [List.map_cons, List.map_nil, only_crowded] at hsent
      rw [alone_probe hx hv (hrules r hr) hon, hval, if_pos hb] at hsent
      cases hsent
    · intro p hp m hm hpair
      simp only [List.mem_cons, List.not_mem_nil, or_false] at hp
      have htenant : m.tenantID = "tenant-b" := by
        rcases hp with rfl | rfl <;> exact rows_crowded hx le_rfl hm
      rw [hpair.1] at htenant
      exact absurd htenant (by decide)
  · intro hnot passes i r tenant server hi _
    rw [sentFor_unbreachable hnot (fun _ => rfl), sentFor_unbreachable (by
      simpa using hnot r (List.mem_of_getElem? hi)) (fun _ => rfl)]

/-- Passes a minute apart over one row of a server, taken at the time of the pass. -/
def minutePass (cpu mem : ℚ) (k : ℕ) : EvalPass where
  now := sampleMetric.timestamp + k * minute
  db := { HubDB.empty with
    metrics := [⟨1, metricRecord "tenant-a" "agent-a"
      { sampleMetric with
        timestamp := sampleMetric.timestamp + k * minute
        cpuPct := .fin cpu
        memPct := .fin mem }⟩]
    lastMetricID := 1 }
  visit := ⟨id, fun _ => .refl _⟩

theorem minutePass_plain (cpu mem : ℚ) (k : ℕ) : (minutePass cpu mem k).Plain where
  tenants r hr := by
    obtain rfl := List.mem_singleton.1 hr
    exact (by decide : "tenant-a" ≠ "" ∧ '\x00' ∉ "tenant-a".toList)
  servers r hr := by
    obtain rfl := List.mem_singleton.1 hr
    exact (by decide : '\x00' ∉ "agent-a".toList)
  fits := le_trans List.countP_le_length (by decide : 1 ≤ defaultQueryLimit)

theorem isolated_iff_default :
    Unshared exactArith defaultRules
      ∧ Isolated exactArith defaultRules [minutePass 95 30 0, minutePass 95 30 5] := by
  have hunshared : Unshared exactArith defaultRules := by
    intro i j r q hij hi hj _ _ hname
    have hnames : (defaultRules.map (·.name)).Nodup := by decide
    have hlt : i < (defaultRules.map (·.name)).length := by
      rw [List.length_map]
      exact (List.getElem?_eq_some_iff.1 hi).1
    refine absurd ((List.getElem?_inj hlt hnames).1 ?_) hij
    rw [List.getElem?_map, List.getElem?_map, hi, hj, Option.map_some, Option.map_some, hname]
  refine ⟨hunshared, (isolated_iff exactArith "" (.ok []) defaultRules rfl).1.2 hunshared _ ?_⟩
  intro p hp
  simp only [List.mem_cons, List.not_mem_nil, or_false] at hp
  rcases hp with rfl | rfl <;> exact minutePass_plain ..

/-- Rules for the processor and the memory under one name. -/
def highLoad (metric : String) : Rule :=
  ⟨"High load", metric, greaterThan, .fin 90, "1m", severityWarning, none⟩

/-- The rule for the memory resets what the processor breaches, so that no alert is ever sent. -/
theorem high_load_unsent :
    loadRules "rules.json" (.ok [highLoad metricCPUPct, highLoad metricMemPct])
        = .ok [highLoad metricCPUPct, highLoad metricMemPct]
      ∧ sentFor 0 "tenant-a" "agent-a" (Evaluator.empty.sends exactArith
          [highLoad metricCPUPct, highLoad metricMemPct]
          [minutePass 95 30 0, minutePass 95 30 1]) = []
      ∧ (sentFor 0 "tenant-a" "agent-a" (Evaluator.empty.sends exactArith [highLoad metricCPUPct]
          ([minutePass 95 30 0, minutePass 95 30 1].map (·.only "tenant-a" "agent-a")))).length
        = 1 := by
  decide +kernel

end WMonitor
