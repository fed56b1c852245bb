import Mathlib.Data.List.DropRight
import WMonitor.Proofs.AlertSharing

/-!
# What a rule sends over a run

The evaluations of one rule for one server, in any order with those of the others. Two timestamps
and a state say where the current run of breaching or of healthy evaluations began (`Tracks`). So a
rule fires at the first evaluation at which a breach has lasted long enough, it recovers in the same
way, and the two alternate (`notifies_iff`). The time at which a recovery begins must not be the zero
time, which stands for none.
-/

namespace WMonitor

/-! ## Evaluations -/

/-- A call of `evaluateRule`. -/
structure Evaluation where
  rule : Rule
  row : MetricRow
  value : F64
  now : ℤ
  deriving DecidableEq

namespace Evaluation

def key (x : Evaluation) : String := alertKey x.rule.name x.row.tenantID x.row.serverID

def breached (x : Evaluation) : Bool := x.rule.breached x.value

end Evaluation

def Evaluator.evaluate (e : Evaluator) (x : Evaluation) : Evaluator × Option Alert :=
  e.evaluateRule x.rule x.row x.value x.now

/-- The evaluator after these calls. -/
def Evaluator.after (xs : List Evaluation) : Evaluator :=
  Run.run (fun e x => (e.evaluate x).1) .empty xs

/-- What the calls send under a key. -/
def Evaluator.notices (k : String) : Evaluator → List Evaluation → List Alert
  | _, [] => []
  | e, x :: xs =>
    (if x.key = k then (e.evaluate x).2.toList else []) ++ notices k (e.evaluate x).1 xs

def RuleState.evaluate (st : RuleState) (x : Evaluation) : RuleState × Option Alert :=
  st.advance x.rule x.row x.value x.now

/-- The state of a rule after these calls. -/
def RuleState.after (xs : List Evaluation) : RuleState :=
  Run.run (fun st x => (st.evaluate x).1) .fresh xs

/-- What the calls send on one state. -/
def RuleState.notices : RuleState → List Evaluation → List Alert
  | _, [] => []
  | st, x :: xs => (st.evaluate x).2.toList ++ notices (st.evaluate x).1 xs

/-- The calls under a key. -/
def own (k : String) (xs : List Evaluation) : List Evaluation := xs.filter (·.key = k)

/-- The last of the alerts says that the rule fires. -/
def IsOpen (alerts : List Alert) : Prop := ∃ a ∈ alerts.getLast?, a.resolved = false

/-- Alerts that fire and recover in turn, the first of them fires. -/
def Alternates (alerts : List Alert) : Prop :=
  ∀ i a, alerts[i]? = some a → a.resolved = decide (i % 2 = 1)

/-! ## One key -/

theorem evaluate_eq (e : Evaluator) (x : Evaluation) :
    e.evaluate x = match (e.stateOf x.key).evaluate x with
      | (st, none) => (e.putState x.key st, none)
      | (st, some alert) => ((e.putState x.key st).record alert, some alert) := by
  change e.evaluateRule x.rule x.row x.value x.now = _
  rcases hst : (e.stateOf x.key).evaluate x with ⟨st, _ | alert⟩ <;>
    rw [RuleState.evaluate, Evaluation.key] at hst <;>
    simp only [Evaluator.evaluateRule, hst] <;> rfl

theorem evaluate_spec (e : Evaluator) (x : Evaluation) (k : String) :
    (e.evaluate x).1.stateOf k
        = (if x.key = k then ((e.stateOf k).evaluate x).1 else e.stateOf k)
      ∧ (e.evaluate x).2 = ((e.stateOf x.key).evaluate x).2 := by
  have hkey : (if k = x.key then ((e.stateOf x.key).evaluate x).1 else e.stateOf k)
      = if x.key = k then ((e.stateOf k).evaluate x).1 else e.stateOf k := by
    split_ifs with h h' h'
    · rw [h]
    · exact absurd h.symm h'
    · exact absurd h'.symm h
    · rfl
  rw [← hkey, evaluate_eq]
  rcases (e.stateOf x.key).evaluate x with ⟨st, _ | alert⟩
  · exact ⟨Evaluator.stateOf_putState e x.key k st, rfl⟩
  · exact ⟨(Evaluator.stateOf_record _ alert k).trans (Evaluator.stateOf_putState e x.key k st), rfl⟩

/-- The calls under other keys do not matter. -/
theorem run_own (k : String) (xs : List Evaluation) (e : Evaluator) :
    (Run.run (fun e x => (e.evaluate x).1) e xs).stateOf k
        = Run.run (fun st x => (st.evaluate x).1) (e.stateOf k) (own k xs)
      ∧ e.notices k xs = (e.stateOf k).notices (own k xs) := by
  induction xs generalizing e with
  | nil => exact ⟨rfl, rfl⟩
  | cons x xs ih =>
    obtain ⟨hstate, hsent⟩ := evaluate_spec e x k
    obtain ⟨ih₁, ih₂⟩ := ih (e.evaluate x).1
    rw [hstate] at ih₁ ih₂
    by_cases hk : x.key = k
    · have hown : own k (x :: xs) = x :: own k xs := List.filter_cons_of_pos (by simpa using hk)
      rw [if_pos hk] at ih₁ ih₂
      rw [hk] at hsent
      rw [hown, Evaluator.notices, if_pos hk, ih₂, hsent]
      exact ⟨ih₁, rfl⟩
    · have hown : own k (x :: xs) = own k xs := List.filter_cons_of_neg (by simpa using hk)
      rw [if_neg hk] at ih₁ ih₂
      rw [hown, Evaluator.notices, if_neg hk, ih₂]
      exact ⟨ih₁, rfl⟩

theorem stateOf_after (k : String) (xs : List Evaluation) :
    (Evaluator.after xs).stateOf k = RuleState.after (own k xs) :=
  (run_own k xs .empty).1

theorem notices_own (k : String) (xs : List Evaluation) :
    Evaluator.empty.notices k xs = RuleState.fresh.notices (own k xs) :=
  (run_own k xs .empty).2

theorem after_concat (ys : List Evaluation) (x : Evaluation) :
    RuleState.after (ys ++ [x]) = ((RuleState.after ys).evaluate x).1 :=
  Run.run_append

theorem notices_append (st : RuleState) (ys zs : List Evaluation) :
    st.notices (ys ++ zs)
      = st.notices ys ++ (Run.run (fun st x => (st.evaluate x).1) st ys).notices zs := by
  induction ys generalizing st with
  | nil => rfl
  | cons y ys ih =>
    rw [List.cons_append, RuleState.notices, ih, RuleState.notices, List.append_assoc]
    rfl

theorem notices_concat (ys : List Evaluation) (x : Evaluation) :
    RuleState.fresh.notices (ys ++ [x])
      = RuleState.fresh.notices ys ++ ((RuleState.after ys).evaluate x).2.toList := by
  rw [notices_append, RuleState.notices, RuleState.notices, List.append_nil]
  rfl

theorem not_open_nil : ¬ IsOpen [] := by simp [IsOpen]

@[simp] theorem isOpen_concat (alerts : List Alert) (a : Alert) :
    IsOpen (alerts ++ [a]) ↔ a.resolved = false := by
  simp [IsOpen]

/-! ## What the state keeps -/

/-- The current run of evaluations with this outcome. -/
def streak (b : Bool) (ys : List Evaluation) : List Evaluation :=
  ys.rtakeWhile fun y => y.breached = b

theorem streak_concat (b : Bool) (ys : List Evaluation) (x : Evaluation) :
    streak b (ys ++ [x]) = if x.breached = b then streak b ys ++ [x] else [] := by
  rw [streak, List.rtakeWhile_concat]
  simp only [decide_eq_true_eq]
  rfl

/-- The state says what the evaluations so far have come to: whether an alert is open, and since when
the rule is breached or healthy. -/
def Tracks (r : Rule) (ys : List Evaluation) (st : RuleState) : Prop :=
  match st.state with
  | .ok => ¬ IsOpen (RuleState.fresh.notices ys) ∧ streak true ys = []
  | .pending => ¬ IsOpen (RuleState.fresh.notices ys) ∧ st.healthySince = zeroTime
      ∧ ∃ h t, streak true ys = h :: t ∧ st.breachingSince = h.now
        ∧ ∀ y ∈ t, y.now - h.now < r.forDuration
  | .firing => IsOpen (RuleState.fresh.notices ys)
      ∧ match streak false ys with
        | [] => st.healthySince = zeroTime
        | h :: t => st.healthySince = h.now ∧ ∀ y ∈ h :: t, y.now - h.now < r.forDuration

theorem forDuration_nonneg (r : Rule) : 0 ≤ r.forDuration := by
  have hfive : 0 ≤ 5 * minute := by decide
  unfold Rule.forDuration
  split_ifs
  · exact hfive
  rcases parseDuration r.forText with _ | d
  · exact hfive
  dsimp only
  split_ifs
  · exact hfive
  · omega

/-- A duration does not see that a difference was cut off. -/
theorem forDuration_le_timeSub (r : Rule) (t u : ℤ) :
    timeSub t u ≥ r.forDuration ↔ r.forDuration ≤ t - u := by
  have h₁ := forDuration_le r
  have h₂ := forDuration_nonneg r
  unfold timeSub
  omega

/-- The firing of a rule at an evaluation: no alert is open, and the breach that began at `h` has
lasted long enough for the first time. -/
def FiresAfter (r : Rule) (ys : List Evaluation) (x : Evaluation) : Prop :=
  ¬ IsOpen (RuleState.fresh.notices ys) ∧ ∃ h t, streak true (ys ++ [x]) = h :: (t ++ [x])
    ∧ r.forDuration ≤ x.now - h.now ∧ ∀ y ∈ t, y.now - h.now < r.forDuration

/-- The recovery of a rule at an evaluation; it may have begun at this one. -/
def RecoversAfter (r : Rule) (ys : List Evaluation) (x : Evaluation) : Prop :=
  IsOpen (RuleState.fresh.notices ys) ∧ ∃ h t, streak false (ys ++ [x]) = h :: t
    ∧ r.forDuration ≤ x.now - h.now ∧ ∀ y ∈ (h :: t).dropLast, y.now - h.now < r.forDuration

section Steps

variable {r : Rule} {ys : List Evaluation} {x : Evaluation} {st : RuleState}

/-- A breaching evaluation: it never recovers. -/
theorem tracks_breached (h : Tracks r ys st) (hst : st = RuleState.after ys) (hr : r = x.rule)
    (hb : x.breached = true) :
    Tracks r (ys ++ [x]) (st.evaluate x).1
      ∧ ((∃ a, (st.evaluate x).2 = some a ∧ a.resolved = false) ↔ FiresAfter r ys x)
      ∧ ∀ a, (st.evaluate x).2 = some a → a.resolved = false := by
  subst hr
  have hrun : streak true (ys ++ [x]) = streak true ys ++ [x] := by rw [streak_concat, if_pos hb]
  have hnone : streak false (ys ++ [x]) = [] := by rw [streak_concat, if_neg (by simp [hb])]
  have hb' : x.rule.breached x.value = true := hb
  have hnotices := notices_concat ys x
  rw [← hst] at hnotices
  obtain ⟨state, since, healthy, last⟩ := st
  cases state with
  | ok =>
    have heval : RuleState.evaluate ⟨.ok, since, healthy, last⟩ x
        = (⟨.pending, x.now, zeroTime, last⟩, none) := by
      simp [RuleState.evaluate, RuleState.advance, hb']
    obtain ⟨hopen, hs⟩ := h
    rw [heval] at hnotices ⊢
    rw [Option.toList_none, List.append_nil] at hnotices
    refine ⟨?_, ?_, by simp⟩
    · rw [Tracks, hnotices, hrun, hs]
      exact ⟨hopen, rfl, x, [], rfl, rfl, by simp⟩
    · refine iff_of_false (by simp) ?_
      rintro ⟨-, h, t, hht, -⟩
      rw [hrun, hs] at hht
      simp at hht
  | pending =>
    obtain ⟨hopen, hz, h, t, hs, hsince, hlt⟩ := h
    obtain rfl : since = h.now := hsince
    by_cases hd : x.rule.forDuration ≤ x.now - h.now
    · have heval : RuleState.evaluate ⟨.pending, h.now, healthy, last⟩ x
          = (⟨.firing, h.now, healthy, some (buildAlert x.rule x.row x.value x.now false)⟩,
            some (buildAlert x.rule x.row x.value x.now false)) := by
        have := (forDuration_le_timeSub x.rule _ _).2 hd
        simp [RuleState.evaluate, RuleState.advance, hb', this]
      rw [heval] at hnotices ⊢
      rw [Option.toList_some] at hnotices
      refine ⟨?_, iff_of_true ⟨_, rfl, rfl⟩ ⟨hopen, h, t, ?_, hd, hlt⟩, ?_⟩
      · rw [Tracks, hnotices, hnone]
        exact ⟨(isOpen_concat _ _).2 rfl, hz⟩
      · rw [hrun, hs, List.cons_append]
      · rintro a ⟨⟩
        rfl
    · have heval : RuleState.evaluate ⟨.pending, h.now, healthy, last⟩ x
          = (⟨.pending, h.now, healthy, last⟩, none) := by
        have := mt (forDuration_le_timeSub x.rule _ _).1 hd
        simp [RuleState.evaluate, RuleState.advance, hb', this]
      rw [heval] at hnotices ⊢
      rw [Option.toList_none, List.append_nil] at hnotices
      refine ⟨?_, ?_, by simp⟩
      · rw [Tracks, hnotices, hrun, hs]
        refine ⟨hopen, hz, h, t ++ [x], rfl, rfl, ?_⟩
        simp only [List.forall_mem_append, List.forall_mem_singleton]
        exact ⟨hlt, not_le.1 hd⟩
      · refine iff_of_false (by simp) ?_
        rintro ⟨-, h', t', hht, hd', -⟩
        rw [hrun, hs] at hht
        obtain ⟨rfl, -⟩ := List.cons.inj hht
        exact hd hd'
  | firing =>
    have heval : RuleState.evaluate ⟨.firing, since, healthy, last⟩ x
        = (⟨.firing, since, zeroTime, last⟩, none) := by
      simp [RuleState.evaluate, RuleState.advance, hb']
    rw [heval] at hnotices ⊢
    rw [Option.toList_none, List.append_nil] at hnotices
    refine ⟨?_, ?_, by simp⟩
    · rw [Tracks, hnotices, hnone]
      exact ⟨h.1, rfl⟩
    · exact iff_of_false (by simp) fun hf => hf.1 h.1

/-- A healthy evaluation: it never fires. -/
theorem tracks_healthy (h : Tracks r ys st) (hst : st = RuleState.after ys) (hr : r = x.rule)
    (hz : ∀ y ∈ ys ++ [x], y.now ≠ zeroTime) (hb : x.breached = false) :
    Tracks r (ys ++ [x]) (st.evaluate x).1
      ∧ ((∃ a, (st.evaluate x).2 = some a ∧ a.resolved = true) ↔ RecoversAfter r ys x)
      ∧ ∀ a, (st.evaluate x).2 = some a → a.resolved = true := by
  subst hr
  have hrun : streak false (ys ++ [x]) = streak false ys ++ [x] := by rw [streak_concat, if_pos hb]
  have hnone : streak true (ys ++ [x]) = [] := by rw [streak_concat, if_neg (by simp [hb])]
  have hb' : x.rule.breached x.value = false := hb
  have hnotices := notices_concat ys x
  rw [← hst] at hnotices
  obtain ⟨state, since, healthy, last⟩ := st
  cases state with
  | ok =>
    have heval : RuleState.evaluate ⟨.ok, since, healthy, last⟩ x
        = (⟨.ok, since, healthy, last⟩, none) := by
      simp [RuleState.evaluate, RuleState.advance, hb']
    rw [heval] at hnotices ⊢
    rw [Option.toList_none, List.append_nil] at hnotices
    refine ⟨?_, iff_of_false (by simp) fun hrec => h.1 hrec.1, by simp⟩
    rw [Tracks, hnotices, hnone]
    exact ⟨h.1, rfl⟩
  | pending =>
    have heval : RuleState.evaluate ⟨.pending, since, healthy, last⟩ x
        = (⟨.ok, zeroTime, healthy, last⟩, none) := by
      simp [RuleState.evaluate, RuleState.advance, hb']
    rw [heval] at hnotices ⊢
    rw [Option.toList_none, List.append_nil] at hnotices
    refine ⟨?_, iff_of_false (by simp) fun hrec => h.1 hrec.1, by simp⟩
    rw [Tracks, hnotices, hnone]
    exact ⟨h.1, rfl⟩
  | firing =>
    obtain ⟨hopen, hs⟩ := h
    have heval : RuleState.evaluate ⟨.firing, since, healthy, last⟩ x
        = if timeSub x.now (if healthy = zeroTime then x.now else healthy) ≥ x.rule.forDuration then
            (⟨.ok, zeroTime, if healthy = zeroTime then x.now else healthy,
              some (buildAlert x.rule x.row x.value x.now true)⟩,
              some (buildAlert x.rule x.row x.value x.now true))
          else (⟨.firing, since, if healthy = zeroTime then x.now else healthy, last⟩, none) := by
      by_cases hh : healthy = zeroTime <;> simp [RuleState.evaluate, RuleState.advance, hb', hh]
    -- the recovery began at `h`: the first of the run, or this evaluation
    obtain ⟨h, t, hht, hsince, hlt⟩ : ∃ h t, streak false ys ++ [x] = h :: t
        ∧ (if healthy = zeroTime then x.now else healthy) = h.now
        ∧ ∀ y ∈ (h :: t).dropLast, y.now - h.now < x.rule.forDuration := by
      rcases hstreak : streak false ys with _ | ⟨h, t⟩ <;> rw [hstreak] at hs
      · exact ⟨x, [], rfl, if_pos hs, by simp⟩
      · have hh : h ∈ ys := (List.rtakeWhile_suffix _ _).subset
          (hstreak ▸ List.mem_cons_self : h ∈ streak false ys)
        refine ⟨h, t ++ [x], rfl, ?_, ?_⟩
        · obtain rfl : healthy = h.now := hs.1
          exact if_neg (hz h (List.mem_append_left _ hh))
        · rw [← List.cons_append, List.dropLast_concat]
          exact hs.2
    rw [hsince] at heval
    by_cases hd : x.rule.forDuration ≤ x.now - h.now
    · rw [if_pos ((forDuration_le_timeSub x.rule _ _).2 hd)] at heval
      rw [heval] at hnotices ⊢
      rw [Option.toList_some] at hnotices
      refine ⟨?_, iff_of_true ⟨_, rfl, rfl⟩ ⟨hopen, h, t, hrun.trans hht, hd, hlt⟩, ?_⟩
      · rw [Tracks, hnotices, hnone]
        exact ⟨by simp [buildAlert], rfl⟩
      · rintro a ⟨⟩
        rfl
    · rw [if_neg (mt (forDuration_le_timeSub x.rule _ _).1 hd)] at heval
      rw [heval] at hnotices ⊢
      rw [Option.toList_none, List.append_nil] at hnotices
      refine ⟨?_, iff_of_false (by simp) ?_, by simp⟩
      · rw [Tracks, hnotices, hrun, hht]
        refine ⟨hopen, rfl, fun y hy => ?_⟩
        rw [← hht] at hy
        rw [← hht, List.dropLast_concat] at hlt
        rcases List.mem_append.1 hy with hy | hy
        · exact hlt y hy
        · rw [List.mem_singleton.1 hy]
          exact not_le.1 hd
      · rintro ⟨-, h', t', hht', hd', -⟩
        rw [hrun, hht] at hht'
        cases hht'
        exact hd hd'

/-- One evaluation: what is sent, and that the state goes on to track. -/
theorem tracks_step (h : Tracks r ys st) (hst : st = RuleState.after ys) (hr : r = x.rule)
    (hz : ∀ y ∈ ys ++ [x], y.now ≠ zeroTime) :
    Tracks r (ys ++ [x]) (st.evaluate x).1
      ∧ ((∃ a, (st.evaluate x).2 = some a ∧ a.resolved = false) ↔ FiresAfter r ys x)
      ∧ ((∃ a, (st.evaluate x).2 = some a ∧ a.resolved = true) ↔ RecoversAfter r ys x) := by
  rcases hb : x.breached with _ | _
  · obtain ⟨htracks, hrecovers, hsent⟩ := tracks_healthy h hst hr hz hb
    refine ⟨htracks, iff_of_false ?_ ?_, hrecovers⟩
    · rintro ⟨a, ha, hres⟩
      rw [hsent a ha] at hres
      cases hres
    · rintro ⟨-, h, t, hht, -⟩
      rw [streak_concat, if_neg (by simp [hb])] at hht
      cases hht
  · obtain ⟨htracks, hfires, hsent⟩ := tracks_breached h hst hr hb
    refine ⟨htracks, hfires, iff_of_false ?_ ?_⟩
    · rintro ⟨a, ha, hres⟩
      rw [hsent a ha] at hres
      cases hres
    · rintro ⟨-, h, t, hht, -⟩
      rw [streak_concat, if_neg (by simp [hb])] at hht
      cases hht

end Steps

theorem tracks_run {r : Rule} {ys : List Evaluation} (hr : ∀ y ∈ ys, r = y.rule)
    (hz : ∀ y ∈ ys, y.now ≠ zeroTime) : Tracks r ys (RuleState.after ys) := by
  induction ys using List.reverseRecOn with
  | nil => exact ⟨not_open_nil, rfl⟩
  | append_singleton ys x ih =>
    rw [after_concat]
    have hmem : ∀ y ∈ ys, y ∈ ys ++ [x] := fun y => List.mem_append_left [x]
    exact (tracks_step (ih (fun y hy => hr y (hmem y hy)) fun y hy => hz y (hmem y hy)) rfl
      (hr x (List.mem_append_right ys (List.mem_singleton_self x))) hz).1

/-! ## Alternation -/

theorem Alternates.isOpen_iff {alerts : List Alert} (h : Alternates alerts) :
    IsOpen alerts ↔ alerts.length % 2 = 1 := by
  induction alerts using List.reverseRecOn with
  | nil => simp [IsOpen]
  | append_singleton alerts a _ =>
    have ha := h alerts.length a (by simp)
    rw [isOpen_concat, ha, List.length_append, List.length_singleton]
    simp only [decide_eq_false_iff_not]
    omega

theorem Alternates.concat {alerts : List Alert} {a : Alert} (h : Alternates alerts)
    (ha : a.resolved = true ↔ IsOpen alerts) : Alternates (alerts ++ [a]) := by
  intro i b hb
  rw [List.getElem?_append] at hb
  split_ifs at hb with hi
  · exact h i b hb
  · obtain ⟨hi', rfl⟩ : i = alerts.length ∧ a = b := by
      rw [List.getElem?_singleton] at hb
      split_ifs at hb with h0
      exact ⟨by omega, Option.some.inj hb⟩
    rw [h.isOpen_iff] at ha
    rw [hi', Bool.eq_iff_iff, decide_eq_true_iff]
    exact ha

/-- An evaluation sends nothing and leaves what was sent last, or fires, or recovers. -/
theorem evaluate_cases (st : RuleState) (x : Evaluation) :
    ((st.evaluate x).2 = none ∧ ((st.evaluate x).1.state = .firing ↔ st.state = .firing)
        ∧ (st.evaluate x).1.lastAlert = st.lastAlert)
      ∨ (∃ a, (st.evaluate x).2 = some a ∧ a.resolved = false ∧ st.state ≠ .firing
        ∧ (st.evaluate x).1.state = .firing ∧ (st.evaluate x).1.lastAlert = some a)
      ∨ ∃ a, (st.evaluate x).2 = some a ∧ a.resolved = true ∧ st.state = .firing
        ∧ (st.evaluate x).1.state ≠ .firing := by
  obtain ⟨state, since, healthy, last⟩ := st
  unfold RuleState.evaluate RuleState.advance
  rcases x.rule.breached x.value with _ | _ <;> cases state <;> dsimp only
  · simp
  · simp
  · split_ifs <;> simp [buildAlert]
  · simp
  · split_ifs <;> simp [buildAlert]
  · simp

/-- What the state knows of the alerts that were sent. -/
structure Knows (alerts : List Alert) (st : RuleState) : Prop where
  alternates : Alternates alerts
  firing : st.state = .firing ↔ IsOpen alerts
  last : st.state = .firing → st.lastAlert = alerts.getLast?

theorem knows_run (ys : List Evaluation) :
    Knows (RuleState.fresh.notices ys) (RuleState.after ys) := by
  induction ys using List.reverseRecOn with
  | nil =>
    refine ⟨fun i a h => by simp [RuleState.notices] at h, ?_, ?_⟩
    · exact iff_of_false (by decide) not_open_nil
    · intro h
      cases h
  | append_singleton ys x ih =>
    rw [after_concat, notices_concat]
    rcases evaluate_cases (RuleState.after ys) x with ⟨ho, hs, hl⟩ | ⟨a, ho, ha, hn, hs, hl⟩
      | ⟨a, ho, ha, hn, hs⟩ <;> rw [ho]
    · rw [Option.toList_none, List.append_nil]
      exact ⟨ih.alternates, hs.trans ih.firing, fun h => hl.trans (ih.last (hs.1 h))⟩
    · rw [Option.toList_some]
      have hnot : ¬ IsOpen (RuleState.fresh.notices ys) := mt ih.firing.2 hn
      refine ⟨ih.alternates.concat (iff_of_false (by simp [ha]) hnot), ?_, ?_⟩
      · exact iff_of_true hs ((isOpen_concat _ _).2 ha)
      · intro _
        rw [hl, List.getLast?_concat]
    · rw [Option.toList_some]
      refine ⟨ih.alternates.concat (iff_of_true ha (ih.firing.1 hn)), ?_, fun h => absurd h hs⟩
      exact iff_of_false hs (by simp [ha])

/-! ## The alerts that fire -/

/-- The alert of a key that is open. -/
def openAlert (xs : List Evaluation) (k : String) : Option Alert :=
  (Evaluator.empty.notices k xs).getLast?.filter fun a => !a.resolved

theorem keys_putState (e : Evaluator) (k : String) (st : RuleState) :
    (e.putState k st).states.map (·.1)
      = if k ∈ e.states.map (·.1) then e.states.map (·.1) else e.states.map (·.1) ++ [k] := by
  have hany : (e.states.any fun g => decide (g.1 = k)) = true ↔ k ∈ e.states.map (·.1) := by
    simp [List.any_eq_true]
  unfold Evaluator.putState
  split_ifs with h h' h'
  · exact Table.map_update (fun g hg => (of_decide_eq_true hg).symm) _
  · exact absurd (hany.1 h) h'
  · exact absurd (hany.2 h') h
  · simp

theorem keys_evaluate (e : Evaluator) (x : Evaluation) :
    (e.evaluate x).1.states.map (·.1) = if x.key ∈ e.states.map (·.1) then e.states.map (·.1)
      else e.states.map (·.1) ++ [x.key] := by
  rw [evaluate_eq]
  rcases (e.stateOf x.key).evaluate x with ⟨st, _ | alert⟩
  · exact keys_putState e x.key st
  · have hrecord : ((e.putState x.key st).record alert).states = (e.putState x.key st).states := by
      rw [Evaluator.record]
    dsimp only
    rw [hrecord, keys_putState e x.key st]

theorem keys_after (xs : List Evaluation) :
    ((Evaluator.after xs).states.map (·.1)).Nodup
      ∧ ∀ k, k ∈ (Evaluator.after xs).states.map (·.1) ↔ k ∈ xs.map (·.key) := by
  induction xs using List.reverseRecOn with
  | nil => exact ⟨List.nodup_nil, fun k => Iff.rfl⟩
  | append_singleton xs x ih =>
    have hafter : Evaluator.after (xs ++ [x]) = ((Evaluator.after xs).evaluate x).1 :=
      Run.run_append
    rw [hafter, keys_evaluate]
    split_ifs with hx
    · refine ⟨ih.1, fun k => ?_⟩
      rw [ih.2, List.map_append, List.mem_append, List.map_singleton, List.mem_singleton]
      exact ⟨.inl, fun h => h.elim id fun hk => hk ▸ (ih.2 _).1 hx⟩
    · refine ⟨List.nodup_append.2 ⟨ih.1, List.nodup_singleton _, ?_⟩, fun k => ?_⟩
      · rintro k hk _ hk' rfl
        exact hx (List.mem_singleton.1 hk' ▸ hk)
      · simp only [List.map_append, List.mem_append, ih.2, List.map_singleton]

theorem Knows.open_alert {alerts : List Alert} {st : RuleState} (h : Knows alerts st) :
    (if st.state = .firing then st.lastAlert else none)
      = alerts.getLast?.filter fun a => !a.resolved := by
  by_cases hf : st.state = .firing
  · obtain ⟨a, ha, hres⟩ := h.firing.1 hf
    rw [if_pos hf, h.last hf, Option.mem_def.1 ha]
    simp [Option.filter, hres]
  · rw [if_neg hf]
    rcases ha : alerts.getLast? with _ | a
    · rfl
    · have hres : a.resolved = true := by
        by_contra hres
        exact hf (h.firing.2 ⟨a, ha, by simpa using hres⟩)
      simp [Option.filter, hres]

/-- `Active` lists the open alert of each key. -/
theorem active_perm (xs : List Evaluation) :
    (Evaluator.after xs).active.Perm ((xs.map (·.key)).dedup.filterMap (openAlert xs)) := by
  obtain ⟨hnodup, hkeys⟩ := keys_after xs
  have hfiring : ((Evaluator.after xs).states.filter (·.2.state = .firing)).filterMap (·.2.lastAlert)
      = ((Evaluator.after xs).states.map (·.1)).filterMap (openAlert xs) := by
    rw [List.filterMap_filter, List.filterMap_map]
    refine List.filterMap_congr fun g hg => ?_
    have hstate : (Evaluator.after xs).stateOf g.1 = g.2 := by
      rw [Evaluator.stateOf, (Table.lookup_eq_some hnodup).2 ⟨hg, rfl⟩]
      rfl
    rw [stateOf_after] at hstate
    have hopen := (knows_run (own g.1 xs)).open_alert
    rw [hstate] at hopen
    rw [Function.comp, openAlert, notices_own, ← hopen]
    simp only [decide_eq_true_eq]
  refine (List.perm_insertionSort _ _).trans ?_
  rw [hfiring]
  refine List.Perm.filterMap _ ((List.perm_ext_iff_of_nodup hnodup (List.nodup_dedup _)).2 ?_)
  intro k
  rw [hkeys, List.mem_dedup]

/-! ## The notifications of a run -/

/-- The evaluations under a key are those of one rule, at times other than the zero time. The rule
fires and recovers as it should, it does so in turn, and `Active` lists the keys whose last alert is
open. -/
theorem notifies_iff (r : Rule) (k : String) (xs : List Evaluation)
    (hr : ∀ y ∈ xs, y.key = k → y.rule = r) (hz : ∀ y ∈ xs, y.key = k → y.now ≠ zeroTime) :
    (∀ ys x zs, xs = ys ++ x :: zs → x.key = k →
        ((∃ a, ((Evaluator.after ys).evaluate x).2 = some a ∧ a.resolved = false)
            ↔ FiresAfter r (own k ys) x)
          ∧ ((∃ a, ((Evaluator.after ys).evaluate x).2 = some a ∧ a.resolved = true)
            ↔ RecoversAfter r (own k ys) x))
      ∧ Alternates (Evaluator.empty.notices k xs)
      ∧ (Evaluator.after xs).active.Perm ((xs.map (·.key)).dedup.filterMap (openAlert xs)) := by
  refine ⟨?_, ?_, active_perm xs⟩
  · rintro ys x zs rfl hk
    have hown : ∀ y ∈ own k ys ++ [x], y ∈ ys ++ x :: zs ∧ y.key = k := by
      intro y hy
      rcases List.mem_append.1 hy with hy | hy
      · obtain ⟨hy, hyk⟩ := List.mem_filter.1 hy
        exact ⟨List.mem_append_left _ hy, by simpa using hyk⟩
      · rw [List.mem_singleton.1 hy]
        exact ⟨by simp, hk⟩
    have hr' : ∀ y ∈ own k ys ++ [x], r = y.rule := fun y hy => (hr y (hown y hy).1 (hown y hy).2).symm
    have hz' : ∀ y ∈ own k ys ++ [x], y.now ≠ zeroTime := fun y hy => hz y (hown y hy).1 (hown y hy).2
    have htracks := tracks_run (fun y hy => hr' y (List.mem_append_left _ hy))
      fun y hy => hz' y (List.mem_append_left _ hy)
    have hstep := tracks_step htracks rfl (hr' x (by simp)) hz'
    have hsent : ((Evaluator.after ys).evaluate x).2
        = ((RuleState.after (own k ys)).evaluate x).2 := by
      rw [(evaluate_spec (Evaluator.after ys) x k).2, hk, stateOf_after]
    rw [hsent]
    exact hstep.2
  · rw [notices_own]
    exact (knows_run (own k xs)).alternates

/-- The processor's load at a time. -/
def loadAt (cpu : ℚ) (now : ℤ) : Evaluation := ⟨highLoad metricCPUPct, sampleMetric, .fin cpu, now⟩

theorem notifies_iff_sample :
    let t := sampleMetric.timestamp
    FiresAfter (highLoad metricCPUPct) [loadAt 95 t] (loadAt 95 (t + minute))
      ∧ ∃ a, ((Evaluator.after [loadAt 95 t]).evaluate (loadAt 95 (t + minute))).2 = some a
        ∧ a.resolved = false := by
  intro t
  have hfires : FiresAfter (highLoad metricCPUPct) [loadAt 95 t] (loadAt 95 (t + minute)) := by
    refine ⟨?_, loadAt 95 t, [], ?_, ?_, by simp⟩
    · have hsent : RuleState.fresh.notices [loadAt 95 t] = [] := by decide +kernel
      rw [hsent]
      exact not_open_nil
    · decide +kernel
    · decide +kernel
  refine ⟨hfires, ((notifies_iff (highLoad metricCPUPct) (loadAt 95 t).key
    [loadAt 95 t, loadAt 95 (t + minute)] ?_ ?_).1 [_] _ [] rfl rfl).1.2 ?_⟩
  · simp [loadAt]
  · simp only [List.mem_cons, List.not_mem_nil, or_false, forall_eq_or_imp, forall_eq]
    decide +kernel
  · exact hfires

/-- The recovery begins at the zero time. It is forgotten, and a minute later it begins again. -/
theorem recovery_at_zero :
    let ys := [loadAt 95 (zeroTime - 2 * minute), loadAt 95 (zeroTime - minute), loadAt 50 zeroTime]
    RecoversAfter (highLoad metricCPUPct) ys (loadAt 50 (zeroTime + minute))
      ∧ ((Evaluator.after ys).evaluate (loadAt 50 (zeroTime + minute))).2 = none := by
  intro ys
  refine ⟨⟨?_, loadAt 50 zeroTime, [loadAt 50 (zeroTime + minute)], ?_, ?_, ?_⟩, ?_⟩
  · have hsent : (RuleState.fresh.notices ys).getLast?.map (·.resolved) = some false := by
      decide +kernel
    obtain ⟨a, ha, hres⟩ := Option.map_eq_some_iff.1 hsent
    exact ⟨a, ha, hres⟩
  · decide +kernel
  · decide +kernel
  · simp only [List.dropLast, List.mem_singleton, forall_eq]
    decide +kernel
  · decide +kernel

end WMonitor
