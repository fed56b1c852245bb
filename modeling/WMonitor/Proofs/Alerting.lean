import WMonitor.Proofs.Latest

/-!
# Rules and servers do not share their alert state

The state of a rule for a server stands under its `alertKey`. A pass touches the state under the key
of a rule and a server only when it takes the sample of that server, and then only through rules of
that name. So a rule whose name no other enabled rule has is evaluated as if it were alone, and two
rules of one name share their state, which shows as soon as one of them can be breached.
-/

namespace WMonitor

/-! ## Keys -/

/-- The text has no NUL, which separates the parts of a key. -/
def NulFree (s : String) : Prop := '\x00' ∉ s.toList

theorem eq_of_cut {a b a' b' : List Char} (ha : '\x00' ∉ a) (ha' : '\x00' ∉ a')
    (h : a ++ '\x00' :: b = a' ++ '\x00' :: b') : a = a' ∧ b = b' := by
  have := cut_append (b := b) ha
  rw [h, cut_append ha'] at this
  simpa [eq_comm] using this

theorem eq_of_cut_last {a b a' b' : List Char} (hb : '\x00' ∉ b) (hb' : '\x00' ∉ b')
    (h : a ++ '\x00' :: b = a' ++ '\x00' :: b') : a = a' ∧ b = b' := by
  have hr := congrArg List.reverse h
  simp only [List.reverse_append, List.reverse_cons, List.append_assoc, List.singleton_append]
    at hr
  obtain ⟨h₁, h₂⟩ := eq_of_cut (by simpa using hb) (by simpa using hb') hr
  exact ⟨List.reverse_injective h₂, List.reverse_injective h₁⟩

theorem toList_alertKey {name tenant server : String} (ht : tenant ≠ "") :
    (alertKey name tenant server).toList
      = tenant.toList ++ '\x00' :: (name.toList ++ '\x00' :: server.toList) := by
  simp [alertKey, ht]

theorem alertKey_inj {name name' tenant tenant' server server' : String} (ht : tenant ≠ "")
    (ht' : tenant' ≠ "") (hn : NulFree tenant) (hn' : NulFree tenant') (hs : NulFree server)
    (hs' : NulFree server')
    (h : alertKey name tenant server = alertKey name' tenant' server') :
    name = name' ∧ tenant = tenant' ∧ server = server' := by
  have h := congrArg String.toList h
  rw [toList_alertKey ht, toList_alertKey ht'] at h
  obtain ⟨h₁, h₂⟩ := eq_of_cut hn hn' h
  obtain ⟨h₂, h₃⟩ := eq_of_cut_last hs hs' h₂
  exact ⟨String.toList_inj.1 h₂, String.toList_inj.1 h₁, String.toList_inj.1 h₃⟩

theorem alertKey_name {name name' tenant server : String}
    (h : alertKey name tenant server = alertKey name' tenant server) : name = name' := by
  have h := congrArg String.toList h
  simp only [alertKey, String.toList_append] at h
  exact String.toList_inj.1 (List.append_cancel_left (List.append_cancel_right
    (List.append_cancel_right h)))

theorem latestKey_inj {m m' : MetricRow} (hn : NulFree m.tenantID) (hn' : NulFree m'.tenantID)
    (h : m.latestKey = m'.latestKey) : m.tenantID = m'.tenantID ∧ m.serverID = m'.serverID := by
  have h := congrArg String.toList h
  simp only [MetricRow.latestKey, String.toList_append] at h
  obtain ⟨h₁, h₂⟩ := eq_of_cut hn hn' (by simpa using h)
  exact ⟨String.toList_inj.1 h₁, String.toList_inj.1 h₂⟩

/-! ## The states of an evaluator -/

variable (A : Arith)

/-- What a rule does to its state on a sample: nothing when it is off or has no value there. -/
def RuleState.tryRow (st : RuleState) (rule : Rule) (row : MetricRow) (now : ℤ) :
    RuleState × Option Alert :=
  if !rule.isEnabled then (st, none)
  else match extractMetric A rule.metric row now with
    | none => (st, none)
    | some value => st.advance rule row value now

theorem RuleState.tryRow_disabled {st : RuleState} {rule : Rule} (h : rule.isEnabled = false)
    (row : MetricRow) (now : ℤ) : st.tryRow A rule row now = (st, none) := by
  simp [RuleState.tryRow, h]

namespace Evaluator

variable {A} {e : Evaluator} {k : String} {rule : Rule} {row : MetricRow} {now : ℤ}
  {rules a b : List Rule}

theorem stateOf_putState (e : Evaluator) (k k' : String) (st : RuleState) :
    (e.putState k st).stateOf k' = if k' = k then st else e.stateOf k' := by
  unfold putState stateOf
  split_ifs with hany hk hk
  · subst hk
    rw [Table.lookup_update fun g hg => (of_decide_eq_true hg).symm]
    rcases hl : Table.lookup (fun x : String × RuleState => x.1) k' e.states with _ | g
    · obtain ⟨g, hg, hgk⟩ := List.any_eq_true.1 hany
      exact absurd (of_decide_eq_true hgk) (Table.lookup_eq_none.1 hl g hg)
    · have hg : g.1 = k' := (Table.lookup_mem hl).2
      simp [hg]
  · rw [Table.lookup_update fun g hg => (of_decide_eq_true hg).symm]
    rcases hl : Table.lookup (fun x : String × RuleState => x.1) k' e.states with _ | g
    · rfl
    · have hg : g.1 = k' := (Table.lookup_mem hl).2
      have hne : ¬ g.1 = k := fun h => hk (hg.symm.trans h)
      simp [hne]
  · subst hk
    have hl : Table.lookup (fun x : String × RuleState => x.1) k' e.states = none := by
      rw [Table.lookup_eq_none]
      intro g hg hgk
      exact hany (List.any_eq_true.2 ⟨g, hg, by simpa using hgk⟩)
    rw [Table.lookup_append, hl]
    simp
  · rw [Table.lookup_append, if_neg (Ne.symm hk), Option.or_none]

theorem stateOf_record (e : Evaluator) (alert : Alert) (k : String) :
    (e.record alert).stateOf k = e.stateOf k := by
  simp only [record, stateOf]

/-- A rule reads and changes only the state under its key for the sample. -/
theorem tryRule_spec (e : Evaluator) (rule : Rule) (row : MetricRow) (now : ℤ) (k : String) :
    (e.tryRule A rule row now).1.stateOf k
        = (if k = alertKey rule.name row.tenantID row.serverID then
            ((e.stateOf k).tryRow A rule row now).1 else e.stateOf k)
      ∧ (e.tryRule A rule row now).2
        = ((e.stateOf (alertKey rule.name row.tenantID row.serverID)).tryRow A rule row now).2 := by
  unfold tryRule RuleState.tryRow
  rcases rule.isEnabled with _ | _
  · simp
  rcases extractMetric A rule.metric row now with _ | value
  · simp
  simp only [Bool.not_true, Bool.false_eq_true, if_false, evaluateRule]
  generalize alertKey rule.name row.tenantID row.serverID = key
  rcases hadv : (e.stateOf key).advance rule row value now with ⟨st, _ | alert⟩ <;>
    simp only [stateOf_record, stateOf_putState, and_true] <;>
    split_ifs with hk
  · rw [hk, hadv]
  · rfl
  · rw [hk, hadv]
  · rfl

theorem evaluateRow_append (row : MetricRow) (now : ℤ) (a b : List Rule) (e : Evaluator) :
    e.evaluateRow A row now (a ++ b)
      = (((e.evaluateRow A row now a).1.evaluateRow A row now b).1,
        (e.evaluateRow A row now a).2 ++ ((e.evaluateRow A row now a).1.evaluateRow A row now b).2) := by
  induction a generalizing e with
  | nil => rfl
  | cons r a ih => simp only [List.cons_append, evaluateRow, ih]

theorem length_evaluateRow (row : MetricRow) (now : ℤ) (rules : List Rule) (e : Evaluator) :
    (e.evaluateRow A row now rules).2.length = rules.length := by
  induction rules generalizing e with
  | nil => rfl
  | cons r rules ih => simp only [evaluateRow, List.length_cons, ih]

/-- What the rule in the middle sends for a sample. -/
theorem evaluateRow_sent (row : MetricRow) (now : ℤ) (a b : List Rule) (rule : Rule)
    (e : Evaluator) :
    (e.evaluateRow A row now (a ++ rule :: b)).2[a.length]?.join
      = ((e.evaluateRow A row now a).1.tryRule A rule row now).2 := by
  rw [evaluateRow_append, List.getElem?_append_right (by rw [length_evaluateRow]),
    length_evaluateRow]
  simp [evaluateRow]

/-- What each rule under a key keeps of its state, given what it sends, holds after the sample. -/
theorem evaluateRow_keeps {P : RuleState → Prop} (hP : P (e.stateOf k))
    (h : ∀ (j : ℕ) (q : Rule), rules[j]? = some q →
      k = alertKey q.name row.tenantID row.serverID → ∀ st, P st →
      (e.evaluateRow A row now rules).2[j]?.join = (st.tryRow A q row now).2 →
      P (st.tryRow A q row now).1) :
    P ((e.evaluateRow A row now rules).1.stateOf k) := by
  induction rules generalizing e with
  | nil => exact hP
  | cons q rules ih =>
    obtain ⟨hstate, hsent⟩ := tryRule_spec (A := A) e q row now k
    refine ih (e := (e.tryRule A q row now).1) ?_ fun j q' hq' => h (j + 1) q' hq'
    rw [hstate]
    split_ifs with hk
    · refine h 0 q rfl hk _ hP ?_
      rw [hk, ← hsent]
      rfl
    · exact hP

/-- Rules that leave the state under a key as it is do so one after another. -/
theorem evaluateRow_still {st : RuleState} (hst : e.stateOf k = st)
    (h : ∀ q ∈ rules, k = alertKey q.name row.tenantID row.serverID →
      (st.tryRow A q row now).1 = st) :
    (e.evaluateRow A row now rules).1.stateOf k = st := by
  refine evaluateRow_keeps (P := (· = st)) hst ?_
  rintro j q hq hk _ rfl -
  exact h q (List.mem_of_getElem? hq) hk

/-- The state of a rule after a sample, and what the rule sends for it, when the other rules leave
that state as it is. -/
theorem evaluateRow_spec {r : Rule} {st : RuleState}
    (hst : e.stateOf (alertKey r.name row.tenantID row.serverID) = st)
    (ha : ∀ q ∈ a, q.name = r.name → (st.tryRow A q row now).1 = st)
    (hb : ∀ q ∈ b, q.name = r.name →
      ((st.tryRow A r row now).1.tryRow A q row now).1 = (st.tryRow A r row now).1) :
    (e.evaluateRow A row now (a ++ r :: b)).1.stateOf (alertKey r.name row.tenantID row.serverID)
        = (st.tryRow A r row now).1
      ∧ (e.evaluateRow A row now (a ++ r :: b)).2[a.length]?.join
        = (st.tryRow A r row now).2 := by
  have hname : ∀ q : Rule, alertKey r.name row.tenantID row.serverID
      = alertKey q.name row.tenantID row.serverID → q.name = r.name :=
    fun q h => (alertKey_name h).symm
  have hbefore : (e.evaluateRow A row now a).1.stateOf
      (alertKey r.name row.tenantID row.serverID) = st :=
    evaluateRow_still hst fun q hq hk => ha q hq (hname q hk)
  have hrule := tryRule_spec (A := A) (e.evaluateRow A row now a).1 r row now
    (alertKey r.name row.tenantID row.serverID)
  rw [if_pos rfl, hbefore] at hrule
  constructor
  · rw [evaluateRow_append]
    simp only [evaluateRow]
    exact evaluateRow_still hrule.1 fun q hq hk => hb q hq (hname q hk)
  · rw [evaluateRow_sent]
    exact hrule.2

theorem evaluateRows_append (now : ℤ) (l l' : List MetricRow) (e : Evaluator) :
    e.evaluateRows A rules now (l ++ l')
      = (((e.evaluateRows A rules now l).1.evaluateRows A rules now l').1,
        (e.evaluateRows A rules now l).2
          ++ ((e.evaluateRows A rules now l).1.evaluateRows A rules now l').2) := by
  induction l generalizing e with
  | nil => rfl
  | cons m l ih => simp only [List.cons_append, evaluateRows, ih]

/-- Samples under other keys leave the state under a key as it is. -/
theorem evaluateRows_still {rows : List MetricRow}
    (h : ∀ m ∈ rows, ∀ q ∈ rules, k ≠ alertKey q.name m.tenantID m.serverID) :
    (e.evaluateRows A rules now rows).1.stateOf k = e.stateOf k := by
  induction rows generalizing e with
  | nil => rfl
  | cons m rows ih =>
    simp only [evaluateRows]
    rw [ih fun m' hm' => h m' (List.mem_cons_of_mem m hm')]
    exact evaluateRow_still rfl fun q hq hk => absurd hk (h m List.mem_cons_self q hq)

theorem map_evaluateRows (rules : List Rule) (now : ℤ) (rows : List MetricRow) (e : Evaluator) :
    (e.evaluateRows A rules now rows).2.map (·.1) = rows := by
  induction rows generalizing e with
  | nil => rfl
  | cons m rows ih => simp only [evaluateRows, List.map_cons, ih]

end Evaluator

/-! ## Passes -/

/-- The time, the store and the order of a pass. -/
structure EvalPass where
  now : ℤ
  db : HubDB
  visit : Visit

namespace EvalPass

/-- The samples of the pass in their order. -/
def rows (p : EvalPass) : List MetricRow := p.visit.order (evaluatedRows p.now p.db)

/-- The pass over the rows of one tenant and server. -/
def only (tenant server : String) (p : EvalPass) : EvalPass :=
  { p with
    db := { p.db with
      metrics := p.db.metrics.filter
        fun r => r.row.tenantID = tenant ∧ r.row.serverID = server } }

/-- The keys of the rows can be told apart, and the pass reads its whole window. -/
structure Plain (p : EvalPass) : Prop where
  tenants : ∀ r ∈ p.db.metrics, r.row.tenantID ≠ "" ∧ NulFree r.row.tenantID
  servers : ∀ r ∈ p.db.metrics, NulFree r.row.serverID
  fits : p.db.metrics.countP (recent p.now) ≤ defaultQueryLimit

/-- The newest row of the tenant and server that the pass reads. -/
def sample (tenant server : String) (p : EvalPass) : Option MetricRow :=
  newest (·.timestamp) (((p.db.recentRows p.now).map scanMetric).filter
    fun m => m.tenantID = tenant ∧ m.serverID = server)

variable {p : EvalPass} {tenant server : String} {m : MetricRow}

theorem recentRows_sub {now : ℤ} {db : HubDB} {x : Stored MetricRecord}
    (h : x ∈ db.recentRows now) : x ∈ db.metrics ∧ recent now x = true := by
  have := Columns.mem_ordered.1 (List.mem_of_mem_take h)
  rwa [recent_eq_meets] at this

theorem of_mem_rows (h : m ∈ p.rows) : ∃ x ∈ p.db.recentRows p.now, scanMetric x = m := by
  have hm := (p.visit.perm _).mem_iff.1 h
  rw [evaluatedRows_eq, mem_latestRows] at hm
  exact List.mem_map.1 (newestUnder_key hm).1

theorem mem_rows (hp : p.Plain) :
    m ∈ p.rows ↔ p.sample m.tenantID m.serverID = some m := by
  have hkeys : ∀ m' ∈ (p.db.recentRows p.now).map scanMetric, NulFree m'.tenantID := by
    intro m' hm'
    obtain ⟨x, hx, rfl⟩ := List.mem_map.1 hm'
    exact (hp.tenants x (recentRows_sub hx).1).2
  have hsame : m ∈ (p.db.recentRows p.now).map scanMetric →
      newestUnder m.latestKey ((p.db.recentRows p.now).map scanMetric)
        = p.sample m.tenantID m.serverID := by
    intro hm
    unfold newestUnder sample
    congr 1
    refine List.filter_congr fun m' hm' => decide_eq_decide.2 ?_
    constructor
    · exact latestKey_inj (hkeys m' hm') (hkeys m hm)
    · rintro ⟨h₁, h₂⟩
      simp [MetricRow.latestKey, h₁, h₂]
  rw [rows, (p.visit.perm _).mem_iff, evaluatedRows_eq, mem_latestRows]
  constructor
  · intro h
    rw [← hsame (newestUnder_key h).1]
    exact h
  · intro h
    rw [hsame (List.mem_of_mem_filter (mem_newest h))]
    exact h

theorem of_sample (h : p.sample tenant server = some m) :
    ∃ x ∈ p.db.recentRows p.now, scanMetric x = m :=
  List.mem_map.1 (List.mem_of_mem_filter (mem_newest h))

theorem sample_pair (h : p.sample tenant server = some m) :
    m.tenantID = tenant ∧ m.serverID = server := by
  simpa using List.of_mem_filter (mem_newest h)

/-- At most one of the samples is of the tenant and server: the newest row of it. -/
theorem rows_split (hp : p.Plain) (tenant server : String) :
    (p.sample tenant server = none ∧ ∀ m ∈ p.rows, ¬ (m.tenantID = tenant ∧ m.serverID = server))
    ∨ ∃ m l l', p.sample tenant server = some m ∧ p.rows = l ++ m :: l'
      ∧ ∀ m' ∈ l ++ l', ¬ (m'.tenantID = tenant ∧ m'.serverID = server) := by
  rcases hs : p.sample tenant server with _ | m
  · refine .inl ⟨rfl, fun m hm ⟨ht, hsv⟩ => ?_⟩
    have := (mem_rows hp).1 hm
    rw [ht, hsv, hs] at this
    cases this
  · obtain ⟨rfl, rfl⟩ := sample_pair hs
    obtain ⟨l, l', hl⟩ := List.append_of_mem ((mem_rows hp).2 hs)
    have hnodup : p.rows.Nodup := (p.visit.perm _).nodup_iff.2 (nodup_latest _)
    have hout : m ∉ l ++ l' := by
      rw [hl] at hnodup
      exact (List.nodup_cons.1 (List.perm_middle.nodup_iff.1 hnodup)).1
    refine .inr ⟨m, l, l', rfl, hl, fun m' hm' ⟨ht, hsv⟩ => ?_⟩
    have hmem : m' ∈ p.rows := by
      rw [hl]
      rcases List.mem_append.1 hm' with h | h
      · exact List.mem_append_left _ h
      · exact List.mem_append_right _ (List.mem_cons_of_mem m h)
    have := (mem_rows hp).1 hmem
    rw [ht, hsv, hs] at this
    cases this
    exact hout hm'

theorem recentRows_of_fits {now : ℤ} {db : HubDB}
    (h : db.metrics.countP (recent now) ≤ defaultQueryLimit) :
    db.recentRows now = (db.metrics.filter (recent now)).insertionSort metricColumns.Before := by
  unfold HubDB.recentRows Columns.select
  rw [List.take_of_length_le]
  · rw [Columns.ordered, recent_eq_meets]
  · rw [Columns.ordered, List.length_insertionSort, recent_eq_meets,
      ← List.countP_eq_length_filter]
    exact h

theorem Plain.only (hp : p.Plain) (tenant server : String) : (p.only tenant server).Plain where
  tenants r hr := hp.tenants r (List.mem_of_mem_filter hr)
  servers r hr := hp.servers r (List.mem_of_mem_filter hr)
  fits := le_trans (List.Sublist.countP_le List.filter_sublist) hp.fits

/-- With the rows of the others gone, the pass still has its sample of the tenant and server. -/
theorem sample_only (hp : p.Plain) (tenant server : String) :
    (p.only tenant server).sample tenant server = p.sample tenant server := by
  unfold sample
  rw [recentRows_of_fits hp.fits, recentRows_of_fits (hp.only tenant server).fits,
    List.filter_map, List.filter_map, filter_insertionSort, filter_insertionSort]
  congr 3
  simp only [only, List.filter_filter]
  refine List.filter_congr fun r _ => ?_
  simp only [Function.comp, scanMetric]
  by_cases h : r.row.tenantID = tenant ∧ r.row.serverID = server
  · simp [h]
  · simp [h]

end EvalPass

/-! ## A rule among others -/

/-- What the passes send for each of their samples. -/
def Evaluator.sends (rules : List Rule) :
    Evaluator → List EvalPass → List (MetricRow × List (Option Alert))
  | _, [] => []
  | e, p :: ps =>
    let (e, out) := e.evaluateOnce A rules p.now p.db p.visit
    out ++ sends rules e ps

/-- The notifications of the `i`-th rule for the tenant and server. -/
def sentFor (i : ℕ) (tenant server : String) (out : List (MetricRow × List (Option Alert))) :
    List Alert :=
  out.filterMap fun o =>
    if o.1.tenantID = tenant ∧ o.1.serverID = server then o.2[i]?.join else none

theorem sentFor_append (i : ℕ) (tenant server : String)
    (l l' : List (MetricRow × List (Option Alert))) :
    sentFor i tenant server (l ++ l') = sentFor i tenant server l ++ sentFor i tenant server l' :=
  List.filterMap_append

theorem sentFor_nil {i : ℕ} {tenant server : String}
    {out : List (MetricRow × List (Option Alert))}
    (h : ∀ o ∈ out, ¬ (o.1.tenantID = tenant ∧ o.1.serverID = server)) :
    sentFor i tenant server out = [] := by
  rw [sentFor, List.filterMap_eq_nil_iff]
  exact fun o ho => if_neg (h o ho)

/-- What a rule does to its state on the sample of a pass, if there is one. -/
def RuleState.trySample (st : RuleState) (rule : Rule) (now : ℤ) :
    Option MetricRow → RuleState × Option Alert
  | none => (st, none)
  | some m => st.tryRow A rule m now

variable {A}

theorem sentFor_evaluateRows_nil {rules : List Rule} {now : ℤ} {rows : List MetricRow}
    {tenant server : String} (i : ℕ) (e : Evaluator)
    (h : ∀ m ∈ rows, ¬ (m.tenantID = tenant ∧ m.serverID = server)) :
    sentFor i tenant server (e.evaluateRows A rules now rows).2 = [] := by
  refine sentFor_nil fun o ho => h o.1 ?_
  rw [← Evaluator.map_evaluateRows (A := A) rules now rows e]
  exact List.mem_map_of_mem ho

/-- The state of a rule for a server after a pass, and what the rule sends for it, when the other
rules leave that state as it is on the sample. -/
theorem evaluateOnce_spec {a b : List Rule} {r : Rule} {p : EvalPass} {e : Evaluator}
    {tenant server : String} (hp : p.Plain) (ht : tenant ≠ "") (hnt : NulFree tenant)
    (hns : NulFree server) {st : RuleState} (hst : e.stateOf (alertKey r.name tenant server) = st)
    (ha : ∀ m, p.sample tenant server = some m → ∀ q ∈ a, q.name = r.name →
      (st.tryRow A q m p.now).1 = st)
    (hb : ∀ m, p.sample tenant server = some m → ∀ q ∈ b, q.name = r.name →
      ((st.tryRow A r m p.now).1.tryRow A q m p.now).1 = (st.tryRow A r m p.now).1) :
    (e.evaluateOnce A (a ++ r :: b) p.now p.db p.visit).1.stateOf (alertKey r.name tenant server)
        = (st.trySample A r p.now (p.sample tenant server)).1
      ∧ sentFor a.length tenant server (e.evaluateOnce A (a ++ r :: b) p.now p.db p.visit).2
        = (st.trySample A r p.now (p.sample tenant server)).2.toList := by
  have haway : ∀ m ∈ p.rows, ¬ (m.tenantID = tenant ∧ m.serverID = server) →
      ∀ q : Rule, alertKey r.name tenant server ≠ alertKey q.name m.tenantID m.serverID := by
    intro m hm hne q hk
    obtain ⟨x, hx, rfl⟩ := EvalPass.of_mem_rows hm
    have hx := (EvalPass.recentRows_sub hx).1
    obtain ⟨-, h₁, h₂⟩ := alertKey_inj ht (hp.tenants x hx).1 hnt (hp.tenants x hx).2 hns
      (hp.servers x hx) hk
    exact hne ⟨h₁.symm, h₂.symm⟩
  change (e.evaluateRows A (a ++ r :: b) p.now p.rows).1.stateOf _ = _
    ∧ sentFor _ _ _ (e.evaluateRows A (a ++ r :: b) p.now p.rows).2 = _
  rcases EvalPass.rows_split hp tenant server with ⟨hs, hnone⟩ | ⟨m, l, l', hs, hrows, hrest⟩
  · rw [hs, Evaluator.evaluateRows_still fun m hm q _ => haway m hm (hnone m hm) q, hst]
    exact ⟨rfl, sentFor_evaluateRows_nil _ _ hnone⟩
  · obtain ⟨htm, hsm⟩ := EvalPass.sample_pair hs
    have hsub : ∀ m' ∈ l ++ l', m' ∈ p.rows := by
      intro m' hm'
      rw [hrows]
      exact List.perm_middle.mem_iff.2 (List.mem_cons_of_mem m hm')
    have hstill : ∀ m' ∈ l ++ l', ∀ q ∈ a ++ r :: b,
        alertKey r.name tenant server ≠ alertKey q.name m'.tenantID m'.serverID :=
      fun m' hm' q _ => haway m' (hsub m' hm') (hrest m' hm') q
    have hbefore : (e.evaluateRows A (a ++ r :: b) p.now l).1.stateOf
        (alertKey r.name m.tenantID m.serverID) = st := by
      rw [htm, hsm, Evaluator.evaluateRows_still fun m' hm' =>
        hstill m' (List.mem_append_left _ hm'), hst]
    obtain ⟨hrow₁, hrow₂⟩ := Evaluator.evaluateRow_spec hbefore (ha m hs) (hb m hs)
    rw [htm, hsm] at hrow₁
    rw [hs, hrows, Evaluator.evaluateRows_append]
    constructor
    · simp only [Evaluator.evaluateRows]
      rw [Evaluator.evaluateRows_still fun m' hm' => hstill m' (List.mem_append_right _ hm')]
      exact hrow₁
    · rw [sentFor_append, sentFor_evaluateRows_nil _ _ fun m' hm' =>
        hrest m' (List.mem_append_left _ hm'), List.nil_append]
      simp only [Evaluator.evaluateRows]
      rw [← List.singleton_append, sentFor_append, sentFor_evaluateRows_nil _ _ fun m' hm' =>
        hrest m' (List.mem_append_right _ hm'), List.append_nil, sentFor, List.filterMap_cons,
        if_pos ⟨htm, hsm⟩, hrow₂]
      rcases h : (st.tryRow A r m p.now).2 with _ | alert <;> simp [RuleState.trySample, h]

/-! ## Rules of one name -/

variable (A) in
/-- Some row in the lookback window of some pass breaches the rule. -/
def Rule.Breachable (rule : Rule) : Prop :=
  ∃ (x : Stored MetricRecord) (now : ℤ) (value : F64), recent now x = true
    ∧ extractMetric A rule.metric (scanMetric x) now = some value ∧ rule.breached value = true

variable (A) in
/-- No two enabled rules have one name, unless neither can be breached. -/
def Unshared (rules : List Rule) : Prop :=
  ∀ (i j : ℕ) (r q : Rule), i ≠ j → rules[i]? = some r → rules[j]? = some q → r.isEnabled = true →
    q.isEnabled = true → r.name = q.name → ¬ r.Breachable A

theorem tryRow_fresh {rule : Rule} {x : Stored MetricRecord} {now : ℤ}
    (hx : recent now x = true) (h : rule.isEnabled = true → ¬ rule.Breachable A) :
    RuleState.fresh.tryRow A rule (scanMetric x) now = (.fresh, none) := by
  unfold RuleState.tryRow
  split_ifs with hoff
  · rfl
  rcases he : extractMetric A rule.metric (scanMetric x) now with _ | value
  · rfl
  have hb : rule.breached value = false := by
    by_contra hb
    exact h (by simpa using hoff) ⟨x, now, value, hx, he, by simpa using hb⟩
  simp [RuleState.advance, RuleState.fresh, hb]

section Alone

variable {a b : List Rule} {r : Rule} {tenant server : String} {passes : List EvalPass}

/-- A rule with a name of its own, or one that like its namesakes cannot be breached, sends for a
server what it sends alone. -/
theorem sentFor_alone (hp : ∀ p ∈ passes, p.Plain) (ht : tenant ≠ "") (hnt : NulFree tenant)
    (hns : NulFree server) {st : RuleState} {e e' : Evaluator}
    (hst : e.stateOf (alertKey r.name tenant server) = st)
    (hst' : e'.stateOf (alertKey r.name tenant server) = st)
    (h : (∀ q ∈ a ++ b, q.isEnabled = true → q.name ≠ r.name)
      ∨ st = .fresh ∧ ∀ q ∈ a ++ r :: b, q.isEnabled = true → q.name = r.name →
        ¬ q.Breachable A) :
    sentFor a.length tenant server (e.sends A (a ++ r :: b) passes)
      = sentFor 0 tenant server (e'.sends A [r] (passes.map (·.only tenant server))) := by
  induction passes generalizing e e' st with
  | nil => rfl
  | cons p ps ih =>
    have hpp := hp p List.mem_cons_self
    have hdormant : st = .fresh → (∀ q ∈ a ++ r :: b, q.isEnabled = true → q.name = r.name →
        ¬ q.Breachable A) → ∀ m, p.sample tenant server = some m → ∀ q ∈ a ++ r :: b,
        q.name = r.name → (st.tryRow A q m p.now).1 = .fresh := by
      rintro rfl hq m hm q hmem hname
      obtain ⟨x, hx, rfl⟩ := EvalPass.of_sample hm
      rw [tryRow_fresh (EvalPass.recentRows_sub hx).2 fun hon => hq q hmem hon hname]
    have hcalm : ∀ m, p.sample tenant server = some m → ∀ q ∈ a ++ b, q.name = r.name →
        (st.tryRow A q m p.now).1 = st
          ∧ ((st.tryRow A r m p.now).1.tryRow A q m p.now).1 = (st.tryRow A r m p.now).1 := by
      intro m hm q hq hname
      rcases h with h | ⟨rfl, h⟩
      · have hoff : q.isEnabled = false := by
          by_contra hon
          exact h q hq (by simpa using hon) hname
        rw [RuleState.tryRow_disabled A hoff, RuleState.tryRow_disabled A hoff]
        exact ⟨rfl, rfl⟩
      · have hr := hdormant rfl h m hm r (by simp) rfl
        have hq := hdormant rfl h m hm q (List.perm_middle.mem_iff.2 (List.mem_cons_of_mem r hq)) hname
        rw [hr]
        exact ⟨hq, hq⟩
    have hnext : (∀ q ∈ a ++ b, q.isEnabled = true → q.name ≠ r.name)
        ∨ (st.trySample A r p.now (p.sample tenant server)).1 = .fresh
          ∧ ∀ q ∈ a ++ r :: b, q.isEnabled = true → q.name = r.name → ¬ q.Breachable A := by
      refine h.imp id fun ⟨hfresh, h⟩ => ⟨?_, h⟩
      rcases hs : p.sample tenant server with _ | m
      · exact hfresh
      · exact hdormant hfresh h m hs r (by simp) rfl
    have hfull := evaluateOnce_spec (A := A) (a := a) (b := b) hpp ht hnt hns hst
      (fun m hm q hq hn => (hcalm m hm q (List.mem_append_left _ hq) hn).1)
      (fun m hm q hq hn => (hcalm m hm q (List.mem_append_right _ hq) hn).2)
    have halone := evaluateOnce_spec (A := A) (a := []) (b := []) (hpp.only tenant server) ht hnt
      hns hst' (by simp) (by simp)
    rw [EvalPass.sample_only hpp] at halone
    simp only [Evaluator.sends, List.map_cons, sentFor_append]
    rw [hfull.2, ih (fun p' hp' => hp p' (List.mem_cons_of_mem p hp')) hfull.1 halone.1 hnext]
    congr 1
    exact halone.2.symm

/-- A rule sends nothing for a server if it sends nothing for any of its samples. -/
theorem sentFor_sends_nil {rules : List Rule} {i : ℕ} {e : Evaluator}
    (h : ∀ p ∈ passes, ∀ m ∈ p.rows, m.tenantID = tenant ∧ m.serverID = server →
      ∀ e : Evaluator, (e.evaluateRow A m p.now rules).2[i]?.join = none) :
    sentFor i tenant server (e.sends A rules passes) = [] := by
  have hrows : ∀ (now : ℤ) (rows : List MetricRow) (e : Evaluator),
      (∀ m ∈ rows, m.tenantID = tenant ∧ m.serverID = server →
        ∀ e : Evaluator, (e.evaluateRow A m now rules).2[i]?.join = none) →
      sentFor i tenant server (e.evaluateRows A rules now rows).2 = [] := by
    intro now rows
    induction rows with
    | nil => exact fun e _ => rfl
    | cons m rows ih =>
      intro e hm
      simp only [Evaluator.evaluateRows]
      rw [← List.singleton_append, sentFor_append,
        ih _ fun m' hm' => hm m' (List.mem_cons_of_mem m hm'), List.append_nil, sentFor,
        List.filterMap_eq_nil_iff]
      rintro o ho
      obtain rfl := List.mem_singleton.1 ho
      split_ifs with hpair
      · exact hm m List.mem_cons_self hpair e
      · rfl
  induction passes generalizing e with
  | nil => rfl
  | cons p ps ih =>
    simp only [Evaluator.sends, sentFor_append]
    rw [ih fun p' hp' => h p' (List.mem_cons_of_mem p hp'), List.append_nil]
    exact hrows p.now p.rows e (h p List.mem_cons_self)

theorem sentFor_disabled (hr : r.isEnabled = false) (e : Evaluator) :
    sentFor a.length tenant server (e.sends A (a ++ r :: b) passes) = [] := by
  refine sentFor_sends_nil fun p _ m _ _ e => ?_
  rw [Evaluator.evaluateRow_sent, (Evaluator.tryRule_spec _ r m p.now "").2,
    RuleState.tryRow_disabled A hr]

theorem sentFor_unknown {rules : List Rule} {i : ℕ} {e : Evaluator} (hp : ∀ p ∈ passes, p.Plain)
    (h : ¬ (NulFree tenant ∧ NulFree server)) :
    sentFor i tenant server (e.sends A rules passes) = [] := by
  refine sentFor_sends_nil fun p hpm m hm hpair => absurd ?_ h
  obtain ⟨x, hx, rfl⟩ := EvalPass.of_mem_rows hm
  have hx := (EvalPass.recentRows_sub hx).1
  obtain ⟨rfl, rfl⟩ := hpair
  exact ⟨((hp p hpm).tenants x hx).2, (hp p hpm).servers x hx⟩

end Alone

variable (A) in
/-- Each rule sends for each server what it sends as the only rule over the rows of that server. -/
def Isolated (rules : List Rule) (passes : List EvalPass) : Prop :=
  ∀ (i : ℕ) (r : Rule) (tenant server : String), rules[i]? = some r → tenant ≠ "" →
    sentFor i tenant server (Evaluator.empty.sends A rules passes)
      = sentFor 0 tenant server (Evaluator.empty.sends A [r] (passes.map (·.only tenant server)))

theorem exists_split {rules : List Rule} {i : ℕ} {r : Rule} (h : rules[i]? = some r) :
    ∃ a b, rules = a ++ r :: b ∧ a.length = i := by
  obtain ⟨hi, rfl⟩ := List.getElem?_eq_some_iff.1 h
  exact ⟨rules.take i, rules.drop (i + 1), by simp, by simp; omega⟩

theorem exists_position {a b : List Rule} {r q : Rule} (h : q ∈ a ++ b) :
    ∃ j, j ≠ a.length ∧ (a ++ r :: b)[j]? = some q := by
  rcases List.mem_append.1 h with h | h
  · obtain ⟨j, hj⟩ := List.mem_iff_getElem?.1 h
    have hlt := (List.getElem?_eq_some_iff.1 hj).1
    exact ⟨j, by omega, by rw [List.getElem?_append_left hlt, hj]⟩
  · obtain ⟨j, hj⟩ := List.mem_iff_getElem?.1 h
    refine ⟨a.length + (j + 1), by omega, ?_⟩
    rw [List.getElem?_append_right (by omega), Nat.add_sub_cancel_left, List.getElem?_cons_succ, hj]

theorem mem_of_position {a b : List Rule} {r q : Rule} {j : ℕ} (hj : j ≠ a.length)
    (h : (a ++ r :: b)[j]? = some q) : q ∈ a ++ b := by
  rcases Nat.lt_or_gt_of_ne hj with hlt | hgt
  · rw [List.getElem?_append_left hlt] at h
    exact List.mem_append_left _ (List.mem_of_getElem? h)
  · rw [List.getElem?_append_right (by omega), show j - a.length = (j - a.length - 1) + 1 by omega,
      List.getElem?_cons_succ] at h
    exact List.mem_append_right _ (List.mem_of_getElem? h)

theorem isolated_of_unshared {rules : List Rule} {passes : List EvalPass}
    (h : Unshared A rules) (hp : ∀ p ∈ passes, p.Plain) : Isolated A rules passes := by
  intro i r tenant server hi ht
  obtain ⟨a, b, rfl, rfl⟩ := exists_split hi
  have hponly : ∀ p ∈ passes.map (·.only tenant server), p.Plain := by
    intro p' hp'
    obtain ⟨p, hpm, rfl⟩ := List.mem_map.1 hp'
    exact (hp p hpm).only tenant server
  by_cases hnul : NulFree tenant ∧ NulFree server
  swap
  · rw [sentFor_unknown hp hnul, sentFor_unknown hponly hnul]
  rcases hon : r.isEnabled with _ | _
  · rw [sentFor_disabled hon]
    exact (sentFor_disabled (a := []) hon _).symm
  refine sentFor_alone hp ht hnul.1 hnul.2 rfl rfl ?_
  by_cases hshare : ∃ q ∈ a ++ b, q.isEnabled = true ∧ q.name = r.name
  · obtain ⟨q, hq, hqon, hqname⟩ := hshare
    obtain ⟨j, hj, hjq⟩ := exists_position (r := r) hq
    refine .inr ⟨rfl, fun q' hq' hon' hname' => ?_⟩
    rcases List.mem_cons.1 (List.perm_middle.mem_iff.1 hq') with rfl | hq'
    · exact h _ j q' q hj.symm hi hjq hon hqon hqname.symm
    · obtain ⟨j', hj', hjq'⟩ := exists_position (r := r) hq'
      exact h j' _ q' r hj' hjq' hi hon' hon hname'
  · refine .inl fun q hq hqon hqname => hshare ⟨q, hq, hqon, hqname⟩

end WMonitor
