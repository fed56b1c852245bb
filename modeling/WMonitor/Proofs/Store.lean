import WMonitor.Proofs.Ingest
import WMonitor.Store

/-!
# The order of a read

A read sorts the rows it selects by time and id and keeps the first ones. Under the primary key no
two rows stand in the same place, so the order is strict.
-/

namespace WMonitor

/-! ## Lists in order -/

section Sorted

variable {β : Type*} {r : β → β → Prop} [DecidableRel r] [IsTrans β r]

omit [IsTrans β r] in
theorem orderedInsert_of_forall {a : β} {l : List β} (h : ∀ b ∈ l, r a b) :
    l.orderedInsert r a = a :: l := by
  cases l with
  | nil => rfl
  | cons b l => rw [List.orderedInsert_cons, if_pos (h b List.mem_cons_self)]

theorem filter_orderedInsert {p : β → Bool} {a : β} {l : List β} (hl : l.Pairwise r) :
    (l.orderedInsert r a).filter p
      = if p a then (l.filter p).orderedInsert r a else l.filter p := by
  induction l with
  | nil =>
    rw [List.orderedInsert_nil, List.filter_cons, List.filter_nil]
    rfl
  | cons b l ih =>
    obtain ⟨hb, hl⟩ := List.pairwise_cons.1 hl
    rw [List.orderedInsert_cons]
    split_ifs with hab hpa hpa
    · rw [List.filter_cons_of_pos hpa, orderedInsert_of_forall]
      intro c hc
      rcases List.mem_cons.1 (List.mem_of_mem_filter hc) with rfl | hc
      · exact hab
      · exact IsTrans.trans a b c hab (hb c hc)
    · rw [List.filter_cons_of_neg hpa]
    · rw [List.filter_cons, ih hl, if_pos hpa, List.filter_cons]
      split_ifs with hpb
      · rw [List.orderedInsert_cons, if_neg hab]
      · rfl
    · rw [List.filter_cons, ih hl, if_neg hpa, List.filter_cons]

/-- A stable sort of the rows that pass is what passes of the sorted rows. -/
theorem filter_insertionSort [Std.Total r] (p : β → Bool) (l : List β) :
    (l.insertionSort r).filter p = (l.filter p).insertionSort r := by
  induction l with
  | nil => rfl
  | cons a l ih =>
    rw [List.insertionSort_cons, filter_orderedInsert (List.pairwise_insertionSort r l), ih,
      List.filter_cons]
    split_ifs
    · rw [List.insertionSort_cons]
    · rfl

omit [DecidableRel r] [IsTrans β r] in
/-- What holds of the rows up to some row holds of the first rows. -/
theorem filter_take {p : β → Bool} {l : List β} (hl : l.Pairwise r)
    (hp : ∀ a b, r a b → p b = true → p a = true) (n : ℕ) :
    (l.take n).filter p = (l.filter p).take n := by
  induction l generalizing n with
  | nil => simp
  | cons a l ih =>
    obtain ⟨ha, hl⟩ := List.pairwise_cons.1 hl
    cases n with
    | zero => simp
    | succ n =>
      by_cases hpa : p a = true
      · simp [hpa, ih hl]
      · have hnone : ∀ b ∈ l, p b ≠ true := fun b hb hpb => hpa (hp a b (ha b hb) hpb)
        rw [List.take_succ_cons, List.filter_cons_of_neg hpa, List.filter_cons_of_neg hpa,
          List.filter_eq_nil_iff.2 hnone,
          List.filter_eq_nil_iff.2 fun b hb => hnone b (List.mem_of_mem_take hb), List.take_nil]

end Sorted

namespace Columns

variable {α : Type} (C : Columns α)

/-- `a` stands before `b`, and not in the same place. -/
def Behind (a b : Stored α) : Prop :=
  C.timestamp a.row < C.timestamp b.row ∨ (C.timestamp a.row = C.timestamp b.row ∧ a.id < b.id)

instance : DecidableRel C.Behind := fun _ _ =>
  inferInstanceAs (Decidable (_ < _ ∨ _ = _ ∧ _ < _))

variable {C} {q : MetricQuery} {all : Bool} {t : List (Stored α)} {a b c r : Stored α}

instance : Std.Total C.Before where
  total a b := by
    unfold Before
    omega

instance : IsTrans (Stored α) C.Before where
  trans a b c := by
    unfold Before
    omega

theorem Behind.irrefl (a : Stored α) : ¬ C.Behind a a := by
  unfold Behind
  omega

theorem Behind.asymm (h : C.Behind a b) : ¬ C.Behind b a := by
  unfold Behind at *
  omega

theorem Behind.before (h : C.Behind a b) : C.Before a b := by
  unfold Behind at h
  unfold Before
  omega

theorem Behind.of_before (h : C.Behind a b) (h' : C.Before b c) : C.Behind a c := by
  unfold Behind at *
  unfold Before at h'
  omega

theorem Before.behind (h : C.Before a b) (h' : C.Behind b c) : C.Behind a c := by
  unfold Behind at *
  unfold Before at h
  omega

theorem before_of_not_behind (h : ¬ C.Behind a b) : C.Before b a := by
  unfold Behind at h
  unfold Before
  omega

theorem Before.refl (a : Stored α) : C.Before a a := .inr ⟨rfl, le_rfl⟩

theorem meets_iff : C.meets q all r = true ↔
    unix q.since ≤ C.timestamp r.row
      ∧ (q.untilTime = zeroTime ∨ C.timestamp r.row ≤ unix q.untilTime)
      ∧ (all = true ∨ C.tenantID r.row = q.tenantID)
      ∧ (q.serverID = "" ∨ C.serverID r.row = q.serverID)
      ∧ (q.afterID ≤ 0 ∨ q.afterUnix < C.timestamp r.row
        ∨ (C.timestamp r.row = q.afterUnix ∧ q.afterID < r.id)) := by
  simp only [meets, passed, Bool.and_eq_true, Bool.or_eq_true, decide_eq_true_eq, and_assoc,
    or_assoc]

/-- The query of all rows of a tenant from a time on. -/
theorem meets_since {since limit : ℤ} {tenant : String} :
    C.meets ⟨since, zeroTime, tenant, "", limit, 0, 0⟩ false r = true
      ↔ unix since ≤ C.timestamp r.row ∧ C.tenantID r.row = tenant := by
  simp [meets_iff]

theorem mem_ordered : r ∈ C.ordered q all t ↔ r ∈ t ∧ C.meets q all r = true := by
  rw [ordered, List.mem_insertionSort, List.mem_filter]

theorem ordered_before (q : MetricQuery) (all : Bool) (t : List (Stored α)) :
    (C.ordered q all t).Pairwise C.Before :=
  List.pairwise_insertionSort _ _

theorem ordered_ids (hn : (t.map (·.id)).Nodup) (q : MetricQuery) (all : Bool) :
    ((C.ordered q all t).map (·.id)).Nodup := by
  have hp := (List.perm_insertionSort C.Before (t.filter (C.meets q all))).map (·.id)
  exact hp.nodup_iff.2 (hn.sublist (List.filter_sublist.map _))

theorem ordered_behind (hn : (t.map (·.id)).Nodup) (q : MetricQuery) (all : Bool) :
    (C.ordered q all t).Pairwise C.Behind := by
  have hids := List.pairwise_map.1 (ordered_ids (C := C) hn q all)
  refine ((ordered_before q all t).and hids).imp ?_
  rintro a b ⟨hab, hne⟩
  unfold Before at hab
  unfold Behind
  omega

end Columns

/-- A store with `n` times the metric, of `agent-a` of `tenant-a`. -/
def sampleTable (m : MetricRow) (n : ℕ) : HubDB :=
  { HubDB.empty with
    metrics := (List.range n).map fun i => ⟨i + 1, metricRecord "tenant-a" "agent-a" m⟩
    lastMetricID := n }

end WMonitor
