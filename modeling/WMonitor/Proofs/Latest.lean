import WMonitor.Alerting
import WMonitor.Proofs.Store

/-!
# Which samples a pass evaluates

A pass keeps, of the rows it reads, the first of the newest ones under each key. It reads the first
`defaultQueryLimit` rows of the lookback window, so the newest row of a server is among them only
if fewer rows of all servers stand before it.
-/

namespace WMonitor

/-! ## The first of the newest -/

section Newest

variable {α β : Type*} {f : α → ℤ}

/-- A later row takes the place of the kept one only if it is newer. -/
def newer (f : α → ℤ) (cur : Option α) (x : α) : Option α :=
  match cur with
  | none => some x
  | some c => if f c < f x then some x else some c

def newest (f : α → ℤ) (l : List α) : Option α := l.foldl (newer f) none

theorem newest_append (l : List α) (x : α) : newest f (l ++ [x]) = newer f (newest f l) x := by
  simp [newest]

theorem newest_map (g : β → α) (l : List β) :
    newest f (l.map g) = (newest (fun b => f (g b)) l).map g := by
  induction l using List.reverseRecOn with
  | nil => rfl
  | append_singleton l x ih =>
    rw [List.map_append, List.map_cons, List.map_nil, newest_append, newest_append, ih]
    rcases newest (fun b => f (g b)) l with _ | c
    · rfl
    · simp only [Option.map_some, newer]
      split_ifs <;> rfl

/-- The first of the newest elements of a list in the order `R`. -/
def FirstNewest (f : α → ℤ) (R : α → α → Prop) (l : List α) (m : α) : Prop :=
  m ∈ l ∧ ∀ y ∈ l, f y < f m ∨ (f y = f m ∧ (y = m ∨ R m y))

theorem FirstNewest.unique {R : α → α → Prop} {l : List α} {m m' : α}
    (hR : ∀ a b, R a b → ¬ R b a) (h : FirstNewest f R l m) (h' : FirstNewest f R l m') :
    m = m' := by
  rcases h.2 m' h'.1 with hlt | ⟨he, hm | hm⟩
  · rcases h'.2 m h.1 with hlt' | ⟨he', -⟩ <;> omega
  · exact hm.symm
  · rcases h'.2 m h.1 with hlt' | ⟨-, hm' | hm'⟩
    · omega
    · exact hm'
    · exact absurd hm' (hR _ _ hm)

theorem exists_newest {l : List α} {x : α} (h : x ∈ l) : ∃ m, newest f l = some m := by
  induction l using List.reverseRecOn with
  | nil => simp at h
  | append_singleton l y _ =>
    rw [newest_append]
    rcases newest f l with _ | c
    · exact ⟨y, rfl⟩
    · simp only [newer]
      split_ifs
      · exact ⟨y, rfl⟩
      · exact ⟨c, rfl⟩

theorem mem_newest {l : List α} {m : α} (h : newest f l = some m) : m ∈ l := by
  induction l using List.reverseRecOn with
  | nil => simp [newest] at h
  | append_singleton l x ih =>
    rw [newest_append] at h
    rcases hc : newest f l with _ | c <;> rw [hc] at h <;> simp only [newer] at h
    · cases h
      simp
    · split_ifs at h <;> cases h
      · simp
      · exact List.mem_append_left _ (ih hc)

theorem le_newest {l : List α} {m x : α} (h : newest f l = some m) (hx : x ∈ l) : f x ≤ f m := by
  induction l using List.reverseRecOn generalizing m with
  | nil => simp at hx
  | append_singleton l y ih =>
    rw [newest_append] at h
    rcases List.mem_append.1 hx with hx | hx
    · obtain ⟨c, hc⟩ := exists_newest (f := f) hx
      have := ih hc hx
      rw [hc] at h
      simp only [newer] at h
      split_ifs at h <;> cases h <;> omega
    · obtain rfl := List.mem_singleton.1 hx
      rcases hc : newest f l with _ | c <;> rw [hc] at h <;> simp only [newer] at h
      · cases h
        exact le_rfl
      · split_ifs at h <;> cases h <;> omega

theorem newest_firstNewest {R : α → α → Prop} (hf : ∀ a b, R a b → f a ≤ f b) {l : List α}
    {m : α} (hl : l.Pairwise R) (h : newest f l = some m) : FirstNewest f R l m := by
  induction l using List.reverseRecOn generalizing m with
  | nil => simp [newest] at h
  | append_singleton l x ih =>
    obtain ⟨hl, -, hx⟩ := List.pairwise_append.1 hl
    rw [newest_append] at h
    rcases hc : newest f l with _ | c <;> rw [hc] at h
    · obtain rfl : x = m := by simpa [newer] using h
      obtain rfl : l = [] := by
        by_contra hne
        obtain ⟨y, hy⟩ := List.exists_mem_of_ne_nil l hne
        obtain ⟨m', hm'⟩ := exists_newest (f := f) hy
        rw [hc] at hm'
        cases hm'
      simp [FirstNewest]
    · obtain ⟨hmem, hall⟩ := ih hl hc
      have hcx := hx c hmem x (List.mem_singleton_self x)
      simp only [newer] at h
      split_ifs at h with hlt <;> cases h
      · refine ⟨by simp, fun y hy => ?_⟩
        rcases List.mem_append.1 hy with hy | hy
        · rcases hall y hy with hy' | ⟨hy', -⟩ <;> exact .inl (by omega)
        · exact .inr (by simp [List.mem_singleton.1 hy])
      · refine ⟨List.mem_append_left _ hmem, fun y hy => ?_⟩
        rcases List.mem_append.1 hy with hy | hy
        · exact hall y hy
        · obtain rfl := List.mem_singleton.1 hy
          have := hf _ _ hcx
          exact .inr ⟨by omega, .inr hcx⟩

theorem newest_eq_some_iff {R : α → α → Prop} (hf : ∀ a b, R a b → f a ≤ f b)
    (hR : ∀ a b, R a b → ¬ R b a) {l : List α} {m : α} (hl : l.Pairwise R) :
    newest f l = some m ↔ FirstNewest f R l m := by
  refine ⟨newest_firstNewest hf hl, fun h => ?_⟩
  obtain ⟨m', hm'⟩ := exists_newest (f := f) h.1
  rw [hm', (newest_firstNewest hf hl hm').unique hR h]

/-- The elements of a list in strict order that have fewer than `n` before them are its first. -/
theorem mem_take_iff {R : α → α → Prop} [DecidableRel R] (hR : ∀ a b, R a b → ¬ R b a)
    {l : List α} {x : α} {n : ℕ} (hl : l.Pairwise R) (hx : x ∈ l) :
    x ∈ l.take n ↔ l.countP (fun y => decide (R y x)) < n := by
  have hirr : ¬ R x x := fun h => hR x x h h
  induction l generalizing n with
  | nil => simp at hx
  | cons a l ih =>
    obtain ⟨ha, hl⟩ := List.pairwise_cons.1 hl
    cases n with
    | zero => simp
    | succ n =>
      rw [List.take_succ_cons, List.mem_cons, List.countP_cons]
      by_cases hxl : x ∈ l
      · have ih := ih hl hxl (n := n)
        rw [if_pos (by simpa using ha x hxl)]
        constructor
        · rintro (rfl | h)
          · exact absurd (ha x hxl) hirr
          · have := ih.1 h
            omega
        · intro h
          exact .inr (ih.2 (by omega))
      · obtain rfl := (List.mem_cons.1 hx).resolve_right hxl
        have hzero : l.countP (fun y => decide (R y x)) = 0 := by
          rw [List.countP_eq_zero]
          intro y hy
          simpa using hR _ _ (ha y hy)
        rw [hzero, if_neg (by simpa using hirr)]
        simp

end Newest

/-! ## The samples of a pass -/

theorem latestRows_append (rows : List MetricRow) (row : MetricRow) :
    latestRows (rows ++ [row]) = keepNewest (latestRows rows) row := by
  simp [latestRows]

theorem nodup_latestRows (rows : List MetricRow) : ((latestRows rows).map (·.1)).Nodup := by
  induction rows using List.reverseRecOn with
  | nil => exact List.nodup_nil
  | append_singleton rows row ih =>
    rw [latestRows_append, keepNewest]
    split
    · rename_i hnone
      exact Table.nodup_append ih (Table.lookup_eq_none.1 hnone)
    · split_ifs
      · rw [Table.map_update fun g hg => by simpa using (of_decide_eq_true hg).symm]
        exact ih
      · exact ih

/-- The newest of the rows under the key. -/
def newestUnder (k : String) (rows : List MetricRow) : Option MetricRow :=
  newest (·.timestamp) (rows.filter (·.latestKey = k))

theorem newestUnder_append (k : String) (rows : List MetricRow) (row : MetricRow) :
    newestUnder k (rows ++ [row])
      = if row.latestKey = k then newer (·.timestamp) (newestUnder k rows) row
        else newestUnder k rows := by
  unfold newestUnder
  rw [List.filter_append]
  split_ifs with hk
  · rw [List.filter_cons_of_pos (by simpa using hk), List.filter_nil, newest_append]
  · rw [List.filter_cons_of_neg (by simpa using hk), List.filter_nil, List.append_nil]

theorem lookup_latestRows (rows : List MetricRow) (k : String) :
    Table.lookup Prod.fst k (latestRows rows) = (newestUnder k rows).map (k, ·) := by
  have hkey : ∀ row : MetricRow, ∀ g : String × MetricRow, decide (g.1 = row.latestKey) = true →
      (row.latestKey, row).1 = g.1 := fun row g hg => (of_decide_eq_true hg).symm
  induction rows using List.reverseRecOn with
  | nil => rfl
  | append_singleton rows row ih =>
    rw [latestRows_append, newestUnder_append, keepNewest]
    by_cases hk : row.latestKey = k
    · subst hk
      rw [if_pos rfl]
      generalize newestUnder row.latestKey rows = n at ih ⊢
      rw [show Table.lookup (fun x : String × MetricRow => x.1) row.latestKey (latestRows rows)
        = n.map (row.latestKey, ·) from ih]
      rcases n with _ | cur
      · simp only [Option.map_none] at ih ⊢
        rw [Table.lookup_append, ih]
        simp [newer]
      · simp only [Option.map_some, newer] at ih ⊢
        split_ifs
        · rw [Table.lookup_update (hkey row), ih]
          simp
        · rw [ih]
          rfl
    · rw [if_neg hk, ← ih]
      split
      · rw [Table.lookup_append, if_neg hk, Option.or_none]
      · split_ifs
        · rw [Table.lookup_update (hkey row)]
          rcases hl : Table.lookup Prod.fst k (latestRows rows) with _ | g
          · rfl
          · have hg : g.1 = k := (Table.lookup_mem hl).2
            have hne : ¬ g.1 = row.latestKey := fun h => hk (h.symm.trans hg)
            simp [hne]
        · rfl

theorem newestUnder_key {k : String} {rows : List MetricRow} {m : MetricRow}
    (h : newestUnder k rows = some m) : m ∈ rows ∧ m.latestKey = k := by
  simpa using mem_newest h

theorem newestUnder_of_mem {rows : List MetricRow} {g : String × MetricRow}
    (h : g ∈ latestRows rows) : newestUnder g.1 rows = some g.2 := by
  have hl := (Table.lookup_eq_some (nodup_latestRows rows)).2 ⟨h, rfl⟩
  rw [show (fun x : String × MetricRow => x.1) = Prod.fst from rfl, lookup_latestRows] at hl
  obtain ⟨m, hm, he⟩ := Option.map_eq_some_iff.1 hl
  rw [hm, ← he]

theorem mem_latestRows {rows : List MetricRow} {m : MetricRow} :
    m ∈ (latestRows rows).map (·.2) ↔ newestUnder m.latestKey rows = some m := by
  constructor
  · intro h
    obtain ⟨g, hg, rfl⟩ := List.mem_map.1 h
    have hm := newestUnder_of_mem hg
    rw [(newestUnder_key hm).2]
    exact hm
  · intro h
    have hl := lookup_latestRows rows m.latestKey
    rw [h] at hl
    exact List.mem_map.2 ⟨_, (Table.lookup_mem hl).1, rfl⟩

theorem nodup_latest (rows : List MetricRow) : ((latestRows rows).map (·.2)).Nodup := by
  have hkeys : ((latestRows rows).map (·.2)).map (·.latestKey) = (latestRows rows).map (·.1) := by
    rw [List.map_map]
    exact List.map_congr_left fun g hg => (newestUnder_key (newestUnder_of_mem hg)).2
  exact List.Nodup.of_map _ (hkeys ▸ nodup_latestRows rows)

/-! ## A pass against the table -/

section Pass

variable {now : ℤ} {db : HubDB} {x y : Stored MetricRecord}

/-- The row is in the lookback window of a pass at `now`, which has no end. -/
def recent (now : ℤ) (r : Stored MetricRecord) : Bool := unix (now - lookback) ≤ r.row.timestamp

/-- The key under which a pass keeps the row. -/
def pairKey (r : Stored MetricRecord) : String := (scanMetric r).latestKey

/-- The number of rows of the lookback window that stand before the row. -/
def HubDB.before (now : ℤ) (x : Stored MetricRecord) (db : HubDB) : ℕ :=
  db.metrics.countP fun y => recent now y && decide (metricColumns.Behind y x)

/-- The rows a pass reads. -/
def HubDB.recentRows (now : ℤ) (db : HubDB) : List (Stored MetricRecord) :=
  metricColumns.select ⟨now - lookback, zeroTime, "", "", 0, 0, 0⟩ true db.metrics

theorem recent_eq_meets (now : ℤ) :
    metricColumns.meets ⟨now - lookback, zeroTime, "", "", 0, 0, 0⟩ true = recent now := by
  funext r
  rw [Bool.eq_iff_iff, Columns.meets_iff]
  simp [recent, metricColumns]

theorem mem_recentRows (hn : (db.metrics.map (·.id)).Nodup) :
    x ∈ db.recentRows now ↔ x ∈ db.metrics ∧ recent now x = true
      ∧ db.before now x < defaultQueryLimit := by
  unfold HubDB.recentRows Columns.select
  have hmem : ∀ r, r ∈ metricColumns.ordered ⟨now - lookback, zeroTime, "", "", 0, 0, 0⟩ true
      db.metrics ↔ r ∈ db.metrics ∧ recent now r = true := by
    intro r
    rw [Columns.mem_ordered, recent_eq_meets]
  have hcount : (metricColumns.ordered ⟨now - lookback, zeroTime, "", "", 0, 0, 0⟩ true
      db.metrics).countP (fun y => decide (metricColumns.Behind y x)) = db.before now x := by
    rw [Columns.ordered, (List.perm_insertionSort _ _).countP_eq, List.countP_filter,
      recent_eq_meets, HubDB.before]
    refine List.countP_congr fun y _ => ?_
    rw [Bool.and_comm]
  constructor
  · intro h
    have hx := List.mem_of_mem_take h
    refine ⟨((hmem x).1 hx).1, ((hmem x).1 hx).2, ?_⟩
    rw [← hcount]
    exact (mem_take_iff (fun _ _ => Columns.Behind.asymm) (Columns.ordered_behind hn _ _) hx).1 h
  · rintro ⟨h₁, h₂, h₃⟩
    rw [← hcount] at h₃
    exact (mem_take_iff (fun _ _ => Columns.Behind.asymm) (Columns.ordered_behind hn _ _)
      ((hmem x).2 ⟨h₁, h₂⟩)).2 h₃

theorem evaluatedRows_eq (now : ℤ) (db : HubDB) :
    evaluatedRows now db = (latestRows ((db.recentRows now).map scanMetric)).map (·.2) := rfl

theorem newestUnder_recentRows (k : String) :
    newestUnder k ((db.recentRows now).map scanMetric)
      = (newest (fun r => r.row.timestamp * second)
          ((db.recentRows now).filter (pairKey · = k))).map scanMetric := by
  unfold newestUnder
  rw [List.filter_map, newest_map]
  rfl

theorem recentRows_behind (hn : (db.metrics.map (·.id)).Nodup) :
    (db.recentRows now).Pairwise metricColumns.Behind :=
  (Columns.ordered_behind hn _ _).sublist (List.take_sublist _ _)

/-- A pass evaluates a row just when it reads it, and no newer or equally new and earlier one under
its key. -/
theorem mem_evaluatedRows (hn : (db.metrics.map (·.id)).Nodup) (hx : x ∈ db.metrics) :
    scanMetric x ∈ evaluatedRows now db ↔ x ∈ db.recentRows now
      ∧ ∀ y ∈ db.recentRows now, pairKey y = pairKey x →
        y.row.timestamp < x.row.timestamp
          ∨ (y.row.timestamp = x.row.timestamp ∧ x.id ≤ y.id) := by
  have hsub : ∀ r ∈ db.recentRows now, r ∈ db.metrics := fun r hr => ((mem_recentRows hn).1 hr).1
  have hid : ∀ r ∈ db.metrics, r.id = x.id → r = x := fun r hr he =>
    List.inj_on_of_nodup_map hn hr hx he
  have hle : ∀ a b : Stored MetricRecord, metricColumns.Behind a b →
      a.row.timestamp * second ≤ b.row.timestamp * second := by
    intro a b h
    simp only [Columns.Behind, metricColumns, second] at h ⊢
    omega
  have hsort : ((db.recentRows now).filter (pairKey · = pairKey x)).Pairwise
      metricColumns.Behind := (recentRows_behind hn).sublist List.filter_sublist
  rw [evaluatedRows_eq, mem_latestRows, newestUnder_recentRows]
  have hinj : (newest (fun r => r.row.timestamp * second)
        ((db.recentRows now).filter (pairKey · = pairKey x))).map scanMetric
        = some (scanMetric x)
      ↔ newest (fun r => r.row.timestamp * second)
        ((db.recentRows now).filter (pairKey · = pairKey x)) = some x := by
    constructor
    · intro h
      obtain ⟨z, hz, he⟩ := Option.map_eq_some_iff.1 h
      have hzm := (newest_firstNewest hle hsort hz).1
      have hze : z.id = x.id := by
        have : (z.id : ℤ) = x.id := congrArg MetricRow.id he
        omega
      rw [hz, hid z (hsub z (List.mem_of_mem_filter hzm)) hze]
    · intro h
      rw [h]
      rfl
  rw [show (scanMetric x).latestKey = pairKey x from rfl, hinj,
    newest_eq_some_iff hle (fun _ _ => Columns.Behind.asymm) hsort]
  simp only [FirstNewest, List.mem_filter, decide_eq_true_eq, and_true, and_imp]
  refine and_congr_right fun hxr => forall₃_congr fun y hy hk => ?_
  constructor
  · rintro (h | ⟨h, rfl | h⟩)
    · left
      unfold second at h
      omega
    · exact .inr ⟨rfl, le_rfl⟩
    · simp only [Columns.Behind, metricColumns] at h
      unfold second at *
      omega
  · rintro (h | ⟨h, hi⟩)
    · left
      unfold second
      omega
    · right
      refine ⟨by rw [h], ?_⟩
      rcases Nat.eq_or_lt_of_le hi with hi | hi
      · exact .inl (hid y (hsub y hy) hi.symm)
      · exact .inr (.inr ⟨h.symm, hi⟩)

/-- `x` is a newest row of the tenant and server of `r`. -/
structure NewestOf (db : HubDB) (r x : Stored MetricRecord) : Prop where
  mem : x ∈ db.metrics
  tenant : x.row.tenantID = r.row.tenantID
  server : x.row.serverID = r.row.serverID
  newest : ∀ y ∈ db.metrics, y.row.tenantID = r.row.tenantID → y.row.serverID = r.row.serverID →
    y.row.timestamp ≤ x.row.timestamp

/-- The row lies in the lookback window of `now`. -/
def InLookback (now : ℤ) (r : Stored MetricRecord) : Prop :=
  now - lookback ≤ r.row.timestamp * second ∧ r.row.timestamp * second ≤ now

/-- Every server with a recent row is evaluated on a newest one just when fewer than
`defaultQueryLimit` rows of the window stand before such a row, and none of those the pass reads
under its key is newer, or equally new and before it. -/
theorem evaluated_newest_iff (now : ℤ) (db : HubDB) (hn : (db.metrics.map (·.id)).Nodup) :
    (∀ r ∈ db.metrics, InLookback now r →
      ∃ x, NewestOf db r x ∧ scanMetric x ∈ evaluatedRows now db)
    ↔ ∀ r ∈ db.metrics, InLookback now r →
      ∃ x, NewestOf db r x ∧ db.before now x < defaultQueryLimit
        ∧ ∀ y ∈ db.metrics, pairKey y = pairKey x → recent now y = true →
          db.before now y < defaultQueryLimit →
          y.row.timestamp < x.row.timestamp
            ∨ (y.row.timestamp = x.row.timestamp ∧ x.id ≤ y.id) := by
  refine forall₃_congr fun r hr hin => exists_congr fun x => and_congr_right fun hx => ?_
  have hrecent : recent now x = true := by
    have := hx.newest r hr rfl rfl
    have := hin.1
    simp only [recent, decide_eq_true_eq]
    unfold unix second at *
    omega
  rw [mem_evaluatedRows hn hx.mem, mem_recentRows hn]
  constructor
  · rintro ⟨⟨-, -, h₁⟩, h₂⟩
    exact ⟨h₁, fun y hy hk hy₁ hy₂ => h₂ y ((mem_recentRows hn).2 ⟨hy, hy₁, hy₂⟩) hk⟩
  · rintro ⟨h₁, h₂⟩
    refine ⟨⟨hx.mem, hrecent, h₁⟩, fun y hy hk => ?_⟩
    obtain ⟨hy₁, hy₂, hy₃⟩ := (mem_recentRows hn).1 hy
    exact h₂ y hy₁ hk hy₂ hy₃

end Pass

theorem evaluated_newest_iff_sample :
    (∃ r ∈ (sampleTable sampleMetric 3).metrics, InLookback sampleMetric.timestamp r)
      ∧ ∀ r ∈ (sampleTable sampleMetric 3).metrics, InLookback sampleMetric.timestamp r →
        ∃ x, NewestOf (sampleTable sampleMetric 3) r x
          ∧ scanMetric x ∈ evaluatedRows sampleMetric.timestamp (sampleTable sampleMetric 3) := by
  have hmem : (⟨1, metricRecord "tenant-a" "agent-a" sampleMetric⟩ : Stored MetricRecord)
      ∈ (sampleTable sampleMetric 3).metrics := by decide
  refine ⟨⟨_, hmem, by unfold InLookback; decide⟩, (evaluated_newest_iff sampleMetric.timestamp
    (sampleTable sampleMetric 3) (by decide)).2 fun r hr _ => ?_⟩
  obtain ⟨i, -, rfl⟩ := List.mem_map.1 hr
  refine ⟨⟨1, metricRecord "tenant-a" "agent-a" sampleMetric⟩, ⟨hmem, rfl, rfl, ?_⟩,
    by decide +kernel, by decide +kernel⟩
  intro y hy _ _
  obtain ⟨j, -, rfl⟩ := List.mem_map.1 hy
  exact le_rfl

/-- `n` rows of one record before another one. -/
def crowd (c : MetricRecord) (n : ℕ) (y : MetricRecord) : List (Stored MetricRecord) :=
  (List.range n).map (fun i => ⟨i + 1, c⟩) ++ [⟨n + 1, y⟩]

theorem crowd_ids (c : MetricRecord) (n : ℕ) (y : MetricRecord) :
    ((crowd c n y).map (·.id)).Nodup := by
  have : (crowd c n y).map (·.id) = (List.range (n + 1)).map (· + 1) := by
    simp [crowd, List.range_succ]
  rw [this]
  exact List.nodup_range.map (fun a b h => by omega)

/-- Behind as many rows as a pass reads, the last one is not read. -/
theorem crowd_unread {c y : MetricRecord} {n : ℕ} {now : ℤ} (db : HubDB)
    (hdb : db.metrics = crowd c n y) (hn : defaultQueryLimit ≤ n)
    (hc : unix (now - lookback) ≤ c.timestamp) (hcy : c.timestamp ≤ y.timestamp)
    {r : Stored MetricRecord} (hr : r ∈ db.recentRows now) : r.row = c := by
  obtain ⟨hmem, -, hbefore⟩ := (mem_recentRows (by rw [hdb]; exact crowd_ids c n y)).1 hr
  rw [hdb] at hmem
  rcases List.mem_append.1 hmem with hmem | hmem
  · obtain ⟨i, -, rfl⟩ := List.mem_map.1 hmem
    rfl
  · obtain rfl := List.mem_singleton.1 hmem
    have hall : ∀ z ∈ (List.range n).map (fun i : ℕ => (⟨i + 1, c⟩ : Stored MetricRecord)),
        (recent now z && decide (metricColumns.Behind z ⟨n + 1, y⟩)) = true := by
      intro z hz
      obtain ⟨i, hi, rfl⟩ := List.mem_map.1 hz
      rw [List.mem_range] at hi
      rw [Bool.and_eq_true, decide_eq_true_eq]
      refine ⟨by simpa [recent] using hc, ?_⟩
      simp only [Columns.Behind, metricColumns]
      omega
    rw [HubDB.before, hdb, crowd, List.countP_append, List.countP_eq_length.2 hall,
      List.length_map, List.length_range] at hbefore
    omega

/-- `n` metrics of a server of `tenant-b`, and one of `tenant-a` a second later. -/
def crowdedTable (n : ℕ) : HubDB :=
  { HubDB.empty with
    metrics := (List.range n).map
        (fun i => ⟨i + 1, metricRecord "tenant-b" "agent-b" sampleMetric⟩)
      ++ [⟨n + 1, metricRecord "tenant-a" "agent-a"
        { sampleMetric with timestamp := sampleMetric.timestamp + second }⟩]
    lastMetricID := n + 1 }

/-- With as many rows of another tenant before it as a pass reads, the only sample of `tenant-a` is
not evaluated, although it was taken at that time. -/
theorem evaluated_crowded_out :
    (∃ r ∈ (crowdedTable 100000).metrics, r.row.tenantID = "tenant-a"
      ∧ r.row.timestamp * second = sampleMetric.timestamp + second)
    ∧ ∀ m ∈ evaluatedRows (sampleMetric.timestamp + second) (crowdedTable 100000),
      m.tenantID ≠ "tenant-a" := by
  have hn : defaultQueryLimit ≤ 100000 := le_rfl
  generalize 100000 = n at hn ⊢
  refine ⟨⟨_, List.mem_append_right _ (List.mem_singleton_self _), rfl, rfl⟩, fun m hm => ?_⟩
  rw [evaluatedRows_eq, mem_latestRows] at hm
  obtain ⟨r, hr, rfl⟩ := List.mem_map.1 (newestUnder_key hm).1
  have hrow := crowd_unread (crowdedTable n) rfl hn (by decide) (by decide) hr
  simp only [scanMetric, hrow]
  exact (by decide : ("tenant-b" : String) ≠ "tenant-a")

end WMonitor
