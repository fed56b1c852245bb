import WMonitor.Proofs.Sizing

/-!
# The summary of a fleet

Rows are grouped by server in the order the servers are first seen. However the servers' rows are
interleaved, the groups are the same up to their order, and the sums of the fleet do not depend on
that. Averages are between the least and the peak values, of a server because they are averages and of
a fleet because both sides are added up.
-/

namespace WMonitor

/-! ## Grouping -/

/-- The rows of a server. -/
def rowsOf (rows : List MetricRow) (key : String) : List MetricRow :=
  rows.filter fun r => r.serverKey = key

theorem rowsOf_snoc (rows : List MetricRow) (r : MetricRow) (key : String) :
    rowsOf (rows ++ [r]) key = if key = r.serverKey then rowsOf rows key ++ [r] else rowsOf rows key := by
  rw [rowsOf, rowsOf, List.filter_append]
  split_ifs with h
  · simp [h]
  · simp [Ne.symm h]

theorem rowsOf_ne_nil {rows : List MetricRow} {key : String} :
    rowsOf rows key ≠ [] ↔ key ∈ rows.map (·.serverKey) := by
  rw [rowsOf, Ne, List.filter_eq_nil_iff, List.mem_map]
  simp

/-- A row that was added to the groups of these servers. -/
theorem addToServer_groups (rows : List MetricRow) (keys : List String) (r : MetricRow)
    (hkeys : ∀ key, key ∈ keys ↔ key ∈ rows.map (·.serverKey)) :
    addToServer (keys.map fun key => (key, rowsOf rows key)) r
      = (if r.serverKey ∈ keys then keys else keys ++ [r.serverKey]).map fun key =>
        (key, rowsOf (rows ++ [r]) key) := by
  have hany : (keys.map fun key => (key, rowsOf rows key)).any (fun g => g.1 = r.serverKey) = true
      ↔ r.serverKey ∈ keys := by
    simp [List.any_eq_true]
  unfold addToServer
  by_cases hmem : r.serverKey ∈ keys
  · rw [if_pos (hany.mpr hmem), if_pos hmem, Table.update, List.map_map]
    refine List.map_congr_left fun key _ => ?_
    rw [rowsOf_snoc]
    simp only [Function.comp_apply, decide_eq_true_eq]
    split_ifs <;> rfl
  · rw [if_neg (mt hany.mp hmem), if_neg hmem, List.map_append]
    congr 1
    · refine List.map_congr_left fun key hkey => ?_
      have hne : key ≠ r.serverKey := fun h => hmem (h ▸ hkey)
      rw [rowsOf_snoc, if_neg hne]
    · have hnone : rowsOf rows r.serverKey = [] := by
        by_contra h
        exact hmem ((hkeys _).mpr (rowsOf_ne_nil.mp h))
      rw [List.map_singleton, rowsOf_snoc, if_pos rfl, hnone, List.nil_append]

/-- The groups are the rows of each server that is seen. -/
theorem groups_eq (rows : List MetricRow) :
    ∃ keys : List String, keys.Nodup ∧ (∀ key, key ∈ keys ↔ key ∈ rows.map (·.serverKey))
      ∧ rows.foldl addToServer [] = keys.map fun key => (key, rowsOf rows key) := by
  induction rows using List.reverseRecOn with
  | nil => exact ⟨[], List.nodup_nil, by simp, rfl⟩
  | append_singleton rows r ih =>
    obtain ⟨keys, hnodup, hkeys, hgroups⟩ := ih
    refine ⟨if r.serverKey ∈ keys then keys else keys ++ [r.serverKey], ?_, fun key => ?_, ?_⟩
    · split_ifs with hmem
      · exact hnodup
      · exact List.concat_eq_append ▸ hnodup.concat hmem
    · rw [List.map_append, List.map_singleton, List.mem_append, List.mem_singleton, ← hkeys]
      split_ifs with hmem
      · exact ⟨.inl, fun h => h.elim id fun h => h ▸ hmem⟩
      · rw [List.mem_append, List.mem_singleton]
    · rw [List.foldl_append, hgroups]
      exact addToServer_groups rows keys r hkeys

/-- The groups of two interleavings differ in their order only. -/
theorem groups_perm {rows rows' : List MetricRow} (h : ∀ key, rowsOf rows key = rowsOf rows' key) :
    (rows.foldl addToServer []).Perm (rows'.foldl addToServer []) := by
  obtain ⟨keys, hnodup, hkeys, hgroups⟩ := groups_eq rows
  obtain ⟨keys', hnodup', hkeys', hgroups'⟩ := groups_eq rows'
  have hperm : keys.Perm keys' := by
    refine (List.perm_ext_iff_of_nodup hnodup hnodup').mpr fun key => ?_
    rw [hkeys, hkeys', ← rowsOf_ne_nil, h, rowsOf_ne_nil]
  rw [hgroups, hgroups']
  simp only [h]
  exact hperm.map _

/-- Every row is in one group. -/
theorem groups_total (rows : List MetricRow) :
    ((rows.foldl addToServer []).map fun g => g.2.length).sum = rows.length := by
  obtain ⟨keys, hnodup, hkeys, hgroups⟩ := groups_eq rows
  have hperm : keys.Perm (rows.map (·.serverKey)).dedup :=
    (List.perm_ext_iff_of_nodup hnodup (List.nodup_dedup _)).mpr fun key => by
      rw [List.mem_dedup, hkeys]
  have hcount : ∀ key, (rowsOf rows key).length = (rows.map (·.serverKey)).count key := by
    intro key
    rw [List.count, List.countP_map, rowsOf, ← List.countP_eq_length_filter]
    exact List.countP_congr fun r _ => by simp
  have hsum := List.sum_map_count_dedup_eq_length (rows.map (·.serverKey))
  rw [hgroups, List.map_map, (hperm.map _).sum_eq]
  simp only [Function.comp_def, hcount]
  rwa [List.length_map] at hsum

/-! ## Order independence and the number of rows -/

theorem exact_add_right_comm (a b c : F64) :
    exactArith.add (exactArith.add a b) c = exactArith.add (exactArith.add a c) b := by
  have hlift : exactArith.add = exactArith.lift (· + ·) := rfl
  rw [hlift]
  rcases a with _ | _ | a <;> rcases b with _ | _ | b <;> rcases c with _ | _ | c <;>
    simp only [exactArith.lift, add_right_comm]

theorem mod_add_right_comm (a b c n : ℕ) : ((a + b) % n + c) % n = ((a + c) % n + b) % n := by
  rw [Nat.mod_add_mod, Nat.mod_add_mod, add_right_comm]

/-- The order in which two servers are added does not matter. -/
theorem Fleet.add_right_comm (f : Fleet) (s s' : Summary) :
    (f.add exactArith s).add exactArith s' = (f.add exactArith s').add exactArith s := by
  simp only [Fleet.add, Fleet.mk.injEq, Summary.mk.injEq, true_and, and_true]
  and_intros
  all_goals
    first
    | exact exact_add_right_comm _ _ _
    | exact mod_add_right_comm _ _ _ _
    | exact Int.add_right_comm _ _ _

section Aggregate

variable {servers servers' : List ServerSummary} (period : String)

/-- The fleet before its servers are added. -/
def fleetStart (count : ℕ) : Fleet :=
  ⟨{ Summary.zero period with fleetServerCount := count }, .fin 0, .fin 0, .fin 0, .fin 0, .fin 0⟩

/-- The fleet of several servers. -/
theorem aggregate_many (h : 2 ≤ servers.length) :
    aggregateFleetSummary exactArith servers period
      = (servers.foldl (fun f sv => f.add exactArith sv.summary)
          (fleetStart period servers.length)).finish exactArith := by
  match servers, h with
  | _ :: _ :: _, _ => rfl

theorem aggregate_perm (h : servers.Perm servers') :
    aggregateFleetSummary exactArith servers period
      = aggregateFleetSummary exactArith servers' period := by
  match servers, h with
  | [], h => rw [List.nil_perm.mp h]
  | [sv], h => rw [List.singleton_perm.mp h]
  | sv :: sv' :: rest, h =>
    have htwo : 2 ≤ (sv :: sv' :: rest).length := by simp
    rw [aggregate_many period htwo, aggregate_many period (h.length_eq ▸ htwo), h.length_eq]
    congr 1
    have : RightCommutative fun (f : Fleet) (sv : ServerSummary) => f.add exactArith sv.summary :=
      ⟨fun f sv sv' => f.add_right_comm sv.summary sv'.summary⟩
    exact h.foldl_eq _

theorem tally_rowCount (rows : List MetricRow) (t : Tally) :
    (rows.foldl (Tally.add exactArith) t).s.rowCount = t.s.rowCount := by
  induction rows generalizing t with
  | nil => rfl
  | cons r rows ih => exact ih (t.add exactArith r)

theorem computeServerSummary_rowCount (rows : List MetricRow) :
    (computeServerSummary exactArith rows period).rowCount = rows.length := by
  match rows with
  | [] => rfl
  | first :: rest => exact tally_rowCount (first :: rest) _

theorem fleet_rowCount (servers : List ServerSummary) (f : Fleet) :
    (servers.foldl (fun f sv => f.add exactArith sv.summary) f).fleet.rowCount
      = f.fleet.rowCount + (servers.map (·.summary.rowCount)).sum := by
  induction servers generalizing f with
  | nil => simp
  | cons sv servers ih =>
    rw [List.foldl_cons, ih, List.map_cons, List.sum_cons, ← add_assoc]
    rfl

theorem aggregate_rowCount (servers : List ServerSummary) :
    (aggregateFleetSummary exactArith servers period).rowCount
      = (servers.map (·.summary.rowCount)).sum := by
  match servers with
  | [] => rfl
  | [sv] => simp [aggregateFleetSummary]
  | sv :: sv' :: rest =>
    have hcount := fleet_rowCount (sv :: sv' :: rest) (fleetStart period (sv :: sv' :: rest).length)
    have hzero : (fleetStart period (sv :: sv' :: rest).length).fleet.rowCount = 0 := rfl
    rw [hzero, zero_add] at hcount
    rw [aggregate_many period (by simp), ← hcount, Fleet.finish]
    dsimp only [computeSpecSuggestions]
    split_ifs <;> rfl

theorem computeSummary_rowCount (rows : List MetricRow) :
    (computeSummary exactArith rows period).rowCount = rows.length := by
  rw [computeSummary, aggregate_rowCount, computePerServerSummaries, List.map_map, ← groups_total rows]
  simp only [Function.comp_def, serverSummary, computeServerSummary_rowCount]
  rw [Nat.cast_list_sum, List.map_map]
  rfl

end Aggregate

/-! ## Averages -/

/-- Finite values in this order. -/
def Between (lo x hi : F64) : Prop :=
  ∃ a b c : ℚ, lo = .fin a ∧ x = .fin b ∧ hi = .fin c ∧ a ≤ b ∧ b ≤ c

theorem Between.add {lo x hi lo' x' hi' : F64} (h : Between lo x hi) (h' : Between lo' x' hi') :
    Between (exactArith.add lo lo') (exactArith.add x x') (exactArith.add hi hi') := by
  obtain ⟨a, b, c, rfl, rfl, rfl, hab, hbc⟩ := h
  obtain ⟨a', b', c', rfl, rfl, rfl, hab', hbc'⟩ := h'
  exact ⟨_, _, _, rfl, rfl, rfl, add_le_add hab hab', add_le_add hbc hbc'⟩

/-- What the numbers of a summary have to satisfy. -/
structure Summary.Bounded (s : Summary) : Prop where
  iops : Between s.minDiskIOPS s.avgDiskIOPS s.peakDiskIOPS
  net : Between s.minNetMBps s.avgNetMBps s.peakNetMBps
  users : Between (.fin s.minConcurrentUsers) s.avgConcurrentUsers (.fin s.maxConcurrentUsers)
  cpu : Between (.fin 0) s.avgCPU s.peakCPU ∧ Between s.avgCPU s.peakCPU (.fin 100)
  mem : Between (.fin 0) s.avgMem s.peakMem ∧ Between s.avgMem s.peakMem (.fin 100)

/-- A row whose measurements are not negative, with percentages of at most 100. -/
structure MetricRow.Plausible (r : MetricRow) : Prop where
  finite : ∀ v ∈ [r.cpuPct, r.memPct, r.memTotalGB, r.diskIOPS, r.netMBps],
    v.IsFin ∧ 0 ≤ v.toRat
  cpuPct : r.cpuPct.toRat ≤ 100
  memPct : r.memPct.toRat ≤ 100
  cores : 0 ≤ r.cpuCores
  users : 0 ≤ r.concurrentUsers

theorem foldl_add {l : List F64} (h : ∀ v ∈ l, v.IsFin) (a : ℚ) :
    l.foldl exactArith.add (.fin a) = .fin (a + (l.map F64.toRat).sum) := by
  induction l generalizing a with
  | nil => simp
  | cons v l ih =>
    rw [List.foldl_cons, h v List.mem_cons_self, exact_add,
      ih (fun w hw => h w (List.mem_cons_of_mem v hw)), List.map_cons, List.sum_cons, add_assoc]
    rfl

/-- An average is between a lower and an upper bound of the values. -/
theorem average_between {l : List ℚ} (hne : l ≠ []) {lo hi : ℚ} (hlo : ∀ q ∈ l, lo ≤ q)
    (hhi : ∀ q ∈ l, q ≤ hi) : lo ≤ l.sum / l.length ∧ l.sum / l.length ≤ hi := by
  have hpos : (0 : ℚ) < l.length := by
    exact_mod_cast List.length_pos_iff.mpr hne
  have h₁ := List.card_nsmul_le_sum l lo hlo
  have h₂ := List.sum_le_card_nsmul l hi hhi
  rw [nsmul_eq_mul] at h₁ h₂
  exact ⟨(le_div_iff₀ hpos).mpr (by linarith), (div_le_iff₀ hpos).mpr (by linarith)⟩

/-- A column of the rows of a server: its least, average and peak values. -/
theorem column_between {l : List F64} {first : F64} (hfirst : first ∈ l)
    (hfin : ∀ v ∈ l, v.IsFin ∧ 0 ≤ v.toRat) :
    Between (l.foldl F64.least first)
        (exactArith.div (l.foldl exactArith.add (.fin 0)) (.fin (l.length : ℤ)))
        (l.foldl F64.peak (.fin 0))
      ∧ Between (.fin 0) (exactArith.div (l.foldl exactArith.add (.fin 0)) (.fin (l.length : ℤ)))
        (l.foldl F64.peak (.fin 0)) := by
  have hne : l.map F64.toRat ≠ [] := by
    simp [List.ne_nil_of_mem hfirst]
  have hlen : ((l.length : ℤ) : ℚ) ≠ 0 := by
    have := List.length_pos_of_mem hfirst
    exact_mod_cast this.ne'
  have hfin' : ∀ v ∈ l, v.IsFin := fun v hv => (hfin v hv).1
  rw [F64.foldl_peak hfin', foldl_add hfin', zero_add, exact_div hlen, (hfin first hfirst).1,
    F64.foldl_least hfin']
  obtain ⟨-, hmin, -⟩ := foldl_min (l.map F64.toRat) first.toRat
  obtain ⟨-, hmax, -⟩ := foldl_max (l.map F64.toRat) 0
  have havg := average_between hne hmin hmax
  have hnonneg : ∀ q ∈ l.map F64.toRat, (0 : ℚ) ≤ q := by
    simpa using fun v hv => (hfin v hv).2
  have hzero := average_between hne hnonneg hmax
  rw [List.length_map] at havg hzero
  exact ⟨⟨_, _, _, rfl, rfl, rfl, by exact_mod_cast havg.1, by exact_mod_cast havg.2⟩,
    ⟨_, _, _, rfl, rfl, rfl, by exact_mod_cast hzero.1, by exact_mod_cast hzero.2⟩⟩

/-- The other columns of the loop of `computeServerSummary`. -/
theorem tally_columns (rows : List MetricRow) (t : Tally) :
    (rows.foldl (Tally.add exactArith) t).s.minDiskIOPS
        = (rows.map (·.diskIOPS)).foldl F64.least t.s.minDiskIOPS
      ∧ (rows.foldl (Tally.add exactArith) t).s.minNetMBps
        = (rows.map (·.netMBps)).foldl F64.least t.s.minNetMBps
      ∧ (rows.foldl (Tally.add exactArith) t).s.minConcurrentUsers
        = (rows.map (·.concurrentUsers)).foldl min t.s.minConcurrentUsers
      ∧ (rows.foldl (Tally.add exactArith) t).s.maxConcurrentUsers
        = (rows.map (·.concurrentUsers)).foldl max t.s.maxConcurrentUsers
      ∧ (rows.foldl (Tally.add exactArith) t).sumCPU
        = (rows.map (·.cpuPct)).foldl exactArith.add t.sumCPU
      ∧ (rows.foldl (Tally.add exactArith) t).sumMem
        = (rows.map (·.memPct)).foldl exactArith.add t.sumMem
      ∧ (rows.foldl (Tally.add exactArith) t).sumIOPS
        = (rows.map (·.diskIOPS)).foldl exactArith.add t.sumIOPS
      ∧ (rows.foldl (Tally.add exactArith) t).sumNetMBps
        = (rows.map (·.netMBps)).foldl exactArith.add t.sumNetMBps
      ∧ (rows.foldl (Tally.add exactArith) t).sumUsers
        = (rows.map fun r => F64.fin r.concurrentUsers).foldl exactArith.add t.sumUsers := by
  induction rows generalizing t with
  | nil => exact ⟨rfl, rfl, rfl, rfl, rfl, rfl, rfl, rfl, rfl⟩
  | cons r rows ih => exact ih (t.add exactArith r)

theorem foldl_least_int (l : List ℤ) (a : ℤ) :
    (l.map fun n : ℤ => F64.fin n).foldl F64.least (.fin a) = .fin (l.foldl min a : ℤ) := by
  induction l generalizing a with
  | nil => rfl
  | cons n l ih =>
    rw [List.map_cons, List.foldl_cons, F64.least_fin, ← Int.cast_min, ih, List.foldl_cons]

theorem foldl_peak_int (l : List ℤ) (a : ℤ) :
    (l.map fun n : ℤ => F64.fin n).foldl F64.peak (.fin a) = .fin (l.foldl max a : ℤ) := by
  induction l generalizing a with
  | nil => rfl
  | cons n l ih =>
    rw [List.map_cons, List.foldl_cons, F64.peak_fin, ← Int.cast_max, ih, List.foldl_cons]

/-- The hardware of a server is not negative. -/
structure Summary.Capable (s : Summary) : Prop where
  cores : 0 ≤ s.cpuCores
  ram : ∃ q : ℚ, s.memTotalGB = .fin q ∧ 0 ≤ q

theorem between_refl (q : ℚ) : Between (.fin q) (.fin q) (.fin q) :=
  ⟨q, q, q, rfl, rfl, rfl, le_rfl, le_rfl⟩

theorem Summary.bounded_zero (period : String) : (Summary.zero period).Bounded := by
  have hzero : Between (.fin 0) (.fin 0) (.fin 100) := ⟨0, 0, 100, rfl, rfl, rfl, le_rfl, by norm_num⟩
  exact ⟨between_refl 0, between_refl 0, by simpa [Summary.zero] using between_refl 0,
    ⟨between_refl 0, hzero⟩, ⟨between_refl 0, hzero⟩⟩

/-- The average of a percentage is no more than its peak, and that no more than 100. -/
theorem percent_between {l : List F64} (hne : l ≠ [])
    (hfin : ∀ v ∈ l, v.IsFin ∧ 0 ≤ v.toRat) (hpct : ∀ v ∈ l, v.toRat ≤ 100) :
    Between (.fin 0) (exactArith.div (l.foldl exactArith.add (.fin 0)) (.fin (l.length : ℤ)))
        (l.foldl F64.peak (.fin 0))
      ∧ Between (exactArith.div (l.foldl exactArith.add (.fin 0)) (.fin (l.length : ℤ)))
        (l.foldl F64.peak (.fin 0)) (.fin 100) := by
  obtain ⟨v, hv⟩ := List.exists_mem_of_ne_nil l hne
  have havg := (column_between hv hfin).2
  refine ⟨havg, ?_⟩
  obtain ⟨a, b, c, -, havg, hpeak, -, hle⟩ := havg
  refine ⟨b, c, 100, havg, hpeak, rfl, hle, ?_⟩
  rw [F64.foldl_peak fun v hv => (hfin v hv).1] at hpeak
  obtain ⟨-, -, hchoice⟩ := foldl_max (l.map F64.toRat) 0
  rw [← F64.fin.inj hpeak]
  rcases hchoice with h | h
  · rw [h]
    norm_num
  · obtain ⟨w, hw, heq⟩ := List.mem_map.mp h
    rw [← heq]
    exact hpct w hw

theorem computeServerSummary_bounded {rows : List MetricRow} (period : String)
    (h : ∀ r ∈ rows, r.Plausible) :
    (computeServerSummary exactArith rows period).Bounded
      ∧ (computeServerSummary exactArith rows period).Capable := by
  match rows, h with
  | [], _ =>
    have hzero := Summary.bounded_zero period
    exact ⟨⟨hzero.iops, hzero.net, hzero.users, hzero.cpu, hzero.mem⟩, le_rfl, 0, rfl, le_rfl⟩
  | first :: rest, h =>
    obtain ⟨hcpu, hmem, -, hiops, hnet, hcores, hram, -⟩ :=
      tally_fields (first :: rest) (Tally.start first (first :: rest).length period)
    obtain ⟨hminIOPS, hminNet, hminUsers, hmaxUsers, hsumCPU, hsumMem, hsumIOPS, hsumNet,
      hsumUsers⟩ := tally_columns (first :: rest) (Tally.start first (first :: rest).length period)
    have hcount := tally_rowCount (first :: rest) (Tally.start first (first :: rest).length period)
    have hsummary : computeServerSummary exactArith (first :: rest) period
        = ((first :: rest).foldl (Tally.add exactArith)
          (Tally.start first (first :: rest).length period)).finish exactArith := rfl
    rw [hsummary]
    generalize (first :: rest).foldl (Tally.add exactArith)
      (Tally.start first (first :: rest).length period) = t at *
    -- each column is a list of as many finite values as there are rows
    have hfinite : ∀ f : MetricRow → F64,
        (∀ r, f r ∈ [r.cpuPct, r.memPct, r.memTotalGB, r.diskIOPS, r.netMBps]) →
        ∀ v ∈ (first :: rest).map f, v.IsFin ∧ 0 ≤ v.toRat := by
      intro f hf v hv
      obtain ⟨r, hr, rfl⟩ := List.mem_map.mp hv
      exact (h r hr).finite _ (hf r)
    have hlength : ∀ f : MetricRow → F64, (((first :: rest).map f).length : ℤ) = t.s.rowCount := by
      intro f
      rw [hcount, List.length_map]
      rfl
    have hcolumn := fun f hf => column_between (List.mem_map_of_mem (f := f) List.mem_cons_self)
      (hfinite f hf)
    have hpercent := fun f hf => percent_between (l := (first :: rest).map f) (by simp)
      (hfinite f hf)
    simp only [hlength] at hcolumn hpercent
    refine ⟨⟨?_, ?_, ?_, ?_, ?_⟩, ?_, ?_⟩
    · change Between t.s.minDiskIOPS (exactArith.div t.sumIOPS (.fin t.s.rowCount)) t.s.peakDiskIOPS
      rw [hminIOPS, hsumIOPS, hiops]
      exact (hcolumn (·.diskIOPS) (by simp)).1
    · change Between t.s.minNetMBps (exactArith.div t.sumNetMBps (.fin t.s.rowCount)) t.s.peakNetMBps
      rw [hminNet, hsumNet, hnet]
      exact (hcolumn (·.netMBps) (by simp)).1
    · have husers := (column_between
        (l := (first :: rest).map fun r => F64.fin r.concurrentUsers)
        (List.mem_map_of_mem List.mem_cons_self) fun v hv => by
          obtain ⟨r, hr, rfl⟩ := List.mem_map.mp hv
          exact ⟨rfl, Int.cast_nonneg (h r hr).users⟩).1
      rw [hlength] at husers
      change Between (.fin t.s.minConcurrentUsers) (exactArith.div t.sumUsers (.fin t.s.rowCount))
        (.fin t.s.maxConcurrentUsers)
      rw [hminUsers, hmaxUsers, hsumUsers, ← foldl_least_int, ← foldl_peak_int, List.map_map]
      exact husers
    · change Between (.fin 0) (exactArith.div t.sumCPU (.fin t.s.rowCount)) t.s.peakCPU
        ∧ Between (exactArith.div t.sumCPU (.fin t.s.rowCount)) t.s.peakCPU (.fin 100)
      rw [hsumCPU, hcpu]
      refine hpercent (·.cpuPct) (by simp) fun v hv => ?_
      obtain ⟨r, hr, rfl⟩ := List.mem_map.mp hv
      exact (h r hr).cpuPct
    · change Between (.fin 0) (exactArith.div t.sumMem (.fin t.s.rowCount)) t.s.peakMem
        ∧ Between (exactArith.div t.sumMem (.fin t.s.rowCount)) t.s.peakMem (.fin 100)
      rw [hsumMem, hmem]
      refine hpercent (·.memPct) (by simp) fun v hv => ?_
      obtain ⟨r, hr, rfl⟩ := List.mem_map.mp hv
      exact (h r hr).memPct
    · exact hcores ▸ (h first List.mem_cons_self).cores
    · have hfirst := (h first List.mem_cons_self).finite first.memTotalGB (by simp)
      exact ⟨_, hram.trans hfirst.1, hfirst.2⟩

/-! ## The fleet -/

/-- The loop of `AggregateFleetSummary` keeps the order of what it adds up, and uses no more than the
capacity. -/
structure Fleet.Bounded (f : Fleet) : Prop where
  iops : Between f.fleet.minDiskIOPS f.fleet.avgDiskIOPS f.fleet.peakDiskIOPS
  net : Between f.fleet.minNetMBps f.fleet.avgNetMBps f.fleet.peakNetMBps
  users : Between (.fin f.fleet.minConcurrentUsers) f.fleet.avgConcurrentUsers
    (.fin f.fleet.maxConcurrentUsers)
  cpu : Between (.fin 0) f.avgCPUCores f.peakCPUCores
    ∧ Between f.avgCPUCores f.peakCPUCores (.fin f.fleet.cpuCores)
  mem : Between (.fin 0) f.avgUsedRAMGB f.peakUsedRAMGB
    ∧ Between f.avgUsedRAMGB f.peakUsedRAMGB f.fleet.memTotalGB
  idle : f.fleet.avgCPU = .fin 0 ∧ f.fleet.peakCPU = .fin 0 ∧ f.fleet.avgMem = .fin 0
    ∧ f.fleet.peakMem = .fin 0

/-- The shares of a capacity. -/
theorem share_between {avg peak : F64} {total : ℚ} (htotal : 0 ≤ total)
    (hlow : Between (.fin 0) avg peak) (hhigh : Between avg peak (.fin 100)) :
    Between (.fin 0) (exactArith.share avg (.fin total)) (exactArith.share peak (.fin total))
      ∧ Between (exactArith.share avg (.fin total)) (exactArith.share peak (.fin total))
        (.fin total) := by
  obtain ⟨a, b, c, ha, rfl, rfl, hab, hbc⟩ := hlow
  obtain ⟨b', c', d, hb, hc, hd, -, hcd⟩ := hhigh
  obtain rfl := F64.fin.inj ha
  obtain rfl := F64.fin.inj hc
  obtain rfl := F64.fin.inj hd
  simp only [Arith.share, exact_lit, exact_div (show (100 : ℚ) ≠ 0 by norm_num), exact_mul]
  have hle : b / 100 * total ≤ c / 100 * total :=
    mul_le_mul_of_nonneg_right (by linarith) htotal
  have hpos : 0 ≤ b / 100 * total := mul_nonneg (by linarith) htotal
  have hone : c / 100 * total ≤ total := mul_le_of_le_one_left htotal (by linarith)
  exact ⟨⟨_, _, _, rfl, rfl, rfl, hpos, hle⟩, ⟨_, _, _, rfl, rfl, rfl, hle, hone⟩⟩

theorem Fleet.Bounded.add {f : Fleet} {s : Summary} (h : f.Bounded) (hs : s.Bounded)
    (hc : s.Capable) : (f.add exactArith s).Bounded := by
  obtain ⟨ram, hram, hnonneg⟩ := hc.ram
  have hcpu := share_between (Int.cast_nonneg (R := ℚ) hc.cores) hs.cpu.1 hs.cpu.2
  have hmem := share_between hnonneg hs.mem.1 hs.mem.2
  rw [← hram] at hmem
  have hzero : exactArith.add (.fin 0) (.fin 0) = .fin 0 := by simp
  refine ⟨h.iops.add hs.iops, h.net.add hs.net, ?_, ⟨?_, ?_⟩, ⟨?_, h.mem.2.add hmem.2⟩, h.idle⟩
  · have husers := h.users.add hs.users
    simp only [exact_add, ← Int.cast_add] at husers
    exact husers
  · have := h.cpu.1.add hcpu.1
    rwa [hzero] at this
  · have := h.cpu.2.add hcpu.2
    rw [exact_add, ← Int.cast_add] at this
    exact this
  · have := h.mem.1.add hmem.1
    rwa [hzero] at this

theorem Fleet.Bounded.run {servers : List ServerSummary} {f : Fleet} (h : f.Bounded)
    (hs : ∀ sv ∈ servers, sv.summary.Bounded ∧ sv.summary.Capable) :
    (servers.foldl (fun f sv => f.add exactArith sv.summary) f).Bounded := by
  induction servers generalizing f with
  | nil => exact h
  | cons sv servers ih =>
    obtain ⟨hb, hc⟩ := hs sv List.mem_cons_self
    exact ih (h.add hb hc) fun sv' hsv' => hs sv' (List.mem_cons_of_mem sv hsv')

theorem fleetStart_bounded (period : String) (count : ℕ) : (fleetStart period count).Bounded := by
  have husers : Between (.fin (0 : ℤ)) (.fin 0) (.fin (0 : ℤ)) := by simpa using between_refl 0
  have hcpu : Between (.fin 0) (.fin 0) (.fin (0 : ℤ)) := by simpa using between_refl 0
  exact ⟨between_refl 0, between_refl 0, husers, ⟨between_refl 0, hcpu⟩,
    ⟨between_refl 0, between_refl 0⟩, rfl, rfl, rfl, rfl⟩

/-- What is used, in per cent of a capacity. -/
theorem percent_share {avg peak : F64} {total : ℚ} (htotal : 0 < total)
    (hlow : Between (.fin 0) avg peak) (hhigh : Between avg peak (.fin total)) :
    Between (.fin 0) (exactArith.percent avg (.fin total)) (exactArith.percent peak (.fin total))
      ∧ Between (exactArith.percent avg (.fin total)) (exactArith.percent peak (.fin total))
        (.fin 100) := by
  obtain ⟨a, b, c, ha, rfl, rfl, hab, hbc⟩ := hlow
  obtain ⟨b', c', d, hb, hc, hd, -, hcd⟩ := hhigh
  obtain rfl := F64.fin.inj ha
  obtain rfl := F64.fin.inj hc
  obtain rfl := F64.fin.inj hd
  simp only [Arith.percent, exact_lit, exact_div htotal.ne', exact_mul]
  have hpos : 0 ≤ b / total := div_nonneg hab htotal.le
  have hle : b / total ≤ c / total := (div_le_div_iff_of_pos_right htotal).mpr hbc
  have hone : c / total ≤ 1 := (div_le_one htotal).mpr hcd
  exact ⟨⟨_, _, _, rfl, rfl, rfl, by linarith, by linarith⟩,
    ⟨_, _, _, rfl, rfl, rfl, by linarith, by linarith⟩⟩

theorem Fleet.Bounded.finish {f : Fleet} (h : f.Bounded) : (f.finish exactArith).Bounded := by
  obtain ⟨havg, hpeak, havgMem, hpeakMem⟩ := h.idle
  obtain ⟨-, -, ram, -, -, hram, -, -⟩ := h.mem.2
  have hidle : Between (.fin 0) (.fin 0) (.fin 0) ∧ Between (.fin 0) (.fin 0) (.fin 100) :=
    ⟨between_refl 0, 0, 0, 100, rfl, rfl, rfl, le_rfl, by norm_num⟩
  have hcpu : 0 < f.fleet.cpuCores →
      Between (.fin 0) (exactArith.percent f.avgCPUCores (.fin f.fleet.cpuCores))
          (exactArith.percent f.peakCPUCores (.fin f.fleet.cpuCores))
        ∧ Between (exactArith.percent f.avgCPUCores (.fin f.fleet.cpuCores))
          (exactArith.percent f.peakCPUCores (.fin f.fleet.cpuCores)) (.fin 100) :=
    fun hpos => percent_share (Int.cast_pos.mpr hpos) h.cpu.1 h.cpu.2
  have hmem : (F64.fin 0).lt f.fleet.memTotalGB = true →
      Between (.fin 0) (exactArith.percent f.avgUsedRAMGB f.fleet.memTotalGB)
          (exactArith.percent f.peakUsedRAMGB f.fleet.memTotalGB)
        ∧ Between (exactArith.percent f.avgUsedRAMGB f.fleet.memTotalGB)
          (exactArith.percent f.peakUsedRAMGB f.fleet.memTotalGB) (.fin 100) := by
    intro hpos
    have hm := h.mem
    rw [hram] at hpos hm ⊢
    exact percent_share (fin_lt_fin.mp hpos) hm.1 hm.2
  unfold Fleet.finish computeSpecSuggestions
  dsimp only
  split_ifs with hc hm hm
  · exact ⟨h.iops, h.net, h.users, hcpu hc, hmem hm⟩
  · exact ⟨h.iops, h.net, h.users, hcpu hc, by rw [havgMem, hpeakMem]; exact hidle⟩
  · exact ⟨h.iops, h.net, h.users, by rw [havg, hpeak]; exact hidle, hmem hm⟩
  · exact ⟨h.iops, h.net, h.users, by rw [havg, hpeak]; exact hidle,
      by rw [havgMem, hpeakMem]; exact hidle⟩

theorem aggregate_bounded {servers : List ServerSummary} (period : String)
    (hs : ∀ sv ∈ servers, sv.summary.Bounded ∧ sv.summary.Capable) :
    (aggregateFleetSummary exactArith servers period).Bounded := by
  match servers, hs with
  | [], _ => exact Summary.bounded_zero period
  | [sv], hs =>
    have hb := (hs sv List.mem_cons_self).1
    exact ⟨hb.iops, hb.net, hb.users, hb.cpu, hb.mem⟩
  | sv :: sv' :: rest, hs =>
    rw [aggregate_many period (by simp)]
    exact ((fleetStart_bounded period _).run hs).finish

theorem perServer_bounded {rows : List MetricRow} (period : String)
    (h : ∀ r ∈ rows, r.Plausible) {sv : ServerSummary}
    (hsv : sv ∈ computePerServerSummaries exactArith rows period) :
    sv.summary.Bounded ∧ sv.summary.Capable := by
  obtain ⟨keys, -, -, hgroups⟩ := groups_eq rows
  rw [computePerServerSummaries, hgroups, List.map_map] at hsv
  obtain ⟨key, -, rfl⟩ := List.mem_map.mp hsv
  exact computeServerSummary_bounded period fun r hr => h r (List.mem_of_mem_filter hr)

/-- The summary of a fleet does not depend on how the rows of the servers are interleaved, counts all
rows, and has its averages between the least and the peak values. -/
theorem computeSummary_sound (period : String) :
    (∀ rows rows' : List MetricRow, (∀ key, rowsOf rows key = rowsOf rows' key) →
        computeSummary exactArith rows period = computeSummary exactArith rows' period)
      ∧ (∀ rows, (computeSummary exactArith rows period).rowCount = rows.length)
      ∧ ∀ rows : List MetricRow, (∀ r ∈ rows, r.Plausible) →
        (computeSummary exactArith rows period).Bounded
          ∧ ∀ sv ∈ computePerServerSummaries exactArith rows period, sv.summary.Bounded := by
  refine ⟨fun rows rows' h => ?_, computeSummary_rowCount period, fun rows h => ?_⟩
  · exact aggregate_perm period ((groups_perm h).map _)
  · exact ⟨aggregate_bounded period fun sv hsv => perServer_bounded period h hsv,
      fun sv hsv => (perServer_bounded period h hsv).1⟩

/-- The same measurements of another server. -/
def otherRow : MetricRow := { tightRow with serverID := "agent-b" }

/-- Two servers, whose rows come in either order. -/
theorem computeSummary_sound_sample :
    computeSummary exactArith [tightRow, otherRow] "" = computeSummary exactArith [otherRow, tightRow] ""
      ∧ (computeSummary exactArith [tightRow, otherRow] "").Bounded := by
  have hkey : tightRow.serverKey = "agent-a" := by decide
  have hkey' : otherRow.serverKey = "agent-b" := by decide
  refine ⟨(computeSummary_sound "").1 _ _ fun key => ?_,
    ((computeSummary_sound "").2.2 _ fun r hr => ?_).1⟩
  · by_cases ha : "agent-a" = key
    · subst ha
      simp [rowsOf, hkey, hkey']
    · simp [rowsOf, hkey, ha, List.filter_cons]
  · have hfin : ∀ q : ℚ, 0 ≤ q → (F64.fin q).IsFin ∧ 0 ≤ (F64.fin q).toRat := fun q hq => ⟨rfl, hq⟩
    simp only [List.mem_cons, List.not_mem_nil, or_false] at hr
    rcases hr with rfl | rfl
    all_goals
      refine ⟨?_, by norm_num [otherRow, tightRow, F64.toRat],
        by norm_num [otherRow, tightRow, F64.toRat], by decide, by decide⟩
      simp only [otherRow, tightRow, List.forall_mem_cons, List.not_mem_nil, false_imp_iff,
        implies_true, and_true]
      exact ⟨hfin _ (by norm_num), hfin _ (by norm_num), hfin _ (by norm_num),
        hfin _ (by norm_num), hfin _ (by norm_num)⟩

end WMonitor
