import WMonitor.Proofs.Arith

/-!
# What the suggested sizes cover

The suggestions of a summary against what its rows used, in exact arithmetic. Memory, disk, IOPS and
network get 20 % more than the peak and a floor, and cover it. The number of CPUs is rounded to the
nearest, which takes away more than the 20 % just when the peak is between 1 and 1.25 or between 2
and 2 1/12 (`suggestions_iff`).
-/

namespace WMonitor

/-! ## Finite values -/

namespace F64

def toRat : F64 → ℚ
  | fin q => q
  | _ => 0

def IsFin (v : F64) : Prop := v = fin v.toRat

theorem peak_fin (a x : ℚ) : (fin a).peak (fin x) = fin (max a x) := by
  unfold peak
  split_ifs with h
  · rw [max_eq_right (fin_lt_fin.1 h).le]
  · rw [max_eq_left (not_lt.1 (mt fin_lt_fin.2 h))]

theorem least_fin (a x : ℚ) : (fin a).least (fin x) = fin (min a x) := by
  unfold least
  split_ifs with h
  · rw [min_eq_right (fin_lt_fin.1 h).le]
  · rw [min_eq_left (not_lt.1 (mt fin_lt_fin.2 h))]

theorem atLeast_fin (floor x : ℚ) : atLeast (fin floor) (fin x) = fin (max floor x) := by
  unfold atLeast
  split_ifs with h
  · rw [max_eq_left (fin_lt_fin.1 h).le]
  · rw [max_eq_right (not_lt.1 (mt fin_lt_fin.2 h))]

theorem foldl_peak {l : List F64} (h : ∀ v ∈ l, v.IsFin) (a : ℚ) :
    l.foldl peak (fin a) = fin ((l.map toRat).foldl max a) := by
  induction l generalizing a with
  | nil => rfl
  | cons v l ih =>
    rw [List.foldl_cons, h v List.mem_cons_self, peak_fin]
    exact ih (fun w hw => h w (List.mem_cons_of_mem v hw)) _

theorem foldl_least {l : List F64} (h : ∀ v ∈ l, v.IsFin) (a : ℚ) :
    l.foldl least (fin a) = fin ((l.map toRat).foldl min a) := by
  induction l generalizing a with
  | nil => rfl
  | cons v l ih =>
    rw [List.foldl_cons, h v List.mem_cons_self, least_fin]
    exact ih (fun w hw => h w (List.mem_cons_of_mem v hw)) _

end F64

/-- A fold that keeps one of two values, in favour of `r`, ends with one that `r` favours most. -/
theorem foldl_choice {β : Type*} {r : β → β → Prop} (htrans : ∀ a b c, r a b → r b c → r a c)
    (hrefl : ∀ a, r a a) {f : β → β → β} (hf : ∀ a b, r (f a b) a ∧ r (f a b) b)
    (hchoice : ∀ a b, f a b = a ∨ f a b = b) (l : List β) (a : β) :
    r (l.foldl f a) a ∧ (∀ b ∈ l, r (l.foldl f a) b) ∧ (l.foldl f a = a ∨ l.foldl f a ∈ l) := by
  induction l generalizing a with
  | nil => exact ⟨hrefl a, by simp, .inl rfl⟩
  | cons b l ih =>
    obtain ⟨h₁, h₂, h₃⟩ := ih (f a b)
    refine ⟨htrans _ _ _ h₁ (hf a b).1, ?_, ?_⟩
    · intro b' hb'
      rcases List.mem_cons.1 hb' with rfl | hb'
      · exact htrans _ _ _ h₁ (hf a b').2
      · exact h₂ b' hb'
    · rcases h₃ with h₃ | h₃
      · rcases hchoice a b with h | h
        · exact .inl (h₃.trans h)
        · exact .inr (List.mem_cons.2 (.inl (h₃.trans h)))
      · exact .inr (List.mem_cons_of_mem b h₃)

theorem foldl_max (l : List ℚ) (a : ℚ) :
    a ≤ l.foldl max a ∧ (∀ b ∈ l, b ≤ l.foldl max a) ∧ (l.foldl max a = a ∨ l.foldl max a ∈ l) :=
  foldl_choice (r := fun a b => b ≤ a) (fun _ _ _ h h' => h'.trans h) le_refl
    (fun a b => ⟨le_max_left a b, le_max_right a b⟩) max_choice l a

theorem foldl_min (l : List ℚ) (a : ℚ) :
    l.foldl min a ≤ a ∧ (∀ b ∈ l, l.foldl min a ≤ b) ∧ (l.foldl min a = a ∨ l.foldl min a ∈ l) :=
  foldl_choice (r := fun a b => a ≤ b) (fun _ _ _ => le_trans) le_refl
    (fun a b => ⟨min_le_left a b, min_le_right a b⟩) min_choice l a

/-! ## Sizes -/

/-- The peaks that rounding takes below themselves. -/
def Tight (x : ℚ) : Prop := (1 < x ∧ x < 5 / 4) ∨ (2 < x ∧ x < 25 / 12)

theorem sized_eq (x factor : ℚ) {floor : ℤ} (hf : 0 ≤ floor) :
    exactArith.sized (.fin x) factor floor = max floor ⌊x * factor + 1 / 2⌋ := by
  have htoInt : ∀ q : ℚ, max floor (exactArith.toInt (.fin q)) = max floor ⌊q⌋ := by
    intro q
    change max floor (if q < 0 then -⌊-q⌋ else ⌊q⌋) = max floor ⌊q⌋
    split_ifs with hq
    · have h₁ : 0 ≤ ⌊-q⌋ := Int.floor_nonneg.2 (by linarith)
      have h₂ : ⌊q⌋ < 0 := Int.floor_lt.2 (by simpa using hq)
      omega
    · rfl
  rw [← htoInt, Arith.sized, exact_lit, exact_lit, exact_mul, exact_add]
  split_ifs with h
  · exact (max_eq_left h.le).symm
  · exact (max_eq_right (not_lt.1 h)).symm

/-- The CPUs are enough unless rounding takes away more than the margin. -/
theorem le_sized_iff (x : ℚ) :
    x ≤ (exactArith.sized (.fin x) (6 / 5) 1 : ℤ) ↔ ¬ Tight x := by
  rw [sized_eq x _ (by norm_num), Int.cast_max, Int.cast_one, le_max_iff]
  have hle := Int.floor_le (x * (6 / 5) + 1 / 2)
  have hlt := Int.lt_floor_add_one (x * (6 / 5) + 1 / 2)
  generalize ⌊x * (6 / 5) + 1 / 2⌋ = n at *
  constructor
  · rintro h (⟨h₁, h₂⟩ | ⟨h₁, h₂⟩)
    · have hn : n < 2 := by
        have : (n : ℚ) < 2 := by linarith
        exact_mod_cast this
      have hn' : (n : ℚ) ≤ 1 := by exact_mod_cast Int.lt_add_one_iff.1 hn
      rcases h with h | h <;> linarith
    · have hn : n < 3 := by
        have : (n : ℚ) < 3 := by linarith
        exact_mod_cast this
      have hn' : (n : ℚ) ≤ 2 := by exact_mod_cast Int.lt_add_one_iff.1 hn
      rcases h with h | h <;> linarith
  · intro ht
    by_contra h
    simp only [not_or, not_le] at h
    obtain ⟨h₁, h₂⟩ := h
    -- rounding loses at most a half, the margin of three CPUs is more than that
    have hn : n < 3 := by
      have : (n : ℚ) < 3 := by linarith
      exact_mod_cast this
    have hn' : 0 < n := by
      have : (0 : ℚ) < n := by linarith
      exact_mod_cast this
    obtain rfl | rfl : n = 1 ∨ n = 2 := by omega
    · exact ht (.inl ⟨h₁, by push_cast at hlt; linarith⟩)
    · exact ht (.inr ⟨by push_cast at h₂; linarith, by push_cast at hlt; linarith⟩)

theorem le_sized_of_floor (x : ℚ) : x ≤ (exactArith.sized (.fin x) (6 / 5) 100 : ℤ) := by
  rw [sized_eq x _ (by norm_num), Int.cast_max, le_max_iff]
  have hlt := Int.lt_floor_add_one (x * (6 / 5) + 1 / 2)
  by_cases hx : x ≤ 100
  · exact .inl (by exact_mod_cast hx)
  · right
    linarith

theorem sized_le_sized (x : ℚ) {floor floor' : ℤ} (hf : 0 ≤ floor) (hff : floor ≤ floor') :
    exactArith.sized (.fin x) (6 / 5) floor ≤ exactArith.sized (.fin x) 2 floor' := by
  rw [sized_eq x _ hf, sized_eq x _ (hf.trans hff)]
  refine max_le (hff.trans (le_max_left _ _)) ?_
  by_cases hx : 0 ≤ x
  · exact (Int.floor_le_floor (by linarith)).trans (le_max_right _ _)
  · have : ⌊x * (6 / 5) + 1 / 2⌋ < 1 := Int.floor_lt.2 (by push_cast; linarith)
    exact (Int.lt_add_one_iff.1 this).trans ((hf.trans hff).trans (le_max_left _ _))

theorem scaled_eq (x factor floor : ℚ) :
    exactArith.scaled (.fin x) factor floor = .fin (max floor (x * factor)) := by
  rw [Arith.scaled, exact_lit, exact_lit, exact_mul, F64.atLeast_fin]

/-! ## Uses -/

/-- What is used of each resource: cores, GB of memory and disk, operations and MB per second. -/
@[ext]
structure Use where
  cpu : ℚ
  ram : ℚ
  disk : ℚ
  iops : ℚ
  net : ℚ

def Use.sum (us : List Use) : Use :=
  ⟨(us.map (·.cpu)).sum, (us.map (·.ram)).sum, (us.map (·.disk)).sum, (us.map (·.iops)).sum,
    (us.map (·.net)).sum⟩

def MetricRow.use (r : MetricRow) : Use :=
  ⟨r.cpuPct.toRat / 100 * r.cpuCores, r.memPct.toRat / 100 * r.memTotalGB.toRat,
    r.diskTotalGB.toRat - r.diskFreeGB.toRat, r.diskIOPS.toRat, r.netMBps.toRat⟩

namespace Summary

variable {s : Summary} {u : Use}

/-- The size is finite and at least `q`. -/
def AtLeast (v : F64) (q : ℚ) : Prop := ∃ p, v = .fin p ∧ q ≤ p

/-- The minimal sizes are enough for the use. -/
structure Covers (s : Summary) (u : Use) : Prop where
  cpu : u.cpu ≤ s.suggestedMinCPU
  ram : AtLeast s.suggestedMinRAM u.ram
  disk : AtLeast s.suggestedMinDiskGB u.disk
  iops : u.iops ≤ s.suggestedMinIOPS
  net : AtLeast s.suggestedMinNetMBps u.net

/-- The recommended sizes are at least the minimal ones. -/
structure Ordered (s : Summary) : Prop where
  cpu : s.suggestedMinCPU ≤ s.suggestedRecCPU
  ram : ∃ p, s.suggestedMinRAM = .fin p ∧ AtLeast s.suggestedRecRAM p
  disk : ∃ p, s.suggestedMinDiskGB = .fin p ∧ AtLeast s.suggestedRecDiskGB p
  iops : s.suggestedMinIOPS ≤ s.suggestedRecIOPS
  net : ∃ p, s.suggestedMinNetMBps = .fin p ∧ AtLeast s.suggestedRecNetMBps p

/-- The sizes are those `computeSpecSuggestions` finds for the use. -/
def SizedFor (s : Summary) (u : Use) : Prop :=
  ∃ s₀ : Summary, s₀.peakDiskIOPS = .fin u.iops ∧ s₀.peakNetMBps = .fin u.net
    ∧ s = computeSpecSuggestions exactArith s₀ (.fin u.cpu) (.fin u.ram) (.fin u.disk)

theorem SizedFor.ordered (h : s.SizedFor u) : s.Ordered := by
  obtain ⟨s₀, hiops, hnet, rfl⟩ := h
  have hscaled : ∀ x floor floor' : ℚ, 0 ≤ floor → floor ≤ floor' →
      ∃ p, exactArith.scaled (.fin x) (6 / 5) floor = .fin p
        ∧ AtLeast (exactArith.scaled (.fin x) 2 floor') p := by
    intro x floor floor' hf hff
    refine ⟨_, scaled_eq x _ _, _, scaled_eq x _ _, max_le (hff.trans (le_max_left _ _)) ?_⟩
    by_cases hx : 0 ≤ x
    · exact le_max_of_le_right (by linarith)
    · exact le_max_of_le_left (by linarith)
  constructor
  · exact sized_le_sized _ (by norm_num) (by norm_num)
  · exact hscaled _ _ _ (by norm_num) (by norm_num)
  · exact hscaled _ _ _ (by norm_num) (by norm_num)
  · simp only [computeSpecSuggestions, hiops]
    exact sized_le_sized _ (by norm_num) (by norm_num)
  · simp only [computeSpecSuggestions, hnet]
    exact hscaled _ _ _ (by norm_num) (by norm_num)

/-- Sizes for the use `u` cover what is no more than that, the CPUs but for the rounding. -/
theorem SizedFor.covers (h : s.SizedFor u) {u' : Use} (hram : u'.ram ≤ max 0 u.ram)
    (hdisk : u'.disk ≤ max 0 u.disk) (hiops : u'.iops ≤ u.iops) (hnet : u'.net ≤ max 0 u.net)
    (hcpu : u'.cpu ≤ exactArith.sized (.fin u.cpu) (6 / 5) 1) : s.Covers u' := by
  obtain ⟨s₀, hi, hn, rfl⟩ := h
  have hscaled : ∀ x y floor : ℚ, 0 ≤ floor → y ≤ max 0 x →
      AtLeast (exactArith.scaled (.fin x) (6 / 5) floor) y := by
    intro x y floor hf hy
    refine ⟨_, scaled_eq x _ _, hy.trans (max_le (le_max_of_le_left hf) ?_)⟩
    by_cases hx : 0 ≤ x
    · exact le_max_of_le_right (by linarith)
    · exact le_max_of_le_left (by linarith)
  constructor
  · exact hcpu
  · exact hscaled _ _ _ (by norm_num) hram
  · exact hscaled _ _ _ (by norm_num) hdisk
  · simp only [computeSpecSuggestions, hi]
    exact hiops.trans (le_sized_of_floor _)
  · simp only [computeSpecSuggestions, hn]
    exact hscaled _ _ _ (by norm_num) hnet

theorem SizedFor.cpu (h : s.SizedFor u) :
    s.suggestedMinCPU = exactArith.sized (.fin u.cpu) (6 / 5) 1 := by
  obtain ⟨s₀, -, -, rfl⟩ := h
  rfl

end Summary

/-! ## The rows of a server -/

/-- Rows of one server: of the same hardware, with finite values and true percentages. -/
structure ServerRows where
  rows : List MetricRow
  nonempty : rows ≠ []
  cores : ∀ r ∈ rows, ∀ r' ∈ rows, r.cpuCores = r'.cpuCores
  ram : ∀ r ∈ rows, ∀ r' ∈ rows, r.memTotalGB = r'.memTotalGB
  disk : ∀ r ∈ rows, ∀ r' ∈ rows, r.diskTotalGB = r'.diskTotalGB
  finite : ∀ r ∈ rows, ∀ v ∈ [r.cpuPct, r.memPct, r.diskFreeGB, r.memTotalGB, r.diskTotalGB,
    r.diskIOPS, r.netMBps], v.IsFin
  cpuPct : ∀ r ∈ rows, 0 ≤ r.cpuPct.toRat ∧ r.cpuPct.toRat ≤ 100
  memPct : ∀ r ∈ rows, 0 ≤ r.memPct.toRat ∧ r.memPct.toRat ≤ 100

/-- The use at the highest percentages, the least free space and the highest rates. -/
structure ServerRows.IsPeak (w : ServerRows) (u : Use) : Prop where
  cpu : ∃ r ∈ w.rows, u.cpu = r.use.cpu ∧ ∀ r' ∈ w.rows, r'.cpuPct.toRat ≤ r.cpuPct.toRat
  ram : ∃ r ∈ w.rows, u.ram = r.use.ram ∧ ∀ r' ∈ w.rows, r'.memPct.toRat ≤ r.memPct.toRat
  disk : ∃ r ∈ w.rows, u.disk = r.use.disk
    ∧ ∀ r' ∈ w.rows, r.diskFreeGB.toRat ≤ r'.diskFreeGB.toRat
  iops : ∃ r ∈ w.rows, u.iops = r.use.iops ∧ ∀ r' ∈ w.rows, r'.use.iops ≤ r.use.iops
  net : ∃ r ∈ w.rows, u.net = r.use.net ∧ ∀ r' ∈ w.rows, r'.use.net ≤ r.use.net

/-- What the loop of `computeServerSummary` finds is a fold of each column. -/
theorem tally_fields (rows : List MetricRow) (t : Tally) :
    (rows.foldl (Tally.add exactArith) t).s.peakCPU
        = (rows.map (·.cpuPct)).foldl F64.peak t.s.peakCPU
      ∧ (rows.foldl (Tally.add exactArith) t).s.peakMem
        = (rows.map (·.memPct)).foldl F64.peak t.s.peakMem
      ∧ (rows.foldl (Tally.add exactArith) t).s.minDiskFreeGB
        = (rows.map (·.diskFreeGB)).foldl F64.least t.s.minDiskFreeGB
      ∧ (rows.foldl (Tally.add exactArith) t).s.peakDiskIOPS
        = (rows.map (·.diskIOPS)).foldl F64.peak t.s.peakDiskIOPS
      ∧ (rows.foldl (Tally.add exactArith) t).s.peakNetMBps
        = (rows.map (·.netMBps)).foldl F64.peak t.s.peakNetMBps
      ∧ (rows.foldl (Tally.add exactArith) t).s.cpuCores = t.s.cpuCores
      ∧ (rows.foldl (Tally.add exactArith) t).s.memTotalGB = t.s.memTotalGB
      ∧ (rows.foldl (Tally.add exactArith) t).s.diskTotalGB = t.s.diskTotalGB := by
  induction rows generalizing t with
  | nil => exact ⟨rfl, rfl, rfl, rfl, rfl, rfl, rfl, rfl⟩
  | cons r rows ih => exact ih (t.add exactArith r)

/-- The use with nothing below zero where the summaries start from there. -/
def Use.floored (u : Use) : Use :=
  { u with disk := max 0 u.disk, iops := max 0 u.iops, net := max 0 u.net }

/-- The summary holds the peaks of the use. -/
structure Summary.Measures (s : Summary) (u : Use) : Prop where
  cpu : ∃ pct, s.peakCPU = .fin pct ∧ u.cpu = pct / 100 * s.cpuCores
  ram : ∃ pct total, s.peakMem = .fin pct ∧ s.memTotalGB = .fin total ∧ u.ram = pct / 100 * total
  disk : ∃ total free, s.diskTotalGB = .fin total ∧ s.minDiskFreeGB = .fin free
    ∧ u.disk = total - free
  iops : s.peakDiskIOPS = .fin (max 0 u.iops)
  net : s.peakNetMBps = .fin (max 0 u.net)

theorem Summary.Measures.shares {s : Summary} {u : Use} (h : s.Measures u) :
    exactArith.share s.peakCPU (exactArith.ofInt s.cpuCores) = .fin u.cpu
      ∧ exactArith.share s.peakMem s.memTotalGB = .fin u.ram
      ∧ exactArith.usedDisk s.diskTotalGB s.minDiskFreeGB = .fin (max 0 u.disk) := by
  obtain ⟨pct, hpct, hcpu⟩ := h.cpu
  obtain ⟨mem, total, hmem, htotal, hram⟩ := h.ram
  obtain ⟨disk, free, hd, hfree, hdisk⟩ := h.disk
  refine ⟨?_, ?_, ?_⟩
  · rw [hpct, Arith.share, exact_lit, exact_div (by norm_num), exact_ofInt, exact_mul, hcpu]
  · rw [hmem, htotal, Arith.share, exact_lit, exact_div (by norm_num), exact_mul, hram]
  · rw [hd, hfree, Arith.usedDisk, exact_sub, F64.atLeast_fin, hdisk]

namespace ServerRows

variable {w : ServerRows} {u u' : Use} {period : String}

theorem IsPeak.unique (h : w.IsPeak u) (h' : w.IsPeak u') : u = u' := by
  ext
  · obtain ⟨r, hr, hu, hmax⟩ := h.cpu
    obtain ⟨r', hr', hu', hmax'⟩ := h'.cpu
    rw [hu, hu']
    simp only [MetricRow.use, le_antisymm (hmax' r hr) (hmax r' hr'), w.cores r hr r' hr']
  · obtain ⟨r, hr, hu, hmax⟩ := h.ram
    obtain ⟨r', hr', hu', hmax'⟩ := h'.ram
    rw [hu, hu']
    simp only [MetricRow.use, le_antisymm (hmax' r hr) (hmax r' hr'), w.ram r hr r' hr']
  · obtain ⟨r, hr, hu, hmin⟩ := h.disk
    obtain ⟨r', hr', hu', hmin'⟩ := h'.disk
    rw [hu, hu']
    simp only [MetricRow.use, le_antisymm (hmin r' hr') (hmin' r hr), w.disk r hr r' hr']
  · obtain ⟨r, hr, hu, hmax⟩ := h.iops
    obtain ⟨r', hr', hu', hmax'⟩ := h'.iops
    rw [hu, hu']
    exact le_antisymm (hmax' r hr) (hmax r' hr')
  · obtain ⟨r, hr, hu, hmax⟩ := h.net
    obtain ⟨r', hr', hu', hmax'⟩ := h'.net
    rw [hu, hu']
    exact le_antisymm (hmax' r hr) (hmax r' hr')

/-- The peak of a column, as a fold from zero on finds it. -/
theorem exists_max (w : ServerRows) (f : MetricRow → F64) (hfin : ∀ r ∈ w.rows, (f r).IsFin) :
    ∃ r ∈ w.rows, (∀ r' ∈ w.rows, (f r').toRat ≤ (f r).toRat)
      ∧ (w.rows.map f).foldl F64.peak (.fin 0) = .fin (max 0 (f r).toRat) := by
  obtain ⟨r, hr, hmax⟩ := Finset.exists_max_image w.rows.toFinset (fun r => (f r).toRat)
    (List.toFinset_nonempty_iff _ |>.2 w.nonempty)
  simp only [List.mem_toFinset] at hr hmax
  refine ⟨r, hr, hmax, ?_⟩
  rw [F64.foldl_peak (by simpa using hfin)]
  obtain ⟨h₁, h₂, h₃⟩ := foldl_max ((w.rows.map f).map F64.toRat) 0
  congr 1
  refine le_antisymm ?_ (max_le h₁ (h₂ _ (by simpa using ⟨r, hr, rfl⟩)))
  rcases h₃ with h₃ | h₃
  · rw [h₃]
    exact le_max_left _ _
  · simp only [List.map_map, List.mem_map, Function.comp_apply] at h₃
    obtain ⟨r', hr', h₃⟩ := h₃
    rw [List.map_map, ← h₃]
    exact le_max_of_le_right (hmax r' hr')

/-- The least value of a column, as a fold from one of its rows on finds it. -/
theorem exists_min (w : ServerRows) (f : MetricRow → F64) (hfin : ∀ r ∈ w.rows, (f r).IsFin)
    {first : MetricRow} (hfirst : first ∈ w.rows) :
    ∃ r ∈ w.rows, (∀ r' ∈ w.rows, (f r).toRat ≤ (f r').toRat)
      ∧ (w.rows.map f).foldl F64.least (f first) = .fin (f r).toRat := by
  obtain ⟨r, hr, hmin⟩ := Finset.exists_min_image w.rows.toFinset (fun r => (f r).toRat)
    (List.toFinset_nonempty_iff _ |>.2 w.nonempty)
  simp only [List.mem_toFinset] at hr hmin
  refine ⟨r, hr, hmin, ?_⟩
  rw [hfin first hfirst, F64.foldl_least (by simpa using hfin)]
  obtain ⟨h₁, h₂, h₃⟩ := foldl_min ((w.rows.map f).map F64.toRat) (f first).toRat
  congr 1
  refine le_antisymm (h₂ _ (by simpa using ⟨r, hr, rfl⟩)) ?_
  rcases h₃ with h₃ | h₃
  · rw [h₃]
    exact hmin first hfirst
  · simp only [List.map_map, List.mem_map, Function.comp_apply] at h₃
    obtain ⟨r', hr', h₃⟩ := h₃
    rw [List.map_map, ← h₃]
    exact hmin r' hr'

/-- The summary of the rows holds their peaks, and has the sizes for them. -/
theorem exists_peak (w : ServerRows) (period : String) :
    ∃ u, w.IsPeak u ∧ (computeServerSummary exactArith w.rows period).Measures u
      ∧ (computeServerSummary exactArith w.rows period).SizedFor u.floored := by
  obtain ⟨rc, hrc, hcmax, hcfold⟩ := w.exists_max (·.cpuPct) fun r hr =>
    w.finite r hr _ (by simp)
  obtain ⟨rm, hrm, hmmax, hmfold⟩ := w.exists_max (·.memPct) fun r hr =>
    w.finite r hr _ (by simp)
  obtain ⟨ri, hri, himax, hifold⟩ := w.exists_max (·.diskIOPS) fun r hr =>
    w.finite r hr _ (by simp)
  obtain ⟨rn, hrn, hnmax, hnfold⟩ := w.exists_max (·.netMBps) fun r hr =>
    w.finite r hr _ (by simp)
  obtain ⟨first, rest, hrows⟩ := List.exists_cons_of_ne_nil w.nonempty
  have hfirst : first ∈ w.rows := by
    rw [hrows]
    exact List.mem_cons_self
  obtain ⟨rd, hrd, hdmin, hdfold⟩ := w.exists_min (·.diskFreeGB) (fun r hr =>
    w.finite r hr _ (by simp)) hfirst
  obtain ⟨hcpu, hmem, hfree, hiops, hnet, hcores, hram, hdisk⟩ :=
    tally_fields w.rows (Tally.start first w.rows.length period)
  have hsummary : computeServerSummary exactArith w.rows period
      = (w.rows.foldl (Tally.add exactArith)
        (Tally.start first w.rows.length period)).finish exactArith := by
    rw [hrows]
    rfl
  generalize w.rows.foldl (Tally.add exactArith) (Tally.start first w.rows.length period) = t at *
  have hcpu : t.s.peakCPU = .fin rc.cpuPct.toRat := by
    rw [hcpu, ← max_eq_right (w.cpuPct rc hrc).1]
    exact hcfold
  have hmem : t.s.peakMem = .fin rm.memPct.toRat := by
    rw [hmem, ← max_eq_right (w.memPct rm hrm).1]
    exact hmfold
  have hfree : t.s.minDiskFreeGB = .fin rd.diskFreeGB.toRat := hfree.trans hdfold
  have hiops : t.s.peakDiskIOPS = .fin (max 0 ri.diskIOPS.toRat) := hiops.trans hifold
  have hnet : t.s.peakNetMBps = .fin (max 0 rn.netMBps.toRat) := hnet.trans hnfold
  have hcores : t.s.cpuCores = rc.cpuCores := hcores.trans (w.cores first hfirst rc hrc)
  have hram : t.s.memTotalGB = .fin rm.memTotalGB.toRat :=
    hram.trans ((w.ram first hfirst rm hrm).trans (w.finite rm hrm _ (by simp)))
  have hdisk : t.s.diskTotalGB = .fin rd.diskTotalGB.toRat :=
    hdisk.trans ((w.disk first hfirst rd hrd).trans (w.finite rd hrd _ (by simp)))
  let u : Use := ⟨rc.use.cpu, rm.use.ram, rd.use.disk, ri.use.iops, rn.use.net⟩
  have hmeasures : (computeServerSummary exactArith w.rows period).Measures u := by
    rw [hsummary]
    constructor
    · exact ⟨_, hcpu, by simp [Tally.finish, computeSpecSuggestions, hcores, u, MetricRow.use]⟩
    · exact ⟨_, _, hmem, hram, rfl⟩
    · exact ⟨_, _, hdisk, hfree, rfl⟩
    · exact hiops
    · exact hnet
  refine ⟨u, ⟨⟨rc, hrc, rfl, hcmax⟩, ⟨rm, hrm, rfl, hmmax⟩, ⟨rd, hrd, rfl, hdmin⟩,
    ⟨ri, hri, rfl, himax⟩, ⟨rn, hrn, rfl, hnmax⟩⟩, hmeasures, ?_⟩
  obtain ⟨h₁, h₂, h₃⟩ := hmeasures.shares
  rw [hsummary] at h₁ h₂ h₃ ⊢
  have h₁ : exactArith.share t.s.peakCPU (exactArith.ofInt t.s.cpuCores) = .fin u.cpu := h₁
  have h₂ : exactArith.share t.s.peakMem t.s.memTotalGB = .fin u.ram := h₂
  have h₃ : exactArith.usedDisk t.s.diskTotalGB t.s.minDiskFreeGB = .fin (max 0 u.disk) := h₃
  simp only [Tally.finish, h₁, h₂, h₃]
  refine ⟨_, ?_, ?_, rfl⟩
  · exact hiops
  · exact hnet

/-- A row uses no more of the memory, disk and rates than the peak, or nothing. -/
theorem IsPeak.use_le (h : w.IsPeak u) {r : MetricRow} (hr : r ∈ w.rows) :
    r.use.cpu ≤ max 0 u.cpu ∧ r.use.ram ≤ max 0 u.ram ∧ r.use.disk ≤ u.disk ∧ r.use.iops ≤ u.iops
      ∧ r.use.net ≤ u.net := by
  have hshare : ∀ p p' total : ℚ, 0 ≤ p → p ≤ p' → p / 100 * total ≤ max 0 (p' / 100 * total) := by
    intro p p' total hp hpp
    by_cases ht : 0 ≤ total
    · exact le_max_of_le_right (mul_le_mul_of_nonneg_right (by linarith) ht)
    · exact le_max_of_le_left (mul_nonpos_of_nonneg_of_nonpos (by linarith) (by linarith))
  refine ⟨?_, ?_, ?_, ?_, ?_⟩
  · obtain ⟨r', hr', hu, hmax⟩ := h.cpu
    rw [hu]
    simp only [MetricRow.use]
    rw [w.cores r hr r' hr']
    exact hshare _ _ _ (w.cpuPct r hr).1 (hmax r hr)
  · obtain ⟨r', hr', hu, hmax⟩ := h.ram
    rw [hu]
    simp only [MetricRow.use]
    rw [w.ram r hr r' hr']
    exact hshare _ _ _ (w.memPct r hr).1 (hmax r hr)
  · obtain ⟨r', hr', hu, hmin⟩ := h.disk
    rw [hu]
    simp only [MetricRow.use]
    rw [w.disk r hr r' hr']
    linarith [hmin r hr]
  · obtain ⟨r', hr', hu, hmax⟩ := h.iops
    rw [hu]
    exact hmax r hr
  · obtain ⟨r', hr', hu, hmax⟩ := h.net
    rw [hu]
    exact hmax r hr

/-- One server. -/
theorem covers_iff (w : ServerRows) (period : String) :
    ((∀ r ∈ w.rows, (computeServerSummary exactArith w.rows period).Covers r.use)
        ∧ (computeServerSummary exactArith w.rows period).Ordered)
      ↔ ∀ u, w.IsPeak u → ¬ Tight u.cpu := by
  obtain ⟨u, hpeak, -, hsized⟩ := w.exists_peak period
  constructor
  · rintro ⟨hcovers, -⟩ u' hu'
    rw [hu'.unique hpeak, ← le_sized_iff]
    obtain ⟨r, hr, hcpu, -⟩ := hpeak.cpu
    have := (hcovers r hr).cpu
    rw [hsized.cpu, ← hcpu] at this
    exact this
  · intro h
    have hcpu := (le_sized_iff u.cpu).2 (h u hpeak)
    have hone : (0 : ℚ) ≤ exactArith.sized (.fin u.cpu) (6 / 5) 1 := by
      rw [sized_eq _ _ (by norm_num)]
      exact_mod_cast le_max_of_le_left (by norm_num)
    refine ⟨fun r hr => ?_, hsized.ordered⟩
    obtain ⟨h₁, h₂, h₃, h₄, h₅⟩ := hpeak.use_le hr
    exact hsized.covers h₂ (h₃.trans (le_max_of_le_right (le_max_right _ _)))
      (h₄.trans (le_max_right _ _)) (h₅.trans (le_max_of_le_right (le_max_right _ _)))
      (h₁.trans (max_le hone hcpu))

end ServerRows

/-! ## The fleet -/

/-- The loop of `AggregateFleetSummary` adds up the peaks. -/
theorem fleet_fields {servers : List ServerSummary} {us : List Use}
    (h : List.Forall₂ (fun sv u => sv.summary.Measures u) servers us) {f : Fleet} {v : Use}
    (hcpu : f.peakCPUCores = .fin v.cpu) (hram : f.peakUsedRAMGB = .fin v.ram)
    (hdisk : f.peakUsedDiskGB = .fin v.disk) (hiops : f.fleet.peakDiskIOPS = .fin v.iops)
    (hnet : f.fleet.peakNetMBps = .fin v.net) :
    ∃ f', servers.foldl (fun f sv => f.add exactArith sv.summary) f = f'
      ∧ f'.peakCPUCores = .fin (v.cpu + (Use.sum (us.map Use.floored)).cpu)
      ∧ f'.peakUsedRAMGB = .fin (v.ram + (Use.sum (us.map Use.floored)).ram)
      ∧ f'.peakUsedDiskGB = .fin (v.disk + (Use.sum (us.map Use.floored)).disk)
      ∧ f'.fleet.peakDiskIOPS = .fin (v.iops + (Use.sum (us.map Use.floored)).iops)
      ∧ f'.fleet.peakNetMBps = .fin (v.net + (Use.sum (us.map Use.floored)).net) := by
  induction h generalizing f v with
  | nil => exact ⟨f, rfl, by simpa [Use.sum] using ⟨hcpu, hram, hdisk, hiops, hnet⟩⟩
  | @cons sv u servers us hm hrest ih =>
    obtain ⟨h₁, h₂, h₃⟩ := hm.shares
    have hadd : ∀ a b : F64, ∀ p q : ℚ, a = .fin p → b = .fin q → exactArith.add a b = .fin (p + q) := by
      rintro _ _ p q rfl rfl
      rfl
    let v' : Use := ⟨v.cpu + u.cpu, v.ram + u.ram, v.disk + max 0 u.disk, v.iops + max 0 u.iops,
      v.net + max 0 u.net⟩
    obtain ⟨f', hf', hfields⟩ := ih (f := f.add exactArith sv.summary) (v := v')
      (hadd _ _ _ _ hcpu h₁) (hadd _ _ _ _ hram h₂) (hadd _ _ _ _ hdisk h₃)
      (hadd _ _ _ _ hiops hm.iops) (hadd _ _ _ _ hnet hm.net)
    refine ⟨f', hf', ?_⟩
    simpa only [Use.sum, List.map_cons, List.sum_cons, Use.floored, v', add_assoc] using hfields

/-- The summary of a fleet, each server with its key. -/
def fleetSummary (period : String) (fleet : List (String × ServerRows)) : Summary :=
  aggregateFleetSummary exactArith
    (fleet.map fun g => serverSummary exactArith period g.1 g.2.rows) period

theorem exists_peaks (period : String) : ∀ fleet : List (String × ServerRows),
    ∃ us, List.Forall₂ (fun g u => g.2.IsPeak u) fleet us
      ∧ List.Forall₂ (fun sv u => sv.summary.Measures u)
        (fleet.map fun g => serverSummary exactArith period g.1 g.2.rows) us
  | [] => ⟨[], .nil, .nil⟩
  | g :: fleet => by
    obtain ⟨u, hpeak, hm, -⟩ := g.2.exists_peak period
    obtain ⟨us, hpeaks, hms⟩ := exists_peaks period fleet
    exact ⟨u :: us, .cons hpeak hpeaks, .cons hm hms⟩

theorem peaks_unique {fleet : List (String × ServerRows)} {us us' : List Use}
    (h : List.Forall₂ (fun g u => g.2.IsPeak u) fleet us)
    (h' : List.Forall₂ (fun g u => g.2.IsPeak u) fleet us') : us = us' :=
  List.right_unique_forall₂' (R := fun (g : String × ServerRows) u => g.2.IsPeak u)
    (fun _ _ _ => ServerRows.IsPeak.unique) h h'

/-- The sizes of a fleet are those for the sum of the peaks of its servers. -/
theorem fleetSummary_sized (period : String) {fleet : List (String × ServerRows)} {us : List Use}
    (hne : fleet ≠ []) (h : List.Forall₂ (fun g u => g.2.IsPeak u) fleet us) :
    (fleetSummary period fleet).SizedFor (Use.sum (us.map Use.floored)) := by
  match fleet, hne with
  | [g], _ =>
    obtain ⟨u, hpeak, -, s₀, hiops, hnet, hs⟩ := g.2.exists_peak period
    obtain rfl := peaks_unique h (.cons hpeak .nil)
    have hsum : Use.sum ([u].map Use.floored) = u.floored := by
      simp [Use.sum]
    rw [hsum]
    refine ⟨{ s₀ with fleetServerCount := 1 }, hiops, hnet, ?_⟩
    simp only [fleetSummary, List.map_cons, List.map_nil, aggregateFleetSummary, serverSummary, hs]
    rfl
  | g :: g' :: rest, _ =>
    obtain ⟨us', hpeaks, hms⟩ := exists_peaks period (g :: g' :: rest)
    obtain rfl := peaks_unique h hpeaks
    obtain ⟨f, hf, hcpu, hram, hdisk, hiops, hnet⟩ := fleet_fields hms (f :=
      ⟨{ Summary.zero period with fleetServerCount := (g :: g' :: rest).length }, .fin 0, .fin 0,
        .fin 0, .fin 0, .fin 0⟩) (v := ⟨0, 0, 0, 0, 0⟩) rfl rfl rfl rfl rfl
    simp only [zero_add] at hcpu hram hdisk hiops hnet
    have hfinish : fleetSummary period (g :: g' :: rest) = f.finish exactArith := by
      rw [← hf]
      simp only [fleetSummary, List.map_cons, aggregateFleetSummary, List.length_cons,
        List.length_map]
    rw [hfinish]
    simp only [Fleet.finish, hcpu, hram, hdisk]
    refine ⟨_, ?_, ?_, rfl⟩
    · split_ifs <;> exact hiops
    · split_ifs <;> exact hnet

theorem fleet_covers_iff (fleet : List (String × ServerRows)) (period : String) :
    ((∀ us, List.Forall₂ (fun g u => g.2.IsPeak u) fleet us →
          (fleetSummary period fleet).Covers (Use.sum us))
        ∧ (fleetSummary period fleet).Ordered)
      ↔ ∀ us, List.Forall₂ (fun g u => g.2.IsPeak u) fleet us → ¬ Tight (Use.sum us).cpu := by
  by_cases hne : fleet = []
  · subst hne
    have hzero : (Use.sum []).cpu = 0 := rfl
    constructor
    · rintro - us hus
      cases hus
      rintro (⟨h, -⟩ | ⟨h, -⟩) <;> rw [hzero] at h <;> norm_num at h
    · intro h
      refine ⟨fun us hus => ?_, le_rfl, ⟨0, rfl, 0, rfl, le_rfl⟩, ⟨0, rfl, 0, rfl, le_rfl⟩, le_rfl,
        ⟨0, rfl, 0, rfl, le_rfl⟩⟩
      cases hus
      exact ⟨le_rfl, ⟨0, rfl, le_rfl⟩, ⟨0, rfl, le_rfl⟩, le_rfl, ⟨0, rfl, le_rfl⟩⟩
  obtain ⟨us, hpeaks, -⟩ := exists_peaks period fleet
  have hsized := fleetSummary_sized period hne hpeaks
  have hsame : (Use.sum (us.map Use.floored)).cpu = (Use.sum us).cpu := by
    simp [Use.sum, Use.floored, Function.comp_def]
  constructor
  · rintro ⟨hcovers, -⟩ us' hus'
    obtain rfl := peaks_unique hus' hpeaks
    have := (hcovers us' hpeaks).cpu
    rw [hsized.cpu, hsame] at this
    exact (le_sized_iff _).1 this
  · intro h
    refine ⟨fun us' hus' => ?_, hsized.ordered⟩
    obtain rfl := peaks_unique hus' hpeaks
    have hcpu := (le_sized_iff _).2 (h us' hpeaks)
    rw [← hsame] at hcpu
    have hle : ∀ f : Use → ℚ, (us'.map f).sum ≤ ((us'.map fun u => max 0 (f u))).sum :=
      fun f => List.sum_le_sum fun u _ => le_max_right 0 (f u)
    refine hsized.covers (le_max_of_le_right ?_) (le_max_of_le_right ?_) ?_ (le_max_of_le_right ?_)
      (hsame.symm.trans_le hcpu)
    · simp [Use.sum, Use.floored, Function.comp_def]
    · simpa [Use.sum, Use.floored, Function.comp_def] using hle (·.disk)
    · simpa [Use.sum, Use.floored, Function.comp_def] using hle (·.iops)
    · simpa [Use.sum, Use.floored, Function.comp_def] using hle (·.net)

/-- The suggestions for a server cover what each of its rows used, and those for a fleet the sum of
the peaks of its servers, and recommend no less than the minimum, just when the peak of the CPUs is
not one that rounding takes below itself. -/
theorem suggestions_iff (period : String) :
    (∀ w : ServerRows,
      ((∀ r ∈ w.rows, (computeServerSummary exactArith w.rows period).Covers r.use)
          ∧ (computeServerSummary exactArith w.rows period).Ordered)
        ↔ ∀ u, w.IsPeak u → ¬ Tight u.cpu)
      ∧ ∀ fleet : List (String × ServerRows),
        ((∀ us, List.Forall₂ (fun g u => g.2.IsPeak u) fleet us →
              (fleetSummary period fleet).Covers (Use.sum us))
            ∧ (fleetSummary period fleet).Ordered)
          ↔ ∀ us, List.Forall₂ (fun g u => g.2.IsPeak u) fleet us → ¬ Tight (Use.sum us).cpu :=
  ⟨fun w => w.covers_iff period, fun fleet => fleet_covers_iff fleet period⟩

/-- 60 % of two cores. -/
def tightRow : MetricRow where
  id := 0
  timestamp := 0
  tenantID := "tenant-a"
  serverID := "agent-a"
  hostname := ""
  cpuPct := .fin 60
  memPct := .fin 30
  diskFreeGB := .fin 50
  netSentBytes := 0
  netRecvBytes := 0
  cpuCores := 2
  memTotalGB := .fin 8
  diskTotalGB := .fin 100
  diskReadOps := 0
  diskWriteOps := 0
  diskIOPS := .fin 10
  netMBps := .fin 1
  concurrentUsers := 0
  netSentExternal := 0
  netRecvExternal := 0
  netSentInternal := 0
  netRecvInternal := 0

def tightServer : ServerRows where
  rows := [tightRow]
  nonempty := by simp
  cores := by simp
  ram := by simp
  disk := by simp
  finite := by simp [tightRow, F64.IsFin, F64.toRat]
  cpuPct := by
    simp only [List.mem_singleton, forall_eq, tightRow, F64.toRat]
    norm_num
  memPct := by
    simp only [List.mem_singleton, forall_eq, tightRow, F64.toRat]
    norm_num

/-- 1.2 cores were used, and one is suggested. -/
theorem suggestion_below_use :
    (computeServerSummary exactArith tightServer.rows "").suggestedMinCPU = 1
      ∧ ∀ r ∈ tightServer.rows, r.use.cpu = 6 / 5 := by
  refine ⟨by decide +kernel, ?_⟩
  simp only [tightServer, List.mem_singleton, forall_eq]
  decide +kernel

end WMonitor
