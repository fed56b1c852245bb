import Mathlib.Tactic

/-!
# Tables of rows

A table is the list of its rows. A statement that touches rows matching a predicate is a map, a
filter or a count over them; an insert that a unique index refuses leaves the table as it was.
A body run under `transact` is committed whole or not at all.
-/

namespace WMonitor

namespace Table

variable {α β κ : Type*}

/-- `UPDATE t SET f WHERE p`. -/
def update (p : α → Bool) (f : α → α) (t : List α) : List α :=
  t.map fun r => if p r then f r else r

/-- `DELETE FROM t WHERE p`. -/
def delete (p : α → Bool) (t : List α) : List α :=
  t.filter fun r => !p r

/-- `INSERT INTO t`, refused when a row of the table clashes with the new one on a unique index. -/
def insert (clash : α → α → Bool) (r : α) (t : List α) : Option (List α) :=
  if t.any (clash r) then none else some (t ++ [r])

/-- `SELECT FROM t WHERE key = k`, for a unique key. -/
def lookup [DecidableEq κ] (key : α → κ) (k : κ) (t : List α) : Option α :=
  t.find? fun r => key r = k

/-- Runs `body` on a copy of the database: the copy is kept when the body succeeds. -/
def transact {ε : Type*} (body : β → Except ε (β × α)) (db : β) : β × Except ε α :=
  match body db with
  | .ok (db', a) => (db', .ok a)
  | .error e => (db, .error e)

theorem ok_of_bind {ε α β : Type} {x : Except ε α} {f : α → Except ε β} {b : β}
    (h : x >>= f = .ok b) : ∃ a, x = .ok a ∧ f a = .ok b := by
  rcases x with e | a
  · cases h
  · exact ⟨a, rfl, h⟩

/-- A body that goes past a check has passed it. -/
theorem ok_of_guard {ε α β : Type} {c : Prop} [Decidable c] {e : ε} {f : α → Except ε β}
    {x : Except ε β} {b : β} (h : (if c then (throw e : Except ε α) >>= f else x) = .ok b) :
    ¬ c ∧ x = .ok b := by
  split_ifs at h with hc
  · cases h
  · exact ⟨hc, h⟩

theorem insert_some {clash : α → α → Bool} {r : α} {t t' : List α}
    (h : insert clash r t = some t') : t' = t ++ [r] ∧ ∀ x ∈ t, clash r x = false := by
  unfold insert at h
  split_ifs at h with hc
  simp only [Option.some.injEq] at h
  refine ⟨h.symm, fun x hx => ?_⟩
  simp only [List.any_eq_true, not_exists, not_and, Bool.not_eq_true] at hc
  exact hc x hx

theorem insert_none {clash : α → α → Bool} {r : α} {t : List α} (h : insert clash r t = none) :
    ∃ x ∈ t, clash r x = true := by
  unfold insert at h
  split_ifs at h with hc
  simpa using hc

theorem transact_ok {ε : Type*} {body : β → Except ε (β × α)} {db db' : β} {a : α}
    (h : transact body db = (db', .ok a)) : body db = .ok (db', a) := by
  unfold transact at h
  split at h
  · rename_i hb
    simp only [Prod.mk.injEq, Except.ok.injEq] at h
    rw [hb, h.1, h.2]
  · simp at h

theorem transact_error {ε : Type*} {body : β → Except ε (β × α)} {db db' : β} {e : ε}
    (h : transact body db = (db', .error e)) : db' = db ∧ body db = .error e := by
  unfold transact at h
  split at h
  · simp at h
  · rename_i hb
    simp only [Prod.mk.injEq, Except.error.injEq] at h
    exact ⟨h.1.symm, by rw [hb, h.2]⟩

theorem map_update {g : α → β} {p : α → Bool} {f : α → α} (hf : ∀ r, p r = true → g (f r) = g r)
    (t : List α) : (update p f t).map g = t.map g := by
  unfold update
  rw [List.map_map]
  refine List.map_congr_left fun r _ => ?_
  simp only [Function.comp]
  split_ifs with hp
  · exact hf r hp
  · rfl

section Lookup

variable [DecidableEq κ] {key : α → κ} {k : κ} {t : List α} {r : α}

theorem lookup_mem (h : lookup key k t = some r) : r ∈ t ∧ key r = k :=
  ⟨List.mem_of_find?_eq_some h, by simpa using List.find?_some h⟩

theorem lookup_eq_none : lookup key k t = none ↔ ∀ r ∈ t, key r ≠ k := by
  simp [lookup, List.find?_eq_none]

theorem lookup_eq_some (hn : (t.map key).Nodup) :
    lookup key k t = some r ↔ r ∈ t ∧ key r = k := by
  refine ⟨lookup_mem, fun ⟨hr, hk⟩ => ?_⟩
  rcases hl : lookup key k t with _ | r'
  · exact absurd hk (lookup_eq_none.1 hl r hr)
  · obtain ⟨hr', hk'⟩ := lookup_mem hl
    rw [List.inj_on_of_nodup_map hn hr' hr (hk'.trans hk.symm)]

theorem lookup_append (t : List α) (r : α) (k : κ) :
    lookup key k (t ++ [r]) = (lookup key k t).or (if key r = k then some r else none) := by
  simp only [lookup, List.find?_append, List.find?_singleton, decide_eq_true_eq]

theorem lookup_update {p : α → Bool} {f : α → α} (hf : ∀ r, p r = true → key (f r) = key r)
    (t : List α) (k : κ) :
    lookup key k (update p f t) = (lookup key k t).map fun r => if p r then f r else r := by
  unfold lookup update
  rw [List.find?_map]
  congr 2
  funext r
  simp only [Function.comp]
  split_ifs with hp
  · rw [hf r hp]
  · rfl

omit [DecidableEq κ] in
theorem nodup_append (hn : (t.map key).Nodup) (hr : ∀ x ∈ t, key x ≠ key r) :
    ((t ++ [r]).map key).Nodup := by
  rw [List.map_append]
  refine List.nodup_append.2 ⟨hn, List.nodup_singleton _, fun k hk k' hk' => ?_⟩
  obtain ⟨x, hx, rfl⟩ := List.mem_map.1 hk
  simp only [List.map_cons, List.map_nil, List.mem_singleton] at hk'
  subst hk'
  exact hr x hx

end Lookup

/-! ## A part of a table

A statement whose rows are all in the part of a table that `own` picks out does the same to that
part alone, and a statement none of whose rows are in it leaves it as it is.
-/

section Part

variable {own : α → Bool}

theorem any_part {p : α → Bool} (h : ∀ r, p r = true → own r = true) (t : List α) :
    (t.filter own).any p = t.any p := by
  rw [List.any_filter]
  congr 1
  funext r
  rcases hp : p r with _ | _
  · simp
  · simp [h r hp]

theorem filter_part {p : α → Bool} (h : ∀ r, p r = true → own r = true) (t : List α) :
    (t.filter own).filter p = t.filter p := by
  rw [List.filter_filter]
  refine List.filter_congr fun r _ => ?_
  rcases hp : p r with _ | _
  · rfl
  · simp [h r hp]

theorem countP_part {p : α → Bool} (h : ∀ r, p r = true → own r = true) (t : List α) :
    (t.filter own).countP p = t.countP p := by
  rw [List.countP_filter]
  refine List.countP_congr fun r _ => ?_
  simp only [Bool.and_eq_true, and_iff_left_iff_imp]
  exact h r

theorem countP_lt {p : α → Bool} {t : List α} {r : α} (h : ∀ r, p r = true → own r = true)
    (hr : r ∈ t) (hown : own r = true) (hp : p r = false) : t.countP p < t.countP own := by
  rw [List.countP_eq_length_filter, List.countP_eq_length_filter, ← filter_part h,
    List.length_filter_lt_length_iff_exists]
  exact ⟨r, List.mem_filter.2 ⟨hr, hown⟩, by simp [hp]⟩

theorem insert_part {clash : α → α → Bool} {r : α} (hc : ∀ x, clash r x = true → own x = true)
    (hr : own r = true) (t : List α) :
    (insert clash r t).map (List.filter own) = insert clash r (t.filter own) := by
  unfold insert
  rw [any_part hc]
  split_ifs
  · rfl
  · simp [hr]

theorem lookup_part [DecidableEq κ] {key : α → κ} {k : κ} (h : ∀ r, key r = k → own r = true)
    (t : List α) : lookup key k (t.filter own) = lookup key k t := by
  unfold lookup
  rw [List.find?_filter]
  congr 1
  funext r
  by_cases hk : key r = k
  · simp [hk, h r hk]
  · simp [hk]

theorem update_part {p : α → Bool} {f : α → α} (hf : ∀ r, p r = true → own (f r) = own r)
    (t : List α) : (update p f t).filter own = update p f (t.filter own) := by
  unfold update
  rw [List.filter_map]
  congr 2
  funext r
  simp only [Function.comp]
  split_ifs with hp
  · exact hf r hp
  · rfl

theorem update_elsewhere {p : α → Bool} {f : α → α} (hp : ∀ r, p r = true → own r = false)
    (hf : ∀ r, p r = true → own (f r) = own r) (t : List α) :
    (update p f t).filter own = t.filter own := by
  rw [update_part hf]
  unfold update
  refine (List.map_congr_left fun r hr => ?_).trans (List.map_id _)
  rw [if_neg]
  · rfl
  · intro h
    exact absurd (List.mem_filter.1 hr).2 (by simp [hp r h])

end Part

theorem mem_update {p : α → Bool} {f : α → α} {t : List α} {x : α} :
    x ∈ update p f t ↔ ∃ r ∈ t, x = if p r then f r else r := by
  unfold update
  simp only [List.mem_map, eq_comm]

theorem mem_delete {p : α → Bool} {t : List α} {x : α} :
    x ∈ delete p t ↔ x ∈ t ∧ p x = false := by
  simp [delete]

end Table

end WMonitor
