import Mathlib.Data.List.AList
import Mathlib.Tactic

/-!
# Maps that are ranged over

A map is an association list without repeated keys; a loop over it visits its entries once each, in
any order, and may delete the entry it visits. Which entries such a loop leaves does not depend on
the order (`ranged_entries`).
-/

namespace RangeMap

variable {α β : Type*} [DecidableEq α]

abbrev Map (α β : Type*) := AList fun _ : α => β

abbrev Entry (α β : Type*) := (_ : α) × β

/-- `len(m)`. -/
def size (m : Map α β) : ℕ := m.entries.length

/-- `for key, value := range m { if p { delete(m, key) } }`, visiting the entries in this order. -/
def ranged (p : Entry α β → Bool) (order : List (Entry α β)) (m : Map α β) : Map α β :=
  order.foldl (fun m e => if p e then m.erase e.1 else m) m

variable {p : Entry α β → Bool} {m : Map α β} {order : List (Entry α β)}

theorem erase_entries (a : α) (m : Map α β) :
    (m.erase a).entries = m.entries.filter (fun e => decide (e.1 ≠ a)) := by
  obtain ⟨l, hl⟩ := m
  change l.kerase a = _
  induction l with
  | nil => rfl
  | cons e l ih =>
    rw [List.nodupKeys_cons] at hl
    by_cases h : a = e.1
    · have hkeep : l.filter (fun e' => decide (e'.1 ≠ a)) = l := by
        refine List.filter_eq_self.mpr fun e' he' => decide_eq_true fun heq => hl.1 ?_
        exact h ▸ heq ▸ List.mem_keys_of_mem he'
      rw [List.kerase_cons_eq h, List.filter_cons_of_neg (by simp [h]), hkeep]
    · rw [List.kerase_cons_ne h, ih hl.2, List.filter_cons_of_pos (by simpa using Ne.symm h)]

theorem mem_erase_entries {a : α} {e : Entry α β} :
    e ∈ (m.erase a).entries ↔ e ∈ m.entries ∧ e.1 ≠ a := by
  rw [erase_entries, List.mem_filter, decide_eq_true_iff]

theorem insert_entries {a : α} (b : β) (h : a ∉ m) :
    (m.insert a b).entries = ⟨a, b⟩ :: m.entries :=
  AList.entries_insert_of_notMem h

omit [DecidableEq α] in
/-- Two entries with one key are one entry. -/
theorem entry_unique {e e' : Entry α β} (he : e ∈ m.entries) (he' : e' ∈ m.entries)
    (h : e.1 = e'.1) : e = e' :=
  m.nodupKeys.eq_of_fst_eq he he' h

theorem ranged_filter (p : Entry α β → Bool) (order : List (Entry α β)) (m : Map α β) :
    (ranged p order m).entries
      = m.entries.filter fun e => decide (∀ o ∈ order, p o = true → e.1 ≠ o.1) := by
  induction order generalizing m with
  | nil => simp [ranged]
  | cons o order ih =>
    change (ranged p order (if p o then m.erase o.1 else m)).entries = _
    rw [ih]
    by_cases ho : p o
    · rw [if_pos ho, erase_entries, List.filter_filter]
      refine List.filter_congr fun e _ => ?_
      simp [ho, Bool.and_comm]
    · rw [if_neg ho]
      refine List.filter_congr fun e _ => ?_
      simp [ho]

/-- A loop that visits every entry leaves those that it does not delete. -/
theorem ranged_entries (h : order.Perm m.entries) :
    (ranged p order m).entries = m.entries.filter fun e => !p e := by
  rw [ranged_filter]
  refine List.filter_congr fun e he => ?_
  rw [Bool.eq_iff_iff, decide_eq_true_iff, Bool.not_eq_true']
  constructor
  · intro hall
    by_contra hp
    exact hall e (h.mem_iff.mpr he) (by simpa using hp) rfl
  · intro hp o ho hpo heq
    rw [entry_unique he (h.mem_iff.mp ho) heq, hpo] at hp
    cases hp

theorem lookup_eq_some {a : α} {b : β} : m.lookup a = some b ↔ (⟨a, b⟩ : Entry α β) ∈ m.entries :=
  AList.mem_lookup_iff

theorem lookup_ranged (h : order.Perm m.entries) (a : α) :
    (ranged p order m).lookup a = (m.lookup a).filter fun b => !p ⟨a, b⟩ := by
  refine Option.ext fun b => ?_
  rw [lookup_eq_some, ranged_entries h, List.mem_filter, ← lookup_eq_some,
    Option.filter_eq_some_iff]

end RangeMap
