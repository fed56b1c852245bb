import WMonitor.Transactions

/-!
# Transactions take effect one by one

Two changes are compatible if neither disturbs a transaction that has made the other one. A transaction
is undisturbed if each of its statements waits for the changes that are not compatible with those it makes,
and gives the same result with the same changes when a compatible change is committed below it. When all
transactions are undisturbed, what is committed and what the callers are told is that of the calls one after
the other, each alone, in the order in which they took effect (`TxPool.kept`).
-/

namespace WMonitor

namespace Tx

variable {σ ω ε α ι : Type} {apply : σ → ω → σ} {compat : ω → ω → Prop} {s : σ}
  {b rest : Tx σ ω ε α} {changes : List ω}

theorem view_append (s : σ) (changes more : List ω) :
    view apply s (changes ++ more) = view apply (view apply s changes) more :=
  List.foldl_append

/-- Alone from `s`, the transaction `b` gets to `rest` with these changes. -/
inductive Reached (apply : σ → ω → σ) (s : σ) (b : Tx σ ω ε α) : Tx σ ω ε α → List ω → Prop
  | start : Reached apply s b b []
  | exec {β : Type} {waits : σ → ω → Bool} {f : σ → β × List ω} {k : β → Tx σ ω ε α}
      {changes : List ω} (h : Reached apply s b (.exec waits f k) changes) :
      Reached apply s b (k (f (view apply s changes)).1) (changes ++ (f (view apply s changes)).2)

theorem Reached.alone_eq (h : Reached apply s b rest changes) :
    b.alone apply s = rest.alone apply (view apply s changes) := by
  induction h with
  | start => rfl
  | exec h ih => rw [ih, alone, view_append]

/-- The statements of the transaction wait for what is not compatible with their changes, and are not
disturbed by what is. -/
def Undisturbed (apply : σ → ω → σ) (compat : ω → ω → Prop) : Tx σ ω ε α → Prop
  | commit _ => True
  | rollback _ => True
  | exec waits f k =>
    (∀ s changes w, (∀ v ∈ changes, compat v w) → waits (view apply s changes) w = false →
      ∀ v ∈ (f (view apply s changes)).2, compat v w)
    ∧ (∀ s changes w, (∀ v ∈ changes ++ (f (view apply s changes)).2, compat v w) →
      (k (f (view apply s changes)).1).lost = false →
      f (view apply (apply s w) changes) = f (view apply s changes))
    ∧ ∀ r, Undisturbed apply compat (k r)

theorem Reached.undisturbed (h : Reached apply s b rest changes) (hb : Undisturbed apply compat b) :
    Undisturbed apply compat rest := by
  induction h with
  | start => exact hb
  | exec h ih => exact ih.2.2 _

/-- A transaction that may still commit does not notice a compatible change. -/
theorem Reached.beside {w : ω} (h : Reached apply s b rest changes) (hb : Undisturbed apply compat b)
    (hrest : rest.lost = false) (hw : ∀ v ∈ changes, compat v w) :
    Reached apply (apply s w) b rest changes := by
  induction h with
  | start => exact .start
  | exec h ih =>
    have hsame := (h.undisturbed hb).2.1 s _ w hw hrest
    have hbefore := ih rfl fun v hv => hw v (List.mem_append_left _ hv)
    rw [← hsame]
    exact hbefore.exec

theorem Reached.beside_all {ws : List ω} (hb : Undisturbed apply compat b) (hrest : rest.lost = false)
    (hw : ∀ v ∈ changes, ∀ w ∈ ws, compat v w) (h : Reached apply s b rest changes) :
    Reached apply (view apply s ws) b rest changes := by
  induction ws generalizing s with
  | nil => exact h
  | cons w ws ih =>
    have hnext := h.beside hb hrest fun v hv => hw v hv w List.mem_cons_self
    exact ih (fun v hv w' hw' => hw v hv w' (List.mem_cons_of_mem _ hw')) hnext

end Tx

namespace TxPool

open Tx

variable {σ ω ε α ι : Type} {apply : σ → ω → σ} {body : ι → Tx σ ω ε α} {compat : ω → ω → Prop}
  {s : σ} {p : TxPool σ ω ε α ι} {t : OpenTx σ ω ε α ι}

theorem oneByOne_append (s : σ) (calls : List ι) (call : ι) :
    oneByOne apply body s (calls ++ [call])
      = ((Table.transact ((body call).alone apply) (oneByOne apply body s calls).1).1,
        (oneByOne apply body s calls).2
          ++ [(Table.transact ((body call).alone apply) (oneByOne apply body s calls).1).2]) := by
  induction calls generalizing s with
  | nil => rfl
  | cons c calls ih => simp only [List.cons_append, oneByOne, ih]

/-- What every turn keeps. -/
structure Kept (apply : σ → ω → σ) (body : ι → Tx σ ω ε α) (compat : ω → ω → Prop) (s : σ)
    (p : TxPool σ ω ε α ι) : Prop where
  serial : oneByOne apply body s (p.order.map (·.2.1)) = (p.committed, p.order.map (·.2.2))
  reached : ∀ t ∈ p.opened, t.rest.lost = false →
    Reached apply p.committed (body t.call) t.rest t.changes
  undisturbed : ∀ t ∈ p.opened, Undisturbed apply compat t.rest
  apart : ∀ t ∈ p.opened, ∀ t' ∈ p.opened, t.id ≠ t'.id →
    ∀ v ∈ t.changes, ∀ w ∈ t'.changes, compat v w
  ids : ∀ t ∈ p.opened, t.id < p.next
  nodup : (p.opened.map (·.id)).Nodup
  orderIds : ∀ x ∈ p.order, x.1 < p.next
  orderNodup : (p.order.map (·.1)).Nodup
  waiting : ∀ t ∈ p.opened, t.rest.lost = false → ∀ x ∈ p.order, x.1 ≠ t.id
  settled : ∀ t ∈ p.opened, ∀ e, t.rest = .rollback e → (t.id, t.call, .error e) ∈ p.order
  answered : ∀ x ∈ p.answers, ∀ r, x.2.2 = some r → (x.1, x.2.1, r) ∈ p.order

/-- A call that takes effect: alone on what is committed it gives the new database and the answer. -/
theorem serial_append {call : ι} {r : Except ε α} {s' : σ} (id : ℕ)
    (h : oneByOne apply body s (p.order.map (·.2.1)) = (p.committed, p.order.map (·.2.2)))
    (hr : Table.transact ((body call).alone apply) p.committed = (s', r)) :
    oneByOne apply body s ((p.order ++ [(id, call, r)]).map (·.2.1))
      = (s', (p.order ++ [(id, call, r)]).map (·.2.2)) := by
  simp only [List.map_append, List.map_cons, List.map_nil, oneByOne_append, h, hr]

theorem verdict_eq_nil {rest : Tx σ ω ε α} (h : rest.lost = false) (id : ℕ) (call : ι) :
    rest.verdict id call = [] := by
  cases rest with
  | rollback e => cases h
  | commit a => rfl
  | exec waits f k => rfl

theorem lost_cases (rest : Tx σ ω ε α) : rest.lost = false ∨ ∃ e, rest = .rollback e := by
  cases rest with
  | rollback e => exact .inr ⟨e, rfl⟩
  | commit a => exact .inl rfl
  | exec waits f k => exact .inl rfl

theorem mem_verdict {rest : Tx σ ω ε α} {id : ℕ} {call : ι} {x : ℕ × ι × Except ε α}
    (h : x ∈ rest.verdict id call) : x.1 = id ∧ x.2.1 = call := by
  rcases lost_cases rest with hl | ⟨e, rfl⟩
  · rw [verdict_eq_nil hl] at h
    cases h
  · obtain rfl := List.mem_singleton.1 h
    exact ⟨rfl, rfl⟩

/-- The order with the verdict on a call that has none yet. -/
theorem order_nodup {order : List (ℕ × ι × Except ε α)} (h : (order.map (·.1)).Nodup)
    {rest : Tx σ ω ε α} {id : ℕ} {call : ι} (hid : ∀ x ∈ order, x.1 ≠ id) :
    ((order ++ rest.verdict id call).map (·.1)).Nodup := by
  rcases lost_cases rest with hl | ⟨e, rfl⟩
  · rw [verdict_eq_nil hl, List.append_nil]
    exact h
  · refine Table.nodup_append h fun x hx => hid x hx

theorem Kept.start (hbody : ∀ call, Undisturbed apply compat (body call))
    (h : Kept apply body compat s p) (call : ι) :
    Kept apply body compat s (p.turn apply body (.start call)) where
  serial := by
    rcases lost_cases (body call) with hl | ⟨e, he⟩
    · simpa only [turn, verdict_eq_nil hl, List.append_nil] using h.serial
    · simp only [turn, he]
      refine serial_append p.next h.serial ?_
      rw [he]
      rfl
  reached := by
    intro t ht hl
    rcases List.mem_append.1 ht with ht | ht
    · exact h.reached t ht hl
    · obtain rfl := List.mem_singleton.1 ht
      exact .start
  undisturbed := by
    intro t ht
    rcases List.mem_append.1 ht with ht | ht
    · exact h.undisturbed t ht
    · obtain rfl := List.mem_singleton.1 ht
      exact hbody call
  apart := by
    intro t ht t' ht' hne v hv w hw
    rcases List.mem_append.1 ht with ht | ht
    · rcases List.mem_append.1 ht' with ht' | ht'
      · exact h.apart t ht t' ht' hne v hv w hw
      · obtain rfl := List.mem_singleton.1 ht'
        cases hw
    · obtain rfl := List.mem_singleton.1 ht
      cases hv
  ids := by
    intro t ht
    rcases List.mem_append.1 ht with ht | ht
    · exact Nat.lt_succ_of_lt (h.ids t ht)
    · obtain rfl := List.mem_singleton.1 ht
      exact Nat.lt_succ_self _
  nodup := by
    refine Table.nodup_append h.nodup fun t ht => ?_
    exact (h.ids t ht).ne
  orderIds := by
    intro x hx
    rcases List.mem_append.1 hx with hx | hx
    · exact Nat.lt_succ_of_lt (h.orderIds x hx)
    · rw [(mem_verdict hx).1]
      exact Nat.lt_succ_self _
  orderNodup := order_nodup h.orderNodup fun x hx => (h.orderIds x hx).ne
  waiting := by
    intro t ht hl x hx
    rcases List.mem_append.1 ht with ht | ht
    · rcases List.mem_append.1 hx with hx | hx
      · exact h.waiting t ht hl x hx
      · rw [(mem_verdict hx).1]
        exact (h.ids t ht).ne'
    · obtain rfl := List.mem_singleton.1 ht
      simp only [turn, verdict_eq_nil hl, List.append_nil] at hx
      exact (h.orderIds x hx).ne
  settled := by
    intro t ht e he
    rcases List.mem_append.1 ht with ht | ht
    · exact List.mem_append_left _ (h.settled t ht e he)
    · obtain rfl := List.mem_singleton.1 ht
      refine List.mem_append_right _ ?_
      simp only at he
      rw [he]
      exact List.mem_singleton_self _
  answered x hx r hr := List.mem_append_left _ (h.answered x hx r hr)

/-- A transaction ends: nothing is known of it any more but its answer. -/
theorem Kept.close (h : Kept apply body compat s p) {r : Option (Except ε α)}
    (hr : ∀ r', r = some r' → (t.id, t.call, r') ∈ p.order) :
    Kept apply body compat s (p.close t r) where
  serial := h.serial
  reached t' ht' := h.reached t' (List.mem_of_mem_filter ht')
  undisturbed t' ht' := h.undisturbed t' (List.mem_of_mem_filter ht')
  apart t' ht' t'' ht'' := h.apart t' (List.mem_of_mem_filter ht') t'' (List.mem_of_mem_filter ht'')
  ids t' ht' := h.ids t' (List.mem_of_mem_filter ht')
  nodup := h.nodup.sublist (List.filter_sublist.map _)
  orderIds := h.orderIds
  orderNodup := h.orderNodup
  waiting t' ht' := h.waiting t' (List.mem_of_mem_filter ht')
  settled t' ht' := h.settled t' (List.mem_of_mem_filter ht')
  answered := by
    intro x hx r' hr'
    rcases List.mem_append.1 hx with hx | hx
    · exact h.answered x hx r' hr'
    · obtain rfl := List.mem_singleton.1 hx
      exact hr r' hr'

/-- What is kept of the other transactions when one of them stores its changes and ends. -/
theorem Kept.store (hbody : ∀ call, Undisturbed apply compat (body call))
    (h : Kept apply body compat s p) (ht : t ∈ p.opened) {a : α} (hrest : t.rest = .commit a)
    (r : Option (Except ε α)) (hr : ∀ r', r = some r' → r' = .ok a) :
    Kept apply body compat s ((p.store apply t a).close t r) := by
  have hlost : t.rest.lost = false := by rw [hrest]; rfl
  have halone : (body t.call).alone apply p.committed
      = .ok (view apply p.committed t.changes, a) := by
    rw [(h.reached t ht hlost).alone_eq, hrest, alone]
  have hothers : ∀ t' ∈ ((p.store apply t a).close t r).opened, t' ∈ p.opened ∧ t'.id ≠ t.id := by
    intro t' ht'
    obtain ⟨hmem, hne⟩ := List.mem_filter.1 ht'
    exact ⟨hmem, by simpa using hne⟩
  exact {
    serial := by
      refine serial_append t.id h.serial ?_
      simp only [Table.transact, halone]
      rfl
    reached := fun t' ht' hl => by
      obtain ⟨hmem, hne⟩ := hothers t' ht'
      exact (h.reached t' hmem hl).beside_all (hbody t'.call) hl (h.apart t' hmem t ht hne)
    undisturbed := fun t' ht' => h.undisturbed t' (hothers t' ht').1
    apart := fun t' ht' t'' ht'' => h.apart t' (hothers t' ht').1 t'' (hothers t'' ht'').1
    ids := fun t' ht' => h.ids t' (hothers t' ht').1
    nodup := h.nodup.sublist (List.filter_sublist.map _)
    orderIds := by
      intro x hx
      rcases List.mem_append.1 hx with hx | hx
      · exact h.orderIds x hx
      · rw [List.mem_singleton.1 hx]
        exact h.ids t ht
    orderNodup := Table.nodup_append h.orderNodup fun x hx => h.waiting t ht hlost x hx
    waiting := by
      intro t' ht' hl x hx
      obtain ⟨hmem, hne⟩ := hothers t' ht'
      rcases List.mem_append.1 hx with hx | hx
      · exact h.waiting t' hmem hl x hx
      · rw [List.mem_singleton.1 hx]
        exact hne.symm
    settled := fun t' ht' e he =>
      List.mem_append_left _ (h.settled t' (hothers t' ht').1 e he)
    answered := by
      intro x hx r' hr'
      rcases List.mem_append.1 hx with hx | hx
      · exact List.mem_append_left _ (h.answered x hx r' hr')
      · obtain rfl := List.mem_singleton.1 hx
        refine List.mem_append_right _ ?_
        rw [hr r' hr']
        exact List.mem_singleton_self _ }

/-- The transactions after a statement: the one that ran it, and the others. -/
theorem mem_proceed {rest : Tx σ ω ε α} {changes : List ω} {t' : OpenTx σ ω ε α ι}
    (h : t' ∈ (p.proceed t rest changes).opened) :
    t' = { t with rest := rest, changes := t.changes ++ changes } ∨ (t' ∈ p.opened ∧ t'.id ≠ t.id) := by
  obtain ⟨t₀, ht₀, rfl⟩ := List.mem_map.1 h
  split_ifs with hid
  · exact .inl rfl
  · exact .inr ⟨ht₀, hid⟩

theorem Kept.proceed (hsymm : ∀ v w, compat v w → compat w v)
    (h : Kept apply body compat s p) (ht : t ∈ p.opened) {β : Type} {waits : σ → ω → Bool}
    {f : σ → β × List ω} {k : β → Tx σ ω ε α} (hrest : t.rest = .exec waits f k)
    (hfree : p.blocked apply t waits = false) :
    Kept apply body compat s (p.proceed t (k (f (view apply p.committed t.changes)).1)
      (f (view apply p.committed t.changes)).2) := by
  have hlost : t.rest.lost = false := by rw [hrest]; rfl
  have hreached := h.reached t ht hlost
  have hiso := h.undisturbed t ht
  rw [hrest] at hreached hiso
  have hnext := hreached.exec
  -- Whoever is open has made no change that the statement waits for, so its changes are compatible.
  have hnew : ∀ t' ∈ p.opened, t'.id ≠ t.id →
      ∀ v ∈ t.changes ++ (f (view apply p.committed t.changes)).2, ∀ w ∈ t'.changes, compat v w := by
    intro t' ht' hne v hv w hw
    have hbefore : ∀ v ∈ t.changes, compat v w := fun v hv =>
      h.apart t ht t' ht' (Ne.symm hne) v hv w hw
    rcases List.mem_append.1 hv with hv | hv
    · exact hbefore v hv
    · refine hiso.1 p.committed t.changes w hbefore ?_ v hv
      simp only [blocked, List.any_eq_false, Bool.and_eq_true, decide_eq_true_eq, not_and,
        Bool.not_eq_true] at hfree
      simpa using hfree t' ht' (by simpa using hne) w hw
  generalize f (view apply p.committed t.changes) = r at hnext hnew ⊢
  exact {
    serial := by
      rcases lost_cases (k r.1) with hl | ⟨e, he⟩
      · simpa only [TxPool.proceed, verdict_eq_nil hl, List.append_nil] using h.serial
      · simp only [TxPool.proceed, he]
        refine serial_append t.id h.serial ?_
        have halone := hnext.alone_eq
        rw [he, alone] at halone
        simp only [Table.transact, halone]
    reached := fun t' ht' hl => by
      rcases mem_proceed ht' with rfl | ⟨hmem, -⟩
      · exact hnext
      · exact h.reached t' hmem hl
    undisturbed := fun t' ht' => by
      rcases mem_proceed ht' with rfl | ⟨hmem, -⟩
      · exact hiso.2.2 _
      · exact h.undisturbed t' hmem
    apart := fun t' ht' t'' ht'' hne v hv w hw => by
      rcases mem_proceed ht' with rfl | ⟨hmem, hid⟩
      · rcases mem_proceed ht'' with rfl | ⟨hmem', hid'⟩
        · exact absurd rfl hne
        · exact hnew t'' hmem' hid' v hv w hw
      · rcases mem_proceed ht'' with rfl | ⟨hmem', -⟩
        · exact hsymm _ _ (hnew t' hmem hid w hw v hv)
        · exact h.apart t' hmem t'' hmem' hne v hv w hw
    ids := fun t' ht' => by
      rcases mem_proceed ht' with rfl | ⟨hmem, -⟩
      · exact h.ids t ht
      · exact h.ids t' hmem
    nodup := by
      have hid : (p.proceed t (k r.1) r.2).opened.map (·.id) = p.opened.map (·.id) := by
        simp only [TxPool.proceed, List.map_map]
        refine List.map_congr_left fun t' _ => ?_
        simp only [Function.comp_apply]
        split_ifs with hid
        · exact hid.symm
        · rfl
      rw [hid]
      exact h.nodup
    orderIds := fun x hx => by
      rcases List.mem_append.1 hx with hx | hx
      · exact h.orderIds x hx
      · rw [(mem_verdict hx).1]
        exact h.ids t ht
    orderNodup := order_nodup h.orderNodup (h.waiting t ht hlost)
    waiting := fun t' ht' hl x hx => by
      rcases mem_proceed ht' with rfl | ⟨hmem, hid⟩
      · simp only at hl
        simp only [TxPool.proceed, verdict_eq_nil hl, List.append_nil] at hx
        exact h.waiting t ht hlost x hx
      · rcases List.mem_append.1 hx with hx | hx
        · exact h.waiting t' hmem hl x hx
        · rw [(mem_verdict hx).1]
          exact hid.symm
    settled := fun t' ht' e he => by
      rcases mem_proceed ht' with rfl | ⟨hmem, -⟩
      · refine List.mem_append_right _ ?_
        simp only at he
        rw [he]
        exact List.mem_singleton_self _
      · exact List.mem_append_left _ (h.settled t' hmem e he)
    answered := fun x hx r' hr' => List.mem_append_left _ (h.answered x hx r' hr') }

theorem Kept.advance (hsymm : ∀ v w, compat v w → compat w v)
    (hbody : ∀ call, Undisturbed apply compat (body call)) (h : Kept apply body compat s p)
    (ht : t ∈ p.opened) : Kept apply body compat s (p.advance apply t) := by
  unfold TxPool.advance
  cases hrest : t.rest with
  | commit a => exact h.store hbody ht hrest _ fun r' hr' => (Option.some.inj hr').symm
  | rollback e =>
    refine h.close fun r' hr' => ?_
    rw [← Option.some.inj hr']
    exact h.settled t ht e hrest
  | exec waits f k =>
    dsimp only
    split_ifs with hb
    · exact h
    · exact h.proceed hsymm ht hrest (by simpa using hb)

theorem Kept.abandon (hbody : ∀ call, Undisturbed apply compat (body call))
    (h : Kept apply body compat s p) (ht : t ∈ p.opened) (kept : Bool) :
    Kept apply body compat s (p.abandon apply t kept) := by
  unfold TxPool.abandon
  split
  · next a hrest => exact h.store hbody ht hrest none fun r' hr' => by cases hr'
  · exact h.close fun r' hr' => by cases hr'

theorem Kept.turn (hsymm : ∀ v w, compat v w → compat w v)
    (hbody : ∀ call, Undisturbed apply compat (body call)) (h : Kept apply body compat s p)
    (a : TxTurn ι) : Kept apply body compat s (p.turn apply body a) := by
  cases a with
  | start call => exact h.start hbody call
  | advance id =>
    simp only [TxPool.turn]
    split
    · exact h
    · next t ht => exact h.advance hsymm hbody (List.mem_of_find?_eq_some ht)
  | abandon id kept =>
    simp only [TxPool.turn]
    split
    · exact h
    · next t ht => exact h.abandon hbody (List.mem_of_find?_eq_some ht) kept

/-- Undisturbed transactions take effect one by one, whatever turns they take. -/
theorem kept (hsymm : ∀ v w, compat v w → compat w v)
    (hbody : ∀ call, Undisturbed apply compat (body call)) (s : σ) (turns : List (TxTurn ι)) :
    Kept apply body compat s (after apply body s turns) := by
  have h₀ : Kept apply body compat s ({ committed := s } : TxPool σ ω ε α ι) := by
    constructor <;> simp [oneByOne]
  unfold after
  induction turns using List.reverseRecOn with
  | nil => exact h₀
  | append_singleton turns a ih =>
    rw [Run.run_append]
    exact ih.turn hsymm hbody a

/-- Every transaction, open or not, is that of the call of its number. -/
structure Numbered (calls : List ι) (p : TxPool σ ω ε α ι) : Prop where
  next : p.next = calls.length
  opened : ∀ t ∈ p.opened, calls[t.id]? = some t.call
  order : ∀ x ∈ p.order, calls[x.1]? = some x.2.1

section Numbered

variable {calls : List ι} {p : TxPool σ ω ε α ι} {t : OpenTx σ ω ε α ι}

theorem Numbered.start (h : Numbered calls p) (call : ι) :
    Numbered (calls ++ [call]) (p.turn apply body (.start call)) := by
  have hold : ∀ {i : ℕ} {c : ι}, calls[i]? = some c → (calls ++ [call])[i]? = some c := fun hi => by
    rw [List.getElem?_append_left (List.getElem?_eq_some_iff.1 hi).1, hi]
  have hnew : (calls ++ [call])[p.next]? = some call := by rw [h.next, List.getElem?_concat_length]
  refine ⟨?_, fun t ht => ?_, fun x hx => ?_⟩
  · simp [turn, h.next]
  · simp only [turn] at ht
    rcases List.mem_append.1 ht with ht | ht
    · exact hold (h.opened t ht)
    · obtain rfl := List.mem_singleton.1 ht
      exact hnew
  · simp only [turn] at hx
    rcases List.mem_append.1 hx with hx | hx
    · exact hold (h.order x hx)
    · rw [(mem_verdict hx).1, (mem_verdict hx).2]
      exact hnew

theorem Numbered.close (h : Numbered calls p) (r : Option (Except ε α)) :
    Numbered calls (p.close t r) :=
  ⟨h.next, fun t' ht' => h.opened t' (List.mem_of_mem_filter ht'), h.order⟩

theorem Numbered.store (h : Numbered calls p) (ht : t ∈ p.opened) (a : α) :
    Numbered calls (p.store apply t a) := by
  refine ⟨h.next, h.opened, fun x hx => ?_⟩
  rcases List.mem_append.1 hx with hx | hx
  · exact h.order x hx
  · obtain rfl := List.mem_singleton.1 hx
    exact h.opened t ht

theorem Numbered.proceed (h : Numbered calls p) (ht : t ∈ p.opened) (rest : Tx σ ω ε α)
    (changes : List ω) : Numbered calls (p.proceed t rest changes) := by
  refine ⟨h.next, fun t' ht' => ?_, fun x hx => ?_⟩
  · obtain ⟨t₀, ht₀, rfl⟩ := List.mem_map.1 ht'
    split_ifs
    · exact h.opened t ht
    · exact h.opened t₀ ht₀
  · rcases List.mem_append.1 hx with hx | hx
    · exact h.order x hx
    · rw [(mem_verdict hx).1, (mem_verdict hx).2]
      exact h.opened t ht

theorem Numbered.advance (h : Numbered calls p) (ht : t ∈ p.opened) :
    Numbered calls (p.advance apply t) := by
  unfold TxPool.advance
  split
  · exact (h.store ht _).close _
  · exact h.close _
  · split_ifs
    · exact h
    · exact h.proceed ht _ _

theorem Numbered.abandon (h : Numbered calls p) (ht : t ∈ p.opened) (kept : Bool) :
    Numbered calls (p.abandon apply t kept) := by
  unfold TxPool.abandon
  split
  · exact (h.store ht _).close _
  · exact h.close _

theorem numbered (s : σ) (turns : List (TxTurn ι)) :
    Numbered (TxTurn.calls turns) (after apply body s turns) := by
  unfold after
  induction turns using List.reverseRecOn with
  | nil => exact ⟨rfl, by simp [Run.run], by simp [Run.run]⟩
  | append_singleton turns a ih =>
    rw [Run.run_append, TxTurn.calls, List.filterMap_append]
    cases a with
    | start call =>
      have hstart : Numbered _ (turn apply body _ (.start call)) := ih.start call
      exact hstart
    | advance id =>
      simp only [List.filterMap_cons, List.filterMap_nil, List.append_nil]
      simp only [Run.run, List.foldl_cons, List.foldl_nil, turn]
      split
      · exact ih
      · next t ht => exact ih.advance (List.mem_of_find?_eq_some ht)
    | abandon id kept =>
      simp only [List.filterMap_cons, List.filterMap_nil, List.append_nil]
      simp only [Run.run, List.foldl_cons, List.foldl_nil, turn]
      split
      · exact ih
      · next t ht => exact ih.abandon (List.mem_of_find?_eq_some ht) kept

end Numbered

/-- What has taken effect stays where it is in the order. -/
theorem order_turn (p : TxPool σ ω ε α ι) (a : TxTurn ι) :
    p.order <+: (p.turn apply body a).order := by
  cases a with
  | start call => exact List.prefix_append _ _
  | advance id =>
    simp only [TxPool.turn]
    split
    · exact List.prefix_rfl
    · next t ht =>
      unfold TxPool.advance
      split
      · exact List.prefix_append _ _
      · exact List.prefix_rfl
      · split_ifs
        · exact List.prefix_rfl
        · exact List.prefix_append _ _
  | abandon id kept =>
    simp only [TxPool.turn]
    split
    · exact List.prefix_rfl
    · next t ht =>
      unfold TxPool.abandon
      split
      · exact List.prefix_append _ _
      · exact List.prefix_rfl

theorem order_after (s : σ) (turns more : List (TxTurn ι)) :
    (after apply body s turns).order <+: (after apply body s (turns ++ more)).order := by
  induction more using List.reverseRecOn with
  | nil => rw [List.append_nil]
  | append_singleton more a ih =>
    rw [← List.append_assoc]
    unfold after at ih ⊢
    rw [Run.run_append]
    exact ih.trans (order_turn _ a)

end TxPool

end WMonitor
