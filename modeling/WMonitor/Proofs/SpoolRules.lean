import WMonitor.Proofs.SpoolSteps

/-!
# Rules for the queue's steps

What stays true for a thread that holds one of the mutexes, which changes the protocol allows it, and
the triples of the basic steps.
-/

namespace WMonitor

namespace Spool

variable {η θ α : Type} {U : URLs} {O : Outside η} {t : ℕ} {s s' : Spool η}

/-! ## What is stable -/

theorem Sees.regular (h : Sees O t s s') (hr : Regular s'.queue) : Regular s.queue :=
  ⟨List.prefix_nil.1 (hr.1 ▸ h.torn), hr.2.sublist h.names.sublist⟩

theorem stable_mu (P : Queue → Custody → Prop) :
    (protocol U O).Stable t fun s => s.mu = some t ∧ P s.queue s.custody := by
  rintro s s' - - h ⟨hmu, hp⟩
  obtain ⟨hmu', hq, hc⟩ := h.mu hmu
  exact ⟨hmu', by rwa [hq, hc]⟩

theorem stable_drain (P : Progress → Custody → (SegName → Option SealedView) → Prop) :
    (protocol U O).Stable t fun s =>
      s.drainMu = some t ∧ P s.progress s.custody (view s.queue s.custody) := by
  rintro s s' - - h ⟨hmu, hp⟩
  obtain ⟨hmu', hp', hc, hv⟩ := h.drainMu hmu
  exact ⟨hmu', by rwa [hv, hp', hc]⟩

theorem stable_both (P : Queue → Progress → Custody → Prop) :
    (protocol U O).Stable t fun s =>
      s.mu = some t ∧ s.drainMu = some t ∧ P s.queue s.progress s.custody := by
  rintro s s' - - h ⟨hmu, hdr, hp⟩
  obtain ⟨hmu', hq, hc⟩ := h.mu hmu
  obtain ⟨hdr', hp', -, -⟩ := h.drainMu hdr
  exact ⟨hmu', hdr', by rwa [hq, hp', hc]⟩

theorem stable_muHeld : (protocol U O).Stable t fun s => s.mu = some t :=
  fun _ _ _ _ h hmu => (h.mu hmu).1

theorem stable_drainHeld : (protocol U O).Stable t fun s => s.drainMu = some t :=
  fun _ _ _ _ h hmu => (h.drainMu hmu).1

theorem stable_bothHeld : (protocol U O).Stable t fun s => s.mu = some t ∧ s.drainMu = some t :=
  stable_muHeld.and stable_drainHeld

theorem stable_written (P : Written → Prop) :
    (protocol U O).Stable t fun s => ∃ w ∈ s.queue.written, P w := by
  rintro s s' - - h ⟨w, hw, hp⟩
  exact ⟨w, h.written.subset hw, hp⟩

/-! ## What is allowed -/

theorem view_congr {q q' : Queue} {c : Custody} (h : ∀ n ∈ listed c, q'.segs n = q.segs n ∧
    entriesOf q'.written n = entriesOf q.written n ∧ (n ∈ q'.torn ↔ n ∈ q.torn)) :
    view q' c = view q c := by
  funext n
  unfold view
  split_ifs with hn
  · obtain ⟨hs, he, ht⟩ := h n hn
    rw [hs, he]
    simp only [ht]
  · rfl

/-- Whoever holds `mu` may change its part, but not the sealed segments. -/
theorem allows_queue (hmu : s.mu = some t) {q : Queue}
    (hi : Inv U O q s.progress s.custody s.env) (hn : s.queue.names <+: q.names)
    (hw : s.queue.written <+: q.written) (ht : s.queue.torn <+: q.torn)
    (hv : view q s.custody = view s.queue s.custody) :
    (protocol U O).Allows t s { s with queue := q } where
  inv := hi
  sees u hu :=
    { Sees.refl O u s with
      names := hn
      written := hw
      torn := ht
      mu := fun h => absurd (Option.some.inj (hmu.symm.trans h)).symm hu
      drainMu := fun h => ⟨h, rfl, rfl, hv⟩ }

theorem allows_progress (hdr : s.drainMu = some t) {p : Progress}
    (hi : Inv U O s.queue p s.custody s.env)
    (hp : ∀ u, u ≠ t → p.presented.filter (fun g => g.op = u)
      = s.progress.presented.filter fun g => g.op = u) :
    (protocol U O).Allows t s { s with progress := p } where
  inv := hi
  sees u hu :=
    { Sees.refl O u s with
      presented := hp u hu
      drainMu := fun h => absurd (Option.some.inj (hdr.symm.trans h)).symm hu }

/-- Whoever holds both mutexes may change everything but the past and the environment. -/
theorem allows_both (hmu : s.mu = some t) (hdr : s.drainMu = some t) {q : Queue} {p : Progress}
    {c : Custody} (hi : Inv U O q p c s.env) (hn : s.queue.names <+: q.names)
    (hw : s.queue.written <+: q.written) (ht : s.queue.torn <+: q.torn)
    (hp : ∀ u, u ≠ t → p.presented.filter (fun g => g.op = u)
      = s.progress.presented.filter fun g => g.op = u)
    (hc : ∀ u, u ≠ t → c.passes.filter (fun g => g.op = u)
      = s.custody.passes.filter fun g => g.op = u) :
    (protocol U O).Allows t s { s with queue := q, progress := p, custody := c } where
  inv := hi
  sees u hu :=
    { Sees.refl O u s with
      names := hn
      written := hw
      torn := ht
      presented := hp u hu
      passes := hc u hu
      mu := fun h => absurd (Option.some.inj (hmu.symm.trans h)).symm hu
      drainMu := fun h => absurd (Option.some.inj (hdr.symm.trans h)).symm hu }

theorem allows_env (hi : (protocol U O).inv s) {e : η} (he : O.Allows t s.env e)
    (hc : s.queue.torn = [] → O.clean e) : (protocol U O).Allows t s { s with env := e } where
  inv := Inv.environment hi he.inv (he.sees (t + 1) (Nat.succ_ne_self t)) hc
  sees u hu := { Sees.refl O u s with env := he.sees u hu }

theorem allows_mu (hi : (protocol U O).inv s) (hmu : s.mu = none ∨ s.mu = some t) (m : Option ℕ) :
    (protocol U O).Allows t s { s with mu := m } where
  inv := hi
  sees u hu :=
    { Sees.refl O u s with
      mu := by
        intro h
        rw [h] at hmu
        rcases hmu with hmu | hmu
        · exact absurd hmu (Option.some_ne_none u)
        · exact absurd (Option.some.inj hmu) hu }

theorem allows_drainMu (hi : (protocol U O).inv s) (hdr : s.drainMu = none ∨ s.drainMu = some t)
    (m : Option ℕ) : (protocol U O).Allows t s { s with drainMu := m } where
  inv := hi
  sees u hu :=
    { Sees.refl O u s with
      drainMu := by
        intro h
        rw [h] at hdr
        rcases hdr with hdr | hdr
        · exact absurd hdr (Option.some_ne_none u)
        · exact absurd (Option.some.inj hdr) hu }

/-! ## Basic steps -/

section Rules

open Prog

variable {P : Spool η → Prop} {Q : α → Spool η → Prop} {E : SpoolError → Spool η → Prop}

theorem fileOp_triple {f : Spool η → Except SpoolError (α × Spool η)}
    (hP : (protocol U O).Stable t P) (hQ : ∀ a, (protocol U O).Stable t (Q a))
    (hE : ∀ e, (protocol U O).Stable t (E e)) (herr : ∀ e s, (protocol U O).inv s → P s → E e s)
    (h : ∀ s a s', (protocol U O).inv s → P s → f s = .ok (a, s') →
      (protocol U O).Allows t s s' ∧ Q a s') :
    Triple (protocol U O) t P (fileOp f : SpoolM η θ α) Q E := by
  refine Triple.act hP hQ hE ?_ ?_
  · intro s c a s' hi hs hf
    simp only [Option.some.injEq] at hf
    split_ifs at hf
    · split at hf
      · rename_i a' s'' hok
        obtain ⟨ha, rfl⟩ := Prod.mk.inj hf
        cases ha
        exact h s a _ hi hs hok
      · cases hf
    · cases hf
  · intro s c e s' hi hs hf
    simp only [Option.some.injEq] at hf
    split_ifs at hf
    · split at hf
      · cases hf
      · cases hf
        exact ⟨.idle hi, herr _ _ hi hs⟩
    · cases hf
      exact ⟨.idle hi, herr _ _ hi hs⟩

theorem touch_triple (hP : (protocol U O).Stable t P) :
    Triple (protocol U O) t P (touch : SpoolM η θ Unit) (fun _ => P) fun _ => P := by
  refine fileOp_triple hP (fun _ => hP) (fun _ => hP) (fun _ _ _ h => h) ?_
  rintro s a s' hi hs hf
  cases hf
  exact ⟨.idle hi, hs⟩

theorem spoolReplace_triple {f : Spool η → Spool η} {Q : Unit → Spool η → Prop}
    (hP : (protocol U O).Stable t P) (hQ : ∀ a, (protocol U O).Stable t (Q a))
    (hE : ∀ e, (protocol U O).Stable t (E e)) (herr : ∀ e s, (protocol U O).inv s → P s → E e s)
    (h : ∀ s, (protocol U O).inv s → P s →
      (protocol U O).Allows t s (f s) ∧ Q () (f s) ∧ ∀ e, E e (f s)) :
    Triple (protocol U O) t P (spoolReplace f : SpoolM η θ Unit) Q E := by
  refine Triple.act hP hQ hE ?_ ?_
  · intro s c a s' hi hs hf
    simp only [Option.some.injEq] at hf
    split at hf <;> cases hf
    exact ⟨(h s hi hs).1, (h s hi hs).2.1⟩
  · intro s c e s' hi hs hf
    simp only [Option.some.injEq] at hf
    split at hf <;> cases hf
    · exact ⟨.idle hi, herr _ _ hi hs⟩
    · exact ⟨(h s hi hs).1, (h s hi hs).2.2 _⟩

theorem clock_triple (hP : (protocol U O).Stable t P) :
    Triple (protocol U O) t P (clock : SpoolM η θ _) (fun _ => P) fun _ => P := by
  refine Triple.act hP (fun _ => hP) (fun _ => hP) ?_ ?_
  · rintro s c a s' hi hs hf
    cases hf
    exact ⟨.idle hi, hs⟩
  · rintro s c e s' - - hf
    cases hf

theorem lockMu_triple (hP : (protocol U O).Stable t P) (hE : ∀ e, (protocol U O).Stable t (E e))
    (hP' : ∀ s m, P s → P { s with mu := m }) :
    Triple (protocol U O) t P (lockMu t : SpoolM η θ Unit) (fun _ s => s.mu = some t ∧ P s) E := by
  refine Triple.act hP (fun _ => stable_muHeld.and hP) hE ?_ ?_
  · intro s c a s' hi hs hf
    split_ifs at hf with hmu
    cases hf
    exact ⟨allows_mu hi (.inl hmu) _, rfl, hP' s _ hs⟩
  · intro s c e s' _ _ hf
    split_ifs at hf
    cases hf

theorem unlockMu_triple (hP : (protocol U O).Stable t P) (hE : ∀ e, (protocol U O).Stable t (E e))
    (hP' : ∀ s m, P s → P { s with mu := m }) :
    Triple (protocol U O) t (fun s => s.mu = some t ∧ P s) (unlockMu : SpoolM η θ Unit)
      (fun _ => P) E :=
  Triple.modify (stable_muHeld.and hP) hP hE fun s hi hs =>
    ⟨allows_mu hi (.inr hs.1) none, hP' s none hs.2⟩

/-- A section under `mu` is verified as one that holds it throughout. -/
theorem locked_triple {p : SpoolM η θ α} (hP : (protocol U O).Stable t P)
    (hQ : ∀ a, (protocol U O).Stable t (Q a)) (hE : ∀ e, (protocol U O).Stable t (E e))
    (hP' : ∀ s m, P s → P { s with mu := m }) (hQ' : ∀ a s m, Q a s → Q a { s with mu := m })
    (hE' : ∀ e s m, E e s → E e { s with mu := m })
    (hp : Triple (protocol U O) t (fun s => s.mu = some t ∧ P s) p
      (fun a s => s.mu = some t ∧ Q a s) fun e s => s.mu = some t ∧ E e s) :
    Triple (protocol U O) t P (locked t p) Q E := by
  refine Triple.bind (lockMu_triple hP hE hP') fun _ => ?_
  refine Triple.bind hp.attempt fun r => ?_
  cases r with
  | ok a =>
    exact Triple.bind (unlockMu_triple (hQ a) hE (hQ' a)) fun _ => Triple.ret (hQ a) fun _ _ h => h
  | error e =>
    exact Triple.bind (unlockMu_triple (hE e) hE (hE' e)) fun _ => Triple.fail (hE e) fun _ _ h => h

variable {ε : Type} {E₂ : ε → Spool η → Prop}

theorem lockDrainMu_triple (hP : (protocol U O).Stable t P)
    (hE : ∀ e, (protocol U O).Stable t (E e)) (hP' : ∀ s m, P s → P { s with drainMu := m }) :
    Triple (protocol U O) t P (lockDrainMu t : SpoolM η θ Unit)
      (fun _ s => s.drainMu = some t ∧ P s) E := by
  refine Triple.act hP (fun _ => stable_drainHeld.and hP) hE ?_ ?_
  · intro s c a s' hi hs hf
    split_ifs at hf with hdr
    cases hf
    exact ⟨allows_drainMu hi (.inl hdr) _, rfl, hP' s _ hs⟩
  · intro s c e s' _ _ hf
    split_ifs at hf
    cases hf

theorem unlockDrainMu_triple (hP : (protocol U O).Stable t P)
    (hE : ∀ e, (protocol U O).Stable t (E e)) (hP' : ∀ s m, P s → P { s with drainMu := m }) :
    Triple (protocol U O) t (fun s => s.drainMu = some t ∧ P s) (unlockDrainMu : SpoolM η θ Unit)
      (fun _ => P) E :=
  Triple.modify (stable_drainHeld.and hP) hP hE fun s hi hs =>
    ⟨allows_drainMu hi (.inr hs.1) none, hP' s none hs.2⟩

/-- A section under `drainMu` is verified as one that holds it throughout. -/
theorem drainLocked_triple {p : Prog (Spool η) (Choice θ) ε α} {wrap : SpoolError → ε}
    (hP : (protocol U O).Stable t P) (hQ : ∀ a, (protocol U O).Stable t (Q a))
    (hE : ∀ e, (protocol U O).Stable t (E₂ e)) (hP' : ∀ s m, P s → P { s with drainMu := m })
    (hQ' : ∀ a s m, Q a s → Q a { s with drainMu := m })
    (hE' : ∀ e s m, E₂ e s → E₂ e { s with drainMu := m })
    (hp : Triple (protocol U O) t (fun s => s.drainMu = some t ∧ P s) p
      (fun a s => s.drainMu = some t ∧ Q a s) fun e s => s.drainMu = some t ∧ E₂ e s) :
    Triple (protocol U O) t P (drainLocked t wrap p) Q E₂ := by
  refine Triple.bind (lockDrainMu_triple hP (fun e => hE _) hP').mapError fun _ => ?_
  refine Triple.bind hp.attempt fun r => ?_
  cases r with
  | ok a =>
    exact Triple.bind (unlockDrainMu_triple (hQ a) (fun e => hE _) (hQ' a)).mapError
      fun _ => Triple.ret (hQ a) fun _ _ h => h
  | error e =>
    exact Triple.bind (unlockDrainMu_triple (hE e) (fun e => hE _) (hE' e)).mapError
      fun _ => Triple.fail (hE e) fun _ _ h => h

end Rules

end Spool

end WMonitor
