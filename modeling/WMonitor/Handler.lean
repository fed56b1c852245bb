import Mathlib.Tactic

/-!
# Handlers

A handler works on a state, step after step, and may stop early with a reason. The state it has when it
stops remains: nothing is rolled back. `wp` says what is to hold at the start for `stops` to hold of the
state if it stops and `returns` if it returns; its rules follow the steps.
-/

def Handler (σ ε α : Type) : Type := σ → Except ε α × σ

namespace Handler

variable {σ ε α β : Type}

instance : Monad (Handler σ ε) where
  pure a s := (.ok a, s)
  bind m f s :=
    match m s with
    | (.ok a, s') => f a s'
    | (.error e, s') => (.error e, s')

/-- Stop for this reason. -/
def refuse (e : ε) : Handler σ ε α := fun s => (.error e, s)

def refuseIf (c : Prop) [Decidable c] (e : ε) : Handler σ ε Unit :=
  if c then refuse e else pure ()

/-- The value, or stop for this reason if there is none. -/
def require (e : ε) : Option α → Handler σ ε α
  | some a => pure a
  | none => refuse e

def read (f : σ → α) : Handler σ ε α := fun s => (.ok (f s), s)

/-- A call that changes the state and answers. -/
def call (f : σ → σ × α) : Handler σ ε α := fun s => (.ok (f s).2, (f s).1)

/-- What is to hold of the state at the start. It is not unfolded, since that would run the handler. -/
@[irreducible] def wp (m : Handler σ ε α) (stops : σ → Prop) (returns : α → σ → Prop) (s : σ) : Prop :=
  match m s with
  | (.ok a, s') => returns a s'
  | (.error _, s') => stops s'

variable {stops stops' : σ → Prop} {returns returns' : α → σ → Prop} {s : σ}

@[simp] theorem wp_pure (a : α) : (pure a : Handler σ ε α).wp stops returns s ↔ returns a s := by
  unfold wp
  rfl

@[simp] theorem wp_bind (m : Handler σ ε α) (f : α → Handler σ ε β) {returns : β → σ → Prop} :
    (m >>= f).wp stops returns s ↔ m.wp stops (fun a => (f a).wp stops returns) s := by
  unfold wp
  simp only [bind]
  rcases m s with ⟨_ | a, s'⟩
  · rfl
  · rfl

@[simp] theorem wp_refuse (e : ε) : (refuse e : Handler σ ε α).wp stops returns s ↔ stops s := by
  unfold wp
  rfl

@[simp] theorem wp_refuseIf (c : Prop) [Decidable c] (e : ε) {returns : Unit → σ → Prop} :
    (refuseIf c e).wp stops returns s ↔ (c → stops s) ∧ (¬ c → returns () s) := by
  unfold refuseIf
  split_ifs with h
  · simp [h]
  · simp [h]

@[simp] theorem wp_require (e : ε) (x : Option α) :
    (require e x).wp stops returns s
      ↔ (x = none → stops s) ∧ ∀ a, x = some a → returns a s := by
  cases x with
  | none => simp [require]
  | some a => simp [require]

@[simp] theorem wp_read (f : σ → α) :
    (read f : Handler σ ε α).wp stops returns s ↔ returns (f s) s := by
  unfold wp
  rfl

@[simp] theorem wp_call (f : σ → σ × α) :
    (call f : Handler σ ε α).wp stops returns s ↔ returns (f s).2 (f s).1 := by
  unfold wp
  rfl

theorem wp_returned {a : α} (h : returns a s) : (pure a : Handler σ ε α).wp stops returns s :=
  (wp_pure a).mpr h

theorem wp_refused {e : ε} (h : stops s) : (refuse e : Handler σ ε α).wp stops returns s :=
  (wp_refuse e).mpr h

theorem wp_called {f : σ → σ × α} (h : returns (f s).2 (f s).1) :
    (call f : Handler σ ε α).wp stops returns s :=
  (wp_call f).mpr h

theorem wp_of_eq_ok {m : Handler σ ε α} {a : α} {s' : σ} (h : m s = (.ok a, s')) :
    m.wp stops returns s ↔ returns a s' := by
  unfold wp
  rw [h]

theorem wp_of_eq_error {m : Handler σ ε α} {e : ε} {s' : σ} (h : m s = (.error e, s')) :
    m.wp stops returns s ↔ stops s' := by
  unfold wp
  rw [h]

theorem wp_mono (m : Handler σ ε α) (h : m.wp stops returns s) (hstops : ∀ s, stops s → stops' s)
    (hreturns : ∀ a s, returns a s → returns' a s) : m.wp stops' returns' s := by
  unfold wp at h ⊢
  revert h
  rcases m s with ⟨_ | a, s'⟩
  · exact hstops s'
  · exact hreturns a s'

/-! ## Runs -/

section Runs

variable (s)

theorem run_refuseIf_bind (c : Prop) [Decidable c] (e : ε) (f : Unit → Handler σ ε β) :
    (refuseIf c e >>= f) s = if c then (.error e, s) else f () s := by
  unfold refuseIf
  split_ifs
  · rfl
  · rfl

theorem run_require_bind (e : ε) (x : Option α) (g : α → Handler σ ε β) :
    (require e x >>= g) s = match x with
      | some a => g a s
      | none => (.error e, s) := by
  cases x with
  | none => rfl
  | some a => rfl

theorem run_pure_bind (a : α) (g : α → Handler σ ε β) : (pure a >>= g) s = g a s := rfl

theorem run_call_bind (f : σ → σ × α) (g : α → Handler σ ε β) :
    (call f >>= g) s = g (f s).2 (f s).1 := rfl

theorem run_read_bind (f : σ → α) (g : α → Handler σ ε β) : (read f >>= g) s = g (f s) s := rfl

theorem run_bind_assoc (m : Handler σ ε α) (f : α → Handler σ ε β) {γ : Type}
    (g : β → Handler σ ε γ) : (m >>= f >>= g) s = (m >>= fun a => f a >>= g) s := by
  simp only [bind]
  rcases m s with ⟨_ | a, s'⟩
  · rfl
  · rfl

end Runs

/-! ## Sequences -/

variable {f : Unit → Handler σ ε β} {g : α → Handler σ ε β} {after : β → σ → Prop}

/-- A check that may stop the handler here. -/
theorem wp_refuseIf_bind {c : Prop} {_ : Decidable c} {e : ε} (hstops : stops s)
    (h : ¬ c → (f ()).wp stops after s) : (refuseIf c e >>= f).wp stops after s := by
  rw [wp_bind, wp_refuseIf]
  exact ⟨fun _ => hstops, h⟩

theorem wp_require_bind {e : ε} {x : Option α} (hstops : stops s)
    (h : ∀ a, x = some a → (g a).wp stops after s) : (require e x >>= g).wp stops after s := by
  rw [wp_bind, wp_require]
  exact ⟨fun _ => hstops, h⟩

/-- What holds wherever `m` leaves the state is enough to stop and to go on. -/
theorem wp_bind_of {m : Handler σ ε α} {here : σ → Prop} (hm : m.wp here (fun _ => here) s)
    (hstops : ∀ s, here s → stops s) (h : ∀ a s, here s → (g a).wp stops after s) :
    (m >>= g).wp stops after s := by
  rw [wp_bind]
  exact wp_mono m hm hstops h

end Handler
