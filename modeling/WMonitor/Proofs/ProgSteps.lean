import WMonitor.Proofs.Prog

/-!
# The steps of one program

`Each` says of a program that each of its steps, in whatever state it is taken, is of some kind, and each
of its failures too; it follows from the program's text alone. `Gives` is the same for what it returns. `Ran` is a program's run among others: the
list of its own steps, each with the state before and after it, and between them what a protocol lets it
see. Every call that a pool has finished has run like that (`Pool.ran`).
-/

namespace WMonitor

namespace Prog

variable {σ κ ε ε' α β : Type}

/-! ## Each step -/

def Each (R : σ → σ → Prop) (E : ε → Prop) : Prog σ κ ε α → Prop
  | ret _ => True
  | fail e => E e
  | step f k => ∀ s c b s', f s c = some (b, s') → R s s' ∧ Each R E (k b)

section Each

variable {R : σ → σ → Prop} {E : ε → Prop} {p : Prog σ κ ε α}

theorem Each.pure (a : α) : Each R E (pure a : Prog σ κ ε α) := trivial

theorem Each.bind {q : α → Prog σ κ ε β} (hp : Each R E p) (hq : ∀ a, Each R E (q a)) :
    Each R E (p >>= q) := by
  change Each R E (p.bind q)
  induction p with
  | ret a => exact hq a
  | fail e => exact hp
  | step f k ih => exact fun s c b s' hf => ⟨(hp s c b s' hf).1, ih b (hp s c b s' hf).2⟩

theorem Each.attempt {F : ε' → Prop} (hp : Each R E p) :
    Each R F (p.attempt : Prog σ κ ε' (Except ε α)) := by
  induction p with
  | ret a => exact trivial
  | fail e => exact trivial
  | step f k ih => exact fun s c b s' hf => ⟨(hp s c b s' hf).1, ih b (hp s c b s' hf).2⟩

/-- What follows an attempt is given its failures. -/
theorem Each.attempt_bind {F : ε' → Prop} {q : Except ε α → Prog σ κ ε' β} (hp : Each R E p)
    (hok : ∀ a, Each R F (q (.ok a))) (herr : ∀ e, E e → Each R F (q (.error e))) :
    Each R F (p.attempt >>= q) := by
  change Each R F (p.attempt.bind q)
  induction p with
  | ret a => exact hok a
  | fail e => exact herr e hp
  | step f k ih => exact fun s c b s' hf => ⟨(hp s c b s' hf).1, ih b (hp s c b s' hf).2⟩

theorem Each.mapError {g : ε → ε'} {F : ε' → Prop} (hp : Each R (fun e => F (g e)) p) :
    Each R F (p.mapError g) := by
  induction p with
  | ret a => exact trivial
  | fail e => exact hp
  | step f k ih => exact fun s c b s' hf => ⟨(hp s c b s' hf).1, ih b (hp s c b s' hf).2⟩

theorem Each.act {f : σ → κ → Option (Except ε α × σ)}
    (hok : ∀ s c a s', f s c = some (.ok a, s') → R s s')
    (herr : ∀ s c e s', f s c = some (.error e, s') → R s s' ∧ E e) : Each R E (act f) := by
  intro s c b s' hf
  cases b with
  | ok a => exact ⟨hok s c a s' hf, trivial⟩
  | error e => exact herr s c e s' hf

theorem Each.read (f : σ → α) (hrefl : ∀ s, R s s) : Each R E (read f : Prog σ κ ε α) := by
  refine Each.act ?_ ?_
  · rintro s c a s' hf
    cases hf
    exact hrefl s
  · rintro s c e s' hf
    cases hf

theorem Each.modify {f : σ → σ} (h : ∀ s, R s (f s)) : Each R E (modify f : Prog σ κ ε Unit) := by
  refine Each.act ?_ ?_
  · rintro s c a s' hf
    cases hf
    exact h s
  · rintro s c e s' hf
    cases hf

theorem Each.failIf {c : Prop} [Decidable c] {e : ε} (h : c → E e) :
    Each R E (failIf c e : Prog σ κ ε Unit) := by
  unfold Prog.failIf
  split_ifs with hc
  · exact h hc
  · exact trivial

/-- A program of steps that a protocol allows from `P`, and that keep `P`. -/
theorem Each.triple {Γ : Protocol σ} {t : ℕ} {P : σ → Prop} (h : Each R E p) (hP : Γ.Stable t P)
    (hR : ∀ s s', Γ.inv s → P s → R s s' → Γ.Allows t s s' ∧ P s') :
    Triple Γ t P p (fun _ => P) fun _ => P := by
  refine ⟨fun s hi hs => ?_⟩
  induction p generalizing s with
  | ret a => exact fun s' hi' hsees => hP hi hi' hsees hs
  | fail e => exact fun s' hi' hsees => hP hi hi' hsees hs
  | step f k ih =>
    intro s' c b s'' hi' hsees hf
    obtain ⟨hstep, hk⟩ := h s' c b s'' hf
    obtain ⟨ha, hs''⟩ := hR s' s'' hi' (hP hi hi' hsees hs) hstep
    exact ⟨ha, ih b hk s'' ha.inv hs''⟩

end Each

/-! ## What is returned -/

/-- Whatever the program returns satisfies `Q`; like `Each`, by its text alone. -/
def Gives (Q : α → Prop) : Prog σ κ ε α → Prop
  | ret a => Q a
  | fail _ => True
  | step _ k => ∀ b, Gives Q (k b)

theorem Gives.bind {Q : β → Prop} {p : Prog σ κ ε α} {q : α → Prog σ κ ε β} (hq : ∀ a, Gives Q (q a)) :
    Gives Q (p >>= q) := by
  change Gives Q (p.bind q)
  induction p with
  | ret a => exact hq a
  | fail e => exact trivial
  | step f k ih => exact fun b => ih b

/-- What comes next may differ on what is never returned. -/
theorem Gives.bind_congr {Q : α → Prop} {p : Prog σ κ ε α} {q q' : α → Prog σ κ ε β} (hp : Gives Q p)
    (h : ∀ a, Q a → q a = q' a) : p >>= q = p >>= q' := by
  change p.bind q = p.bind q'
  induction p with
  | ret a => exact h a hp
  | fail e => rfl
  | step f k ih => exact congrArg (step f) (funext fun b => ih b (hp b))

/-! ## A run among others -/

/-- A step that was taken: from which state, under which choice, to which state. -/
structure Step (σ κ : Type) where
  before : σ
  choice : κ
  after : σ

/-- The program runs from a state it has seen, taking `steps`, and returns or fails in a state. -/
def Ran (Γ : Protocol σ) (t : ℕ) :
    Prog σ κ ε α → σ → List (Step σ κ) → Except ε α → σ → Prop
  | ret a, s, steps, r, s' => steps = [] ∧ r = .ok a ∧ s' = s
  | fail e, s, steps, r, s' => steps = [] ∧ r = .error e ∧ s' = s
  | step f k, s, steps, r, s' => ∃ s₁ c b s₂ rest, Γ.inv s₁ ∧ Γ.sees t s s₁ ∧
      f s₁ c = some (b, s₂) ∧ steps = ⟨s₁, c, s₂⟩ :: rest ∧ Ran Γ t (k b) s₂ rest r s'

section Ran

variable {Γ : Protocol σ} {t : ℕ} {p : Prog σ κ ε α} {s s' : σ} {steps : List (Step σ κ)}
  {r : Except ε α}

/-- What was seen before the first step may have been seen earlier. -/
theorem Ran.earlier {s₀ : σ} (hsees : Γ.sees t s₀ s) (h : Ran Γ t p s steps r s') :
    ∃ s', Ran Γ t p s₀ steps r s' := by
  cases p with
  | ret a => exact ⟨s₀, h.1, h.2.1, rfl⟩
  | fail e => exact ⟨s₀, h.1, h.2.1, rfl⟩
  | step f k =>
    obtain ⟨s₁, c, b, s₂, rest, hi, hs, hf, hsteps, hk⟩ := h
    exact ⟨s', s₁, c, b, s₂, rest, hi, Γ.trans hsees hs, hf, hsteps, hk⟩

theorem Ran.bind_inv {q : α → Prog σ κ ε β} {r : Except ε β} (h : Ran Γ t (p >>= q) s steps r s') :
    (∃ e, r = .error e ∧ Ran Γ t p s steps (.error e) s') ∨
      ∃ a steps₁ steps₂ s₁, steps = steps₁ ++ steps₂ ∧ Ran Γ t p s steps₁ (.ok a) s₁ ∧
        Ran Γ t (q a) s₁ steps₂ r s' := by
  change Ran Γ t (p.bind q) s steps r s' at h
  induction p generalizing s steps with
  | ret a => exact .inr ⟨a, [], steps, s, rfl, ⟨rfl, rfl, rfl⟩, h⟩
  | fail e => exact .inl ⟨e, h.2.1, h.1, rfl, h.2.2⟩
  | step f k ih =>
    obtain ⟨s₁, c, b, s₂, rest, hi, hs, hf, rfl, hk⟩ := h
    rcases ih b hk with ⟨e, rfl, he⟩ | ⟨a, steps₁, steps₂, s₃, rfl, hp, hq⟩
    · exact .inl ⟨e, rfl, s₁, c, b, s₂, rest, hi, hs, hf, rfl, he⟩
    · exact .inr ⟨a, ⟨s₁, c, s₂⟩ :: steps₁, steps₂, s₃, rfl,
        ⟨s₁, c, b, s₂, steps₁, hi, hs, hf, rfl, hp⟩, hq⟩

theorem Ran.attempt_inv {r : Except ε' (Except ε α)}
    (h : Ran Γ t (p.attempt : Prog σ κ ε' (Except ε α)) s steps r s') :
    ∃ r', r = .ok r' ∧ Ran Γ t p s steps r' s' := by
  induction p generalizing s steps with
  | ret a => exact ⟨.ok a, h.2.1, h.1, rfl, h.2.2⟩
  | fail e => exact ⟨.error e, h.2.1, h.1, rfl, h.2.2⟩
  | step f k ih =>
    obtain ⟨s₁, c, b, s₂, rest, hi, hs, hf, rfl, hk⟩ := h
    obtain ⟨r', rfl, hr'⟩ := ih b hk
    exact ⟨r', rfl, s₁, c, b, s₂, rest, hi, hs, hf, rfl, hr'⟩

theorem Ran.mapError_inv {g : ε → ε'} {r : Except ε' α} (h : Ran Γ t (p.mapError g) s steps r s') :
    ∃ r', r = r'.mapError g ∧ Ran Γ t p s steps r' s' := by
  induction p generalizing s steps with
  | ret a => exact ⟨.ok a, h.2.1, h.1, rfl, h.2.2⟩
  | fail e => exact ⟨.error e, h.2.1, h.1, rfl, h.2.2⟩
  | step f k ih =>
    obtain ⟨s₁, c, b, s₂, rest, hi, hs, hf, rfl, hk⟩ := h
    obtain ⟨r', rfl, hr'⟩ := ih b hk
    exact ⟨r', rfl, s₁, c, b, s₂, rest, hi, hs, hf, rfl, hr'⟩

theorem Ran.act_inv {f : σ → κ → Option (Except ε α × σ)} (h : Ran Γ t (act f) s steps r s') :
    ∃ s₁ c, Γ.sees t s s₁ ∧ f s₁ c = some (r, s') ∧ steps = [⟨s₁, c, s'⟩] := by
  obtain ⟨s₁, c, b, s₂, rest, -, hs, hf, rfl, hk⟩ := h
  cases b with
  | ok a =>
    obtain ⟨rfl, rfl, rfl⟩ := hk
    exact ⟨s₁, c, hs, hf, rfl⟩
  | error e =>
    obtain ⟨rfl, rfl, rfl⟩ := hk
    exact ⟨s₁, c, hs, hf, rfl⟩

theorem Ran.each {R : σ → σ → Prop} {E : ε → Prop} (h : Ran Γ t p s steps r s') (he : Each R E p) :
    (∀ x ∈ steps, R x.before x.after) ∧ ∀ e, r = .error e → E e := by
  induction p generalizing s steps with
  | ret a =>
    obtain ⟨rfl, rfl, -⟩ := h
    exact ⟨by simp, by simp⟩
  | fail e =>
    obtain ⟨rfl, rfl, -⟩ := h
    refine ⟨by simp, fun e' he' => ?_⟩
    cases he'
    exact he
  | step f k ih =>
    obtain ⟨s₁, c, b, s₂, rest, -, -, hf, rfl, hk⟩ := h
    obtain ⟨hstep, hrest⟩ := he s₁ c b s₂ hf
    obtain ⟨hsteps, herr⟩ := ih b hk hrest
    refine ⟨fun x hx => ?_, herr⟩
    rcases List.mem_cons.1 hx with rfl | hx
    · exact hstep
    · exact hsteps x hx

/-- What neither the program's steps nor the others put an end to. -/
theorem Ran.keeps {R : σ → σ → Prop} {E : ε → Prop} {P : σ → Prop} (h : Ran Γ t p s steps r s')
    (he : Each R E p) (hsees : ∀ s s', Γ.sees t s s' → P s → P s') (hR : ∀ s s', R s s' → P s → P s')
    (hs : P s) : P s' := by
  induction p generalizing s steps with
  | ret a => exact h.2.2 ▸ hs
  | fail e => exact h.2.2 ▸ hs
  | step f k ih =>
    obtain ⟨s₁, c, b, s₂, rest, -, hsee, hf, -, hk⟩ := h
    obtain ⟨hstep, hrest⟩ := he s₁ c b s₂ hf
    exact ih b hk hrest (hR s₁ s₂ hstep (hsees s s₁ hsee hs))

end Ran

end Prog

namespace Pool

open Prog

variable {σ κ ε α ι η : Type}

/-- The step that a turn lets call `id` take. -/
def stepOf (p : Pool σ κ ε α ι) (id : ℕ) : Turn κ ι η → Option (Step σ κ)
  | .thread id' c =>
    if id' = id then
      match p.threads.find? fun th => th.id = id' with
      | none => none
      | some th =>
        match th.prog with
        | .step f _ => (f p.shared c).map fun b => ⟨p.shared, c, b.2⟩
        | _ => none
    else none
  | _ => none

/-- The steps that call `id` takes in a list of turns, with the states before and after each. -/
def stepsOf (S : Service σ κ ε α ι η) (id : ℕ) : Pool σ κ ε α ι → List (Turn κ ι η) → List (Step σ κ)
  | _, [] => []
  | p, a :: turns => (p.stepOf id a).toList ++ stepsOf S id (p.turn S a) turns

section Trace

variable {S : Service σ κ ε α ι η} {Γ : Protocol σ} {fresh : ℕ → σ → Prop}
  {post : ι → ℕ → Except ε α → σ → Prop} {p : Pool σ κ ε α ι} {th : Thread σ κ ε α ι}

theorem stepsOf_append (id : ℕ) (p : Pool σ κ ε α ι) (turns turns' : List (Turn κ ι η)) :
    stepsOf S id p (turns ++ turns')
      = stepsOf S id p turns ++ stepsOf S id (Run.run (turn S) p turns) turns' := by
  induction turns generalizing p with
  | nil => rfl
  | cons a turns ih =>
    rw [List.cons_append, stepsOf, ih, stepsOf, List.append_assoc]
    rfl

/-- What the calls of a pool have done: `steps` for each. A run that goes on from where a call is now is
a run of the whole call. -/
structure Traced (S : Service σ κ ε α ι η) (Γ : Protocol σ) (p : Pool σ κ ε α ι)
    (steps : ℕ → List (Step σ κ)) : Prop where
  running : ∀ th ∈ p.threads, ∃ s₀, ∀ rest r s', Ran Γ th.id th.prog p.shared rest r s' →
    ∃ s', Ran Γ th.id (S.body th.call th.id) s₀ (steps th.id ++ rest) r s'
  finished : ∀ x ∈ p.results, ∃ s₀ s', Ran Γ x.1 (S.body x.2.1 x.1) s₀ (steps x.1) x.2.2 s'
  unstarted : ∀ id, p.next ≤ id → steps id = []

/-- A change of the state that the running calls may see. -/
theorem Traced.change {steps : ℕ → List (Step σ κ)} (h : Traced S Γ p steps) {s : σ}
    (hs : ∀ th ∈ p.threads, Γ.sees th.id p.shared s) : Traced S Γ { p with shared := s } steps where
  running th hth := by
    obtain ⟨s₀, hrun⟩ := h.running th hth
    refine ⟨s₀, fun rest r s' hr => ?_⟩
    obtain ⟨s'', hr'⟩ := hr.earlier (hs th hth)
    exact hrun rest r s'' hr'
  finished := h.finished
  unstarted := h.unstarted

theorem Traced.start {steps : ℕ → List (Step σ κ)} (h : Traced S Γ p steps) (call : ι) :
    Traced S Γ (p.turn S (.start call)) steps where
  running th hth := by
    rcases List.mem_append.1 hth with hth | hth
    · exact h.running th hth
    · obtain rfl := List.mem_singleton.1 hth
      refine ⟨p.shared, fun rest r s' hr => ⟨s', ?_⟩⟩
      rw [h.unstarted p.next le_rfl]
      exact hr
  finished := h.finished
  unstarted id hid := h.unstarted id (Nat.le_of_succ_le hid)

theorem Traced.finish {steps : ℕ → List (Step σ κ)} (h : Traced S Γ p steps) (hth : th ∈ p.threads)
    {r : Except ε α} (hr : Ran Γ th.id th.prog p.shared [] r p.shared) :
    Traced S Γ (p.finish th r) steps where
  running th' hth' := h.running th' (List.mem_of_mem_filter hth')
  finished x hx := by
    rcases List.mem_append.1 hx with hx | hx
    · exact h.finished x hx
    · obtain rfl := List.mem_singleton.1 hx
      obtain ⟨s₀, hrun⟩ := h.running th hth
      obtain ⟨s', hr'⟩ := hrun [] r p.shared hr
      exact ⟨s₀, s', by simpa using hr'⟩
  unstarted := h.unstarted

/-- One step of a call, which adds to its steps and shows the others what they may see. -/
theorem Traced.goOn {steps : ℕ → List (Step σ κ)} (hk : Kept Γ fresh post p) (h : Traced S Γ p steps)
    (hth : th ∈ p.threads) {β : Type} {f : σ → κ → Option (β × σ)} {k : β → Prog σ κ ε α} {c : κ} {b : β}
    {s : σ} (hprog : th.prog = .step f k) (hf : f p.shared c = some (b, s))
    (ha : Γ.Allows th.id p.shared s) :
    Traced S Γ (p.goOn th s (k b))
      (Function.update steps th.id (steps th.id ++ [⟨p.shared, c, s⟩])) where
  running th' hth' := by
    obtain ⟨th₀, hth₀, rfl⟩ := List.mem_map.1 hth'
    split_ifs with hid
    · obtain ⟨s₀, hrun⟩ := h.running th hth
      refine ⟨s₀, fun rest r s' hr => ?_⟩
      rw [hprog] at hrun
      rw [Function.update_self, List.append_assoc]
      exact hrun (⟨p.shared, c, s⟩ :: rest) r s'
        ⟨p.shared, c, b, s, rest, hk.inv, Γ.refl _ _, hf, rfl, hr⟩
    · obtain ⟨s₀, hrun⟩ := h.running th₀ hth₀
      refine ⟨s₀, fun rest r s' hr => ?_⟩
      rw [Function.update_of_ne hid]
      obtain ⟨s'', hr'⟩ := hr.earlier (ha.sees th₀.id hid)
      exact hrun rest r s'' hr'
  finished x hx := by
    rw [Function.update_of_ne (hk.apart th hth x hx).symm]
    exact h.finished x hx
  unstarted id hid := by
    rw [Function.update_of_ne ((hk.ids th hth).trans_le hid).ne']
    exact h.unstarted id hid

theorem stepOf_thread (id : ℕ) (c : κ) (u : ℕ)
    (hth : p.threads.find? (fun th => decide (th.id = id)) = some th) :
    p.stepOf u (.thread id c : Turn κ ι η) = if id = u then
      match th.prog with
      | .step f _ => (f p.shared c).map fun b => ⟨p.shared, c, b.2⟩
      | _ => none
    else none := by
  rw [stepOf, hth]

theorem Traced.turn (hS : Sound S Γ fresh post) (hk : Kept Γ fresh post p) {steps : ℕ → List (Step σ κ)}
    (h : Traced S Γ p steps) (a : Turn κ ι η) :
    Traced S Γ (p.turn S a) fun u => steps u ++ (p.stepOf u a).toList := by
  cases a with
  | start call => simpa [stepOf] using h.start call
  | env e =>
    simpa [stepOf, Pool.turn] using h.change fun th _ => (hS.env p.shared e hk.inv).2 th.id
  | restart =>
    refine ⟨by simp [Pool.turn], ?_, ?_⟩
    · simpa [stepOf, Pool.turn] using h.finished
    · simpa [stepOf, Pool.turn] using h.unstarted
  | thread id c =>
    simp only [Pool.turn]
    split
    · next hnone =>
      have hstep : ∀ u, p.stepOf u (.thread id c : Turn κ ι η) = none := fun u => by
        rw [stepOf, hnone, ite_self]
      simpa [hstep] using h
    · next th hsome =>
      have hth := List.mem_of_find?_eq_some hsome
      have hid : th.id = id := by simpa using List.find?_some hsome
      have hstep := fun u => stepOf_thread (η := η) id c u hsome
      have hsafe := hk.safe th hth
      unfold Pool.advance
      cases hp : th.prog with
      | ret a =>
        have hquiet : ∀ u, p.stepOf u (.thread id c : Turn κ ι η) = none := fun u => by
          rw [hstep u, hp, ite_self]
        simpa [hquiet] using h.finish hth (r := .ok a) (by rw [hp]; exact ⟨rfl, rfl, rfl⟩)
      | fail e =>
        have hquiet : ∀ u, p.stepOf u (.thread id c : Turn κ ι η) = none := fun u => by
          rw [hstep u, hp, ite_self]
        simpa [hquiet] using h.finish hth (r := .error e) (by rw [hp]; exact ⟨rfl, rfl, rfl⟩)
      | step f k =>
        rw [hp] at hsafe
        simp only [hp] at hstep
        dsimp only
        split
        · next hnone =>
          have hquiet : ∀ u, p.stepOf u (.thread id c : Turn κ ι η) = none := fun u => by
            rw [hstep u, hnone, Option.map_none, ite_self]
          simpa [hquiet] using h
        · next b s hf =>
          obtain ⟨ha, -⟩ := hsafe _ c b s hk.inv (Γ.refl _ _) hf
          have hupdate : (fun u => steps u ++ (p.stepOf u (.thread id c : Turn κ ι η)).toList)
              = Function.update steps th.id (steps th.id ++ [⟨p.shared, c, s⟩]) := by
            funext u
            rw [hstep u, hf, ← hid]
            by_cases hu : th.id = u
            · subst hu
              simp
            · rw [if_neg hu, Function.update_of_ne (Ne.symm hu)]
              simp
          rw [hupdate]
          exact h.goOn hk hth hp hf ha

/-- What every finished call of a pool has done. -/
theorem ran (hS : Sound S Γ fresh post) {s : σ} (hi : Γ.inv s) (hf : ∀ t, fresh t s)
    (turns : List (Turn κ ι η)) {id : ℕ} {call : ι} {r : Except ε α}
    (hr : (id, call, r) ∈ (after S s turns).results) :
    ∃ s₀ s', Ran Γ id (S.body call id) s₀ (stepsOf S id { shared := s } turns) r s' := by
  have htraced : Traced S Γ (after S s turns) fun u => stepsOf S u { shared := s } turns := by
    clear hr
    induction turns using List.reverseRecOn with
    | nil => exact ⟨by simp [after, Run.run], by simp [after, Run.run], fun _ _ => rfl⟩
    | append_singleton turns a ih =>
      have hturn := ih.turn hS (sound hS hi hf turns) a
      simp only [stepsOf_append, stepsOf, List.append_nil]
      rw [after, Run.run_append]
      exact hturn
  exact htraced.finished _ hr

end Trace

end Pool

end WMonitor
