import WMonitor.Prog

/-!
# Safety under interference

A protocol is an invariant of the shared state and, for each thread, what it may see the others do.
A program is safe for a thread if, whatever it sees between its steps, each of its steps keeps the
invariant and shows every other thread only what that may see. `Triple` states this with what holds
before and after, and `Pool.sound` is the rule for a whole pool: if the body of every call is safe,
the invariant holds after every list of turns, and so does what the calls promised on return.
-/

namespace WMonitor

structure Protocol (σ : Type) where
  inv : σ → Prop
  sees : ℕ → σ → σ → Prop
  refl : ∀ t s, sees t s s
  trans : ∀ {t a b c}, sees t a b → sees t b c → sees t a c

namespace Protocol

variable {σ : Type} (Γ : Protocol σ) (t : ℕ)

/-- Thread `t` may take the state from `s` to `s'`. -/
structure Allows (s s' : σ) : Prop where
  inv : Γ.inv s'
  sees : ∀ u, u ≠ t → Γ.sees u s s'

/-- What holds before a thread's next step whatever it sees in between. -/
def Stable (P : σ → Prop) : Prop :=
  ∀ ⦃s s'⦄, Γ.inv s → Γ.inv s' → Γ.sees t s s' → P s → P s'

variable {Γ t} {s : σ}

theorem Allows.idle (h : Γ.inv s) : Γ.Allows t s s := ⟨h, fun u _ => Γ.refl u s⟩

theorem Stable.and {P Q : σ → Prop} (hP : Γ.Stable t P) (hQ : Γ.Stable t Q) :
    Γ.Stable t fun s => P s ∧ Q s :=
  fun _ _ hs hs' h hpq => ⟨hP hs hs' h hpq.1, hQ hs hs' h hpq.2⟩

theorem Stable.const (p : Prop) : Γ.Stable t fun _ => p := fun _ _ _ _ _ h => h

end Protocol

namespace Prog

variable {σ κ ε ε' α β : Type} (Γ : Protocol σ) (t : ℕ)

def Safe (Q : α → σ → Prop) (E : ε → σ → Prop) : Prog σ κ ε α → σ → Prop
  | ret a, s => ∀ s', Γ.inv s' → Γ.sees t s s' → Q a s'
  | fail e, s => ∀ s', Γ.inv s' → Γ.sees t s s' → E e s'
  | step f k, s => ∀ s' c b s'', Γ.inv s' → Γ.sees t s s' → f s' c = some (b, s'') →
      Γ.Allows t s' s'' ∧ Safe Q E (k b) s''

/-- From `P` the program is safe, returns with `Q` and fails with `E`. -/
structure Triple (P : σ → Prop) (p : Prog σ κ ε α) (Q : α → σ → Prop) (E : ε → σ → Prop) :
    Prop where
  safe : ∀ s, Γ.inv s → P s → Safe Γ t Q E p s

variable {Γ t} {P H : σ → Prop} {p : Prog σ κ ε α} {Q R : α → σ → Prop} {E F : ε → σ → Prop}
  {s s' : σ}

theorem Safe.later (h : Safe Γ t Q E p s) (hs : Γ.sees t s s') : Safe Γ t Q E p s' := by
  cases p with
  | ret a => exact fun s'' hi h' => h s'' hi (Γ.trans hs h')
  | fail e => exact fun s'' hi h' => h s'' hi (Γ.trans hs h')
  | step f k => exact fun a c b s'' hi h' hf => h a c b s'' hi (Γ.trans hs h') hf

theorem Safe.mono (h : Safe Γ t R F p s) (hQ : ∀ a s, Γ.inv s → R a s → Q a s)
    (hE : ∀ e s, Γ.inv s → F e s → E e s) : Safe Γ t Q E p s := by
  induction p generalizing s with
  | ret a => exact fun s' hi hs => hQ a s' hi (h s' hi hs)
  | fail e => exact fun s' hi hs => hE e s' hi (h s' hi hs)
  | step f k ih =>
    intro s' c b s'' hi hs hf
    obtain ⟨ha, hk⟩ := h s' c b s'' hi hs hf
    exact ⟨ha, ih b hk⟩

theorem Triple.conseq (h : Triple Γ t H p R F) (hP : ∀ s, Γ.inv s → P s → H s)
    (hQ : ∀ a s, Γ.inv s → R a s → Q a s) (hE : ∀ e s, Γ.inv s → F e s → E e s) :
    Triple Γ t P p Q E :=
  ⟨fun s hi hs => (h.safe s hi (hP s hi hs)).mono hQ hE⟩

theorem Triple.pre (h : Triple Γ t H p Q E) (hP : ∀ s, Γ.inv s → P s → H s) :
    Triple Γ t P p Q E :=
  ⟨fun s hi hs => h.safe s hi (hP s hi hs)⟩

theorem Triple.assume {c : Prop} (h : c → Triple Γ t P p Q E) :
    Triple Γ t (fun s => c ∧ P s) p Q E :=
  ⟨fun s hi hs => (h hs.1).safe s hi hs.2⟩

/-- What everybody goes on to see stays true beside a program. -/
theorem Triple.frame {R : σ → Prop} (h : Triple Γ t P p Q E)
    (hR : ∀ u s s', Γ.sees u s s' → R s → R s') :
    Triple Γ t (fun s => P s ∧ R s) p (fun a s => Q a s ∧ R s) fun e s => E e s ∧ R s := by
  refine ⟨fun s hi hs => ?_⟩
  obtain ⟨hs, hr⟩ := hs
  have hsafe := h.safe s hi hs
  clear h hs
  induction p generalizing s with
  | ret a => exact fun s' hi' hsees => ⟨hsafe s' hi' hsees, hR t s s' hsees hr⟩
  | fail e => exact fun s' hi' hsees => ⟨hsafe s' hi' hsees, hR t s s' hsees hr⟩
  | step f k ih =>
    intro s' c b s'' hi' hsees hf
    obtain ⟨ha, hk⟩ := hsafe s' c b s'' hi' hsees hf
    exact ⟨ha, ih b s'' ha.inv (hR _ _ _ (ha.sees (t + 1) (Nat.succ_ne_self t))
      (hR t s s' hsees hr)) hk⟩

theorem Triple.ret {a : α} (hQ : Γ.Stable t (Q a)) (h : ∀ s, Γ.inv s → P s → Q a s) :
    Triple Γ t P (ret a : Prog σ κ ε α) Q E :=
  ⟨fun s hi hs _ hi' hsees => hQ hi hi' hsees (h s hi hs)⟩

theorem Triple.fail {e : ε} (hE : Γ.Stable t (E e)) (h : ∀ s, Γ.inv s → P s → E e s) :
    Triple Γ t P (fail e : Prog σ κ ε α) Q E :=
  ⟨fun s hi hs _ hi' hsees => hE hi hi' hsees (h s hi hs)⟩

theorem Triple.act {f : σ → κ → Option (Except ε α × σ)} (hP : Γ.Stable t P)
    (hQ : ∀ a, Γ.Stable t (Q a)) (hE : ∀ e, Γ.Stable t (E e))
    (hok : ∀ s c a s', Γ.inv s → P s → f s c = some (.ok a, s') → Γ.Allows t s s' ∧ Q a s')
    (herr : ∀ s c e s', Γ.inv s → P s → f s c = some (.error e, s') →
      Γ.Allows t s s' ∧ E e s') :
    Triple Γ t P (act f) Q E := by
  refine ⟨fun s hi hs s₁ c r s₂ hi₁ hsees hf => ?_⟩
  have hs₁ := hP hi hi₁ hsees hs
  cases r with
  | ok a =>
    obtain ⟨ha, hq⟩ := hok s₁ c a s₂ hi₁ hs₁ hf
    exact ⟨ha, fun s₃ hi₃ h₃ => hQ a ha.inv hi₃ h₃ hq⟩
  | error e =>
    obtain ⟨ha, he⟩ := herr s₁ c e s₂ hi₁ hs₁ hf
    exact ⟨ha, fun s₃ hi₃ h₃ => hE e ha.inv hi₃ h₃ he⟩

theorem Triple.bind {q : α → Prog σ κ ε β} {R : β → σ → Prop} (hp : Triple Γ t P p Q E)
    (hq : ∀ a, Triple Γ t (Q a) (q a) R E) : Triple Γ t P (p >>= q) R E := by
  refine ⟨fun s hi hs => ?_⟩
  have h := hp.safe s hi hs
  clear hp hs
  change Safe Γ t R E (p.bind q) s
  induction p generalizing s with
  | ret a => exact (hq a).safe s hi (h s hi (Γ.refl t s))
  | fail e => exact h
  | step f k ih =>
    intro s' c b s'' hi' hs hf
    obtain ⟨ha, hk⟩ := h s' c b s'' hi' hs hf
    exact ⟨ha, ih b s'' ha.inv hk⟩

theorem Triple.attempt {F : ε' → σ → Prop} (hp : Triple Γ t P p Q E) :
    Triple Γ t P (p.attempt : Prog σ κ ε' (Except ε α))
      (fun r s => match r with
        | .ok a => Q a s
        | .error e => E e s) F := by
  refine ⟨fun s hi hs => ?_⟩
  have h := hp.safe s hi hs
  clear hp hs
  induction p generalizing s with
  | ret a => exact h
  | fail e => exact h
  | step f k ih =>
    intro s' c b s'' hi' hs hf
    obtain ⟨ha, hk⟩ := h s' c b s'' hi' hs hf
    exact ⟨ha, ih b s'' ha.inv hk⟩

theorem Triple.mapError {g : ε → ε'} {F : ε' → σ → Prop}
    (hp : Triple Γ t P p Q fun e => F (g e)) : Triple Γ t P (p.mapError g) Q F := by
  refine ⟨fun s hi hs => ?_⟩
  have h := hp.safe s hi hs
  clear hp hs
  induction p generalizing s with
  | ret a => exact h
  | fail e => exact h
  | step f k ih =>
    intro s' c b s'' hi' hs hf
    obtain ⟨ha, hk⟩ := h s' c b s'' hi' hs hf
    exact ⟨ha, ih b s'' ha.inv hk⟩

theorem Triple.failIf {c : Prop} [Decidable c] {e : ε} {Q : Unit → σ → Prop}
    (hQ : Γ.Stable t (Q ())) (hE : Γ.Stable t (E e))
    (hno : ¬ c → ∀ s, Γ.inv s → P s → Q () s) (hyes : c → ∀ s, Γ.inv s → P s → E e s) :
    Triple Γ t P (failIf c e : Prog σ κ ε Unit) Q E := by
  unfold Prog.failIf
  split_ifs with hc
  · exact Triple.fail hE (hyes hc)
  · exact Triple.ret hQ (hno hc)

theorem Triple.read {f : σ → α} (hP : Γ.Stable t P) (hQ : ∀ a, Γ.Stable t (Q a))
    (hE : ∀ e, Γ.Stable t (E e)) (h : ∀ s, Γ.inv s → P s → Q (f s) s) :
    Triple Γ t P (read f : Prog σ κ ε α) Q E := by
  refine Triple.act hP hQ hE ?_ ?_
  · rintro s c a s' hi hs hf
    cases hf
    exact ⟨.idle hi, h s hi hs⟩
  · rintro s c e s' - - hf
    cases hf

theorem Triple.modify {f : σ → σ} {Q : Unit → σ → Prop} (hP : Γ.Stable t P)
    (hQ : Γ.Stable t (Q ())) (hE : ∀ e, Γ.Stable t (E e))
    (h : ∀ s, Γ.inv s → P s → Γ.Allows t s (f s) ∧ Q () (f s)) :
    Triple Γ t P (modify f : Prog σ κ ε Unit) Q E := by
  refine Triple.act hP (fun _ => hQ) hE ?_ ?_
  · rintro s c a s' hi hs hf
    cases hf
    exact h s hi hs
  · rintro s c e s' - - hf
    cases hf

/-! When nothing is asked of errors. -/

theorem Triple.refuse (e : ε) : Triple Γ t P (Prog.fail e : Prog σ κ ε α) Q fun _ _ => True :=
  Triple.fail (.const _) fun _ _ _ => trivial

theorem Triple.acts {f : σ → κ → Option (Except ε α × σ)} (hP : Γ.Stable t P)
    (hQ : ∀ a, Γ.Stable t (Q a))
    (h : ∀ s c r s', Γ.inv s → P s → f s c = some (r, s') →
      Γ.Allows t s s' ∧ ∀ a, r = .ok a → Q a s') :
    Triple Γ t P (Prog.act f) Q fun _ _ => True := by
  refine Triple.act hP hQ (fun _ => .const _) ?_ ?_
  · intro s c a s' hi hs hf
    obtain ⟨ha, hq⟩ := h s c _ s' hi hs hf
    exact ⟨ha, hq a rfl⟩
  · intro s c e s' hi hs hf
    exact ⟨(h s c _ s' hi hs hf).1, trivial⟩

/-- What comes after a check may assume that it was passed. -/
theorem Triple.guard {c : Prop} [Decidable c] {e : ε}
    (h : ¬ c → Triple Γ t P p Q fun _ _ => True) :
    Triple Γ t P (do Prog.failIf c e; p) Q fun _ _ => True := by
  unfold Prog.failIf
  split_ifs with hc
  · exact Triple.refuse e
  · exact h hc

/-! ## Alone -/

section Alone

variable (c : κ) (s : σ)

@[simp] theorem alone_pure (a : α) : (pure a : Prog σ κ ε α).alone c s = some (.ok a, s) := rfl

@[simp] theorem alone_fail (e : ε) : (fail e : Prog σ κ ε α).alone c s = some (.error e, s) := rfl

@[simp] theorem alone_act (f : σ → κ → Option (Except ε α × σ)) : (act f).alone c s = f s c := by
  rw [act, alone]
  rcases f s c with _ | ⟨e | a, s'⟩ <;> rfl

@[simp] theorem alone_bind (p : Prog σ κ ε α) (q : α → Prog σ κ ε β) :
    (p >>= q).alone c s = (p.alone c s).bind fun
      | (.ok a, s') => (q a).alone c s'
      | (.error e, s') => some (.error e, s') := by
  change (p.bind q).alone c s = _
  induction p generalizing s with
  | ret a => rfl
  | fail e => rfl
  | step f k ih =>
    rw [Prog.bind, alone, alone]
    rcases f s c with _ | ⟨b, s'⟩
    · rfl
    · exact ih b s'

@[simp] theorem alone_attempt (p : Prog σ κ ε α) :
    (p.attempt : Prog σ κ ε' (Except ε α)).alone c s
      = (p.alone c s).map fun (r, s') => (.ok r, s') := by
  induction p generalizing s with
  | ret a => rfl
  | fail e => rfl
  | step f k ih =>
    rw [attempt, alone, alone]
    rcases f s c with _ | ⟨b, s'⟩
    · rfl
    · exact ih b s'

@[simp] theorem alone_mapError (g : ε → ε') (p : Prog σ κ ε α) :
    (p.mapError g).alone c s = (p.alone c s).map fun (r, s') => (r.mapError g, s') := by
  induction p generalizing s with
  | ret a => rfl
  | fail e => rfl
  | step f k ih =>
    rw [mapError, alone, alone]
    rcases f s c with _ | ⟨b, s'⟩
    · rfl
    · exact ih b s'

@[simp] theorem alone_read (f : σ → α) :
    (read f : Prog σ κ ε α).alone c s = some (.ok (f s), s) := alone_act c s _

@[simp] theorem alone_modify (f : σ → σ) :
    (modify f : Prog σ κ ε Unit).alone c s = some (.ok (), f s) := alone_act c s _

@[simp] theorem alone_ofExcept (r : Except ε α) :
    (ofExcept r : Prog σ κ ε α).alone c s = some (r, s) := by
  cases r <;> rfl

@[simp] theorem alone_failIf (p : Prop) [Decidable p] (e : ε) :
    (failIf p e : Prog σ κ ε Unit).alone c s
      = some (if p then .error e else .ok (), s) := by
  unfold failIf
  split_ifs <;> rfl

end Alone

end Prog

namespace Pool

variable {σ κ ε α ι η : Type}

/-- Why a service keeps to a protocol: `fresh` holds of the number of a call that is yet to be made,
`post` is what a call promises on return. -/
structure Sound (S : Service σ κ ε α ι η) (Γ : Protocol σ) (fresh : ℕ → σ → Prop)
    (post : ι → ℕ → Except ε α → σ → Prop) : Prop where
  body : ∀ call t s, Γ.inv s → fresh t s →
    Prog.Safe Γ t (fun a => post call t (.ok a)) (fun e => post call t (.error e)) (S.body call t) s
  env : ∀ s e, Γ.inv s → Γ.inv (S.env s e) ∧ ∀ t, Γ.sees t s (S.env s e)
  restart : ∀ s, Γ.inv s → Γ.inv (S.restart s)
  freshSees : ∀ t s s', Γ.sees t s s' → fresh t s → fresh t s'
  freshRestart : ∀ t s, fresh t s → fresh t (S.restart s)
  postSees : ∀ call t r s s', Γ.sees t s s' → post call t r s → post call t r s'
  postRestart : ∀ call t r s, post call t r s → post call t r (S.restart s)

/-- What every list of turns keeps. -/
structure Kept (Γ : Protocol σ) (fresh : ℕ → σ → Prop) (post : ι → ℕ → Except ε α → σ → Prop)
    (p : Pool σ κ ε α ι) : Prop where
  inv : Γ.inv p.shared
  fresh : ∀ t, p.next ≤ t → fresh t p.shared
  safe : ∀ th ∈ p.threads, Prog.Safe Γ th.id (fun a => post th.call th.id (.ok a))
    (fun e => post th.call th.id (.error e)) th.prog p.shared
  post : ∀ r ∈ p.results, post r.2.1 r.1 r.2.2 p.shared
  ids : ∀ th ∈ p.threads, th.id < p.next
  resultIds : ∀ r ∈ p.results, r.1 < p.next
  apart : ∀ th ∈ p.threads, ∀ r ∈ p.results, th.id ≠ r.1
  nodup : (p.threads.map (·.id)).Nodup
  resultNodup : (p.results.map (·.1)).Nodup

variable {S : Service σ κ ε α ι η} {Γ : Protocol σ} {fresh : ℕ → σ → Prop}
  {post : ι → ℕ → Except ε α → σ → Prop} {p : Pool σ κ ε α ι} {th : Thread σ κ ε α ι}

theorem Kept.start (hS : Sound S Γ fresh post) (h : Kept Γ fresh post p) (call : ι) :
    Kept Γ fresh post (p.turn S (.start call)) where
  inv := h.inv
  fresh t ht := h.fresh t (by simp only [turn] at ht; omega)
  safe := by
    intro th hth
    rcases List.mem_append.1 hth with hth | hth
    · exact h.safe th hth
    · obtain rfl := List.mem_singleton.1 hth
      exact hS.body call p.next p.shared h.inv (h.fresh p.next le_rfl)
  post := h.post
  ids := by
    intro th hth
    rcases List.mem_append.1 hth with hth | hth
    · exact Nat.lt_succ_of_lt (h.ids th hth)
    · obtain rfl := List.mem_singleton.1 hth
      exact Nat.lt_succ_self _
  resultIds r hr := Nat.lt_succ_of_lt (h.resultIds r hr)
  apart := by
    intro th hth r hr
    rcases List.mem_append.1 hth with hth | hth
    · exact h.apart th hth r hr
    · obtain rfl := List.mem_singleton.1 hth
      exact (h.resultIds r hr).ne'
  nodup := by
    simp only [turn, List.map_append, List.map_cons, List.map_nil]
    refine List.nodup_append.2 ⟨h.nodup, List.nodup_singleton _, ?_⟩
    intro i hi j hj
    obtain ⟨th, hth, rfl⟩ := List.mem_map.1 hi
    obtain rfl := List.mem_singleton.1 hj
    exact (h.ids th hth).ne
  resultNodup := h.resultNodup

theorem Kept.finish (h : Kept Γ fresh post p) (hth : th ∈ p.threads) {r : Except ε α}
    (hr : post th.call th.id r p.shared) : Kept Γ fresh post (p.finish th r) where
  inv := h.inv
  fresh := h.fresh
  safe th' hth' := h.safe th' (List.mem_of_mem_filter hth')
  post := by
    intro r' hr'
    rcases List.mem_append.1 hr' with hr' | hr'
    · exact h.post r' hr'
    · obtain rfl := List.mem_singleton.1 hr'
      exact hr
  ids th' hth' := h.ids th' (List.mem_of_mem_filter hth')
  resultIds := by
    intro r' hr'
    rcases List.mem_append.1 hr' with hr' | hr'
    · exact h.resultIds r' hr'
    · obtain rfl := List.mem_singleton.1 hr'
      exact h.ids th hth
  apart := by
    intro th' hth' r' hr'
    obtain ⟨hmem, hne⟩ := List.mem_filter.1 hth'
    rcases List.mem_append.1 hr' with hr' | hr'
    · exact h.apart th' hmem r' hr'
    · obtain rfl := List.mem_singleton.1 hr'
      simpa using hne
  nodup := h.nodup.sublist (List.filter_sublist.map _)
  resultNodup := by
    simp only [Pool.finish, List.map_append, List.map_cons, List.map_nil]
    refine List.nodup_append.2 ⟨h.resultNodup, List.nodup_singleton _, ?_⟩
    intro i hi j hj
    obtain ⟨r', hr', rfl⟩ := List.mem_map.1 hi
    obtain rfl := List.mem_singleton.1 hj
    exact (h.apart th hth r' hr').symm

/-- A change that everybody may see keeps what is known of the finished and of the future calls. -/
theorem Kept.goOn (hS : Sound S Γ fresh post) (h : Kept Γ fresh post p) (hth : th ∈ p.threads)
    {s : σ} {prog : Prog σ κ ε α} (ha : Γ.Allows th.id p.shared s)
    (hs : Prog.Safe Γ th.id (fun a => post th.call th.id (.ok a))
      (fun e => post th.call th.id (.error e)) prog s) : Kept Γ fresh post (p.goOn th s prog) where
  inv := ha.inv
  fresh t ht := hS.freshSees t _ _ (ha.sees t ((h.ids th hth).trans_le ht).ne') (h.fresh t ht)
  safe := by
    intro th' hth'
    obtain ⟨th₀, hth₀, rfl⟩ := List.mem_map.1 hth'
    split_ifs with hid
    · exact hs
    · exact (h.safe th₀ hth₀).later (ha.sees th₀.id hid)
  post r hr := hS.postSees _ _ _ _ _ (ha.sees r.1 (h.apart th hth r hr).symm) (h.post r hr)
  ids := by
    intro th' hth'
    obtain ⟨th₀, hth₀, rfl⟩ := List.mem_map.1 hth'
    split_ifs
    · exact h.ids th hth
    · exact h.ids th₀ hth₀
  resultIds := h.resultIds
  apart := by
    intro th' hth' r hr
    obtain ⟨th₀, hth₀, rfl⟩ := List.mem_map.1 hth'
    split_ifs
    · exact h.apart th hth r hr
    · exact h.apart th₀ hth₀ r hr
  nodup := by
    have hid : (p.goOn th s prog).threads.map (·.id) = p.threads.map (·.id) := by
      simp only [Pool.goOn, List.map_map]
      refine List.map_congr_left fun th' _ => ?_
      simp only [Function.comp_apply]
      split_ifs with hid
      · exact hid.symm
      · rfl
    rw [hid]
    exact h.nodup
  resultNodup := h.resultNodup

theorem Kept.advance (hS : Sound S Γ fresh post) (h : Kept Γ fresh post p) (hth : th ∈ p.threads)
    (c : κ) : Kept Γ fresh post (p.advance th c) := by
  have hsafe := h.safe th hth
  unfold Pool.advance
  cases hp : th.prog with
  | ret a =>
    rw [hp] at hsafe
    exact h.finish hth (hsafe _ h.inv (Γ.refl _ _))
  | fail e =>
    rw [hp] at hsafe
    exact h.finish hth (hsafe _ h.inv (Γ.refl _ _))
  | step f k =>
    rw [hp] at hsafe
    dsimp only
    split
    · exact h
    · rename_i b s hf
      obtain ⟨ha, hs⟩ := hsafe _ c b s h.inv (Γ.refl _ _) hf
      exact h.goOn hS hth ha hs

theorem Kept.turn (hS : Sound S Γ fresh post) (h : Kept Γ fresh post p) (a : Turn κ ι η) :
    Kept Γ fresh post (p.turn S a) := by
  cases a with
  | start call => exact h.start hS call
  | thread id c =>
    simp only [Pool.turn]
    split
    · exact h
    · rename_i th hf
      exact h.advance hS (List.mem_of_find?_eq_some hf) c
  | env e =>
    obtain ⟨hi, hs⟩ := hS.env p.shared e h.inv
    exact { h with
      inv := hi
      fresh := fun t ht => hS.freshSees t _ _ (hs t) (h.fresh t ht)
      safe := fun th hth => (h.safe th hth).later (hs th.id)
      post := fun r hr => hS.postSees _ _ _ _ _ (hs r.1) (h.post r hr) }
  | restart =>
    exact {
      inv := hS.restart p.shared h.inv
      fresh := fun t ht => hS.freshRestart t _ (h.fresh t ht)
      safe := by simp [Pool.turn]
      post := fun r hr => hS.postRestart _ _ _ _ (h.post r hr)
      ids := by simp [Pool.turn]
      resultIds := h.resultIds
      apart := by simp [Pool.turn]
      nodup := by simp [Pool.turn]
      resultNodup := h.resultNodup }

/-- The invariant holds after every list of turns, and so does what the calls promised. -/
theorem sound (hS : Sound S Γ fresh post) {s : σ} (hi : Γ.inv s) (hf : ∀ t, fresh t s)
    (turns : List (Turn κ ι η)) : Kept Γ fresh post (after S s turns) := by
  have h₀ : Kept Γ fresh post ({ shared := s } : Pool σ κ ε α ι) :=
    { inv := hi, fresh := fun t _ => hf t, safe := by simp, post := by simp, ids := by simp,
      resultIds := by simp, apart := by simp, nodup := by simp, resultNodup := by simp }
  unfold after
  induction turns using List.reverseRecOn with
  | nil => exact h₀
  | append_singleton turns a ih =>
    rw [Run.run_append]
    exact Kept.turn hS ih a

/-! ## Onlookers -/

theorem next_le_turn (S : Service σ κ ε α ι η) (p : Pool σ κ ε α ι) (a : Turn κ ι η) :
    p.next ≤ (p.turn S a).next := by
  cases a with
  | start call => exact Nat.le_succ _
  | thread id c =>
    simp only [turn]
    split
    · exact le_rfl
    · rename_i th hth
      unfold Pool.advance
      split
      · exact le_rfl
      · exact le_rfl
      · split <;> exact le_rfl
  | env e => exact le_rfl
  | restart => exact le_rfl

/-- A turn shows a call that is yet to be made what that may see. -/
theorem Kept.sees (hS : Sound S Γ fresh post) (h : Kept Γ fresh post p) {u : ℕ}
    (hr : ∀ s, Γ.inv s → Γ.sees u s (S.restart s)) (hu : p.next ≤ u) (a : Turn κ ι η) :
    Γ.sees u p.shared (p.turn S a).shared := by
  cases a with
  | start call => exact Γ.refl u _
  | thread id c =>
    simp only [Pool.turn]
    split
    · exact Γ.refl u _
    · rename_i th hf
      have hth := List.mem_of_find?_eq_some hf
      have hsafe := h.safe th hth
      unfold Pool.advance
      cases hp : th.prog with
      | ret a => exact Γ.refl u _
      | fail e => exact Γ.refl u _
      | step f k =>
        rw [hp] at hsafe
        dsimp only
        split
        · exact Γ.refl u _
        · rename_i b s hf
          obtain ⟨ha, -⟩ := hsafe _ c b s h.inv (Γ.refl _ _) hf
          exact ha.sees u (hu.trans_lt' (h.ids th hth)).ne'
  | env e => exact (hS.env p.shared e h.inv).2 u
  | restart => exact hr p.shared h.inv

/-- What a call that is yet to be made sees of the turns before it. -/
theorem sees_later (hS : Sound S Γ fresh post) {s : σ} (hi : Γ.inv s) (hf : ∀ t, fresh t s) {u : ℕ}
    (hr : ∀ s, Γ.inv s → Γ.sees u s (S.restart s)) (before later : List (Turn κ ι η))
    (hu : (after S s (before ++ later)).next ≤ u) :
    Γ.sees u (after S s before).shared (after S s (before ++ later)).shared := by
  induction later using List.reverseRecOn with
  | nil =>
    rw [List.append_nil]
    exact Γ.refl u _
  | append_singleton later a ih =>
    have hlast : after S s (before ++ (later ++ [a])) = (after S s (before ++ later)).turn S a := by
      rw [← List.append_assoc]
      exact Run.run_append
    rw [hlast] at hu ⊢
    have hle := (next_le_turn S (after S s (before ++ later)) a).trans hu
    exact Γ.trans (ih hle) ((sound hS hi hf (before ++ later)).sees hS hr hle a)

end Pool

end WMonitor
