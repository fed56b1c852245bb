import WMonitor.Auth
import WMonitor.Proofs.Handshake
import WMonitor.Proofs.Prog

/-!
# When a revocation takes effect

The copy of the epoch is read from the store and stored in two steps, so that a request which read it
before the revocation may store it after the handler did. That takes the copy back, and with it the
answers that were cached for the old epoch are good again. This is the only way a request that begins
after the handler returned is let in with a revoked key: as long as every copy that was read late is
followed by late ones only (`Ordered`), an answer is used only if it was resolved after the revocation.
-/

namespace WMonitor

namespace AuthState

/-- The key of the hash is revoked. -/
def Revoked (db : CredentialDB) (hash : String) : Prop :=
  ∃ k ∈ db.apiKeys, k.keyHash = hash ∧ k.revokedAt ≠ 0

/-- No copy that was read before the epoch was raised is stored after one that was read later. -/
def Ordered (ws : List EpochWrite) : Prop := ws.Pairwise fun a b => a.late = true → b.late = true

instance (ws : List EpochWrite) : Decidable (Ordered ws) := by unfold Ordered; infer_instance

/-! ## The invariant -/

section

variable (db₀ : CredentialDB)

/-- What a positive answer of an epoch vouches for. -/
def Vouched (s : AuthState) (hash : String) (epoch : ℤ) : Prop :=
  ¬ Revoked db₀ hash
    ∧ (db₀.authEpoch.epoch < epoch → s.raised = true ∧ ¬ Revoked s.db hash)

/-- The invariant of an instance that started on `db₀`. -/
structure Inv (s : AuthState) : Prop where
  nonneg : 0 ≤ db₀.authEpoch.epoch
  epoch : s.db.authEpoch.epoch = db₀.authEpoch.epoch + s.raised.toNat
  writes : ∀ w ∈ s.writes, w.epoch = db₀.authEpoch.epoch + w.late.toNat
    ∧ (w.late = true → s.raised = true)
  copy : s.authEpoch = (s.writes.getLast?.map (·.epoch)).getD 0
  hashes : (s.db.apiKeys.map (·.keyHash)).Nodup
  before : ∀ h, Revoked db₀ h → Revoked s.db h
  cache : ∀ x ∈ s.cache, x.2.valid = true → Vouched db₀ s x.1 x.2.epoch
  /-- Nothing is revoked before the handler comes to it. -/
  idle : s.revoker = none → s.raised = false ∧ s.finished = false
    ∧ ∀ h, Revoked s.db h → Revoked db₀ h
  /-- It stored a late copy, or had nothing to revoke. -/
  finished : s.finished = true → (s.raised = true ∧ ∃ w ∈ s.writes, w.late = true)
    ∨ (s.raised = false ∧ ∀ h, Revoked s.db h → Revoked db₀ h)
  begun : ∀ t, (t, true) ∈ s.begun → s.finished = true

end

/-- What thread `t` may see the others do. -/
structure Sees (t : ℕ) (s s' : AuthState) : Prop where
  writes : s.writes <+: s'.writes
  raised : s.raised = true → s'.raised = true
  revoked : ∀ h, Revoked s.db h → Revoked s'.db h
  settled : s.raised = true ∨ s.finished = true ∨ s.revoker = some t →
    ∀ h, Revoked s'.db h → Revoked s.db h
  finished : s.finished = true → s'.finished = true ∧ s'.raised = s.raised
  mine : s.revoker = some t →
    s'.revoker = some t ∧ s'.raised = s.raised ∧ s'.finished = s.finished
  claimed : s'.revoker = some t → s.revoker = some t
  begun : ∀ b, (t, b) ∈ s'.begun ↔ (t, b) ∈ s.begun
  late : s.finished = true → ∀ x ∈ s'.begun, x ∈ s.begun ∨ x.2 = true

theorem Sees.refl (t : ℕ) (s : AuthState) : Sees t s s where
  writes := List.prefix_rfl
  raised h := h
  revoked _ h := h
  settled _ _ h := h
  finished h := ⟨h, rfl⟩
  mine h := ⟨h, rfl, rfl⟩
  claimed h := h
  begun _ := Iff.rfl
  late _ _ h := .inl h

theorem Sees.trans {t : ℕ} {a b c : AuthState} (h : Sees t a b) (h' : Sees t b c) : Sees t a c where
  writes := h.writes.trans h'.writes
  raised ha := h'.raised (h.raised ha)
  revoked x hx := h'.revoked x (h.revoked x hx)
  settled ha x hx := by
    refine h.settled ha x (h'.settled ?_ x hx)
    rcases ha with ha | ha | ha
    · exact .inl (h.raised ha)
    · exact .inr (.inl (h.finished ha).1)
    · exact .inr (.inr (h.mine ha).1)
  finished ha := by
    obtain ⟨hb, hr⟩ := h.finished ha
    obtain ⟨hc, hr'⟩ := h'.finished hb
    exact ⟨hc, hr'.trans hr⟩
  mine ha := by
    obtain ⟨hb, hr, hf⟩ := h.mine ha
    obtain ⟨hc, hr', hf'⟩ := h'.mine hb
    exact ⟨hc, hr'.trans hr, hf'.trans hf⟩
  claimed hc := h.claimed (h'.claimed hc)
  begun x := (h'.begun x).trans (h.begun x)
  late ha x hx := by
    rcases h'.late (h.finished ha).1 x hx with hx | hx
    · exact h.late ha x hx
    · exact .inr hx

def protocol (db₀ : CredentialDB) : Protocol AuthState where
  inv := Inv db₀
  sees := Sees
  refl := Sees.refl
  trans := Sees.trans

/-! ## What requests know -/

section

variable {db₀ : CredentialDB} {t : ℕ} {s s' : AuthState} {hash : String}

/-- A request has read this epoch: a late request has read the raised one. -/
structure EpochRead (db₀ : CredentialDB) (t : ℕ) (epoch : ℤ) (s : AuthState) : Prop where
  begun : ∃ b, (t, b) ∈ s.begun
  raised : db₀.authEpoch.epoch < epoch → s.raised = true
  late : (t, true) ∈ s.begun → Ordered s.writes → s.raised = true → db₀.authEpoch.epoch < epoch

/-- A request was let in with the hash. -/
structure LetIn (t : ℕ) (hash : String) (s : AuthState) : Prop where
  begun : ∃ b, (t, b) ∈ s.begun
  finished : (t, true) ∈ s.begun → s.finished = true
  late : (t, true) ∈ s.begun → Ordered s.writes → ¬ Revoked s.db hash

theorem Sees.ordered (h : Sees t s s') (ho : Ordered s'.writes) : Ordered s.writes :=
  ho.sublist h.writes.sublist

theorem Vouched.sees {epoch : ℤ} (h : Vouched db₀ s hash epoch) (hs : Sees t s s') :
    Vouched db₀ s' hash epoch := by
  refine ⟨h.1, fun he => ?_⟩
  obtain ⟨hr, hno⟩ := h.2 he
  exact ⟨hs.raised hr, fun hrev => hno (hs.settled (.inl hr) _ hrev)⟩

theorem stable_epochRead (epoch : ℤ) : (protocol db₀).Stable t (EpochRead db₀ t epoch) := by
  intro s s' hi hi' hs h
  obtain ⟨b, hb⟩ := h.begun
  refine ⟨⟨b, (hs.begun b).2 hb⟩, fun he => hs.raised (h.raised he), fun hl ho hr => ?_⟩
  have hl' := (hs.begun true).1 hl
  refine h.late hl' (hs.ordered ho) ?_
  rw [← (hs.finished (hi.begun t hl')).2]
  exact hr

theorem LetIn.sees (h : LetIn t hash s) (hs : Sees t s s') : LetIn t hash s' := by
  obtain ⟨b, hb⟩ := h.begun
  refine ⟨⟨b, (hs.begun b).2 hb⟩, fun hl => ?_, fun hl ho hrev => ?_⟩ <;>
    have hl' := (hs.begun true).1 hl
  · exact (hs.finished (h.finished hl')).1
  · exact h.late hl' (hs.ordered ho) (hs.settled (.inr (.inl (h.finished hl'))) _ hrev)

theorem stable_letIn : (protocol db₀).Stable t (LetIn t hash) := fun _ _ _ _ hs h => h.sees hs

theorem Ordered.last {ws : List EpochWrite} (h : Ordered ws) {w w' : EpochWrite} (hw : w ∈ ws)
    (hl : w.late = true) (hlast : ws.getLast? = some w') : w'.late = true := by
  obtain ⟨ws', rfl⟩ := List.getLast?_eq_some_iff.1 hlast
  rcases List.mem_append.1 hw with hw | hw
  · exact (List.pairwise_append.1 h).2.2 w hw w' (List.mem_singleton_self w') hl
  · rw [← List.mem_singleton.1 hw]
    exact hl

/-- The copy that a request reads. -/
theorem Inv.epochRead (hi : Inv db₀ s) (hb : ∃ b, (t, b) ∈ s.begun) :
    EpochRead db₀ t s.authEpoch s := by
  have hcopy := hi.copy
  refine ⟨hb, fun he => ?_, fun hl ho hr => ?_⟩
  · rcases hlast : s.writes.getLast? with _ | w <;> rw [hlast] at hcopy
    · have := hi.nonneg
      simp only [Option.map_none, Option.getD_none] at hcopy
      omega
    · obtain ⟨hw, hraised⟩ := hi.writes w (List.mem_of_getLast? hlast)
      simp only [Option.map_some, Option.getD_some] at hcopy
      refine hraised ?_
      by_contra hno
      rw [Bool.not_eq_true] at hno
      rw [hno] at hw
      simp only [Bool.toNat_false, Nat.cast_zero] at hw
      omega
  · rcases hi.finished (hi.begun t hl) with ⟨-, w, hw, hwl⟩ | ⟨hno, -⟩
    · rcases hlast : s.writes.getLast? with _ | w' <;> rw [hlast] at hcopy
      · rw [List.getLast?_eq_none_iff] at hlast
        rw [hlast] at hw
        cases hw
      · have hlate := ho.last hw hwl hlast
        have hw' := (hi.writes w' (List.mem_of_getLast? hlast)).1
        simp only [Option.map_some, Option.getD_some] at hcopy
        rw [hlate, Bool.toNat_true, Nat.cast_one] at hw'
        omega
    · rw [hno] at hr
      cases hr

/-- A cached answer that is good at the epoch the request has read. -/
theorem EpochRead.letIn {epoch epoch' : ℤ} (hi : Inv db₀ s) (h : EpochRead db₀ t epoch s)
    (hle : epoch ≤ epoch') (hv : Vouched db₀ s hash epoch') : LetIn t hash s := by
  refine ⟨h.begun, hi.begun t, fun hl ho hrev => ?_⟩
  rcases hi.finished (hi.begun t hl) with ⟨hr, -⟩ | ⟨-, hsame⟩
  · exact (hv.2 ((h.late hl ho hr).trans_le hle)).2 hrev
  · exact hv.1 (hsame hash hrev)

/-- An answer of the store. -/
theorem Inv.resolved (hi : Inv db₀ s) {now : ℤ} {rec : APIKeyRecord}
    (h : s.db.resolveAPIKey (fun _ => none) hash now = .ok rec) : ¬ Revoked s.db hash := by
  rintro ⟨k, hk, hh, hr⟩
  obtain ⟨k', hk', hh', -, hr', -⟩ := resolveAPIKey_ok h
  rw [List.inj_on_of_nodup_map hi.hashes hk hk' (hh.trans hh'.symm)] at hr
  exact hr hr'

/-! ## Steps -/

/-- A program of thread `t` that is safe and returns with `Q`. -/
abbrev Holds {α : Type} (db₀ : CredentialDB) (t : ℕ) (P : AuthState → Prop) (p : AuthM α)
    (Q : α → AuthState → Prop) : Prop :=
  Prog.Triple (protocol db₀) t P p Q fun _ _ => True

/-- What storing a copy of the epoch keeps. -/
def KeptBySync (P : AuthState → Prop) : Prop :=
  ∀ s w now, P s → P { s with
    authEpoch := w.epoch, epochRefreshed := some now, writes := s.writes ++ [w] }

/-- What a change of the cache keeps. -/
def KeptByCache (P : AuthState → Prop) : Prop := ∀ s c, P s → P { s with cache := c }

variable {P : AuthState → Prop}

theorem stable_true : (protocol db₀).Stable t fun _ => True := fun _ _ _ _ _ h => h

theorem clock_holds (hP : (protocol db₀).Stable t P) :
    Holds db₀ t P clock fun _ => P := by
  refine Prog.Triple.act hP (fun _ => hP) (fun _ => stable_true) ?_ ?_
  · rintro s now a s' hi hs hf
    cases hf
    exact ⟨.idle hi, hs⟩
  · rintro s now e s' - - hf
    cases hf

/-- A copy of the epoch as it was read. -/
structure Read (db₀ : CredentialDB) (t : ℕ) (w : EpochWrite) (s : AuthState) : Prop where
  epoch : w.epoch = db₀.authEpoch.epoch + w.late.toNat
  raised : w.late = true → s.raised = true
  mine : s.revoker = some t → w.late = s.raised

theorem stable_read (w : EpochWrite) : (protocol db₀).Stable t (Read db₀ t w) := by
  intro s s' hi hi' hs h
  refine ⟨h.epoch, fun hl => hs.raised (h.raised hl), fun hm => ?_⟩
  have hm' := hs.claimed hm
  rw [(hs.mine hm').2.1]
  exact h.mine hm'

theorem Inv.sync (hi : Inv db₀ s) {w : EpochWrite} (hw : Read db₀ t w s) (now : ℤ) :
    Inv db₀ { s with
      authEpoch := w.epoch, epochRefreshed := some now, writes := s.writes ++ [w] } :=
  { hi with
    writes := by
      intro w' hw'
      rcases List.mem_append.1 hw' with hw' | hw'
      · exact hi.writes w' hw'
      · rw [List.mem_singleton.1 hw']
        exact ⟨hw.epoch, hw.raised⟩
    copy := by simp
    finished := by
      intro hf
      rcases hi.finished hf with ⟨hr, w', hw', hl⟩ | h
      · exact .inl ⟨hr, w', List.mem_append_left _ hw', hl⟩
      · exact .inr h }

/-- The handler has stored a late copy if it raised the epoch. -/
def Stored (t : ℕ) (s : AuthState) : Prop :=
  s.revoker = some t → s.raised = true → ∃ w ∈ s.writes, w.late = true

theorem stable_stored : (protocol db₀).Stable t (Stored t) := by
  intro s s' hi hi' hs h hm hr
  have hm' := hs.claimed hm
  rw [(hs.mine hm').2.1] at hr
  obtain ⟨w, hw, hl⟩ := h hm' hr
  exact ⟨w, hs.writes.subset hw, hl⟩

theorem syncAuthEpoch_holds (hP : (protocol db₀).Stable t P) (hkeep : KeptBySync P) :
    Holds db₀ t P syncAuthEpoch fun _ s => P s ∧ Stored t s := by
  refine Prog.Triple.bind (Q := fun w s => P s ∧ Read db₀ t w s)
    (Prog.Triple.read hP (fun w => hP.and (stable_read w)) (fun _ => stable_true)
      fun s hi hs => ⟨hs, by rw [hi.epoch], fun h => h, fun _ => rfl⟩) fun w => ?_
  refine Prog.Triple.act (hP.and (stable_read w)) (fun _ => hP.and stable_stored)
    (fun _ => stable_true) ?_ ?_
  · rintro s now a s' hi ⟨hs, hw⟩ hf
    cases hf
    refine ⟨⟨hi.sync hw now, fun u _ => ?_⟩, hkeep s w now hs, fun hm hr => ?_⟩
    · exact { Sees.refl u s with writes := List.prefix_append _ _ }
    · exact ⟨w, List.mem_append_right _ (List.mem_singleton_self w), (hw.mine hm).trans hr⟩
  · rintro s now e s' - - hf
    cases hf

theorem stable_begun : (protocol db₀).Stable t fun s => ∃ b, (t, b) ∈ s.begun :=
  fun _ _ _ _ hs ⟨b, hb⟩ => ⟨b, (hs.begun b).2 hb⟩

theorem currentAuthEpoch_holds :
    Holds db₀ t (fun _ => True) (currentAuthEpoch t) fun epoch => EpochRead db₀ t epoch := by
  refine Prog.Triple.bind (Q := fun r s => EpochRead db₀ t r.2.2 s) ?_ fun r => ?_
  · refine Prog.Triple.act stable_true (fun r => stable_epochRead r.2.2) (fun _ => stable_true) ?_ ?_
    · rintro s now a s' hi - hf
      cases hf
      have hi' : Inv db₀ { s with begun := s.begun ++ [(t, s.finished)] } :=
        { hi with
          begun := by
            intro u hu
            rcases List.mem_append.1 hu with hu | hu
            · exact hi.begun u hu
            · simp only [List.mem_singleton, Prod.mk.injEq] at hu
              exact hu.2.symm }
      refine ⟨⟨hi', fun u hu => { Sees.refl u s with begun := ?_, late := ?_ }⟩,
        hi'.epochRead ⟨s.finished, List.mem_append_right _ (List.mem_singleton_self _)⟩⟩
      · intro b
        simp [hu]
      · intro hf x hx
        rcases List.mem_append.1 hx with hx | hx
        · exact .inl hx
        · rw [List.mem_singleton.1 hx]
          exact .inr hf
    · rintro s now e s' - - hf
      cases hf
  · obtain ⟨interval, refreshed, cached⟩ := r
    refine Prog.Triple.bind (clock_holds (stable_epochRead cached)) fun now => ?_
    split_ifs
    · refine Prog.Triple.bind ((syncAuthEpoch_holds stable_begun fun _ _ _ h => h).pre fun s _ h => h.begun)
        fun _ => ?_
      exact Prog.Triple.read (stable_begun.and stable_stored) (fun _ => stable_epochRead _)
        (fun _ => stable_true) fun s hi hs => hi.epochRead hs.1
    · exact Prog.Triple.ret (stable_epochRead cached) fun _ _ h => h

/-! ## The cache -/

/-- A step that leaves all but the cache, whose answers are vouched for. -/
theorem Inv.withCache (hi : Inv db₀ s) {c : List (String × AuthCacheEntry)}
    (hc : ∀ x ∈ c, x.2.valid = true → Vouched db₀ s x.1 x.2.epoch) :
    (protocol db₀).Allows t s { s with cache := c } :=
  ⟨{ hi with cache := hc }, fun u _ => { Sees.refl u s with }⟩

theorem invalidate_holds (hP : (protocol db₀).Stable t P) (hkeep : KeptByCache P) :
    Holds db₀ t P (invalidate hash) fun _ => P :=
  Prog.Triple.modify hP hP (fun _ => stable_true) fun s hi hs =>
    ⟨hi.withCache fun x hx => hi.cache x (List.mem_of_mem_filter hx), hkeep s _ hs⟩

theorem put_holds (hP : (protocol db₀).Stable t P) (hkeep : KeptByCache P) (entry : AuthCacheEntry) :
    Holds db₀ t (fun s => P s ∧ (entry.valid = true → Vouched db₀ s hash entry.epoch))
      (put hash entry) fun _ => P := by
  refine Prog.Triple.modify (hP.and fun s s' _ _ hs h hv => (h hv).sees hs) hP
    (fun _ => stable_true) ?_
  rintro s hi ⟨hs, hv⟩
  refine ⟨hi.withCache fun x hx => ?_, hkeep s _ hs⟩
  rcases List.mem_append.1 hx with hx | hx
  · split_ifs at hx
    · cases hx
    · exact hi.cache x (List.mem_of_mem_filter hx)
  · rw [List.mem_singleton.1 hx]
    exact hv

theorem keptByCache_epochRead (epoch : ℤ) : KeptByCache (EpochRead db₀ t epoch) :=
  fun _ _ h => ⟨h.begun, h.raised, h.late⟩

theorem keptByCache_letIn : KeptByCache (LetIn t hash) :=
  fun _ _ h => ⟨h.begun, h.finished, h.late⟩

/-- What `get` finds: a positive answer is of the epoch or later, and vouched for. -/
structure Found (db₀ : CredentialDB) (t : ℕ) (hash : String) (epoch : ℤ)
    (found : Option AuthCacheEntry) (s : AuthState) : Prop where
  read : EpochRead db₀ t epoch s
  entry : ∀ entry, found = some entry → entry.valid = true →
    epoch ≤ entry.epoch ∧ Vouched db₀ s hash entry.epoch

theorem stable_found (epoch : ℤ) (found : Option AuthCacheEntry) :
    (protocol db₀).Stable t (Found db₀ t hash epoch found) := by
  intro s s' hi hi' hs h
  refine ⟨stable_epochRead epoch hi hi' hs h.read, fun entry he hv => ?_⟩
  obtain ⟨hle, hvouched⟩ := h.entry entry he hv
  exact ⟨hle, hvouched.sees hs⟩

theorem Inv.entryOf (hi : Inv db₀ s) {entry : AuthCacheEntry} (h : s.entryOf hash = some entry)
    (hv : entry.valid = true) : Vouched db₀ s hash entry.epoch := by
  obtain ⟨x, hx, rfl⟩ := Option.map_eq_some_iff.1 h
  have hmem := List.mem_of_find?_eq_some hx
  have hhash : x.1 = hash := by simpa using List.find?_some hx
  rw [← hhash]
  exact hi.cache x hmem hv

theorem get_holds (hash : String) (epoch : ℤ) :
    Holds db₀ t (EpochRead db₀ t epoch) (get hash epoch) fun found =>
      Found db₀ t hash epoch found := by
  have hstable : ∀ found : Option AuthCacheEntry, (protocol db₀).Stable t fun s =>
      EpochRead db₀ t epoch s ∧ ∀ entry, found = some entry → entry.valid = true →
        Vouched db₀ s hash entry.epoch :=
    fun found => (stable_epochRead epoch).and fun s s' _ _ hs h entry he hv => (h entry he hv).sees hs
  have hmiss : ∀ s, EpochRead db₀ t epoch s → Found db₀ t hash epoch none s :=
    fun s h => ⟨h, by simp⟩
  refine Prog.Triple.bind (Prog.Triple.read (stable_epochRead epoch) hstable (fun _ => stable_true)
    fun s hi hs => ⟨hs, fun entry he hv => hi.entryOf he hv⟩) fun found => ?_
  refine Prog.Triple.bind (clock_holds (hstable found)) fun now => ?_
  rcases found with _ | entry
  · exact Prog.Triple.ret (stable_found epoch none) fun s _ h => hmiss s h.1
  dsimp only
  have hdrop : Holds db₀ t (fun s => EpochRead db₀ t epoch s ∧ ∀ e, some entry = some e →
      e.valid = true → Vouched db₀ s hash e.epoch) (do invalidate hash; pure none)
      fun found => Found db₀ t hash epoch found :=
    Prog.Triple.bind ((invalidate_holds (stable_epochRead epoch) (keptByCache_epochRead epoch)).pre
      fun s _ h => h.1) fun _ => Prog.Triple.ret (stable_found epoch none) fun s _ h => hmiss s h
  split_ifs with hexpired hepoch hcred
  · exact Prog.Triple.ret (stable_found epoch none) fun s _ h => hmiss s h.1
  · exact hdrop
  · exact hdrop
  · refine Prog.Triple.ret (stable_found epoch (some entry)) fun s _ h => ⟨h.1, ?_⟩
    rintro e he hv
    cases he
    exact ⟨not_lt.1 hepoch, h.2 entry rfl hv⟩

/-! ## Requests -/

theorem authPrincipal_holds (hash requiredScope : String) :
    Holds db₀ t (fun _ => True) (authPrincipal t hash requiredScope) fun _ => LetIn t hash := by
  have hscope : ∀ p : Principal, Holds db₀ t (LetIn t hash)
      (do .failIf (p.permits requiredScope = false) .insufficientScope; pure p)
      fun _ => LetIn t hash := fun p =>
    Prog.Triple.guard fun _ => Prog.Triple.ret stable_letIn fun _ _ h => h
  refine Prog.Triple.bind currentAuthEpoch_holds fun epoch => ?_
  refine Prog.Triple.bind (get_holds hash epoch) fun found => ?_
  rcases found with _ | entry
  · -- the store is asked
    have hresolved : ∀ r : Except CredentialError APIKeyRecord, (protocol db₀).Stable t fun s =>
        EpochRead db₀ t epoch s ∧ ∀ rec, r = .ok rec →
          Vouched db₀ s hash epoch ∧ LetIn t hash s :=
      fun r => (stable_epochRead epoch).and fun s s' _ _ hs h rec hrec =>
        ⟨(h rec hrec).1.sees hs, (h rec hrec).2.sees hs⟩
    refine Prog.Triple.bind (Prog.Triple.act (stable_found epoch none) hresolved
      (fun _ => stable_true) ?_ ?_) fun r => ?_
    · rintro s now a s' hi hs hf
      cases hf
      refine ⟨.idle hi, hs.read, fun rec hrec => ?_⟩
      have hno := hi.resolved hrec
      exact ⟨⟨fun h => hno (hi.before hash h), fun he => ⟨hs.read.raised he, hno⟩⟩,
        hs.read.begun, hi.begun t, fun _ _ => hno⟩
    · rintro s now e s' - - hf
      cases hf
    · refine Prog.Triple.bind (clock_holds (hresolved r)) fun now => ?_
      rcases r with e | rec
      · refine Prog.Triple.bind (Q := fun _ _ => True)
          ((put_holds stable_true (fun _ _ h => h) _).pre fun s _ _ => ⟨trivial, by simp⟩) fun _ => ?_
        exact Prog.Triple.fail stable_true fun _ _ _ => trivial
      · refine Prog.Triple.bind (Q := fun _ => LetIn t hash) ((put_holds stable_letIn
          keptByCache_letIn _).pre fun s _ h => ⟨(h.2 rec rfl).2, fun _ => (h.2 rec rfl).1⟩)
          fun _ => hscope _
  · -- the cache has an answer
    refine Prog.Triple.bind (Q := fun _ => LetIn t hash) ?_ fun _ => hscope _
    refine Prog.Triple.failIf stable_letIn stable_true (fun hvalid s hi h => ?_)
      fun _ _ _ _ => trivial
    obtain ⟨hle, hv⟩ := h.entry entry rfl (by simpa using hvalid)
    exact h.read.letIn hi hle hv

/-! ## The handler -/

/-- The handler is at work: `rows` says what it may have revoked so far. -/
structure Revoking (t : ℕ) (rows : AuthState → Prop) (s : AuthState) : Prop where
  mine : s.revoker = some t
  finished : s.finished = false
  rows : rows s

/-- Nothing is revoked that was not before. -/
def Same (db₀ : CredentialDB) (s : AuthState) : Prop := ∀ h, Revoked s.db h → Revoked db₀ h

theorem stable_revoking {raised : Bool} {c : Prop} :
    (protocol db₀).Stable t (Revoking t fun s => s.raised = raised ∧ (c → Same db₀ s)) := by
  intro s s' hi hi' hs h
  obtain ⟨hm, hr, hf⟩ := hs.mine h.mine
  refine ⟨hm, hf.trans h.finished, hr.trans h.rows.1, fun hc x hx => ?_⟩
  exact h.rows.2 hc x (hs.settled (.inr (.inr h.mine)) x hx)

theorem revoked_revokeWhere {db : CredentialDB} {p : APIKey → Bool} {now : ℤ} {h : String}
    (hr : Revoked db h) : Revoked (db.revokeWhere p now) h := by
  obtain ⟨k, hk, hh, hrev⟩ := hr
  refine ⟨k, ?_, hh, hrev⟩
  unfold CredentialDB.revokeWhere Table.update
  refine List.mem_map.2 ⟨k, hk, ?_⟩
  simp [hrev]

theorem Inv.revoke (hi : Inv db₀ s) (hr : s.raised = false) (hf : s.finished = false)
    (hm : s.revoker = some t) (p : APIKey → Bool) (now : ℤ) :
    (protocol db₀).Allows t s { s with db := s.db.revokeWhere p now } := by
  refine ⟨{ hi with
    hashes := ?_, before := fun h hh => revoked_revokeWhere (hi.before h hh), cache := ?_,
    idle := ?_, finished := ?_ }, fun u hu => { Sees.refl u s with
      revoked := fun h => revoked_revokeWhere, settled := ?_ }⟩
  · unfold CredentialDB.revokeWhere
    rw [Table.map_update]
    · exact hi.hashes
    · exact fun _ _ => rfl
  · intro x hx hv
    refine ⟨(hi.cache x hx hv).1, fun he => ?_⟩
    have := ((hi.cache x hx hv).2 he).1
    rw [hr] at this
    cases this
  · intro hno
    rw [show s.revoker = none from hno] at hm
    cases hm
  · intro hno
    rw [show s.finished = true from hno] at hf
    cases hf
  · rintro (h | h | h)
    · rw [hr] at h
      cases h
    · rw [hf] at h
      cases h
    · rw [hm] at h
      exact absurd (Option.some.inj h).symm hu

theorem Inv.bump (hi : Inv db₀ s) (hr : s.raised = false) (hf : s.finished = false)
    (hm : s.revoker = some t) (now : ℤ) :
    (protocol db₀).Allows t s { s with db := s.db.bumpAuthEpoch now, raised := true } := by
  refine ⟨{ hi with
    epoch := ?_, writes := fun w hw => ⟨(hi.writes w hw).1, fun _ => rfl⟩,
    cache := fun x hx hv => ⟨(hi.cache x hx hv).1, fun he => ⟨rfl, ((hi.cache x hx hv).2 he).2⟩⟩,
    idle := ?_, finished := ?_ }, fun u hu => { Sees.refl u s with
      raised := fun _ => rfl, finished := ?_, mine := ?_ }⟩
  · have := hi.epoch
    rw [hr] at this
    simp only [CredentialDB.bumpAuthEpoch, Bool.toNat_true, Bool.toNat_false, Nat.cast_zero,
      Nat.cast_one] at this ⊢
    omega
  · intro hno
    rw [show s.revoker = none from hno] at hm
    cases hm
  · intro hno
    rw [show s.finished = true from hno] at hf
    cases hf
  · intro h
    rw [hf] at h
    cases h
  · intro h
    rw [hm] at h
    exact absurd (Option.some.inj h).symm hu

theorem activeAgentHashes_holds (tenant server : String) :
    Holds db₀ t (fun _ => True) (activeAgentHashes t tenant server) fun _ =>
      Revoking t fun s => s.raised = false ∧ (True → Same db₀ s) := by
  refine Prog.Triple.act stable_true (fun _ => stable_revoking) (fun _ => stable_true) ?_ ?_
  · rintro s now a s' hi - hf
    split_ifs at hf with hnone
    cases hf
    obtain ⟨hr, hfin, hsame⟩ := hi.idle hnone
    refine ⟨⟨{ hi with idle := fun h => nomatch h }, fun u hu => { Sees.refl u s with
      settled := fun _ _ h => h, mine := ?_, claimed := ?_ }⟩, rfl, hfin, hr, fun _ => hsame⟩
    · intro h
      rw [hnone] at h
      cases h
    · intro h
      exact absurd (Option.some.inj h).symm hu
  · rintro s now e s' - - hf
    split_ifs at hf
    cases hf

/-- What the handler did to the rows and the epoch. -/
def Done (db₀ : CredentialDB) (s : AuthState) : Prop :=
  s.raised = true ∨ (s.raised = false ∧ Same db₀ s)

theorem stable_done : (protocol db₀).Stable t (Revoking t (Done db₀)) := by
  intro s s' hi hi' hs h
  obtain ⟨hm, hr, hf⟩ := hs.mine h.mine
  refine ⟨hm, hf.trans h.finished, ?_⟩
  rcases h.rows with h' | ⟨h', hsame⟩
  · exact .inl (hr.trans h')
  · exact .inr ⟨hr.trans h', fun x hx => hsame x (hs.settled (.inr (.inr h.mine)) x hx)⟩

theorem revokeWhere_none {db : CredentialDB} {p : APIKey → Bool} {now : ℤ}
    (h : (db.apiKeys.filter fun k => p k && k.revokedAt = 0).length = 0) :
    (db.revokeWhere p now).apiKeys = db.apiKeys := by
  unfold CredentialDB.revokeWhere Table.update
  rw [List.length_eq_zero_iff, List.filter_eq_nil_iff] at h
  simp only
  conv_rhs => rw [← List.map_id db.apiKeys]
  exact List.map_congr_left fun k hk => if_neg (h k hk)

theorem revokeAgent_holds (tenant server : String) :
    Holds db₀ t (Revoking t fun s => s.raised = false ∧ (True → Same db₀ s))
      (revokeAgent tenant server) fun _ => Revoking t (Done db₀) := by
  refine Prog.Triple.bind (clock_holds stable_revoking) fun now => ?_
  refine Prog.Triple.bind (Q := fun n => Revoking t fun s => s.raised = false ∧ (n = 0 → Same db₀ s))
    (Prog.Triple.act stable_revoking (fun _ => stable_revoking) (fun _ => stable_true) ?_ ?_)
    fun n => ?_
  · rintro s c a s' hi hs hf
    cases hf
    refine ⟨hi.revoke hs.rows.1 hs.finished hs.mine _ _, hs.mine, hs.finished, hs.rows.1, ?_⟩
    rintro hn h ⟨k, hk, hh, hr⟩
    refine hs.rows.2 trivial h ⟨k, ?_, hh, hr⟩
    rw [← revokeWhere_none hn]
    exact hk
  · rintro s c e s' - - hf
    cases hf
  · split_ifs with hn
    · refine Prog.Triple.bind (Q := fun _ => Revoking t (Done db₀)) (Prog.Triple.modify
        stable_revoking stable_done (fun _ => stable_true) fun s hi hs => ?_) fun _ =>
        Prog.Triple.ret stable_done fun _ _ h => h
      exact ⟨hi.bump hs.rows.1 hs.finished hs.mine _, hs.mine, hs.finished, .inl rfl⟩
    · exact Prog.Triple.ret stable_done fun s _ h =>
        ⟨h.mine, h.finished, .inr ⟨h.rows.1, h.rows.2 (by omega)⟩⟩

theorem invalidateAll_holds (hP : (protocol db₀).Stable t P) (hkeep : KeptByCache P) :
    ∀ hashes : List String, Holds db₀ t P (invalidateAll hashes) fun _ => P
  | [] => Prog.Triple.ret hP fun _ _ h => h
  | _ :: hashes =>
    Prog.Triple.bind (invalidate_holds hP hkeep) fun _ => invalidateAll_holds hP hkeep hashes

theorem invalidateHashes_holds (hashes : List String) :
    Holds db₀ t (Revoking t (Done db₀)) (invalidateHashes hashes) fun _ s =>
      Revoking t (Done db₀) s ∧ Stored t s :=
  Prog.Triple.bind (invalidateAll_holds stable_done (fun _ _ h => ⟨h.mine, h.finished, h.rows⟩) hashes)
    fun _ => syncAuthEpoch_holds stable_done fun _ _ _ h => ⟨h.mine, h.finished, h.rows⟩

theorem stable_finished : (protocol db₀).Stable t fun s => s.finished = true :=
  fun _ _ _ _ hs h => (hs.finished h).1

theorem handleRevoke_holds (hash tenantQuery serverQuery : String) :
    Holds db₀ t (fun _ => True) (handleRevoke t hash tenantQuery serverQuery) fun _ s =>
      s.finished = true := by
  refine Prog.Triple.bind ((authPrincipal_holds hash scopeRead).conseq (fun _ _ h => h)
    (fun _ _ _ _ => trivial) fun _ _ _ h => h) fun p => ?_
  refine Prog.Triple.guard fun _ => ?_
  refine Prog.Triple.guard fun _ => ?_
  refine Prog.Triple.bind (activeAgentHashes_holds _ _) fun hashes => ?_
  refine Prog.Triple.bind (revokeAgent_holds _ _) fun n => ?_
  refine Prog.Triple.bind (invalidateHashes_holds hashes) fun _ => ?_
  refine Prog.Triple.bind (Q := fun _ s => s.finished = true) (Prog.Triple.modify
    (stable_done.and stable_stored) stable_finished (fun _ => stable_true) ?_)
    fun _ => Prog.Triple.ret stable_finished fun _ _ h => h
  rintro s hi ⟨h, hstored⟩
  refine ⟨⟨{ hi with idle := ?_, finished := fun _ => ?_, begun := fun _ _ => rfl }, fun u hu =>
    { Sees.refl u s with finished := fun _ => ⟨rfl, rfl⟩, mine := ?_ }⟩, rfl⟩
  · intro hno
    have := h.mine
    rw [show s.revoker = none from hno] at this
    cases this
  · rcases h.rows with hr | hr
    · exact .inl ⟨hr, hstored h.mine hr⟩
    · exact .inr hr
  · intro hm
    rw [h.mine] at hm
    exact absurd (Option.some.inj hm).symm hu

/-! ## Runs -/

/-- What a call promises on return. -/
def promise : AuthCall → ℕ → Except AuthError AuthReply → AuthState → Prop
  | .request hash _, t, .ok _, s => LetIn t hash s
  | .revoke _ _ _, _, .ok _, s => s.finished = true
  | _, _, .error _, _ => True

theorem revoked_touch {db : CredentialDB} {key h : String} {now : ℤ} :
    Revoked (db.touchAPIKey (fun _ => none) key now).1 h ↔ Revoked db h := by
  have hkeys : (db.touchAPIKey (fun _ => none) key now).1.apiKeys = db.apiKeys.map fun k =>
      if k.keyHash = key then { k with lastSeenAt := now } else k := by
    simp [CredentialDB.touchAPIKey, Driver.exec, Table.update]
  unfold Revoked
  rw [hkeys]
  simp only [List.mem_map, exists_exists_and_eq_and]
  refine exists_congr fun k => and_congr_right fun _ => ?_
  split_ifs <;> rfl

theorem Inv.touch (hi : Inv db₀ s) (key : String) (now : ℤ) :
    Inv db₀ { s with db := (s.db.touchAPIKey (fun _ => none) key now).1 } where
  nonneg := hi.nonneg
  epoch := hi.epoch
  writes := hi.writes
  copy := hi.copy
  hashes := by
    simp only [CredentialDB.touchAPIKey, Driver.exec]
    rw [Table.map_update]
    · exact hi.hashes
    · exact fun _ _ => rfl
  before h hh := revoked_touch.2 (hi.before h hh)
  cache x hx hv := by
    obtain ⟨hno, hlate⟩ := hi.cache x hx hv
    exact ⟨hno, fun he => ⟨(hlate he).1, fun h => (hlate he).2 (revoked_touch.1 h)⟩⟩
  idle hno := by
    obtain ⟨hr, hf, hsame⟩ := hi.idle hno
    exact ⟨hr, hf, fun h hh => hsame h (revoked_touch.1 hh)⟩
  finished hf := by
    rcases hi.finished hf with h | ⟨hr, hsame⟩
    · exact .inl h
    · exact .inr ⟨hr, fun h hh => hsame h (revoked_touch.1 hh)⟩
  begun := hi.begun

/-- A call that is yet to be made has not begun. -/
def Unbegun (t : ℕ) (s : AuthState) : Prop := ∀ b, (t, b) ∉ s.begun

theorem sound (db₀ : CredentialDB) : Pool.Sound service (protocol db₀) Unbegun promise where
  body call t s hi _ := by
    cases call with
    | request hash scope =>
      exact (Prog.Triple.bind (R := fun r => promise (.request hash scope) t (.ok r))
        (authPrincipal_holds hash scope) fun p => Prog.Triple.ret stable_letIn
          fun _ _ h => h).safe s hi trivial
    | revoke hash tenant server =>
      exact (Prog.Triple.bind (R := fun r => promise (.revoke hash tenant server) t (.ok r))
        (handleRevoke_holds hash tenant server) fun n => Prog.Triple.ret stable_finished
          fun _ _ h => h).safe s hi trivial
  env s e hi := by
    refine ⟨hi.touch e.1 e.2, fun t => { Sees.refl t s with
      revoked := fun h => revoked_touch.2, settled := fun _ h => revoked_touch.1 }⟩
  restart s hi := hi
  freshSees _ _ _ hs h b hb := h b ((hs.begun b).1 hb)
  freshRestart _ _ h := h
  postSees call t r s s' hs h := by
    rcases r with e | a
    · cases call <;> trivial
    · cases call with
      | request hash scope => exact LetIn.sees h hs
      | revoke hash tenant server => exact (hs.finished h).1
  postRestart _ _ _ _ h := h

theorem inv_start {db : CredentialDB} (interval : ℤ) (hn : (db.apiKeys.map (·.keyHash)).Nodup)
    (he : 0 ≤ db.authEpoch.epoch) : Inv db (start db interval) where
  nonneg := he
  epoch := by simp [start]
  writes := by simp [start]
  copy := rfl
  hashes := hn
  before _ h := h
  cache := by simp [start]
  idle _ := ⟨rfl, rfl, fun _ h => h⟩
  finished h := nomatch h
  begun := by simp [start]

/-- The copies go up just when the late ones come last. -/
theorem Inv.increasing_iff (hi : Inv db₀ s) :
    (0 :: s.writes.map (·.epoch)).Pairwise (· ≤ ·) ↔ Ordered s.writes := by
  rw [List.pairwise_cons, List.pairwise_map, Ordered]
  have hle : ∀ w ∈ s.writes, ∀ w' ∈ s.writes, (w.epoch ≤ w'.epoch ↔ (w.late = true → w'.late = true)) := by
    intro w hw w' hw'
    rw [(hi.writes w hw).1, (hi.writes w' hw').1]
    cases w.late <;> cases w'.late <;> simp
  constructor
  · rintro ⟨-, h⟩
    exact h.imp_of_mem fun hw hw' h => (hle _ hw _ hw').1 h
  · intro h
    refine ⟨fun x hx => ?_, h.imp_of_mem fun hw hw' h => (hle _ hw _ hw').2 h⟩
    obtain ⟨w, hw, rfl⟩ := List.mem_map.1 hx
    rw [(hi.writes w hw).1]
    have := hi.nonneg
    omega

end

/-- The pool of an instance that started on the store. -/
def instanceAfter (db : CredentialDB) (interval : ℤ) (turns : List (Turn ℤ AuthCall (String × ℤ))) :
    Pool AuthState ℤ AuthError AuthReply AuthCall :=
  Pool.after service (start db interval) turns

/-- The epoch of the instance never goes down, and no request that began after the handler returned is
let in with a key that was revoked then. -/
def TakesEffect (db : CredentialDB) (interval : ℤ) (turns : List (Turn ℤ AuthCall (String × ℤ))) :
    Prop :=
  (0 :: (instanceAfter db interval turns).shared.writes.map (·.epoch)).Pairwise (· ≤ ·)
    ∧ ∀ before later, turns = before ++ later →
      ∀ t hash tenant server reply,
        (t, .revoke hash tenant server, .ok reply) ∈ (instanceAfter db interval before).results →
      ∀ key, Revoked (instanceAfter db interval before).shared.db key →
      ∀ u scope reply', (u, .request key scope, .ok reply') ∈ (instanceAfter db interval turns).results →
        u < (instanceAfter db interval before).next

/-- A revocation takes effect just when no copy of the epoch that was read before the handler raised it
is stored after one that was read later. -/
theorem takesEffect_iff (db : CredentialDB) (interval : ℤ)
    (hn : (db.apiKeys.map (·.keyHash)).Nodup) (he : 0 ≤ db.authEpoch.epoch)
    (turns : List (Turn ℤ AuthCall (String × ℤ))) :
    TakesEffect db interval turns ↔ Ordered (instanceAfter db interval turns).shared.writes := by
  have hstart := inv_start interval hn he
  have hunbegun : ∀ t, Unbegun t (start db interval) := fun t b hb => nomatch hb
  have hkept := fun turns => Pool.sound (sound db) hstart hunbegun turns
  refine ⟨fun h => (hkept turns).inv.increasing_iff.1 h.1, fun ho =>
    ⟨(hkept turns).inv.increasing_iff.2 ho, ?_⟩⟩
  rintro before later rfl t hash tenant server reply hret key hrev u scope reply' hreq
  by_contra hu
  have hfinished : (instanceAfter db interval before).shared.finished = true :=
    (hkept before).post _ hret
  have hin : LetIn u key (instanceAfter db interval (before ++ later)).shared :=
    (hkept (before ++ later)).post _ hreq
  have hsees := Pool.sees_later (sound db) hstart hunbegun (fun s _ => Sees.refl _ s)
    before later le_rfl
  -- the request began after the handler was finished
  obtain ⟨b, hb⟩ := hin.begun
  have hlate : b = true := by
    rcases hsees.late hfinished _ hb with hb | hb
    · exact absurd hb ((hkept before).fresh u (not_lt.1 hu) b)
    · exact hb
  rw [hlate] at hb
  exact hin.late hb ho (hsees.revoked key hrev)

/-! ## A sample -/

/-- An agent's key and an administrator's. -/
def sampleKeys : CredentialDB where
  apiKeys := [⟨1, "token-1", "tenant-a", "client-a", kindAgent, scopeIngest, "", 0, 0, 0, "agent-a", "",
      1767225600, 0, 0⟩,
    ⟨2, "admin-1", "tenant-a", "client-a", kindAdmin, scopeAdmin, "", 0, 0, 0, "", "", 1767225600, 0, 0⟩]
  handshakes := []
  authEpoch := ⟨0, 1767225600⟩
  lastID := 2

def sampleInterval : ℤ := 5 * second

/-- So many steps of a call, a second after the keys were issued. -/
def steps (t n : ℕ) : List (Turn ℤ AuthCall (String × ℤ)) :=
  List.replicate n (.thread t (1767225601 * second))

/-- Call 0 reads the epoch, call 1 resolves the agent's key, and then call 2 revokes it. -/
def revocation : List (Turn ℤ AuthCall (String × ℤ)) :=
  [.start (.request "token-1" scopeIngest), .start (.request "token-1" scopeIngest),
      .start (.revoke "admin-1" "" "agent-a")]
    ++ steps 0 3 ++ steps 1 9 ++ steps 2 16

/-- Call 1 caches its answer, and call 3 comes after all that. -/
def afterwards : List (Turn ℤ AuthCall (String × ℤ)) :=
  steps 1 2 ++ [.start (.request "token-1" scopeIngest)] ++ steps 3 16

theorem takesEffect_iff_sample :
    (3, .request "token-1" scopeIngest, .error .invalidAPIKey)
        ∈ (instanceAfter sampleKeys sampleInterval (revocation ++ afterwards)).results
      ∧ TakesEffect sampleKeys sampleInterval (revocation ++ afterwards) :=
  ⟨by decide +kernel,
    (takesEffect_iff sampleKeys sampleInterval (by decide) (by decide) _).2 (by decide +kernel)⟩

/-- Before call 3 begins, call 0 stores the epoch that it read before the revocation. The agent's key
is revoked and the handler has returned, but call 3 is let in. -/
theorem revocation_undone :
    (2, .revoke "admin-1" "" "agent-a", .ok (.revoked 1))
        ∈ (instanceAfter sampleKeys sampleInterval revocation).results
      ∧ (∃ p, (3, .request "token-1" scopeIngest, .ok (.principal p))
        ∈ (instanceAfter sampleKeys sampleInterval (revocation ++ (steps 0 1 ++ afterwards))).results)
      ∧ ¬ TakesEffect sampleKeys sampleInterval (revocation ++ (steps 0 1 ++ afterwards)) := by
  have hret : (2, .revoke "admin-1" "" "agent-a", .ok (.revoked 1))
      ∈ (instanceAfter sampleKeys sampleInterval revocation).results := by decide +kernel
  have hreq : (3, .request "token-1" scopeIngest, .ok (.principal
      ⟨"tenant-a", "agent-a", "token-1", kindAgent, scopeIngest, 0⟩)) ∈ (instanceAfter sampleKeys
      sampleInterval (revocation ++ (steps 0 1 ++ afterwards))).results := by decide +kernel
  have hrev : ∃ k ∈ (instanceAfter sampleKeys sampleInterval revocation).shared.db.apiKeys,
      k.keyHash = "token-1" ∧ k.revokedAt ≠ 0 := by decide +kernel
  have hnext : (instanceAfter sampleKeys sampleInterval revocation).next = 3 := by decide +kernel
  refine ⟨hret, ⟨_, hreq⟩, fun h => ?_⟩
  have hlt := h.2 revocation _ rfl 2 _ _ _ _ hret "token-1" hrev 3 _ _ hreq
  omega

end AuthState

end WMonitor
