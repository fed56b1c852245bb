import WMonitor.Proofs.BootstrapHub
import WMonitor.Proofs.Prog

/-!
# One machine, one credential

The first start that gets as far as creating `agent_id` decides the identity; no other writes the file,
and what a broken write left is refused or is the identity of all. An enrollment without proof revokes
nothing, so that the Hub issues one credential for the identity and then hands out the token of the
handshake or refuses; a file that is renamed into place is read whole. Hence all agents that were ever
started on the machine have the same key (`makeProgram_agree`), as long as nobody takes the credential of
the machine away.
-/

namespace WMonitor

namespace Site

/-! ## The identity -/

theorem isSpace_serverIDChar {c : Char} (h : serverIDChar c = true) : isSpace c = false := by
  rw [← Bool.not_eq_true]
  intro hspace
  have hrange := isSpace_toNat hspace
  simp only [serverIDChar, Bool.or_eq_true, Bool.and_eq_true, decide_eq_true_eq, Char.le_def,
    UInt32.le_iff_toNat_le] at h
  rcases h with ((((⟨h₁, h₂⟩ | ⟨h₁, h₂⟩) | ⟨h₁, h₂⟩) | rfl) | rfl) | rfl
  · simp at h₁ h₂; omega
  · simp at h₁ h₂; omega
  · simp at h₁ h₂; omega
  · exact absurd hspace (by decide)
  · exact absurd hspace (by decide)
  · exact absurd hspace (by decide)

theorem isSpace_of_valid {id : String} (h : validServerID id = true) :
    ∀ c ∈ id.toList, isSpace c = false := by
  simp only [validServerID, Bool.and_eq_true, List.all_eq_true] at h
  exact fun c hc => isSpace_serverIDChar (h.2 c hc)

theorem trimSpace_line {id : String} (h : validServerID id = true) :
    String.ofList (trimSpace (id.toList ++ ['\n'])) = id := by
  have hpad := trimSpace_pad (a := []) (b := ['\n']) id.toList (by simp) (by simp; decide)
  rw [List.nil_append] at hpad
  rw [hpad, trimSpace_of_forall (isSpace_of_valid h), String.ofList_toList]

theorem trimmed_valid {id : String} (h : validServerID id = true) : trimmed id = id := by
  rw [trimmed, trimSpace_of_forall (isSpace_of_valid h), String.ofList_toList]

theorem serverIDChar_hexDigit {n : ℕ} (h : n < 16) : serverIDChar (hexDigit n) = true := by
  interval_cases n <;> rfl

theorem generatedID_valid (rand : Fin 16 → UInt8) : validServerID (generatedID rand) = true := by
  have htext : (generatedID rand).toList = 'a' :: '_' :: (hexEncode (List.ofFn rand)).toList := by
    simp [generatedID, newTenantID]
  have hlength : (hexEncode (List.ofFn rand)).toList.length = 32 := by
    simp [hexEncode]
  simp only [validServerID, htext, List.length_cons, hlength, Bool.and_eq_true, decide_eq_true_eq,
    List.all_cons, List.all_eq_true]
  refine ⟨by decide, by decide, by decide, fun c hc => ?_⟩
  simp only [hexEncode, String.toList_ofList, List.mem_flatMap, List.mem_cons, List.not_mem_nil,
    or_false] at hc
  obtain ⟨b, -, hc⟩ := hc
  have hb := b.toNat_lt
  rcases hc with rfl | rfl
  · exact serverIDChar_hexDigit (by omega)
  · exact serverIDChar_hexDigit (by omega)

/-- The identity of the machine, as a start reads it. -/
def Identity (id : String) (s : Site) : Prop :=
  ∃ text, s.agentID = some text ∧ String.ofList (trimSpace text) = id ∧ validServerID id = true

theorem Identity.unique {id id' : String} {s : Site} (h : Identity id s) (h' : Identity id' s) :
    id = id' := by
  obtain ⟨text, ht, rfl, -⟩ := h
  obtain ⟨text', ht', rfl, -⟩ := h'
  cases ht.symm.trans ht'
  rfl

theorem Identity.ne_nil {id : String} {s : Site} (h : Identity id s) {text : List Char}
    (ht : s.agentID = some text) : text ≠ [] := by
  obtain ⟨text', ht', rfl, hvalid⟩ := h
  cases ht.symm.trans ht'
  rintro rfl
  exact absurd hvalid (by decide)

/-! ## The protocol -/

section Protocol

variable (J : CredentialCodec) (K : KeyTexts) (cfg : Config) (server : String)

/-- The hash of the code that the machine enrolls with. -/
def Config.codeHash : String := K.hashEnrollCode (trimmed cfg.enrollCode)

structure Inv (s : Site) : Prop where
  hub : Orderly K (cfg.codeHash K) server s.hub.db.credentials
  creating : ∀ t, s.creating = some t → s.agentID = some []
  identity : ∀ g ∈ s.granted, Identity g.serverID s
  known : ∀ g ∈ s.granted, g.serverID = server →
    Known K (cfg.codeHash K) server s.hub.db.credentials g
  agree : ∀ g ∈ s.granted, ∀ g' ∈ s.granted, g.serverID = server → g' = g
  token : ∀ data, s.token = some data → ∃ creds, J.marshal creds = some data
    ∧ creds.hubURL = cfg.hubURL ∧ ⟨creds.token, creds.tenantID, creds.serverID⟩ ∈ s.granted

/-- What process `t` may see the others do. -/
structure Sees (t : ℕ) (s s' : Site) : Prop where
  agentID : ∀ text, s.agentID = some text → text ≠ [] → s'.agentID = some text
  creating : s.creating = some t → s'.creating = some t
  temps : s'.tempOf t = s.tempOf t
  granted : ∀ g ∈ s.granted, g ∈ s'.granted
  token : s.token.isSome = true → s'.token.isSome = true

variable {t : ℕ} {s s' s'' : Site}

theorem Sees.refl (t : ℕ) (s : Site) : Sees t s s where
  agentID _ h _ := h
  creating h := h
  temps := rfl
  granted _ h := h
  token h := h

theorem Sees.trans (h : Sees t s s') (h' : Sees t s' s'') : Sees t s s'' where
  agentID text ht hne := h'.agentID text (h.agentID text ht hne) hne
  creating hc := h'.creating (h.creating hc)
  temps := h'.temps.trans h.temps
  granted g hg := h'.granted g (h.granted g hg)
  token ht := h'.token (h.token ht)

def protocol : Protocol Site where
  inv := Inv J K cfg server
  sees := Sees
  refl := Sees.refl
  trans := Sees.trans

end Protocol

section Steps

variable {J : CredentialCodec} {K : KeyTexts} {cfg : Config} {server : String} {t : ℕ} {ε α : Type}

/-- A program of process `t` that is safe and returns with `Q`. -/
abbrev Holds (J : CredentialCodec) (K : KeyTexts) (cfg : Config) (server : String) (t : ℕ)
    (P : Site → Prop) (p : SiteM ε α) (Q : α → Site → Prop) : Prop :=
  Prog.Triple (protocol J K cfg server) t P p Q fun _ _ => True

abbrev Lasts (J : CredentialCodec) (K : KeyTexts) (cfg : Config) (server : String) (t : ℕ)
    (P : Site → Prop) : Prop :=
  (protocol J K cfg server).Stable t P

variable {P : Site → Prop} {Q : α → Site → Prop}

theorem lasts_true : Lasts J K cfg server t fun _ => True := fun _ _ _ _ _ h => h

theorem Identity.sees {id : String} {s s' : Site} (h : Identity id s) (hs : Sees t s s') :
    Identity id s' := by
  obtain ⟨text, ht, hid, hvalid⟩ := h
  exact ⟨text, hs.agentID text ht (Identity.ne_nil ⟨text, ht, hid, hvalid⟩ ht), hid, hvalid⟩

theorem lasts_identity (id : String) : Lasts J K cfg server t (Identity id) :=
  fun _ _ _ _ hs h => h.sees hs

theorem lasts_token : Lasts J K cfg server t fun s => s.token.isSome = true :=
  fun _ _ _ _ hs h => hs.token h

theorem lasts_creating : Lasts J K cfg server t fun s => s.creating = some t :=
  fun _ _ _ _ hs h => hs.creating h

theorem lasts_temp (data : List UInt8) : Lasts J K cfg server t fun s => s.tempOf t = some data :=
  fun _ _ _ _ hs h => hs.temps.trans h

/-- A step that changes nothing. -/
theorem look_holds {f : Site → Chance → Except ε α} (hP : Lasts J K cfg server t P)
    (hQ : ∀ a, Lasts J K cfg server t (Q a))
    (h : ∀ s c a, Inv J K cfg server s → P s → f s c = .ok a → Q a s) :
    Holds J K cfg server t P (.act fun s c => some (f s c, s)) Q := by
  refine Prog.Triple.acts hP hQ fun s c r s' hi hs hf => ?_
  obtain ⟨rfl, rfl⟩ := Prod.mk.inj (Option.some.inj hf)
  exact ⟨.idle hi, fun a ha => h s c a hi hs ha⟩

theorem sysCall_holds (hP : Lasts J K cfg server t P) (e : ε) :
    Holds J K cfg server t P (sysCall e) fun _ => P :=
  look_holds hP (fun _ => hP) fun _ _ _ _ hs _ => hs

/-- A step that changes the state as the others may see. -/
theorem change_holds {f : Site → Chance → Except ε α × Site} (hP : Lasts J K cfg server t P)
    (hQ : ∀ a, Lasts J K cfg server t (Q a))
    (hallows : ∀ s c, Inv J K cfg server s → P s →
      (protocol J K cfg server).Allows t s (f s c).2)
    (h : ∀ s c a, Inv J K cfg server s → P s → (f s c).1 = .ok a → Q a (f s c).2) :
    Holds J K cfg server t P (.act fun s c => some (f s c)) Q := by
  refine Prog.Triple.acts hP hQ fun s c r s' hi hs hf => ?_
  have hfst : f s c = (r, s') := Option.some.inj hf
  have ha := hallows s c hi hs
  have hq := fun a => h s c a hi hs
  rw [hfst] at ha hq
  exact ⟨ha, hq⟩

/-! ### The identity file -/

theorem lstatAgentID_holds (hP : Lasts J K cfg server t P) :
    Holds J K cfg server t P lstatAgentID fun _ => P :=
  look_holds hP (fun _ => hP) fun _ _ _ _ hs _ => hs

theorem readAgentID_holds (hP : Lasts J K cfg server t P) :
    Holds J K cfg server t P readAgentID fun text s =>
      P s ∧ (validServerID (String.ofList (trimSpace text)) = true →
        Identity (String.ofList (trimSpace text)) s) := by
  have hQ : ∀ text : List Char, Lasts J K cfg server t fun s =>
      P s ∧ (validServerID (String.ofList (trimSpace text)) = true →
        Identity (String.ofList (trimSpace text)) s) := fun text =>
    hP.and fun s s' hi hi' hs h hvalid => (h hvalid).sees hs
  refine Prog.Triple.acts hP hQ fun s c r s' hi hs hf => ?_
  rcases htext : s.agentID with _ | text
  · rw [htext] at hf
    cases hf
    exact ⟨.idle hi, fun a ha => by cases ha⟩
  · rw [htext] at hf
    obtain ⟨rfl, rfl⟩ := Prod.mk.inj (Option.some.inj hf)
    refine ⟨.idle hi, fun a ha => ?_⟩
    split_ifs at ha
    cases ha
    exact ⟨hs, fun hvalid => ⟨text, htext, rfl, hvalid⟩⟩

theorem generateID_holds (hP : Lasts J K cfg server t P) :
    Holds J K cfg server t P generateID fun id s => validServerID id = true ∧ P s := by
  refine look_holds hP (fun _ => (Protocol.Stable.const _).and hP) fun s c id _ hs hf => ?_
  split_ifs at hf
  cases hf
  exact ⟨generatedID_valid c.rand, hs⟩

theorem newID_holds (explicit : ServerIDFlag) :
    Holds J K cfg server t (fun _ => True) (newID explicit) fun id _ => validServerID id = true := by
  unfold newID
  split_ifs with hempty
  · exact (generateID_holds lasts_true).conseq (fun _ _ h => h) (fun _ _ _ h => h.1) fun _ _ _ h => h
  · exact Prog.Triple.ret (Protocol.Stable.const _) fun s _ _ => explicit.property.resolve_left hempty

/-- Nothing was handed out to a machine without an identity. -/
theorem Inv.nothing {s : Site} (hi : Inv J K cfg server s) (h : ∀ id, ¬ Identity id s) :
    s.granted = [] ∧ s.token = none := by
  have hnone : s.granted = [] := by
    rw [List.eq_nil_iff_forall_not_mem]
    exact fun g hg => h _ (hi.identity g hg)
  refine ⟨hnone, ?_⟩
  rcases htoken : s.token with _ | data
  · rfl
  · obtain ⟨creds, -, -, hm⟩ := hi.token data htoken
    rw [hnone] at hm
    cases hm

/-- A change of the identity file of a machine that has no identity. -/
theorem Inv.identified {s : Site} (hi : Inv J K cfg server s) (h : ∀ id, ¬ Identity id s)
    {text : Option (List Char)} {creating : Option ℕ}
    (hcreating : ∀ t, creating = some t → text = some []) :
    Inv J K cfg server { s with agentID := text, creating := creating } := by
  obtain ⟨hnone, htoken⟩ := hi.nothing h
  refine ⟨hi.hub, hcreating, ?_, ?_, ?_, ?_⟩
  · simp [hnone]
  · simp [hnone]
  · simp [hnone]
  · simp [htoken]

theorem createAgentID_holds :
    Holds J K cfg server t (fun _ => True) (createAgentID t) fun _ s => s.creating = some t := by
  refine Prog.Triple.acts lasts_true (fun _ => lasts_creating) fun s c r s' hi _ hf => ?_
  split_ifs at hf with hc
  · cases hf
    exact ⟨.idle hi, fun a ha => by cases ha⟩
  · cases hf
    rw [not_or, Option.not_isSome_iff_eq_none] at hc
    have hno : ∀ id, ¬ Identity id s := by
      rintro id ⟨text, ht, -⟩
      rw [hc.2] at ht
      cases ht
    refine ⟨⟨hi.identified hno fun u hu => rfl, fun u hu => ?_⟩, fun _ _ => rfl⟩
    refine { Sees.refl u s with agentID := fun text ht _ => ?_, creating := fun hu' => ?_ }
    · rw [hc.2] at ht
      cases ht
    · have hsome := hi.creating u hu'
      rw [hc.2] at hsome
      cases hsome

theorem writeAgentID_holds {id : String} (hid : validServerID id = true) :
    Holds J K cfg server t (fun s => s.creating = some t) (writeAgentID (id.toList ++ ['\n']))
      fun _ => Identity id := by
  refine change_holds lasts_creating (fun _ => lasts_identity id) (fun s c hi hs => ?_)
    fun s c a hi hs hf => ?_
  · have hempty := hi.creating t hs
    have hno : ∀ id, ¬ Identity id s := fun id h => h.ne_nil hempty rfl
    refine ⟨hi.identified hno fun u hu => ?_, fun u hu => ?_⟩
    · cases hu
    · refine { Sees.refl u s with agentID := fun text ht hne => ?_, creating := fun hu' => ?_ }
      · cases hempty.symm.trans ht
        exact absurd rfl hne
      · rw [hs, Option.some.injEq] at hu'
        exact absurd hu'.symm hu
  · dsimp only at hf ⊢
    split_ifs at hf with hc
    rw [not_or, Nat.not_lt] at hc
    exact ⟨_, rfl, by rw [List.take_of_length_le hc.2]; exact trimSpace_line hid, hid⟩

theorem resolveServerID_holds (explicit : ServerIDFlag) :
    Holds J K cfg server t (fun _ => True) (resolveServerID t explicit) Identity := by
  unfold resolveServerID
  refine Prog.Triple.bind (sysCall_holds lasts_true _) fun _ => ?_
  refine Prog.Triple.bind (lstatAgentID_holds lasts_true) fun there => ?_
  split_ifs
  · refine Prog.Triple.bind (readAgentID_holds lasts_true) fun body => ?_
    dsimp only
    refine Prog.Triple.guard fun hvalid => Prog.Triple.guard fun _ => ?_
    exact Prog.Triple.ret (lasts_identity _) fun s _ hs => hs.2 (by simpa using hvalid)
  · refine Prog.Triple.bind (newID_holds explicit) fun id => ?_
    refine Prog.Triple.pre (H := fun _ => validServerID id = true ∧ True) (Prog.Triple.assume fun hid => ?_)
      fun _ _ h => ⟨h, trivial⟩
    refine Prog.Triple.bind createAgentID_holds fun _ => ?_
    refine Prog.Triple.bind (writeAgentID_holds hid) fun _ => ?_
    refine Prog.Triple.bind (sysCall_holds (lasts_identity id) _) fun _ => ?_
    refine Prog.Triple.bind (sysCall_holds (lasts_identity id) _) fun _ => ?_
    exact Prog.Triple.ret (lasts_identity id) fun s _ hs => hs

theorem resolveServerID_keeps (explicit : ServerIDFlag) {R : Site → Prop}
    (hR : ∀ u s s', Sees u s s' → R s → R s') :
    Holds J K cfg server t R (resolveServerID t explicit) fun id s => Identity id s ∧ R s :=
  ((resolveServerID_holds explicit).frame hR).conseq (fun _ _ h => ⟨trivial, h⟩) (fun _ _ _ h => h)
    fun _ _ _ _ => trivial

/-! ### The credential file -/

/-- The grant that is stored with credentials. -/
def grantIn (creds : StoredCredentials) : Grant := ⟨creds.token, creds.tenantID, creds.serverID⟩

/-- What is stored was handed out by the Hub of the configuration. -/
structure Stored (cfg : Config) (creds : StoredCredentials) (s : Site) : Prop where
  granted : grantIn creds ∈ s.granted
  hubURL : creds.hubURL = cfg.hubURL

theorem lasts_stored (creds : StoredCredentials) : Lasts J K cfg server t (Stored cfg creds) :=
  fun _ _ _ _ hs h => ⟨hs.granted _ h.granted, h.hubURL⟩

theorem load_holds (hP : Lasts J K cfg server t P) :
    Holds J K cfg server t P (load J) fun creds s =>
      P s ∧ Stored cfg creds s ∧ s.token.isSome = true := by
  have hQ : ∀ data : List UInt8, Lasts J K cfg server t fun s => P s ∧ s.token.isSome = true
      ∧ ∃ creds, J.marshal creds = some data ∧ Stored cfg creds s := fun data =>
    hP.and (lasts_token.and fun s s' hi hi' hs ⟨creds, hd, hst⟩ =>
      ⟨creds, hd, lasts_stored creds hi hi' hs hst⟩)
  unfold load
  refine Prog.Triple.bind (Q := fun _ => P) (look_holds hP (fun _ => hP) fun _ _ _ _ hs _ => hs)
    fun there => ?_
  refine Prog.Triple.guard fun _ => Prog.Triple.bind (Q := fun data s => P s ∧ s.token.isSome = true
    ∧ ∃ creds, J.marshal creds = some data ∧ Stored cfg creds s) ?_ fun data => ?_
  · refine Prog.Triple.acts hP hQ fun s c r s' hi hs hf => ?_
    rcases htoken : s.token with _ | data
    · rw [htoken] at hf
      cases hf
      exact ⟨.idle hi, fun a ha => by cases ha⟩
    · rw [htoken] at hf
      obtain ⟨rfl, rfl⟩ := Prod.mk.inj (Option.some.inj hf)
      refine ⟨.idle hi, fun a ha => ?_⟩
      split_ifs at ha
      cases ha
      obtain ⟨creds, hd, hurl, hm⟩ := hi.token data htoken
      exact ⟨hs, by rw [htoken]; rfl, creds, hd, hm, hurl⟩
  · rcases hdata : J.unmarshal data with _ | creds
    · exact Prog.Triple.refuse _
    · refine Prog.Triple.ret (hP.and ((lasts_stored creds).and lasts_token)) fun s _ hs => ?_
      obtain ⟨hs, htoken, creds', hmarshal, hst⟩ := hs
      cases (J.roundTrip creds' data hmarshal).symm.trans hdata
      exact ⟨hs, hst, htoken⟩

theorem find_others (temps : List (ℕ × List UInt8)) {t u : ℕ} (hu : u ≠ t) :
    (temps.filter (·.1 ≠ t)).find? (·.1 = u) = temps.find? (·.1 = u) := by
  rw [List.find?_filter]
  congr 1
  funext f
  by_cases hf : f.1 = u
  · simp [hf, hu]
  · simp [hf]

theorem find_own (temps : List (ℕ × List UInt8)) (t : ℕ) :
    (temps.filter (·.1 ≠ t)).find? (·.1 = t) = none := by
  simp

theorem tempOf_put (s : Site) (t u : ℕ) (data : List UInt8) :
    ({ s with temps := s.temps.filter (·.1 ≠ t) ++ [(t, data)] } : Site).tempOf u
      = if u = t then some data else s.tempOf u := by
  unfold tempOf
  rw [List.find?_append]
  split_ifs with hu
  · rw [hu, find_own]
    simp
  · rw [find_others _ hu]
    simp [Ne.symm hu]

theorem tempOf_drop (s : Site) {t u : ℕ} (hu : u ≠ t) :
    ({ s with temps := s.temps.filter (·.1 ≠ t) } : Site).tempOf u = s.tempOf u := by
  unfold tempOf
  rw [find_others _ hu]

/-- The temporary file of process `t` is its own. -/
theorem allows_temps {s : Site} (hi : Inv J K cfg server s) {temps : List (ℕ × List UInt8)}
    (h : ∀ u, u ≠ t → ({ s with temps := temps } : Site).tempOf u = s.tempOf u) :
    (protocol J K cfg server).Allows t s { s with temps := temps } :=
  ⟨⟨hi.hub, hi.creating, hi.identity, hi.known, hi.agree, hi.token⟩,
    fun u hu => { Sees.refl u s with temps := h u hu }⟩

theorem createTemp_holds (creds : StoredCredentials) :
    Holds J K cfg server t (Stored cfg creds) (createTemp t) fun _ => Stored cfg creds := by
  refine Prog.Triple.acts (lasts_stored creds) (fun _ => lasts_stored creds) fun s c r s' hi hs hf => ?_
  split_ifs at hf
  · cases hf
    exact ⟨.idle hi, fun _ _ => hs⟩
  · cases hf
    exact ⟨allows_temps hi fun u hu => by rw [tempOf_put, if_neg hu], fun _ _ => ⟨hs.granted, hs.hubURL⟩⟩

theorem writeTemp_holds (creds : StoredCredentials) (data : List UInt8) :
    Holds J K cfg server t (Stored cfg creds) (writeTemp t data) fun _ s =>
      Stored cfg creds s ∧ s.tempOf t = some data := by
  refine change_holds (lasts_stored creds) (fun _ => (lasts_stored creds).and (lasts_temp data))
    (fun s c hi hs => ?_) fun s c a hi hs hf => ?_
  · exact allows_temps hi fun u hu => by rw [tempOf_put, if_neg hu]
  · dsimp only at hf ⊢
    split_ifs at hf with hc
    rw [not_or, Nat.not_lt] at hc
    refine ⟨⟨hs.granted, hs.hubURL⟩, ?_⟩
    rw [tempOf_put, if_pos rfl, List.take_of_length_le hc.2]

theorem removeTemp_holds : Holds J K cfg server t (fun _ => True) (removeTemp t) fun _ _ => True := by
  refine change_holds lasts_true (fun _ => lasts_true) (fun s c hi _ => ?_) fun _ _ _ _ _ _ => trivial
  dsimp only
  split_ifs
  · exact .idle hi
  · exact allows_temps hi fun u hu => tempOf_drop s hu

theorem rename_holds {creds : StoredCredentials} {data : List UInt8}
    (hmarshal : J.marshal creds = some data) :
    Holds J K cfg server t (fun s => Stored cfg creds s ∧ s.tempOf t = some data) (rename t)
      fun _ s => Stored cfg creds s ∧ s.token.isSome = true := by
  refine Prog.Triple.acts ((lasts_stored creds).and (lasts_temp _))
    (fun _ => (lasts_stored creds).and lasts_token) fun s c r s' hi hs hf => ?_
  obtain ⟨hs, htemp⟩ := hs
  rw [htemp] at hf
  dsimp only at hf
  split_ifs at hf
  · cases hf
    exact ⟨.idle hi, fun a ha => by cases ha⟩
  · cases hf
    refine ⟨⟨⟨hi.hub, hi.creating, hi.identity, hi.known, hi.agree, fun data hdata => ?_⟩,
      fun u hu => ?_⟩, fun _ _ => ⟨⟨hs.granted, hs.hubURL⟩, rfl⟩⟩
    · cases hdata
      exact ⟨creds, hmarshal, hs.hubURL, hs.granted⟩
    · exact { Sees.refl u s with temps := tempOf_drop s hu, token := fun _ => rfl }

theorem atomicWriteFile_holds {creds : StoredCredentials} {data : List UInt8}
    (hmarshal : J.marshal creds = some data) :
    Holds J K cfg server t (Stored cfg creds) (atomicWriteFile t data) fun _ s =>
      Stored cfg creds s ∧ s.token.isSome = true := by
  unfold atomicWriteFile
  refine Prog.Triple.bind (sysCall_holds (lasts_stored creds) _) fun _ => ?_
  refine Prog.Triple.bind (createTemp_holds creds) fun _ => ?_
  refine Prog.Triple.bind (Prog.Triple.attempt (Q := fun _ s => Stored cfg creds s ∧ s.token.isSome = true)
    (E := fun _ _ => True) ?_) fun written => ?_
  · refine Prog.Triple.bind (writeTemp_holds creds _) fun _ => ?_
    refine Prog.Triple.bind (sysCall_holds ((lasts_stored creds).and (lasts_temp _)) _) fun _ => ?_
    refine Prog.Triple.bind (sysCall_holds ((lasts_stored creds).and (lasts_temp _)) _) fun _ => ?_
    exact rename_holds hmarshal
  · rcases written with e | u
    · refine Prog.Triple.bind removeTemp_holds fun _ => ?_
      exact Prog.Triple.refuse _
    · exact Prog.Triple.ret ((lasts_stored creds).and lasts_token) fun s _ hs => hs

theorem save_holds (creds : StoredCredentials) :
    Holds J K cfg server t (Stored cfg creds) (save J t creds) fun _ s =>
      Stored cfg creds s ∧ s.token.isSome = true := by
  unfold save
  rcases hmarshal : J.marshal creds with _ | data
  · exact Prog.Triple.refuse _
  · refine Prog.Triple.bind (sysCall_holds (lasts_stored creds) _) fun _ => ?_
    refine Prog.Triple.bind (atomicWriteFile_holds hmarshal) fun _ => ?_
    exact sysCall_holds ((lasts_stored creds).and lasts_token) _

/-! ### Enrollment -/

/-- A reply that hands out a token was recorded. -/
def Recorded (resp : EnrollReply) (s : Site) : Prop :=
  ∀ data, resp.status = 201 → resp.body = some data →
    (⟨data.token, data.tenantID, data.serverID⟩ : Grant) ∈ s.granted

theorem lasts_recorded (resp : EnrollReply) : Lasts J K cfg server t (Recorded resp) :=
  fun _ _ _ _ hs h data hstatus hbody => hs.granted _ (h data hstatus hbody)

/-- The Hub is at another point, and has handed out a token that a handshake of the machine holds. -/
theorem Inv.handedOut {s : Site} (hi : Inv J K cfg server s) {id : String} (hid : Identity id s)
    {hub : Server} {h : Handshake} {c : CredentialCall}
    (hc : hub.db.credentials = s.hub.db.credentials.step c)
    (ha : Admits K server s.hub.db.credentials c) (hm : h ∈ hub.db.credentials.handshakes)
    (hkey : h.key = (cfg.codeHash K, id)) :
    Inv J K cfg server
      { s with hub := hub, granted := s.granted ++ [⟨h.token, h.tenantID, id⟩] } := by
  have hub' : Orderly K (cfg.codeHash K) server hub.db.credentials := hc ▸ hi.hub.step ha
  have hold : ∀ g ∈ s.granted, g.serverID = server →
      Known K (cfg.codeHash K) server hub.db.credentials g := fun g hg hserver => by
    rw [hc]
    exact (hi.known g hg hserver).step hi.hub ha
  -- Whoever was handed a token before was handed this one.
  have hsame : ∀ g ∈ s.granted, g.serverID = server → g = ⟨h.token, h.tenantID, id⟩ := by
    intro g hg hserver
    have hid' : g.serverID = id := (hi.identity g hg).unique hid
    obtain ⟨htoken, htenant⟩ := (hold g hg hserver).handshakes h hm (by rw [hkey, ← hid', hserver])
    cases g
    simp only at hid' htoken htenant
    rw [htoken, htenant, hid']
  refine ⟨hub', hi.creating, fun g hg => ?_, fun g hg hserver => ?_, fun g hg g' hg' hserver => ?_,
    fun data hdata => ?_⟩
  · rcases List.mem_append.1 hg with hg | hg
    · exact hi.identity g hg
    · rw [List.mem_singleton.1 hg]
      exact hid
  · rcases List.mem_append.1 hg with hg | hg
    · exact hold g hg hserver
    · rw [List.mem_singleton.1 hg] at hserver ⊢
      obtain rfl : id = server := hserver
      exact hub'.known hm hkey
  · have heq : ∀ g ∈ s.granted ++ [⟨h.token, h.tenantID, id⟩], g.serverID = server →
        g = ⟨h.token, h.tenantID, id⟩ := by
      intro g hg hserver
      rcases List.mem_append.1 hg with hg | hg
      · exact hsame g hg hserver
      · exact List.mem_singleton.1 hg
    have hserver' : g'.serverID = server := by
      rcases List.mem_append.1 hg' with hg' | hg'
      · rw [(hi.identity g' hg').unique hid, ← hserver, heq g hg hserver]
      · rw [List.mem_singleton.1 hg', ← hserver, heq g hg hserver]
    rw [heq g hg hserver, heq g' hg' hserver']
  · obtain ⟨creds, hd, hurl, hg⟩ := hi.token data hdata
    exact ⟨creds, hd, hurl, List.mem_append_left _ hg⟩

/-- What the Hub makes of a request of the machine. -/
theorem Inv.answered {s : Site} (hi : Inv J K cfg server s) {id : String} (hid : Identity id s)
    {o : Occasion} {insecure : Bool} {r : Request Server.EnrollBody} {hub : Server}
    {answer : Except Refusal Issued} (hbody : r.body = some ⟨cfg.enrollCode, id, ""⟩)
    (h : Server.handleEnroll K o insecure r s.hub = (answer, hub))
    (haudit : answer ≠ .error ⟨503, "audit unavailable"⟩) :
    Inv J K cfg server { s with hub := hub, granted := s.granted ++ grantOf answer }
      ∧ Recorded (replyOf answer) { s with hub := hub, granted := s.granted ++ grantOf answer } := by
  rcases Server.handleEnroll_run h haudit with
    ⟨e, rfl, hstatus, hsame⟩ | ⟨req, token, result, hreq, hdone, rfl⟩
  · refine ⟨?_, fun data h201 _ => absurd h201 hstatus⟩
    simp only [grantOf, List.append_nil]
    exact ⟨hsame ▸ hi.hub, hi.creating, hi.identity, hsame ▸ hi.known, hi.agree, hi.token⟩
  · cases hbody.symm.trans hreq
    have htrim : trimmed id = id := by
      obtain ⟨-, -, -, hvalid⟩ := hid
      exact trimmed_valid hvalid
    obtain ⟨hs, hm, hkey, htoken, htenant⟩ := enrolled hdone
    have ha : Admits K server s.hub.db.credentials
        ⟨.completeEnrollment (Server.enrollmentRequest K ⟨cfg.enrollCode, id, ""⟩ token),
          unix (o.clock 0), o.io 0⟩ :=
      admits_enrollment rfl rfl rfl _ _ _
    have hstep : hub.db.credentials = s.hub.db.credentials.step
        ⟨.completeEnrollment (Server.enrollmentRequest K ⟨cfg.enrollCode, id, ""⟩ token),
          unix (o.clock 0), o.io 0⟩ := by
      simp only [CredentialDB.step, hdone]
    have hkey' : hs.key = (cfg.codeHash K, id) := by
      rw [hkey]
      exact Prod.ext rfl htrim
    simp only [grantOf, htrim, ← htoken, ← htenant]
    refine ⟨hi.handedOut hid hstep ha hm hkey', fun data _ hdata => ?_⟩
    cases hdata
    exact List.mem_append_right _ (List.mem_singleton_self _)

theorem clientDo_holds (id : String) :
    Prog.Triple (protocol J K cfg server) t (Identity id) (clientDo K ⟨cfg.enrollCode, id, ""⟩)
      (fun resp s => Recorded resp s ∧ Identity id s) fun _ => Identity id := by
  have hsees : ∀ (s : Site) (hub : Server) (more : List Grant) (u : ℕ),
      Sees u s { s with hub := hub, granted := s.granted ++ more } := fun s hub more u =>
    { Sees.refl u s with granted := fun _ hg => List.mem_append_left _ hg }
  refine Prog.Triple.act (lasts_identity id) (fun resp => (lasts_recorded resp).and (lasts_identity id))
    (fun _ => lasts_identity id) ?_ ?_
  · rintro s c resp s' hi hs hf
    dsimp only at hf
    split_ifs at hf with hlost haudit hreply
    · cases hf
    · cases hf
    · rcases hanswer : Server.handleEnroll K c.occasion c.insecure
        (enrollRequest c ⟨cfg.enrollCode, id, ""⟩) s.hub with ⟨answer, hub⟩
      rw [hanswer] at hf haudit
      cases hf
      obtain ⟨hinv, hrec⟩ := hi.answered hs rfl hanswer haudit
      exact ⟨⟨hinv, fun u _ => hsees s _ _ u⟩, hrec, hs.sees (hsees s _ _ t)⟩
  · rintro s c e s' hi hs hf
    dsimp only at hf
    rcases hanswer : Server.handleEnroll K c.occasion c.insecure
      (enrollRequest c ⟨cfg.enrollCode, id, ""⟩) s.hub with ⟨answer, hub⟩
    rw [hanswer] at hf
    split_ifs at hf with hlost haudit hreply
    · cases hf
      exact ⟨.idle hi, hs⟩
    · cases hf
      exact ⟨⟨(hi.answered hs rfl hanswer haudit).1, fun u _ => hsees s _ _ u⟩, hs.sees (hsees s _ _ t)⟩
    · cases hf

theorem attempts_holds (id : String) :
    Holds J K cfg server t (Identity id) (attempts K ⟨cfg.enrollCode, id, ""⟩) Recorded := by
  unfold attempts
  refine Prog.Triple.bind (Prog.Triple.attempt (clientDo_holds id)) fun first => ?_
  rcases first with e | resp
  · exact (clientDo_holds id).conseq (fun _ _ hs => hs) (fun _ _ _ h => h.1) fun _ _ _ _ => trivial
  · exact Prog.Triple.ret (lasts_recorded resp) fun s _ hs => hs.1

/-- The credentials that are made of a reply are of what was handed out. -/
theorem storeEnrollment_stored {resp : EnrollReply} {now : ℤ} {creds : StoredCredentials} {s : Site}
    (h : storeEnrollment cfg.hubURL now true resp = .ok creds) (hs : Recorded resp s) :
    Stored cfg creds s := by
  unfold storeEnrollment at h
  by_cases hstatus : resp.status = 201
  · rw [if_neg (not_not.2 hstatus)] at h
    rcases hbody : resp.body with _ | data
    · rw [hbody] at h
      cases h
    · rw [hbody] at h
      cases h
      exact ⟨hs data hstatus hbody, rfl⟩
  · rw [if_pos hstatus] at h
    dsimp only at h
    split_ifs at h

theorem enroll_holds (U : URLs) (id : String) :
    Holds J K cfg server t (Identity id) (enroll J K U cfg t id) fun creds s =>
      Stored cfg creds s ∧ s.token.isSome = true := by
  unfold enroll
  refine Prog.Triple.guard fun _ => Prog.Triple.guard fun _ => ?_
  refine Prog.Triple.bind (attempts_holds id) fun resp => ?_
  refine Prog.Triple.bind (Q := fun _ => Recorded resp)
    (look_holds (lasts_recorded resp) (fun _ => lasts_recorded resp) fun _ _ _ _ hs _ => hs) fun now => ?_
  rcases hcreds : storeEnrollment cfg.hubURL now true resp with e | creds
  · exact Prog.Triple.refuse _
  · refine Prog.Triple.bind
      ((save_holds creds).pre fun s _ hs => storeEnrollment_stored hcreds hs) fun _ => ?_
    exact Prog.Triple.ret ((lasts_stored creds).and lasts_token) fun s _ hs => hs

/-! ### The start -/

/-- The key was handed out and is stored. -/
def HasKey (key : String) (s : Site) : Prop :=
  (∃ g ∈ s.granted, g.token = key) ∧ s.token.isSome = true

theorem HasKey.sees {key : String} {s s' : Site} (h : HasKey key s) (hs : Sees t s s') : HasKey key s' := by
  obtain ⟨⟨g, hg, hkey⟩, htoken⟩ := h
  exact ⟨⟨g, hs.granted g hg, hkey⟩, hs.token htoken⟩

theorem lasts_hasKey (key : String) : Lasts J K cfg server t (HasKey key) :=
  fun _ _ _ _ hs h => h.sees hs

theorem Stored.hasKey {creds : StoredCredentials} {s : Site} (h : Stored cfg creds s)
    (htoken : s.token.isSome = true) : HasKey creds.token s :=
  ⟨⟨grantIn creds, h.granted, rfl⟩, htoken⟩

theorem agentCredentials_holds (U : URLs) (hkey : cfg.apiKey = "") (explicit : ServerIDFlag) :
    Holds J K cfg server t (fun _ => True) (agentCredentials J K U cfg t explicit) fun key s =>
      U.requireHTTPSHub cfg.hubURL = true ∧ HasKey key s := by
  unfold agentCredentials
  refine Prog.Triple.guard fun hinsecure => ?_
  have hsecure : U.requireHTTPSHub cfg.hubURL = true := by simpa using hinsecure
  rw [if_neg (not_not.2 hkey)]
  refine Prog.Triple.bind (Prog.Triple.attempt (load_holds lasts_true)) fun stored => ?_
  rcases stored with (_ | _) | creds
  · refine Prog.Triple.guard fun _ => Prog.Triple.bind (resolveServerID_holds explicit) fun id => ?_
    refine Prog.Triple.bind (Prog.Triple.mapError (enroll_holds U id)) fun creds => ?_
    exact Prog.Triple.ret ((Protocol.Stable.const _).and (lasts_hasKey _))
      fun s _ hs => ⟨hsecure, hs.1.hasKey hs.2⟩
  · exact Prog.Triple.refuse _
  · refine Prog.Triple.guard fun _ => Prog.Triple.pre (H := HasKey creds.token) ?_
      fun s _ hs => hs.2.1.hasKey hs.2.2
    refine Prog.Triple.bind (resolveServerID_keeps explicit fun u s s' h hk => hk.sees h) fun id => ?_
    refine Prog.Triple.guard fun _ => ?_
    exact Prog.Triple.ret ((Protocol.Stable.const _).and (lasts_hasKey _)) fun s _ hs => ⟨hsecure, hs.2⟩

/-- What the spool is bound to was handed out with a token. -/
def BoundTo (bound : Option (String × String)) (s : Site) : Prop :=
  ∀ x, bound = some x → ∃ g ∈ s.granted, x = (g.tenantID, g.serverID)

theorem BoundTo.sees {bound : Option (String × String)} {s s' : Site} (h : BoundTo bound s)
    (hs : Sees t s s') : BoundTo bound s' := by
  intro x hx
  obtain ⟨g, hg, hbound⟩ := h x hx
  exact ⟨g, hs.granted g hg, hbound⟩

theorem lasts_boundTo (bound : Option (String × String)) : Lasts J K cfg server t (BoundTo bound) :=
  fun _ _ _ _ hs h => h.sees hs

theorem bindAgentSpool_holds (hkey : cfg.apiKey = "") {R : Site → Prop}
    (hR : ∀ u s s', Sees u s s' → R s → R s') :
    Holds J K cfg server t R (bindAgentSpool J cfg) fun bound s => BoundTo bound s ∧ R s := by
  have hlasts : Lasts J K cfg server t R := fun s s' _ _ hs h => hR t s s' hs h
  unfold bindAgentSpool
  rw [if_pos hkey]
  refine Prog.Triple.bind (((Prog.Triple.attempt ((load_holds lasts_true).frame hR)).pre
    fun s _ h => ⟨trivial, h⟩)) fun stored => ?_
  rcases stored with e | creds
  · refine Prog.Triple.ret ((lasts_boundTo none).and hlasts) fun s _ hs => ⟨fun x hx => ?_, hs.2⟩
    cases hx
  · refine Prog.Triple.ret ((lasts_boundTo _).and hlasts) fun s _ hs => ⟨fun x hx => ?_, hs.2⟩
    cases hx
    exact ⟨grantIn creds, hs.1.2.1.granted, rfl⟩

/-- What is known of an agent that was started. -/
structure Ready (U : URLs) (cfg : Config) (st : Started) (s : Site) : Prop where
  secure : U.requireHTTPSHub cfg.hubURL = true
  key : HasKey st.key s
  bound : BoundTo st.bound s
  identity : Identity st.serverID s

theorem Ready.sees {U : URLs} {st : Started} {s s' : Site} (h : Ready U cfg st s) (hs : Sees t s s') :
    Ready U cfg st s' :=
  ⟨h.secure, h.key.sees hs, h.bound.sees hs, h.identity.sees hs⟩

theorem makeProgram_holds (U : URLs) (hkey : cfg.apiKey = "") (explicit : ServerIDFlag) :
    Holds J K cfg server t (fun _ => True) (makeProgram J K U cfg t explicit) (Ready U cfg) := by
  unfold makeProgram
  refine Prog.Triple.bind (agentCredentials_holds U hkey explicit) fun key =>
    Prog.Triple.assume fun hsecure => ?_
  refine Prog.Triple.bind (bindAgentSpool_holds hkey fun u s s' h hk => HasKey.sees hk h) fun bound => ?_
  refine Prog.Triple.bind (resolveServerID_keeps explicit (R := fun s => BoundTo bound s ∧ HasKey key s)
    fun u s s' h hk => ⟨hk.1.sees h, hk.2.sees h⟩) fun id => ?_
  exact Prog.Triple.ret (fun _ _ _ _ hs h => h.sees hs) fun s _ hs => ⟨hsecure, hs.2.2, hs.2.1, hs.1⟩

end Steps

/-! ## Any interleaving -/

section Runs

variable {J : CredentialCodec} {K : KeyTexts} {cfg : Config} {server : String}

theorem Inv.env {s : Site} (hi : Inv J K cfg server s) {c : CredentialCall}
    (ha : Admits K server s.hub.db.credentials c) :
    Inv J K cfg server { s with hub.db.credentials := s.hub.db.credentials.step c } :=
  ⟨hi.hub.step ha, hi.creating, hi.identity, fun g hg hserver => (hi.known g hg hserver).step hi.hub ha,
    hi.agree, hi.token⟩

theorem sound (U : URLs) (hkey : cfg.apiKey = "") :
    Pool.Sound (service J K U cfg server) (protocol J K cfg server) (fun _ _ => True)
      fun _ _ r s => ∀ st, r = .ok st → Ready U cfg st s where
  body explicit t s hi _ := by
    refine ((makeProgram_holds (t := t) U hkey explicit).safe s hi trivial).mono (fun st s _ h st' hst => ?_)
      fun e s _ _ st hst => ?_
    · cases hst
      exact h
    · cases hst
  env s c hi := by
    simp only [service]
    split_ifs with hadmitted
    · exact ⟨Inv.env hi (admits_of_admitted hadmitted), fun t => { Sees.refl t s with }⟩
    · exact ⟨hi, fun t => Sees.refl t s⟩
  restart s hi := hi
  freshSees _ _ _ _ h := h
  freshRestart _ _ h := h
  postSees _ _ _ _ _ hs h st hst := (h st hst).sees hs
  postRestart _ _ _ _ h := h

/-- A machine that is new to the Hub. -/
theorem inv_start {hub : Server} (hI : Indexed hub.db.credentials)
    (hkeys : ∀ k ∈ hub.db.credentials.apiKeys, k.serverID ≠ server)
    (hnone : ∀ h ∈ hub.db.credentials.handshakes, h.serverID ≠ server) :
    Inv J K cfg server { hub := hub } where
  hub := ⟨hI, fun k hk _ hs => absurd hs (hkeys k hk),
    fun h hm _ _ hkey => absurd (congrArg Prod.snd hkey) (hnone h hm),
    fun h hm hkey => absurd (congrArg Prod.snd hkey) (hnone h hm)⟩
  creating := by simp
  identity := by simp
  known := by simp
  agree := by simp
  token := by simp

/-- The Hub has one agent credential of the tenant and the server, and accepts its token. -/
theorem Orderly.only {codeHash : String} {db : CredentialDB} (ho : Orderly K codeHash server db)
    {tenant hash : String} (hserver : server ≠ "") (h : HasAgent tenant server hash db) :
    (∃ k, db.apiKeys.filter (AuthState.agentOf tenant server) = [k] ∧ k.keyHash = hash)
      ∧ ∀ now, ∃ rec, db.resolveAPIKey (fun _ => none) hash now = .ok rec ∧ rec.tenantID = tenant
        ∧ rec.serverID = server ∧ rec.kind = kindAgent ∧ rec.scope = scopeIngest := by
  obtain ⟨k, hk, hhash, hfor, hscope, hexp, hmax⟩ := h
  obtain ⟨ht, hs, hact⟩ := activeFor_iff.1 hfor
  have hkind : k.kind = kindAgent := by
    simp only [APIKey.active, Bool.and_eq_true, decide_eq_true_eq] at hact
    exact hact.1
  refine ⟨⟨k, ?_, hhash⟩, fun now => ⟨scanAPIKey k, ?_, ht, hs, hkind, hscope⟩⟩
  · have hsame : db.apiKeys.filter (AuthState.agentOf tenant server)
        = db.apiKeys.filter (APIKey.activeFor tenant server) := by
      refine List.filter_congr fun k' hk' => ?_
      by_cases hk'' : k'.kind = kindAgent ∧ k'.serverID = server
      · simp [AuthState.agentOf, APIKey.activeFor, APIKey.active, hk'',
          ho.live k' hk' hk''.1 hk''.2]
      · rw [not_and_or] at hk''
        rcases hk'' with hk'' | hk'' <;> simp [AuthState.agentOf, APIKey.activeFor, APIKey.active, hk'']
    have hlen : (db.apiKeys.filter (APIKey.activeFor tenant server)).length ≤ 1 :=
      ho.indexed.length_activeFor hserver
    have hmem : k ∈ db.apiKeys.filter (APIKey.activeFor tenant server) := List.mem_filter.2 ⟨hk, hfor⟩
    rw [hsame]
    rcases hl : db.apiKeys.filter (APIKey.activeFor tenant server) with _ | ⟨k', _ | ⟨k'', l⟩⟩
    · rw [hl] at hmem
      cases hmem
    · rw [hl] at hmem
      rw [List.mem_singleton.1 hmem]
    · rw [hl] at hlen
      simp at hlen
  · rw [← hhash]
    exact resolveAPIKey_of_resolvable ho.indexed.hashes hk (activeFor_resolvable hfor hexp hmax)

theorem resolveServerID_alone {id : String} {s : Site} {c : Chance} (hid : Identity id s)
    (hfault : c.fault = false) (t : ℕ) {explicit : ServerIDFlag}
    (hexplicit : explicit.val = "" ∨ explicit.val = id) :
    (resolveServerID t explicit).alone c s = some (.ok id, s) := by
  obtain ⟨text, htext, rfl, hvalid⟩ := hid
  have hsame : ¬ (explicit.val ≠ "" ∧ explicit.val ≠ String.ofList (trimSpace text)) := by
    rw [not_and_or, not_not, not_not]
    exact hexplicit
  simp [resolveServerID, sysCall, lstatAgentID, readAgentID, hfault, htext, hvalid, hsame]

theorem load_alone {creds : StoredCredentials} {data : List UInt8} {s : Site} {c : Chance}
    (hmarshal : J.marshal creds = some data) (htoken : s.token = some data) (hfault : c.fault = false) :
    (load J).alone c s = some (.ok creds, s) := by
  simp [load, hfault, htoken, J.roundTrip creds data hmarshal]

/-- A start that meets no fault, with the identity and the credential there. -/
theorem makeProgram_alone {U : URLs} {creds : StoredCredentials} {data : List UInt8} {s : Site}
    {c : Chance} (hkey : cfg.apiKey = "") (hsecure : U.requireHTTPSHub cfg.hubURL = true)
    (hid : Identity creds.serverID s) (hmarshal : J.marshal creds = some data)
    (htoken : s.token = some data) (hurl : creds.hubURL = cfg.hubURL) (hfault : c.fault = false) (t : ℕ)
    {explicit : ServerIDFlag}
    (hexplicit : explicit.val = "" ∨ explicit.val = creds.serverID) :
    (makeProgram J K U cfg t explicit).alone c s
      = some (.ok ⟨creds.token, some (creds.tenantID, creds.serverID), creds.serverID⟩, s) := by
  have hresolve := resolveServerID_alone hid hfault t hexplicit
  have hload : (load J).alone c s = some (.ok creds, s) := load_alone hmarshal htoken hfault
  simp [makeProgram, agentCredentials, bindAgentSpool, hkey, hsecure, hload, hresolve, hurl,
    U.sameHubOrigin_refl]

end Runs

/-! ## A run -/

def plainKeys : KeyTexts := ⟨id, id, id⟩

def oneHub : URLs := ⟨fun _ => some ⟨"https", "hub"⟩, id⟩

def oneCode : Config := ⟨"https://hub", "", "WM-0000-0000-0000"⟩

def oneCredential : StoredCredentials :=
  ⟨generateToken kindAgent [7], "t_a", "srv-1", "https://hub", 5⟩

/-- The credentials of the run, with a short text. -/
def shortCodec : CredentialCodec where
  marshal creds := if creds = oneCredential then some [1] else none
  unmarshal data := if data = [1] then some oneCredential else none
  roundTrip creds data h := by
    split_ifs at h with hcreds
    cases h
    rw [hcreds, if_pos rfl]

/-- Nothing fails but what the network loses. -/
def without (delivery : Delivery) : Chance where
  fault := false
  written := 100
  rand _ := 0
  delivery := delivery
  occasion := ⟨fun _ => 2000 * second, fun _ => by decide, fun _ => .ok [7], fun _ _ => none, .none,
    fun st => st.m.entries⟩
  insecure := false
  https := true
  limited := false
  now := 5

/-- A Hub with one code. -/
def codeHub : Server where
  hubMode := true
  db := { Database.empty with
    credentials := credentials [⟨.upsertAPIKey
      { sampleCode with keyHash := plainKeys.hashEnrollCode "WM-0000-0000-0000" }, 900, fun _ => none⟩] }
  sessions := newSessionStore

/-- The first start ends when its request was answered and the answer lost; the second is answered from
the handshake, and the third finds the file. -/
def threeStarts : List (Turn Chance ServerIDFlag CredentialCall) :=
  let flag : ServerIDFlag := ⟨"srv-1", .inr (by decide)⟩
  .start flag :: List.replicate 8 (.thread 0 (without .replyLost))
    ++ .start flag :: List.replicate 40 (.thread 1 (without .delivered))
    ++ .start ⟨"", .inl rfl⟩ :: List.replicate 40 (.thread 2 (without .lost))

def threeStarted : Pool Site Chance StartError Started ServerIDFlag :=
  Pool.after (service shortCodec plainKeys oneHub oneCode "srv-1") { hub := codeHub } threeStarts

theorem threeStarted_results :
    threeStarted.results.map (fun r => (r.1, r.2.2))
        = [(1, .ok ⟨oneCredential.token, some ("t_a", "srv-1"), "srv-1"⟩),
          (2, .ok ⟨oneCredential.token, some ("t_a", "srv-1"), "srv-1"⟩)]
      ∧ threeStarted.shared.granted
        = [⟨oneCredential.token, "t_a", "srv-1"⟩, ⟨oneCredential.token, "t_a", "srv-1"⟩] := by
  decide +kernel

theorem codeHub_indexed : Indexed codeHub.db.credentials :=
  credentials_indexed ⟨fun _ _ _ hk => (List.not_mem_nil hk).elim, trivial⟩

end Site

end WMonitor
