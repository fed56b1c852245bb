import WMonitor.Delivery
import WMonitor.Proofs.Prog
import WMonitor.Retention

/-!
# When the ingest gate is closed

The status says that the disk is full just when the finding stored last does: a `CheckCapacity` that
failed to measure or found the budget used up, or a `Run` for which the data file alone exceeds it. The
provider reads the status in a step of its own. So its answer need not be what its own `CheckCapacity`
has found: another call may have stored since, and for a path that is no regular file nothing is stored.
-/

namespace WMonitor

/-- The finding closes the gate. -/
def Finding.Alarming : Finding → Prop
  | .check err => err ≠ none
  | .run used budget => 0 < budget ∧ budget < used

namespace RetentionJob

/-- The finding is there and closes the gate. -/
def Alarmed (last : Option (ℕ × Finding)) : Prop := ∃ u f, last = some (u, f) ∧ f.Alarming

def Inv (j : RetentionJob) : Prop := j.lastStatus.diskPressure = true ↔ Alarmed j.stored.getLast?

/-- Nobody else stores in the name of a call. -/
def protocol : Protocol RetentionJob where
  inv := Inv
  sees t j j' := ∀ f, (t, f) ∈ j'.stored ↔ (t, f) ∈ j.stored
  refl _ _ _ := Iff.rfl
  trans h h' f := (h' f).trans (h f)

/-! ## Steps -/

section

variable {t : ℕ}

/-- The call has stored nothing yet. -/
def Silent (t : ℕ) (j : RetentionJob) : Prop := ∀ f, (t, f) ∉ j.stored

/-- What the call has stored, if anything, is alarming. -/
def Alarm (t : ℕ) (j : RetentionJob) : Prop := ∀ f, (t, f) ∈ j.stored → f.Alarming

theorem stable_const (c : Prop) : protocol.Stable t fun _ => c := fun _ _ _ _ _ h => h

theorem stable_silent : protocol.Stable t (Silent t) :=
  fun _ _ _ _ hs h f hf => h f ((hs f).1 hf)

theorem stable_alarm : protocol.Stable t (Alarm t) :=
  fun _ _ _ _ hs h f hf => h f ((hs f).1 hf)

theorem Silent.alarm {j : RetentionJob} (h : Silent t j) : Alarm t j :=
  fun f hf => absurd hf (h f)

variable {P : RetentionJob → Prop} {α : Type}

theorem read_holds (f : RetentionJob → α) (hP : protocol.Stable t P)
    {E : CapacityError → RetentionJob → Prop} (hE : ∀ e, protocol.Stable t (E e)) :
    Prog.Triple protocol t P (.read f : RetentionM α) (fun _ => P) E :=
  Prog.Triple.read hP (fun _ => hP) hE fun _ _ h => h

theorem setStatus_holds {status : RetentionStatus} {finding : Finding}
    (h : status.diskPressure = true ↔ finding.Alarming) {E : CapacityError → RetentionJob → Prop}
    (hE : ∀ e, protocol.Stable t (E e)) :
    Prog.Triple protocol t (Silent t) (setStatus t status finding)
      (fun _ j => finding.Alarming → Alarm t j) E := by
  refine Prog.Triple.modify stable_silent
    (fun _ _ hi hi' hs h ha => stable_alarm hi hi' hs (h ha)) hE fun j _ hj => ⟨⟨?_, ?_⟩, ?_⟩
  · change status.diskPressure = true ↔ Alarmed (j.stored ++ [(t, finding)]).getLast?
    rw [h, List.getLast?_concat]
    simp [Alarmed]
  · intro u hu f
    simp [hu]
  · intro ha f hf
    rcases List.mem_append.1 hf with hf | hf
    · exact absurd hf (hj f)
    · simp only [List.mem_singleton, Prod.mk.injEq, true_and] at hf
      rw [hf]
      exact ha

/-- Stores an alarming finding and fails. -/
theorem alarm_holds {status : RetentionStatus} {finding : Finding} {e : CapacityError}
    (h : status.diskPressure = true) (hf : finding.Alarming) {Q : α → RetentionJob → Prop} :
    Prog.Triple protocol t (Silent t) (do setStatus t status finding; .fail e) Q
      fun _ => Alarm t :=
  Prog.Triple.bind (setStatus_holds (by simp [h, hf]) fun _ => stable_alarm) fun _ =>
    Prog.Triple.fail stable_alarm fun _ _ h => h hf

/-- The loop stores nothing unless it fails, and changes only the bytes that are used. -/
theorem measure_holds (path : String) : ∀ (files : List (Bool × String)) {status : RetentionStatus},
    status.diskPressure = false → Prog.Triple protocol t (Silent t) (measure t path status files)
      (fun status j => status.diskPressure = false ∧ Silent t j) fun _ => Alarm t
  | [], status, h => Prog.Triple.ret ((stable_const _).and stable_silent) fun _ _ hj => ⟨h, hj⟩
  | (optional, suffix) :: files, status, h => by
    refine Prog.Triple.bind (read_holds _ stable_silent fun _ => stable_alarm) fun info => ?_
    rcases info with notExist | ⟨kind, size⟩
    · dsimp only
      split_ifs
      · exact measure_holds path files h
      · exact alarm_holds rfl (by simp [Finding.Alarming])
    · dsimp only
      split_ifs
      · exact Prog.Triple.fail stable_alarm fun _ _ hj => hj.alarm
      · exact measure_holds path files h

theorem checkCapacity_holds :
    Prog.Triple protocol t (Silent t) (checkCapacity t) (fun _ _ => True) fun _ => Alarm t := by
  have hquiet : ∀ {status : RetentionStatus}, status.diskPressure = false →
      Prog.Triple protocol t (Silent t) (setStatus t status (.check none)) (fun _ _ => True)
        fun _ => Alarm t := fun h =>
    (setStatus_holds (by simp [h, Finding.Alarming]) fun _ => stable_alarm).conseq
      (fun _ _ h => h) (fun _ _ _ _ => trivial) fun _ _ _ h => h
  refine Prog.Triple.bind (read_holds _ stable_silent fun _ => stable_alarm) fun ⟨path, budget⟩ => ?_
  dsimp only
  split_ifs
  · exact hquiet rfl
  · refine Prog.Triple.bind (measure_holds path _ rfl) fun status => Prog.Triple.assume fun hno => ?_
    split_ifs
    · exact alarm_holds rfl (by simp [Finding.Alarming])
    · exact hquiet hno

theorem diskUsed_holds :
    Prog.Triple protocol t (Silent t) diskUsed (fun _ => Silent t) fun _ _ => True := by
  refine Prog.Triple.bind (read_holds _ stable_silent fun _ => stable_const _) fun path => ?_
  split_ifs
  · exact Prog.Triple.ret stable_silent fun _ _ h => h
  · refine Prog.Triple.bind (read_holds _ stable_silent fun _ => stable_const _) fun info => ?_
    rcases info with notExist | ⟨kind, size⟩ <;> exact Prog.Triple.ret stable_silent fun _ _ h => h

theorem run_holds :
    Prog.Triple protocol t (Silent t) (run t) (fun _ _ => True) fun _ _ => True := by
  refine Prog.Triple.bind diskUsed_holds fun used => ?_
  refine Prog.Triple.bind (read_holds _ stable_silent fun _ => stable_const _) fun budget => ?_
  dsimp only
  split_ifs with hfull
  · have halarm : (Finding.run used budget).Alarming := hfull
    exact (alarm_holds rfl halarm).conseq (fun _ _ h => h) (fun _ _ _ h => h) fun _ _ _ _ => trivial
  · refine (setStatus_holds ?_ fun _ => stable_const _).conseq (fun _ _ h => h)
      (fun _ _ _ _ => trivial) fun _ _ _ h => h
    simp only [Finding.Alarming, Bool.false_eq_true, false_iff]
    exact hfull

/-- The provider's answer goes by the finding it has read, and when its own `CheckCapacity` has failed
its own finding is alarming. -/
structure Answers (t : ℕ) (p : Provided) : Prop where
  pressure : p.status.diskPressure = true ↔ Alarmed p.finding
  own : p.err ≠ none → ∀ f, p.finding = some (t, f) → f.Alarming

theorem provider_holds : Prog.Triple protocol t (Silent t) (provider t)
    (fun p _ => Answers t p) fun _ _ => True := by
  let own (r : Except CapacityError Unit) (j : RetentionJob) : Prop := r ≠ .ok () → Alarm t j
  have hown : ∀ r, protocol.Stable t (own r) :=
    fun r _ _ hi hi' hs h hr => stable_alarm hi hi' hs (h hr)
  refine Prog.Triple.bind (Q := own) ((checkCapacity_holds.attempt (F := fun _ _ => True)).conseq
    (fun _ _ h => h) (fun r j _ h hr => ?_) fun _ _ _ h => h) fun r => ?_
  · rcases r with e | u
    · exact h
    · exact absurd rfl hr
  · refine Prog.Triple.bind (Q := fun (x : RetentionStatus × Option (ℕ × Finding)) _ =>
        (x.1.diskPressure = true ↔ Alarmed x.2) ∧ (r ≠ .ok () → ∀ f, x.2 = some (t, f) → f.Alarming))
      (Prog.Triple.read (hown r) (fun _ => stable_const _) (fun _ => stable_const _)
        fun j hj h => ⟨hj, fun hr f hf => h hr f (List.mem_of_getLast? hf)⟩) fun x => ?_
    refine Prog.Triple.ret (stable_const _) fun _ _ h => ⟨h.1, fun herr => h.2 ?_⟩
    rintro rfl
    exact herr rfl

/-! ## Runs -/

/-- What a call promises. -/
def promise : RetentionCall → ℕ → Except CapacityError (Option Provided) → RetentionJob → Prop
  | .provider, t, .ok (some p), _ => Answers t p
  | _, _, _, _ => True

theorem sound : Pool.Sound service protocol Silent promise where
  body call t j hj hsilent := by
    cases call with
    | run =>
      exact (Prog.Triple.bind (R := fun r => promise .run t (.ok r)) run_holds fun _ =>
        Prog.Triple.ret (stable_const _) fun _ _ _ => trivial).safe j hj hsilent
    | checkCapacity =>
      exact (Prog.Triple.bind (R := fun r => promise .checkCapacity t (.ok r))
        (checkCapacity_holds.conseq (fun _ _ h => h) (fun _ _ _ h => h) fun _ _ _ _ => trivial)
        fun _ => Prog.Triple.ret (stable_const _) fun _ _ _ => trivial).safe j hj hsilent
    | provider =>
      exact (Prog.Triple.bind (R := fun r => promise .provider t (.ok r)) provider_holds fun p =>
        Prog.Triple.ret (a := some p) (stable_const (Answers t p)) fun _ _ h => h).safe j hj hsilent
  env j files hj := ⟨hj, fun _ _ => Iff.rfl⟩
  restart j hj := hj
  freshSees _ _ _ hs h f hf := h f ((hs f).1 hf)
  freshRestart _ _ h := h
  postSees call _ r _ _ _ h := by
    rcases r with e | (_ | p) <;> cases call <;> exact h
  postRestart _ _ _ _ h := h

end

/-- The job after a list of turns, from its start. -/
def jobAfter (path : String) (budget : ℤ) (files : String → FileStat)
    (turns : List (Turn Unit RetentionCall (String → FileStat))) :
    Pool RetentionJob Unit CapacityError (Option Provided) RetentionCall :=
  Pool.after service (new path budget files) turns

/-- The `CheckCapacity` of call `t` of the provider failed, and this is what the provider answered. -/
def Failed (p : Pool RetentionJob Unit CapacityError (Option Provided) RetentionCall) (t : ℕ)
    (answer : Provided) : Prop :=
  (t, .provider, .ok (some answer)) ∈ p.results ∧ answer.err ≠ none

/-- The Hub refuses every batch that gets as far as the question of disk space. -/
def Refuses (status : RetentionStatus) : Prop :=
  ∀ (W : Wire) (r : Reception) (principal : Principal) (req : IngestRequest) (db : HubDB),
    req.post = true → r.auth = .ok principal → principal.kind = kindAgent → principal.agentID ≠ "" →
    r.admitted = true → r.available = true → r.pressure = some status.diskPressure →
    receiveBatch W r req db
      = (db, { status := 503, error := "storage disk budget exhausted", retryAfter := some 60 })

theorem refuses_of_pressure {status : RetentionStatus} (h : status.diskPressure = true) :
    Refuses status := by
  intro W r principal req db hpost hauth hkind hagent hadmitted havailable hpressure
  simp [receiveBatch, hpost, hauth, hkind, hagent, hadmitted, havailable, hpressure, h]

/-- A data file of 5 bytes with a log of 10. -/
def sampleFiles (path : String) : FileStat :=
  if path = "hub.db" then .info .regular 5
  else if path = "hub.db-wal" then .info .regular 10
  else .error true

/-- The data path is a directory. -/
def sampleDirectory (path : String) : FileStat :=
  if path = "hub.db" then .info .dir 4096 else .error true

def steps (t n : ℕ) : List (Turn Unit RetentionCall (String → FileStat)) :=
  List.replicate n (.thread t ())

/-- Call 0 of the provider checks the capacity, then call 1 runs, then call 0 reads the status. -/
def overtaken : List (Turn Unit RetentionCall (String → FileStat)) :=
  [.start .provider, .start .run] ++ steps 0 5 ++ steps 1 5 ++ steps 0 2

end RetentionJob

end WMonitor
