import WMonitor.Proofs.SpoolSize

/-!
# A full queue

An `append` that is refused because the queue is full takes no step that touches a segment or a
checkpoint. Exactly one of its steps changes what is counted as lost, and that step counts one more
overflow; the mutex keeps others from counting between its reading the counts and its replacing them.
-/

namespace WMonitor

namespace Spool

open Prog

variable {η θ α : Type} {t : ℕ}

/-! ## Refusals -/

/-- Every segment and checkpoint stays as it is, in the queue and in quarantine. -/
structure Untouched (s s' : Spool η) : Prop where
  segs : s'.queue.segs = s.queue.segs
  held : s'.queue.held = s.queue.held
  acks : s'.progress.acks = s.progress.acks
  heldAcks : s'.custody.heldAcks = s.custody.heldAcks

theorem Untouched.refl (s : Spool η) : Untouched s s := ⟨rfl, rfl, rfl, rfl⟩

/-- The persisted counts after one more loss; a count that is at its maximum stays there. -/
def counted (reason : LossReason) (counts : LossReason → ℕ) : LossReason → ℕ :=
  if counts reason = 2 ^ 64 - 1 then counts
  else Function.update counts reason (counts reason + 1)

/-- One of the steps counts an overflow, and no other step changes what is counted. -/
def CountsOverflow (steps : List (Step (Spool η) (Choice θ))) : Prop :=
  ∃ before x after, steps = before ++ x :: after ∧
    (∀ y ∈ before ++ after, y.after.queue.loss = y.before.queue.loss) ∧
    x.after.queue.loss = some (counted .overflow (x.before.queue.loss.getD fun _ => 0))

/-- What a call does that is refused for want of space. -/
structure Refused (e : SpoolError) (steps : List (Step (Spool η) (Choice θ))) : Prop where
  untouched : ∀ x ∈ steps, Untouched x.before x.after
  counts : e = .full → CountsOverflow steps
  fault : e = .fullUnrecorded → ∃ x ∈ steps, x.choice.fault ≠ .none

/-- Neither the files nor the counts change. -/
def Undisturbed (s s' : Spool η) : Prop := Untouched s s' ∧ s'.queue.loss = s.queue.loss

theorem undisturbed_refl (s : Spool η) : Undisturbed s s := ⟨.refl s, rfl⟩

theorem Refused.around {e : SpoolError} {steps : List (Step (Spool η) (Choice θ))}
    (h : Refused e steps) (steps₁ steps₂ : List (Step (Spool η) (Choice θ)))
    (h₁ : ∀ x ∈ steps₁, Undisturbed x.before x.after)
    (h₂ : ∀ x ∈ steps₂, Undisturbed x.before x.after) : Refused e (steps₁ ++ (steps ++ steps₂)) where
  untouched x hx := by
    rcases List.mem_append.1 hx with hx | hx
    · exact (h₁ x hx).1
    · rcases List.mem_append.1 hx with hx | hx
      · exact h.untouched x hx
      · exact (h₂ x hx).1
  counts he := by
    obtain ⟨before, x, after, rfl, hidle, hx⟩ := h.counts he
    refine ⟨steps₁ ++ before, x, after ++ steps₂, by simp, fun y hy => ?_, hx⟩
    simp only [List.mem_append] at hy hidle
    rcases hy with (hy | hy) | (hy | hy)
    · exact (h₁ y hy).2
    · exact hidle y (.inl hy)
    · exact hidle y (.inr hy)
    · exact (h₂ y hy).2
  fault he := by
    obtain ⟨x, hx, hf⟩ := h.fault he
    exact ⟨x, by simp [hx], hf⟩

theorem Refused.after {e : SpoolError} {steps steps₁ : List (Step (Spool η) (Choice θ))}
    (h : Refused e steps) (h₁ : ∀ x ∈ steps₁, Undisturbed x.before x.after) :
    Refused e (steps₁ ++ steps) := by
  have := h.around steps₁ [] h₁ (by simp)
  rwa [List.append_nil] at this

/-! ## The steps of a refused call -/

section Runs

variable {s s' : Spool η} {steps : List (Step (Spool η) (Choice θ))}

/-- The error of a call that the queue has no space for. -/
def OutOfSpace (e : SpoolError) : Prop := e = .full ∨ e = .fullUnrecorded

/-- What runs under `mu` runs between the two steps on it. -/
theorem ran_locked {p : SpoolM η θ α} {r : Except SpoolError α}
    (h : Ran sizes t (locked t p) s steps r s') :
    ∃ s₁ s₂ first inner last, steps = first :: (inner ++ [last]) ∧ s₁.mu = some t ∧
      Undisturbed first.before first.after ∧ Undisturbed last.before last.after ∧
      Ran sizes t p s₁ inner r s₂ := by
  rcases h.bind_inv with ⟨e, rfl, hlock⟩ | ⟨_, steps₁, steps₂, s₁, rfl, hlock, hbody⟩
  · obtain ⟨s₁, c, -, hf, -⟩ := hlock.act_inv
    split_ifs at hf
    cases hf
  obtain ⟨s₀, c, -, hf, rfl⟩ := hlock.act_inv
  split_ifs at hf
  cases hf
  rcases hbody.bind_inv with ⟨e, rfl, hp⟩ | ⟨r', inner, rest, s₂, rfl, hp, hexit⟩
  · obtain ⟨r', hr', -⟩ := hp.attempt_inv
    cases hr'
  obtain ⟨r'', hr'', hp⟩ := hp.attempt_inv
  cases hr''
  rcases hexit.bind_inv with ⟨e, rfl, hu⟩ | ⟨_, steps₃, steps₄, s₃, rfl, hu, hret⟩
  · obtain ⟨s₃, c', -, hf, -⟩ := hu.act_inv
    cases hf
  obtain ⟨s₄, c', -, hf, rfl⟩ := hu.act_inv
  cases hf
  refine ⟨{ s₀ with mu := some t }, s₂, ⟨s₀, c, { s₀ with mu := some t }⟩, inner,
    ⟨s₄, c', { s₄ with mu := none }⟩, ?_, rfl, ⟨⟨rfl, rfl, rfl, rfl⟩, rfl⟩,
    ⟨⟨rfl, rfl, rfl, rfl⟩, rfl⟩, ?_⟩
  · cases r' with
    | ok a => simp [hret.1]
    | error e => simp [hret.1]
  · cases r' with
    | ok a => exact hret.2.1 ▸ hp
    | error e => exact hret.2.1 ▸ hp

/-- While `mu` is held, the counts that are replaced are those that were read. -/
theorem ran_recordLossLocked {reason : LossReason} {r : Except SpoolError Unit} (hmu : s.mu = some t)
    (h : Ran sizes t (recordLossLocked reason) s steps r s') :
    (∀ x ∈ steps, Untouched x.before x.after) ∧
      (r = .ok () → ∃ first last, steps = [first, last] ∧ Undisturbed first.before first.after ∧
        last.after.queue.loss = some (counted reason (last.before.queue.loss.getD fun _ => 0))) ∧
      ∀ e, r = .error e → ∃ x ∈ steps, x.choice.fault ≠ .none := by
  rcases h.bind_inv with ⟨e, rfl, hread⟩ | ⟨counts, steps₁, steps₂, s₁, rfl, hread, hwrite⟩
  · obtain ⟨s₁, c, -, hf, rfl⟩ := hread.act_inv
    simp only [Option.some.injEq] at hf
    split_ifs at hf with hfault <;> cases hf
    refine ⟨?_, by simp, fun e _ => ⟨_, List.mem_singleton_self _, hfault⟩⟩
    simpa using Untouched.refl _
  obtain ⟨s₀, c, hsees, hf, rfl⟩ := hread.act_inv
  simp only [Option.some.injEq] at hf
  split_ifs at hf with hfault <;> cases hf
  obtain ⟨s₂, c', hsees', hf, rfl⟩ := hwrite.act_inv
  have hloss : s₂.queue.loss = s₁.queue.loss := by rw [(hsees' (hsees hmu).1).2]
  have hset : ∀ loss, Untouched s₂ (s₂.onQueue fun q => { q with loss := loss }) := fun _ =>
    ⟨rfl, rfl, rfl, rfl⟩
  have hlast : ∀ x : Step (Spool η) (Choice θ), x ∈ [⟨s₁, c, s₁⟩, x] := fun x =>
    List.mem_cons_of_mem _ (List.mem_singleton_self x)
  simp only [Option.some.injEq] at hf
  split at hf <;> cases hf
  · refine ⟨by simp [Untouched.refl, hset], fun _ => ⟨_, _, rfl, undisturbed_refl _, ?_⟩, by simp⟩
    simp only [onQueue, hloss]
    rfl
  · next hf => exact ⟨by simp [Untouched.refl], by simp, fun e _ => ⟨_, hlast _, by simp [hf]⟩⟩
  · next hf => exact ⟨by simp [Untouched.refl, hset], by simp, fun e _ => ⟨_, hlast _, by simp [hf]⟩⟩

theorem ran_evictIfFullLocked {incoming : ℕ} {e : SpoolError} (he : OutOfSpace e) (hmu : s.mu = some t)
    (h : Ran sizes t (evictIfFullLocked incoming) s steps (.error e) s') : Refused e steps := by
  rcases h.bind_inv with ⟨e', hr, hwalk⟩ | ⟨total, steps₁, steps₂, s₁, rfl, hwalk, hrest⟩
  · cases hr
    obtain ⟨s₁, c, -, hf, -⟩ := hwalk.act_inv
    simp only [Option.some.injEq, Prod.mk.injEq] at hf
    split_ifs at hf
    · cases hf.1
    · cases hf.1
      rcases he with he | he <;> cases he
  obtain ⟨s₀, c, hsees, hf, rfl⟩ := hwalk.act_inv
  simp only [Option.some.injEq, Prod.mk.injEq] at hf
  obtain ⟨-, rfl⟩ := hf
  refine Refused.after ?_ (by simpa using undisturbed_refl s₀)
  split_ifs at hrest
  · rcases hrest.bind_inv with ⟨e', hr, hloss⟩ | ⟨r, steps₃, steps₄, s₂, rfl, hloss, hfail⟩
    · obtain ⟨r', hr', -⟩ := hloss.attempt_inv
      cases hr'
    obtain ⟨r', hr', hloss⟩ := hloss.attempt_inv
    cases hr'
    obtain ⟨hsame, hok, herr⟩ := ran_recordLossLocked (hsees hmu).1 hloss
    cases r with
    | ok a =>
      obtain ⟨rfl, hr, -⟩ := hfail
      cases hr
      obtain ⟨first, last, rfl, hfirst, hlast⟩ := hok rfl
      refine ⟨by simpa using hsame, fun _ => ⟨[first], last, [], rfl, ?_, hlast⟩, by simp⟩
      simpa using hfirst.2
    | error e' =>
      obtain ⟨rfl, hr, -⟩ := hfail
      cases hr
      exact ⟨by simpa using hsame, by simp, fun _ => by simpa using herr e' rfl⟩
  · cases hrest.2.1

/-- Nothing but the check of the directory's size refuses for want of space. -/
theorem each_ensureSegmentLocked (incoming : ℕ) : Each (fun _ _ => True) (fun e => ¬ OutOfSpace e)
    (ensureSegmentLocked incoming : SpoolM η θ Unit) := by
  have hio : ¬ OutOfSpace .io := by simp [OutOfSpace]
  refine Each.bind (Each.read _ fun _ => trivial) fun q => ?_
  split_ifs
  · exact Each.pure ()
  · refine Each.bind (each_sealLocked (fun _ => trivial) hio fun _ => trivial) fun _ =>
      Each.bind (each_clock fun _ => trivial) fun now => Each.bind ?_ fun n =>
      Each.bind (each_touch (fun _ => trivial) hio) fun _ =>
      Each.bind (each_touch (fun _ => trivial) hio) fun _ => Each.modify fun _ => trivial
    refine Each.act (fun _ _ _ _ _ => trivial) fun s c e s' h => ⟨trivial, ?_⟩
    simp only at h
    split_ifs at h <;> cases h
    exact hio

theorem each_write (entry : SpoolEntry) (line : List UInt8) :
    Each (fun _ _ => True) (fun e => ¬ OutOfSpace e) (write t entry line : SpoolM η θ Unit) := by
  refine Each.act (fun _ _ _ _ _ => trivial) fun s c e s' h => ⟨trivial, ?_⟩
  simp only at h
  split at h
  · cases h
    simp [OutOfSpace]
  · split at h <;> cases h
    simp [OutOfSpace]

/-- What `append` does once there is space. -/
theorem each_appendRest (entry : SpoolEntry) :
    Each (fun _ _ => True) (fun e => ¬ OutOfSpace e) (do
      ensureSegmentLocked (entry.marshal ++ [10]).length
      let before ← .read (·.queue.curSize)
      let r ← (write t entry (entry.marshal ++ [10])).attempt
      match r with
      | .ok () => touch
      | .error e => do
        truncate before
        .fail e : SpoolM η θ Unit) := by
  refine (each_ensureSegmentLocked _).bind fun _ => (Each.read _ fun _ => trivial).bind fun before =>
    (each_write entry _).attempt_bind (fun _ => each_touch (fun _ => trivial) (by simp [OutOfSpace]))
      fun e he => (Each.act (fun _ _ _ _ _ => trivial) fun s c e' s' h => ⟨trivial, ?_⟩).bind
        fun _ => he
  simp only [Option.some.injEq] at h
  split_ifs at h <;> cases h
  simp [OutOfSpace]

theorem newEntry_error {payloadType : String} {body : List Char} {now : Fin (2 ^ 63)} {e : SpoolError}
    (h : newEntry payloadType body now = .error e) : e = .marshal := by
  unfold newEntry at h
  split at h
  · split_ifs at h
    cases h
    rfl
  · cases h
    rfl

/-- What was run before a refusal only read. -/
theorem ran_refused {β : Type} {p : SpoolM η θ α} {q : α → SpoolM η θ β} {e : SpoolError}
    (he : OutOfSpace e) (hp : Each (fun s s' => s' = s) (fun e => ¬ OutOfSpace e) p)
    (h : Ran sizes t (p >>= q) s steps (.error e) s') :
    ∃ a steps₁ steps₂ s₁, steps = steps₁ ++ steps₂ ∧ (∀ x ∈ steps₁, Undisturbed x.before x.after) ∧
      (s.mu = some t → s₁.mu = some t) ∧ Ran sizes t (q a) s₁ steps₂ (.error e) s' := by
  rcases h.bind_inv with ⟨e', hr, hfail⟩ | ⟨a, steps₁, steps₂, s₁, rfl, hrun, hrest⟩
  · cases hr
    exact absurd he ((hfail.each hp).2 e rfl)
  · refine ⟨a, steps₁, steps₂, s₁, rfl, fun x hx => ?_, ?_, hrest⟩
    · rw [(hrun.each hp).1 x hx]
      exact undisturbed_refl _
    · exact hrun.keeps hp (fun _ _ hsees hmu => (hsees hmu).1) fun _ _ hsame hmu => hsame ▸ hmu

theorem ran_append {payloadType : String} {body : List Char} {e : SpoolError} (he : OutOfSpace e)
    (h : Ran sizes t (append t payloadType body) s steps (.error e) s') : Refused e steps := by
  -- Which limit a record has does not matter.
  unfold append at h
  generalize maxRecordBytes = limit at h
  obtain ⟨now, steps₁, _, s₁, rfl, hidle, -, h⟩ := ran_refused he (each_clock fun _ => rfl) h
  refine Refused.after ?_ hidle
  have hentry : Each (fun s s' => s' = s) (fun e => ¬ OutOfSpace e)
      (.ofExcept (newEntry payloadType body now) : SpoolM η θ SpoolEntry) := by
    cases hentry : newEntry payloadType body now with
    | ok entry => exact Each.pure entry
    | error e' =>
      rw [newEntry_error hentry]
      simp [Prog.ofExcept, Each, OutOfSpace]
  obtain ⟨entry, steps₂, _, s₂, rfl, hidle, -, h⟩ := ran_refused he hentry h
  refine Refused.after ?_ hidle
  obtain ⟨_, steps₃, _, s₃, rfl, hidle, -, h⟩ :=
    ran_refused he (Each.failIf fun _ => by simp [OutOfSpace]) h
  refine Refused.after ?_ hidle
  obtain ⟨s₄, s₅, first, inner, last, rfl, hmu, hfirst, hlast, h⟩ := ran_locked h
  refine Refused.around ?_ [first] [last] (by simpa using hfirst) (by simpa using hlast)
  obtain ⟨closed, steps₄, _, s₆, rfl, hidle, hkeep, h⟩ :=
    ran_refused he (Each.read _ fun _ => rfl) h
  refine Refused.after ?_ hidle
  obtain ⟨_, steps₅, _, s₇, rfl, hidle, hkeep', h⟩ :=
    ran_refused he (Each.failIf fun _ => by simp [OutOfSpace]) h
  refine Refused.after ?_ hidle
  rcases h.bind_inv with ⟨e', hr, hevict⟩ | ⟨_, steps₆, steps₇, s₈, rfl, -, hrest⟩
  · cases hr
    exact ran_evictIfFullLocked he (hkeep' (hkeep hmu)) hevict
  · exact absurd he ((hrest.each (each_appendRest entry)).2 e rfl)

end Runs

/-! ## Every run -/

theorem WithinLimits.splitLines {content : List UInt8} (h : WithinLimits content) :
    ∃ lines, splitLines content = (lines, []) ∧ ∀ line ∈ lines, line.length + 1 ≤ maxRecordBytes := by
  obtain ⟨lines, rfl, hlines⟩ := h.records
  exact ⟨lines, splitLines_lines fun line hl => (hlines line hl).1, fun line hl => (hlines line hl).2⟩

/-- No limit of the reader keeps such a segment from being decoded. -/
theorem WithinLimits.decodeSegment {content : List UInt8} (h : WithinLimits content) :
    decodeSegment content = ((WMonitor.splitLines content).1.filter fun line => !isBlank line).mapM
      SpoolEntry.unmarshal := by
  obtain ⟨lines, hsplit, hlines⟩ := h.splitLines
  have hsegment := h.segment
  have hlarge : ¬ (([] : List UInt8) ≠ [] ∨
      lines.any fun line => decide (maxRecordBytes < line.length + 1)) := by
    rw [List.any_eq_true]
    rintro (hrest | ⟨line, hl, hlt⟩)
    · exact hrest rfl
    · exact absurd (hlines line hl) (Nat.not_le.2 (by simpa using hlt))
  rw [WMonitor.decodeSegment, if_neg (by omega), hsplit]
  exact if_neg hlarge

/-- If no write fails, all segments together, those in quarantine included, keep the limit of the queue,
each segment and each record keeps its own, and the reader takes none of them for torn or too large. An
`append` that is refused because the queue is full leaves every segment and checkpoint as it is, and
counts one overflow in the persisted counts; if it cannot, it says so, and a file operation has failed. -/
theorem reached_sized (U : URLs) (turns : List (Turn (Choice Unit) SpoolCall Empty)) :
    ((reached U turns).shared.queue.torn = [] →
      segmentBytes (reached U turns).shared.queue ≤ maxSpoolBytes ∧
      ∀ n content, ((reached U turns).shared.queue.segs n = some content ∨
          (reached U turns).shared.queue.held n = some content) →
        n ∈ (reached U turns).shared.queue.names ∧ content.length ≤ maxSegmentBytes ∧
        (∀ line ∈ (splitLines content).1, line.length + 1 ≤ maxRecordBytes) ∧
        decodeSegment content = ((splitLines content).1.filter fun line => !isBlank line).mapM
          SpoolEntry.unmarshal) ∧
    ∀ t payloadType body k e, (t, .append payloadType body, .error (k, e)) ∈ (reached U turns).results →
      (e = .full ∨ e = .fullUnrecorded) →
      Refused e (Pool.stepsOf (service U) t { shared := { env := () } } turns) := by
  have hempty : (sizes (η := Unit)).inv { env := () } := fun _ =>
    { names := List.nodup_nil, live := by simp, held := by simp, opened := by simp, current := by simp
      fits := by simp, total := Nat.zero_le _ }
  refine ⟨fun htorn => ?_, fun t payloadType body k e hr he => ?_⟩
  · have hsized : Sized (reached U turns).shared.queue :=
      (Pool.sound (service_sizes U) hempty (fun _ => trivial) turns).inv htorn
    refine ⟨hsized.total, fun n content hc => ?_⟩
    have hfits := hsized.fits n content hc
    refine ⟨?_, hfits.segment, ?_, hfits.decodeSegment⟩
    · rcases hc with hc | hc
      · exact hsized.live n (by simp [hc])
      · exact hsized.held n (by simp [hc])
    · obtain ⟨lines, hsplit, hlines⟩ := hfits.splitLines
      rw [hsplit]
      exact hlines
  · obtain ⟨s₀, s', hran⟩ := Pool.ran (service_sizes U) hempty (fun _ => trivial) turns hr
    obtain ⟨r, hr', hran⟩ := hran.mapError_inv
    rcases hran.bind_inv with ⟨e', rfl, happend⟩ | ⟨a, _, _, _, -, -, hret⟩
    · cases hr'
      exact ran_append he happend
    · obtain ⟨-, rfl, -⟩ := hret
      cases hr'

/-- An append, and another one that finds the directory full of other files. -/
def fullTurns : List (Turn (Choice Unit) SpoolCall Empty) :=
  .start (.append "metric" "[1]".toList) :: List.replicate 40 (.thread 0 { env := () }) ++
    .start (.append "metric" "[2]".toList) ::
      List.replicate 40 (.thread 1 { others := maxSpoolBytes, env := () })

theorem fullTurns_results : (reached ⟨fun _ => none, id⟩ fullTurns).results
    = [(0, .append "metric" "[1]".toList, .ok 0),
      (1, .append "metric" "[2]".toList, .error (0, .full))] := by
  decide +kernel

theorem reached_sized_full : segmentBytes (reached ⟨fun _ => none, id⟩ fullTurns).shared.queue
      ≤ maxSpoolBytes ∧
    Refused .full
      (Pool.stepsOf (service ⟨fun _ => none, id⟩) 1 { shared := { env := () } } fullTurns) := by
  have hreached := reached_sized ⟨fun _ => none, id⟩ fullTurns
  refine ⟨(hreached.1 (by decide +kernel)).1,
    hreached.2 1 "metric" "[2]".toList 0 .full ?_ (.inl rfl)⟩
  rw [fullTurns_results]
  exact List.mem_cons_of_mem _ List.mem_cons_self

end Spool

end WMonitor
