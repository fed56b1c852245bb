import WMonitor.Proofs.ProgSteps
import WMonitor.Proofs.SpoolRuns

/-!
# How large the queue becomes

As long as no write fails, `curSize` is the size of the open segment, so that the limits `append` checks
are those of the files: of a record, of a segment, and of all segments together, those in quarantine
included. Nobody else makes a segment larger. A thread relies on nothing but that the queue stays as it is
while it holds `mu`.
-/

namespace WMonitor

namespace Spool

open Prog

variable {η θ α : Type} {t : ℕ}

/-! ## The invariant -/

def fileSize (file : Option (List UInt8)) : ℕ := (file.getD []).length

/-- The bytes of all segments, in the queue and in quarantine. -/
def segmentBytes (q : Queue) : ℕ := (q.names.map fun n => fileSize (q.segs n) + fileSize (q.held n)).sum

/-- A segment of whole records that keeps both limits. -/
structure WithinLimits (content : List UInt8) : Prop where
  segment : content.length ≤ maxSegmentBytes
  records : ∃ lines : List (List UInt8), content = lines.flatMap (fun line => line ++ [10]) ∧
    ∀ line ∈ lines, 10 ∉ line ∧ line.length + 1 ≤ maxRecordBytes

theorem withinLimits_nil : WithinLimits [] := ⟨Nat.zero_le _, [], rfl, by simp⟩

theorem WithinLimits.append {content line : List UInt8} (h : WithinLimits content) (hline : 10 ∉ line)
    (hrecord : line.length + 1 ≤ maxRecordBytes)
    (hsegment : (content ++ (line ++ [10])).length ≤ maxSegmentBytes) :
    WithinLimits (content ++ (line ++ [10])) := by
  obtain ⟨lines, rfl, hlines⟩ := h.records
  refine ⟨hsegment, lines ++ [line], by simp, fun l hl => ?_⟩
  rcases List.mem_append.1 hl with hl | hl
  · exact hlines l hl
  · rw [List.mem_singleton.1 hl]
    exact ⟨hline, hrecord⟩

structure Sized (q : Queue) : Prop where
  names : q.names.Nodup
  live : ∀ n, q.segs n ≠ none → n ∈ q.names
  held : ∀ n, q.held n ≠ none → n ∈ q.names
  opened : ∀ n, q.current = some n → n ∈ q.names
  current : ∀ n content, q.current = some n → q.segs n = some content →
    q.curSize = content.length ∧ q.offset = content.length
  fits : ∀ n content, (q.segs n = some content ∨ q.held n = some content) → WithinLimits content
  total : segmentBytes q ≤ maxSpoolBytes

/-- What everybody but `append` does to the segments. -/
structure Shrinks (q q' : Queue) : Prop where
  names : q'.names = q.names
  torn : q'.torn = q.torn
  current : q'.current = none ∨
    (q'.current = q.current ∧ q'.curSize = q.curSize ∧ q'.offset = q.offset)
  segs : ∀ n content, q'.segs n = some content → q.segs n = some content
  held : ∀ n content, q'.held n = some content → q.segs n = some content ∨ q.held n = some content
  size : ∀ n, fileSize (q'.segs n) + fileSize (q'.held n) ≤ fileSize (q.segs n) + fileSize (q.held n)

theorem Shrinks.segmentBytes {q q' : Queue} (h : Shrinks q q') :
    Spool.segmentBytes q' ≤ Spool.segmentBytes q := by
  unfold Spool.segmentBytes
  rw [h.names]
  exact List.sum_le_sum fun n _ => h.size n

theorem Sized.shrinks {q q' : Queue} (hq : Sized q) (h : Shrinks q q') : Sized q' where
  names := h.names ▸ hq.names
  live n hn := by
    obtain ⟨content, hc⟩ := Option.ne_none_iff_exists'.1 hn
    rw [h.names]
    exact hq.live n (by simp [h.segs n content hc])
  held n hn := by
    obtain ⟨content, hc⟩ := Option.ne_none_iff_exists'.1 hn
    rw [h.names]
    rcases h.held n content hc with hc | hc
    · exact hq.live n (by simp [hc])
    · exact hq.held n (by simp [hc])
  opened n hn := by
    rcases h.current with hnone | ⟨hcur, -⟩
    · simp [hnone] at hn
    · rw [h.names]
      exact hq.opened n (hcur ▸ hn)
  current n content hn hc := by
    rcases h.current with hnone | ⟨hcur, hsize, hoff⟩
    · simp [hnone] at hn
    · rw [hsize, hoff]
      exact hq.current n content (hcur ▸ hn) (h.segs n content hc)
  fits n content hc := by
    rcases hc with hc | hc
    · exact hq.fits n content (.inl (h.segs n content hc))
    · exact hq.fits n content (h.held n content hc)
  total := h.segmentBytes.trans hq.total

theorem Shrinks.refl (q : Queue) : Shrinks q q where
  names := rfl
  torn := rfl
  current := .inr ⟨rfl, rfl, rfl⟩
  segs _ _ h := h
  held _ _ h := .inr h
  size _ := le_rfl

/-- What changes neither the files nor what is open. -/
theorem Shrinks.of_same {q q' : Queue} (hn : q'.names = q.names) (ht : q'.torn = q.torn)
    (hs : q'.segs = q.segs) (hh : q'.held = q.held) (hc : q'.current = none ∨
      (q'.current = q.current ∧ q'.curSize = q.curSize ∧ q'.offset = q.offset)) : Shrinks q q' where
  names := hn
  torn := ht
  current := hc
  segs _ _ h := hs ▸ h
  held _ _ h := .inr (hh ▸ h)
  size _ := by rw [hs, hh]

theorem Shrinks.rename {q : Queue} {path : SegName} {content : List UInt8}
    (hseg : q.segs path = some content) : Shrinks q { q with
      segs := Function.update q.segs path none
      held := Function.update q.held path (some content) } where
  names := rfl
  torn := rfl
  current := .inr ⟨rfl, rfl, rfl⟩
  segs n c h := by
    by_cases hn : n = path
    · simp [hn] at h
    · simpa [hn] using h
  held n c h := by
    by_cases hn : n = path
    · subst hn
      exact .inl (hseg.trans (by simpa using h))
    · exact .inr (by simpa [hn] using h)
  size n := by
    by_cases hn : n = path
    · subst hn
      simp [fileSize, hseg]
    · simp [hn]

theorem Shrinks.remove (q : Queue) (path : SegName) (removed : List SegName) :
    Shrinks q { q with segs := Function.update q.segs path none, removed := removed } where
  names := rfl
  torn := rfl
  current := .inr ⟨rfl, rfl, rfl⟩
  segs n c h := by
    by_cases hn : n = path
    · simp [hn] at h
    · simpa [hn] using h
  held _ _ h := .inr h
  size n := by
    by_cases hn : n = path
    · subst hn
      simp [fileSize]
    · simp [hn]

/-! ## The protocol -/

def sizes : Protocol (Spool η) where
  inv s := s.queue.torn = [] → Sized s.queue
  sees t s s' := s.mu = some t → s'.mu = some t ∧ s'.queue = s.queue
  refl _ _ h := ⟨h, rfl⟩
  trans h h' hmu := ⟨(h' (h hmu).1).1, (h' (h hmu).1).2.trans (h hmu).2⟩

/-- The step leaves `mu` and the queue as they are. -/
def Quiet (s s' : Spool η) : Prop := s'.mu = s.mu ∧ s'.queue = s.queue

/-- The step leaves `mu` as it is, and no segment becomes larger. -/
def Shrinking (s s' : Spool η) : Prop := s'.mu = s.mu ∧ Shrinks s.queue s'.queue

theorem stable_queue (P : Queue → Prop) :
    (sizes (η := η)).Stable t fun s => s.mu = some t ∧ P s.queue := by
  rintro s s' - - h ⟨hmu, hp⟩
  exact ⟨(h hmu).1, (h hmu).2 ▸ hp⟩

theorem stable_holds : (sizes (η := η)).Stable t fun s => s.mu = some t :=
  fun _ _ _ _ h hmu => (h hmu).1

/-- Whoever holds `mu` may change the queue, if the sizes stay within the limits. -/
theorem allows_held {s s' : Spool η} (hmu : s.mu = some t) (hi : sizes.inv s') :
    sizes.Allows t s s' where
  inv := hi
  sees _ hu h := absurd (Option.some.inj (hmu.symm.trans h)).symm hu

theorem allows_quiet {s s' : Spool η} (hi : sizes.inv s) (h : Quiet s s') : sizes.Allows t s s' where
  inv := by
    change s'.queue.torn = [] → Sized s'.queue
    rw [h.2]
    exact hi
  sees _ _ hmu := ⟨h.1.trans hmu, h.2⟩

theorem inv_shrinking {s s' : Spool η} (hi : sizes.inv s) (h : Shrinking s s') : sizes.inv s' :=
  fun ht => (hi (h.2.torn ▸ ht)).shrinks h.2

/-- A program that any thread may run at any time. -/
def Free {ε : Type} (t : ℕ) (p : Prog (Spool η) (Choice θ) ε α) : Prop :=
  Triple sizes t (fun _ => True) p (fun _ _ => True) fun _ _ => True

/-- A program that a thread may run while it holds `mu`. -/
def Held (t : ℕ) (p : SpoolM η θ α) : Prop :=
  Triple sizes t (fun s => s.mu = some t) p (fun _ s => s.mu = some t) fun _ s => s.mu = some t

section Rules

variable {ε ε' β : Type} {p : Prog (Spool η) (Choice θ) ε α}

theorem free_of_quiet {E : ε → Prop} (h : Each Quiet E p) : Free t p :=
  h.triple (.const True) fun _ _ hi _ hq => ⟨allows_quiet hi hq, trivial⟩

theorem held_of_shrinking {p : SpoolM η θ α} {E : SpoolError → Prop} (h : Each Shrinking E p) :
    Held t p :=
  h.triple stable_holds fun _ _ hi hmu hs => ⟨allows_held hmu (inv_shrinking hi hs), hs.1.trans hmu⟩

theorem Free.bind {q : α → Prog (Spool η) (Choice θ) ε β} (hp : Free t p) (hq : ∀ a, Free t (q a)) :
    Free t (p >>= q) :=
  Triple.bind hp hq

theorem Free.pure (a : α) : Free t (pure a : Prog (Spool η) (Choice θ) ε α) :=
  Triple.ret (.const True) fun _ _ h => h

theorem Free.ofExcept (r : Except ε α) : Free t (.ofExcept r : Prog (Spool η) (Choice θ) ε α) := by
  cases r with
  | ok a => exact Free.pure a
  | error e => exact Triple.fail (.const True) fun _ _ h => h

theorem Free.failIf {c : Prop} [Decidable c] (e : ε) :
    Free t (.failIf c e : Prog (Spool η) (Choice θ) ε Unit) :=
  free_of_quiet (E := fun _ => True) (Each.failIf fun _ => trivial)

theorem Free.attempt (hp : Free t p) :
    Free t (p.attempt : Prog (Spool η) (Choice θ) ε' (Except ε α)) := by
  refine Triple.conseq (Triple.attempt (F := fun _ _ => True) hp) (fun _ _ h => h) ?_ fun _ _ _ h => h
  exact fun _ _ _ _ => trivial

theorem Free.mapError {g : ε → ε'} (hp : Free t p) : Free t (p.mapError g) := Triple.mapError hp

theorem Free.locked {p : SpoolM η θ α} (hp : Held t p) : Free t (locked t p) := by
  have htrue := Protocol.Stable.const (Γ := sizes (η := η)) (t := t) True
  have hunlock : Triple sizes t (fun s => s.mu = some t) (unlockMu : SpoolM η θ Unit)
      (fun _ _ => True) fun _ _ => True :=
    Triple.modify stable_holds htrue (fun _ => htrue) fun s hi hmu => ⟨allows_held hmu hi, trivial⟩
  refine Triple.bind (Q := fun _ s => s.mu = some t) ?_ fun _ => Triple.bind hp.attempt fun r => ?_
  · refine Triple.act htrue (fun _ => stable_holds) (fun _ => htrue) ?_ ?_
    · intro s c a s' hi _ hf
      split_ifs at hf with hmu
      cases hf
      exact ⟨⟨hi, fun u _ h => absurd (hmu.symm.trans h) (by simp)⟩, rfl⟩
    · intro s c e s' _ _ hf
      split_ifs at hf
      cases hf
  · cases r with
    | ok a => exact Triple.bind hunlock fun _ => Free.ofExcept _
    | error e => exact Triple.bind hunlock fun _ => Free.ofExcept _

theorem Free.drainLocked {wrap : SpoolError → ε} (hp : Free t p) : Free t (drainLocked t wrap p) := by
  have hlock : Each Quiet (fun _ => True) (lockDrainMu t : SpoolM η θ Unit) := by
    refine Each.act ?_ ?_
    · intro s c a s' hf
      split_ifs at hf
      cases hf
      exact ⟨rfl, rfl⟩
    · intro s c e s' hf
      split_ifs at hf
      cases hf
  have hunlock : Each Quiet (fun _ => True) (unlockDrainMu : SpoolM η θ Unit) :=
    Each.modify fun s => ⟨rfl, rfl⟩
  exact (free_of_quiet hlock).mapError.bind fun _ => hp.attempt.bind fun r =>
    (free_of_quiet hunlock).mapError.bind fun _ => Free.ofExcept r

end Rules

/-! ## Steps -/

section Steps

variable {R : Spool η → Spool η → Prop} {E : SpoolError → Prop}

theorem each_fileOp {f : Spool η → Except SpoolError (α × Spool η)} (hrefl : ∀ s, R s s)
    (hio : E .io) (hf : ∀ s, match f s with
      | .ok (_, s') => R s s'
      | .error e => E e) : Each R E (fileOp f : SpoolM η θ α) := by
  refine Each.act ?_ ?_
  · intro s c a s' h
    simp only [Option.some.injEq] at h
    split_ifs at h
    · have := hf s
      split at h <;> simp_all
    · cases h
  · intro s c e s' h
    simp only [Option.some.injEq] at h
    split_ifs at h
    · have := hf s
      split at h <;> simp_all
    · cases h
      exact ⟨hrefl s, hio⟩

theorem each_touch (hrefl : ∀ s, R s s) (hio : E .io) : Each R E (touch : SpoolM η θ Unit) :=
  each_fileOp hrefl hio hrefl

theorem each_spoolReplace {f : Spool η → Spool η} (hrefl : ∀ s, R s s) (hio : E .io)
    (hf : ∀ s, R s (f s)) : Each R E (spoolReplace f : SpoolM η θ Unit) := by
  refine Each.act ?_ ?_
  · intro s c a s' h
    simp only [Option.some.injEq] at h
    split at h <;> cases h
    exact hf s
  · intro s c e s' h
    simp only [Option.some.injEq] at h
    split at h <;> cases h
    · exact ⟨hrefl s, hio⟩
    · exact ⟨hf s, hio⟩

theorem each_clock (hrefl : ∀ s, R s s) : Each R E (clock : SpoolM η θ _) := by
  refine Each.act ?_ ?_
  · rintro s c a s' h
    cases h
    exact hrefl s
  · rintro s c e s' h
    cases h

theorem each_sealLocked (hrefl : ∀ s, R s s) (hio : E .io)
    (hseal : ∀ s, R s (s.onQueue fun q => { q with current := none, curSize := 0 })) :
    Each R E (sealLocked : SpoolM η θ Unit) := by
  refine Each.bind (Each.read _ hrefl) fun current => ?_
  split_ifs
  · exact Each.pure ()
  · refine Each.bind (each_touch hrefl hio) fun _ => Each.act ?_ ?_
    · intro s c a s' h
      simp only [Option.some.injEq, Prod.mk.injEq] at h
      obtain ⟨-, rfl⟩ := h
      exact hseal s
    · intro s c e s' h
      simp only [Option.some.injEq, Prod.mk.injEq] at h
      obtain ⟨he, rfl⟩ := h
      split_ifs at he
      cases he
      exact ⟨hseal s, hio⟩

end Steps

theorem shrinking_refl (s : Spool η) : Shrinking s s := ⟨rfl, Shrinks.refl _⟩

theorem shrinking_seal (s : Spool η) :
    Shrinking s (s.onQueue fun q => { q with current := none, curSize := 0 }) :=
  ⟨rfl, .of_same rfl rfl rfl rfl (.inl rfl)⟩

theorem shrinking_loss (s : Spool η) (loss : Option (LossReason → ℕ)) :
    Shrinking s (s.onQueue fun q => { q with loss := loss }) :=
  ⟨rfl, .of_same rfl rfl rfl rfl (.inr ⟨rfl, rfl, rfl⟩)⟩

theorem each_recordLossLocked (reason : LossReason) :
    Each Shrinking (fun _ => True) (recordLossLocked reason : SpoolM η θ Unit) :=
  Each.bind (each_fileOp shrinking_refl trivial shrinking_refl) fun _ =>
    each_spoolReplace shrinking_refl trivial fun s => shrinking_loss s _

/-! ## Append -/

/-- There is room for so many more bytes, as long as no write has failed. -/
def Room (incoming : ℕ) (q : Queue) : Prop := q.torn = [] → segmentBytes q + incoming ≤ maxSpoolBytes

/-- The open segment has room for them. -/
def OpenRoom (incoming : ℕ) (q : Queue) : Prop :=
  q.torn = [] → ∃ n, q.current = some n ∧ q.curSize + incoming ≤ maxSegmentBytes

theorem Room.shrinks {incoming : ℕ} {q q' : Queue} (h : Room incoming q) (hs : Shrinks q q') :
    Room incoming q' := by
  intro ht
  have hroom := h (hs.torn ▸ ht)
  have hle := hs.segmentBytes
  omega

theorem segmentBytes_le (s : Spool η) : segmentBytes s.queue ≤ s.bytes := by
  unfold segmentBytes bytes fileSize
  refine le_add_right (List.sum_le_sum fun n _ => ?_)
  omega

theorem evictIfFullLocked_room (incoming : ℕ) :
    Triple sizes t (fun s : Spool η => s.mu = some t) (evictIfFullLocked incoming : SpoolM η θ Unit)
      (fun _ s => s.mu = some t ∧ Room incoming s.queue) fun _ s => s.mu = some t := by
  refine Triple.bind (Q := fun total s => s.mu = some t ∧ segmentBytes s.queue ≤ total) ?_
    fun total => ?_
  · refine Triple.act stable_holds (fun total => stable_queue fun q => segmentBytes q ≤ total)
      (fun _ => stable_holds) ?_ ?_
    · intro s c a s' hi hmu hf
      simp only [Option.some.injEq, Prod.mk.injEq] at hf
      obtain ⟨ha, rfl⟩ := hf
      split_ifs at ha
      cases ha
      exact ⟨.idle hi, hmu, le_add_right (segmentBytes_le s)⟩
    · intro s c e s' hi hmu hf
      simp only [Option.some.injEq, Prod.mk.injEq] at hf
      obtain ⟨-, rfl⟩ := hf
      exact ⟨.idle hi, hmu⟩
  · split_ifs with hfull
    · have hloss : Held t (recordLossLocked .overflow : SpoolM η θ Unit) :=
        held_of_shrinking (each_recordLossLocked .overflow)
      refine Triple.bind (hloss.attempt.pre fun s _ h => h.1) fun r => ?_
      cases r with
      | ok a => exact Triple.fail stable_holds fun _ _ h => h
      | error e => exact Triple.fail stable_holds fun _ _ h => h
    · refine Triple.ret (stable_queue (Room incoming)) fun s _ h => ⟨h.1, fun _ => ?_⟩
      have := h.2
      omega

/-- The queue with a new, empty segment. -/
def created (q : Queue) (n : SegName) : Queue :=
  { q with names := q.names ++ [n], segs := Function.update q.segs n (some []) }

theorem Sized.name_ne {q : Queue} {n m : SegName} (hn : n ∉ q.names) (hm : m ∈ q.names) : m ≠ n :=
  fun h => hn (h ▸ hm)

theorem Sized.created_bytes {q : Queue} (h : Sized q) {n : SegName} (hn : n ∉ q.names) :
    segmentBytes (created q n) = segmentBytes q := by
  have hheld : q.held n = none := by
    by_contra hne
    exact hn (h.held n hne)
  have hold : q.names.map (fun m => fileSize (Function.update q.segs n (some []) m)
      + fileSize (q.held m)) = q.names.map fun m => fileSize (q.segs m) + fileSize (q.held m) :=
    List.map_congr_left fun m hm => by rw [Function.update_of_ne (Sized.name_ne hn hm)]
  simp only [created, segmentBytes, List.map_append, List.sum_append, hold]
  simp [fileSize, hheld]

theorem Sized.created {q : Queue} (h : Sized q) {n : SegName} (hn : n ∉ q.names) :
    Sized (Spool.created q n) where
  names := List.nodup_append.2 ⟨h.names, List.nodup_singleton n, fun a ha b hb =>
    (List.mem_singleton.1 hb).symm ▸ Sized.name_ne hn ha⟩
  live m hm := by
    by_cases hmn : m = n
    · simp [Spool.created, hmn]
    · exact List.mem_append_left _ (h.live m (by simpa [Spool.created, hmn] using hm))
  held m hm := List.mem_append_left _ (h.held m hm)
  opened m hm := List.mem_append_left _ (h.opened m hm)
  current m content hcur hm := by
    have hmn : m ≠ n := Sized.name_ne hn (h.opened m hcur)
    exact h.current m content hcur (by simpa [Spool.created, hmn] using hm)
  fits m content hm := by
    by_cases hmn : m = n
    · subst hmn
      rcases hm with hm | hm
      · have hempty : [] = content := by simpa [Spool.created] using hm
        exact hempty ▸ withinLimits_nil
      · exact h.fits m content (.inr hm)
    · exact h.fits m content (by simpa [Spool.created, hmn] using hm)
  total := (h.created_bytes hn).symm ▸ h.total

/-- An empty segment is opened. -/
theorem Sized.open {q : Queue} (h : Sized q) {n : SegName} (hn : q.segs n = some []) :
    Sized { q with current := some n, curSize := 0, offset := 0 } where
  names := h.names
  live := h.live
  held := h.held
  opened m hm := by
    obtain rfl : n = m := by simpa using hm
    exact h.live n (by simp [hn])
  current m content hm hc := by
    obtain rfl : n = m := by simpa using hm
    obtain rfl : [] = content := by simpa [hn] using hc
    exact ⟨rfl, rfl⟩
  fits := h.fits
  total := h.total

theorem createTemp_room (incoming : ℕ) (now : Fin (2 ^ 63)) :
    Triple sizes t (fun s : Spool η => s.mu = some t ∧ Room incoming s.queue)
      (createTemp now : SpoolM η θ SegName)
      (fun n s => s.mu = some t ∧ Room incoming s.queue ∧ s.queue.segs n = some [])
      fun _ s => s.mu = some t := by
  refine Triple.act (stable_queue (Room incoming))
    (fun n => stable_queue fun q => Room incoming q ∧ q.segs n = some []) (fun _ => stable_holds) ?_ ?_
  · rintro s c n s' hi ⟨hmu, hroom⟩ hf
    simp only at hf
    split_ifs at hf with hn hfault
    · cases hf
      refine ⟨allows_held hmu fun ht => (hi ht).created hn, hmu, fun ht => ?_, by simp [onQueue]⟩
      exact ((hi ht).created_bytes hn).symm ▸ hroom ht
    · cases hf
  · rintro s c e s' hi ⟨hmu, -⟩ hf
    simp only at hf
    split_ifs at hf <;> cases hf
    exact ⟨.idle hi, hmu⟩

theorem ensureSegmentLocked_room {incoming : ℕ} (hsmall : incoming ≤ maxSegmentBytes) :
    Triple sizes t (fun s : Spool η => s.mu = some t ∧ Room incoming s.queue)
      (ensureSegmentLocked incoming : SpoolM η θ Unit)
      (fun _ s => s.mu = some t ∧ Room incoming s.queue ∧ OpenRoom incoming s.queue)
      fun _ s => s.mu = some t := by
  have hroom := stable_queue (η := η) (t := t) (Room incoming)
  have hboth := stable_queue (η := η) (t := t) fun q => Room incoming q ∧ OpenRoom incoming q
  refine Triple.bind (Q := fun q s => s.mu = some t ∧ Room incoming s.queue ∧ s.queue = q)
    (Triple.read hroom (fun q => stable_queue fun q' => Room incoming q' ∧ q' = q)
      (fun _ => stable_holds) fun s _ h => ⟨h.1, h.2, rfl⟩) fun q => ?_
  split_ifs with hq
  · refine Triple.ret hboth fun s _ hs => ⟨hs.1, hs.2.1, fun _ => ?_⟩
    obtain ⟨n, hn⟩ := Option.isSome_iff_exists.1 hq.1
    rw [hs.2.2]
    exact ⟨n, hn, hq.2⟩
  · have hkeep : ∀ {p : SpoolM η θ Unit}, Each Shrinking (fun _ => True) p →
        Triple sizes t (fun s => s.mu = some t ∧ Room incoming s.queue) p
          (fun _ s => s.mu = some t ∧ Room incoming s.queue) fun _ s => s.mu = some t := fun h =>
      (h.triple hroom fun s s' hi hs hstep => ⟨allows_held hs.1 (inv_shrinking hi hstep),
        hstep.1.trans hs.1, hs.2.shrinks hstep.2⟩).conseq (fun _ _ h => h) (fun _ _ _ h => h)
        fun _ _ _ h => h.1
    refine Triple.bind ((hkeep (each_sealLocked shrinking_refl trivial shrinking_seal)).pre
      fun s _ h => ⟨h.1, h.2.1⟩) fun _ => ?_
    refine Triple.bind (Q := fun _ s => s.mu = some t ∧ Room incoming s.queue) ?_ fun now => ?_
    · refine Triple.act hroom (fun _ => hroom) (fun _ => stable_holds) ?_ ?_
      · rintro s c a s' hi hs hf
        cases hf
        exact ⟨.idle hi, hs⟩
      · rintro s c e s' - - hf
        cases hf
    refine Triple.bind (createTemp_room incoming now) fun n => ?_
    have hnew := stable_queue (η := η) (t := t) fun q => Room incoming q ∧ q.segs n = some []
    have htouch : Triple sizes t
        (fun s : Spool η => s.mu = some t ∧ Room incoming s.queue ∧ s.queue.segs n = some [])
        (touch : SpoolM η θ Unit)
        (fun _ s => s.mu = some t ∧ Room incoming s.queue ∧ s.queue.segs n = some [])
        fun _ s => s.mu = some t :=
      ((each_touch (R := Quiet) (E := fun _ => True) (fun _ => ⟨rfl, rfl⟩) trivial).triple hnew
        fun s s' hi hs hq => ⟨allows_quiet hi hq, hq.1.trans hs.1, hq.2 ▸ hs.2⟩).conseq
        (fun _ _ h => h) (fun _ _ _ h => h) fun _ _ _ h => h.1
    refine Triple.bind htouch fun _ => Triple.bind htouch fun _ => ?_
    refine Triple.modify hnew hboth (fun _ => stable_holds) ?_
    rintro s hi ⟨hmu, hr, hn⟩
    refine ⟨allows_held hmu fun ht => (hi ht).open hn, hmu, hr, fun _ => ⟨n, rfl, ?_⟩⟩
    simpa [onQueue] using hsmall

/-- A sum in which one summand grows. -/
theorem sum_map_le_add {ι : Type} {f g : ι → ℕ} {a : ι} {d : ℕ} {l : List ι} (hl : l.Nodup)
    (ha : g a ≤ f a + d) (hne : ∀ b, b ≠ a → g b ≤ f b) : (l.map g).sum ≤ (l.map f).sum + d := by
  induction l with
  | nil => simp
  | cons b l ih =>
    obtain ⟨hb, hl⟩ := List.nodup_cons.1 hl
    simp only [List.map_cons, List.sum_cons]
    by_cases hba : b = a
    · subst hba
      have hrest : (l.map g).sum ≤ (l.map f).sum :=
        List.sum_le_sum fun c hc => hne c fun h => hb (h ▸ hc)
      omega
    · have := ih hl
      have := hne b hba
      omega

section Put

variable {q : Queue} {w : Written} {record : List UInt8} (h : Sized q) (hcur : q.current = some w.name)
  (hsegment : q.curSize + (record ++ [10]).length ≤ maxSegmentBytes)

/-- The segment after a whole record was written. -/
theorem Sized.put_segs (h : Sized q) (hcur : q.current = some w.name) {n : SegName}
    {content : List UInt8} {curSize : ℕ} {torn : List SegName} {data : List UInt8}
    (hc : (put q w data curSize torn).segs n = some content) :
    (n ≠ w.name ∧ q.segs n = some content) ∨
      (n = w.name ∧ ∃ old, q.segs n = some old ∧ q.curSize = old.length ∧ q.offset = old.length ∧
        content = old ++ data) := by
  by_cases hn : n = w.name
  · subst hn
    simp only [put, Function.update_self, Option.map_eq_some_iff] at hc
    obtain ⟨old, hold, rfl⟩ := hc
    obtain ⟨hsize, hoff⟩ := h.current _ old hcur hold
    exact .inr ⟨rfl, old, hold, hsize, hoff, by rw [hoff, writeAt_end]⟩
  · exact .inl ⟨hn, by simpa [put, hn] using hc⟩

include h hcur in
theorem Sized.put_bytes (curSize : ℕ) (torn : List SegName) (data : List UInt8) :
    segmentBytes (put q w data curSize torn) ≤ segmentBytes q + data.length := by
  refine sum_map_le_add (a := w.name) h.names ?_ fun n hn => ?_
  · cases hseg : q.segs w.name with
    | none => simp [put, fileSize, hseg]
    | some old =>
      simp only [put, fileSize, hseg, Function.update_self, Option.map_some, Option.getD_some,
        (h.current _ old hcur hseg).2, writeAt_end, List.length_append]
      omega
  · simp [put, hn]

include h hcur hsegment in
theorem Sized.put (hline : 10 ∉ record) (hrecord : record.length + 1 ≤ maxRecordBytes)
    (htotal : segmentBytes q + (record ++ [10]).length ≤ maxSpoolBytes) :
    Sized (Spool.put q w (record ++ [10]) (q.curSize + (record ++ [10]).length) q.torn) where
  names := h.names
  live n hn := by
    obtain ⟨content, hc⟩ := Option.ne_none_iff_exists'.1 hn
    rcases h.put_segs hcur hc with ⟨-, hold⟩ | ⟨-, old, hold, -⟩
    · exact h.live n (by simp [hold])
    · exact h.live n (by simp [hold])
  held := h.held
  opened := h.opened
  current n content hn hc := by
    have hw : n = w.name := Option.some.inj (hn.symm.trans hcur)
    rcases h.put_segs hcur hc with ⟨hne, -⟩ | ⟨-, old, -, hsize, hoff, rfl⟩
    · exact absurd hw hne
    · simp [Spool.put, hsize, hoff]
  fits n content hc := by
    rcases hc with hc | hc
    · rcases h.put_segs hcur hc with ⟨-, hold⟩ | ⟨-, old, hold, hsize, -, rfl⟩
      · exact h.fits n content (.inl hold)
      · refine (h.fits n old (.inl hold)).append hline hrecord ?_
        rw [List.length_append, ← hsize]
        exact hsegment
    · exact h.fits n content (.inr hc)
  total := (h.put_bytes hcur _ _ _).trans htotal

end Put

theorem write_room {entry : SpoolEntry} (hrecord : (entry.marshal ++ [10]).length ≤ maxRecordBytes) :
    Triple sizes t
      (fun s : Spool η => s.mu = some t ∧ Room (entry.marshal ++ [10]).length s.queue
        ∧ OpenRoom (entry.marshal ++ [10]).length s.queue)
      (write t entry (entry.marshal ++ [10]) : SpoolM η θ Unit)
      (fun _ s => s.mu = some t) fun _ s => s.mu = some t ∧ s.queue.torn ≠ [] := by
  refine Triple.act (stable_queue fun q => Room _ q ∧ OpenRoom _ q) (fun _ => stable_holds)
    (fun _ => stable_queue fun q => q.torn ≠ []) ?_ ?_
  · rintro s c a s' hi ⟨hmu, hroom, hopen⟩ hf
    cases hcur : s.queue.current with
    | none => simp [hcur] at hf
    | some n =>
      simp only [hcur] at hf
      split at hf <;> cases hf
      refine ⟨allows_held hmu fun ht => ?_, hmu⟩
      obtain ⟨m, hm, hsegment⟩ := hopen ht
      refine (hi ht).put hcur hsegment (marshal_newline entry) ?_ (hroom ht)
      simpa using hrecord
  · rintro s c e s' hi ⟨hmu, hroom, hopen⟩ hf
    cases hcur : s.queue.current with
    | none =>
      simp only [hcur] at hf
      cases hf
      refine ⟨.idle hi, hmu, fun ht => ?_⟩
      obtain ⟨m, hm, -⟩ := hopen ht
      simp [hcur] at hm
    | some n =>
      simp only [hcur] at hf
      split at hf <;> cases hf
      have htorn : s.queue.torn ++ [n] ≠ [] := by simp
      exact ⟨allows_held hmu fun ht => absurd ht htorn, hmu, htorn⟩

theorem cut_torn (q : Queue) (size : ℕ) : (cut q size).torn = q.torn := by
  unfold cut
  split <;> rfl

theorem truncate_room (size : ℕ) :
    Triple sizes t (fun s : Spool η => s.mu = some t ∧ s.queue.torn ≠ [])
      (truncate size : SpoolM η θ Unit) (fun _ s => s.mu = some t) fun _ s => s.mu = some t := by
  have htorn := stable_queue (η := η) (t := t) fun q => q.torn ≠ []
  refine Triple.act htorn (fun _ => stable_holds) (fun _ => stable_holds) ?_ ?_
  · rintro s c a s' hi ⟨hmu, ht⟩ hf
    simp only [Option.some.injEq] at hf
    split_ifs at hf <;> cases hf
    refine ⟨allows_held hmu fun ht' => absurd ?_ ht, hmu⟩
    simpa only [onQueue, cut_torn] using ht'
  · rintro s c e s' hi ⟨hmu, -⟩ hf
    simp only [Option.some.injEq] at hf
    split_ifs at hf <;> cases hf
    exact ⟨.idle hi, hmu⟩

theorem free_append (payloadType : String) (body : List Char) :
    Free t (append t payloadType body : SpoolM η θ Unit) := by
  refine Free.bind (free_of_quiet (E := fun _ => True) (each_clock fun _ => ⟨rfl, rfl⟩)) fun now => ?_
  refine Free.bind (Free.ofExcept _) fun entry => ?_
  have hfailIf : Triple (sizes (η := η)) t (fun _ => True)
      (.failIf ((entry.marshal ++ [10]).length > maxRecordBytes) .entryTooLarge : SpoolM η θ Unit)
      (fun _ _ => (entry.marshal ++ [10]).length ≤ maxRecordBytes ∧ True) fun _ _ => True :=
    Triple.failIf (.const _) (.const True) (fun h _ _ _ => ⟨Nat.le_of_not_lt h, trivial⟩)
      fun _ _ _ _ => trivial
  refine Triple.bind hfailIf fun _ => Triple.assume fun hrecord => Free.locked ?_
  have hclosed : Held t (.read (·.queue.closed) : SpoolM η θ Bool) :=
    held_of_shrinking (E := fun _ => True) (Each.read _ shrinking_refl)
  refine Triple.bind hclosed fun closed => ?_
  have hfail : Held t (.failIf closed .closed : SpoolM η θ Unit) :=
    held_of_shrinking (E := fun _ => True) (Each.failIf fun _ => trivial)
  refine Triple.bind hfail fun _ => Triple.bind (evictIfFullLocked_room _) fun _ => ?_
  have hsmall : (entry.marshal ++ [10]).length ≤ maxSegmentBytes := hrecord.trans (by decide)
  refine Triple.bind (ensureSegmentLocked_room hsmall) fun _ => ?_
  have hready := stable_queue (η := η) (t := t) fun q => Room (entry.marshal ++ [10]).length q
    ∧ OpenRoom (entry.marshal ++ [10]).length q
  refine Triple.bind (Triple.read hready (fun _ => hready) (fun _ => stable_holds) fun _ _ h => h)
    fun before => Triple.bind (write_room hrecord).attempt fun r => ?_
  cases r with
  | ok a =>
    exact held_of_shrinking (E := fun _ => True) (each_touch shrinking_refl trivial)
  | error e =>
    exact Triple.bind (truncate_room before) fun _ => Triple.fail stable_holds fun _ _ h => h

/-! ## The other calls -/

theorem each_quarantinePathLocked (path : SegName) :
    Each Shrinking (fun _ => True) (quarantinePathLocked path : SpoolM η θ Unit) := by
  have htouch := each_touch (η := η) (θ := θ) (E := fun _ => True) shrinking_refl trivial
  refine htouch.bind fun _ => htouch.bind fun _ => Each.bind ?_ fun _ => Each.bind ?_ fun _ =>
    htouch.bind fun _ => htouch
  · refine each_fileOp shrinking_refl trivial fun s => ?_
    cases hseg : s.queue.segs path with
    | none => trivial
    | some content => exact ⟨rfl, Shrinks.rename hseg⟩
  · refine each_fileOp shrinking_refl trivial fun s => ?_
    cases s.progress.acks path with
    | none => exact shrinking_refl s
    | some ack => exact ⟨rfl, Shrinks.refl _⟩

theorem each_quarantineAll (paths : List SegName) :
    Each Shrinking (fun _ => True) (quarantineAll paths : SpoolM η θ Unit) := by
  induction paths with
  | nil => exact Each.pure ()
  | cons path paths ih => exact (each_quarantinePathLocked path).bind fun _ => ih

theorem each_segmentsLocked : Each Shrinking (fun _ => True) (segmentsLocked : SpoolM η θ _) :=
  each_fileOp shrinking_refl trivial shrinking_refl

theorem each_readBindLocked : Each Shrinking (fun _ => True) (readBindLocked : SpoolM η θ _) := by
  refine each_fileOp shrinking_refl trivial fun s => ?_
  cases s.custody.bind with
  | none => exact shrinking_refl s
  | some text =>
    cases hb : SpoolBinding.unmarshal text with
    | none => simp [hb]
    | some b => simpa [hb] using shrinking_refl s

theorem each_writeBindLocked (b : SpoolBinding) :
    Each Shrinking (fun _ => True) (writeBindLocked b : SpoolM η θ Unit) :=
  each_spoolReplace shrinking_refl trivial fun _ => ⟨rfl, Shrinks.refl _⟩

theorem each_quarantineLocked :
    Each Shrinking (fun _ => True) (quarantineLocked : SpoolM η θ Unit) :=
  Each.bind (each_sealLocked shrinking_refl trivial shrinking_seal) fun _ =>
    each_segmentsLocked.bind each_quarantineAll

theorem each_bindLocked (U : URLs) (origin tenantID serverID : String) :
    Each Shrinking (fun _ => True) (bindLocked U origin tenantID serverID : SpoolM η θ Unit) := by
  unfold bindLocked
  refine Each.bind (Each.read _ shrinking_refl) fun closed => Each.bind (Each.failIf fun _ => trivial)
    fun _ => ?_
  dsimp only
  generalize canonicalHubURL origin = origin
  refine Each.bind (Each.failIf fun _ => trivial) fun _ => each_readBindLocked.bind fun existing => ?_
  cases existing with
  | none => exact each_writeBindLocked _
  | some b =>
    dsimp only
    split_ifs
    · exact each_quarantineLocked.bind fun _ => each_writeBindLocked _
    · exact each_writeBindLocked _

theorem each_closeLocked : Each Shrinking (fun _ => True) (closeLocked : SpoolM η θ Unit) := by
  refine Each.bind (Each.read _ shrinking_refl) fun closed => ?_
  split_ifs
  · exact Each.pure ()
  · refine Each.bind (Each.modify fun s => ⟨rfl, .of_same rfl rfl rfl rfl (.inr ⟨rfl, rfl, rfl⟩)⟩)
      fun _ => Each.bind (each_sealLocked (E := fun _ => True) shrinking_refl trivial
        shrinking_seal).attempt fun r => Each.bind
        (each_touch (E := fun _ => True) shrinking_refl trivial).attempt fun r' => ?_
    cases r with
    | error e => trivial
    | ok a => cases r' <;> trivial

theorem quiet_refl (s : Spool η) : Quiet s s := ⟨rfl, rfl⟩

theorem each_readSegment (path : SegName) :
    Each Quiet (fun _ => True) (readSegment path : SpoolM η θ _) := by
  refine each_fileOp quiet_refl trivial fun s => ?_
  cases hseg : s.queue.segs path with
  | none => trivial
  | some content =>
    cases hdec : decodeSegment content with
    | none => simp [hdec]
    | some entries => simpa [hdec] using quiet_refl s

theorem each_checkpoint (path : SegName) (maximum : ℕ) :
    Each Quiet (fun _ => True) (checkpoint path maximum : SpoolM η θ ℕ) := by
  refine each_fileOp quiet_refl trivial fun s => ?_
  cases s.progress.acks path with
  | none => exact quiet_refl s
  | some data =>
    cases hn : atoi data with
    | none => simp [hn]
    | some n =>
      simp only [hn]
      split_ifs
      · trivial
      · exact quiet_refl s

theorem each_removal (path : SegName) : Each Shrinking (fun _ => True) (do
    removeSegment path
    touch
    removeAck path : SpoolM η θ Unit) := by
  refine Each.bind (each_fileOp shrinking_refl trivial fun s => ?_) fun _ =>
    Each.bind (each_touch shrinking_refl trivial) fun _ =>
    each_fileOp shrinking_refl trivial fun s => ⟨rfl, Shrinks.refl _⟩
  cases s.queue.segs path with
  | none => trivial
  | some content => exact ⟨rfl, Shrinks.remove _ path _⟩

theorem each_beginPass (t : ℕ) : Each Shrinking (fun _ => True) (do
    let closed ← .read (·.queue.closed)
    .failIf closed .closed
    sealLocked
    let paths ← segmentsLocked
    beginPass t paths
    pure paths : SpoolM η θ (List SegName)) :=
  Each.bind (Each.read _ shrinking_refl) fun _ => Each.bind (Each.failIf fun _ => trivial) fun _ =>
    Each.bind (each_sealLocked shrinking_refl trivial shrinking_seal) fun _ =>
    each_segmentsLocked.bind fun paths =>
    Each.bind (Each.modify fun _ => ⟨rfl, Shrinks.refl _⟩) fun _ => Each.pure paths

section Drain

variable {D : Draining η θ} (hctx : Each Quiet (fun _ => True) D.ctx)
  (hdeliver : ∀ group, Each Quiet (fun _ => True) (D.deliver group))

include hctx hdeliver in
theorem each_deliverFrom (path : SegName) (fuel next : ℕ) (rest : List SpoolEntry) (delivered : ℕ) :
    Each Quiet (fun _ => True) (D.deliverFrom t path fuel next rest delivered) := by
  induction fuel generalizing next rest delivered with
  | zero => exact Each.pure delivered
  | succ fuel ih =>
    cases rest with
    | nil => exact Each.pure delivered
    | cons e rest =>
      have hwrite : Each Quiet (fun _ => True)
          (writeAck path (next + ((e :: rest).take (D.group (e :: rest))).length) : SpoolM η θ Unit) :=
        each_spoolReplace quiet_refl trivial fun _ => ⟨rfl, rfl⟩
      refine hctx.mapError.bind fun _ => Each.bind (Each.failIf fun _ => trivial) fun _ => ?_
      refine Each.bind (Each.mapError (F := fun _ => True) (Each.modify fun s => ⟨rfl, rfl⟩)) fun _ => ?_
      refine (hdeliver _).mapError.bind fun _ => ?_
      refine Each.bind (Each.mapError (F := fun _ => True) (Each.modify fun s => ⟨rfl, rfl⟩)) fun _ => ?_
      exact hwrite.mapError.bind fun _ => ih _ _ _

include hctx hdeliver in
theorem free_drainPath (path : SegName) (delivered : ℕ) : Free t (D.drainPath t path delivered) := by
  refine Free.bind (free_of_quiet (each_readSegment path)).attempt fun r => ?_
  cases r with
  | error e =>
    refine Free.bind (Free.mapError (Free.locked (held_of_shrinking
      ((each_recordLossLocked _).bind fun _ => each_quarantinePathLocked path)))) fun _ => ?_
    exact Free.ofExcept (.error (delivered, D.corrupt))
  | ok entries =>
    refine Free.bind (free_of_quiet (each_checkpoint path entries.length)).mapError fun next => ?_
    refine Free.bind (free_of_quiet (each_deliverFrom hctx hdeliver path _ next _ delivered))
      fun delivered => ?_
    exact Free.bind (Free.mapError (Free.locked (held_of_shrinking (each_removal path)))) fun _ =>
      Free.pure delivered

include hctx hdeliver in
theorem free_drainPaths (paths : List SegName) (delivered : ℕ) :
    Free t (D.drainPaths t paths delivered) := by
  induction paths generalizing delivered with
  | nil => exact Free.pure delivered
  | cons path paths ih =>
    exact Free.bind (free_of_quiet hctx).mapError fun _ =>
      Free.bind (free_drainPath hctx hdeliver path delivered) fun delivered => ih delivered

include hctx hdeliver in
theorem free_pass : Free t (D.pass t) :=
  Free.drainLocked (Free.bind (Free.mapError (Free.locked (held_of_shrinking (each_beginPass t))))
    fun paths => free_drainPaths hctx hdeliver paths 0)

end Drain

theorem each_anyCallback : Each Quiet (fun _ => True) anyCallback := by
  refine Each.act ?_ ?_
  · intro s c a s' h
    split_ifs at h <;> cases h
    exact quiet_refl s
  · intro s c e s' h
    split_ifs at h <;> cases h
    exact ⟨quiet_refl s, trivial⟩

theorem free_serve (U : URLs) (call : SpoolCall) (t : ℕ) : Free t (serve U call t) := by
  have hdone : ∀ {p : SpoolM Unit Unit Unit}, Free t p →
      Free t ((p >>= fun _ => pure 0).mapError fun e => ((0, e) : ℕ × SpoolError)) := fun hp =>
    (hp.bind fun _ => Free.pure 0).mapError
  cases call with
  | append payloadType body => exact hdone (free_append payloadType body)
  | drain =>
    refine free_pass (Each.pure ()) fun group => ?_
    induction group with
    | nil => exact Each.pure ()
    | cons e group ih => exact each_anyCallback.bind fun _ => ih
  | drainBatches maximum =>
    exact Free.bind (Free.failIf _) fun _ => free_pass each_anyCallback fun _ => each_anyCallback
  | bindDestination origin tenantID serverID =>
    exact hdone (Free.drainLocked (Free.locked (held_of_shrinking (each_bindLocked U _ _ _))))
  | close => exact hdone (Free.drainLocked (Free.locked (held_of_shrinking each_closeLocked)))

theorem service_sizes (U : URLs) :
    Pool.Sound (service U) sizes (fun _ _ => True) fun _ _ _ _ => True where
  body call t s hi _ := (free_serve U call t).safe s hi trivial
  env _ _ hi := ⟨hi, fun _ h => ⟨h, rfl⟩⟩
  restart _ hi := fun ht => (hi ht).shrinks (.of_same rfl rfl rfl rfl (.inl rfl))
  freshSees _ _ _ _ _ := trivial
  freshRestart _ _ _ := trivial
  postSees _ _ _ _ _ _ _ := trivial
  postRestart _ _ _ _ _ := trivial

end Spool

end WMonitor
