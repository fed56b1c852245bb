import WMonitor.Proofs.SpoolAppend

/-!
# Quarantine, binding and closing

`bindDestination` keeps the protocol: a segment stays in the queue only while all of its entries may go
to where the queue is bound, also when quarantining stops half-way.
-/

namespace WMonitor

namespace Spool

open Prog

variable {η θ α : Type} {U : URLs} {O : Outside η} {t : ℕ} {s s' : Spool η}

/-! ## Quarantine -/

/-- Under both mutexes, with anything about the open segment that excludes `path`: afterwards only the
segments in `L` are left. -/
theorem quarantinePathLocked_triple {path : SegName} {J : Option SegName → Prop}
    (hJ : ∀ cur, J cur → cur ≠ some path) (L : SegName → Prop) :
    Triple (protocol U O) t
      (fun s => s.mu = some t ∧ s.drainMu = some t ∧ J s.queue.current ∧
        ∀ n, s.queue.segs n ≠ none → n = path ∨ L n)
      (quarantinePathLocked path : SpoolM η θ Unit)
      (fun _ s => s.mu = some t ∧ s.drainMu = some t ∧ J s.queue.current ∧
        ∀ n, s.queue.segs n ≠ none → L n)
      fun _ s => s.mu = some t ∧ s.drainMu = some t := by
  have hE := fun _ : SpoolError => stable_bothHeld (U := U) (O := O) (t := t)
  have hpre := stable_both (U := U) (O := O) (t := t) fun q _ _ =>
    J q.current ∧ ∀ n, q.segs n ≠ none → n = path ∨ L n
  have hpost := stable_both (U := U) (O := O) (t := t) fun q _ _ =>
    J q.current ∧ ∀ n, q.segs n ≠ none → L n
  refine Triple.bind ((touch_triple hpre).conseq (fun _ _ h => h) (fun _ _ _ h => h)
    fun _ _ _ h => ⟨h.1, h.2.1⟩) fun _ => ?_
  refine Triple.bind ((touch_triple hpre).conseq (fun _ _ h => h) (fun _ _ _ h => h)
    fun _ _ _ h => ⟨h.1, h.2.1⟩) fun _ => ?_
  refine Triple.bind (fileOp_triple hpre (fun _ => hpost) hE (fun _ _ _ h => ⟨h.1, h.2.1⟩) ?_) fun _ => ?_
  · rintro s a s' hi ⟨hmu, hdr, hcur, hlive⟩ hf
    split at hf <;> cases hf
    rename_i content hs
    refine ⟨allows_both hmu hdr (hi.quarantine hs (hJ _ hcur)) List.prefix_rfl List.prefix_rfl
      List.prefix_rfl (fun _ _ => rfl) fun _ _ => rfl, hmu, hdr, hcur, fun n hn => ?_⟩
    refine (hlive n (update_none_ne hn)).resolve_left ?_
    rintro rfl
    exact hn (Function.update_self ..)
  refine Triple.bind (fileOp_triple hpost (fun _ => hpost) hE (fun _ _ _ h => ⟨h.1, h.2.1⟩) ?_) fun _ => ?_
  · rintro s a s' hi ⟨hmu, hdr, hq⟩ hf
    split at hf <;> cases hf
    · exact ⟨.idle hi, hmu, hdr, hq⟩
    · rename_i ack hack
      refine ⟨allows_both hmu hdr (hi.dropAck path fun m text hm => ?_) List.prefix_rfl
        List.prefix_rfl List.prefix_rfl (fun _ _ => rfl) fun _ _ => rfl, hmu, hdr, hq⟩
      by_cases hm' : m = path
      · subst hm'
        obtain rfl : ack = text := by simpa using hm
        exact .inl hack
      · exact .inr ((Function.update_of_ne hm' _ _).symm.trans hm)
  refine Triple.bind ((touch_triple hpost).conseq (fun _ _ h => h) (fun _ _ _ h => h)
    fun _ _ _ h => ⟨h.1, h.2.1⟩) fun _ => ?_
  exact (touch_triple hpost).conseq (fun _ _ h => h) (fun _ _ _ h => h)
    fun _ _ _ h => ⟨h.1, h.2.1⟩

theorem quarantineAll_triple (paths : List SegName) :
    Triple (protocol U O) t
      (fun s => s.mu = some t ∧ s.drainMu = some t ∧ s.queue.current = none ∧
        ∀ n, s.queue.segs n ≠ none → n ∈ paths)
      (quarantineAll paths : SpoolM η θ Unit)
      (fun _ s => s.mu = some t ∧ s.drainMu = some t ∧ ∀ n, s.queue.segs n = none)
      fun _ s => s.mu = some t ∧ s.drainMu = some t := by
  induction paths with
  | nil =>
    refine Triple.ret (stable_both fun q _ _ => ∀ n, q.segs n = none) fun s _ h => ?_
    exact ⟨h.1, h.2.1, fun n => by_contra fun hn => by simpa using h.2.2.2 n hn⟩
  | cons path paths ih =>
    refine Triple.bind (Triple.pre (quarantinePathLocked_triple (J := fun cur => cur = none)
      (fun cur hcur => by simp [hcur]) (· ∈ paths)) fun s _ h => ?_) fun _ => ih
    exact ⟨h.1, h.2.1, h.2.2.1, fun n hn => List.mem_cons.1 (h.2.2.2 n hn)⟩

theorem mem_segments {n : SegName} : n ∈ s.segments ↔ n ∈ s.queue.names ∧ s.queue.segs n ≠ none := by
  simp [segments, List.mem_mergeSort, Option.isSome_iff_ne_none]

/-- After it no segment is left in the queue. -/
theorem quarantineLocked_triple :
    Triple (protocol U O) t (fun s => s.mu = some t ∧ s.drainMu = some t)
      (quarantineLocked : SpoolM η θ Unit)
      (fun _ s => s.mu = some t ∧ s.drainMu = some t ∧ ∀ n, s.queue.segs n = none)
      fun _ s => s.mu = some t ∧ s.drainMu = some t := by
  refine Triple.bind (sealLocked_triple stable_drainHeld fun _ h => h) fun _ => ?_
  have hnone := stable_both (U := U) (O := O) (t := t) fun q _ _ => q.current = none
  have hpaths := fun paths : List SegName => stable_both (U := U) (O := O) (t := t) fun q _ _ =>
    q.current = none ∧ ∀ n, q.segs n ≠ none → n ∈ paths
  refine Triple.bind (Q := fun paths s => s.mu = some t ∧ s.drainMu = some t ∧
    s.queue.current = none ∧ ∀ n, s.queue.segs n ≠ none → n ∈ paths)
    (Triple.pre (fileOp_triple hnone hpaths (fun _ => stable_bothHeld) (fun _ _ _ h => ⟨h.1, h.2.1⟩) ?_) ?_)
    quarantineAll_triple
  · rintro s a s' hi ⟨hmu, hdr, hcur⟩ hf
    cases hf
    exact ⟨.idle hi, hmu, hdr, hcur, fun n hn => mem_segments.2 ⟨hi.liveName n hn, hn⟩⟩
  · exact fun s _ h => ⟨h.1.1, h.2, h.1.2⟩

/-! ## Binding -/

theorem boundTo_of_bind (hi : (protocol U O).inv s) {b : SpoolBinding} (h : boundTo s.custody = some b) :
    b.origin ≠ "" := by
  cases hb : s.custody.bind with
  | none => simp [boundTo, hb] at h
  | some text =>
    obtain ⟨b', rfl, ho⟩ := hi.bound text hb
    simp only [boundTo, hb, Option.bind_some, unmarshal_binding, Option.some.injEq] at h
    exact h ▸ ho

theorem readBindLocked_triple :
    Triple (protocol U O) t (fun s => s.mu = some t ∧ s.drainMu = some t)
      (readBindLocked : SpoolM η θ (Option SpoolBinding))
      (fun existing s => s.mu = some t ∧ s.drainMu = some t ∧ boundTo s.custody = existing)
      fun _ s => s.mu = some t ∧ s.drainMu = some t := by
  refine fileOp_triple stable_bothHeld (fun b => stable_both fun _ _ c => boundTo c = b)
    (fun _ => stable_bothHeld) (fun _ _ _ h => h) ?_
  rintro s a s' hi ⟨hmu, hdr⟩ hf
  split at hf
  · rename_i hb
    cases hf
    exact ⟨.idle hi, hmu, hdr, by simp [boundTo, hb]⟩
  · rename_i text hb
    split at hf <;> cases hf
    rename_i b hu
    exact ⟨.idle hi, hmu, hdr, by simp [boundTo, hb, hu]⟩

/-- Everything in the queue may go where `b` says. -/
def Fits (U : URLs) (q : Queue) (b : SpoolBinding) : Prop :=
  ∀ w ∈ q.written, q.segs w.name ≠ none → Compatible U w.binding (some b)

theorem writeBindLocked_triple {b : SpoolBinding} (hb : b.origin ≠ "") :
    Triple (protocol U O) t (fun s => s.mu = some t ∧ s.drainMu = some t ∧ Fits U s.queue b)
      (writeBindLocked b : SpoolM η θ Unit) (fun _ s => s.mu = some t ∧ s.drainMu = some t)
      fun _ s => s.mu = some t ∧ s.drainMu = some t := by
  refine spoolReplace_triple (stable_both fun q _ _ => Fits U q b) (fun _ => stable_bothHeld)
    (fun _ => stable_bothHeld) (fun _ _ _ h => ⟨h.1, h.2.1⟩) fun s hi hs => ?_
  obtain ⟨hmu, hdr, hfits⟩ := hs
  exact ⟨allows_both hmu hdr (hi.bindTo hb hfits) List.prefix_rfl List.prefix_rfl List.prefix_rfl
    (fun _ _ => rfl) fun _ _ => rfl, ⟨hmu, hdr⟩, fun _ => ⟨hmu, hdr⟩⟩

/-- What fits the old binding fits the new one that does not clash with it. -/
theorem compatible_rebind {old : Option SpoolBinding} {b : SpoolBinding}
    {origin tenantID serverID : String} (hb : b.origin ≠ "")
    (hm : mismatch U b origin tenantID serverID = false) (h : Compatible U old (some b)) :
    Compatible U old (some (rebind b origin tenantID serverID)) := by
  intro b₀ hb₀
  obtain ⟨b', hb', horigin, htenant, hserver⟩ := h b₀ hb₀
  obtain rfl := Option.some.inj hb'
  simp only [mismatch, Bool.or_eq_false_iff, Bool.and_eq_false_iff, decide_eq_false_iff_not,
    ne_eq, not_not, hb, false_or, Bool.not_eq_eq_eq_not, Bool.not_false] at hm
  obtain ⟨⟨ho, ht⟩, hs⟩ := hm
  refine ⟨_, rfl, U.sameHubOrigin_trans horigin ho, ?_, ?_⟩
  · simp only [rebind]
    split_ifs with hempty
    · exact htenant
    · rcases ht with (ht | ht) | ht
      · exact .inl (htenant.elim id fun h0 => h0.trans ht)
      · exact absurd ht hempty
      · exact htenant.imp_right fun h0 => h0.trans ht
  · simp only [rebind]
    split_ifs with hempty
    · exact hserver
    · rcases hs with (hs | hs) | hs
      · exact .inl (hserver.elim id fun h0 => h0.trans hs)
      · exact absurd hs hempty
      · exact hserver.imp_right fun h0 => h0.trans hs

theorem bindLocked_triple (origin tenantID serverID : String) :
    Triple (protocol U O) t (fun s => s.mu = some t ∧ s.drainMu = some t)
      (bindLocked U origin tenantID serverID : SpoolM η θ Unit)
      (fun _ s => s.mu = some t ∧ s.drainMu = some t)
      fun _ s => s.mu = some t ∧ s.drainMu = some t := by
  have hboth := stable_bothHeld (U := U) (O := O) (t := t)
  refine Triple.bind (Q := fun _ s => s.mu = some t ∧ s.drainMu = some t)
    (Triple.read hboth (fun _ => hboth) (fun _ => hboth) fun _ _ h => h) fun closed => ?_
  refine Triple.bind (Q := fun _ s => s.mu = some t ∧ s.drainMu = some t)
    (Triple.failIf hboth hboth (fun _ _ _ h => h) fun _ _ _ h => h) fun _ => ?_
  refine Triple.bind (Q := fun _ s => canonicalHubURL origin ≠ "" ∧ s.mu = some t ∧
    s.drainMu = some t) (Triple.failIf ((Protocol.Stable.const _).and hboth) hboth
      (fun h _ _ hs => ⟨h, hs⟩) fun _ _ _ h => h) fun _ => Triple.assume fun horigin => ?_
  generalize canonicalHubURL origin = o at horigin ⊢
  refine Triple.bind readBindLocked_triple fun existing => ?_
  cases existing with
  | none =>
    refine (writeBindLocked_triple (b := ⟨o, tenantID, serverID⟩) horigin).pre fun s hi hs =>
      ⟨hs.1, hs.2.1, fun w hw hl b hb => ?_⟩
    obtain ⟨b', hb', -⟩ := hi.liveBinding w hw hl b hb
    simp [hs.2.2] at hb'
  | some b =>
    dsimp only
    split_ifs with hm
    · refine Triple.bind (quarantineLocked_triple.pre fun s _ h => ⟨h.1, h.2.1⟩) fun _ => ?_
      exact (writeBindLocked_triple (b := ⟨o, tenantID, serverID⟩) horigin).pre fun s _ hs =>
        ⟨hs.1, hs.2.1, fun w _ hl => absurd (hs.2.2 w.name) hl⟩
    · refine (writeBindLocked_triple (b := rebind b o tenantID serverID) horigin).pre fun s hi hs =>
        ⟨hs.1, hs.2.1, fun w hw hl => ?_⟩
      have hfit := hi.liveBinding w hw hl
      rw [hs.2.2] at hfit
      exact compatible_rebind (boundTo_of_bind hi hs.2.2) (by simpa using hm) hfit

/-- A section under both mutexes. -/
theorem bothLocked_triple {p : SpoolM η θ α}
    (hp : Triple (protocol U O) t (fun s => s.mu = some t ∧ s.drainMu = some t) p
      (fun _ s => s.mu = some t ∧ s.drainMu = some t)
      fun _ s => s.mu = some t ∧ s.drainMu = some t) :
    Triple (protocol U O) t (fun _ => True) (drainLocked t id (locked t p)) (fun _ _ => True)
      fun _ _ => True := by
  have htrue := Protocol.Stable.const (Γ := protocol U O) (t := t) True
  refine drainLocked_triple htrue (fun _ => htrue) (fun _ => htrue) (fun _ _ h => h)
    (fun _ _ _ h => h) (fun _ _ _ h => h) ?_
  have hdr := (stable_drainHeld (U := U) (O := O) (t := t)).and htrue
  refine locked_triple hdr (fun _ => hdr) (fun _ => hdr) (fun _ _ h => h) (fun _ _ _ h => h)
    (fun _ _ _ h => h) ?_
  exact hp.conseq (fun s _ h => ⟨h.1, h.2.1⟩) (fun _ s _ h => ⟨h.1, h.2, trivial⟩)
    fun _ s _ h => ⟨h.1, h.2, trivial⟩

theorem bindDestination_triple (origin tenantID serverID : String) :
    Triple (protocol U O) t (fun _ => True)
      (bindDestination U t origin tenantID serverID : SpoolM η θ Unit) (fun _ _ => True)
      fun _ _ => True :=
  bothLocked_triple (bindLocked_triple origin tenantID serverID)

/-! ## Closing -/

theorem close_triple :
    Triple (protocol U O) t (fun _ => True) (close t : SpoolM η θ Unit) (fun _ _ => True)
      fun _ _ => True := by
  refine bothLocked_triple ?_
  have hboth := stable_bothHeld (U := U) (O := O) (t := t)
  refine Triple.bind (Q := fun _ s => s.mu = some t ∧ s.drainMu = some t)
    (Triple.read hboth (fun _ => hboth) (fun _ => hboth) fun _ _ h => h) fun closed => ?_
  split_ifs
  · exact Triple.ret hboth fun _ _ h => h
  refine Triple.bind (Q := fun _ s => s.mu = some t ∧ s.drainMu = some t)
    (Triple.modify hboth hboth (fun _ => hboth) fun s hi hs => ⟨?_, hs⟩) fun _ => ?_
  · refine allows_queue hs.1 ?_ List.prefix_rfl List.prefix_rfl List.prefix_rfl rfl
    exact { hi with }
  have hseal : Triple (protocol U O) t (fun s => s.mu = some t ∧ s.drainMu = some t)
      (sealLocked : SpoolM η θ Unit) (fun _ s => s.mu = some t ∧ s.drainMu = some t)
      fun _ s => s.mu = some t ∧ s.drainMu = some t :=
    (sealLocked_triple stable_drainHeld fun _ h => h).conseq (fun _ _ h => h)
      (fun _ _ _ h => ⟨h.1.1, h.2⟩) fun _ _ _ h => h
  refine Triple.bind (Q := fun _ s => s.mu = some t ∧ s.drainMu = some t)
    (hseal.attempt.conseq (fun _ _ h => h) (fun r _ _ h => by cases r <;> exact h)
      fun _ _ _ h => h) fun r => ?_
  refine Triple.bind (Q := fun _ s => s.mu = some t ∧ s.drainMu = some t)
    ((touch_triple hboth).attempt.conseq (fun _ _ h => h) (fun r _ _ h => by cases r <;> exact h)
      fun _ _ _ h => h) fun r' => ?_
  cases r with
  | ok a =>
    cases r' with
    | ok a' => exact Triple.ret hboth fun _ _ h => h
    | error e => exact Triple.fail hboth fun _ _ h => h
  | error e => exact Triple.fail hboth fun _ _ h => h

end Spool

end WMonitor
