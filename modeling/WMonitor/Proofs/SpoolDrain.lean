import WMonitor.Proofs.SpoolBind
import WMonitor.Proofs.SpoolOrder

/-!
# Passes

A pass presents the segments that it listed one after the other, and each from its checkpoint on. What
it has presented and what it still plans to present make up what was waiting when it began. A checkpoint
is moved only behind entries that were delivered, and a segment is removed only when all of its entries
were.
-/

namespace WMonitor

namespace Spool

open Prog

variable {η θ : Type} {U : URLs} {O : Outside η} {t : ℕ} {s s' : Spool η} {n : SegName}
  {es : List SpoolEntry} {next upto : ℕ} {paths : List SegName}

/-- If no write has failed, the group was admitted when it was appended. -/
def Admitted (O : Outside η) (group : List SpoolEntry) (s : Spool η) : Prop :=
  s.queue.torn = [] → ∀ x ∈ group, ∃ y, O.admits y s.env ∧ x = y.stored

/-- What a pass relies on: its context changes nothing, and its callback only the environment, which
has taken a group when the callback succeeds. -/
structure Draining.Sound (D : Draining η θ) (U : URLs) (O : Outside η) (t : ℕ) : Prop where
  ctx : ∀ F, (protocol U O).Stable t F → Triple (protocol U O) t F D.ctx (fun _ => F) fun _ => F
  deliver : ∀ F group, (protocol U O).Stable t F → (∀ s e, F s → F { s with env := e }) →
    (∀ s, (protocol U O).inv s → F s → Admitted O group s) →
    Triple (protocol U O) t F (D.deliver group) (fun _ s => F s ∧ O.taken group s.env) fun _ => F

/-! ## What a pass knows -/

/-- What the pass has presented and what it plans make up what was waiting. -/
def Planned (t : ℕ) (plan : List (SegName × ℕ × SpoolEntry)) (p : Progress) (c : Custody) : Prop :=
  ∀ pass ∈ c.passes, pass.op = t → presentedBy p t ++ plan = pass.pending.map Written.place

/-- The pass has yet to drain the segments `paths`. -/
structure Before (t : ℕ) (paths : List SegName) (s : Spool η) : Prop where
  held : s.drainMu = some t
  nodup : paths.Nodup
  listed : ∀ n ∈ paths, n ∈ listed s.custody
  begun : ∃ pass ∈ s.custody.passes, pass.op = t
  planned : Regular s.queue → Planned t
    (paths.flatMap (planOf s.progress (view s.queue s.custody))) s.progress s.custody

/-- The pass is in the segment `n` with the entries `es`: `next` of them were delivered, and `upto` of
them presented. -/
structure Within (t : ℕ) (n : SegName) (es : List SpoolEntry) (next upto : ℕ) (paths : List SegName)
    (s : Spool η) : Prop where
  held : s.drainMu = some t
  nodup : (n :: paths).Nodup
  listed : ∀ m ∈ n :: paths, m ∈ listed s.custody
  begun : ∃ pass ∈ s.custody.passes, pass.op = t
  reads : ∃ content, s.queue.segs n = some content ∧ decodeSegment content = some es
  done : ∀ i < next, ∀ x, es[i]? = some x → DeliveredAt s.progress n i x
  planned : Regular s.queue → Planned t (places n upto (es.drop upto) ++
    paths.flatMap (planOf s.progress (view s.queue s.custody))) s.progress s.custody

theorem view_segs {q q' : Queue} {c : Custody} (h : view q' c = view q c) (hn : n ∈ listed c) :
    q'.segs n = q.segs n := by
  have hv := congrFun h n
  simp only [view, if_pos hn, Option.some.injEq, SealedView.mk.injEq] at hv
  exact hv.1

theorem stable_before : (protocol U O).Stable t (Before t paths) := by
  rintro s s' - - h hb
  obtain ⟨hdr, hp, hc, hv⟩ := h.drainMu hb.held
  refine ⟨hdr, hb.nodup, fun m hm => ?_, ?_, fun hr => ?_⟩
  · rw [hc]
    exact hb.listed m hm
  · rw [hc]
    exact hb.begun
  · rw [hv, hp, hc]
    exact hb.planned (h.regular hr)

theorem stable_within : (protocol U O).Stable t (Within t n es next upto paths) := by
  rintro s s' - - h hb
  obtain ⟨hdr, hp, hc, hv⟩ := h.drainMu hb.held
  refine ⟨hdr, hb.nodup, fun m hm => ?_, ?_, ?_, fun i hi x hx => ?_, fun hr => ?_⟩
  · rw [hc]
    exact hb.listed m hm
  · rw [hc]
    exact hb.begun
  · rw [hc] at hv
    rw [view_segs hv (hb.listed n List.mem_cons_self)]
    exact hb.reads
  · rw [hp]
    exact hb.done i hi x hx
  · rw [hv, hp, hc]
    exact hb.planned (h.regular hr)

theorem stable_presented (g : Option SpoolBinding → Presented) :
    (protocol U O).Stable t fun s =>
      s.drainMu = some t ∧ g (boundTo s.custody) ∈ s.progress.presented :=
  stable_drain fun p c _ => g (boundTo c) ∈ p.presented

theorem stable_taken (group : List SpoolEntry) :
    (protocol U O).Stable t fun s => O.taken group s.env :=
  fun _ _ _ _ h ht => O.takenSees h.env ht

theorem planOf_congr {p p' : Progress} {v v' : SegName → Option SealedView}
    (h : ∀ m ∈ paths, p'.acks m = p.acks m ∧
      (v' m).elim [] SealedView.entries = (v m).elim [] SealedView.entries) :
    paths.flatMap (planOf p' v') = paths.flatMap (planOf p v) := by
  refine List.flatMap_congr fun m hm => ?_
  rw [planOf, planOf, (h m hm).2, acked, acked, (h m hm).1]

theorem view_entries {q q' : Queue} {c : Custody} (h : q'.written = q.written) (m : SegName) :
    (view q' c m).elim [] SealedView.entries = (view q c m).elim [] SealedView.entries := by
  unfold view
  rw [h]
  split_ifs <;> rfl

/-! ## One group -/

theorem Inv.admitted_presented (h : (protocol U O).inv s) {g : Presented}
    (hg : g ∈ s.progress.presented) : Admitted O g.entries s := by
  intro ht x hx
  have hmem := (h.presented g hg (by simp [ht])).subset hx
  obtain ⟨w, hw, rfl⟩ := List.mem_map.1 (List.mem_of_mem_drop hmem)
  exact ⟨w.entry, h.admitted w (List.mem_of_mem_filter hw), rfl⟩

theorem present_triple {group : List SpoolEntry} {k : ℕ} (hg : group = (es.drop next).take k) :
    Triple (protocol U O) t (Within t n es next next paths)
      (present t n next group : SpoolM η θ Unit)
      (fun _ s => Within t n es next (next + group.length) paths s ∧ s.drainMu = some t ∧
        ⟨t, n, next, group, boundTo s.custody⟩ ∈ s.progress.presented)
      fun _ s => s.drainMu = some t := by
  refine Triple.modify stable_within (stable_within.and (stable_presented fun b => ⟨t, n, next, group, b⟩))
    (fun _ => stable_drainHeld) fun s hi hs => ?_
  have hsplit : places n next (es.drop next) = places n next group ++
      places n (next + group.length) (es.drop (next + group.length)) := by
    rw [← places_append]
    congr 1
    rw [← List.drop_drop, hg, List.length_take]
    rcases le_total k (es.drop next).length with hk | hk
    · rw [min_eq_left hk, List.take_append_drop]
    · rw [min_eq_right hk, List.take_of_length_le hk, List.drop_length, List.append_nil]
  have hlisted := hs.listed n List.mem_cons_self
  obtain ⟨content, hseg, hdec⟩ := hs.reads
  refine ⟨allows_progress hs.held ?_ fun u hu => ?_, ⟨hs.held, hs.nodup, hs.listed, hs.begun,
    ⟨content, hseg, hdec⟩, fun i hi x hx => (hs.done i hi x hx).mono fun _ h => h, fun hr => ?_⟩,
    hs.held, List.mem_append_right _ (List.mem_singleton_self _)⟩
  · refine hi.present hlisted (by simp [hseg]) rfl (fun hn => ?_) fun hr pass hpass hop => ?_
    · rw [← hi.decoded hn (.inl hseg) hdec, hg]
      exact List.take_prefix _ _
    have hplan := hs.planned hr pass hpass hop
    rw [hsplit, List.append_assoc, ← List.append_assoc] at hplan
    exact ⟨_, hplan⟩
  · simp [List.filter_append, hu.symm]
  · intro pass hpass hop
    have hplan := hs.planned hr pass hpass hop
    rw [hsplit, List.append_assoc, ← List.append_assoc] at hplan
    rw [← hplan]
    refine congrArg₂ _ ?_ rfl
    change presentedBy { s.progress with presented := s.progress.presented ++ [_] } t = _
    rw [presentedBy_append, if_pos rfl]

theorem settle_triple {group : List SpoolEntry} {k : ℕ} (hg : group = (es.drop next).take k) :
    Triple (protocol U O) t
      (fun s => (Within t n es next upto paths s ∧ s.drainMu = some t ∧
        ⟨t, n, next, group, boundTo s.custody⟩ ∈ s.progress.presented) ∧ O.taken group s.env)
      (settle t n next group : SpoolM η θ Unit)
      (fun _ => Within t n es (next + group.length) upto paths) fun _ s => s.drainMu = some t := by
  refine Triple.modify ((stable_within.and (stable_presented fun b => ⟨t, n, next, group, b⟩)).and
    (stable_taken group)) stable_within (fun _ => stable_drainHeld) ?_
  rintro s hi ⟨⟨hs, -, hg'⟩, htaken⟩
  refine ⟨allows_progress hs.held (hi.settle hg' htaken) fun u hu => rfl, hs.held, hs.nodup,
    hs.listed, hs.begun, hs.reads, fun i hlt x hx => ?_, hs.planned⟩
  by_cases hlt' : i < next
  · exact (hs.done i hlt' x hx).mono fun g hg => List.mem_append_left _ hg
  · refine ⟨_, List.mem_append_right _ (List.mem_singleton_self _), rfl, Nat.not_lt.1 hlt', ?_⟩
    have hlen : i - next < group.length := by omega
    rw [hg, List.length_take, lt_min_iff] at hlen
    dsimp only
    rw [hg, List.getElem?_take_of_lt hlen.1, List.getElem?_drop]
    rwa [show next + (i - next) = i by omega]

theorem writeAck_triple (hle : next ≤ es.length) :
    Triple (protocol U O) t (Within t n es next next paths) (writeAck n next : SpoolM η θ Unit)
      (fun _ => Within t n es next next paths) fun _ s => s.drainMu = some t := by
  refine spoolReplace_triple stable_within (fun _ => stable_within) (fun _ => stable_drainHeld)
    (fun _ _ _ h => h.held) fun s hi hs => ?_
  refine ⟨allows_progress hs.held ?_ fun _ _ => rfl, ?_, fun _ => hs.held⟩
  · obtain ⟨content', hc', hd⟩ := hs.reads
    refine hi.writeAck (hs.listed n List.mem_cons_self) (by simp [hc']) fun content hc => ?_
    obtain rfl := Option.some.inj (hc.symm.trans hc')
    exact ⟨es, hd, hle, hs.done⟩
  · refine ⟨hs.held, hs.nodup, hs.listed, hs.begun, hs.reads, hs.done, fun hr pass hpass hop => ?_⟩
    rw [← hs.planned hr pass hpass hop]
    refine congrArg₂ _ rfl (congrArg₂ _ rfl (planOf_congr fun m hm => ⟨?_, rfl⟩))
    have hmn : m ≠ n := by
      rintro rfl
      exact (List.nodup_cons.1 hs.nodup).1 hm
    exact Function.update_of_ne hmn _ _

/-! ## One segment -/

variable {D : Draining η θ}

theorem drop_length_take {β : Type} (l : List β) (k : ℕ) : l.drop (l.take k).length = l.drop k := by
  rcases le_total k l.length with hk | hk
  · rw [List.length_take, min_eq_left hk]
  · rw [List.length_take, min_eq_right hk, List.drop_length, List.drop_of_length_le hk]

/-- By induction on how much is left: when the loop ends, everything was delivered. -/
theorem deliverFrom_triple (hD : D.Sound U O t) (fuel : ℕ) (hle : next ≤ es.length)
    (hfuel : es.length ≤ next + fuel) (delivered : ℕ) :
    Triple (protocol U O) t (Within t n es next next paths)
      (D.deliverFrom t n fuel next (es.drop next) delivered)
      (fun _ => Within t n es es.length es.length paths) fun _ s => s.drainMu = some t := by
  induction fuel generalizing next delivered with
  | zero =>
    obtain rfl : next = es.length := by omega
    exact Triple.ret stable_within fun _ _ h => h
  | succ fuel ih =>
    cases hrest : es.drop next with
    | nil =>
      obtain rfl : next = es.length := le_antisymm hle (List.drop_eq_nil_iff.1 hrest)
      exact Triple.ret stable_within fun _ _ h => h
    | cons x xs =>
      rw [Draining.deliverFrom, ← hrest]
      · refine Triple.bind ((hD.ctx _ stable_within).conseq (fun _ _ h => h) (fun _ _ _ h => h)
          fun _ _ _ h => h.held).mapError fun _ => ?_
        refine Triple.bind (Q := fun _ s => D.group (es.drop next) ≠ 0 ∧
          Within t n es next next paths s) (Triple.failIf ((Protocol.Stable.const _).and stable_within)
          stable_drainHeld (fun hne _ _ h => ⟨hne, h⟩) fun _ _ _ h => h.held) fun _ =>
          Triple.assume fun hne => ?_
        generalize hk : D.group (es.drop next) = k at hne ⊢
        generalize hgroup : (es.drop next).take k = group
        have hpos : 0 < group.length := by
          rw [← hgroup, List.length_take, hrest, List.length_cons]
          omega
        have hle' : next + group.length ≤ es.length := by
          rw [← hgroup, List.length_take, List.length_drop]
          omega
        refine Triple.bind (present_triple hgroup.symm).mapError fun _ => ?_
        have hwithin : (protocol U O).Stable t (Within t n es next (next + group.length) paths) :=
          stable_within
        have hdel := hD.deliver _ group (hwithin.and
          (stable_presented fun b => ⟨t, n, next, group, b⟩)) (fun s e h =>
            ⟨⟨h.1.held, h.1.nodup, h.1.listed, h.1.begun, h.1.reads, h.1.done, h.1.planned⟩, h.2⟩)
          fun s hi h => Inv.admitted_presented hi h.2.2
        refine Triple.bind (Triple.mapError (hdel.conseq (fun _ _ h => h) (fun _ _ _ h => h)
          fun _ _ _ h => h.1.held)) fun _ => ?_
        refine Triple.bind (settle_triple hgroup.symm).mapError fun _ => ?_
        refine Triple.bind (writeAck_triple hle').mapError fun _ => ?_
        have hdrop : (es.drop next).drop k = es.drop (next + group.length) := by
          rw [← List.drop_drop, ← hgroup, drop_length_take]
        rw [hdrop]
        exact ih hle' (by omega) _
      · simp

/-- The pass has read the entries `es` of the next segment. -/
structure Opened (t : ℕ) (n : SegName) (es : List SpoolEntry) (paths : List SegName)
    (s : Spool η) : Prop where
  before : Before t (n :: paths) s
  reads : ∃ content, s.queue.segs n = some content ∧ decodeSegment content = some es

theorem stable_opened : (protocol U O).Stable t (Opened t n es paths) := by
  rintro s s' hi hi' h ⟨hb, hr⟩
  obtain ⟨-, -, hc, hv⟩ := h.drainMu hb.held
  rw [hc] at hv
  rw [← view_segs hv (hb.listed n List.mem_cons_self)] at hr
  exact ⟨stable_before hi hi' h hb, hr⟩

theorem readSegment_triple :
    Triple (protocol U O) t (Before t (n :: paths)) (readSegment n : SpoolM η θ _)
      (fun es => Opened t n es paths) fun _ => Before t (n :: paths) := by
  refine fileOp_triple stable_before (fun _ => stable_opened) (fun _ => stable_before)
    (fun _ _ _ h => h) ?_
  intro s a s' hi hs hf
  split at hf
  · cases hf
  · rename_i content hseg
    split at hf <;> cases hf
    exact ⟨.idle hi, hs, content, hseg, by assumption⟩

theorem Opened.within (h : Opened t n es paths s) (hi : (protocol U O).inv s)
    (hall : ∀ i < acked s.progress n, ∀ x, es[i]? = some x → DeliveredAt s.progress n i x) :
    Within t n es (acked s.progress n) (acked s.progress n) paths s := by
  obtain ⟨hb, content, hseg, hdec⟩ := h
  refine ⟨hb.held, hb.nodup, hb.listed, hb.begun, ⟨content, hseg, hdec⟩, hall, fun hr => ?_⟩
  have hplan := hb.planned hr
  rw [List.flatMap_cons] at hplan
  convert hplan using 2
  rw [planOf_listed (hb.listed n List.mem_cons_self), hi.decoded (by simp [hr.1]) (.inl hseg) hdec]
  exact hi.places_drop n _

/-- The segment is planned from its checkpoint on. -/
theorem checkpoint_triple :
    Triple (protocol U O) t (Opened t n es paths) (checkpoint n es.length : SpoolM η θ ℕ)
      (fun next s => next ≤ es.length ∧ Within t n es next next paths s)
      fun _ s => s.drainMu = some t := by
  refine fileOp_triple stable_opened (fun next => (Protocol.Stable.const _).and stable_within)
    (fun _ => stable_drainHeld) (fun _ _ _ h => h.before.held) ?_
  intro s a s' hi hs hf
  split at hf
  · rename_i hack
    cases hf
    have h0 := acked_of_none hack
    have hw := hs.within hi (by omega)
    rw [h0] at hw
    exact ⟨.idle hi, Nat.zero_le _, hw⟩
  · rename_i text hack
    obtain ⟨content, hseg, hdec⟩ := hs.reads
    obtain ⟨hatoi, hle, hall⟩ := hi.ack_acked hack hseg hdec
    rw [hatoi] at hf
    dsimp only at hf
    split_ifs at hf
    cases hf
    exact ⟨.idle hi, hle, hs.within hi hall⟩

/-- Everything in the segment was delivered, so it may go. -/
theorem removeSegment_triple :
    Triple (protocol U O) t (fun s => s.mu = some t ∧ Within t n es es.length es.length paths s)
      (removeSegment n : SpoolM η θ Unit)
      (fun _ s => s.mu = some t ∧ n ∉ paths ∧ Before t paths s)
      fun _ s => s.mu = some t ∧ s.drainMu = some t := by
  refine fileOp_triple (stable_muHeld.and stable_within)
    (fun _ => stable_muHeld.and ((Protocol.Stable.const _).and stable_before))
    (fun _ => stable_bothHeld) (fun _ _ _ h => ⟨h.1, h.2.held⟩) ?_
  rintro s a s' hi ⟨hmu, hs⟩ hf
  obtain ⟨content, hseg, hdec⟩ := hs.reads
  rw [hseg] at hf
  cases hf
  refine ⟨allows_both hmu hs.held (hi.remove (hs.listed n List.mem_cons_self) ?_) List.prefix_rfl
    List.prefix_rfl List.prefix_rfl (fun _ _ => rfl) fun _ _ => rfl, hmu,
    (List.nodup_cons.1 hs.nodup).1, hs.held, (List.nodup_cons.1 hs.nodup).2,
    fun m hm => hs.listed m (List.mem_cons_of_mem _ hm), hs.begun, fun hr pass hpass hop => ?_⟩
  · intro hn w hw
    have hat := hi.entry_at hw
    have hes := hi.decoded hn (.inl hseg) hdec
    refine hs.done w.index ?_ _ ?_
    · rw [hes, List.length_map]
      exact (List.getElem?_eq_some_iff.1 hat).1
    · rw [hes, List.getElem?_map, hat]
      rfl
  · have hplan := hs.planned hr pass hpass hop
    rw [List.drop_length, places, List.nil_append] at hplan
    rw [← hplan]
    refine congrArg₂ _ rfl (planOf_congr fun m _ => ⟨rfl, ?_⟩)
    apply view_entries
    rfl

theorem removeAck_triple :
    Triple (protocol U O) t (fun s => s.mu = some t ∧ n ∉ paths ∧ Before t paths s)
      (removeAck n : SpoolM η θ Unit) (fun _ s => s.mu = some t ∧ Before t paths s)
      fun _ s => s.mu = some t ∧ s.drainMu = some t := by
  refine fileOp_triple (stable_muHeld.and ((Protocol.Stable.const _).and stable_before))
    (fun _ => stable_muHeld.and stable_before) (fun _ => stable_bothHeld)
    (fun _ _ _ h => ⟨h.1, h.2.2.held⟩) ?_
  rintro s a s' hi ⟨hmu, hn, hs⟩ hf
  cases hf
  refine ⟨allows_progress hs.held (hi.dropAck n fun _ _ h => .inr h) fun _ _ => rfl, hmu, hs.held,
    hs.nodup, hs.listed, hs.begun, fun hr pass hpass hop => ?_⟩
  rw [← hs.planned hr pass hpass hop]
  refine congrArg₂ _ rfl (planOf_congr fun m hm => ⟨?_, rfl⟩)
  have hmn : m ≠ n := by
    rintro rfl
    exact hn hm
  exact Function.update_of_ne hmn _ _

/-- A segment that cannot be read is quarantined. -/
theorem corrupt_triple :
    Triple (protocol U O) t (Before t (n :: paths))
      (locked t do
        recordLossLocked .corruptSegment
        quarantinePathLocked n : SpoolM η θ Unit)
      (fun _ s => s.drainMu = some t) fun _ s => s.drainMu = some t := by
  refine locked_triple stable_before (fun _ => stable_drainHeld) (fun _ => stable_drainHeld)
    (fun s m h => ⟨h.held, h.nodup, h.listed, h.begun, h.planned⟩) (fun _ _ _ h => h) (fun _ _ _ h => h) ?_
  refine Triple.bind (Q := fun _ s => s.mu = some t ∧ Before t (n :: paths) s)
    ((recordLossLocked_triple _ stable_before fun s l h =>
      ⟨h.held, h.nodup, h.listed, h.begun, h.planned⟩).conseq
      (fun _ _ h => h) (fun _ _ _ h => h) fun _ _ _ h => ⟨h.1, h.2.held⟩) fun _ => ?_
  refine (quarantinePathLocked_triple (J := fun cur => cur ≠ some n) (fun _ h => h)
    fun _ => True).conseq (fun s hi h => ⟨h.1, h.2.held, fun hcur => ?_, fun _ _ => .inr trivial⟩)
    (fun _ _ _ h => ⟨h.1, h.2.1⟩) fun _ _ _ h => h
  exact (hi.current n hcur).2.1 (h.2.listed n List.mem_cons_self)

theorem drainPath_triple (hD : D.Sound U O t) (delivered : ℕ) :
    Triple (protocol U O) t (Before t (n :: paths)) (D.drainPath t n delivered)
      (fun _ => Before t paths) fun _ s => s.drainMu = some t := by
  refine Triple.bind readSegment_triple.attempt fun r => ?_
  cases r with
  | error e =>
    refine Triple.bind corrupt_triple.mapError fun _ => ?_
    exact Triple.fail stable_drainHeld fun _ _ h => h
  | ok es =>
    refine Triple.bind checkpoint_triple.mapError fun next => Triple.assume fun hle => ?_
    refine Triple.bind (deliverFrom_triple hD _ hle (by omega) delivered) fun delivered => ?_
    refine Triple.bind (Q := fun _ => Before t paths) (Triple.mapError (locked_triple stable_within
      (fun _ => stable_before) (fun _ => stable_drainHeld)
      (fun s m h => ⟨h.held, h.nodup, h.listed, h.begun, h.reads, h.done, h.planned⟩)
      (fun _ s m h => ⟨h.held, h.nodup, h.listed, h.begun, h.planned⟩) (fun _ _ _ h => h) ?_)) fun _ =>
      Triple.ret stable_before fun _ _ h => h
    refine Triple.bind removeSegment_triple fun _ => ?_
    refine Triple.bind ((touch_triple (stable_muHeld.and ((Protocol.Stable.const _).and
      stable_before))).conseq (fun _ _ h => h) (fun _ _ _ h => h)
      fun _ _ _ h => ⟨h.1, h.2.2.held⟩) fun _ => ?_
    exact removeAck_triple

theorem drainPaths_triple (hD : D.Sound U O t) (paths : List SegName) (delivered : ℕ) :
    Triple (protocol U O) t (Before t paths) (D.drainPaths t paths delivered)
      (fun _ => Before t []) fun _ s => s.drainMu = some t := by
  induction paths generalizing delivered with
  | nil => exact Triple.ret stable_before fun _ _ h => h
  | cons n paths ih =>
    refine Triple.bind ((hD.ctx _ stable_before).conseq (fun _ _ h => h) (fun _ _ _ h => h)
      fun _ _ _ h => h.held).mapError fun _ => ?_
    exact Triple.bind (drainPath_triple hD delivered) ih

/-! ## A pass -/

/-- The call `t` has done nothing yet. -/
def Fresh (t : ℕ) (s : Spool η) : Prop :=
  s.progress.presented.filter (fun g => g.op = t) = [] ∧
    s.custody.passes.filter (fun g => g.op = t) = []

theorem Sees.fresh (h : Sees O t s s') (hf : Fresh t s) : Fresh t s' :=
  ⟨h.presented.trans hf.1, h.passes.trans hf.2⟩

/-- The pass has presented all that was waiting. -/
def Complete (t : ℕ) (s : Spool η) : Prop :=
  (∃ pass ∈ s.custody.passes, pass.op = t) ∧
    (Regular s.queue → Planned t [] s.progress s.custody)

theorem Sees.complete (h : Sees O t s s') (hc : Complete t s) : Complete t s' := by
  obtain ⟨⟨pass, hpass, hop⟩, hplan⟩ := hc
  refine ⟨⟨pass, List.mem_of_mem_filter (p := fun g => g.op = t) ?_, hop⟩,
    fun hr pass hpass hop => ?_⟩
  · rw [h.passes]
    simp [hpass, hop]
  · have hmem : pass ∈ s'.custody.passes.filter fun g => g.op = t := by simp [hpass, hop]
    rw [h.passes] at hmem
    rw [← hplan (h.regular hr) pass (List.mem_of_mem_filter hmem) hop]
    simp only [presentedBy, h.presented]

theorem beginPass_before (hi : (protocol U O).inv s) (hdr : s.drainMu = some t) (hf : Fresh t s)
    (hpaths : s.segments = paths) :
    Before t paths (s.onCustody fun c => { c with passes := c.passes ++ [⟨t, paths, s.pending⟩] }) := by
  have hl : ∀ n ∈ paths, n ∈ listed { s.custody with
      passes := s.custody.passes ++ [⟨t, paths, s.pending⟩] } := by
    intro n hn
    simp [listed, hn]
  refine ⟨hdr, hpaths ▸ nodup_segments hi, hl,
    ⟨_, List.mem_append_right _ (List.mem_singleton_self _), rfl⟩, fun hr pass hpass hop => ?_⟩
  have hp : pass = ⟨t, paths, s.pending⟩ := by
    rcases List.mem_append.1 hpass with hpass | hpass
    · have : pass ∈ s.custody.passes.filter fun g => g.op = t := by simp [hpass, hop]
      rw [hf.2] at this
      cases this
    · exact List.mem_singleton.1 hpass
  have hnone : presentedBy s.progress t = [] := by simp [presentedBy, hf.1]
  have hpending : s.pending.map Written.place = paths.flatMap fun n =>
      ((entriesOf s.queue.written n).drop (acked s.progress n)).map Written.place := by
    rw [pending_eq hi, ← segments_eq (s := s) hr, hpaths, List.map_flatMap]
  change presentedBy s.progress t ++ _ = _
  rw [hnone, List.nil_append, hp]
  exact (List.flatMap_congr fun n hn => planOf_listed (hl n hn)).trans hpending.symm

theorem pass_triple (hD : D.Sound U O t) :
    Triple (protocol U O) t (Fresh t) (D.pass t) (fun _ => Complete t) fun _ _ => True := by
  have hfresh : (protocol U O).Stable t (Fresh t) := fun _ _ _ _ h hf => h.fresh hf
  have hcomplete : (protocol U O).Stable t (Complete t) := fun _ _ _ _ h hc => h.complete hc
  have htrue := Protocol.Stable.const (Γ := protocol U O) (t := t) True
  have hdr := (stable_drainHeld (U := U) (O := O) (t := t)).and hfresh
  refine drainLocked_triple hfresh (fun _ => hcomplete) (fun _ => htrue) (fun _ _ h => h)
    (fun _ _ _ h => h) (fun _ _ _ h => h) ?_
  refine Triple.bind (Q := fun paths => Before t paths) (Triple.mapError (locked_triple hdr
    (fun _ => stable_before) (fun _ => stable_drainHeld.and htrue) (fun _ _ h => h)
    (fun _ s m h => ⟨h.held, h.nodup, h.listed, h.begun, h.planned⟩) (fun _ _ _ h => h) ?_)) fun paths => ?_
  · have hmu := (stable_muHeld (U := U) (O := O) (t := t)).and hdr
    have hE := fun _ : SpoolError => (stable_muHeld (U := U) (O := O) (t := t)).and
      (stable_drainHeld.and htrue)
    refine Triple.bind (Q := fun _ s => s.mu = some t ∧ s.drainMu = some t ∧ Fresh t s)
      (Triple.read hmu (fun _ => hmu) hE fun _ _ h => h) fun closed => ?_
    refine Triple.bind (Q := fun _ s => s.mu = some t ∧ s.drainMu = some t ∧ Fresh t s)
      (Triple.failIf hmu (hE .closed) (fun _ _ _ h => h) fun _ _ _ h => ⟨h.1, h.2.1, trivial⟩) fun _ => ?_
    refine Triple.bind ((sealLocked_triple hdr fun _ h => h).conseq (fun _ _ h => h) (fun _ _ _ h => h)
      fun _ _ _ h => ⟨h.1, h.2.1, trivial⟩) fun _ => ?_
    have hnone := (stable_mu (U := U) (O := O) (t := t) fun q _ => q.current = none).and hdr
    have hsegs := fun paths => ((stable_mu (U := U) (O := O) (t := t) fun q _ => q.current = none ∧
      (q.names.filter fun n => (q.segs n).isSome).mergeSort
        (fun a b => decide (a.fileName ≤ b.fileName)) = paths).and hdr)
    refine Triple.bind (Q := fun paths s => (s.mu = some t ∧ s.queue.current = none ∧
      s.segments = paths) ∧ s.drainMu = some t ∧ Fresh t s) (fileOp_triple hnone hsegs hE
      (fun _ _ _ h => ⟨h.1.1, h.2.1, trivial⟩) ?_) fun paths => ?_
    · rintro s a s' hi hs hf
      cases hf
      exact ⟨.idle hi, ⟨hs.1.1, hs.1.2, rfl⟩, hs.2⟩
    refine Triple.bind (Q := fun _ s => s.mu = some t ∧ Before t paths s)
      (Triple.modify (hsegs paths) (stable_muHeld.and stable_before) hE ?_) fun _ =>
      Triple.ret (stable_muHeld.and stable_before) fun _ _ h => h
    rintro s hi ⟨⟨hmu, hcur, hpaths⟩, hdr, hf⟩
    refine ⟨allows_both hmu hdr (hi.beginPass hcur (fun n hn => ?_) hf.1 _) List.prefix_rfl
      List.prefix_rfl List.prefix_rfl (fun _ _ => rfl) fun u hu => ?_, hmu,
      beginPass_before hi hdr hf hpaths⟩
    · rw [← hpaths] at hn
      exact (mem_segments.1 hn).1
    · simp [hu.symm]
  · exact (drainPaths_triple hD paths 0).conseq (fun _ _ h => h)
      (fun _ s _ h => ⟨h.held, h.begun, h.planned⟩) fun _ _ _ h => ⟨h, trivial⟩

end Spool

end WMonitor
