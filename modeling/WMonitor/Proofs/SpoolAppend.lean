import WMonitor.Proofs.SpoolRules

/-!
# Append

`append` keeps the protocol, and a call that returned without an error has written its record.
-/

namespace WMonitor

namespace Spool

open Prog

variable {η θ α : Type} {U : URLs} {O : Outside η} {t : ℕ} {s s' : Spool η}

/-- Under `mu`, with anything else that sealing keeps. -/
theorem sealLocked_triple {F : Spool η → Prop} (hF : (protocol U O).Stable t F)
    (hkeep : ∀ s, F s → F (s.onQueue fun q => { q with current := none, curSize := 0 })) :
    Triple (protocol U O) t (fun s => s.mu = some t ∧ F s) (sealLocked : SpoolM η θ Unit)
      (fun _ s => (s.mu = some t ∧ s.queue.current = none) ∧ F s)
      fun _ s => s.mu = some t ∧ F s := by
  have hmu := stable_muHeld (U := U) (O := O) (t := t)
  have hcur := fun cur => (stable_mu (U := U) (O := O) (t := t) fun q _ => q.current = cur).and hF
  refine Triple.bind (Q := fun cur s => (s.mu = some t ∧ s.queue.current = cur) ∧ F s)
    (Triple.read (hmu.and hF) hcur (fun _ => hmu.and hF) fun s _ h => ⟨⟨h.1, rfl⟩, h.2⟩)
    fun cur => ?_
  cases cur with
  | none => exact Triple.ret (hcur none) fun _ _ h => h
  | some n =>
    refine Triple.bind ((touch_triple (hmu.and hF)).pre fun s _ h => ⟨h.1.1, h.2⟩) fun _ => ?_
    have hallow : ∀ s, (protocol U O).inv s → s.mu = some t →
        (protocol U O).Allows t s (s.onQueue fun q => { q with current := none, curSize := 0 }) :=
      fun s hi hs => allows_queue hs (Inv.seal hi) List.prefix_rfl List.prefix_rfl List.prefix_rfl rfl
    refine Triple.act (hmu.and hF) (fun _ => hcur none) (fun _ => hmu.and hF) ?_ ?_
    · intro s c a s' hi hs hf
      simp only [Option.some.injEq, Prod.mk.injEq] at hf
      obtain ⟨-, rfl⟩ := hf
      exact ⟨hallow s hi hs.1, ⟨hs.1, rfl⟩, hkeep s hs.2⟩
    · intro s c e s' hi hs hf
      simp only [Option.some.injEq, Prod.mk.injEq] at hf
      obtain ⟨-, rfl⟩ := hf
      exact ⟨hallow s hi hs.1, hs.1, hkeep s hs.2⟩

theorem recordLossLocked_triple {F : Spool η → Prop} (reason : LossReason)
    (hF : (protocol U O).Stable t F)
    (hkeep : ∀ s l, F s → F (s.onQueue fun q => { q with loss := l })) :
    Triple (protocol U O) t (fun s => s.mu = some t ∧ F s)
      (recordLossLocked reason : SpoolM η θ Unit) (fun _ s => s.mu = some t ∧ F s)
      fun _ s => s.mu = some t ∧ F s := by
  have hP := (stable_muHeld (U := U) (O := O) (t := t)).and hF
  refine Triple.bind (Q := fun _ s => s.mu = some t ∧ F s) ?_ fun counts => ?_
  · refine fileOp_triple hP (fun _ => hP) (fun _ => hP) (fun _ _ _ h => h) ?_
    rintro s a s' hi hs hf
    cases hf
    exact ⟨.idle hi, hs⟩
  · refine spoolReplace_triple hP (fun _ => hP) (fun _ => hP) (fun _ _ _ h => h) fun s hi hs => ?_
    refine ⟨allows_queue hs.1 ?_ List.prefix_rfl List.prefix_rfl List.prefix_rfl rfl,
      ⟨hs.1, hkeep s _ hs.2⟩, fun _ => ⟨hs.1, hkeep s _ hs.2⟩⟩
    exact { hi with }

theorem evictIfFullLocked_triple (incoming : ℕ) :
    Triple (protocol U O) t (fun s => s.mu = some t) (evictIfFullLocked incoming : SpoolM η θ Unit)
      (fun _ s => s.mu = some t) fun _ s => s.mu = some t := by
  have hmu := stable_muHeld (U := U) (O := O) (t := t)
  refine Triple.bind (Q := fun _ s => s.mu = some t) ?_ fun total => ?_
  · refine Triple.act hmu (fun _ => hmu) (fun _ => hmu) ?_ ?_
    · intro s c a s' hi hs hf
      simp only [Option.some.injEq, Prod.mk.injEq] at hf
      obtain ⟨-, rfl⟩ := hf
      exact ⟨.idle hi, hs⟩
    · intro s c e s' hi hs hf
      simp only [Option.some.injEq, Prod.mk.injEq] at hf
      obtain ⟨-, rfl⟩ := hf
      exact ⟨.idle hi, hs⟩
  · split_ifs
    · have hrec := recordLossLocked_triple (U := U) (O := O) (t := t) (θ := θ) (F := fun _ => True)
        .overflow (Protocol.Stable.const True) fun _ _ h => h
      refine Triple.bind (hrec.attempt.pre fun s _ h => ⟨h, trivial⟩) fun r => ?_
      cases r with
      | ok a => exact Triple.fail hmu fun _ _ h => h.1
      | error e => exact Triple.fail hmu fun _ _ h => h.1
    · exact Triple.ret hmu fun _ _ h => h

/-- A new segment is the newest one, empty, and in no pass. -/
theorem createTemp_triple (now : Fin (2 ^ 63)) :
    Triple (protocol U O) t (fun s => s.mu = some t ∧ s.queue.current = none)
      (createTemp now : SpoolM η θ SegName)
      (fun n s => s.mu = some t ∧ s.queue.names.getLast? = some n ∧ n ∉ listed s.custody ∧
        s.queue.segs n = some [])
      fun _ s => s.mu = some t := by
  refine Triple.act (stable_mu fun q _ => q.current = none)
    (fun n => stable_mu fun q c => q.names.getLast? = some n ∧ n ∉ listed c ∧ q.segs n = some [])
    (fun _ => stable_muHeld) ?_ ?_
  · intro s c n s' hi hs hf
    simp only at hf
    split_ifs at hf with hn hfault
    · cases hf
      have hnl : (⟨now, c.rand⟩ : SegName) ∉ listed s.custody := fun h => hn (hi.listedName _ h)
      refine ⟨allows_queue hs.1 (hi.createTemp hn hs.2) (List.prefix_append _ _) List.prefix_rfl
        List.prefix_rfl (view_congr fun n hl => ⟨?_, rfl, Iff.rfl⟩), hs.1, ?_, hnl, ?_⟩
      · refine Function.update_of_ne ?_ _ _
        rintro rfl
        exact hnl hl
      · simp [onQueue]
      · simp [onQueue]
    · cases hf
  · intro s c e s' hi hs hf
    simp only at hf
    split_ifs at hf <;> cases hf
    exact ⟨.idle hi, hs.1⟩

theorem ensureSegmentLocked_triple (incoming : ℕ) :
    Triple (protocol U O) t (fun s => s.mu = some t)
      (ensureSegmentLocked incoming : SpoolM η θ Unit)
      (fun _ s => s.mu = some t ∧ ∃ n, s.queue.current = some n) fun _ s => s.mu = some t := by
  have hmu := stable_muHeld (U := U) (O := O) (t := t)
  have hopen := stable_mu (U := U) (O := O) (t := t) fun q _ => ∃ n, q.current = some n
  refine Triple.bind (Q := fun q s => s.mu = some t ∧ s.queue = q)
    (Triple.read hmu (fun q => stable_mu fun q' _ => q' = q) (fun _ => hmu) fun s _ h => ⟨h, rfl⟩)
    fun q => ?_
  split_ifs with hq
  · refine Triple.ret hopen fun s _ hs => ⟨hs.1, ?_⟩
    rw [hs.2]
    exact Option.isSome_iff_exists.1 hq.1
  · have hseal := sealLocked_triple (U := U) (O := O) (t := t) (θ := θ) (F := fun _ => True)
      (Protocol.Stable.const True) fun _ h => h
    refine Triple.bind (hseal.conseq (fun s _ h => ⟨h.1, trivial⟩) (fun _ s _ h => h.1)
      fun _ s _ h => h.1) fun _ => ?_
    have hnone := stable_mu (U := U) (O := O) (t := t) fun q _ => q.current = none
    refine Triple.bind ((clock_triple hnone).conseq (fun _ _ h => h) (fun _ _ _ h => h)
      fun _ s _ h => h.1) fun now => ?_
    refine Triple.bind (createTemp_triple now) fun n => ?_
    have hnew := stable_mu (U := U) (O := O) (t := t) fun q c =>
      q.names.getLast? = some n ∧ n ∉ listed c ∧ q.segs n = some []
    refine Triple.bind ((touch_triple hnew).conseq (fun _ _ h => h) (fun _ _ _ h => h)
      fun _ s _ h => h.1) fun _ => ?_
    refine Triple.bind ((touch_triple hnew).conseq (fun _ _ h => h) (fun _ _ _ h => h)
      fun _ s _ h => h.1) fun _ => ?_
    refine Triple.modify hnew hopen (fun _ => hmu) fun s hi hs => ?_
    obtain ⟨hs, hlast, hnl, hseg⟩ := hs
    exact ⟨allows_queue hs (hi.open hlast hnl hseg) List.prefix_rfl List.prefix_rfl
      List.prefix_rfl rfl, hs, n, rfl⟩

theorem writeAt_end (data content : List UInt8) :
    writeAt content.length data content = content ++ data := by
  simp [writeAt]

/-- A record of call `t`. -/
def AppendedBy (q : Queue) (t : ℕ) (payloadType : String) (body : Json) : Prop :=
  ∃ w ∈ q.written, w.op = t ∧ w.entry.payloadType = payloadType ∧ w.entry.body = body

theorem allows_put (w : Written) (data : List UInt8) (curSize : ℕ) (torn : List SegName)
    (hi : (protocol U O).inv s) (hs : s.mu = some t) (hcur : s.queue.current = some w.name)
    (hidx : w.index = (entriesOf s.queue.written w.name).length) (hclk : w.entry.Clocked)
    (hadm : O.admits w.entry s.env) (hb : w.binding = s.bound)
    (ht : torn = s.queue.torn ∧ data = w.entry.line ∨ torn = s.queue.torn ++ [w.name]) :
    (protocol U O).Allows t s (s.onQueue fun q => put q w data curSize torn) := by
  obtain ⟨-, hnl, content, hseg, hoff⟩ := hi.current w.name hcur
  have hdata : w.name ∉ torn → data = w.entry.line ∧ s.queue.offset = content.length := by
    intro hn
    rcases ht with ⟨rfl, hd⟩ | rfl
    · exact ⟨hd, hoff hn⟩
    · exact absurd (List.mem_append_right _ (List.mem_singleton_self _)) hn
  have ht' : torn = s.queue.torn ∨ torn = s.queue.torn ++ [w.name] := ht.imp_left And.left
  refine allows_queue hs ?_ List.prefix_rfl (List.prefix_append _ _) ?_ (view_congr ?_)
  · simp only [put, hseg, Option.map_some]
    refine hi.write hcur hseg hidx hclk hadm hb ht' (fun hn => ?_) fun hn => ?_
    · rw [(hdata hn).1, (hdata hn).2, writeAt_end]
    · rw [(hdata hn).2, writeAt_end, List.length_append]
  · rcases ht' with rfl | rfl
    · exact List.prefix_rfl
    · exact List.prefix_append _ _
  · intro m hm
    have hmn : m ≠ w.name := by
      rintro rfl
      exact hnl hm
    refine ⟨Function.update_of_ne hmn _ _, entriesOf_ne _ hmn, ?_⟩
    rcases ht' with rfl | rfl
    · exact Iff.rfl
    · simp [put, hmn]

theorem stable_admits (x : SpoolEntry) : (protocol U O).Stable t fun s => O.admits x s.env :=
  fun _ _ _ _ h hx => O.admitsSees h.env hx

theorem write_triple {entry : SpoolEntry} (hclk : entry.Clocked) :
    Triple (protocol U O) t
      (fun s => (s.mu = some t ∧ ∃ n, s.queue.current = some n) ∧ O.admits entry s.env)
      (write t entry entry.line : SpoolM η θ Unit)
      (fun _ s => s.mu = some t ∧ AppendedBy s.queue t entry.payloadType entry.body)
      fun _ s => s.mu = some t ∧ ∃ n, s.queue.current = some n ∧ n ∈ s.queue.torn := by
  refine Triple.act ((stable_mu fun q _ => ∃ n, q.current = some n).and (stable_admits entry))
    (fun _ => stable_mu fun q _ => AppendedBy q t _ _)
    (fun _ => stable_mu fun q _ => ∃ n, q.current = some n ∧ n ∈ q.torn) ?_ ?_
  · rintro s c a s' hi ⟨⟨hs, n, hcur⟩, hadm⟩ hf
    simp only [hcur] at hf
    split at hf <;> cases hf
    refine ⟨allows_put _ _ _ _ hi hs hcur rfl hclk hadm rfl (.inl ⟨rfl, rfl⟩), hs, ?_⟩
    exact ⟨_, List.mem_append_right _ (List.mem_singleton_self _), rfl, rfl, rfl⟩
  · rintro s c e s' hi ⟨⟨hs, n, hcur⟩, hadm⟩ hf
    simp only [hcur] at hf
    split at hf <;> cases hf
    refine ⟨allows_put _ _ _ _ hi hs hcur rfl hclk hadm rfl (.inr rfl), hs, n, hcur, ?_⟩
    exact List.mem_append_right _ (List.mem_singleton_self _)

theorem cut_eq {q : Queue} {n : SegName} {content : List UInt8} {size : ℕ}
    (hcur : q.current = some n) (hseg : q.segs n = some content) :
    cut q size = { q with segs := Function.update q.segs n (some (truncateTo size content)) } := by
  unfold cut
  split
  · rename_i h0
    simp [hcur] at h0
  · rename_i m hm
    obtain rfl := Option.some.inj (hcur.symm.trans hm)
    rw [hseg]
    rfl

theorem truncate_triple (size : ℕ) :
    Triple (protocol U O) t
      (fun s => s.mu = some t ∧ ∃ n, s.queue.current = some n ∧ n ∈ s.queue.torn)
      (truncate size : SpoolM η θ Unit) (fun _ s => s.mu = some t) fun _ s => s.mu = some t := by
  refine Triple.act (stable_mu fun q _ => ∃ n, q.current = some n ∧ n ∈ q.torn)
    (fun _ => stable_muHeld) (fun _ => stable_muHeld) ?_ ?_
  · rintro s c a s' hi ⟨hs, n, hcur, htorn⟩ hf
    obtain ⟨-, hnl, content, hseg, -⟩ := hi.current n hcur
    simp only [Option.some.injEq] at hf
    split_ifs at hf <;> cases hf
    rw [onQueue, cut_eq hcur hseg]
    refine ⟨allows_queue hs (hi.truncate hcur htorn hseg) List.prefix_rfl List.prefix_rfl
      List.prefix_rfl (view_congr fun m hm => ⟨?_, rfl, Iff.rfl⟩), hs⟩
    refine Function.update_of_ne ?_ _ _
    rintro rfl
    exact hnl hm
  · rintro s c e s' hi ⟨hs, -⟩ hf
    simp only [Option.some.injEq] at hf
    split_ifs at hf <;> cases hf
    exact ⟨.idle hi, hs⟩

theorem newEntry_ok {payloadType : String} {body : List Char} {now : Fin (2 ^ 63)}
    {entry : SpoolEntry} (h : newEntry payloadType body now = .ok entry) :
    entry.payloadType = payloadType ∧ Json.parse body = some entry.body ∧ entry.Clocked := by
  unfold newEntry at h
  split at h
  · rename_i j hj
    split_ifs at h
    cases h
    refine ⟨rfl, hj, ?_, ?_⟩
    · change (-2 ^ 63 : ℤ) ≤ (now.val : ℤ) / 10 ^ 9
      omega
    · have := now.isLt
      change (now.val : ℤ) / 10 ^ 9 < 2 ^ 63
      omega
  · cases h

/-- A record of call `t` with this type and the value of this body. -/
def AppendedAs (q : Queue) (t : ℕ) (payloadType : String) (body : List Char) : Prop :=
  ∃ w ∈ q.written, w.op = t ∧ w.entry.payloadType = payloadType ∧
    Json.parse body = some w.entry.body

/-- The environment admits what an append of this body writes. -/
def Admits (O : Outside η) (payloadType : String) (body : List Char) (s : Spool η) : Prop :=
  ∀ now entry, newEntry payloadType body now = .ok entry → O.admits entry s.env

theorem Admits.sees {payloadType : String} {body : List Char} (h : Sees O t s s')
    (ha : Admits O payloadType body s) : Admits O payloadType body s' :=
  fun now entry hn => O.admitsSees h.env (ha now entry hn)

/-- What `append` promises when it returns without an error. -/
theorem append_triple (payloadType : String) (body : List Char) :
    Triple (protocol U O) t (Admits O payloadType body) (append t payloadType body : SpoolM η θ Unit)
      (fun _ s => AppendedAs s.queue t payloadType body) fun _ _ => True := by
  have htrue := Protocol.Stable.const (Γ := protocol U O) (t := t) True
  have hadm : (protocol U O).Stable t (Admits O payloadType body) := fun _ _ _ _ h ha => ha.sees h
  refine Triple.bind ((clock_triple hadm).conseq (fun _ _ h => h) (fun _ _ _ h => h)
    fun _ _ _ _ => trivial) fun now => ?_
  refine Triple.bind (Q := fun entry s => newEntry payloadType body now = .ok entry ∧
    O.admits entry s.env) ?_ fun entry => Triple.assume fun hnew => ?_
  · cases hnew : newEntry payloadType body now with
    | ok entry =>
      exact Triple.ret ((Protocol.Stable.const _).and (stable_admits entry))
        fun s _ h => ⟨rfl, h now entry hnew⟩
    | error e => exact Triple.fail htrue fun _ _ _ => trivial
  obtain ⟨hty, hbody, hclk⟩ := newEntry_ok hnew
  have hentry := stable_admits (U := U) (O := O) (t := t) entry
  refine Triple.bind (Q := fun _ s => O.admits entry s.env)
    (Triple.failIf hentry htrue (fun _ _ _ h => h) fun _ _ _ _ => trivial) fun _ => ?_
  refine locked_triple hentry (fun _ => stable_written _) (fun _ => htrue) (fun _ _ h => h)
    (fun _ _ _ h => h) (fun _ _ _ h => h) ?_
  have hmu := stable_muHeld (U := U) (O := O) (t := t)
  have hsees : ∀ u (s s' : Spool η), (protocol U O).sees u s s' → O.admits entry s.env →
      O.admits entry s'.env := fun _ _ _ h hx => O.admitsSees h.env hx
  refine Triple.conseq (H := fun s => s.mu = some t ∧ O.admits entry s.env)
    (F := fun _ s => s.mu = some t)
    (R := fun _ s => s.mu = some t ∧ AppendedBy s.queue t entry.payloadType entry.body)
    ?_ (fun _ _ h => h) ?_ fun _ _ _ h => ⟨h, trivial⟩
  · refine Triple.bind (Q := fun _ s => s.mu = some t ∧ O.admits entry s.env)
      (Triple.read (hmu.and hentry) (fun _ => hmu.and hentry) (fun _ => hmu) fun _ _ h => h)
      fun closed => ?_
    refine Triple.bind (Q := fun _ s => s.mu = some t ∧ O.admits entry s.env)
      (Triple.failIf (hmu.and hentry) hmu (fun _ _ _ h => h) fun _ _ _ h => h.1) fun _ => ?_
    refine Triple.bind (((evictIfFullLocked_triple _).frame hsees).conseq (fun _ _ h => h)
      (fun _ _ _ h => h) fun _ _ _ h => h.1) fun _ => ?_
    refine Triple.bind (((ensureSegmentLocked_triple _).frame hsees).conseq (fun _ _ h => h)
      (fun _ _ _ h => h) fun _ _ _ h => h.1) fun _ => ?_
    have hopen := (stable_mu (U := U) (O := O) (t := t) fun q _ => ∃ n, q.current = some n).and hentry
    refine Triple.bind (Q := fun _ s => (s.mu = some t ∧ ∃ n, s.queue.current = some n) ∧
      O.admits entry s.env) (Triple.read hopen (fun _ => hopen) (fun _ => hmu) fun _ _ h => h)
      fun before => ?_
    refine Triple.bind (write_triple hclk).attempt fun r => ?_
    have happ := stable_mu (U := U) (O := O) (t := t) fun q _ =>
      AppendedBy q t entry.payloadType entry.body
    cases r with
    | ok a =>
      exact (touch_triple happ).conseq (fun _ _ h => h) (fun _ _ _ h => h) fun _ _ _ h => h.1
    | error e =>
      exact Triple.bind (truncate_triple before) fun _ => Triple.fail hmu fun _ _ h => h
  · rintro - s - ⟨hs, w, hw, hop, hp, hb⟩
    exact ⟨hs, w, hw, hop, hp.trans hty, hb ▸ hbody⟩

end Spool

end WMonitor
