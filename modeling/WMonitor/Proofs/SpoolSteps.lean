import WMonitor.Proofs.SpoolProtocol

/-!
# Steps keep the queue's invariant

One lemma for each change a step makes to the state, with what it needs of the state before.
-/

namespace WMonitor

namespace Spool

variable {η θ α : Type} {U : URLs} {O : Outside η} {q : Queue} {p : Progress} {c : Custody} {e : η}

theorem DeliveredAt.mono {p p' : Progress} {n : SegName} {i : ℕ} {x : SpoolEntry}
    (h : DeliveredAt p n i x) (hd : ∀ g ∈ p.delivered, g ∈ p'.delivered) :
    DeliveredAt p' n i x := by
  obtain ⟨g, hg, hn, hi, hx⟩ := h
  exact ⟨g, hd g hg, hn, hi, hx⟩

theorem entriesOf_ne (ws : List Written) {n : SegName} {w : Written} (h : n ≠ w.name) :
    entriesOf (ws ++ [w]) n = entriesOf ws n := by
  simp [entriesOf, Ne.symm h]

theorem entriesOf_self (ws : List Written) (w : Written) :
    entriesOf (ws ++ [w]) w.name = entriesOf ws w.name ++ [w] := by
  simp [entriesOf]

/-! ## Opening and closing segments -/

theorem Inv.seal (h : Inv U O q p c e) :
    Inv U O { q with current := none, curSize := 0 } p c e :=
  { h with current := by simp }

theorem Inv.createTemp (h : Inv U O q p c e) {n : SegName} (hn : n ∉ q.names)
    (hc : q.current = none) :
    Inv U O { q with names := q.names ++ [n], segs := Function.update q.segs n (some []) } p c e := by
  have hne : ∀ m ∈ q.names, m ≠ n := by
    rintro m hm rfl
    exact hn hm
  have hnone : entriesOf q.written n = [] := by
    refine List.filter_eq_nil_iff.2 fun w hw => ?_
    simpa using hne _ (h.writtenName w hw)
  have hlive : ∀ {m content}, m ≠ n → Function.update q.segs n (some []) m = content →
      q.segs m = content := by
    intro m content hm hs
    rwa [Function.update_of_ne hm] at hs
  exact { h with
    names := List.nodup_append.2 ⟨h.names, List.nodup_singleton n, fun a ha b hb => by
      rw [List.mem_singleton.1 hb]
      exact hne a ha⟩
    liveName := by
      intro m hm
      by_cases hmn : m = n
      · simp [hmn]
      · refine List.mem_append_left _ (h.liveName m fun hs => hm ?_)
        exact (Function.update_of_ne hmn _ _).trans hs
    heldName := fun m hm => List.mem_append_left _ (h.heldName m hm)
    heldOnly := fun m hm =>
      (Function.update_of_ne (hne m (h.heldName m hm)) _ _).trans (h.heldOnly m hm)
    writtenName := fun w hw => List.mem_append_left _ (h.writtenName w hw)
    tornName := fun m hm => List.mem_append_left _ (h.tornName m hm)
    listedName := fun m hm => List.mem_append_left _ (h.listedName m hm)
    current := by simp [hc]
    appendOrder := by
      rw [List.flatMap_append, List.flatMap_singleton]
      refine h.appendOrder.trans ?_
      change _ = q.names.flatMap (entriesOf q.written) ++ entriesOf q.written n
      rw [hnone, List.append_nil]
    content := by
      intro m content hm hs
      by_cases hmn : m = n
      · subst hmn
        change content = segmentOf ((entriesOf q.written m).map Written.entry)
        rw [hnone]
        rcases hs with hs | hs
        · simpa [segmentOf] using hs.symm
        · exact absurd (h.heldName m fun h0 => by simp [h0] at hs) hn
      · exact h.content m content hm (hs.imp_left (hlive hmn))
    ack := by
      intro m text content ha hs
      refine h.ack m text content ha (hs.imp_left (hlive ?_))
      exact hne m (h.listedName m (h.ackListed m text ha))
    gone := by
      intro m hm hs
      by_cases hmn : m = n
      · subst hmn
        simp at hs
      · refine h.gone m ?_ (hlive hmn hs)
        simpa [hmn] using hm
    passOrder := fun hr => h.passOrder ⟨hr.1, (List.pairwise_append.1 hr.2).1⟩
    liveBinding := by
      intro w hw hs
      refine h.liveBinding w hw fun h0 => hs ?_
      exact (Function.update_of_ne (hne _ (h.writtenName w hw)) _ _).trans h0 }

theorem Inv.open (h : Inv U O q p c e) {n : SegName} (hl : q.names.getLast? = some n)
    (hn : n ∉ listed c) (hs : q.segs n = some []) :
    Inv U O { q with current := some n, curSize := 0, offset := 0 } p c e :=
  { h with
    current := by
      intro m hm
      obtain rfl := Option.some.inj hm
      exact ⟨hl, hn, [], hs, fun _ => rfl⟩ }

/-! ## Writing -/

/-- A record goes to the open segment; its content matters as long as no write to it has failed. -/
theorem Inv.write (h : Inv U O q p c e) {w : Written} (hcur : q.current = some w.name)
    {content content' : List UInt8} (hs : q.segs w.name = some content)
    (hidx : w.index = (entriesOf q.written w.name).length) (hclk : w.entry.Clocked)
    (hadm : O.admits w.entry e) (hb : w.binding = boundTo c) {torn : List SegName}
    (ht : torn = q.torn ∨ torn = q.torn ++ [w.name]) {curSize offset : ℕ}
    (hcontent : w.name ∉ torn → content' = content ++ w.entry.line)
    (hoff : w.name ∉ torn → offset = content'.length) :
    Inv U O { q with
      segs := Function.update q.segs w.name (some content'), offset := offset, curSize := curSize,
      written := q.written ++ [w], torn := torn } p c e := by
  obtain ⟨hlast, hnl, -⟩ := h.current w.name hcur
  have hmem : w.name ∈ q.names := List.mem_of_getLast? hlast
  have hsub : ∀ m, m ∉ torn → m ∉ q.torn := by
    intro m hm
    rcases ht with rfl | rfl
    · exact hm
    · exact fun h0 => hm (List.mem_append_left _ h0)
  have hsegs : ∀ {m}, m ≠ w.name →
      Function.update q.segs w.name (some content') m = q.segs m := fun hm =>
    Function.update_of_ne hm _ _
  have hself : Function.update q.segs w.name (some content') w.name = some content' :=
    Function.update_self ..
  have hlive : ∀ {m}, Function.update q.segs w.name (some content') m ≠ none → q.segs m ≠ none := by
    intro m hm
    by_cases hmn : m = w.name
    · simp [hmn, hs]
    · rwa [hsegs hmn] at hm
  have hent : ∀ {m}, m ≠ w.name → entriesOf (q.written ++ [w]) m = entriesOf q.written m :=
    fun hm => entriesOf_ne _ hm
  exact { h with
    liveName := fun m hm => h.liveName m (hlive hm)
    heldOnly := by
      intro m hm
      have hmn : m ≠ w.name := by
        rintro rfl
        exact absurd (h.heldOnly _ hm) (by simp [hs])
      exact (hsegs hmn).trans (h.heldOnly m hm)
    writtenName := by
      intro w' hw'
      rcases List.mem_append.1 hw' with hw' | hw'
      · exact h.writtenName w' hw'
      · obtain rfl := List.mem_singleton.1 hw'
        exact hmem
    tornName := by
      intro m hm
      rcases ht with rfl | rfl
      · exact h.tornName m hm
      · rcases List.mem_append.1 hm with hm | hm
        · exact h.tornName m hm
        · obtain rfl := List.mem_singleton.1 hm
          exact hmem
    current := by
      intro m hm
      obtain rfl := Option.some.inj (hcur.symm.trans hm)
      exact ⟨hlast, hnl, content', hself, hoff⟩
    clocked := by
      intro w' hw'
      rcases List.mem_append.1 hw' with hw' | hw'
      · exact h.clocked w' hw'
      · obtain rfl := List.mem_singleton.1 hw'
        exact hclk
    admitted := by
      intro w' hw'
      rcases List.mem_append.1 hw' with hw' | hw'
      · exact h.admitted w' hw'
      · obtain rfl := List.mem_singleton.1 hw'
        exact hadm
    clean := by
      intro ht'
      refine h.clean ?_
      rcases ht with rfl | rfl
      · exact ht'
      · simp at ht'
    index := by
      intro m
      by_cases hm : m = w.name
      · subst hm
        rw [entriesOf_self, List.map_append, h.index, List.length_append, List.length_singleton,
          List.range_succ, List.map_singleton, hidx]
      · rw [hent hm]
        exact h.index m
    appendOrder := by
      obtain ⟨pre, hpre⟩ := List.getLast?_eq_some_iff.1 hlast
      have hnd := h.names
      have hord := h.appendOrder
      rw [hpre] at hnd hord ⊢
      have hne : ∀ m ∈ pre, entriesOf (q.written ++ [w]) m = entriesOf q.written m := by
        intro m hm
        exact hent ((List.nodup_append.1 hnd).2.2 m hm _ (List.mem_singleton_self _))
      rw [List.flatMap_append, List.flatMap_singleton] at hord ⊢
      rw [entriesOf_self, List.flatMap_congr hne, ← List.append_assoc, ← hord]
    content := by
      intro m content₀ hm hc₀
      by_cases hmn : m = w.name
      · subst hmn
        rw [entriesOf_self, List.map_append, segmentOf_append,
          ← h.content w.name content (hsub _ hm) (.inl hs)]
        rcases hc₀ with hc₀ | hc₀
        · rw [← Option.some.inj (hself.symm.trans hc₀), hcontent hm]
          simp [segmentOf]
        · have hnone := h.heldOnly w.name (ne_of_eq_of_ne hc₀ (Option.some_ne_none _))
          exact absurd hnone (by simp [hs])
      · rw [hent hmn]
        exact h.content m content₀ (hsub m hm) (hc₀.imp_left fun h0 => (hsegs hmn).symm.trans h0)
    ack := by
      intro m text content₀ ha hc₀
      have hmn : m ≠ w.name := by
        rintro rfl
        exact hnl (h.ackListed _ text ha)
      exact h.ack m text content₀ ha (hc₀.imp_left (hsegs hmn).symm.trans)
    gone := by
      intro m hm h0
      by_cases hmn : m = w.name
      · subst hmn
        simp at h0
      · exact h.gone m hm ((hsegs hmn).symm.trans h0)
    removed := by
      intro m hm hm' w' hw'
      have hmn : m ≠ w.name := by
        rintro rfl
        exact hnl (h.removedListed _ hm)
      rw [hent hmn] at hw'
      exact h.removed m hm (hsub m hm') w' hw'
    presented := by
      intro g hg hg'
      have hgn : g.name ≠ w.name := fun h0 => hnl (h0 ▸ h.presentedListed g hg)
      rw [hent hgn]
      exact h.presented g hg (hsub _ hg')
    passOrder := fun hr => h.passOrder ⟨by
      rcases ht with rfl | rfl
      · exact hr.1
      · exact absurd hr.1 (by simp), hr.2⟩
    liveBinding := by
      intro w' hw' h0
      rcases List.mem_append.1 hw' with hw' | hw'
      · exact h.liveBinding w' hw' (hlive h0)
      · obtain rfl := List.mem_singleton.1 hw'
        rw [hb]
        exact .refl U _
    presentedBinding := by
      intro g hg w' hw' hn
      rcases List.mem_append.1 hw' with hw' | hw'
      · exact h.presentedBinding g hg w' hw' hn
      · obtain rfl := List.mem_singleton.1 hw'
        exact absurd (hn ▸ h.presentedListed g hg) hnl }

/-- The open segment is cut after a failed write. -/
theorem Inv.truncate (h : Inv U O q p c e) {n : SegName} (hcur : q.current = some n)
    (ht : n ∈ q.torn) {content content' : List UInt8} (hs : q.segs n = some content) :
    Inv U O { q with segs := Function.update q.segs n (some content') } p c e := by
  obtain ⟨hlast, hnl, -⟩ := h.current n hcur
  have hsegs : ∀ {m}, m ≠ n → Function.update q.segs n (some content') m = q.segs m := fun hm =>
    Function.update_of_ne hm _ _
  have hlive : ∀ {m}, Function.update q.segs n (some content') m ≠ none → q.segs m ≠ none := by
    intro m hm
    by_cases hmn : m = n
    · simp [hmn, hs]
    · rwa [hsegs hmn] at hm
  exact { h with
    liveName := fun m hm => h.liveName m (hlive hm)
    heldOnly := by
      intro m hm
      have hmn : m ≠ n := by
        rintro rfl
        exact absurd (h.heldOnly _ hm) (by simp [hs])
      exact (hsegs hmn).trans (h.heldOnly m hm)
    current := by
      intro m hm
      obtain rfl := Option.some.inj (hcur.symm.trans hm)
      exact ⟨hlast, hnl, content', Function.update_self .., fun h0 => absurd ht h0⟩
    content := by
      intro m content₀ hm hc₀
      have hmn : m ≠ n := by
        rintro rfl
        exact hm ht
      exact h.content m content₀ hm (hc₀.imp_left fun h0 => (hsegs hmn).symm.trans h0)
    ack := by
      intro m text content₀ ha hc₀
      have hmn : m ≠ n := by
        rintro rfl
        exact hnl (h.ackListed _ text ha)
      exact h.ack m text content₀ ha (hc₀.imp_left (hsegs hmn).symm.trans)
    gone := by
      intro m hm h0
      by_cases hmn : m = n
      · subst hmn
        simp at h0
      · exact h.gone m hm ((hsegs hmn).symm.trans h0)
    liveBinding := fun w hw h0 => h.liveBinding w hw (hlive h0) }

/-! ## Leaving the queue -/

theorem update_none {f : SegName → Option (List UInt8)} {n m : SegName} {x : List UInt8}
    (h : Function.update f n none m = some x) : m ≠ n ∧ f m = some x := by
  by_cases hm : m = n
  · simp [hm] at h
  · exact ⟨hm, (Function.update_of_ne hm _ _).symm.trans h⟩

theorem update_none_ne {f : SegName → Option (List UInt8)} {n m : SegName}
    (h : Function.update f n none m ≠ none) : f m ≠ none := by
  obtain ⟨x, hx⟩ := Option.ne_none_iff_exists'.1 h
  simp [(update_none hx).2]

/-- What stays when a segment leaves the directory. -/
theorem Inv.current_leave (h : Inv U O q p c e) {n : SegName} (hcur : q.current ≠ some n) :
    ∀ m, q.current = some m → q.names.getLast? = some m ∧ m ∉ listed c ∧
      ∃ content, Function.update q.segs n none m = some content ∧
        (m ∉ q.torn → q.offset = content.length) := by
  intro m hm
  obtain ⟨hlast, hnl, content, hs, hoff⟩ := h.current m hm
  have hmn : m ≠ n := by
    rintro rfl
    exact hcur hm
  exact ⟨hlast, hnl, content, (Function.update_of_ne hmn _ _).trans hs, hoff⟩

theorem Inv.quarantine (h : Inv U O q p c e) {n : SegName} {content : List UInt8}
    (hs : q.segs n = some content) (hcur : q.current ≠ some n) :
    Inv U O { q with
      segs := Function.update q.segs n none
      held := Function.update q.held n (some content) } p c e :=
  { h with
    liveName := fun m hm => h.liveName m (update_none_ne hm)
    heldName := by
      intro m hm
      by_cases hmn : m = n
      · exact h.liveName m (by simp [hmn, hs])
      · exact h.heldName m fun h0 => hm ((Function.update_of_ne hmn _ _).trans h0)
    heldOnly := by
      intro m hm
      by_cases hmn : m = n
      · simp [hmn]
      · refine (Function.update_of_ne hmn _ _).trans (h.heldOnly m fun h0 => hm ?_)
        exact (Function.update_of_ne hmn _ _).trans h0
    current := h.current_leave hcur
    content := by
      intro m content₀ hm hc₀
      rcases hc₀ with hc₀ | hc₀
      · exact h.content m content₀ hm (.inl (update_none hc₀).2)
      · by_cases hmn : m = n
        · subst hmn
          refine h.content m content₀ hm (.inl (hs.trans ?_))
          exact (Function.update_self m (some content) q.held).symm.trans hc₀
        · exact h.content m content₀ hm (.inr ((Function.update_of_ne hmn _ _).symm.trans hc₀))
    ack := by
      intro m text content₀ ha hc₀
      refine h.ack m text content₀ ha ?_
      rcases hc₀ with hc₀ | hc₀
      · exact .inl (update_none hc₀).2
      · by_cases hmn : m = n
        · subst hmn
          exact .inl (hs.trans ((Function.update_self m (some content) q.held).symm.trans hc₀))
        · exact .inr ((Function.update_of_ne hmn _ _).symm.trans hc₀)
    gone := by
      intro m hm h0
      by_cases hmn : m = n
      · exact .inl (by simp [hmn])
      · refine (h.gone m hm ((Function.update_of_ne hmn _ _).symm.trans h0)).imp_left fun hh h1 => ?_
        exact hh ((Function.update_of_ne hmn _ _).symm.trans h1)
    liveBinding := fun w hw h0 => h.liveBinding w hw (update_none_ne h0) }

theorem Inv.remove (h : Inv U O q p c e) {n : SegName} (hn : n ∈ listed c)
    (hd : n ∉ q.torn → ∀ w ∈ entriesOf q.written n, DeliveredAt p n w.index w.entry.stored) :
    Inv U O { q with
      segs := Function.update q.segs n none
      removed := q.removed ++ [n] } p c e :=
  { h with
    liveName := fun m hm => h.liveName m (update_none_ne hm)
    heldOnly := by
      intro m hm
      by_cases hmn : m = n
      · simp [hmn]
      · exact (Function.update_of_ne hmn _ _).trans (h.heldOnly m hm)
    removedListed := by
      intro m hm
      rcases List.mem_append.1 hm with hm | hm
      · exact h.removedListed m hm
      · obtain rfl := List.mem_singleton.1 hm
        exact hn
    current := h.current_leave fun h0 => (h.current n h0).2.1 hn
    content := fun m content₀ hm hc₀ =>
      h.content m content₀ hm (hc₀.imp_left fun h0 => (update_none h0).2)
    ack := fun m text content₀ ha hc₀ =>
      h.ack m text content₀ ha (hc₀.imp_left fun h0 => (update_none h0).2)
    gone := by
      intro m hm h0
      by_cases hmn : m = n
      · exact .inr (by simp [hmn])
      · refine (h.gone m hm ((Function.update_of_ne hmn _ _).symm.trans h0)).imp_right fun hr => ?_
        exact List.mem_append_left _ hr
    removed := by
      intro m hm hm' w hw
      rcases List.mem_append.1 hm with hm | hm
      · exact h.removed m hm hm' w hw
      · obtain rfl := List.mem_singleton.1 hm
        exact hd hm' w hw
    liveBinding := fun w hw h0 => h.liveBinding w hw (update_none_ne h0) }

/-! ## Checkpoints -/

theorem Inv.writeAck (h : Inv U O q p c e) {n : SegName} {m : ℕ} (hn : n ∈ listed c)
    (hlive : q.segs n ≠ none)
    (hd : ∀ content, q.segs n = some content → ∃ es : List SpoolEntry,
      decodeSegment content = some es ∧ m ≤ es.length ∧
        ∀ i < m, ∀ x, es[i]? = some x → DeliveredAt p n i x) :
    Inv U O q { p with acks := Function.update p.acks n (some (itoa m)) } c e :=
  { h with
    ackListed := by
      intro m' text ha
      by_cases hmn : m' = n
      · exact hmn ▸ hn
      · exact h.ackListed m' text (ha.imp_left (Function.update_of_ne hmn _ _).symm.trans)
    ack := by
      intro m' text content ha hs
      by_cases hmn : m' = n
      · subst hmn
        rcases ha with ha | ha
        · have hseg : q.segs m' = some content := hs.resolve_right fun h0 =>
            hlive (h.heldOnly m' (by simp [h0]))
          obtain ⟨es, hes, hm, hd⟩ := hd content hseg
          refine ⟨es, m, hes, ?_, hm, hd⟩
          exact (Option.some.inj ((Function.update_self m' (some (itoa m)) p.acks).symm.trans ha)).symm
        · exact h.ack m' text content (.inr ha) hs
      · exact h.ack m' text content (ha.imp_left (Function.update_of_ne hmn _ _).symm.trans) hs }

/-- A checkpoint is removed, or goes to quarantine. -/
theorem Inv.dropAck (h : Inv U O q p c e) (n : SegName) {heldAcks : SegName → Option (List Char)}
    (hheld : ∀ m text, heldAcks m = some text → HasAck p c m text) :
    Inv U O q { p with acks := Function.update p.acks n none } { c with heldAcks := heldAcks } e := by
  have hacks : ∀ {m text}, HasAck { p with acks := Function.update p.acks n none }
      { c with heldAcks := heldAcks } m text → HasAck p c m text := by
    rintro m text (hm | hm)
    · by_cases hmn : m = n
      · simp [hmn] at hm
      · exact .inl ((Function.update_of_ne hmn _ _).symm.trans hm)
    · exact hheld m text hm
  exact { h with
    ackListed := fun m text ha => h.ackListed m text (hacks ha)
    ack := fun m text content ha hs => h.ack m text content (hacks ha) hs }

/-! ## Passes -/

theorem Inv.beginPass (h : Inv U O q p c e) {t : ℕ} {paths : List SegName} (hcur : q.current = none)
    (hpaths : ∀ n ∈ paths, n ∈ q.names)
    (hp : p.presented.filter (fun g => g.op = t) = []) (pending : List Written) :
    Inv U O q p { c with passes := c.passes ++ [⟨t, paths, pending⟩] } e := by
  have hl : listed { c with passes := c.passes ++ [⟨t, paths, pending⟩] } = listed c ++ paths := by
    simp [listed]
  exact { h with
    listedName := by
      intro n hn
      rw [hl] at hn
      exact (List.mem_append.1 hn).elim (h.listedName n) (hpaths n)
    ackListed := fun n text hn => by
      rw [hl]
      exact List.mem_append_left _ (h.ackListed n text hn)
    removedListed := fun n hn => by
      rw [hl]
      exact List.mem_append_left _ (h.removedListed n hn)
    presentedListed := fun g hg => by
      rw [hl]
      exact List.mem_append_left _ (h.presentedListed g hg)
    current := by simp [hcur]
    passOrder := by
      intro hr pass hpass
      rcases List.mem_append.1 hpass with hpass | hpass
      · exact h.passOrder hr pass hpass
      · obtain rfl := List.mem_singleton.1 hpass
        simp [presentedBy, hp] }

theorem presentedBy_append (ps : List Presented) (g : Presented) (t : ℕ) (p : Progress) :
    presentedBy { p with presented := ps ++ [g] } t
      = presentedBy { p with presented := ps } t
        ++ if g.op = t then places g.name g.first g.entries else [] := by
  unfold presentedBy
  split_ifs with hg <;> simp [hg]

theorem Inv.present (h : Inv U O q p c e) {g : Presented} (hn : g.name ∈ listed c)
    (hs : q.segs g.name ≠ none) (hb : g.binding = boundTo c)
    (hg : g.name ∉ q.torn →
      g.entries <+: ((entriesOf q.written g.name).map fun w => w.entry.stored).drop g.first)
    (hord : Regular q → ∀ pass ∈ c.passes, pass.op = g.op →
      presentedBy p g.op ++ places g.name g.first g.entries <+: pass.pending.map Written.place) :
    Inv U O q { p with presented := p.presented ++ [g] } c e :=
  { h with
    presentedListed := by
      intro g' hg'
      rcases List.mem_append.1 hg' with hg' | hg'
      · exact h.presentedListed g' hg'
      · obtain rfl := List.mem_singleton.1 hg'
        exact hn
    delivered := fun g' hg' => List.mem_append_left _ (h.delivered g' hg')
    presented := by
      intro g' hg'
      rcases List.mem_append.1 hg' with hg' | hg'
      · exact h.presented g' hg'
      · obtain rfl := List.mem_singleton.1 hg'
        exact hg
    passOrder := by
      intro hr pass hpass
      rw [presentedBy_append]
      split_ifs with hop
      · rw [← hop]
        exact hord hr pass hpass hop.symm
      · rw [List.append_nil]
        exact h.passOrder hr pass hpass
    presentedBinding := by
      intro g' hg' w hw hwn
      rcases List.mem_append.1 hg' with hg' | hg'
      · exact h.presentedBinding g' hg' w hw hwn
      · obtain rfl := List.mem_singleton.1 hg'
        rw [hb]
        exact h.liveBinding w hw (hwn ▸ hs) }

theorem Inv.settle (h : Inv U O q p c e) {g : Presented} (hg : g ∈ p.presented)
    (ht : O.taken g.entries e) :
    Inv U O q { p with delivered := p.delivered ++ [g] } c e := by
  have hmono : ∀ {n i x}, DeliveredAt p n i x →
      DeliveredAt { p with delivered := p.delivered ++ [g] } n i x := fun hd =>
    hd.mono fun g' hg' => List.mem_append_left _ hg'
  exact { h with
    ack := by
      intro n text content ha hs
      obtain ⟨es, m, hes, hm, hle, hd⟩ := h.ack n text content ha hs
      exact ⟨es, m, hes, hm, hle, fun i hi x hx => hmono (hd i hi x hx)⟩
    removed := fun n hn hn' w hw => hmono (h.removed n hn hn' w hw)
    taken := by
      intro g' hg'
      rcases List.mem_append.1 hg' with hg' | hg'
      · exact h.taken g' hg'
      · obtain rfl := List.mem_singleton.1 hg'
        exact ht
    delivered := by
      intro g' hg'
      rcases List.mem_append.1 hg' with hg' | hg'
      · exact h.delivered g' hg'
      · obtain rfl := List.mem_singleton.1 hg'
        exact hg }

/-! ## Binding, the environment and restarts -/

theorem Inv.bindTo (h : Inv U O q p c e) {b : SpoolBinding} (hb : b.origin ≠ "")
    (hl : ∀ w ∈ q.written, q.segs w.name ≠ none → Compatible U w.binding (some b)) :
    Inv U O q p { c with bind := some b.marshal } e :=
  { h with
    bound := by
      rintro text htext
      exact ⟨b, (Option.some.inj htext).symm, hb⟩
    liveBinding := by
      intro w hw hs
      have hto : boundTo { c with bind := some b.marshal } = some b := unmarshal_binding b
      rw [hto]
      exact hl w hw hs }

theorem Inv.environment (h : Inv U O q p c e) {t : ℕ} {e' : η} (he : O.inv e')
    (hs : O.sees t e e') (hc : q.torn = [] → O.clean e') : Inv U O q p c e' :=
  { h with
    env := he
    admitted := fun w hw => O.admitsSees hs (h.admitted w hw)
    clean := hc
    taken := fun g hg => O.takenSees hs (h.taken g hg) }

theorem Inv.reopen (h : Inv U O q p c e) :
    Inv U O { q with current := none, curSize := 0, offset := 0, closed := false } p c e :=
  { h with current := by simp }

/-- A new queue. -/
theorem Inv.empty (U : URLs) {O : Outside η} (he : O.inv e) (hc : O.clean e) :
    Inv U O {} {} {} e where
  env := he
  admitted := by simp
  clean _ := hc
  names := by simp
  liveName := by simp
  heldName := by simp
  heldOnly := by simp
  writtenName := by simp
  tornName := by simp
  listedName := by simp [listed]
  ackListed := by simp [HasAck]
  removedListed := by simp
  presentedListed := by simp
  current := by simp
  clocked := by simp
  index := by simp [entriesOf]
  appendOrder := by simp
  content := by simp
  ack := by simp [HasAck]
  gone := by simp
  removed := by simp
  taken := by simp
  delivered := by simp
  presented := by simp
  passOrder := by simp
  bound := by simp
  liveBinding := by simp
  presentedBinding := by simp

end Spool

end WMonitor
