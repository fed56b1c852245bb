import WMonitor.Proofs.JsonSize
import WMonitor.Proofs.Legacy

/-!
# Groups and their batches

`DrainBatches` estimates a group by the records of the queue, `deliverBatch` sends the events that it
makes of them. With a callback that succeeds, a pass over a queue presents of each segment what is
left of it, in groups of at most `maximum` entries, until an entry is over the budget, and the batch
of each group is within the limit: exactly if it can read every segment that it comes to
(`drainBatches_packs_iff`). `append` takes entries that cannot be read.
-/

namespace WMonitor

open Json

variable (S : Scalars) {sha256 : List UInt8 → List UInt8}

/-! ## The batch of a group -/

theorem body_le_marshal {e : SpoolEntry} (h : Compacted e.body) :
    e.body.bytes + 33 ≤ e.marshal.length := by
  have hkeys : quoted "type" = 4 ∧ quoted "body" = 4 ∧ quoted "queued_at" = 9 := by decide +kernel
  have hnum : 1 ≤ (num (Json.int e.queuedAt)).bytes := by
    obtain ⟨c, cs, hc, -⟩ := print_start (num (Json.int e.queuedAt))
    rw [bytes, hc, encodeText_cons]
    exact le_add_right c.utf8Size_pos
  have hmarshal : e.marshal.length = e.json.bytes := rfl
  have hmembers := le_bytes_obj [(quote "type", str (quote e.payloadType)),
    (quote "body", e.body.compact), (quote "queued_at", num (Json.int e.queuedAt))]
  have hbody : e.body.compact = e.body := h
  rw [hmarshal, SpoolEntry.json]
  simp only [memberBytes, List.map_cons, List.map_nil, List.sum_cons, List.sum_nil, bytes_str,
    ← quoted.eq_def, hkeys, hbody] at hmembers ⊢
  omega

theorem parseIngest_ok {α : Type} {fs : List (StructField α)} {zero x : α} {j : Json}
    (h : decodeIngest (parseIngest fs zero) (encodeText j.print) = .ok x) :
    decodeObj fs true zero j = some x := by
  have hparse : Json.parse j.print = some j := by
    have := parse_print j (List.forall_mem_nil fun c => isWs c = true)
    rwa [List.append_nil] at this
  unfold decodeIngest parseIngest at h
  rw [lossyText_encodeText, hparse] at h
  split_ifs at h
  dsimp only at h
  split at h
  · cases h
  · split at h
    · cases h
    · rename_i hx
      cases h
      exact hx

/-- What is read from a text does not weigh more than the text. -/
theorem decodeIngest_weight {α : Type} {fs : List (StructField α)} {zero x : α} {weight : α → ℕ}
    {j : Json} (hj : Compacted j) (hzero : weight zero = 0)
    (hfs : ∀ f ∈ fs, f.Takes fun n x => weight x ≤ n)
    (h : decodeIngest (parseIngest fs zero) (encodeText j.print) = .ok x) : weight x ≤ j.bytes := by
  have := decodeObj_takes (P := fun n x => weight x ≤ n) weight_mono hfs hj (n := 0) hzero.le
    (parseIngest_ok h)
  rwa [Nat.zero_add] at this

theorem quoted_hex (bs : List UInt8) : quoted ("legacy-" ++ hexEncode bs) = 7 + 2 * bs.length := by
  have hplain : ∀ cs : List Char, (∀ c ∈ cs, quoteChar c = [c] ∧ c.utf8Size = 1) →
      (encodeText (cs.flatMap quoteChar)).length = cs.length := by
    intro cs h
    induction cs with
    | nil => rfl
    | cons c cs ih =>
      rw [List.forall_mem_cons] at h
      rw [List.flatMap_cons, h.1.1, List.singleton_append, encodeText_cons, h.1.2, ih h.2,
        List.length_cons, Nat.add_comm]
  have hdigit : ∀ n < 16, quoteChar (hexDigit n) = [hexDigit n] ∧ (hexDigit n).utf8Size = 1 := by
    intro n hn
    interval_cases n <;> decide
  have htext : ("legacy-" ++ hexEncode bs).toList = "legacy-".toList ++ bs.flatMap fun b =>
      [hexDigit (b.toNat / 16), hexDigit (b.toNat % 16)] := by
    rw [hexEncode, String.toList_append]
    exact congrArg ("legacy-".toList ++ ·) String.toList_ofList
  change (encodeText (("legacy-" ++ hexEncode bs).toList.flatMap quoteChar)).length = _
  rw [htext, hplain]
  · rw [List.length_append, List.length_flatMap]
    simp only [List.length_cons, List.length_nil, List.map_const', List.sum_replicate, smul_eq_mul]
    rw [show "legacy-".toList.length = 7 by decide]
    omega
  · intro c hc
    rcases List.mem_append.1 hc with hc | hc
    · have hlegacy : ("legacy-".toList.all fun c => decide (quoteChar c = [c] ∧ c.utf8Size = 1))
          = true := by decide
      exact of_decide_eq_true (List.all_eq_true.1 hlegacy c hc)
    · obtain ⟨b, -, hb⟩ := List.mem_flatMap.1 hc
      have := b.toNat_lt
      simp only [List.mem_cons, List.not_mem_nil, or_false] at hb
      rcases hb with rfl | rfl
      · exact hdigit _ (by omega)
      · exact hdigit _ (by omega)

theorem spooledLegacy_ok {W : Wire} {payloadType : String} {body : List UInt8} {ev : IngestEvent}
    (h : W.spooledLegacy payloadType body = .ok ev) :
    (∃ m identity, decodeIngest W.parseMetric body = .ok m
        ∧ ev = W.legacyEvent identity (some { m with tenantID := "" }) none)
      ∨ ∃ p identity, decodeIngest W.parseProcess body = .ok p
        ∧ ev = W.legacyEvent identity none (some { p with tenantID := "" }) := by
  unfold Wire.spooledLegacy at h
  obtain ⟨⟨ev', identity⟩, hrow, h⟩ := Table.ok_of_bind h
  cases h
  split_ifs at hrow
  · rcases hm : decodeIngest W.parseMetric body with e | m <;> rw [hm] at hrow
    · cases hrow
    · cases hrow
      exact .inl ⟨m, _, rfl, rfl⟩
  · rcases hp : decodeIngest W.parseProcess body with e | p <;> rw [hp] at hrow
    · cases hrow
    · cases hrow
      exact .inr ⟨p, _, rfl, rfl⟩

/-- The event of an entry is covered by the estimate for its record. -/
theorem spooledEvent_bytes (hsha : ∀ bs, (sha256 bs).length = 32) {e : SpoolEntry}
    {ev : IngestEvent} {j : Json} (he : Compacted e.body)
    (hev : (Wire.json S sha256).spooledEvent e.payloadType e.raw = .ok ev)
    (hj : encodeObj (IngestEvent.fields S) ev = some j) : j.bytes + 1 ≤ e.marshal.length * 2 + 1024 := by
  have hlen := body_le_marshal he
  have hbytes := IngestEvent.bytes_le hj
  have hlegacy : ∀ bs, quoted ("legacy-" ++ hexEncode (sha256 bs)) = 71 := fun bs => by
    rw [quoted_hex, hsha]
  have hboot : quoted "legacy" = 6 := by decide +kernel
  have hempty : quoted "" = 0 := by decide +kernel
  unfold Wire.spooledEvent at hev
  split_ifs at hev with htype
  · -- an event has its own identity, and at worst both rows
    split at hev
    · cases hev
    · rename_i ev' hdec
      cases hev
      have hweight := decodeIngest_weight he (by decide +kernel) IngestEvent.takes hdec
      have hrows : ev.rowBytes ≤ 1008 := by
        unfold IngestEvent.rowBytes
        split_ifs <;> decide
      omega
  · rcases spooledLegacy_ok hev with ⟨m, identity, hdec, rfl⟩ | ⟨p, identity, hdec, rfl⟩
    · have hweight := decodeIngest_weight he (by decide +kernel) MetricRow.takes hdec
      simp only [IngestEvent.weight, IngestEvent.rowBytes, Wire.legacyEvent, Wire.json, hlegacy, hboot,
        Option.map_some, Option.map_none, Option.getD_some, Option.getD_none, Option.isSome_some,
        Option.isSome_none, Bool.false_eq_true, if_true, if_false, MetricRow.weight, hempty]
        at hbytes hweight
      omega
    · have hweight := decodeIngest_weight he (by decide +kernel) ProcessRow.takes hdec
      simp only [IngestEvent.weight, IngestEvent.rowBytes, Wire.legacyEvent, Wire.json, hlegacy, hboot,
        Option.map_some, Option.map_none, Option.getD_some, Option.getD_none, Option.isSome_some,
        Option.isSome_none, Bool.false_eq_true, if_true, if_false, ProcessRow.weight, hempty]
        at hbytes hweight
      omega

theorem spooledEvents_bytes (hsha : ∀ bs, (sha256 bs).length = 32) {group : List SpoolEntry}
    (hgroup : ∀ e ∈ group, Compacted e.body) {events : List IngestEvent} {js : List Json}
    (hevents : (Wire.json S sha256).spooledEvents group = .ok events)
    (hjs : events.mapM (encodeObj (IngestEvent.fields S)) = some js) :
    elemBytes js ≤ (group.map fun e => e.marshal.length * 2 + 1024).sum := by
  induction group generalizing events js with
  | nil =>
    cases hevents
    cases hjs
    exact le_rfl
  | cons e group ih =>
    rw [List.forall_mem_cons] at hgroup
    simp only [Wire.spooledEvents] at hevents
    obtain ⟨ev, hev, hevents⟩ := Table.ok_of_bind hevents
    obtain ⟨rest, hrest, hevents⟩ := Table.ok_of_bind hevents
    cases hevents
    rw [List.mapM_cons, Option.bind_eq_bind, Option.bind_eq_some_iff] at hjs
    obtain ⟨j, hj, hjs⟩ := hjs
    rw [Option.bind_eq_bind, Option.bind_eq_some_iff] at hjs
    obtain ⟨js', hjs', hjs⟩ := hjs
    cases hjs
    rw [elemBytes, List.map_cons, List.sum_cons, List.map_cons, List.sum_cons]
    exact Nat.add_le_add (spooledEvent_bytes S hsha hgroup.1 hev hj) (ih hgroup.2 hrest hjs')

/-- The batch that `deliverBatch` makes of a group of `DrainBatches` is within the limit. -/
theorem encodeBatch_length (hsha : ∀ bs, (sha256 bs).length = 32) (maximum : ℕ)
    {rest : List SpoolEntry} (hrest : ∀ e ∈ rest, Compacted e.body) {events : List IngestEvent}
    {body : List UInt8} (hevents : (Wire.json S sha256).spooledEvents
      (rest.take (Spool.groupSize maximum 0 1024 rest)) = .ok events)
    (hbody : (Wire.json S sha256).encodeBatch ⟨ingestSchema, events⟩ = .ok body) :
    body.length ≤ maxBatchBytes := by
  have hfits := Spool.groupSize_bytes maximum rest 0 (show 1024 ≤ maxBatchBytes by decide)
  rw [Nat.sub_zero] at hfits
  simp only [Wire.json, marshalObj] at hbody
  split at hbody
  · cases hbody
  · rename_i j hj
    cases hbody
    have hbytes := IngestBatch.bytes_le (fun js => spooledEvents_bytes S hsha
      (fun e he => hrest e (List.mem_of_mem_take he)) hevents) hj
    have hschema : quoted ingestSchema = 14 := by decide +kernel
    change j.bytes ≤ _
    dsimp only at hbytes
    omega

/-! ## Passes -/

theorem mem_cuts {α : Type} {size : List α → ℕ} {fuel : ℕ} {xs g : List α}
    (h : g ∈ cuts size fuel xs) : ∃ k, g = (xs.drop k).take (size (xs.drop k)) := by
  induction fuel generalizing xs with
  | zero => cases h
  | succ fuel ih =>
    rcases xs with _ | ⟨x, xs⟩
    · cases h
    · rw [cuts] at h
      split_ifs at h
      · cases h
      · rcases List.mem_cons.1 h with rfl | h
        · exact ⟨0, rfl⟩
        · obtain ⟨k, rfl⟩ := ih h
          exact ⟨size (x :: xs) + k, by rw [List.drop_drop]⟩

namespace Spool

open Prog

/-- Groups that `deliver` gets: none is empty, none has more than `maximum` entries, and the batch of
each is within the limit. -/
structure Fit (W : Wire) (maximum : ℕ) (groups : List (List SpoolEntry)) : Prop where
  nonempty : ∀ g ∈ groups, g ≠ []
  small : ∀ g ∈ groups, g.length ≤ maximum
  bytes : ∀ g ∈ groups, ∀ events body, W.spooledEvents g = .ok events →
    W.encodeBatch ⟨ingestSchema, events⟩ = .ok body → body.length ≤ maxBatchBytes

/-- How a pass comes through segments of which `rest` is left, `first` saying from which index on: its
calls of `deliver`, with `delivered` entries before, and what it returns. A segment is presented to
its end, or up to an entry over the budget, where the pass ends. -/
inductive Packs (W : Wire) (maximum t : ℕ) (bound : Option SpoolBinding)
    (rest : SegName → List SpoolEntry) (first : SegName → ℕ) :
    List SegName → ℕ → List Presented → Except (ℕ × SpoolError) ℕ → Prop
  | done (delivered : ℕ) : Packs W maximum t bound rest first [] delivered [] (.ok delivered)
  | next {n : SegName} {ns : List SegName} {delivered : ℕ} {groups : List (List SpoolEntry)}
      {later : List Presented} {r : Except (ℕ × SpoolError) ℕ} (hfit : Fit W maximum groups)
      (hall : groups.flatten = rest n)
      (hlater : Packs W maximum t bound rest first ns (delivered + (rest n).length) later r) :
      Packs W maximum t bound rest first (n :: ns) delivered
        ((numbered (first n) groups).map (fun p => ⟨t, n, p.1, p.2, bound⟩) ++ later) r
  | stop {n : SegName} {ns : List SegName} {delivered : ℕ} {groups : List (List SpoolEntry)}
      {e : SpoolEntry} {behind : List SpoolEntry} (hfit : Fit W maximum groups)
      (hupto : rest n = groups.flatten ++ e :: behind) (hover : ¬ InBudget e) :
      Packs W maximum t bound rest first (n :: ns) delivered
        ((numbered (first n) groups).map fun p => ⟨t, n, p.1, p.2, bound⟩)
        (.error (delivered + groups.flatten.length, .transportBudget))

/-- Every segment that a pass comes to can be read. -/
def ReadableTo (es : SegName → List SpoolEntry) (first : SegName → ℕ) : List SegName → Prop
  | [] => True
  | n :: ns => (∀ e ∈ es n, e.Readable)
    ∧ ((∀ e ∈ (es n).drop (first n), InBudget e) → ReadableTo es first ns)

variable {η θ : Type} {c : Choice θ} (t : ℕ)

theorem fit_cuts (hsha : ∀ bs, (sha256 bs).length = 32) (maximum fuel : ℕ)
    {rest : List SpoolEntry} (hrest : ∀ e ∈ rest, Compacted e.body) :
    Fit (Wire.json S sha256) maximum (cuts (groupSize maximum 0 1024) fuel rest) where
  nonempty := cuts_ne_nil _
  small g hg := by
    obtain ⟨k, rfl⟩ := mem_cuts hg
    exact (List.length_take_le _ _).trans (groupSize_le_maximum _ _ (Nat.zero_le _))
  bytes g hg events body hevents hbody := by
    obtain ⟨k, rfl⟩ := mem_cuts hg
    exact encodeBatch_length S hsha maximum (fun e he => hrest e (List.mem_of_mem_drop he)) hevents
      hbody

theorem Packs.result {W : Wire} {maximum t : ℕ} {bound : Option SpoolBinding}
    {rest : SegName → List SpoolEntry} {first : SegName → ℕ} {ns : List SegName} {delivered : ℕ}
    {calls : List Presented} {r : Except (ℕ × SpoolError) ℕ}
    (h : Packs W maximum t bound rest first ns delivered calls r) :
    ∀ k, r ≠ .error (k, .corruptEvidence) := by
  induction h with
  | done => simp
  | next _ _ _ ih => exact ih
  | stop => simp

/-- The groups of a segment end at its end, or at an entry over the budget. -/
theorem cuts_stop {maximum fuel : ℕ} (hm : 1 ≤ maximum) {rest : List SpoolEntry}
    (hf : rest.length ≤ fuel)
    (h : (cuts (groupSize maximum 0 1024) fuel rest).flatten.length ≠ rest.length) :
    ∃ e behind, rest = (cuts (groupSize maximum 0 1024) fuel rest).flatten ++ e :: behind
      ∧ ¬ InBudget e := by
  rw [cuts_groupSize hm hf] at h ⊢
  rcases hd : rest.dropWhile fun e => decide (InBudget e) with _ | ⟨e, behind⟩
  · rw [List.dropWhile_eq_nil_iff] at hd
    exact absurd (congrArg List.length (List.takeWhile_eq_self_iff.2 hd)) h
  · refine ⟨e, behind, ?_, ?_⟩
    · rw [← hd, List.takeWhile_append_dropWhile]
    · have := List.head?_dropWhile_not (fun e => decide (InBudget e)) rest
      rw [hd] at this
      simpa using this

theorem drainPaths_packs {D : Draining η θ} (h : Succeeding D c)
    (hsha : ∀ bs, (sha256 bs).length = 32) {maximum : ℕ} (hm : 1 ≤ maximum)
    (hg : D.group = groupSize maximum 0 1024) (hcorrupt : D.corrupt = .corruptEvidence)
    {es : SegName → List SpoolEntry} {first : SegName → ℕ} {bound : Option SpoolBinding}
    {paths : List SegName} (hnodup : paths.Nodup) (delivered : ℕ) {s : Spool η} (hmu : s.mu = none)
    (hfirst : ∀ n ∈ paths, s.checkpointOf n = first n) (hbound : s.bound = bound)
    (hs : Holds es paths s) :
    ∃ r s', (D.drainPaths t paths delivered).alone c s = some (r, s')
      ∧ ((ReadableTo es first paths ∧ ∃ calls,
          s'.progress.presented = s.progress.presented ++ calls
          ∧ Packs (Wire.json S sha256) maximum t bound
            (fun n => ((es n).map SpoolEntry.stored).drop (first n)) first paths delivered calls r)
        ∨ (¬ ReadableTo es first paths ∧ ∃ k, r = .error (k, .corruptEvidence))) := by
  induction paths generalizing delivered s with
  | nil =>
    exact ⟨.ok delivered, s, rfl, .inl ⟨trivial, [], (List.append_nil _).symm, .done delivered⟩⟩
  | cons path paths ih =>
    rw [List.nodup_cons] at hnodup
    rw [List.forall_mem_cons] at hfirst
    have hseg := hs.segs path List.mem_cons_self
    have hdec := hs.decodes List.mem_cons_self
    rw [Draining.drainPaths, alone_bind, alone_mapError, h.ctx, Option.map_some, Option.bind_some]
    dsimp only [Except.mapError]
    by_cases hr : ∀ e ∈ es path, e.Readable
    swap
    · rw [if_neg hr] at hdec
      obtain ⟨s₁, hrun, -⟩ := drainPath_corrupt t path D h.fault delivered hmu hseg hdec
      rw [alone_bind, hrun, Option.bind_some]
      exact ⟨_, s₁, rfl, .inr ⟨fun hread => hr hread.1, delivered, by rw [hcorrupt]⟩⟩
    rw [if_pos hr] at hdec
    obtain ⟨s₁, hrun, hpassed, hpresented⟩ := drainPath_alone t path h delivered hmu hseg hdec
      (by simpa using hs.acks path List.mem_cons_self)
    rw [hg, hfirst.1, hbound] at hpresented
    rw [hg, hfirst.1] at hrun
    set rest := ((es path).map SpoolEntry.stored).drop (first path) with hrest
    have hlen : rest.length ≤ ((es path).map SpoolEntry.stored).length := by simp [hrest]
    have hcompact : ∀ e ∈ rest, Compacted e.body := by
      intro e he
      obtain ⟨e', -, rfl⟩ := List.mem_map.1 (List.mem_of_mem_drop he)
      exact compacted_compact e'.body
    have hfit := fit_cuts S hsha maximum ((es path).map SpoolEntry.stored).length hcompact
    have hleft : ((es path).drop (first path)).length
        ≤ ((es path).map SpoolEntry.stored).length := by simp
    have hiff := reached_iff hm ((es path).drop (first path)) hleft
    rw [List.map_drop, ← hrest] at hiff
    rw [alone_bind, hrun, Option.bind_some, outcome]
    split_ifs with hreached
    · have hflat : (cuts (groupSize maximum 0 1024) ((es path).map SpoolEntry.stored).length
          rest).flatten = rest := by
        have hcuts := cuts_groupSize hm hlen
        rw [hcuts] at hreached ⊢
        exact (List.takeWhile_prefix _).eq_of_length hreached
      obtain ⟨hs₁, hsame⟩ := hs.passed path hpassed hnodup.1
      have hfirst₁ : ∀ n ∈ paths, s₁.checkpointOf n = first n := fun n hn =>
        (hsame n hn).trans (hfirst.2 n hn)
      have hbound₁ : s₁.bound = bound := by rw [← hbound, Spool.bound, hpassed.custody, Spool.bound]
      obtain ⟨r, s', hlater, hends⟩ := ih hnodup.2 _ (hpassed.mu.trans hmu) hfirst₁ hbound₁ hs₁
      refine ⟨r, s', hlater, ?_⟩
      rcases hends with ⟨hread, calls, hcalls, hpacks⟩ | ⟨hread, hends⟩
      · rw [hreached] at hpacks
        refine .inl ⟨⟨hr, fun _ => hread⟩, _, ?_, .next hfit hflat hpacks⟩
        rw [hcalls, hpresented, List.append_assoc]
      · exact .inr ⟨fun hto => hread (hto.2 (hiff.1 hreached)), hends⟩
    · obtain ⟨e, behind, hupto, hover⟩ := cuts_stop hm hlen hreached
      exact ⟨_, s₁, rfl, .inl ⟨⟨hr, fun hall => absurd (hiff.2 hall) hreached⟩, _, hpresented,
        .stop hfit hupto hover⟩⟩

theorem pass_packs {D : Draining η θ} (h : Succeeding D c) (hsha : ∀ bs, (sha256 bs).length = 32)
    {maximum : ℕ} (hm : 1 ≤ maximum) (hg : D.group = groupSize maximum 0 1024)
    (hcorrupt : D.corrupt = .corruptEvidence) {es : SegName → List SpoolEntry} {s : Spool η}
    (hidle : Idle s) (hs : Holds es s.segments s) :
    ∃ r s', (D.pass t).alone c s = some (r, s')
      ∧ ((ReadableTo es s.checkpointOf s.segments ∧ ∃ calls,
          s'.progress.presented = s.progress.presented ++ calls
          ∧ Packs (Wire.json S sha256) maximum t s.bound
            (fun n => ((es n).map SpoolEntry.stored).drop (s.checkpointOf n)) s.checkpointOf s.segments
            0 calls r)
        ∨ (¬ ReadableTo es s.checkpointOf s.segments
          ∧ ∃ k, r = .error (k, .corruptEvidence))) := by
  obtain ⟨current, curSize, passes, hpass⟩ := pass_begun t D h.fault hidle
  obtain ⟨r, s', hrun, hends⟩ := drainPaths_packs S t h hsha hm hg hcorrupt hidle.segments_nodup 0
    (s := begun t current curSize passes s) rfl (fun _ _ => rfl) rfl
    ⟨hs.segs, hs.small, hs.appendable, hs.acks⟩
  exact ⟨r, { s' with drainMu := none }, hpass hrun, hends⟩

theorem drainBatches_packs (hsha : ∀ bs, (sha256 bs).length = 32) (ctx : SpoolM η θ Unit)
    (deliver : List SpoolEntry → SpoolM η θ Unit) (hc : c.fault = .none)
    (hctx : ∀ s, ctx.alone c s = some (.ok (), s))
    (hdeliver : ∀ group s, ∃ env, (deliver group).alone c s = some (.ok (), { s with env := env }))
    {maximum : ℕ} (hm : 1 ≤ maximum) (hmax : maximum ≤ maxBatchEvents)
    {es : SegName → List SpoolEntry} {s : Spool η} (hidle : Idle s) (hs : Holds es s.segments s) :
    ∃ r s', (drainBatches t ctx maximum deliver).alone c s = some (r, s')
      ∧ ((ReadableTo es s.checkpointOf s.segments ∧ ∃ calls,
          s'.progress.presented = s.progress.presented ++ calls
          ∧ Packs (Wire.json S sha256) maximum t s.bound
            (fun n => ((es n).map SpoolEntry.stored).drop (s.checkpointOf n)) s.checkpointOf s.segments
            0 calls r)
        ∨ (¬ ReadableTo es s.checkpointOf s.segments
          ∧ ∃ k, r = .error (k, .corruptEvidence))) := by
  obtain ⟨r, s', hrun, hends⟩ := pass_packs S t (D := ⟨ctx, groupSize maximum 0 1024, deliver,
    .corruptEvidence⟩) ⟨hc, hctx, hdeliver⟩ hsha hm rfl rfl hidle hs
  refine ⟨r, s', ?_, hends⟩
  rw [drainBatches, alone_bind, alone_failIf, Option.bind_some, if_neg (by omega)]
  exact hrun

/-- Only zero values have texts. -/
def zeroScalars : Scalars where
  float v := if v = .fin 0 then some (Json.int 0) else none
  parseFloat _ := some (.fin 0)
  time t := if t = zeroTime then some (quote "0001-01-01T00:00:00Z") else none
  parseTime _ := some zeroTime
  float_length := by
    intro v lit h
    split_ifs at h
    cases h
    decide +kernel
  time_length := by
    intro t raw h
    split_ifs at h
    cases h
    decide +kernel
  time_plain := by
    intro t raw h
    split_ifs at h
    cases h
    have hplain : ((quote "0001-01-01T00:00:00Z").text.all fun c => !isHTML c) = true := by
      decide +kernel
    intro c hc
    simpa using List.all_eq_true.1 hplain c hc
  parseFloat_float := by
    intro v lit h
    split_ifs at h with hv
    rw [hv]
  parseTime_time := by
    intro t raw h
    split_ifs at h with ht
    rw [ht]
  float_finite := by
    intro v lit h
    split_ifs at h with hv
    exact ⟨0, hv⟩

def zeroHash : List UInt8 → List UInt8 := fun _ => List.replicate 32 0

theorem zeroHash_length (bs : List UInt8) : (zeroHash bs).length = 32 := List.length_replicate

/-- A queue with one segment. -/
def oneSegment (es : List SpoolEntry) : Spool Unit where
  queue :=
    { names := [⟨0, 0⟩]
      segs := Function.update (fun _ => none) ⟨0, 0⟩ (some (segmentOf es)) }
  env := ()

theorem oneSegment_segments (es : List SpoolEntry) : (oneSegment es).segments = [⟨0, 0⟩] := by
  rw [segments, show (oneSegment es).queue.names = [⟨0, 0⟩] from rfl,
    List.filter_cons_of_pos (by simp [oneSegment])]
  exact List.mergeSort_singleton _

theorem oneSegment_holds {es : List SpoolEntry} (hes : ∀ e ∈ es, Appendable e)
    (hlen : (segmentOf es).length ≤ maxSegmentBytes) :
    Idle (oneSegment es) ∧ Holds (fun _ => es) (oneSegment es).segments (oneSegment es) := by
  refine ⟨⟨rfl, rfl, rfl, List.nodup_singleton _⟩, ?_⟩
  rw [oneSegment_segments]
  refine ⟨?_, fun _ _ => hlen, fun _ _ => hes, fun _ _ => ?_⟩
  · simp [oneSegment]
  · intro text h
    cases h

theorem appendable_empty {payloadType : String}
    (h : (SpoolEntry.line ⟨payloadType, .obj [], 0⟩).length ≤ maxRecordBytes) :
    Appendable ⟨payloadType, .obj [], 0⟩ := by
  have hentry : newEntry payloadType (Json.obj []).print 0 = .ok ⟨payloadType, .obj [], 0⟩ := by
    rw [newEntry, show Json.parse (Json.obj []).print = some (.obj []) by rfl]
    rfl
  exact ⟨⟨payloadType, (Json.obj []).print, 0, 0, none⟩, newSegment,
    (append_newSegment hentry h rfl rfl).1, hentry⟩

end Spool

end WMonitor
