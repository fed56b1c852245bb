import Mathlib.Data.List.TakeWhile
import WMonitor.Proofs.SpoolRollback

/-!
# The groups of a drain

`DrainBatches` cuts what is left of a segment into groups. If the callback succeeds the groups are
contiguous, and they end at the first entry that is too large for a batch by itself
(`deliverFrom_alone`, `cuts_groupSize`). `append` takes entries of up to 1 MiB, and a pass over a
queue of such entries gets to its end exactly if none of them is larger than 130048 bytes
(`budget_iff`).
-/

namespace WMonitor

/-! ## Cutting a list -/

section Cuts

variable {α : Type} (size : List α → ℕ)

/-- A list in pieces; `size` says how long the next one is, and that there is none if it is 0. -/
def cuts : ℕ → List α → List (List α)
  | 0, _ => []
  | _ + 1, [] => []
  | fuel + 1, x :: xs =>
    if size (x :: xs) = 0 then []
    else (x :: xs).take (size (x :: xs)) :: cuts fuel ((x :: xs).drop (size (x :: xs)))

/-- Pieces with the index at which each begins. -/
def numbered : ℕ → List (List α) → List (ℕ × List α)
  | _, [] => []
  | i, g :: gs => (i, g) :: numbered (i + g.length) gs

theorem cuts_ne_nil {fuel : ℕ} {xs : List α} : ∀ g ∈ cuts size fuel xs, g ≠ [] := by
  induction fuel generalizing xs with
  | zero => simp [cuts]
  | succ fuel ih =>
    rcases xs with _ | ⟨x, xs⟩
    · simp [cuts]
    · rw [cuts]
      split_ifs with h
      · simp
      · simp only [List.forall_mem_cons]
        exact ⟨by simp [h], ih⟩

end Cuts

namespace Json

theorem escapeHTML_plain (raw : RawStr) : ∀ c ∈ (escapeHTML raw).text, isHTML c = false := by
  intro c hc
  obtain ⟨d, -, hd⟩ := List.mem_flatMap.1 hc
  unfold escapeChar at hd
  split_ifs at hd with h
  · have hex : ∀ m, isHTML (hexDigit (m % 0x10)) = false := fun m =>
      isHTML_of_escape (.inl (hexDigit_isHex (Nat.mod_lt _ (by decide))))
    simp only [hex4, List.mem_cons, List.not_mem_nil, or_false] at hd
    rcases hd with rfl | rfl | rfl | rfl | rfl | rfl
    · decide
    · decide
    all_goals exact hex _
  · rw [List.mem_singleton.1 hd]
    simpa using h

theorem escapeHTML_escapeHTML (raw : RawStr) : escapeHTML (escapeHTML raw) = escapeHTML raw := by
  have h : ∀ cs : List Char, (∀ c ∈ cs, isHTML c = false) → cs.flatMap escapeChar = cs := by
    intro cs hcs
    induction cs with
    | nil => rfl
    | cons c cs ih =>
      rw [List.forall_mem_cons] at hcs
      rw [List.flatMap_cons, escapeChar_of_not hcs.1, ih hcs.2]
      rfl
  rw [escapeHTML, RawStr.mk.injEq]
  exact h _ (escapeHTML_plain raw)

mutual

theorem compact_compact : ∀ j : Json, compact (compact j) = compact j
  | null => rfl
  | bool _ => rfl
  | num _ => rfl
  | str raw => by rw [compact, compact, escapeHTML_escapeHTML]
  | arr xs => by rw [compact, compact, compactElems_compactElems xs]
  | obj ms => by rw [compact, compact, compactMembers_compactMembers ms]

theorem compactElems_compactElems : ∀ xs : List Json,
    compactElems (compactElems xs) = compactElems xs
  | [] => rfl
  | x :: xs => by
    rw [compactElems, compactElems, compact_compact x, compactElems_compactElems xs]

theorem compactMembers_compactMembers : ∀ ms : List (RawStr × Json),
    compactMembers (compactMembers ms) = compactMembers ms
  | [] => rfl
  | (k, x) :: ms => by
    rw [compactMembers, compactMembers, escapeHTML_escapeHTML, compact_compact x,
      compactMembers_compactMembers ms]

end

end Json

namespace Spool

open Prog

variable {η θ : Type}

/-! ## The size of a group -/

/-- An entry that goes into a batch, alone if need be. -/
def InBudget (e : SpoolEntry) : Prop := 1024 + (e.marshal.length * 2 + 1024) ≤ maxBatchBytes

instance (e : SpoolEntry) : Decidable (InBudget e) := inferInstanceAs (Decidable (_ ≤ _))

theorem inBudget_iff {e : SpoolEntry} : InBudget e ↔ e.marshal.length ≤ 130048 := by
  unfold InBudget maxBatchBytes
  omega

/-- A record is as long when it is read back. -/
theorem inBudget_stored {e : SpoolEntry} : InBudget e.stored ↔ InBudget e := by
  have h : e.stored.json = e.json := by
    simp only [SpoolEntry.json, SpoolEntry.stored, Json.compact_compact]
  rw [InBudget, InBudget, SpoolEntry.marshal, SpoolEntry.marshal, h]

theorem le_groupSize (maximum : ℕ) (es : List SpoolEntry) (count size : ℕ) :
    count ≤ groupSize maximum count size es := by
  induction es generalizing count size with
  | nil => exact le_rfl
  | cons e es ih =>
    rw [groupSize]
    dsimp only
    split_ifs
    · exact le_rfl
    · exact (Nat.le_succ count).trans (ih _ _)
    · exact le_rfl

theorem groupSize_le_maximum {maximum : ℕ} (es : List SpoolEntry) {count : ℕ} (size : ℕ)
    (h : count ≤ maximum) : groupSize maximum count size es ≤ maximum := by
  induction es generalizing count size with
  | nil => exact h
  | cons e es ih =>
    rw [groupSize]
    dsimp only
    split_ifs with hc hs
    · exact h
    · exact ih _ hc
    · exact h

/-- The entries of a group and what else is in the batch are within the limit. -/
theorem groupSize_bytes (maximum : ℕ) (es : List SpoolEntry) (count : ℕ) {size : ℕ}
    (h : size ≤ maxBatchBytes) : size + ((es.take (groupSize maximum count size es - count)).map fun e =>
      e.marshal.length * 2 + 1024).sum ≤ maxBatchBytes := by
  induction es generalizing count size with
  | nil => simpa [groupSize] using h
  | cons e es ih =>
    rw [groupSize]
    dsimp only
    split_ifs with hc hs
    · simpa using h
    · have hle := le_groupSize maximum es (count + 1) (size + (e.marshal.length * 2 + 1024))
      obtain ⟨k, hk⟩ := Nat.exists_eq_add_of_le hle
      have ih := ih (count + 1) (not_lt.1 hs)
      rw [hk, Nat.add_sub_cancel_left] at ih
      rw [hk, show count + 1 + k - count = k + 1 by omega, List.take_succ_cons, List.map_cons,
        List.sum_cons]
      omega
    · simpa using h

theorem groupSize_inBudget (maximum : ℕ) (es : List SpoolEntry) :
    ∀ e ∈ es.take (groupSize maximum 0 1024 es), InBudget e := by
  intro e he
  have h := groupSize_bytes maximum es 0 (show 1024 ≤ maxBatchBytes by decide)
  have hle := List.single_le_sum (fun _ _ => Nat.zero_le _) _
    (List.mem_map_of_mem (f := fun e : SpoolEntry => e.marshal.length * 2 + 1024) he)
  rw [Nat.sub_zero] at h
  exact le_trans (Nat.add_le_add_left hle 1024) h

theorem groupSize_eq_zero {maximum : ℕ} (hm : 1 ≤ maximum) {e : SpoolEntry} {es : List SpoolEntry}
    (h : groupSize maximum 0 1024 (e :: es) = 0) : ¬ InBudget e := by
  intro hf
  rw [groupSize, if_pos (show 0 < maximum from hm), if_neg (not_lt.2 hf)] at h
  have := le_groupSize maximum es (0 + 1) (1024 + (e.marshal.length * 2 + 1024))
  omega

/-- The groups end at the first entry that does not fit. -/
theorem cuts_groupSize {maximum : ℕ} (hm : 1 ≤ maximum) {fuel : ℕ} {es : List SpoolEntry}
    (h : es.length ≤ fuel) :
    (cuts (groupSize maximum 0 1024) fuel es).flatten = es.takeWhile fun e => decide (InBudget e) := by
  induction fuel generalizing es with
  | zero =>
    obtain rfl := List.eq_nil_of_length_eq_zero (Nat.le_zero.1 h)
    rfl
  | succ fuel ih =>
    rcases es with _ | ⟨e, es⟩
    · rfl
    · rw [cuts]
      split_ifs with hz
      · rw [List.takeWhile_cons_of_neg (by simpa using groupSize_eq_zero hm hz)]
        rfl
      · have hlen : ((e :: es).drop (groupSize maximum 0 1024 (e :: es))).length ≤ fuel := by
          rw [List.length_drop]
          omega
        have hfits := groupSize_inBudget maximum (e :: es)
        conv_rhs => rw [← List.take_append_drop (groupSize maximum 0 1024 (e :: es)) (e :: es),
          List.takeWhile_append_of_pos (fun x hx => decide_eq_true (hfits x hx))]
        rw [List.flatten_cons, ih hlen]

/-! ## A segment -/

section Alone

variable {c : Choice θ} {s : Spool η} (t : ℕ) (path : SegName)

/-- A drain whose context is not cancelled and whose callback succeeds. -/
structure Succeeding (D : Draining η θ) (c : Choice θ) : Prop where
  fault : c.fault = .none
  ctx : ∀ s, D.ctx.alone c s = some (.ok (), s)
  deliver : ∀ group s, ∃ env, (D.deliver group).alone c s = some (.ok (), { s with env := env })

/-- After groups of `path` were delivered, from index `next` on. -/
structure After (next : ℕ) (groups : List (List SpoolEntry)) (s s' : Spool η) : Prop where
  mu : s'.mu = s.mu
  queue : s'.queue = s.queue
  custody : s'.custody = s.custody
  acks : ∀ n, n ≠ path → s'.progress.acks n = s.progress.acks n
  presented : s'.progress.presented = s.progress.presented
    ++ (numbered next groups).map fun p => ⟨t, path, p.1, p.2, s.bound⟩

theorem writeAck_alone (hc : c.fault = .none) (n : ℕ) (s : Spool η) :
    (writeAck path n : SpoolM η θ Unit).alone c s = some (.ok (), s.onProgress fun p =>
      { p with acks := Function.update p.acks path (some (itoa n)) }) := by
  simp [writeAck, spoolReplace, hc]

theorem After.cons {next : ℕ} {g : List SpoolEntry} {gs : List (List SpoolEntry)}
    {s s₁ s' : Spool η} (h₁ : After t path next [g] s s₁)
    (h : After t path (next + g.length) gs s₁ s') : After t path next (g :: gs) s s' where
  mu := h.mu.trans h₁.mu
  queue := h.queue.trans h₁.queue
  custody := h.custody.trans h₁.custody
  acks n hn := (h.acks n hn).trans (h₁.acks n hn)
  presented := by
    have hbound : s₁.bound = s.bound := by rw [bound, h₁.custody, bound]
    rw [h.presented, h₁.presented, numbered, numbered, numbered, List.append_assoc, hbound]
    rfl

/-- One round of the loop. -/
def round (D : Draining η θ) (next delivered : ℕ) (group : List SpoolEntry) (k : DrainM η θ ℕ) :
    DrainM η θ ℕ := do
  (present t path next group).mapError fun e => (delivered, e)
  (D.deliver group).mapError fun e => (delivered, e)
  (settle t path next group).mapError fun e => (delivered, e)
  (writeAck path (next + group.length)).mapError fun e => (delivered, e)
  k

theorem round_alone {D : Draining η θ} (h : Succeeding D c) (next delivered : ℕ)
    (group : List SpoolEntry) (k : DrainM η θ ℕ) (s : Spool η) :
    ∃ s₁, After t path next [group] s s₁
      ∧ (round t path D next delivered group k).alone c s = k.alone c s₁ := by
  obtain ⟨env, hd⟩ := h.deliver group (s.onProgress fun p =>
    { p with presented := p.presented ++ [⟨t, path, next, group, s.bound⟩] })
  simp only [round, alone_bind, alone_mapError, present, alone_modify, Option.map_some,
    Option.bind_some, hd, settle, writeAck_alone path h.fault, Except.mapError]
  refine ⟨_, ?_, rfl⟩
  exact ⟨rfl, rfl, rfl, fun n hn => Function.update_of_ne hn _ _, rfl⟩

/-- A drain that came through `reached` of so many entries. -/
def outcome (reached total delivered : ℕ) : Except (ℕ × SpoolError) ℕ :=
  if reached = total then .ok (delivered + reached)
  else .error (delivered + reached, .transportBudget)

theorem outcome_add (first reached total delivered : ℕ) :
    outcome (first + reached) (first + total) delivered
      = outcome reached total (delivered + first) := by
  simp only [outcome, Nat.add_right_inj, Nat.add_assoc]

/-- The loop of a drain presents the pieces that the list is cut into, and comes to its end if there
is nothing left behind them. -/
theorem deliverFrom_alone {D : Draining η θ} (h : Succeeding D c) {fuel : ℕ} (next delivered : ℕ)
    {rest : List SpoolEntry} (hf : rest.length ≤ fuel) (s : Spool η) :
    ∃ s', (D.deliverFrom t path fuel next rest delivered).alone c s
        = some (outcome (cuts D.group fuel rest).flatten.length rest.length delivered, s')
      ∧ After t path next (cuts D.group fuel rest) s s' := by
  induction fuel generalizing next delivered rest s with
  | zero =>
    obtain rfl := List.eq_nil_of_length_eq_zero (Nat.le_zero.1 hf)
    exact ⟨s, rfl, rfl, rfl, rfl, fun _ _ => rfl, (List.append_nil _).symm⟩
  | succ fuel ih =>
    rcases rest with _ | ⟨e, rest⟩
    · exact ⟨s, rfl, rfl, rfl, rfl, fun _ _ => rfl, (List.append_nil _).symm⟩
    rw [Draining.deliverFrom, cuts, alone_bind, alone_mapError, h.ctx, Option.map_some,
      Option.bind_some]
    swap
    · exact List.cons_ne_nil e rest
    dsimp only [Except.mapError]
    rw [alone_bind, alone_failIf, Option.bind_some]
    split_ifs with hz
    · exact ⟨s, by simp [outcome], rfl, rfl, rfl, fun _ _ => rfl, (List.append_nil _).symm⟩
    · dsimp only
      obtain ⟨s₁, hround, hrun⟩ := round_alone t path h next delivered
        ((e :: rest).take (D.group (e :: rest))) (D.deliverFrom t path fuel
          (next + ((e :: rest).take (D.group (e :: rest))).length)
          ((e :: rest).drop (D.group (e :: rest)))
          (delivered + ((e :: rest).take (D.group (e :: rest))).length)) s
      have hlen : ((e :: rest).drop (D.group (e :: rest))).length ≤ fuel := by
        rw [List.length_drop]
        omega
      obtain ⟨s', hrest, hafter⟩ := ih _ _ hlen s₁
      refine ⟨s', hrun.trans (hrest.trans ?_), hround.cons t path hafter⟩
      have hsplit : (e :: rest).length = ((e :: rest).take (D.group (e :: rest))).length
          + ((e :: rest).drop (D.group (e :: rest))).length := by
        rw [← List.length_append, List.take_append_drop]
      rw [hsplit, List.flatten_cons, List.length_append, outcome_add]

/-- A checkpoint that a pass accepts for a segment of so many entries. -/
def ValidAck (total : ℕ) (ack : Option (List Char)) : Prop :=
  ∀ text ∈ ack, ∃ k ≤ total, atoi text = some (k : ℤ)

theorem checkpoint_alone (hc : c.fault = .none) {total : ℕ} (s : Spool η)
    (h : ValidAck total (s.progress.acks path)) :
    (checkpoint path total : SpoolM η θ ℕ).alone c s = some (.ok (s.checkpointOf path), s) := by
  rcases hack : s.progress.acks path with _ | text
  · simp [checkpoint, fileOp, hc, hack, checkpointOf]
  · obtain ⟨k, hk, hn⟩ := h text hack
    have hbad : ¬ ((k : ℤ) < 0 ∨ (k : ℤ) > total) := by omega
    simp only [checkpoint, fileOp, alone_act, hc, if_true, hack, hn, if_neg hbad, checkpointOf,
      Option.bind_some, Option.getD_some]

/-- What a pass leaves alone when it is done with `path`. -/
structure Passed (s s' : Spool η) : Prop where
  mu : s'.mu = s.mu
  custody : s'.custody = s.custody
  segs : ∀ n, n ≠ path → s'.queue.segs n = s.queue.segs n
  acks : ∀ n, n ≠ path → s'.progress.acks n = s.progress.acks n

/-- A segment that is done with is removed, and its checkpoint. -/
theorem remove_alone (hc : c.fault = .none) {s : Spool η} {content : List UInt8} (hmu : s.mu = none)
    (hseg : s.queue.segs path = some content) :
    (locked t do
      removeSegment path
      touch
      removeAck path : SpoolM η θ Unit).alone c s = some (.ok (), { s with
        queue := { s.queue with
          segs := Function.update s.queue.segs path none, removed := s.queue.removed ++ [path] }
        progress := { s.progress with acks := Function.update s.progress.acks path none } }) := by
  rw [locked_alone t c _ hmu]
  simp only [alone_bind, removeSegment, removeAck, touch, fileOp, alone_act, hc, if_true,
    hseg, Option.bind_some, Option.map_some, onQueue, onProgress, hmu]

theorem readSegment_alone (hc : c.fault = .none) {content : List UInt8}
    (hseg : s.queue.segs path = some content) :
    (readSegment path : SpoolM η θ (List SpoolEntry)).alone c s
      = some ((decodeSegment content).elim (.error .invalidRecord) .ok, s) := by
  rcases hdec : decodeSegment content with _ | entries
  all_goals simp [readSegment, fileOp, hc, hseg, hdec]

/-- What a drain does with one segment. -/
theorem drainPath_alone {D : Draining η θ} (h : Succeeding D c) (delivered : ℕ) {s : Spool η}
    {content : List UInt8} {entries : List SpoolEntry} (hmu : s.mu = none)
    (hseg : s.queue.segs path = some content) (hdec : decodeSegment content = some entries)
    (hack : ValidAck entries.length (s.progress.acks path)) :
    ∃ s', (D.drainPath t path delivered).alone c s = some (outcome
          (cuts D.group entries.length (entries.drop (s.checkpointOf path))).flatten.length
          (entries.drop (s.checkpointOf path)).length delivered, s')
      ∧ Passed path s s'
      ∧ s'.progress.presented = s.progress.presented
        ++ (numbered (s.checkpointOf path) (cuts D.group entries.length
          (entries.drop (s.checkpointOf path)))).map fun p => ⟨t, path, p.1, p.2, s.bound⟩ := by
  have hlen : (entries.drop (s.checkpointOf path)).length ≤ entries.length := by
    rw [List.length_drop]
    omega
  obtain ⟨s₁, hrun, hafter⟩ :=
    deliverFrom_alone t path h (s.checkpointOf path) delivered hlen s
  rw [Draining.drainPath, alone_bind, alone_attempt, readSegment_alone path h.fault hseg, hdec,
    Option.map_some, Option.bind_some]
  dsimp only [Option.elim]
  rw [alone_bind, alone_mapError, checkpoint_alone path h.fault s hack, Option.map_some,
    Option.bind_some]
  dsimp only [Except.mapError]
  rw [alone_bind, hrun, Option.bind_some]
  unfold outcome
  split_ifs with hall
  · dsimp only
    have hmu₁ : s₁.mu = none := hafter.mu.trans hmu
    have hseg₁ : s₁.queue.segs path = some content := by rw [hafter.queue, hseg]
    rw [alone_bind, alone_mapError, remove_alone t path h.fault hmu₁ hseg₁, Option.map_some,
      Option.bind_some]
    refine ⟨_, rfl, ⟨hafter.mu, hafter.custody, fun n hn => ?_, fun n hn => ?_⟩,
      hafter.presented⟩
    · rw [← hafter.queue]
      exact Function.update_of_ne hn _ _
    · rw [← hafter.acks n hn]
      exact Function.update_of_ne hn _ _
  · exact ⟨s₁, rfl, ⟨hafter.mu, hafter.custody, fun n _ => by rw [hafter.queue], hafter.acks⟩,
      hafter.presented⟩

theorem reached_iff {maximum : ℕ} (hm : 1 ≤ maximum) (es : List SpoolEntry) {fuel : ℕ}
    (hf : es.length ≤ fuel) :
    (cuts (groupSize maximum 0 1024) fuel (es.map SpoolEntry.stored)).flatten.length
      = (es.map SpoolEntry.stored).length ↔ ∀ e ∈ es, InBudget e := by
  rw [cuts_groupSize hm (by rwa [List.length_map])]
  have hself : (es.map SpoolEntry.stored).takeWhile (fun e => decide (InBudget e))
      = es.map SpoolEntry.stored ↔ ∀ e ∈ es, InBudget e := by
    rw [List.takeWhile_eq_self_iff]
    simp only [List.forall_mem_map, decide_eq_true_eq, inBudget_stored]
  rw [← hself]
  exact ⟨(List.takeWhile_prefix _).eq_of_length, congrArg List.length⟩

/-- An entry that `append` takes. -/
def Appendable (e : SpoolEntry) : Prop :=
  ∃ (a : AppendCall) (s : Spool Unit), a.Succeeds s
    ∧ newEntry a.payloadType a.body a.now = .ok e

theorem succeeds_line {a : AppendCall} {s : Spool η} {e : SpoolEntry} (h : a.Succeeds s)
    (he : newEntry a.payloadType a.body a.now = .ok e) : e.line.length ≤ maxRecordBytes := by
  by_contra hlen
  have hlong : (e.marshal ++ [10]).length > maxRecordBytes := not_le.1 hlen
  have hrun : a.run s = (.error .entryTooLarge, s) := by
    have hnow : a.choice.now = a.now := rfl
    rw [AppendCall.run, append, alone_bind, clock, alone_act, Option.bind_some]
    dsimp only
    rw [alone_bind, alone_ofExcept, Option.bind_some, hnow, he]
    dsimp only
    rw [alone_bind, alone_failIf, Option.bind_some, if_pos hlong]
    rfl
  rw [AppendCall.Succeeds, hrun] at h
  cases h

/-- The segments of a queue hold these entries. -/
structure Holds (es : SegName → List SpoolEntry) (paths : List SegName) (s : Spool η) : Prop where
  segs : ∀ n ∈ paths, s.queue.segs n = some (segmentOf (es n))
  small : ∀ n ∈ paths, (segmentOf (es n)).length ≤ maxSegmentBytes
  appendable : ∀ n ∈ paths, ∀ e ∈ es n, Appendable e
  acks : ∀ n ∈ paths, ValidAck (es n).length (s.progress.acks n)

theorem Holds.decodes {es : SegName → List SpoolEntry} {paths : List SegName} {s : Spool η}
    (h : Holds es paths s) {n : SegName} (hn : n ∈ paths) :
    decodeSegment (segmentOf (es n))
      = if ∀ e ∈ es n, e.Readable then some ((es n).map SpoolEntry.stored) else none := by
  have hclocked : ∀ e ∈ es n, e.Clocked := by
    intro e he
    obtain ⟨a, s, -, hentry⟩ := h.appendable n hn e he
    exact (newEntry_ok hentry).2.2
  have hline : ∀ e ∈ es n, e.line.length ≤ maxRecordBytes := by
    intro e he
    obtain ⟨a, s, ha, hentry⟩ := h.appendable n hn e he
    exact succeeds_line ha hentry
  have hiff := decodeSegment_iff hclocked hline (h.small n hn)
  split_ifs with hr
  · exact hiff.2 hr
  · rcases hd : decodeSegment (segmentOf (es n)) with _ | xs
    · rfl
    · obtain rfl := decodeSegment_segmentOf hclocked hd
      exact absurd (hiff.1 hd) hr

/-- What is held behind a segment is still held when the pass is done with it. -/
theorem Holds.passed {es : SegName → List SpoolEntry} {paths : List SegName} {s s₁ : Spool η}
    (h : Holds es (path :: paths) s) (hpassed : Passed path s s₁) (hnot : path ∉ paths) :
    Holds es paths s₁ ∧ ∀ n ∈ paths, s₁.checkpointOf n = s.checkpointOf n := by
  have hne : ∀ n ∈ paths, n ≠ path := by
    rintro n hn rfl
    exact hnot hn
  have hmem : ∀ n ∈ paths, n ∈ path :: paths := fun n => List.mem_cons_of_mem path
  refine ⟨⟨fun n hn => ?_, fun n hn => h.small n (hmem n hn),
    fun n hn => h.appendable n (hmem n hn), fun n hn => ?_⟩, fun n hn => ?_⟩
  · rw [hpassed.segs n (hne n hn)]
    exact h.segs n (hmem n hn)
  · rw [hpassed.acks n (hne n hn)]
    exact h.acks n (hmem n hn)
  · rw [checkpointOf, hpassed.acks n (hne n hn), checkpointOf]

/-- What the visit of one segment leaves as it was. -/
structure Visited (s s' : Spool η) : Prop where
  mu : s'.mu = s.mu
  drainMu : s'.drainMu = s.drainMu
  names : s'.queue.names = s.queue.names
  closed : s'.queue.closed = s.queue.closed
  segs : ∀ n, n ≠ path → s'.queue.segs n = s.queue.segs n
  acks : ∀ n, n ≠ path → s'.progress.acks n = s.progress.acks n

/-- A segment that cannot be read is put away and ends the pass, and not because of the budget. -/
theorem drainPath_corrupt (D : Draining η θ) (hc : c.fault = .none) (delivered : ℕ) {s : Spool η}
    {content : List UInt8} (hmu : s.mu = none) (hseg : s.queue.segs path = some content)
    (hdec : decodeSegment content = none) :
    ∃ s', (D.drainPath t path delivered).alone c s = some (.error (delivered, D.corrupt), s')
      ∧ s'.env = s.env ∧ s'.queue.segs path = none ∧ Visited path s s' := by
  rw [Draining.drainPath, alone_bind, alone_attempt, readSegment_alone path hc hseg, hdec,
    Option.map_some, Option.bind_some]
  dsimp only [Option.elim]
  rw [alone_bind, alone_mapError, locked_alone t c _ hmu]
  simp only [alone_bind, recordLossLocked, spoolReplace, quarantinePathLocked, touch, renameSegment,
    renameAck, fileOp, alone_act, hc, if_true, Option.bind_some, onQueue, hseg]
  rcases s.progress.acks path with _ | ack
  · exact ⟨_, rfl, rfl, Function.update_self .., hmu.symm, rfl, rfl, rfl,
      fun n hn => Function.update_of_ne hn _ _, fun _ _ => rfl⟩
  · exact ⟨_, rfl, rfl, Function.update_self .., hmu.symm, rfl, rfl, rfl,
      fun n hn => Function.update_of_ne hn _ _, fun n hn => Function.update_of_ne hn _ _⟩

/-- The pass stops at an entry that is over the budget, in one of the segments before the first that
cannot be read. -/
def StopsIn (es : SegName → List SpoolEntry) (s : Spool η) (paths : List SegName) : Prop :=
  ∃ n ∈ paths.takeWhile fun n => decide (∀ e ∈ es n, e.Readable),
    ∃ e ∈ (es n).drop (s.checkpointOf n), ¬ InBudget e

theorem stopsIn_cons {es : SegName → List SpoolEntry} {s s₁ : Spool η} {paths : List SegName}
    (hr : ∀ e ∈ es path, e.Readable) (hn : ∀ e ∈ (es path).drop (s.checkpointOf path), InBudget e)
    (hs : ∀ n ∈ paths, s₁.checkpointOf n = s.checkpointOf n) :
    StopsIn es s (path :: paths) ↔ StopsIn es s₁ paths := by
  unfold StopsIn
  rw [List.takeWhile_cons, if_pos (decide_eq_true hr), List.exists_mem_cons_iff]
  constructor
  · rintro (⟨e, he, hover⟩ | ⟨n, hmem, hover⟩)
    · exact absurd (hn e he) hover
    · rw [← hs n ((List.takeWhile_prefix _).subset hmem)] at hover
      exact ⟨n, hmem, hover⟩
  · rintro ⟨n, hmem, hover⟩
    rw [hs n ((List.takeWhile_prefix _).subset hmem)] at hover
    exact .inr ⟨n, hmem, hover⟩

theorem drainPaths_alone {D : Draining η θ} (h : Succeeding D c) {maximum : ℕ} (hm : 1 ≤ maximum)
    (hg : D.group = groupSize maximum 0 1024) (hcorrupt : D.corrupt = .corruptEvidence)
    {es : SegName → List SpoolEntry} {paths : List SegName} (hnodup : paths.Nodup) (delivered : ℕ)
    {s : Spool η} (hmu : s.mu = none) (hs : Holds es paths s) :
    ∃ r s', (D.drainPaths t paths delivered).alone c s = some (r, s')
      ∧ ((∃ k, r = .error (k, .transportBudget)) ↔ StopsIn es s paths) := by
  induction paths generalizing delivered s with
  | nil => exact ⟨.ok delivered, s, rfl, by simp [StopsIn]⟩
  | cons path paths ih =>
    rw [List.nodup_cons] at hnodup
    have hseg := hs.segs path List.mem_cons_self
    have hdec := hs.decodes List.mem_cons_self
    rw [Draining.drainPaths, alone_bind, alone_mapError, h.ctx, Option.map_some, Option.bind_some]
    dsimp only [Except.mapError]
    by_cases hr : ∀ e ∈ es path, e.Readable
    swap
    · rw [if_neg hr] at hdec
      obtain ⟨s₁, hrun, -⟩ := drainPath_corrupt t path D h.fault delivered hmu hseg hdec
      rw [alone_bind, hrun, Option.bind_some]
      refine ⟨_, s₁, rfl, ?_⟩
      simp [StopsIn, hr, hcorrupt]
    rw [if_pos hr] at hdec
    obtain ⟨s₁, hrun, hpassed, -⟩ := drainPath_alone t path h delivered hmu hseg hdec
      (by simpa using hs.acks path List.mem_cons_self)
    have hlen : ((es path).drop (s.checkpointOf path)).length
        ≤ ((es path).map SpoolEntry.stored).length := by simp
    have hiff := reached_iff hm ((es path).drop (s.checkpointOf path)) hlen
    rw [alone_bind, hrun, Option.bind_some, outcome, hg, ← List.map_drop]
    split_ifs with hreached
    · obtain ⟨hs₁, hsame⟩ := hs.passed path hpassed hnodup.1
      obtain ⟨r, s', hrest, hends⟩ := ih hnodup.2 _ (hpassed.mu.trans hmu) hs₁
      exact ⟨r, s', hrest, hends.trans (stopsIn_cons path hr (hiff.1 hreached) hsame).symm⟩
    · have hover : ∃ e ∈ (es path).drop (s.checkpointOf path), ¬ InBudget e := by
        simpa using fun hall => hreached (hiff.2 hall)
      refine ⟨_, s₁, rfl, iff_of_true ⟨_, rfl⟩ ⟨path, ?_, hover⟩⟩
      rw [List.takeWhile_cons, if_pos (decide_eq_true hr)]
      exact List.mem_cons_self

/-- A queue that nobody uses. -/
structure Idle (s : Spool η) : Prop where
  mu : s.mu = none
  drainMu : s.drainMu = none
  opened : s.queue.closed = false
  nodup : s.queue.names.Nodup

theorem Idle.segments_nodup (h : Idle s) : s.segments.Nodup :=
  (List.mergeSort_perm _ _).nodup_iff.2 (h.nodup.filter _)

theorem sealLocked_alone (hc : c.fault = .none) (s : Spool η) :
    ∃ current curSize, (sealLocked : SpoolM η θ Unit).alone c s = some (.ok (),
      s.onQueue fun q => { q with current := current, curSize := curSize }) := by
  unfold sealLocked
  rw [alone_bind, alone_read, Option.bind_some]
  dsimp only
  split_ifs
  · exact ⟨_, _, rfl⟩
  · refine ⟨none, 0, ?_⟩
    simp only [alone_bind, touch, fileOp, alone_act, hc, if_true, Option.bind_some]

theorem drainLocked_alone {ε α : Type} (wrap : SpoolError → ε) (p : Prog (Spool η) (Choice θ) ε α)
    (h : s.drainMu = none) :
    (drainLocked t wrap p).alone c s
      = (p.alone c { s with drainMu := some t }).map fun (r, s') => (r, { s' with drainMu := none }) := by
  unfold drainLocked lockDrainMu unlockDrainMu
  simp only [alone_bind, alone_mapError, alone_act, h, if_true, Option.map_some, Option.bind_some,
    Except.mapError, alone_attempt, alone_modify, alone_ofExcept]
  rcases p.alone c { s with drainMu := some t } with _ | ⟨r, s'⟩ <;> rfl

/-- The first part of a pass, which lists the segments. -/
theorem begin_alone (hc : c.fault = .none) (hmu : s.mu = none) (hopen : s.queue.closed = false) :
    ∃ current curSize passes, (locked t do
        let closed ← .read (·.queue.closed)
        .failIf closed .closed
        sealLocked
        let paths ← segmentsLocked
        beginPass t paths
        pure paths : SpoolM η θ (List SegName)).alone c s = some (.ok s.segments, { s with
          mu := none
          queue := { s.queue with current := current, curSize := curSize }
          custody := { s.custody with passes := passes } }) := by
  obtain ⟨current, curSize, hseal⟩ := sealLocked_alone hc { s with mu := some t }
  rw [locked_alone t c _ hmu, alone_bind, alone_read, Option.bind_some]
  dsimp only
  rw [alone_bind, alone_failIf, Option.bind_some, if_neg (by simp [hopen])]
  dsimp only
  rw [alone_bind, hseal, Option.bind_some]
  simp only [alone_bind, segmentsLocked, fileOp, alone_act, hc, if_true, Option.bind_some, beginPass,
    alone_modify, alone_pure, Option.map_some]
  exact ⟨current, curSize, s.custody.passes ++ [⟨t, s.segments, s.pending⟩], rfl⟩

/-- The queue as a pass goes over its segments, the current one sealed. -/
def begun (current : Option SegName) (curSize : ℕ) (passes : List Pass) (s : Spool η) : Spool η :=
  { s with
    mu := none
    drainMu := some t
    queue := { s.queue with current := current, curSize := curSize }
    custody := { s.custody with passes := passes } }

theorem pass_begun (D : Draining η θ) (hc : c.fault = .none) (hidle : Idle s) :
    ∃ current curSize passes, ∀ {r s'},
      (D.drainPaths t s.segments 0).alone c (begun t current curSize passes s) = some (r, s') →
      (D.pass t).alone c s = some (r, { s' with drainMu := none }) := by
  obtain ⟨current, curSize, passes, hbegin⟩ := begin_alone t (s := { s with drainMu := some t })
    hc hidle.mu hidle.opened
  refine ⟨current, curSize, passes, fun hrun => ?_⟩
  rw [Draining.pass, drainLocked_alone t _ _ hidle.drainMu, alone_bind, alone_mapError, hbegin,
    Option.map_some, Option.bind_some]
  exact congrArg (Option.map _) hrun

/-- A pass over a queue that nobody uses, with a callback that succeeds. -/
theorem pass_alone {D : Draining η θ} (h : Succeeding D c) {maximum : ℕ} (hm : 1 ≤ maximum)
    (hg : D.group = groupSize maximum 0 1024) (hcorrupt : D.corrupt = .corruptEvidence)
    {es : SegName → List SpoolEntry} {s : Spool η} (hidle : Idle s) (hs : Holds es s.segments s) :
    ∃ r s', (D.pass t).alone c s = some (r, s')
      ∧ ((∃ k, r = .error (k, .transportBudget)) ↔ StopsIn es s s.segments) := by
  obtain ⟨current, curSize, passes, hpass⟩ := pass_begun t D h.fault hidle
  obtain ⟨r, s', hrun, hends⟩ := drainPaths_alone t h hm hg hcorrupt hidle.segments_nodup 0
    (s := begun t current curSize passes s) rfl ⟨hs.segs, hs.small, hs.appendable, hs.acks⟩
  exact ⟨r, { s' with drainMu := none }, hpass hrun, hends⟩

theorem drainBatches_alone {ctx : SpoolM η θ Unit} {deliver : List SpoolEntry → SpoolM η θ Unit}
    (hc : c.fault = .none) (hctx : ∀ s, ctx.alone c s = some (.ok (), s))
    (hdeliver : ∀ group s, ∃ env, (deliver group).alone c s = some (.ok (), { s with env := env }))
    {maximum : ℕ} (hm : 1 ≤ maximum) (hmax : maximum ≤ maxBatchEvents)
    {es : SegName → List SpoolEntry} {s : Spool η} (hidle : Idle s) (hs : Holds es s.segments s) :
    (∃ k s', (drainBatches t ctx maximum deliver).alone c s
        = some (.error (k, .transportBudget), s'))
      ↔ StopsIn es s s.segments := by
  obtain ⟨r, s', hrun, hends⟩ := pass_alone t (D := ⟨ctx, groupSize maximum 0 1024, deliver,
    .corruptEvidence⟩) ⟨hc, hctx, hdeliver⟩ hm rfl rfl hidle hs
  have hbatches : (drainBatches t ctx maximum deliver).alone c s = some (r, s') := by
    rw [drainBatches, alone_bind, alone_failIf, Option.bind_some, if_neg (by omega)]
    exact hrun
  rw [hbatches, ← hends]
  constructor
  · rintro ⟨k, s'', h⟩
    cases h
    exact ⟨k, rfl⟩
  · rintro ⟨k, rfl⟩
    exact ⟨k, s', rfl⟩

/-- A pass of `DrainBatches` over entries that `append` took, with a callback that succeeds, does not
stop at the budget exactly if no entry that it comes to has a record of more than 130048 bytes. -/
theorem budget_iff (ctx : SpoolM η θ Unit) (deliver : List SpoolEntry → SpoolM η θ Unit)
    (hc : c.fault = .none) (hctx : ∀ s, ctx.alone c s = some (.ok (), s))
    (hdeliver : ∀ group s, ∃ env, (deliver group).alone c s = some (.ok (), { s with env := env }))
    {maximum : ℕ} (hm : 1 ≤ maximum) (hmax : maximum ≤ maxBatchEvents)
    {es : SegName → List SpoolEntry} {s : Spool η} (hidle : Idle s) (hs : Holds es s.segments s) :
    (∀ k s', (drainBatches t ctx maximum deliver).alone c s
        ≠ some (.error (k, .transportBudget), s'))
      ↔ ∀ n ∈ s.segments.takeWhile fun n => decide (∀ e ∈ es n, e.Readable),
        ∀ e ∈ (es n).drop (s.checkpointOf n), e.marshal.length ≤ 130048 := by
  have hstops := drainBatches_alone t hc hctx hdeliver hm hmax hidle hs
  rw [← not_iff_not]
  push Not
  rw [hstops]
  simp only [StopsIn, inBudget_iff, not_le]

end Alone

/-! ## One entry in a new segment -/

/-- An append for which there is room. -/
theorem append_room {n : SegName} {content : List UInt8} {offset curSize : ℕ} {s : Spool η}
    (h : Open n content offset curSize s) {a : AppendCall} {entry : SpoolEntry}
    (he : newEntry a.payloadType a.body a.now = .ok entry)
    (hlen : entry.line.length ≤ maxRecordBytes)
    (hroom : s.bytes + a.others + entry.line.length ≤ maxSpoolBytes)
    (hfit : curSize + entry.line.length ≤ maxSegmentBytes) (hs : a.short = none) :
    ∃ w : Written, w.name = n ∧ a.run s = (.ok (), s.onQueue fun q =>
      put q w entry.line (q.curSize + entry.line.length) q.torn) := by
  have hc : a.choice.fault = .none := rfl
  have hnow : a.choice.now = a.now := rfl
  have hshort : a.choice.short = none := hs
  set s₁ : Spool η := { s with mu := some 0 } with hs₁
  have hevict : (evictIfFullLocked entry.line.length : SpoolM η Unit Unit).alone a.choice s₁
      = some (.ok (), s₁) := by
    have hbytes : ¬ (entry.line.length > maxSpoolBytes
        ∨ s₁.bytes + a.choice.others > maxSpoolBytes - entry.line.length) := by
      change ¬ (_ ∨ s.bytes + a.others > _)
      omega
    simp only [evictIfFullLocked, alone_bind, alone_act, hc, if_true, Option.bind_some,
      if_neg hbytes, alone_pure]
  have hensure : (ensureSegmentLocked entry.line.length : SpoolM η Unit Unit).alone a.choice s₁
      = some (.ok (), s₁) := by
    have hopen : s₁.queue.current.isSome = true
        ∧ s₁.queue.curSize + entry.line.length ≤ maxSegmentBytes := by
      change s.queue.current.isSome = true ∧ s.queue.curSize + _ ≤ _
      exact ⟨by rw [h.current]; rfl, by rw [h.curSize]; exact hfit⟩
    simp only [ensureSegmentLocked, alone_bind, alone_read, Option.bind_some, if_pos hopen,
      alone_pure]
  obtain ⟨w, hw, hwrite⟩ := writeOrCut_alone (s := s₁) hc entry entry.line h.current
  refine ⟨w, hw, ?_⟩
  rw [hshort] at hwrite
  rw [AppendCall.run, append, alone_bind, clock, alone_act, Option.bind_some]
  dsimp only
  rw [alone_bind, alone_ofExcept, Option.bind_some, hnow, he]
  dsimp only
  rw [show entry.marshal ++ [10] = entry.line from rfl, alone_bind, alone_failIf, Option.bind_some,
    if_neg (not_lt.2 hlen)]
  dsimp only
  rw [locked_alone 0 _ _ h.mu, alone_bind, alone_read, Option.bind_some]
  dsimp only
  rw [alone_bind, alone_failIf, Option.bind_some, if_neg (by simp [h.opened])]
  dsimp only
  rw [alone_bind, hevict, Option.bind_some]
  dsimp only
  rw [alone_bind, hensure, Option.bind_some]
  refine (congrArg (fun x : Option (Except SpoolError Unit × Spool η) =>
    (x.map fun y => (y.1, { y.2 with mu := none })).getD (.error .io, s)) hwrite).trans ?_
  simp [onQueue, hs₁, h.mu]

/-- A new segment with one entry. -/
theorem append_newSegment {a : AppendCall} {entry : SpoolEntry}
    (he : newEntry a.payloadType a.body a.now = .ok entry)
    (hlen : entry.line.length ≤ maxRecordBytes) (hothers : a.others = 0) (hs : a.short = none) :
    a.Succeeds newSegment ∧ Idle (appendStep newSegment a)
      ∧ (appendStep newSegment a).segments = [⟨0, 0⟩]
      ∧ (appendStep newSegment a).checkpointOf ⟨0, 0⟩ = 0
      ∧ Holds (fun _ => [entry]) (appendStep newSegment a).segments (appendStep newSegment a) := by
  have hopen : Open ⟨0, 0⟩ [] 0 0 newSegment :=
    ⟨rfl, rfl, List.mem_singleton_self _, rfl, rfl, rfl, rfl⟩
  have hbytes : newSegment.bytes = 0 := rfl
  have hmax : maxRecordBytes ≤ maxSpoolBytes ∧ maxRecordBytes ≤ maxSegmentBytes := by decide
  obtain ⟨w, hw, hrun⟩ := append_room hopen he hlen (by omega) (by omega) hs
  have hok : a.Succeeds newSegment := by rw [AppendCall.Succeeds, hrun]
  have hstep : appendStep newSegment a = _ := congrArg Prod.snd hrun
  have hsegs : (appendStep newSegment a).queue.segs ⟨0, 0⟩ = some (segmentOf [entry]) := by
    rw [hstep]
    simp [onQueue, put, hw, newSegment, writeAt, segmentOf]
  have hpaths : (appendStep newSegment a).segments = [⟨0, 0⟩] := by
    have hnames : (appendStep newSegment a).queue.names = [⟨0, 0⟩] := by
      rw [hstep]
      rfl
    rw [segments, hnames, List.filter_cons_of_pos (by simp [hsegs])]
    exact List.mergeSort_singleton _
  have hacks : (appendStep newSegment a).progress.acks ⟨0, 0⟩ = none := by
    rw [hstep]
    rfl
  refine ⟨hok, ?_, hpaths, ?_, ?_⟩
  · rw [hstep]
    exact ⟨rfl, rfl, rfl, List.nodup_singleton _⟩
  · rw [checkpointOf, hacks]
    rfl
  · rw [hpaths]
    refine ⟨?_, ?_, ?_, ?_⟩ <;> simp only [List.mem_singleton, forall_eq]
    · exact hsegs
    · simpa [segmentOf] using hlen.trans hmax.2
    · exact ⟨a, newSegment, hok, he⟩
    · simp [ValidAck, hacks]

/-- A JSON string of so many letters. -/
def letters (count : ℕ) : Json := .str (Json.quote (String.ofList (List.replicate count 'a')))

theorem newEntry_letters (count : ℕ) :
    newEntry "event" (letters count).print 0 = .ok ⟨"event", letters count, 0⟩ := by
  have hp : Json.parse ((letters count).print ++ []) = some (letters count) :=
    Json.parse_print _ (by simp)
  rw [List.append_nil] at hp
  rw [newEntry, hp]
  rfl

theorem readable_letters (count : ℕ) : SpoolEntry.Readable ⟨"event", letters count, 0⟩ :=
  ⟨show "event" ≠ "" by decide, show 1 ≤ maxNestingDepth by decide⟩

theorem flatMap_replicate {f : Char → List Char} {c : Char} (h : f c = [c]) (count : ℕ) :
    (List.replicate count c).flatMap f = List.replicate count c := by
  induction count with
  | zero => rfl
  | succ count ih => rw [List.replicate_succ, List.flatMap_cons, ih, h, List.singleton_append]

theorem marshal_letters (count : ℕ) :
    (SpoolEntry.marshal ⟨"event", letters count, 0⟩).length = count + 40 := by
  have htext : (Json.escapeHTML (Json.quote (String.ofList (List.replicate count 'a')))).text
      = List.replicate count 'a' := by
    simp only [Json.escapeHTML, Json.quote, String.toList_ofList,
      flatMap_replicate (show Json.quoteChar 'a' = ['a'] by decide),
      flatMap_replicate (show Json.escapeChar 'a' = ['a'] by decide)]
  -- what is before the letters, and what is behind them
  let pre := '\x7b' :: (Json.printStr (Json.quote "type") ++ ':' :: (Json.printStr (Json.quote "event")
    ++ ',' :: (Json.printStr (Json.quote "body") ++ [':', '"'])))
  let post := '"' :: ',' :: (Json.printStr (Json.quote "queued_at") ++ ':' :: ((Json.int 0).text
    ++ ['\x7d']))
  have hprint : (SpoolEntry.json ⟨"event", letters count, 0⟩).print
      = pre ++ (List.replicate count 'a' ++ post) := by
    simp only [SpoolEntry.json, letters, Json.compact, Json.print, Json.printMembers, Json.printStr,
      htext, pre, post, List.append_assoc, List.cons_append, List.nil_append]
  have hletters : (encodeText (List.replicate count 'a')).length = count := by
    simp [encodeText, List.length_flatMap, show 'a'.utf8Size = 1 by decide]
  have hrest : (encodeText pre).length = 24 ∧ (encodeText post).length = 16 := by decide +kernel
  rw [SpoolEntry.marshal, hprint, encodeText_append, encodeText_append, List.length_append,
    List.length_append, hletters, hrest.1, hrest.2]
  omega

/-- A body of 128 KiB is appended, and keeps every pass from going on. -/
theorem budget_stops :
    let a : AppendCall := ⟨"event", (letters (2 ^ 17)).print, 0, 0, none⟩
    a.Succeeds newSegment ∧ ∃ k s', (drainBatches 0 (pure ()) 64 fun _ => pure () :
        DrainM Unit Unit ℕ).alone { env := () } (appendStep newSegment a)
      = some (.error (k, .transportBudget), s') := by
  intro a
  have hlen : (SpoolEntry.line ⟨"event", letters (2 ^ 17), 0⟩).length ≤ maxRecordBytes := by
    rw [SpoolEntry.line, List.length_append, marshal_letters]
    decide
  obtain ⟨hok, hidle, hsegs, hcheck, hholds⟩ :=
    append_newSegment (a := a) (newEntry_letters _) hlen rfl rfl
  refine ⟨hok, (drainBatches_alone 0 rfl (fun _ => rfl) (fun _ s => ⟨s.env, rfl⟩) (by decide)
    (by decide) hidle hholds).2 ⟨⟨0, 0⟩, ?_, ⟨"event", letters (2 ^ 17), 0⟩, ?_, ?_⟩⟩
  · rw [hsegs]
    simp [readable_letters]
  · rw [hcheck]
    exact List.mem_singleton_self _
  · rw [inBudget_iff, marshal_letters]
    decide

/-- A short body goes through. -/
theorem budget_iff_sample :
    let a : AppendCall := ⟨"event", (letters 8).print, 0, 0, none⟩
    a.Succeeds newSegment ∧ ∀ k s', (drainBatches 0 (pure ()) 64 fun _ => pure () :
        DrainM Unit Unit ℕ).alone { env := () } (appendStep newSegment a)
      ≠ some (.error (k, .transportBudget), s') := by
  intro a
  have hlen : (SpoolEntry.line ⟨"event", letters 8, 0⟩).length ≤ maxRecordBytes := by
    rw [SpoolEntry.line, List.length_append, marshal_letters]
    decide
  obtain ⟨hok, hidle, -, -, hholds⟩ :=
    append_newSegment (a := a) (newEntry_letters _) hlen rfl rfl
  refine ⟨hok, (budget_iff 0 _ _ rfl (fun _ => rfl) (fun _ s => ⟨s.env, rfl⟩) (by decide)
    (by decide) hidle hholds).2 ?_⟩
  intro n _ e he
  rw [List.mem_singleton.1 (List.mem_of_mem_drop he), marshal_letters]
  decide

end Spool

end WMonitor
