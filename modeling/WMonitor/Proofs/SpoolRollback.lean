import WMonitor.Proofs.SpoolAppend

/-!
# Rolling back a failed write

A write that fails is undone by cutting the segment to the length before it. The file's offset stays
where the write left it, so what is appended next comes after a gap of zeros, and the segment can no
longer be read. Appends one after the other, with writes that fail anywhere and no other fault, leave
the segment as it should be exactly if nothing is appended once a failed write has moved the offset
(`rollback_iff`).
-/

namespace WMonitor

namespace Spool

open Prog

variable {η : Type}

/-! ## Appends one after the other -/

/-- A call of `append`, with the clock it reads, the bytes of the directory's other files and how far
its write comes, if it fails. -/
structure AppendCall where
  payloadType : String
  body : List Char
  now : Fin (2 ^ 63) := 0
  others : ℕ := 0
  short : Option ℕ := none

def AppendCall.choice (a : AppendCall) : Choice Unit :=
  { now := a.now, others := a.others, short := a.short, env := () }

/-- What the call returns, and the state after it. -/
def AppendCall.run (a : AppendCall) (s : Spool η) : Except SpoolError Unit × Spool η :=
  ((append 0 a.payloadType a.body : SpoolM η Unit Unit).alone a.choice s).getD (.error .io, s)

def appendStep (s : Spool η) (a : AppendCall) : Spool η := (a.run s).2

def AppendCall.Succeeds (a : AppendCall) (s : Spool η) : Prop := (a.run s).1 = .ok ()

instance (a : AppendCall) (s : Spool η) : Decidable (a.Succeeds s) :=
  inferInstanceAs (Decidable (_ = _))

/-- The call fails with the file's offset moved. -/
def AppendCall.Tears (s : Spool η) (a : AppendCall) : Prop :=
  ¬ a.Succeeds s ∧ s.queue.offset < (appendStep s a).queue.offset

instance (s : Spool η) (a : AppendCall) : Decidable (a.Tears s) :=
  inferInstanceAs (Decidable (_ ∧ _))

/-- The entries of the calls that returned without an error. -/
def appended : Spool η → List AppendCall → List SpoolEntry
  | _, [] => []
  | s, a :: calls =>
    (if a.Succeeds s then (newEntry a.payloadType a.body a.now).toOption.toList else [])
      ++ appended (appendStep s a) calls

/-- Nothing is appended once a failed write has moved the offset. -/
def Tidy (s : Spool η) (calls : List AppendCall) : Prop :=
  ∀ before a, before ++ [a] <+: calls → a.Succeeds (Run.run appendStep s before) →
    Run.Along appendStep (fun s a => ¬ a.Tears s) s before

/-- A segment that was just opened, in a queue that nobody uses. -/
structure JustOpened (n : SegName) (s : Spool η) : Prop where
  mu : s.mu = none
  opened : s.queue.closed = false
  named : n ∈ s.queue.names
  current : s.queue.current = some n
  content : s.queue.segs n = some []
  offset : s.queue.offset = 0
  curSize : s.queue.curSize = 0

/-- The segment reads as these entries, and `curSize` is its length. -/
def ReadsAs (n : SegName) (es : List SpoolEntry) (s : Spool η) : Prop :=
  ∃ content, s.queue.segs n = some content ∧ decodeSegment content = some (es.map SpoolEntry.stored)
    ∧ s.queue.curSize = content.length

/-! ## One call -/

/-- The queue is idle and its open segment is `n`. -/
structure Open (n : SegName) (content : List UInt8) (offset curSize : ℕ) (s : Spool η) : Prop where
  mu : s.mu = none
  opened : s.queue.closed = false
  named : n ∈ s.queue.names
  current : s.queue.current = some n
  segs : s.queue.segs n = some content
  offset : s.queue.offset = offset
  curSize : s.queue.curSize = curSize

variable {n : SegName} {content : List UInt8} {offset curSize : ℕ} {s : Spool η}

theorem locked_alone {θ α : Type} (t : ℕ) (c : Choice θ) (p : SpoolM η θ α) (hmu : s.mu = none) :
    (locked t p).alone c s
      = (p.alone c { s with mu := some t }).map fun (r, s') => (r, { s' with mu := none }) := by
  unfold locked lockMu unlockMu
  simp only [alone_bind, alone_act, hmu, if_true, Option.bind_some, alone_attempt, alone_modify,
    alone_ofExcept]
  rcases p.alone c { s with mu := some t } with _ | ⟨r, s'⟩ <;> rfl

theorem touch_alone {c : Choice Unit} (hc : c.fault = .none) (s : Spool η) :
    (touch : SpoolM η Unit Unit).alone c s = some (.ok (), s) := by
  simp [touch, fileOp, hc]

theorem evictIfFullLocked_alone {c : Choice Unit} (hc : c.fault = .none) (incoming : ℕ)
    (s : Spool η) :
    (evictIfFullLocked incoming : SpoolM η Unit Unit).alone c s = some (.ok (), s)
      ∨ ∃ l, (evictIfFullLocked incoming : SpoolM η Unit Unit).alone c s
          = some (.error .full, s.onQueue fun q => { q with loss := l }) := by
  unfold evictIfFullLocked
  simp only [alone_bind, alone_act, hc, if_true, Option.bind_some]
  split_ifs
  · right
    simp only [alone_bind, alone_attempt, recordLossLocked, fileOp, spoolReplace, alone_act, hc,
      if_true, Option.bind_some, Option.map_some, alone_fail]
    exact ⟨_, rfl⟩
  · exact .inl rfl

/-- The open segment is kept if there is room in it; otherwise another one is opened, or none. -/
theorem ensureSegmentLocked_alone {c : Choice Unit} (hc : c.fault = .none) (incoming : ℕ)
    (h : s.queue.current = some n) (hn : n ∈ s.queue.names) :
    ((ensureSegmentLocked incoming : SpoolM η Unit Unit).alone c s = some (.ok (), s)
        ∧ s.queue.curSize + incoming ≤ maxSegmentBytes)
      ∨ (ensureSegmentLocked incoming : SpoolM η Unit Unit).alone c s = none
      ∨ ∃ s' m, (ensureSegmentLocked incoming : SpoolM η Unit Unit).alone c s = some (.ok (), s')
          ∧ s'.queue.current = some m ∧ m ≠ n := by
  unfold ensureSegmentLocked
  simp only [alone_bind, alone_read, Option.bind_some, h, Option.isSome_some, true_and]
  split_ifs with hfit
  · exact .inl ⟨rfl, hfit⟩
  · right
    simp only [sealLocked, alone_bind, alone_read, h, Option.bind_some, Option.isNone_some,
      Bool.false_eq_true, if_false, touch_alone hc, alone_act, hc, if_true, clock, createTemp,
      onQueue]
    split_ifs with hmem
    · exact .inl rfl
    · right
      simp only [Option.bind_some, alone_modify]
      refine ⟨_, _, rfl, rfl, ?_⟩
      rintro rfl
      exact hmem hn

theorem write_alone {c : Choice Unit} (t : ℕ) (entry : SpoolEntry) (line : List UInt8)
    (h : s.queue.current = some n) :
    ∃ w : Written, w.name = n ∧ (write t entry line : SpoolM η Unit Unit).alone c s
      = match c.short with
        | none => some (.ok (), s.onQueue fun q => put q w line (q.curSize + line.length) q.torn)
        | some k => some (.error .io, s.onQueue fun q =>
          put q w (line.take k) q.curSize (q.torn ++ [n])) := by
  refine ⟨⟨t, n, (s.queue.written.filter fun w => w.name = n).length, entry, s.bound⟩, rfl, ?_⟩
  rcases hc : c.short with _ | k
  · simp only [write, alone_act, h, hc]
  · simp only [write, alone_act, h, hc]

theorem cut_current (q : Queue) (size : ℕ) : (cut q size).current = q.current := by
  unfold cut
  split <;> rfl

/-- The write of `append` and its rollback. -/
theorem writeOrCut_alone {c : Choice Unit} (hc : c.fault = .none) (entry : SpoolEntry)
    (line : List UInt8) (h : s.queue.current = some n) :
    ∃ w : Written, w.name = n ∧
      (do
        let before ← .read (·.queue.curSize)
        let r ← (write 0 entry line).attempt
        match r with
        | .ok () => touch
        | .error e => do
          truncate before
          .fail e : SpoolM η Unit Unit).alone c s
        = match c.short with
          | none => some (.ok (), s.onQueue fun q => put q w line (q.curSize + line.length) q.torn)
          | some k => some (.error .io, s.onQueue fun q =>
            cut (put q w (line.take k) q.curSize (q.torn ++ [n])) q.curSize) := by
  obtain ⟨w, hw, hwrite⟩ := write_alone (c := c) 0 entry line h
  refine ⟨w, hw, ?_⟩
  simp only [alone_bind, alone_read, Option.bind_some, alone_attempt, hwrite]
  rcases c.short with _ | k
  · simp only [Option.map_some, Option.bind_some, touch_alone hc]
  · simp only [Option.map_some, Option.bind_some, truncate, alone_bind, alone_act, hc, if_true,
      alone_fail, onQueue]

/-- What a call does to the open segment, if that stays the open one: nothing, a write that is cut
off again, or the record of its entry. -/
theorem append_cases (h : Open n content offset curSize s) (a : AppendCall)
    (hn : (appendStep s a).queue.current = some n) :
    (¬ a.Succeeds s ∧ Open n content offset curSize (appendStep s a))
      ∨ (∃ data, ¬ a.Succeeds s ∧ Open n (truncateTo curSize (writeAt offset data content))
          (offset + data.length) curSize (appendStep s a))
      ∨ ∃ entry, newEntry a.payloadType a.body a.now = .ok entry ∧ a.Succeeds s
        ∧ entry.line.length ≤ maxRecordBytes ∧ curSize + entry.line.length ≤ maxSegmentBytes
        ∧ Open n (writeAt offset entry.line content) (offset + entry.line.length)
          (curSize + entry.line.length) (appendStep s a) := by
  have refused : ∀ e, a.run s = (.error e, s) →
      ¬ a.Succeeds s ∧ Open n content offset curSize (appendStep s a) := by
    intro e he
    refine ⟨by simp [AppendCall.Succeeds, he], ?_⟩
    rw [appendStep, he]
    exact h
  have hc : a.choice.fault = .none := rfl
  have hrun : a.run s = ((append 0 a.payloadType a.body : SpoolM η Unit Unit).alone a.choice s).getD
      (.error .io, s) := rfl
  have hnow : a.choice.now = a.now := rfl
  unfold append at hrun
  rw [alone_bind, clock, alone_act, Option.bind_some] at hrun
  dsimp only at hrun
  rw [alone_bind, alone_ofExcept, Option.bind_some, hnow] at hrun
  rcases he : newEntry a.payloadType a.body a.now with e | entry <;> rw [he] at hrun
  · exact .inl (refused e hrun)
  dsimp only at hrun
  rw [alone_bind, alone_failIf, Option.bind_some] at hrun
  split_ifs at hrun with hlen
  · exact .inl (refused _ hrun)
  dsimp only at hrun
  rw [locked_alone 0 a.choice _ h.mu, alone_bind, alone_read, Option.bind_some] at hrun
  dsimp only at hrun
  rw [alone_bind, alone_failIf, h.opened, Option.bind_some, if_neg Bool.false_ne_true] at hrun
  dsimp only at hrun
  set s₁ : Spool η := { s with mu := some 0 } with hs₁
  have hcur : s₁.queue.current = some n := h.current
  rw [alone_bind] at hrun
  rcases evictIfFullLocked_alone hc (entry.marshal ++ [10]).length s₁ with hev | ⟨l, hev⟩ <;>
    rw [hev, Option.bind_some] at hrun
  swap
  · left
    rw [AppendCall.Succeeds, appendStep, hrun]
    exact ⟨by simp, rfl, h.opened, h.named, h.current, h.segs, h.offset, h.curSize⟩
  dsimp only at hrun
  rw [alone_bind] at hrun
  let finish (x : Option (Except SpoolError Unit × Spool η)) : Except SpoolError Unit × Spool η :=
    (x.map fun (r, s') => (r, { s' with mu := none })).getD (.error .io, s)
  rcases ensureSegmentLocked_alone hc (entry.marshal ++ [10]).length hcur h.named
    with ⟨hen, hfit⟩ | hen | ⟨s', m, hen, hm, hmn⟩ <;> rw [hen] at hrun
  · right
    obtain ⟨w, hwn, hw⟩ := writeOrCut_alone hc entry entry.line hcur
    replace hrun := hrun.trans (congrArg finish hw)
    have hput : ∀ data size torn, (put s.queue w data size torn).segs n
        = some (writeAt offset data content) := by
      intro data size torn
      simp only [put, hwn, h.segs, h.offset, Function.update_self, Option.map_some]
    have hoff : ∀ data size torn, (put s.queue w data size torn).offset = offset + data.length := by
      intro data size torn
      rw [← h.offset]
      rfl
    rcases hk : a.choice.short with _ | k <;> rw [hk] at hrun
    · right
      rw [AppendCall.Succeeds, appendStep, hrun]
      refine ⟨entry, rfl, rfl, not_lt.1 hlen, h.curSize ▸ hfit, rfl, h.opened, h.named, h.current,
        hput _ _ _, hoff _ _ _, ?_⟩
      rw [← h.curSize]
      rfl
    · left
      have hcut : cut (put s.queue w (entry.line.take k) s.queue.curSize (s.queue.torn ++ [n]))
          s.queue.curSize = _ := cut_eq h.current (hput _ _ _)
      rw [AppendCall.Succeeds, appendStep, hrun]
      simp only [finish, onQueue, Option.map_some, Option.getD_some]
      rw [show s₁.queue = s.queue from rfl, hcut]
      refine ⟨entry.line.take k, by simp, rfl, h.opened, h.named, h.current, ?_,
        hoff (entry.line.take k) s.queue.curSize (s.queue.torn ++ [n]), ?_⟩
      · simp only [Function.update_self, h.curSize]
      · exact h.curSize
  · exact .inl (refused _ hrun)
  · obtain ⟨w, hwn, hw⟩ := writeOrCut_alone hc entry entry.line hm
    replace hrun := hrun.trans (congrArg finish hw)
    exfalso
    rw [appendStep, hrun] at hn
    rcases hk : a.choice.short with _ | k <;> rw [hk] at hn
    · exact hmn (Option.some.inj (hm.symm.trans hn))
    · have hcut : (cut (put s'.queue w (entry.line.take k) s'.queue.curSize (s'.queue.torn ++ [m]))
          s'.queue.curSize).current = some m := (cut_current _ _).trans hm
      exact hmn (Option.some.inj (hcut.symm.trans hn))

/-! ## The file -/

theorem truncateTo_writeAt (data : List UInt8) {content : List UInt8} {offset : ℕ}
    (h : content.length ≤ offset) :
    truncateTo content.length (writeAt offset data content) = content := by
  simp [truncateTo, writeAt, List.take_of_length_le h, List.append_assoc]

/-- A write behind the end leaves a gap, which reads as zeros. -/
theorem writeAt_gap (data : List UInt8) {content : List UInt8} {offset : ℕ}
    (h : content.length < offset) : ∃ rest, writeAt offset data content = content ++ 0 :: rest := by
  obtain ⟨k, hk⟩ : ∃ k, offset - content.length = k + 1 := ⟨offset - content.length - 1, by omega⟩
  refine ⟨List.replicate k 0 ++ data, ?_⟩
  rw [writeAt, List.take_of_length_le h.le, hk, List.replicate_succ,
    List.drop_eq_nil_of_le (by omega)]
  simp

/-- What is before the offset stays. -/
theorem writeAt_keeps (data pre post : List UInt8) {offset : ℕ} (h : pre.length < offset) :
    ∃ rest, writeAt offset data (pre ++ 0 :: post) = pre ++ 0 :: rest := by
  obtain ⟨k, hk⟩ : ∃ k, offset - pre.length = k + 1 := ⟨offset - pre.length - 1, by omega⟩
  refine ⟨post.take k ++ List.replicate (offset - (pre ++ 0 :: post).length) 0 ++ data
    ++ (pre ++ 0 :: post).drop (offset + data.length), ?_⟩
  rw [writeAt, List.take_append, List.take_of_length_le h.le, hk, List.take_succ_cons]
  simp

theorem truncateTo_keeps (pre post : List UInt8) {size : ℕ} (h : pre.length < size) :
    ∃ rest, truncateTo size (pre ++ 0 :: post) = pre ++ 0 :: rest := by
  obtain ⟨k, hk⟩ : ∃ k, size - pre.length = k + 1 := ⟨size - pre.length - 1, by omega⟩
  refine ⟨post.take k ++ List.replicate (size - (pre ++ 0 :: post).length) 0, ?_⟩
  rw [truncateTo, List.take_append, List.take_of_length_le h.le, hk, List.take_succ_cons]
  simp

theorem splitLines_segment (es : List SpoolEntry) (bs : List UInt8) :
    splitLines (segmentOf es ++ bs)
      = (es.map SpoolEntry.marshal ++ (splitLines bs).1, (splitLines bs).2) := by
  induction es with
  | nil => rfl
  | cons e es ih =>
    have hcons : segmentOf (e :: es) ++ bs = e.marshal ++ 10 :: (segmentOf es ++ bs) := by
      simp [segmentOf, SpoolEntry.line]
    rw [hcons, splitLines_line _ (marshal_newline e), ih]
    rfl

theorem decodeText_zero (bs : List UInt8) :
    decodeText (0 :: bs) = (decodeText bs).map ('\x00' :: ·) := by
  have h : (0 :: bs).toByteArray = ['\x00'].utf8Encode ++ bs.toByteArray :=
    List.toByteArray_append (l := [0])
  rw [decodeText, decodeText, h, ByteArray.utf8Decode?_utf8Encode_singleton_append]
  cases bs.toByteArray.utf8Decode? <;> simp

theorem parse_zero (cs : List Char) : Json.parse ('\x00' :: cs) = none := by
  have hws : Json.skipWs ('\x00' :: cs) = '\x00' :: cs := rfl
  have hnum : Json.parseNum ('\x00' :: cs) = none := rfl
  simp [Json.parse, Json.parseValue, hws, hnum]

theorem unmarshal_zero (bs : List UInt8) : SpoolEntry.unmarshal (0 :: bs) = none := by
  rw [SpoolEntry.unmarshal, decodeText_zero]
  rcases decodeText bs with _ | cs
  · rfl
  · simp [unmarshal, parse_zero]

theorem isBlank_zero (bs : List UInt8) : isBlank (0 :: bs) = false := by
  rw [isBlank, decodeText_zero]
  rcases decodeText bs with _ | cs
  · rfl
  · rfl

/-- A gap makes the whole segment unreadable. -/
theorem decodeSegment_gap (es : List SpoolEntry) (rest : List UInt8) :
    decodeSegment (segmentOf es ++ 0 :: rest) = none := by
  unfold decodeSegment
  split_ifs with hlen
  · rfl
  rw [splitLines_segment]
  have hzero : (splitLines (0 :: rest)).2 ≠ [] ∨
      ∃ line lines, (splitLines (0 :: rest)).1 = (0 :: line) :: lines := by
    rw [splitLines]
    rcases splitLines rest with ⟨_ | ⟨line, lines⟩, tail⟩
    · exact .inl (by simp)
    · exact .inr ⟨line, lines, by simp⟩
  dsimp only
  split_ifs with hbad
  · rfl
  obtain ⟨line, lines, hl⟩ := hzero.resolve_left fun h => hbad (.inl h)
  rw [hl, List.filter_append, List.filter_cons_of_pos (by simp [isBlank_zero]), List.mapM_append,
    List.mapM_cons, unmarshal_zero]
  cases ((es.map SpoolEntry.marshal).filter fun line => !isBlank line).mapM SpoolEntry.unmarshal <;> rfl

theorem mapM_unmarshal_iff {es : List SpoolEntry} (hc : ∀ e ∈ es, e.Clocked) :
    (es.map SpoolEntry.marshal).mapM SpoolEntry.unmarshal = some (es.map SpoolEntry.stored)
      ↔ ∀ e ∈ es, e.Readable := by
  induction es with
  | nil => simp
  | cons e es ih =>
    have ih := ih fun x hx => hc x (List.mem_cons_of_mem _ hx)
    rw [List.map_cons, List.map_cons, List.mapM_cons, unmarshal_marshal (hc e List.mem_cons_self),
      List.forall_mem_cons, ← ih, SpoolEntry.Readable]
    split_ifs with hr
    · refine ⟨fun h => by simp at h, fun ⟨⟨ht, hd⟩, _⟩ => ?_⟩
      rcases hr with hr | hr
      · exact absurd hr ht
      · exact absurd hr (not_lt.2 hd)
    · simp only [not_or, not_lt] at hr
      simp only [hr, ne_eq, not_false_eq_true, and_self, true_and]
      rcases (es.map SpoolEntry.marshal).mapM SpoolEntry.unmarshal with _ | xs
      · simp
      · simp

theorem decodeSegment_iff {es : List SpoolEntry} (hc : ∀ e ∈ es, e.Clocked)
    (hl : ∀ e ∈ es, e.line.length ≤ maxRecordBytes)
    (hs : (segmentOf es).length ≤ maxSegmentBytes) :
    decodeSegment (segmentOf es) = some (es.map SpoolEntry.stored) ↔ ∀ e ∈ es, e.Readable := by
  have hblank : (es.map SpoolEntry.marshal).filter (fun line => !isBlank line)
      = es.map SpoolEntry.marshal := by
    refine List.filter_eq_self.2 fun line hline => ?_
    obtain ⟨e, -, rfl⟩ := List.mem_map.1 hline
    simp [isBlank_marshal e]
  have hlong : ((es.map SpoolEntry.marshal).any fun line => maxRecordBytes < line.length + 1) = false := by
    rw [List.any_eq_false]
    intro line hline
    obtain ⟨e, he, rfl⟩ := List.mem_map.1 hline
    have := hl e he
    simp only [SpoolEntry.line, List.length_append, List.length_singleton] at this
    simpa using this
  rw [← mapM_unmarshal_iff hc, decodeSegment, if_neg (by omega), splitLines_segmentOf]
  simp only [ne_eq, not_true_eq_false, hlong, Bool.false_eq_true, or_self, if_false, hblank]

/-! ## Runs -/

theorem appended_append (s : Spool η) (calls : List AppendCall) (a : AppendCall) :
    appended s (calls ++ [a]) = appended s calls
      ++ if a.Succeeds (Run.run appendStep s calls)
        then (newEntry a.payloadType a.body a.now).toOption.toList else [] := by
  induction calls generalizing s with
  | nil =>
    simp only [List.nil_append, appended, List.append_nil]
    rfl
  | cons b calls ih =>
    rw [List.cons_append, appended, ih, appended, List.append_assoc]
    rfl

theorem tidy_nil {s : Spool η} : Tidy s [] := fun before a hp => by simp at hp

theorem tidy_append {s : Spool η} {calls : List AppendCall} {a : AppendCall} :
    Tidy s (calls ++ [a]) ↔ Tidy s calls ∧ (a.Succeeds (Run.run appendStep s calls) →
      Run.Along appendStep (fun s a => ¬ a.Tears s) s calls) := by
  unfold Tidy
  simp only [List.prefix_concat_iff]
  constructor
  · intro h
    exact ⟨fun before b hb => h before b (.inr hb), h calls a (.inl rfl)⟩
  · rintro ⟨h, ha⟩ before b (hb | hb)
    · obtain ⟨rfl, hba⟩ := List.append_inj' hb rfl
      obtain rfl := List.singleton_inj.1 hba
      exact ha
    · exact h before b hb

/-- The segment holds these entries and nothing else; the offset is where it ends, unless a failed
write has moved it. -/
structure Whole (n : SegName) (es : List SpoolEntry) (offset : ℕ) (s : Spool η) : Prop where
  file : Open n (segmentOf es) offset (segmentOf es).length s
  reached : (segmentOf es).length ≤ offset
  small : (segmentOf es).length ≤ maxSegmentBytes
  clocked : ∀ e ∈ es, e.Clocked
  lines : ∀ e ∈ es, e.line.length ≤ maxRecordBytes

/-- The segment has a gap after some entries. -/
def Gapped (n : SegName) (s : Spool η) : Prop :=
  ∃ es rest offset curSize, Open n (segmentOf es ++ 0 :: rest) offset curSize s
    ∧ (segmentOf es).length < curSize ∧ curSize ≤ offset

theorem gapped_step (h : Gapped n s) (a : AppendCall)
    (hn : (appendStep s a).queue.current = some n) : Gapped n (appendStep s a) := by
  obtain ⟨es, rest, offset, curSize, ho, hlt, hle⟩ := h
  rcases append_cases ho a hn with ⟨-, h⟩ | ⟨data, -, h⟩ | ⟨entry, -, -, -, -, h⟩
  · exact ⟨es, rest, offset, curSize, h, hlt, hle⟩
  · obtain ⟨rest', hrest⟩ := writeAt_keeps data (segmentOf es) rest (hlt.trans_le hle)
    obtain ⟨rest'', hrest'⟩ := truncateTo_keeps (segmentOf es) rest' hlt
    rw [hrest, hrest'] at h
    exact ⟨es, rest'', _, _, h, hlt, by omega⟩
  · obtain ⟨rest', hrest⟩ := writeAt_keeps entry.line (segmentOf es) rest (hlt.trans_le hle)
    rw [hrest] at h
    exact ⟨es, rest', _, _, h, by omega, by omega⟩

/-- By induction on the calls: as long as nothing is appended behind a torn write the segment is
whole, and from then on it has a gap. -/
theorem rollback_run (h : JustOpened n s) (calls : List AppendCall)
    (hn : Run.Along appendStep (fun s a => (appendStep s a).queue.current = some n) s calls) :
    (Tidy s calls ∧ ∃ offset, Whole n (appended s calls) offset (Run.run appendStep s calls)
        ∧ ((segmentOf (appended s calls)).length = offset
          ↔ Run.Along appendStep (fun s a => ¬ a.Tears s) s calls))
      ∨ (¬ Tidy s calls ∧ Gapped n (Run.run appendStep s calls)) := by
  induction calls using List.reverseRecOn with
  | nil =>
    refine .inl ⟨tidy_nil, 0, ⟨⟨h.mu, h.opened, h.named, h.current, h.content, h.offset, h.curSize⟩,
      le_rfl, Nat.zero_le _, by simp [appended], by simp [appended]⟩, ?_⟩
    simp [appended, segmentOf, Run.Along]
  | append_singleton calls a ih =>
    obtain ⟨hcalls, hlast⟩ := Run.along_append.1 hn
    have hcur := hlast.1
    have hrun : Run.run appendStep s (calls ++ [a]) = appendStep (Run.run appendStep s calls) a :=
      Run.run_append
    have halong : Run.Along appendStep (fun s a => ¬ a.Tears s) s (calls ++ [a])
        ↔ Run.Along appendStep (fun s a => ¬ a.Tears s) s calls
          ∧ ¬ a.Tears (Run.run appendStep s calls) := by
      rw [Run.along_append]
      simp [Run.Along]
    rw [hrun, tidy_append, appended_append, halong]
    rcases ih hcalls with ⟨htidy, offset, hw, hoff⟩ | ⟨htidy, hg⟩
    · generalize Run.run appendStep s calls = s' at *
      rcases append_cases hw.file a hcur
        with ⟨hno, ho⟩ | ⟨data, hno, ho⟩ | ⟨entry, he, hok, hlen, hfit, ho⟩
      · refine .inl ⟨⟨htidy, fun hs => absurd hs hno⟩, offset, ?_⟩
        rw [if_neg hno, List.append_nil, hoff]
        refine ⟨⟨ho, hw.reached, hw.small, hw.clocked, hw.lines⟩, (and_iff_left ?_).symm⟩
        rintro ⟨-, ht⟩
        rw [hw.file.offset, ho.offset] at ht
        exact lt_irrefl _ ht
      · refine .inl ⟨⟨htidy, fun hs => absurd hs hno⟩, offset + data.length, ?_⟩
        rw [truncateTo_writeAt data hw.reached] at ho
        rw [if_neg hno, List.append_nil, ← hoff, AppendCall.Tears, hw.file.offset, ho.offset]
        have := hw.reached
        refine ⟨⟨ho, by omega, hw.small, hw.clocked, hw.lines⟩, ?_⟩
        simp only [hno, not_false_eq_true, true_and]
        omega
      · have hline : 0 < entry.line.length := by simp [SpoolEntry.line]
        have hcat : segmentOf (appended s calls ++ [entry])
            = segmentOf (appended s calls) ++ entry.line := by
          rw [segmentOf_append]
          simp [segmentOf]
        have hnot : ¬ a.Tears s' := fun ht => ht.1 hok
        rw [if_pos hok, he, and_iff_left hnot]
        rcases hw.reached.eq_or_lt with heq | hlt
        · refine .inl ⟨⟨htidy, fun _ => hoff.1 heq⟩, offset + entry.line.length, ?_, ?_⟩
          · rw [← heq, writeAt_end] at ho
            simp only [Except.toOption, Option.toList_some]
            refine ⟨?_, ?_, ?_, ?_, ?_⟩
            · rw [hcat, List.length_append, ← heq]
              exact ho
            · rw [hcat, List.length_append, heq]
            · rw [hcat, List.length_append]
              exact hfit
            · simp only [List.forall_mem_append, List.forall_mem_singleton]
              exact ⟨hw.clocked, (newEntry_ok he).2.2⟩
            · simp only [List.forall_mem_append, List.forall_mem_singleton]
              exact ⟨hw.lines, hlen⟩
          · simp only [Except.toOption, Option.toList_some, hcat, List.length_append]
            rw [← hoff]
            omega
        · refine .inr ⟨fun ht => hlt.ne (hoff.2 (ht.2 hok)), ?_⟩
          obtain ⟨rest, hrest⟩ := writeAt_gap entry.line hlt
          rw [hrest] at ho
          exact ⟨_, rest, _, _, ho, by omega, by omega⟩
    · refine .inr ⟨fun ht => htidy ht.1, gapped_step hg a hcur⟩

/-- Appends to a new segment, any of whose writes may fail: the segment reads as the entries whose
append returned without an error, and `curSize` is its length, exactly if each of these is readable
and none was appended once a failed write had moved the offset. -/
theorem rollback_iff (n : SegName) (s : Spool η) (h : JustOpened n s) (calls : List AppendCall)
    (hn : Run.Along appendStep (fun s a => (appendStep s a).queue.current = some n) s calls) :
    ReadsAs n (appended s calls) (Run.run appendStep s calls)
      ↔ (∀ e ∈ appended s calls, e.Readable) ∧ Tidy s calls := by
  rcases rollback_run h calls hn with ⟨htidy, offset, hw, -⟩ | ⟨htidy, es, rest, _, _, ho, -, -⟩
  · rw [and_iff_left htidy, ← decodeSegment_iff hw.clocked hw.lines hw.small]
    constructor
    · rintro ⟨content, hs, hd, -⟩
      rw [hw.file.segs] at hs
      cases hs
      exact hd
    · intro hd
      exact ⟨_, hw.file.segs, hd, hw.file.curSize⟩
  · refine ⟨?_, fun ht => absurd ht.2 htidy⟩
    rintro ⟨content, hs, hd, -⟩
    rw [ho.segs] at hs
    cases hs
    rw [decodeSegment_gap] at hd
    cases hd

/-- A new queue with one segment, just opened. -/
def newSegment : Spool Unit where
  queue :=
    { current := some ⟨0, 0⟩
      names := [⟨0, 0⟩]
      segs := Function.update (fun _ => none) ⟨0, 0⟩ (some []) }
  env := ()

theorem newSegment_opened : JustOpened ⟨0, 0⟩ newSegment :=
  ⟨rfl, rfl, List.mem_singleton_self _, rfl, rfl, rfl, rfl⟩

/-- The second of three writes stops after one byte: the third record is behind a gap, and the first
one cannot be read any more. -/
theorem rollback_gap :
    let calls : List AppendCall :=
      [⟨"event", "[1]".toList, 0, 0, none⟩, ⟨"event", "[2]".toList, 0, 0, some 1⟩,
        ⟨"event", "[3]".toList, 0, 0, none⟩]
    Run.Along appendStep (fun s a => (appendStep s a).queue.current = some ⟨0, 0⟩) newSegment calls
      ∧ (appended newSegment calls).length = 2
      ∧ ((Run.run appendStep newSegment calls).queue.segs ⟨0, 0⟩).bind decodeSegment = none := by
  refine ⟨⟨?_, ?_, ?_, trivial⟩, ?_, ?_⟩
  all_goals decide +kernel

/-- With the failed write at the end all is well. -/
theorem rollback_iff_sample :
    let calls : List AppendCall :=
      [⟨"event", "[1]".toList, 0, 0, none⟩, ⟨"event", "[2]".toList, 0, 0, none⟩,
        ⟨"event", "[3]".toList, 0, 0, some 1⟩]
    (appended newSegment calls).length = 2
      ∧ ReadsAs ⟨0, 0⟩ (appended newSegment calls) (Run.run appendStep newSegment calls) := by
  intro calls
  have htidy : Tidy newSegment calls := by
    have hfirst : Tidy newSegment (calls.take 1) := tidy_append.2 ⟨tidy_nil, fun _ => trivial⟩
    have hsecond : Tidy newSegment (calls.take 2) :=
      tidy_append.2 ⟨hfirst, fun _ => ⟨by decide +kernel, trivial⟩⟩
    exact tidy_append.2 ⟨hsecond, fun h => absurd h (by decide +kernel)⟩
  refine ⟨by decide +kernel, (rollback_iff ⟨0, 0⟩ newSegment newSegment_opened calls
    ⟨?_, ?_, ?_, trivial⟩).2 ⟨by decide +kernel, htidy⟩⟩
  all_goals decide +kernel

end Spool

end WMonitor
