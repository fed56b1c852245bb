import WMonitor.Proofs.SpoolRules

/-!
# What waits in the queue, and in which order

Reading a segment gives the entries that were appended to it, its checkpoint says how many of them were
delivered, and the segments of a regular queue, read in the order of their names, give what is waiting
in the order it was appended.
-/

namespace WMonitor

/-! ## Reading a segment -/

theorem length_splitLines (bs : List UInt8) : (splitLines bs).1.length ≤ bs.length := by
  induction bs with
  | nil => simp [splitLines]
  | cons b bs ih =>
    rw [splitLines]
    dsimp only
    split_ifs
    · simpa using ih
    · split
      · simp
      · rename_i line lines hl
        rw [hl, List.length_cons] at ih
        simp only [List.length_cons]
        omega

theorem length_mapM {α β : Type} {f : α → Option β} {xs : List α} {ys : List β}
    (h : xs.mapM f = some ys) : ys.length = xs.length := by
  induction xs generalizing ys with
  | nil => simp_all
  | cons x xs ih =>
    simp only [List.mapM_cons, Option.bind_eq_bind, Option.pure_def, Option.bind_eq_some_iff,
      Option.some.injEq] at h
    obtain ⟨y, -, zs, hzs, rfl⟩ := h
    simp [ih hzs]

theorem length_decodeSegment {content : List UInt8} {es : List SpoolEntry}
    (h : decodeSegment content = some es) : es.length ≤ maxSegmentBytes + maxRecordBytes := by
  unfold decodeSegment at h
  dsimp only at h
  split_ifs at h with hlen hbad
  have hl := length_splitLines content
  have hf := List.length_filter_le (fun line => !isBlank line) (splitLines content).1
  rw [← length_mapM h] at hf
  omega

namespace Spool

variable {η θ α : Type} {U : URLs} {O : Outside η} {s : Spool η} {q : Queue} {p : Progress}
  {c : Custody} {e : η} {n : SegName} {content : List UInt8} {es : List SpoolEntry}

theorem Inv.decoded (h : Inv U O q p c e) (hn : n ∉ q.torn)
    (hs : q.segs n = some content ∨ q.held n = some content) (hd : decodeSegment content = some es) :
    es = (entriesOf q.written n).map fun w => w.entry.stored := by
  rw [h.content n content hn hs] at hd
  rw [decodeSegment_segmentOf (fun x hx => ?_) hd, List.map_map]
  · rfl
  · obtain ⟨w, hw, rfl⟩ := List.mem_map.1 hx
    exact h.clocked w (List.mem_of_mem_filter hw)

theorem Inv.entry_at (h : Inv U O q p c e) {w : Written} (hw : w ∈ entriesOf q.written n) :
    (entriesOf q.written n)[w.index]? = some w := by
  obtain ⟨i, hi⟩ := List.mem_iff_getElem?.1 hw
  have hidx := congrArg (fun l => l[i]?) (h.index n)
  have hlt := (List.getElem?_eq_some_iff.1 hi).1
  simp only [List.getElem?_map, hi, Option.map_some, List.getElem?_range hlt,
    Option.some.injEq] at hidx
  rw [hidx]
  exact hi

/-! ## Checkpoints -/

/-- How many entries of a segment its checkpoint has passed. -/
def acked (p : Progress) (n : SegName) : ℕ := (((p.acks n).bind atoi).getD 0).toNat

theorem acked_of_none (h : p.acks n = none) : acked p n = 0 := by simp [acked, h]

theorem Inv.ack_acked (h : Inv U O q p c e) {text : List Char} (ha : p.acks n = some text)
    (hs : q.segs n = some content) (hd : decodeSegment content = some es) :
    atoi text = some (acked p n : ℤ) ∧ acked p n ≤ es.length ∧
      ∀ i < acked p n, ∀ x, es[i]? = some x → DeliveredAt p n i x := by
  obtain ⟨es', m, hes, rfl, hm, hall⟩ := h.ack n text content (.inl ha) (.inl hs)
  obtain rfl := Option.some.inj (hd.symm.trans hes)
  have hlen := length_decodeSegment hd
  simp only [maxSegmentBytes, maxRecordBytes] at hlen
  have hatoi : atoi (itoa m) = some (m : ℤ) := atoi_itoa (by omega) (by omega)
  have hm' : acked p n = m := by simp [acked, ha, hatoi]
  rw [hm']
  exact ⟨hatoi, hm, hall⟩

/-! ## Places -/

theorem places_append (n : SegName) (i : ℕ) (es es' : List SpoolEntry) :
    places n i (es ++ es') = places n i es ++ places n (i + es.length) es' := by
  induction es generalizing i with
  | nil => simp [places]
  | cons x es ih =>
    simp only [List.cons_append, places, ih, List.length_cons]
    rw [show i + 1 + es.length = i + (es.length + 1) by omega]

theorem places_entries {ws : List Written} {i : ℕ} (hn : ∀ w ∈ ws, w.name = n)
    (hi : ws.map Written.index = List.range' i ws.length) :
    places n i (ws.map fun w => w.entry.stored) = ws.map Written.place := by
  induction ws generalizing i with
  | nil => rfl
  | cons w ws ih =>
    simp only [List.map_cons, List.length_cons, List.range'_succ, List.cons.injEq] at hi
    rw [List.map_cons, List.map_cons, places, Written.place, hi.1, hn w List.mem_cons_self,
      ih (fun w hw => hn w (List.mem_cons_of_mem _ hw)) hi.2]

theorem Inv.places_drop (h : Inv U O q p c e) (n : SegName) (i : ℕ) :
    places n i (((entriesOf q.written n).map fun w => w.entry.stored).drop i)
      = ((entriesOf q.written n).drop i).map Written.place := by
  rw [← List.map_drop]
  refine places_entries (fun w hw => ?_) ?_
  · simpa using List.of_mem_filter (List.mem_of_mem_drop hw)
  · rw [List.map_drop, h.index, List.range_eq_range', List.drop_range', List.length_drop]
    simp

theorem filter_index {ws : List Written} {i k : ℕ}
    (hi : ws.map Written.index = List.range' i ws.length) :
    ws.filter (fun w => decide (k ≤ w.index)) = ws.drop (k - i) := by
  induction ws generalizing i with
  | nil => simp
  | cons w ws ih =>
    simp only [List.map_cons, List.length_cons, List.range'_succ, List.cons.injEq] at hi
    rw [List.filter_cons, ih hi.2, hi.1]
    by_cases hk : k ≤ i
    · simp [hk, Nat.sub_eq_zero_of_le hk, Nat.sub_eq_zero_of_le (Nat.le_succ_of_le hk)]
    · rw [if_neg (by simpa using hk), show k - i = k - (i + 1) + 1 by omega, List.drop_succ_cons]

/-! ## What is waiting -/

/-- What a pass will present of a segment that it has listed. -/
def planOf (p : Progress) (v : SegName → Option SealedView) (n : SegName) :
    List (SegName × ℕ × SpoolEntry) :=
  (((v n).elim [] SealedView.entries).drop (acked p n)).map Written.place

theorem planOf_listed (hn : n ∈ listed c) : planOf p (view q c) n
    = ((entriesOf q.written n).drop (acked p n)).map Written.place := by
  rw [planOf, view, if_pos hn]
  rfl

theorem pending_eq (h : Inv U O s.queue s.progress s.custody s.env) :
    s.pending = (s.queue.names.filter fun n => (s.queue.segs n).isSome).flatMap fun n =>
      (entriesOf s.queue.written n).drop (acked s.progress n) := by
  have hone : ∀ n, (entriesOf s.queue.written n).filter (fun w =>
      (s.queue.segs w.name).isSome && decide (s.checkpointOf w.name ≤ w.index))
      = if (s.queue.segs n).isSome then
          (entriesOf s.queue.written n).drop (acked s.progress n) else [] := by
    intro n
    have hname : ∀ w ∈ entriesOf s.queue.written n, w.name = n := fun w hw => by
      simpa using List.of_mem_filter hw
    have hidx := h.index n
    rw [List.range_eq_range'] at hidx
    split_ifs with hs
    · rw [← Nat.sub_zero (acked s.progress n), ← filter_index hidx]
      refine List.filter_congr fun w hw => ?_
      rw [hname w hw, hs, Bool.true_and]
      rfl
    · refine List.filter_eq_nil_iff.2 fun w hw => ?_
      simp [hname w hw, hs]
  rw [pending]
  conv_lhs => rw [h.appendOrder]
  rw [List.filter_flatMap, List.flatMap_congr fun n _ => hone n]
  induction s.queue.names with
  | nil => rfl
  | cons n names ih =>
    rw [List.flatMap_cons, ih, List.filter_cons]
    split_ifs <;> simp

theorem segments_eq (hr : Regular s.queue) :
    s.segments = s.queue.names.filter fun n => (s.queue.segs n).isSome := by
  refine List.mergeSort_of_pairwise ((hr.2.sublist List.filter_sublist).imp fun h => ?_)
  exact decide_eq_true (le_of_lt (α := List Char) (fileName_lt h))

theorem nodup_segments (h : Inv U O s.queue s.progress s.custody s.env) : s.segments.Nodup :=
  (List.mergeSort_perm ..).nodup_iff.2 (h.names.sublist List.filter_sublist)

end Spool

end WMonitor
