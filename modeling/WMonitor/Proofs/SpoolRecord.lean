import WMonitor.Proofs.Json
import WMonitor.SpoolRecord

/-!
# Records read back

A record's line reads back as the same type and the same JSON value, a segment that is a sequence of
lines as the sequence of its records, and file names are in the order of the clock.
-/

namespace WMonitor

/-! ## Lines -/

theorem splitLines_cons (bs : List UInt8) : splitLines (10 :: bs) =
    ([] :: (splitLines bs).1, (splitLines bs).2) := by
  rw [splitLines]
  simp

theorem splitLines_line {line : List UInt8} (bs : List UInt8) (h : 10 ∉ line) :
    splitLines (line ++ 10 :: bs) = (line :: (splitLines bs).1, (splitLines bs).2) := by
  induction line with
  | nil => exact splitLines_cons bs
  | cons b line ih =>
    have hb : b ≠ 10 := fun hb => h (by simp [hb])
    rw [List.cons_append, splitLines, ih fun hm => h (List.mem_cons_of_mem b hm)]
    simp [hb]

theorem splitLines_lines {lines : List (List UInt8)} (h : ∀ line ∈ lines, 10 ∉ line) :
    splitLines (lines.flatMap fun line => line ++ [10]) = (lines, []) := by
  induction lines with
  | nil => rfl
  | cons line lines ih =>
    rw [List.flatMap_cons, List.append_assoc, List.singleton_append,
      splitLines_line _ (h line List.mem_cons_self), ih fun l hl => h l (List.mem_cons_of_mem _ hl)]

/-! ## Records -/

/-- An entry as it is read back: its body is compact. -/
def SpoolEntry.stored (e : SpoolEntry) : SpoolEntry := { e with body := e.body.compact }

def SpoolEntry.line (e : SpoolEntry) : List UInt8 := e.marshal ++ [10]

/-- A line is the record of a type and a JSON value. -/
def IsRecord (line : List UInt8) (payloadType : String) (v : Json.Value) : Prop :=
  ∃ ms body queuedAt, (decodeText line).bind Json.parse = some (.obj ms) ∧
    ms.foldlM PartialEntry.set ⟨"", none, 0⟩ = some ⟨payloadType, some body, queuedAt⟩ ∧
    body.value = v

theorem parse_marshal (e : SpoolEntry) :
    (decodeText e.marshal).bind Json.parse = some e.json := by
  have h : Json.parse (e.json.print ++ []) = some e.json := Json.parse_print e.json (by simp)
  rw [List.append_nil] at h
  rw [SpoolEntry.marshal, decodeText_encodeText, Option.bind_some, h]

theorem PartialEntry.set_type (e : PartialEntry) (payloadType : String) :
    e.set (Json.quote "type", .str (Json.quote payloadType))
      = some { e with payloadType := payloadType } := by
  have hk : isField "type" "type" = true := by decide
  simp [PartialEntry.set, setString, hk]

theorem PartialEntry.set_body (e : PartialEntry) (body : Json) :
    e.set (Json.quote "body", body) = some { e with body := some body } := by
  have hn : isField "type" "body" = false := by decide
  have hk : isField "body" "body" = true := by decide
  simp [PartialEntry.set, hn, hk]

theorem PartialEntry.set_queuedAt (e : PartialEntry) (n : ℤ) :
    e.set (Json.quote "queued_at", .num (Json.int n))
      = (atoi (itoa n)).map fun m => { e with queuedAt := m } := by
  have ht : isField "type" "queued_at" = false := by decide
  have hb : isField "body" "queued_at" = false := by decide
  have hk : isField "queued_at" "queued_at" = true := by decide
  simp [PartialEntry.set, setInt64, ht, hb, hk, Json.int]

/-- The clock of an entry is a 64-bit number. -/
def SpoolEntry.Clocked (e : SpoolEntry) : Prop := -2 ^ 63 ≤ e.queuedAt ∧ e.queuedAt < 2 ^ 63

theorem foldlM_json {e : SpoolEntry} (h : e.Clocked) :
    ∃ ms, e.json = .obj ms ∧ ms.foldlM PartialEntry.set ⟨"", none, 0⟩
      = some ⟨e.payloadType, some e.body.compact, e.queuedAt⟩ := by
  refine ⟨_, rfl, ?_⟩
  simp only [List.foldlM_cons, List.foldlM_nil, PartialEntry.set_type, PartialEntry.set_body,
    PartialEntry.set_queuedAt, atoi_itoa h.1 h.2]
  rfl

theorem isRecord_marshal {e : SpoolEntry} (h : e.Clocked) :
    IsRecord e.marshal e.payloadType e.body.value := by
  obtain ⟨ms, hj, hms⟩ := foldlM_json h
  refine ⟨ms, _, _, (parse_marshal e).trans (congrArg some hj), hms, ?_⟩
  exact Json.value_compact e.body

/-- An entry that `readSegment` can read. -/
def SpoolEntry.Readable (e : SpoolEntry) : Prop :=
  e.payloadType ≠ "" ∧ e.json.depth ≤ maxNestingDepth

instance (e : SpoolEntry) : Decidable e.Readable :=
  inferInstanceAs (Decidable (_ ∧ _))

theorem unmarshal_marshal {e : SpoolEntry} (h : e.Clocked) :
    SpoolEntry.unmarshal e.marshal
      = if e.payloadType = "" ∨ maxNestingDepth < e.json.depth then none else some e.stored := by
  obtain ⟨ms, hj, hms⟩ := foldlM_json h
  have hp := parse_marshal e
  rw [SpoolEntry.marshal, decodeText_encodeText, Option.bind_some] at hp
  rw [SpoolEntry.unmarshal, SpoolEntry.marshal, decodeText_encodeText, Option.bind_some, unmarshal,
    hp]
  by_cases hd : maxNestingDepth < e.json.depth
  · simp only [hd, if_true, or_true]
  · simp only [hd, if_false, or_false]
    rw [hj]
    simp only [hms]
    rfl

theorem marshal_newline (e : SpoolEntry) : 10 ∉ e.marshal :=
  encodeText_newline (Json.print_newline e.json)

theorem isBlank_marshal (e : SpoolEntry) : isBlank e.marshal = false := by
  rw [isBlank, SpoolEntry.marshal, decodeText_encodeText]
  rfl

/-! ## Segments -/

/-- The content of a segment with these entries. -/
def segmentOf (es : List SpoolEntry) : List UInt8 := es.flatMap SpoolEntry.line

theorem segmentOf_append (es es' : List SpoolEntry) :
    segmentOf (es ++ es') = segmentOf es ++ segmentOf es' :=
  List.flatMap_append

theorem splitLines_segmentOf (es : List SpoolEntry) :
    splitLines (segmentOf es) = (es.map SpoolEntry.marshal, []) := by
  have h : segmentOf es = (es.map SpoolEntry.marshal).flatMap fun line => line ++ [10] := by
    rw [List.flatMap_map]
    rfl
  rw [h, splitLines_lines]
  intro line hline
  obtain ⟨e, -, rfl⟩ := List.mem_map.1 hline
  exact marshal_newline e

theorem mapM_unmarshal {es : List SpoolEntry} (hc : ∀ e ∈ es, e.Clocked) {xs : List SpoolEntry}
    (h : (es.map SpoolEntry.marshal).mapM SpoolEntry.unmarshal = some xs) :
    xs = es.map SpoolEntry.stored := by
  induction es generalizing xs with
  | nil =>
    simp only [List.map_nil, List.mapM_nil, Option.pure_def, Option.some.injEq] at h
    exact h.symm
  | cons e es ih =>
    rw [List.map_cons, List.mapM_cons, unmarshal_marshal (hc e List.mem_cons_self)] at h
    split_ifs at h with hr
    · exact absurd h (by simp)
    · simp only [Option.bind_eq_bind, Option.bind_some, Option.pure_def, Option.bind_eq_some_iff,
        Option.some.injEq] at h
      obtain ⟨ys, hys, rfl⟩ := h
      rw [ih (fun e he => hc e (List.mem_cons_of_mem _ he)) hys, List.map_cons]

/-- What is read from a segment are its entries. -/
theorem decodeSegment_segmentOf {es xs : List SpoolEntry} (hc : ∀ e ∈ es, e.Clocked)
    (h : decodeSegment (segmentOf es) = some xs) : xs = es.map SpoolEntry.stored := by
  have hblank : (es.map SpoolEntry.marshal).filter (fun line => !isBlank line)
      = es.map SpoolEntry.marshal := by
    refine List.filter_eq_self.2 fun line hline => ?_
    obtain ⟨e, -, rfl⟩ := List.mem_map.1 hline
    rw [isBlank_marshal e]
    rfl
  simp only [decodeSegment, splitLines_segmentOf, hblank] at h
  split_ifs at h
  exact mapM_unmarshal hc h

/-! ## Bindings -/

theorem SpoolBinding.set_origin (b : SpoolBinding) (s : String) :
    b.set (Json.quote "origin", .str (Json.quote s)) = some { b with origin := s } := by
  have hk : isField "origin" "origin" = true := by decide
  simp [SpoolBinding.set, setString, hk]

theorem SpoolBinding.set_tenantID (b : SpoolBinding) (s : String) :
    b.set (Json.quote "tenant_id", .str (Json.quote s)) = some { b with tenantID := s } := by
  have hn : isField "origin" "tenant_id" = false := by decide
  have hk : isField "tenant_id" "tenant_id" = true := by decide
  simp [SpoolBinding.set, setString, hn, hk]

theorem SpoolBinding.set_serverID (b : SpoolBinding) (s : String) :
    b.set (Json.quote "server_id", .str (Json.quote s)) = some { b with serverID := s } := by
  have ho : isField "origin" "server_id" = false := by decide
  have ht : isField "tenant_id" "server_id" = false := by decide
  have hk : isField "server_id" "server_id" = true := by decide
  simp [SpoolBinding.set, setString, ho, ht, hk]

/-- A binding reads back; what is omitted when empty is empty. -/
theorem unmarshal_binding (b : SpoolBinding) : SpoolBinding.unmarshal b.marshal = some b := by
  have hp : Json.parse (b.json.print ++ []) = some b.json := Json.parse_print b.json (by simp)
  rw [List.append_nil] at hp
  have hd : ¬ maxNestingDepth < b.json.depth := by
    rw [SpoolBinding.json]
    split_ifs <;> simp [Json.depth, Json.depthMembers, maxNestingDepth]
  rw [SpoolBinding.unmarshal, SpoolBinding.marshal, unmarshal, hp]
  dsimp only
  rw [if_neg hd, SpoolBinding.json]
  obtain ⟨origin, tenantID, serverID⟩ := b
  by_cases ht : tenantID = "" <;> by_cases hs : serverID = "" <;>
    simp [List.foldlM_cons, SpoolBinding.set_origin, SpoolBinding.set_tenantID,
      SpoolBinding.set_serverID, ht, hs]

/-! ## Names -/

/-- The clock as it stands in a name. -/
def paddedDigits (n : Fin (2 ^ 63)) : List Char := (Nat.toDigits 10 n).leftpad 20 '0'

theorem length_paddedDigits (n : Fin (2 ^ 63)) : (paddedDigits n).length = 20 := by
  have hn : n.val < 10 ^ 20 := n.isLt.trans (by norm_num)
  rw [paddedDigits, List.length_leftpad,
    max_eq_left ((Nat.length_toDigits_le_iff (by decide) (by decide)).2 hn)]

theorem ofDigitChars_paddedDigits (n : Fin (2 ^ 63)) : Nat.ofDigitChars 10 (paddedDigits n) 0 = n := by
  rw [paddedDigits, List.leftpad, Nat.ofDigitChars_append, Nat.ofDigitChars_replicate_zero,
    Nat.mul_zero, Nat.ofDigitChars_ten_toDigits]

theorem isDigit_of_mem_paddedDigits {n : Fin (2 ^ 63)} {c : Char} (h : c ∈ paddedDigits n) :
    c.isDigit = true := by
  rcases List.mem_append.1 h with h | h
  · rw [List.eq_of_mem_replicate h]
    rfl
  · exact Nat.isDigit_of_mem_toDigits (by decide) (by decide) h

theorem fileName_lt {a b : SegName} (h : a.nanos < b.nanos) : a.fileName < b.fileName := by
  simp only [SegName.fileName, List.append_assoc]
  refine List.append_left_lt ?_
  refine append_lt_of_ofDigitChars_lt
    ((length_paddedDigits a.nanos).trans (length_paddedDigits b.nanos).symm)
    (fun _ => isDigit_of_mem_paddedDigits) (fun _ => isDigit_of_mem_paddedDigits) ?_ _ _
  rw [ofDigitChars_paddedDigits, ofDigitChars_paddedDigits]
  exact h

theorem fileName_injective : Function.Injective SegName.fileName := by
  intro a b h
  simp only [SegName.fileName, List.append_assoc, List.append_cancel_left_eq] at h
  obtain ⟨hnanos, hrest⟩ := List.append_inj h
    ((length_paddedDigits a.nanos).trans (length_paddedDigits b.nanos).symm)
  have hdigits : Nat.toDigits 10 a.rand = Nat.toDigits 10 b.rand :=
    List.append_cancel_right (List.cons.inj hrest).2
  have hn : a.nanos = b.nanos := by
    rw [Fin.ext_iff, ← ofDigitChars_paddedDigits a.nanos, ← ofDigitChars_paddedDigits b.nanos]
    exact congrArg (fun ds => Nat.ofDigitChars 10 ds 0) hnanos
  have hr : a.rand = b.rand := by
    rw [← Nat.ofDigitChars_ten_toDigits (n := a.rand), hdigits, Nat.ofDigitChars_ten_toDigits]
  cases a
  cases b
  rw [SegName.mk.injEq]
  exact ⟨hn, hr⟩

end WMonitor
