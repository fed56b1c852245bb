import WMonitor.Proofs.Packing

/-!
# How strict `DecodeIngest` is

`inspectJSONValue` compares the keys of an object as they are, the typed decoder takes them up to
letter case. What it accepts has no unknown field, is not nested deeply and nothing follows it; but a
field may be given twice, in two spellings, exactly if some object has two keys that differ in letter
case only.
-/

namespace WMonitor

open StructField

/-! ## Keys -/

/-- A key as the typed decoder takes it. -/
def foldKey (key : RawStr) : List Char := (Json.unquote key).toList.map foldChar

/-- The typed decoder assigns the value of this key to the field. -/
def Assigns (name : String) (key : RawStr) : Prop := foldKey key = name.toList.map foldChar

theorem hasKey_iff {α : Type} {f : StructField α} {key : RawStr} :
    f.hasKey (Json.unquote key) = true ↔ Assigns f.name key := by
  rw [StructField.hasKey, isField, decide_eq_true_iff, String.toList_ofList]
  rfl

namespace Json

mutual

/-- No object has two keys that are the same up to letter case. -/
def FoldDistinct : Json → Prop
  | arr xs => FoldDistinctElems xs
  | obj ms => (ms.map fun m => foldKey m.1).Nodup ∧ FoldDistinctMembers ms
  | _ => True

def FoldDistinctElems : List Json → Prop
  | [] => True
  | x :: xs => FoldDistinct x ∧ FoldDistinctElems xs

def FoldDistinctMembers : List (RawStr × Json) → Prop
  | [] => True
  | (_, x) :: ms => FoldDistinct x ∧ FoldDistinctMembers ms

end

theorem foldDistinct_arr {xs : List Json} : (arr xs).FoldDistinct ↔ ∀ x ∈ xs, x.FoldDistinct := by
  rw [FoldDistinct]
  induction xs with
  | nil => simp [FoldDistinctElems]
  | cons x xs ih => rw [FoldDistinctElems, ih, List.forall_mem_cons]

theorem foldDistinct_obj {ms : List (RawStr × Json)} : (obj ms).FoldDistinct ↔
    (ms.map fun m => foldKey m.1).Nodup ∧ ∀ m ∈ ms, m.2.FoldDistinct := by
  have hmembers : FoldDistinctMembers ms ↔ ∀ m ∈ ms, m.2.FoldDistinct := by
    induction ms with
    | nil => simp [FoldDistinctMembers]
    | cons m ms ih => rw [FoldDistinctMembers, ih, List.forall_mem_cons]
  rw [FoldDistinct, hmembers]

theorem depth_arr_le {xs : List Json} {d : ℕ} (h : ∀ x ∈ xs, x.depth ≤ d) :
    (arr xs).depth ≤ d + 1 := by
  have helems : depthElems xs ≤ d := by
    induction xs with
    | nil => exact Nat.zero_le d
    | cons x xs ih =>
      rw [List.forall_mem_cons] at h
      exact max_le h.1 (ih h.2)
  rw [depth]
  exact Nat.succ_le_succ helems

theorem depth_obj_le {ms : List (RawStr × Json)} {d : ℕ} (h : ∀ m ∈ ms, m.2.depth ≤ d) :
    (obj ms).depth ≤ d + 1 := by
  have hmembers : depthMembers ms ≤ d := by
    induction ms with
    | nil => exact Nat.zero_le d
    | cons m ms ih =>
      rw [List.forall_mem_cons] at h
      exact max_le h.1 (ih h.2)
  rw [depth]
  exact Nat.succ_le_succ hmembers

/-- A value that is no array and no object. -/
def Plain (j : Json) : Prop := j.depth = 0

theorem Plain.foldDistinct {j : Json} (h : j.Plain) : j.FoldDistinct := by
  cases j <;> simp_all [Plain, depth, FoldDistinct]

end Json

/-! ## Shapes -/

/-- What a type of the decoder admits: `fits` if it knows every field, `strict` if moreover it assigns
no field from two keys. -/
structure Shape where
  fits : Json → Prop
  strict : Json → Prop
  depth : ℕ
  depth_le : ∀ {j}, fits j → j.depth ≤ depth
  strict_iff : ∀ {j}, strict j ↔ fits j ∧ j.FoldDistinct

namespace Shape

/-- Numbers, strings and times. -/
def scalar : Shape where
  fits := Json.Plain
  strict := Json.Plain
  depth := 0
  depth_le h := h.le
  strict_iff := ⟨fun h => ⟨h, h.foldDistinct⟩, And.left⟩

/-- A slice. -/
def list (s : Shape) : Shape where
  fits
    | .arr xs => ∀ x ∈ xs, s.fits x
    | j => j.Plain
  strict
    | .arr xs => ∀ x ∈ xs, s.strict x
    | j => j.Plain
  depth := s.depth + 1
  depth_le {j} h := by
    cases j with
    | arr xs => exact Json.depth_arr_le fun x hx => s.depth_le (h x hx)
    | _ => exact le_of_eq_of_le h (Nat.zero_le _)
  strict_iff {j} := by
    cases j with
    | arr xs =>
      simp only [s.strict_iff, Json.foldDistinct_arr]
      exact forall₂_and
    | _ => exact ⟨fun h => ⟨h, h.foldDistinct⟩, And.left⟩

theorem exists_mem_depth {fs : List (String × Shape)} {f : String × Shape} (hf : f ∈ fs) :
    f.2.depth ≤ (fs.map (·.2.depth)).foldr max 0 := by
  induction fs with
  | nil => cases hf
  | cons g fs ih =>
    rcases List.mem_cons.mp hf with rfl | hf
    · exact le_max_left _ _
    · exact (ih hf).trans (le_max_right _ _)

/-- The members of an object go to different fields. -/
def Distinct (fs : List (String × Shape)) (ms : List (RawStr × Json)) : Prop :=
  ms.Pairwise fun m m' => ∀ f ∈ fs, ¬ (Assigns f.1 m.1 ∧ Assigns f.1 m'.1)

/-- Members that go to fields go to different ones if their keys are different up to letter case. -/
theorem distinct_iff {fs : List (String × Shape)} {ms : List (RawStr × Json)}
    (h : ∀ m ∈ ms, ∃ f ∈ fs, Assigns f.1 m.1) :
    Distinct fs ms ↔ (ms.map fun m => foldKey m.1).Nodup := by
  rw [Distinct, List.Nodup, List.pairwise_map]
  refine List.Pairwise.iff_of_mem fun {m m'} hm _ => ⟨fun hdiff hsame => ?_, ?_⟩
  · obtain ⟨f, hf, hassigns⟩ := h m hm
    exact hdiff f hf ⟨hassigns, hsame.symm.trans hassigns⟩
  · rintro hdiff f - ⟨hm, hm'⟩
    exact hdiff (hm.trans hm'.symm)

/-- A structure, with the names of its fields. -/
def object (fs : List (String × Shape)) : Shape where
  fits
    | .obj ms => ∀ m ∈ ms, ∃ f ∈ fs, Assigns f.1 m.1 ∧ f.2.fits m.2
    | j => j.Plain
  strict
    | .obj ms => (∀ m ∈ ms, ∃ f ∈ fs, Assigns f.1 m.1 ∧ f.2.strict m.2) ∧ Distinct fs ms
    | j => j.Plain
  depth := (fs.map (·.2.depth)).foldr max 0 + 1
  depth_le {j} h := by
    cases j with
    | obj ms =>
      refine Json.depth_obj_le fun m hm => ?_
      obtain ⟨f, hf, -, hfits⟩ := h m hm
      exact (f.2.depth_le hfits).trans (exists_mem_depth hf)
    | _ => exact le_of_eq_of_le h (Nat.zero_le _)
  strict_iff {j} := by
    cases j with
    | obj ms =>
      rw [Json.foldDistinct_obj]
      constructor
      · rintro ⟨hmembers, hdistinct⟩
        refine ⟨fun m hm => ?_, ?_, fun m hm => ?_⟩
        · obtain ⟨f, hf, hassigns, hstrict⟩ := hmembers m hm
          exact ⟨f, hf, hassigns, (f.2.strict_iff.mp hstrict).1⟩
        · refine (distinct_iff fun m hm => ?_).mp hdistinct
          obtain ⟨f, hf, hassigns, -⟩ := hmembers m hm
          exact ⟨f, hf, hassigns⟩
        · obtain ⟨f, -, -, hstrict⟩ := hmembers m hm
          exact (f.2.strict_iff.mp hstrict).2
      · rintro ⟨hfits, hnodup, hinner⟩
        refine ⟨fun m hm => ?_, (distinct_iff fun m hm => ?_).mpr hnodup⟩
        · obtain ⟨f, hf, hassigns, hfit⟩ := hfits m hm
          exact ⟨f, hf, hassigns, f.2.strict_iff.mpr ⟨hfit, hinner m hm⟩⟩
        · obtain ⟨f, hf, hassigns, -⟩ := hfits m hm
          exact ⟨f, hf, hassigns⟩
    | _ => exact ⟨fun h => ⟨h, h.foldDistinct⟩, And.left⟩

end Shape

/-! ## What the typed decoder accepts -/

section Decoding

variable {α β : Type}

/-- The field has the name, and what is read into it fits. -/
structure StructField.Reads (f : StructField α) (s : String × Shape) : Prop where
  name_eq : f.name = s.1
  fits : ∀ x j y, f.read true x j = some y → s.2.fits j

theorem readMember_fits {fs : List (StructField α)} {ss : List (String × Shape)}
    (h : List.Forall₂ StructField.Reads fs ss) {x y : α} {m : RawStr × Json}
    (hm : readMember fs true x m = some y) : ∃ s ∈ ss, Assigns s.1 m.1 ∧ s.2.fits m.2 := by
  unfold readMember at hm
  split at hm
  · next f hfind =>
    have hmatch := List.find?_some hfind
    have hkey := hasKey_iff.mp hmatch
    obtain ⟨s, hs, hname, hreads⟩ : ∃ s ∈ ss, f.Reads s :=
      (List.forall₂_iff_get.mp h).elim fun hlen hget => by
        obtain ⟨i, hi, rfl⟩ := List.getElem_of_mem (List.mem_of_find?_eq_some hfind)
        exact ⟨ss[i], List.getElem_mem _, hget i hi (hlen ▸ hi)⟩
    exact ⟨s, hs, hname ▸ hkey, hreads _ _ _ hm⟩
  · cases hm

theorem decodeObj_fits {fs : List (StructField α)} {ss : List (String × Shape)}
    (h : List.Forall₂ StructField.Reads fs ss) {x y : α} {j : Json}
    (hj : decodeObj fs true x j = some y) : (Shape.object ss).fits j := by
  cases j with
  | obj ms =>
    change ms.foldlM (readMember fs true) x = some y at hj
    change ∀ m ∈ ms, ∃ s ∈ ss, Assigns s.1 m.1 ∧ s.2.fits m.2
    induction ms generalizing x with
    | nil => simp
    | cons m ms ih =>
      obtain ⟨x', hm, hms⟩ := Option.bind_eq_some_iff.mp hj
      exact List.forall_mem_cons.mpr ⟨readMember_fits h hm, ih hms⟩
  | null => rfl
  | _ => cases hj

theorem decodeElems_fits {fs : List (StructField α)} {ss : List (String × Shape)}
    (h : List.Forall₂ StructField.Reads fs ss) {zero : α} {xs ys : List α} {js : List Json}
    (hjs : decodeElems fs true zero xs js = some ys) : ∀ j ∈ js, (Shape.object ss).fits j := by
  induction js generalizing xs ys with
  | nil => simp
  | cons j js ih =>
    obtain ⟨y, hy, hrest⟩ := Option.bind_eq_some_iff.mp hjs
    obtain ⟨ys', hys, -⟩ := Option.bind_eq_some_iff.mp hrest
    exact List.forall_mem_cons.mpr ⟨decodeObj_fits h hy, ih hys⟩

/-- The field takes no arrays and no objects. -/
def StructField.Plain (f : StructField α) : Prop := ∀ x j y, f.read true x j = some y → j.Plain

theorem StructField.Plain.reads {f : StructField α} (h : f.Plain) : f.Reads (f.name, .scalar) :=
  ⟨rfl, h⟩

theorem plain_string (name : String) (get : α → String) (put : String → α → α) :
    (StructField.string name get put).Plain := by
  intro x j y h
  cases j <;> first | rfl | cases h

theorem plain_number (name : String) (get : α → β) (put : β → α → α) (write : β → Option NumLit)
    (read : NumLit → Option β) : (StructField.number name get put write read).Plain := by
  intro x j y h
  cases j <;> first | rfl | cases h

theorem plain_time (S : Scalars) (name : String) (get : α → ℤ) (put : ℤ → α → α) :
    (StructField.time S name get put).Plain := by
  intro x j y h
  cases j <;> first | rfl | cases h

theorem reads_pointer (name : String) {fs : List (StructField β)} {ss : List (String × Shape)}
    (h : List.Forall₂ StructField.Reads fs ss) (zero : β) (get : α → Option β)
    (put : Option β → α → α) :
    (StructField.pointer name fs zero get put).Reads (name, .object ss) := by
  refine ⟨rfl, fun x j y hj => ?_⟩
  cases j with
  | null => rfl
  | _ =>
    simp only [pointer] at hj
    obtain ⟨z, hz, -⟩ := Option.map_eq_some_iff.mp hj
    exact decodeObj_fits h hz

theorem reads_slice (name : String) {fs : List (StructField β)} {ss : List (String × Shape)}
    (h : List.Forall₂ StructField.Reads fs ss) (zero : β) (get : α → List β)
    (put : List β → α → α) :
    (StructField.slice name fs zero get put).Reads (name, .list (.object ss)) := by
  refine ⟨rfl, fun x j y hj => ?_⟩
  cases j with
  | arr js =>
    obtain ⟨zs, hzs, -⟩ := Option.map_eq_some_iff.mp hj
    exact decodeElems_fits h hzs
  | null => rfl
  | _ => cases hj

end Decoding

/-! ## The structures of the wire -/

section Structures

variable (S : Scalars)

def MetricRow.shape : List (String × Shape) := (MetricRow.fields S).map fun f => (f.name, .scalar)

def ProcessRow.shape : List (String × Shape) := (ProcessRow.fields S).map fun f => (f.name, .scalar)

def IngestEvent.shape : List (String × Shape) :=
  [("event_id", .scalar), ("boot_id", .scalar), ("sequence", .scalar),
    ("metric", .object (MetricRow.shape S)), ("process", .object (ProcessRow.shape S))]

def IngestBatch.shape : List (String × Shape) :=
  [("schema_version", .scalar), ("events", .list (.object (IngestEvent.shape S)))]

theorem metricRow_reads : List.Forall₂ StructField.Reads (MetricRow.fields S) (MetricRow.shape S) := by
  have hplain : ∀ f ∈ MetricRow.fields S, f.Plain := by
    simp only [MetricRow.fields, int64, uint64, float64, List.forall_mem_cons, plain_string,
      plain_number, plain_time, List.not_mem_nil, false_implies, implies_true, and_true]
  rw [MetricRow.shape, List.forall₂_map_right_iff, List.forall₂_same]
  exact fun f hf => (hplain f hf).reads

theorem processRow_reads :
    List.Forall₂ StructField.Reads (ProcessRow.fields S) (ProcessRow.shape S) := by
  have hplain : ∀ f ∈ ProcessRow.fields S, f.Plain := by
    simp only [ProcessRow.fields, int64, int32, float64, List.forall_mem_cons, plain_string,
      plain_number, plain_time, List.not_mem_nil, false_implies, implies_true, and_true]
  rw [ProcessRow.shape, List.forall₂_map_right_iff, List.forall₂_same]
  exact fun f hf => (hplain f hf).reads

theorem ingestEvent_reads :
    List.Forall₂ StructField.Reads (IngestEvent.fields S) (IngestEvent.shape S) :=
  .cons (plain_string _ _ _).reads <| .cons (plain_string _ _ _).reads <|
    .cons (plain_number _ _ _ _ _).reads <| .cons (reads_pointer _ (metricRow_reads S) _ _ _) <|
      .cons (reads_pointer _ (processRow_reads S) _ _ _) .nil

theorem ingestBatch_reads :
    List.Forall₂ StructField.Reads (IngestBatch.fields S) (IngestBatch.shape S) :=
  .cons (plain_string _ _ _).reads <| .cons (reads_slice _ (ingestEvent_reads S) _ _ _) .nil

end Structures

/-! ## What `DecodeIngest` accepts -/

section DecodeIngest

variable {α : Type}

/-- One value that the type admits, nested at most 16 deep, without unknown fields and without a field
that is given twice; only white space follows it. -/
def StrictBody (ss : List (String × Shape)) (body : List UInt8) : Prop :=
  ∃ j rest, Json.parseValue ((lossyText body).length + 1) (lossyText body) = some (j, rest)
    ∧ Json.skipWs rest = [] ∧ j.depth ≤ 16 ∧ (Shape.object ss).strict j

/-- In no object are two keys the same up to letter case. -/
def FoldDistinctBody (body : List UInt8) : Prop :=
  ∃ j, Json.parse (lossyText body) = some j ∧ j.FoldDistinct

theorem parse_some {text : List Char} {j : Json} (h : Json.parse text = some j) :
    ∃ rest, Json.parseValue (text.length + 1) text = some (j, rest) ∧ Json.skipWs rest = [] := by
  unfold Json.parse at h
  split at h
  · next j' rest hvalue =>
    split_ifs at h with hrest
    cases h
    exact ⟨rest, hvalue, hrest⟩
  · cases h

theorem parseIngest_fits {fs : List (StructField α)} {ss : List (String × Shape)}
    (h : List.Forall₂ StructField.Reads fs ss) {zero x : α} {body : List UInt8}
    (hbody : decodeIngest (parseIngest fs zero) body = .ok x) :
    ∃ j, Json.parse (lossyText body) = some j ∧ (Shape.object ss).fits j := by
  unfold decodeIngest at hbody
  split_ifs at hbody
  unfold parseIngest at hbody
  split at hbody
  · cases hbody
  next j hparse =>
  split at hbody
  · cases hbody
  split at hbody
  · cases hbody
  next y hdecode => exact ⟨j, hparse, decodeObj_fits h hdecode⟩

/-- Of what is accepted all is strict but the letter case of the keys. -/
theorem accepted_strict_iff {fs : List (StructField α)} {ss : List (String × Shape)}
    (h : List.Forall₂ StructField.Reads fs ss) (hdepth : (Shape.object ss).depth ≤ 16) {zero x : α}
    {body : List UInt8} (hbody : decodeIngest (parseIngest fs zero) body = .ok x) :
    StrictBody ss body ↔ FoldDistinctBody body := by
  obtain ⟨j, hparse, hfits⟩ := parseIngest_fits h hbody
  obtain ⟨rest, hvalue, hrest⟩ := parse_some hparse
  constructor
  · rintro ⟨j', rest', hvalue', -, -, hstrict⟩
    cases hvalue.symm.trans hvalue'
    exact ⟨j, hparse, ((Shape.object ss).strict_iff.mp hstrict).2⟩
  · rintro ⟨j', hparse', hdistinct⟩
    cases hparse.symm.trans hparse'
    exact ⟨j, rest, hvalue, hrest, ((Shape.object ss).depth_le hfits).trans hdepth,
      (Shape.object ss).strict_iff.mpr ⟨hfits, hdistinct⟩⟩

end DecodeIngest

/-- A body that `DecodeIngest` accepts into a batch, a metric or a process is strict if and only if in
no object of it two keys are the same up to letter case. -/
theorem decodeIngest_strict_iff (S : Scalars) (body : List UInt8) :
    ((∀ b, decodeIngest (parseIngest (IngestBatch.fields S) .zero) body = .ok b →
        StrictBody (IngestBatch.shape S) body)
      ↔ ∀ b, decodeIngest (parseIngest (IngestBatch.fields S) .zero) body = .ok b →
        FoldDistinctBody body)
    ∧ ((∀ m, decodeIngest (parseIngest (MetricRow.fields S) .zero) body = .ok m →
        StrictBody (MetricRow.shape S) body)
      ↔ ∀ m, decodeIngest (parseIngest (MetricRow.fields S) .zero) body = .ok m →
        FoldDistinctBody body)
    ∧ ((∀ p, decodeIngest (parseIngest (ProcessRow.fields S) .zero) body = .ok p →
        StrictBody (ProcessRow.shape S) body)
      ↔ ∀ p, decodeIngest (parseIngest (ProcessRow.fields S) .zero) body = .ok p →
        FoldDistinctBody body) := by
  refine ⟨forall₂_congr fun b hb => ?_, forall₂_congr fun m hm => ?_, forall₂_congr fun p hp => ?_⟩
  · exact accepted_strict_iff (ingestBatch_reads S) (show 4 ≤ 16 by decide) hb
  · exact accepted_strict_iff (metricRow_reads S) (show 1 ≤ 16 by decide) hm
  · exact accepted_strict_iff (processRow_reads S) (show 1 ≤ 16 by decide) hp

/-- Two spellings of one key: the second value replaces the first. -/
theorem decodeIngest_two_spellings :
    let body := encodeText "\x7b\"ID\":1,\"id\":2\x7d".toList
    decodeIngest (parseIngest (MetricRow.fields Spool.zeroScalars) .zero) body
        = .ok { MetricRow.zero with id := 2 }
      ∧ ¬ StrictBody (MetricRow.shape Spool.zeroScalars) body := by
  have haccepted : decodeIngest (parseIngest (MetricRow.fields Spool.zeroScalars) .zero)
      (encodeText "\x7b\"ID\":1,\"id\":2\x7d".toList) = .ok { MetricRow.zero with id := 2 } := by
    decide +kernel
  have hvalue : Json.parse (lossyText (encodeText "\x7b\"ID\":1,\"id\":2\x7d".toList))
      = some (.obj [(Json.quote "ID", .num (Json.int 1)), (Json.quote "id", .num (Json.int 2))]) := by
    rw [lossyText_encodeText]
    rfl
  refine ⟨haccepted, fun hstrict => ?_⟩
  rw [accepted_strict_iff (metricRow_reads _) (show 1 ≤ 16 by decide) haccepted] at hstrict
  obtain ⟨j, hparse, hdistinct⟩ := hstrict
  cases hvalue.symm.trans hparse
  have hsame : foldKey (Json.quote "ID") = foldKey (Json.quote "id") := by decide +kernel
  have hnodup := (Json.foldDistinct_obj.mp hdistinct).1
  simp only [List.map_cons, hsame] at hnodup
  exact (List.nodup_cons.mp hnodup).1 List.mem_cons_self

end WMonitor
