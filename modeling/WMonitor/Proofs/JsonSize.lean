import WMonitor.Proofs.SpoolGroups
import WMonitor.WireJson

/-!
# How long texts of events are

A structure that was read from a text of `n` bytes is written again in at most `n` bytes more than
what its keys, numbers and times take: only strings can be long, each of them was a member of its own,
and no string is longer when it is quoted again than it was in a text without raw `<`, `>` and `&`.
-/

namespace WMonitor

namespace Json

/-! ## Values -/

def rawBytes (raw : RawStr) : ℕ := (encodeText raw.text).length

def bytes (j : Json) : ℕ := (encodeText j.print).length

/-- The bytes of a string between its quotes. -/
def quoted (s : String) : ℕ := rawBytes (quote s)

theorem encodeText_cons (c : Char) (cs : List Char) :
    (encodeText (c :: cs)).length = c.utf8Size + (encodeText cs).length := by
  rw [encodeText, List.flatMap_cons, List.length_append, String.length_utf8EncodeChar]
  rfl

theorem encodeText_ascii {cs : List Char} (h : ∀ c ∈ cs, c.utf8Size = 1) :
    (encodeText cs).length = cs.length := by
  induction cs with
  | nil => rfl
  | cons c cs ih =>
    rw [List.forall_mem_cons] at h
    rw [encodeText_cons, h.1, ih h.2, List.length_cons, Nat.add_comm]

theorem bytes_str (raw : RawStr) : (str raw).bytes = rawBytes raw + 2 := by
  rw [bytes, print, printStr, List.cons_append, encodeText_cons, encodeText_append,
    List.length_append]
  exact Nat.add_comm 1 _

/-- The members of an object with what stands before each of them. -/
def memberBytes (ms : List (RawStr × Json)) : ℕ :=
  (ms.map fun m => rawBytes m.1 + 4 + m.2.bytes).sum

def elemBytes (xs : List Json) : ℕ := (xs.map fun x => x.bytes + 1).sum

theorem printMembers_length (ms : List (RawStr × Json)) :
    (encodeText (printMembers ms)).length = memberBytes ms + 1 := by
  induction ms with
  | nil => rfl
  | cons m ms ih =>
    obtain ⟨k, x⟩ := m
    simp only [printMembers, printStr, encodeText_cons, encodeText_append, List.cons_append,
      List.length_append, ih, memberBytes, List.map_cons, List.sum_cons, rawBytes, bytes,
      show (','.utf8Size = 1) from rfl, show (':'.utf8Size = 1) from rfl,
      show ('"'.utf8Size = 1) from rfl, show (encodeText ['"']).length = 1 from rfl]
    omega

theorem printElems_length (xs : List Json) :
    (encodeText (printElems xs)).length = elemBytes xs + 1 := by
  induction xs with
  | nil => rfl
  | cons x xs ih =>
    simp only [printElems, encodeText_cons, encodeText_append, List.length_append, ih, elemBytes,
      List.map_cons, List.sum_cons, bytes, show (','.utf8Size = 1) from rfl]
    omega

theorem bytes_obj_cons (m : RawStr × Json) (ms : List (RawStr × Json)) :
    (obj (m :: ms)).bytes = memberBytes (m :: ms) + 1 := by
  have h := printMembers_length (m :: ms)
  rw [printMembers, encodeText_cons] at h
  rw [bytes, print, encodeText_cons]
  exact h

theorem le_bytes_obj (ms : List (RawStr × Json)) : memberBytes ms + 1 ≤ (obj ms).bytes := by
  cases ms with
  | nil => decide
  | cons m ms => exact (bytes_obj_cons m ms).ge

theorem bytes_obj_le (ms : List (RawStr × Json)) : (obj ms).bytes ≤ memberBytes ms + 2 := by
  cases ms with
  | nil => decide
  | cons m ms => exact (bytes_obj_cons m ms).le.trans (Nat.le_succ _)

theorem bytes_arr_le (xs : List Json) : (arr xs).bytes ≤ elemBytes xs + 2 := by
  cases xs with
  | nil => decide
  | cons x xs =>
    have h := printElems_length (x :: xs)
    rw [printElems, encodeText_cons] at h
    rw [bytes, print, encodeText_cons]
    exact h.le.trans (Nat.le_succ _)

/-! ## Strings -/

/-- What a character or half of a surrogate pair takes when it is quoted. -/
def unitBytes : Char ⊕ ℕ → ℕ
  | .inl c => (encodeText (quoteChar c)).length
  | .inr _ => 3

theorem quoteChar_length (c : Char) : (encodeText (quoteChar c)).length ≤ 6 := by
  have hsize := c.utf8Size_le_four
  have hex : ∀ n, (encodeText ('\\' :: 'u' :: hex4 n)).length = 6 := by
    intro n
    refine encodeText_ascii fun c hc => ?_
    have hdigit : ∀ m, (hexDigit (m % 0x10)).utf8Size = 1 := by
      intro m
      have := Nat.mod_lt m (show 0 < 0x10 by decide)
      interval_cases m % 0x10 <;> decide
    simp only [hex4, List.mem_cons, List.not_mem_nil, or_false] at hc
    rcases hc with rfl | rfl | rfl | rfl | rfl | rfl
    · decide
    · decide
    all_goals exact hdigit _
  have hone : ∀ d, (encodeText [d]).length ≤ 4 := fun d => by
    rw [encodeText_cons]
    exact d.utf8Size_le_four
  unfold quoteChar escapeChar
  split_ifs with hq
  · simp only [Bool.or_eq_true, decide_eq_true_eq] at hq
    rcases hq with rfl | rfl <;> decide
  all_goals first | decide | exact (hex _).le | exact (hone c).trans (by decide)

theorem quoted_joinPairs (us : List (Char ⊕ ℕ)) :
    (encodeText ((joinPairs us).flatMap quoteChar)).length ≤ (us.map unitBytes).sum := by
  induction us using joinPairs.induct with
  | case1 => exact le_rfl
  | case2 c us ih =>
    rw [joinPairs, List.flatMap_cons, encodeText_append, List.length_append, List.map_cons,
      List.sum_cons]
    exact Nat.add_le_add_left ih _
  | case3 hi lo us h ih =>
    rw [joinPairs, if_pos h, List.flatMap_cons, encodeText_append, List.length_append]
    simp only [List.map_cons, List.sum_cons, unitBytes]
    have := quoteChar_length (Char.ofNat (0x10000 + (hi - 0xD800) * 0x400 + (lo - 0xDC00)))
    omega
  | case4 hi lo us h ih =>
    rw [joinPairs, if_neg h, List.flatMap_cons, encodeText_append, List.length_append]
    rw [List.map_cons, List.sum_cons]
    exact Nat.add_le_add (show _ ≤ 3 by decide) ih
  | case5 hi us h ih =>
    rw [joinPairs, List.flatMap_cons, encodeText_append, List.length_append, List.map_cons,
      List.sum_cons]
    · exact Nat.add_le_add (show _ ≤ 3 by decide) ih
    · exact h

theorem quoteChar_plain {c : Char} (hq : c ≠ '"') (hb : c ≠ '\\') (hs : ' ' ≤ c)
    (hh : isHTML c = false) : quoteChar c = [c] := by
  have hne : ∀ d, d < ' ' → c ≠ d := by
    rintro d hd rfl
    exact absurd hs (not_le.2 hd)
  simp only [quoteChar, hq, hb, decide_false, Bool.or_self, hne '\x08' (by decide),
    hne '\x0c' (by decide), hne '\n' (by decide), hne '\r' (by decide), hne '\t' (by decide),
    if_false, not_lt.2 hs, escapeChar_of_not hh]
  rfl

/-- A string does not get longer when it is read and quoted again. -/
theorem quoted_unquote {raw : RawStr} (h : ∀ c ∈ raw.text, isHTML c = false) :
    quoted (unquote raw) ≤ rawBytes raw := by
  have hunits : ∀ cs, isRaw cs = true → (∀ c ∈ cs, isHTML c = false) →
      ((codeUnits cs).map unitBytes).sum ≤ (encodeText cs).length := by
    intro cs hcs
    refine isRaw_induct (P := fun cs => (∀ c ∈ cs, isHTML c = false) →
      ((codeUnits cs).map unitBytes).sum ≤ (encodeText cs).length) ?_ ?_ ?_ ?_ cs hcs
    · exact fun _ => le_rfl
    · intro a b c d cs ha hb hc hd _ ih hplain
      have hsize : ∀ x : Char, 1 ≤ x.utf8Size := fun x => x.utf8Size_pos
      simp only [List.forall_mem_cons] at hplain
      have ih := ih hplain.2.2.2.2.2.2
      have hunit : ∀ n, unitBytes (codeUnit n) ≤ 6 := by
        intro n
        unfold codeUnit
        split_ifs
        · exact (show 3 ≤ 6 by decide)
        · exact quoteChar_length _
      simp only [codeUnits, List.map_cons, List.sum_cons, encodeText_cons]
      have := hunit (hexVal a * 0x1000 + hexVal b * 0x100 + hexVal c * 0x10 + hexVal d)
      have ha := hsize a
      have hb := hsize b
      have hc := hsize c
      have hd := hsize d
      have h₁ := hsize '\\'
      have h₂ := hsize 'u'
      omega
    · intro c cs hc _ ih hplain
      simp only [List.forall_mem_cons] at hplain
      have ih := ih hplain.2.2
      have hu : c ≠ 'u' := by
        rintro rfl
        exact absurd hc (by decide)
      have htwo : unitBytes (.inl (escaped c)) ≤ 2 ∧ c.utf8Size = 1 := by
        simp only [isEscape, Bool.or_eq_true, decide_eq_true_eq] at hc
        rcases hc with ((((((rfl | rfl) | rfl) | rfl) | rfl) | rfl) | rfl) | rfl <;> decide
      rw [codeUnits_escape cs hu, List.map_cons, List.sum_cons, encodeText_cons, encodeText_cons,
        htwo.2]
      have := htwo.1
      have : ('\\' : Char).utf8Size = 1 := rfl
      omega
    · intro c cs hq hb hs _ ih hplain
      rw [List.forall_mem_cons] at hplain
      rw [codeUnits_plain cs hb, List.map_cons, List.sum_cons, encodeText_cons, unitBytes,
        quoteChar_plain hq hb hs hplain.1]
      exact Nat.add_le_add (by rw [encodeText_cons]; exact le_rfl) (ih hplain.2)
  have htext : (quote (unquote raw)).text = (joinPairs (codeUnits raw.text)).flatMap quoteChar := by
    rw [quote, unquote]
    exact congrArg (List.flatMap quoteChar) String.toList_ofList
  rw [quoted, rawBytes, htext]
  exact (quoted_joinPairs _).trans (hunits raw.text raw.ok h)

/-- A text as `json.Marshal` leaves it. -/
def Compacted (j : Json) : Prop := compact j = j

theorem compacted_compact (j : Json) : Compacted (compact j) := compact_compact j

theorem Compacted.str {raw : RawStr} (h : Compacted (str raw)) : ∀ c ∈ raw.text, isHTML c = false := by
  rw [Compacted, compact, str.injEq] at h
  rw [← h]
  exact escapeHTML_plain raw

theorem Compacted.members {ms : List (RawStr × Json)} (h : Compacted (obj ms)) :
    ∀ m ∈ ms, Compacted m.2 := by
  rw [Compacted, compact, obj.injEq] at h
  induction ms with
  | nil => simp
  | cons m ms ih =>
    obtain ⟨k, x⟩ := m
    rw [compactMembers, List.cons.injEq, Prod.mk.injEq] at h
    rw [List.forall_mem_cons]
    exact ⟨h.1.2, ih h.2⟩

theorem quoted_compacted {raw : RawStr} (h : Compacted (.str raw)) :
    quoted (unquote raw) ≤ (Json.str raw).bytes :=
  (quoted_unquote h.str).trans (by rw [bytes_str]; exact Nat.le_add_right _ 2)

end Json

open Json

/-! ## Structures -/

section Structures

variable {α β : Type}

/-- A field that takes no more from a text than the text has: `P n x` says what is known of a value
that was read from `n` bytes. -/
def StructField.Takes (f : StructField α) (P : ℕ → α → Prop) : Prop :=
  ∀ strict n x j x', Compacted j → P n x → f.read strict x j = some x' → P (n + j.bytes) x'

theorem decodeObj_takes {fs : List (StructField α)} {P : ℕ → α → Prop}
    (hmono : ∀ {n k x}, n ≤ k → P n x → P k x) (hfs : ∀ f ∈ fs, f.Takes P) {strict : Bool} {n : ℕ}
    {x x' : α} {j : Json} (hj : Compacted j) (hx : P n x)
    (h : decodeObj fs strict x j = some x') : P (n + j.bytes) x' := by
  have hstep : ∀ {n x x'} {m : RawStr × Json}, Compacted m.2 → P n x →
      readMember fs strict x m = some x' → P (n + (rawBytes m.1 + 4 + m.2.bytes)) x' := by
    intro n x x' m hm hx h
    unfold readMember at h
    split at h
    · rename_i f hf
      exact hmono (by omega) (hfs f (List.mem_of_find?_eq_some hf) strict n x m.2 x' hm hx h)
    · split_ifs at h
      cases h
      exact hmono (by omega) hx
  have hall : ∀ (ms : List (RawStr × Json)) {n x x'}, (∀ m ∈ ms, Compacted m.2) → P n x →
      ms.foldlM (readMember fs strict) x = some x' → P (n + memberBytes ms) x' := by
    intro ms
    induction ms with
    | nil =>
      intro n x x' _ hx h
      cases h
      exact hx
    | cons m ms ih =>
      intro n x x' hms hx h
      rw [List.forall_mem_cons] at hms
      rw [List.foldlM_cons, Option.bind_eq_bind, Option.bind_eq_some_iff] at h
      obtain ⟨y, hy, h⟩ := h
      have hrest := ih hms.2 (hstep hms.1 hx hy) h
      rwa [Nat.add_assoc] at hrest
  cases j with
  | obj ms => exact hmono (by have := le_bytes_obj ms; omega) (hall ms hj.members hx h)
  | null =>
    cases h
    exact hmono (by omega) hx
  | _ => cases h

namespace StructField

variable {P : ℕ → α → Prop} {name : String}

theorem takes_string {get : α → String} {put : String → α → α}
    (hmono : ∀ {n k x}, n ≤ k → P n x → P k x) (hget : ∀ x, put (get x) x = x)
    (hput : ∀ {n x} s, P n x → P (n + quoted s) (put s x)) : (string name get put).Takes P := by
  intro strict n x j x' hj hx h
  simp only [string, Option.map_eq_some_iff] at h
  obtain ⟨s, hs, rfl⟩ := h
  cases j with
  | str raw =>
    cases hs
    exact hmono (Nat.add_le_add_left (quoted_compacted hj) n) (hput _ hx)
  | null =>
    cases hs
    rw [hget]
    exact hmono (by omega) hx
  | _ => cases hs

theorem takes_number {get : α → β} {put : β → α → α} {write : β → Option NumLit}
    {read : NumLit → Option β} (hmono : ∀ {n k x}, n ≤ k → P n x → P k x)
    (hput : ∀ {n x} v, P n x → P n (put v x)) : (number name get put write read).Takes P := by
  intro strict n x j x' _ hx h
  refine hmono (Nat.le_add_right n j.bytes) ?_
  cases j with
  | num lit =>
    simp only [number, Option.map_eq_some_iff] at h
    obtain ⟨v, -, rfl⟩ := h
    exact hput v hx
  | null =>
    cases h
    exact hx
  | _ => cases h

theorem takes_time {S : Scalars} {get : α → ℤ} {put : ℤ → α → α}
    (hmono : ∀ {n k x}, n ≤ k → P n x → P k x) (hput : ∀ {n x} v, P n x → P n (put v x)) :
    (time S name get put).Takes P := by
  intro strict n x j x' _ hx h
  refine hmono (Nat.le_add_right n j.bytes) ?_
  cases j with
  | str raw =>
    simp only [time, Option.map_eq_some_iff] at h
    obtain ⟨v, -, rfl⟩ := h
    exact hput v hx
  | null =>
    cases h
    exact hx
  | _ => cases h

theorem takes_pointer {fs : List (StructField β)} {zero : β} {get : α → Option β}
    {put : Option β → α → α} {weight : β → ℕ} (hmono : ∀ {n k x}, n ≤ k → P n x → P k x)
    (hzero : weight zero = 0) (hfs : ∀ f ∈ fs, f.Takes fun n y => weight y ≤ n)
    (hnone : ∀ {n x}, P n x → P n (put none x))
    (hsome : ∀ {n k x y}, P n x → weight y ≤ ((get x).map weight).getD 0 + k →
      P (n + k) (put (some y) x)) : (pointer name fs zero get put).Takes P := by
  intro strict n x j x' hj hx h
  have hold : weight ((get x).getD zero) ≤ ((get x).map weight).getD 0 := by
    cases get x with
    | none => exact hzero.le
    | some y => exact le_rfl
  have hread : (decodeObj fs strict ((get x).getD zero) j).map (fun y => put (some y) x) = some x' →
      P (n + j.bytes) x' := by
    rw [Option.map_eq_some_iff]
    rintro ⟨y, hy, rfl⟩
    exact hsome hx (decodeObj_takes (P := fun n y => weight y ≤ n) (fun h hx => le_trans hx h) hfs hj
      hold hy)
  cases j with
  | null =>
    cases h
    exact hmono (by omega) (hnone hx)
  | _ => exact hread h

/-- What a field adds to a structure's text: its key with quotes, colon and comma, and its value. -/
def cost (x : α) (f : StructField α) : ℕ :=
  if f.empty x then 0 else quoted f.name + 4 + ((f.write x).map bytes).getD 0

end StructField

theorem encodeObj_bytes {fs : List (StructField α)} {x : α} {j : Json}
    (h : encodeObj fs x = some j) : j.bytes ≤ (fs.map (StructField.cost x)).sum + 2 := by
  have hall : ∀ (fs : List (StructField α)) {ms}, (fs.filter fun f => !f.empty x).mapM
      (fun f => f.member x) = some ms → memberBytes ms = (fs.map (StructField.cost x)).sum := by
    intro fs
    induction fs with
    | nil =>
      intro ms h
      cases h
      rfl
    | cons f fs ih =>
      intro ms h
      cases hf : f.empty x with
      | true =>
        rw [List.filter_cons_of_neg (by simp [hf])] at h
        rw [List.map_cons, List.sum_cons, ← ih h, StructField.cost, if_pos hf, Nat.zero_add]
      | false =>
        rw [List.filter_cons_of_pos (by simp [hf]), List.mapM_cons, Option.bind_eq_bind,
          Option.bind_eq_some_iff] at h
        obtain ⟨m, hm, h⟩ := h
        rw [Option.bind_eq_bind, Option.bind_eq_some_iff] at h
        obtain ⟨ms', hms, h⟩ := h
        cases h
        rw [StructField.member, Option.map_eq_some_iff] at hm
        obtain ⟨v, hv, rfl⟩ := hm
        rw [List.map_cons, List.sum_cons, ← ih hms, StructField.cost, hf, hv]
        rfl
  rw [encodeObj, Option.bind_eq_bind, Option.bind_eq_some_iff] at h
  obtain ⟨ms, hms, h⟩ := h
  cases h
  rw [← hall fs hms]
  exact bytes_obj_le ms

namespace StructField

variable {name : String} (x : α)

theorem cost_string {get : α → String} {put : String → α → α} :
    (string name get put).cost x = quoted name + 4 + (quoted (get x) + 2) := by
  simp only [cost, string, Bool.false_eq_true, if_false, Option.map_some, Option.getD_some, bytes_str]
  rfl

theorem cost_number {get : α → β} {put : β → α → α} {write : β → Option NumLit}
    {read : NumLit → Option β} {limit : ℕ}
    (h : ∀ lit, write (get x) = some lit → lit.text.length ≤ limit) :
    (number name get put write read).cost x ≤ quoted name + 4 + limit := by
  have hlit : ∀ lit : NumLit, (Json.num lit).bytes = lit.text.length := by
    intro lit
    refine encodeText_ascii fun c hc => ?_
    have := isNumber_numChars lit.ok c hc
    simp only [isNumChar, Bool.or_eq_true, decide_eq_true_eq, Char.isDigit, Bool.and_eq_true] at this
    rw [Char.utf8Size_eq_one_iff]
    rcases this with ((((hd | rfl) | rfl) | rfl) | rfl) | rfl
    · exact UInt32.le_trans hd.2 (by decide)
    all_goals decide
  simp only [cost, number, Bool.false_eq_true, if_false, Option.map_map]
  rcases hw : write (get x) with _ | lit
  · simp
  · have := h lit hw
    simp only [Option.map_some, Function.comp_apply, Option.getD_some, hlit]
    omega

theorem itoa_length {low high n : ℤ} {lit : NumLit} (hlow : -2 ^ 63 ≤ low) (hhigh : high ≤ 2 ^ 64)
    (h : writeInt low high n = some lit) : lit.text.length ≤ 20 := by
  unfold writeInt at h
  split_ifs at h with hn
  cases h
  have hlen : ∀ m k : ℕ, 0 < k → m < 10 ^ k → (Nat.toDigits 10 m).length ≤ k := fun m k hk hm =>
    (Nat.length_toDigits_le_iff (by decide) hk).2 hm
  change (itoa n).length ≤ 20
  unfold itoa
  split_ifs with hneg
  · rw [List.length_cons]
    exact Nat.succ_le_succ (hlen _ 19 (by decide) (by omega))
  · exact hlen _ 20 (by decide) (by omega)

theorem cost_time {S : Scalars} {get : α → ℤ} {put : ℤ → α → α} :
    (time S name get put).cost x ≤ quoted name + 4 + 37 := by
  simp only [cost, time, Bool.false_eq_true, if_false, Option.map_map]
  rcases ht : S.time (get x) with _ | raw
  · simp
  · have := S.time_length ht
    simp only [Option.map_some, Function.comp_apply, Option.getD_some, bytes_str, rawBytes]
    omega

theorem cost_int64 {get : α → ℤ} {put : ℤ → α → α} :
    (int64 name get put).cost x ≤ quoted name + 4 + 20 :=
  cost_number x fun _ => itoa_length le_rfl (by decide)

theorem cost_int32 {get : α → ℤ} {put : ℤ → α → α} :
    (int32 name get put).cost x ≤ quoted name + 4 + 20 :=
  cost_number x fun _ => itoa_length (by decide) (by decide)

theorem cost_uint64 {get : α → ℕ} {put : ℕ → α → α} :
    (uint64 name get put).cost x ≤ quoted name + 4 + 20 := by
  unfold uint64
  refine cost_number x fun lit h => ?_
  exact itoa_length (by norm_num) le_rfl h

theorem cost_float64 {S : Scalars} {get : α → F64} {put : F64 → α → α} :
    (float64 S name get put).cost x ≤ quoted name + 4 + 25 :=
  cost_number x fun _ => S.float_length

theorem cost_cons {f : StructField α} {fs : List (StructField α)} {a b : ℕ} (hf : f.cost x ≤ a)
    (hfs : (fs.map (cost x)).sum ≤ b) : ((f :: fs).map (cost x)).sum ≤ a + b := by
  rw [List.map_cons, List.sum_cons]
  exact Nat.add_le_add hf hfs

theorem cost_pointer_none {fs : List (StructField β)} {zero : β} {get : α → Option β}
    {put : Option β → α → α} (h : get x = none) : (pointer name fs zero get put).cost x = 0 := by
  simp [cost, pointer, h]

theorem cost_pointer_some {fs : List (StructField β)} {zero : β} {get : α → Option β}
    {put : Option β → α → α} {y : β} {limit : ℕ} (h : get x = some y)
    (hy : ∀ j, encodeObj fs y = some j → j.bytes ≤ limit) :
    (pointer name fs zero get put).cost x ≤ quoted name + 4 + limit := by
  simp only [cost, pointer, h, Option.isNone_some, Bool.false_eq_true, if_false, Option.bind_some]
  rcases hj : encodeObj fs y with _ | j
  · simp
  · simpa using hy j hj

theorem cost_slice {fs : List (StructField β)} {zero : β} {get : α → List β}
    {put : List β → α → α} (limit : ℕ) (hnull : 4 ≤ limit)
    (h : ∀ js, (get x).mapM (encodeObj fs) = some js → (arr js).bytes ≤ limit) :
    (slice name fs zero get put).cost x ≤ quoted name + 4 + limit := by
  simp only [cost, slice, Bool.false_eq_true, if_false]
  refine Nat.add_le_add_left ?_ _
  split_ifs
  · exact hnull
  · rcases hjs : (get x).mapM (encodeObj fs) with _ | js
    · exact Nat.zero_le _
    · exact h js hjs

end StructField

end Structures

/-! ## Rows and events -/

variable {S : Scalars}

/-- The bytes of a row's strings. -/
def MetricRow.weight (m : MetricRow) : ℕ :=
  quoted m.tenantID + quoted m.serverID + quoted m.hostname

def ProcessRow.weight (p : ProcessRow) : ℕ :=
  quoted p.tenantID + quoted p.serverID + quoted p.hostname + quoted p.name

section Rows

variable {n k : ℕ}

theorem weight_mono {α : Type} {weight : α → ℕ} {x : α} (h : n ≤ k) (hx : weight x ≤ n) :
    weight x ≤ k :=
  hx.trans h

theorem MetricRow.takes : ∀ f ∈ MetricRow.fields S, f.Takes fun n m => m.weight ≤ n := by
  have hnum {β : Type} {name get put write read} (h : ∀ m (v : β), (put v m).weight = m.weight) :
      (StructField.number name get put write read).Takes fun n m => MetricRow.weight m ≤ n :=
    StructField.takes_number weight_mono fun v hm => (h _ v).trans_le hm
  have hstr {name get put} (hget : ∀ m, put (get m) m = m)
      (h : ∀ m s, (put s m).weight ≤ m.weight + quoted s) :
      (StructField.string name get put).Takes fun n m => MetricRow.weight m ≤ n :=
    StructField.takes_string weight_mono hget fun s hm =>
      (h _ s).trans (Nat.add_le_add_right hm _)
  unfold MetricRow.fields
  simp only [List.forall_mem_cons, List.not_mem_nil, false_implies, implies_true, and_true]
  refine ⟨hnum fun _ _ => rfl, StructField.takes_time weight_mono fun _ h => h,
    hstr (fun _ => rfl) ?_, hstr (fun _ => rfl) ?_, hstr (fun _ => rfl) ?_, ?_⟩
  iterate 3
    · intro m s
      simp only [weight]
      omega
  · refine ⟨?_, ?_, ?_, ?_, ?_, ?_, ?_, ?_, ?_, ?_, ?_, ?_, ?_, ?_, ?_, ?_, ?_⟩ <;>
      exact hnum fun _ _ => rfl

theorem ProcessRow.takes : ∀ f ∈ ProcessRow.fields S, f.Takes fun n p => p.weight ≤ n := by
  have hnum {β : Type} {name get put write read} (h : ∀ p (v : β), (put v p).weight = p.weight) :
      (StructField.number name get put write read).Takes fun n p => ProcessRow.weight p ≤ n :=
    StructField.takes_number weight_mono fun v hp => (h _ v).trans_le hp
  have hstr {name get put} (hget : ∀ p, put (get p) p = p)
      (h : ∀ p s, (put s p).weight ≤ p.weight + quoted s) :
      (StructField.string name get put).Takes fun n p => ProcessRow.weight p ≤ n :=
    StructField.takes_string weight_mono hget fun s hp =>
      (h _ s).trans (Nat.add_le_add_right hp _)
  unfold ProcessRow.fields
  simp only [List.forall_mem_cons, List.not_mem_nil, false_implies, implies_true, and_true]
  refine ⟨hnum fun _ _ => rfl, StructField.takes_time weight_mono fun _ h => h,
    hstr (fun _ => rfl) ?_, hstr (fun _ => rfl) ?_, hstr (fun _ => rfl) ?_, hnum fun _ _ => rfl,
    hstr (fun _ => rfl) ?_, hnum fun _ _ => rfl, hnum fun _ _ => rfl⟩
  all_goals
    intro p s
    simp only [weight]
    omega

end Rows

open StructField in
theorem MetricRow.bytes_le {m : MetricRow} {j : Json}
    (h : encodeObj (MetricRow.fields S) m = some j) : j.bytes ≤ m.weight + 751 := by
  have hkeys : quoted "ID" + quoted "Timestamp" + quoted "TenantID" + quoted "ServerID"
      + quoted "Hostname" + quoted "CPUPct" + quoted "MemPct" + quoted "DiskFreeGB"
      + quoted "NetSentBytes" + quoted "NetRecvBytes" + quoted "CPUCores" + quoted "MemTotalGB"
      + quoted "DiskTotalGB" + quoted "DiskReadOps" + quoted "DiskWriteOps" + quoted "DiskIOPS"
      + quoted "NetMBps" + quoted "ConcurrentUsers" + quoted "NetSentExternal"
      + quoted "NetRecvExternal" + quoted "NetSentInternal" + quoted "NetRecvInternal" = 223 := by
    decide +kernel
  refine (encodeObj_bytes h).trans ((Nat.add_le_add_right (cost_cons m (cost_int64 m) <|
    cost_cons m (cost_time m) <| cost_cons m (cost_string m).le <| cost_cons m (cost_string m).le <|
    cost_cons m (cost_string m).le <| cost_cons m (cost_float64 m) <| cost_cons m (cost_float64 m) <|
    cost_cons m (cost_float64 m) <| cost_cons m (cost_uint64 m) <| cost_cons m (cost_uint64 m) <|
    cost_cons m (cost_int64 m) <| cost_cons m (cost_float64 m) <| cost_cons m (cost_float64 m) <|
    cost_cons m (cost_uint64 m) <| cost_cons m (cost_uint64 m) <| cost_cons m (cost_float64 m) <|
    cost_cons m (cost_float64 m) <| cost_cons m (cost_int64 m) <| cost_cons m (cost_uint64 m) <|
    cost_cons m (cost_uint64 m) <| cost_cons m (cost_uint64 m) <| cost_cons m (cost_uint64 m) <|
    le_rfl) 2).trans ?_)
  simp only [weight, List.map_nil, List.sum_nil]
  omega

open StructField in
theorem ProcessRow.bytes_le {p : ProcessRow} {j : Json}
    (h : encodeObj (ProcessRow.fields S) p = some j) : j.bytes ≤ p.weight + 236 := by
  have hkeys : quoted "ID" + quoted "Timestamp" + quoted "TenantID" + quoted "ServerID"
      + quoted "Hostname" + quoted "PID" + quoted "Name" + quoted "CPUPct" + quoted "MemMB" = 53 := by
    decide +kernel
  refine (encodeObj_bytes h).trans ((Nat.add_le_add_right (cost_cons p (cost_int64 p) <|
    cost_cons p (cost_time p) <| cost_cons p (cost_string p).le <| cost_cons p (cost_string p).le <|
    cost_cons p (cost_string p).le <| cost_cons p (cost_int32 p) <| cost_cons p (cost_string p).le <|
    cost_cons p (cost_float64 p) <| cost_cons p (cost_float64 p) <| le_rfl) 2).trans ?_)
  simp only [weight, List.map_nil, List.sum_nil]
  omega

/-- The bytes of an event's strings. -/
def IngestEvent.weight (ev : IngestEvent) : ℕ :=
  quoted ev.eventID + quoted ev.bootID + (ev.metric.map MetricRow.weight).getD 0
    + (ev.process.map ProcessRow.weight).getD 0

theorem IngestEvent.takes : ∀ f ∈ IngestEvent.fields S, f.Takes fun n ev => ev.weight ≤ n := by
  unfold IngestEvent.fields
  simp only [List.forall_mem_cons, List.not_mem_nil, false_implies, implies_true, and_true]
  refine ⟨StructField.takes_string weight_mono (fun _ => rfl) ?_,
    StructField.takes_string weight_mono (fun _ => rfl) ?_,
    StructField.takes_number weight_mono fun _ h => h,
    StructField.takes_pointer weight_mono rfl MetricRow.takes ?_ ?_,
    StructField.takes_pointer weight_mono rfl ProcessRow.takes ?_ ?_⟩
  all_goals
    intros
    simp only [weight, Option.map_none, Option.map_some, Option.getD_none, Option.getD_some] at *
    omega

/-- What the rows of an event take besides their strings. -/
def IngestEvent.rowBytes (ev : IngestEvent) : ℕ :=
  (if ev.metric.isSome then 761 else 0) + if ev.process.isSome then 247 else 0

open StructField in
theorem IngestEvent.bytes_le {ev : IngestEvent} {j : Json}
    (h : encodeObj (IngestEvent.fields S) ev = some j) : j.bytes ≤ ev.weight + 61 + ev.rowBytes := by
  have hkeys : quoted "event_id" = 8 ∧ quoted "boot_id" = 7 ∧ quoted "sequence" = 8
      ∧ quoted "metric" = 6 ∧ quoted "process" = 7 := by decide +kernel
  obtain ⟨hid, hboot, hseq, hmetric, hprocess⟩ := hkeys
  have hm : (pointer "metric" (MetricRow.fields S) .zero (·.metric)
      fun v ev => { ev with metric := v }).cost ev
      ≤ (ev.metric.map MetricRow.weight).getD 0 + if ev.metric.isSome then 761 else 0 := by
    rcases hrow : ev.metric with _ | m
    · exact (cost_pointer_none ev hrow).le
    · refine (cost_pointer_some ev hrow fun j => MetricRow.bytes_le).trans ?_
      simp only [hmetric, Option.map_some, Option.getD_some, Option.isSome_some, if_true]
      omega
  have hp : (pointer "process" (ProcessRow.fields S) .zero (·.process)
      fun v ev => { ev with process := v }).cost ev
      ≤ (ev.process.map ProcessRow.weight).getD 0 + if ev.process.isSome then 247 else 0 := by
    rcases hrow : ev.process with _ | p
    · exact (cost_pointer_none ev hrow).le
    · refine (cost_pointer_some ev hrow fun j => ProcessRow.bytes_le).trans ?_
      simp only [hprocess, Option.map_some, Option.getD_some, Option.isSome_some, if_true]
      omega
  refine (encodeObj_bytes h).trans ((Nat.add_le_add_right (cost_cons ev (cost_string ev).le <|
    cost_cons ev (cost_string ev).le <| cost_cons ev (cost_uint64 ev) <| cost_cons ev hm <|
    cost_cons ev hp <| le_rfl) 2).trans ?_)
  simp only [weight, rowBytes, List.map_nil, List.sum_nil, hid, hboot, hseq]
  omega

open StructField in
theorem IngestBatch.bytes_le {batch : IngestBatch} {limit : ℕ} {j : Json}
    (hevents : ∀ js, batch.events.mapM (encodeObj (IngestEvent.fields S)) = some js →
      elemBytes js ≤ limit)
    (h : encodeObj (IngestBatch.fields S) batch = some j) :
    j.bytes ≤ quoted batch.schemaVersion + limit + 36 := by
  have hkeys : quoted "schema_version" = 14 ∧ quoted "events" = 6 := by decide +kernel
  refine (encodeObj_bytes h).trans ((Nat.add_le_add_right (cost_cons batch
    (cost_string batch).le <| cost_cons batch (cost_slice batch (limit + 4) (by omega) ?_) <|
    le_rfl) 2).trans ?_)
  · intro js hjs
    have := hevents js hjs
    have := bytes_arr_le js
    omega
  · simp only [List.map_nil, List.sum_nil, hkeys]
    omega

end WMonitor
