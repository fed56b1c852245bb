import WMonitor.Json

/-!
# Reading back what was written

`parse (print j) = some j`. The induction is on the value, with what follows it in the text left
arbitrary as long as it does not go on with a number, and any fuel of at least the length written.
-/

namespace WMonitor

namespace Json

/-- What follows does not go on with a number. -/
def NumStop (cs : List Char) : Prop := ∀ c ∈ cs.head?, isNumChar c = false

theorem numStop_cons {c : Char} {cs : List Char} (h : isNumChar c = false) : NumStop (c :: cs) := by
  simp [NumStop, h]

theorem skipWs_cons {c : Char} (cs : List Char) (h : isWs c = false) : skipWs (c :: cs) = c :: cs := by
  simp [skipWs, h]

/-! ## Literals -/

theorem isDigit_isNumChar {c : Char} (h : c.isDigit = true) : isNumChar c = true := by
  simp [isNumChar, h]

theorem isExp_numChars {cs : List Char} (h : isExp cs = true) : ∀ c ∈ cs, isNumChar c = true := by
  have hdigits : ∀ {ds : List Char}, ds.all Char.isDigit = true → ∀ c ∈ ds, isNumChar c = true :=
    fun hd c hc => isDigit_isNumChar (List.all_eq_true.1 hd c hc)
  cases cs with
  | nil => simp
  | cons c cs =>
    simp only [isExp] at h
    split_ifs at h with he
    have hcs : ∀ x ∈ cs, isNumChar x = true := by
      simp only [Bool.and_eq_true, decide_eq_true_eq] at h
      obtain ⟨-, h⟩ := h
      split at h
      · intro x hx
        rcases List.mem_cons.1 hx with rfl | hx
        · decide
        · exact hdigits h x hx
      · intro x hx
        rcases List.mem_cons.1 hx with rfl | hx
        · decide
        · exact hdigits h x hx
      · exact hdigits h
    intro x hx
    rcases List.mem_cons.1 hx with rfl | hx
    · simp only [Bool.or_eq_true, decide_eq_true_eq] at he
      rcases he with rfl | rfl <;> decide
    · exact hcs x hx

theorem span_numChars {cs : List Char}
    (h : ∀ c ∈ cs.dropWhile Char.isDigit, isNumChar c = true) : ∀ c ∈ cs, isNumChar c = true := by
  intro c hc
  rw [← List.takeWhile_append_dropWhile (p := Char.isDigit) (l := cs)] at hc
  rcases List.mem_append.1 hc with hc | hc
  · exact isDigit_isNumChar (List.all_eq_true.1 List.all_takeWhile c hc)
  · exact h c hc

theorem isFrac_numChars {cs : List Char} (h : isFrac cs = true) : ∀ c ∈ cs, isNumChar c = true := by
  unfold isFrac at h
  split at h
  · rename_i cs
    simp only [Bool.and_eq_true] at h
    intro x hx
    rcases List.mem_cons.1 hx with rfl | hx
    · decide
    · exact span_numChars (isExp_numChars h.2) x hx
  · exact isExp_numChars h

theorem isUnsigned_numChars {cs : List Char} (h : isUnsigned cs = true) :
    ∀ c ∈ cs, isNumChar c = true := by
  simp only [isUnsigned, Bool.and_eq_true] at h
  exact span_numChars (isFrac_numChars h.2)

theorem isNumber_numChars {lit : List Char} (h : isNumber lit = true) :
    ∀ c ∈ lit, isNumChar c = true := by
  unfold isNumber at h
  split at h
  · intro x hx
    rcases List.mem_cons.1 hx with rfl | hx
    · decide
    · exact isUnsigned_numChars h x hx
  · exact isUnsigned_numChars h

theorem isNumber_ne_nil {lit : List Char} (h : isNumber lit = true) : lit ≠ [] := by
  rintro rfl
  exact absurd h (by decide)

theorem takeWhile_append_stop {p : Char → Bool} {cs rest : List Char} (h : ∀ c ∈ cs, p c = true)
    (hr : ∀ c ∈ rest.head?, p c = false) :
    (cs ++ rest).takeWhile p = cs ∧ (cs ++ rest).dropWhile p = rest := by
  rw [List.takeWhile_append_of_pos h, List.dropWhile_append_of_pos h]
  cases rest with
  | nil => simp
  | cons c rest => simp [hr c (by simp)]

theorem parseNum_print (lit : NumLit) {rest : List Char} (hr : NumStop rest) :
    parseNum (lit.text ++ rest) = some (num lit, rest) := by
  obtain ⟨ht, hd⟩ := takeWhile_append_stop (isNumber_numChars lit.ok) hr
  simp only [parseNum, ht, hd, lit.ok, dif_pos]

theorem isHex_plain {c : Char} (h : isHex c = true) : c ≠ '"' ∧ c ≠ '\\' := by
  constructor <;> rintro rfl <;> exact absurd h (by decide)

theorem closeQuote_plain {c : Char} (cs : List Char) (hq : c ≠ '"') (hb : c ≠ '\\') :
    closeQuote (c :: cs) = (closeQuote cs).map fun (raw, rest) => (c :: raw, rest) := by
  rw [closeQuote]
  · exact hq
  · exact fun _ _ h => absurd h hb

theorem closeQuote_raw {raw : List Char} (rest : List Char) (h : isRaw raw = true) :
    closeQuote (raw ++ '"' :: rest) = some (raw, rest) := by
  refine isRaw_induct (P := fun raw => closeQuote (raw ++ '"' :: rest) = some (raw, rest))
    ?_ ?_ ?_ ?_ raw h
  · rfl
  · intro a b c d cs ha hb hc hd _ ih
    simp only [List.cons_append, closeQuote]
    rw [closeQuote_plain _ (isHex_plain ha).1 (isHex_plain ha).2,
      closeQuote_plain _ (isHex_plain hb).1 (isHex_plain hb).2,
      closeQuote_plain _ (isHex_plain hc).1 (isHex_plain hc).2,
      closeQuote_plain _ (isHex_plain hd).1 (isHex_plain hd).2, ih]
    rfl
  · intro c cs _ _ ih
    simp only [List.cons_append, closeQuote, ih, Option.map_some]
  · intro c cs hq hb _ _ ih
    rw [List.cons_append, closeQuote_plain _ hq hb, ih]
    rfl

theorem parseStr_print (raw : RawStr) (rest : List Char) :
    parseStr (raw.text ++ '"' :: rest) = some (raw, rest) := by
  simp only [parseStr, closeQuote_raw rest raw.ok, raw.ok, dif_pos]

theorem parseKey_print (k : RawStr) (rest : List Char) :
    parseKey (printStr k ++ ':' :: rest) = some (k, rest) := by
  have hw : skipWs (':' :: rest) = ':' :: rest := skipWs_cons rest (by decide)
  simp only [parseKey, printStr, List.cons_append, List.append_assoc, List.nil_append,
    skipWs_cons _ (show isWs '"' = false by decide), parseStr_print, hw]

/-! ## Values -/

/-- A value's text starts with none of what may stand in its place: white space, `]` or `}`. -/
theorem print_start (j : Json) :
    ∃ c cs, print j = c :: cs ∧ isWs c = false ∧ c ≠ ']' ∧ c ≠ '}' := by
  have hnum : ∀ c, isNumChar c = true → isWs c = false ∧ c ≠ ']' ∧ c ≠ '}' := by
    intro c hc
    refine ⟨?_, ?_, ?_⟩
    · by_contra hw
      simp only [Bool.not_eq_false, isWs, Bool.or_eq_true, decide_eq_true_eq] at hw
      rcases hw with ((rfl | rfl) | rfl) | rfl <;> exact absurd hc (by decide)
    · rintro rfl
      exact absurd hc (by decide)
    · rintro rfl
      exact absurd hc (by decide)
  cases j with
  | null => exact ⟨_, _, rfl, by decide⟩
  | bool b => cases b <;> exact ⟨_, _, rfl, by decide⟩
  | num lit =>
    obtain ⟨c, cs, he⟩ := List.exists_cons_of_ne_nil (isNumber_ne_nil lit.ok)
    refine ⟨c, cs, he, hnum c (isNumber_numChars lit.ok c ?_)⟩
    simp [he]
  | str raw => exact ⟨_, _, rfl, by decide⟩
  | arr xs => cases xs <;> exact ⟨_, _, rfl, by decide⟩
  | obj ms => rcases ms with _ | ⟨⟨k, x⟩, ms⟩ <;> exact ⟨_, _, rfl, by decide⟩

theorem printElems_numStop (xs : List Json) (rest : List Char) :
    NumStop (printElems xs ++ rest) := by
  cases xs <;> exact numStop_cons (by decide)

theorem printMembers_numStop (ms : List (RawStr × Json)) (rest : List Char) :
    NumStop (printMembers ms ++ rest) := by
  rcases ms with _ | ⟨⟨k, x⟩, ms⟩ <;> exact numStop_cons (by decide)

theorem parseValue_num (lit : NumLit) (fuel : ℕ) {rest : List Char} (hr : NumStop rest) :
    parseValue (fuel + 1) (lit.text ++ rest) = some (num lit, rest) := by
  obtain ⟨c, cs, he, hw, -, -⟩ := print_start (num lit)
  simp only [print] at he
  have hc : isNumChar c = true := isNumber_numChars lit.ok c (by simp [he])
  have hne : ∀ d, isNumChar d = false → c ≠ d := by
    rintro d hd rfl
    exact absurd hc (by simp [hd])
  rw [parseValue, he, List.cons_append, skipWs_cons _ hw]
  simp only [hne '"' (by decide), hne '[' (by decide), hne '{' (by decide), hne 'n' (by decide),
    hne 't' (by decide), hne 'f' (by decide), if_false]
  rw [← List.cons_append, ← he, parseNum_print lit hr]

mutual

theorem parseValue_print : ∀ (j : Json) (fuel : ℕ) (rest : List Char), (print j).length ≤ fuel →
    NumStop rest → parseValue fuel (print j ++ rest) = some (j, rest)
  | j, 0, rest, hf, _ => by
    obtain ⟨c, cs, he, -⟩ := print_start j
    simp [he] at hf
  | null, fuel + 1, rest, _, _ => by
    simp [print, parseValue, skipWs_cons _ (show isWs 'n' = false by decide), parseName]
  | bool true, fuel + 1, rest, _, _ => by
    simp [print, parseValue, skipWs_cons _ (show isWs 't' = false by decide), parseName]
  | bool false, fuel + 1, rest, _, _ => by
    simp [print, parseValue, skipWs_cons _ (show isWs 'f' = false by decide), parseName]
  | num lit, fuel + 1, rest, _, hr => parseValue_num lit fuel hr
  | str raw, fuel + 1, rest, _, _ => by
    simp [print, printStr, parseValue, skipWs_cons _ (show isWs '"' = false by decide),
      parseStr_print]
  | arr [], fuel + 1, rest, _, _ => by
    simp [print, parseValue, skipWs_cons _ (show isWs '[' = false by decide),
      skipWs_cons _ (show isWs ']' = false by decide)]
  | arr (x :: xs), fuel + 1, rest, hf, _ => by
    simp only [print, List.length_cons, List.length_append] at hf
    have hx := parseValue_print x fuel (printElems xs ++ rest) (by omega)
      (printElems_numStop xs rest)
    have hxs := parseElems_print xs fuel rest (by omega)
    obtain ⟨c, cs, he, hw, hb, -⟩ := print_start x
    have hs : skipWs (print x ++ (printElems xs ++ rest))
        = c :: (cs ++ (printElems xs ++ rest)) := by
      rw [he, List.cons_append, skipWs_cons _ hw]
    have hc : c :: (cs ++ (printElems xs ++ rest)) = print x ++ (printElems xs ++ rest) := by
      rw [he, List.cons_append]
    rw [print, parseValue, List.cons_append, skipWs_cons _ (show isWs '[' = false by decide)]
    simp only [show ('[' : Char) ≠ '"' by decide, if_false, if_true, List.append_assoc, hs]
    split
    · rename_i heq
      exact absurd (List.cons.inj heq).1 hb
    · rw [hc, hx]
      simp [hxs]
  | obj [], fuel + 1, rest, _, _ => by
    simp [print, parseValue, skipWs_cons _ (show isWs '{' = false by decide),
      skipWs_cons _ (show isWs '}' = false by decide)]
  | obj ((k, x) :: ms), fuel + 1, rest, hf, _ => by
    simp only [print, List.length_cons, List.length_append] at hf
    have hx := parseValue_print x fuel (printMembers ms ++ rest) (by omega)
      (printMembers_numStop ms rest)
    have hms := parseMembers_print ms fuel rest (by omega)
    have hk := parseKey_print k (print x ++ (printMembers ms ++ rest))
    have hs : skipWs (printStr k ++ ':' :: (print x ++ (printMembers ms ++ rest)))
        = printStr k ++ ':' :: (print x ++ (printMembers ms ++ rest)) :=
      skipWs_cons _ (by decide)
    rw [print, parseValue, List.cons_append, skipWs_cons _ (show isWs '{' = false by decide)]
    simp only [show ('{' : Char) ≠ '"' by decide, show ('{' : Char) ≠ '[' by decide, if_false,
      if_true, List.append_assoc, List.cons_append, hs]
    split
    · rename_i heq
      simp [printStr] at heq
    · rw [hk]
      simp [hx, hms]

theorem parseElems_print : ∀ (xs : List Json) (fuel : ℕ) (rest : List Char),
    (printElems xs).length ≤ fuel → parseElems fuel (printElems xs ++ rest) = some (xs, rest)
  | xs, 0, rest, hf => by
    cases xs <;> simp [printElems] at hf
  | [], fuel + 1, rest, _ => by
    simp [printElems, parseElems, skipWs_cons _ (show isWs ']' = false by decide)]
  | x :: xs, fuel + 1, rest, hf => by
    simp only [printElems, List.length_cons, List.length_append] at hf
    have hx := parseValue_print x fuel (printElems xs ++ rest) (by omega)
      (printElems_numStop xs rest)
    have hxs := parseElems_print xs fuel rest (by omega)
    rw [printElems, parseElems, List.cons_append, skipWs_cons _ (show isWs ',' = false by decide)]
    simp [hx, hxs]

theorem parseMembers_print : ∀ (ms : List (RawStr × Json)) (fuel : ℕ) (rest : List Char),
    (printMembers ms).length ≤ fuel →
    parseMembers fuel (printMembers ms ++ rest) = some (ms, rest)
  | ms, 0, rest, hf => by
    rcases ms with _ | ⟨⟨k, x⟩, ms⟩ <;> simp [printMembers] at hf
  | [], fuel + 1, rest, _ => by
    simp [printMembers, parseMembers, skipWs_cons _ (show isWs '}' = false by decide)]
  | (k, x) :: ms, fuel + 1, rest, hf => by
    simp only [printMembers, List.length_cons, List.length_append] at hf
    have hx := parseValue_print x fuel (printMembers ms ++ rest) (by omega)
      (printMembers_numStop ms rest)
    have hms := parseMembers_print ms fuel rest (by omega)
    have hk := parseKey_print k (print x ++ (printMembers ms ++ rest))
    rw [printMembers, parseMembers, List.cons_append,
      skipWs_cons _ (show isWs ',' = false by decide)]
    simp [hk, hx, hms]

end

/-- A value's text reads back as it, also with white space behind it. -/
theorem parse_print (j : Json) {ws : List Char} (hws : ∀ c ∈ ws, isWs c = true) :
    parse (print j ++ ws) = some j := by
  have hstop : NumStop ws := by
    intro c hc
    have hw := hws c (List.mem_of_mem_head? hc)
    simp only [isWs, Bool.or_eq_true, decide_eq_true_eq] at hw
    rcases hw with ((rfl | rfl) | rfl) | rfl <;> decide
  have hskip : skipWs ws = [] := by
    rw [skipWs, ← List.append_nil ws, List.dropWhile_append_of_pos hws, List.dropWhile_nil]
  rw [parse, parseValue_print j _ ws (by simp; omega) hstop]
  simp [hskip]

/-! ## A text is one line -/

theorem raw_newline (raw : RawStr) : '\n' ∉ raw.text := by
  refine isRaw_induct (P := fun cs => '\n' ∉ cs) ?_ ?_ ?_ ?_ raw.text raw.ok
  · simp
  · intro a b c d cs ha hb hc hd _ ih
    have hne : ∀ {x}, isHex x = true → '\n' ≠ x := by
      rintro x hx rfl
      exact absurd hx (by decide)
    simp [hne ha, hne hb, hne hc, hne hd, ih]
  · intro c cs hc _ ih
    have hne : '\n' ≠ c := by
      rintro rfl
      exact absurd hc (by decide)
    simp [hne, ih]
  · intro c cs _ _ hs _ ih
    have hne : '\n' ≠ c := by
      rintro rfl
      exact absurd hs (by decide)
    simp [hne, ih]

theorem num_newline (lit : NumLit) : '\n' ∉ lit.text :=
  fun h => absurd (isNumber_numChars lit.ok _ h) (by decide)

mutual

theorem print_newline : ∀ j : Json, '\n' ∉ print j
  | null => by simp [print]
  | bool true => by simp [print]
  | bool false => by simp [print]
  | num lit => num_newline lit
  | str raw => by simp [print, printStr, raw_newline raw]
  | arr [] => by simp [print]
  | arr (x :: xs) => by simp [print, print_newline x, printElems_newline xs]
  | obj [] => by simp [print]
  | obj ((k, x) :: ms) => by
    simp [print, printStr, raw_newline k, print_newline x, printMembers_newline ms]

theorem printElems_newline : ∀ xs : List Json, '\n' ∉ printElems xs
  | [] => by simp [printElems]
  | x :: xs => by simp [printElems, print_newline x, printElems_newline xs]

theorem printMembers_newline : ∀ ms : List (RawStr × Json), '\n' ∉ printMembers ms
  | [] => by simp [printMembers]
  | (k, x) :: ms => by
    simp [printMembers, printStr, raw_newline k, print_newline x, printMembers_newline ms]

end

/-! ## Encoding keeps the value -/

theorem hexVal_hexDigit {n : ℕ} (h : n < 16) : hexVal (hexDigit n) = n := by
  interval_cases n <;> decide

theorem codeUnits_plain {c : Char} (cs : List Char) (hb : c ≠ '\\') :
    codeUnits (c :: cs) = .inl c :: codeUnits cs := by
  rw [codeUnits]
  · exact fun _ _ _ _ _ h => absurd h hb
  · exact fun _ _ h => absurd h hb

theorem codeUnits_escape {c : Char} (cs : List Char) (hc : c ≠ 'u') :
    codeUnits ('\\' :: c :: cs) = .inl (escaped c) :: codeUnits cs := by
  rw [codeUnits]
  exact fun _ _ _ _ _ h => absurd h hc

/-- The four digits of a small character read back as it. -/
theorem codeUnits_hex4 {c : Char} (cs : List Char) (hc : c.toNat < 0xD800) :
    codeUnits ('\\' :: 'u' :: (hex4 c.toNat ++ cs)) = .inl c :: codeUnits cs := by
  have hv : ∀ m, hexVal (hexDigit (m % 0x10)) = m % 0x10 :=
    fun m => hexVal_hexDigit (Nat.mod_lt _ (by decide))
  simp only [hex4, List.cons_append, List.nil_append, codeUnits, hv]
  have hn : c.toNat / 0x1000 % 0x10 * 0x1000 + c.toNat / 0x100 % 0x10 * 0x100
      + c.toNat / 0x10 % 0x10 * 0x10 + c.toNat % 0x10 = c.toNat := by omega
  have hs : (0xD800 ≤ c.toNat && c.toNat < 0xE000) = false := by
    simp; omega
  rw [hn, codeUnit, hs]
  simp

theorem codeUnits_escapeChar {c : Char} (cs : List Char) (hb : c ≠ '\\') :
    codeUnits (escapeChar c ++ cs) = .inl c :: codeUnits cs := by
  unfold escapeChar
  split_ifs with h
  · refine codeUnits_hex4 cs ?_
    simp only [isHTML, Bool.or_eq_true, decide_eq_true_eq] at h
    rcases h with (((rfl | rfl) | rfl) | rfl) | rfl <;> decide
  · exact codeUnits_plain cs hb

theorem codeUnits_quoteChar (c : Char) (cs : List Char) :
    codeUnits (quoteChar c ++ cs) = .inl c :: codeUnits cs := by
  unfold quoteChar
  split_ifs with hq hb hf hn hr ht hs
  · simp only [Bool.or_eq_true, decide_eq_true_eq] at hq
    rcases hq with rfl | rfl <;> exact codeUnits_escape cs (by decide)
  · exact hb ▸ codeUnits_escape cs (by decide)
  · exact hf ▸ codeUnits_escape cs (by decide)
  · exact hn ▸ codeUnits_escape cs (by decide)
  · exact hr ▸ codeUnits_escape cs (by decide)
  · exact ht ▸ codeUnits_escape cs (by decide)
  · refine codeUnits_hex4 cs ?_
    have : c.toNat < ' '.toNat := hs
    have : ' '.toNat = 32 := rfl
    omega
  · simp only [Bool.or_eq_true, decide_eq_true_eq, not_or] at hq
    exact codeUnits_escapeChar cs hq.2

theorem joinPairs_inl (cs : List Char) : joinPairs (cs.map .inl) = cs := by
  induction cs with
  | nil => rfl
  | cons c cs ih => rw [List.map_cons, joinPairs, ih]

@[simp]
theorem unquote_quote (s : String) : unquote (quote s) = s := by
  have hu : ∀ cs : List Char, codeUnits (cs.flatMap quoteChar) = cs.map .inl := by
    intro cs
    induction cs with
    | nil => rfl
    | cons c cs ih => rw [List.flatMap_cons, codeUnits_quoteChar, ih, List.map_cons]
  rw [unquote, quote, hu, joinPairs_inl, String.ofList_toList]

@[simp]
theorem unquote_escapeHTML (raw : RawStr) : unquote (escapeHTML raw) = unquote raw := by
  have hex {c : Char} (hc : isHex c = true) := escapeChar_of_not (isHTML_of_escape (.inl hc))
  have hu : codeUnits (raw.text.flatMap escapeChar) = codeUnits raw.text := by
    refine isRaw_induct (P := fun cs => codeUnits (cs.flatMap escapeChar) = codeUnits cs)
      ?_ ?_ ?_ ?_ raw.text raw.ok
    · rfl
    · intro a b c d cs ha hb hc hd _ ih
      simp [hex ha, hex hb, hex hc, hex hd, codeUnits, ih,
        escapeChar_of_not (show isHTML '\\' = false by decide),
        escapeChar_of_not (show isHTML 'u' = false by decide)]
    · intro c cs hc _ ih
      have hu : c ≠ 'u' := by
        rintro rfl
        exact absurd hc (by decide)
      simp only [List.flatMap_cons, escapeChar_of_not (show isHTML '\\' = false by decide),
        escapeChar_of_not (isHTML_of_escape (.inr hc)), List.cons_append, List.nil_append]
      rw [codeUnits_escape _ hu, codeUnits_escape _ hu, ih]
    · intro c cs _ hb _ _ ih
      rw [List.flatMap_cons, codeUnits_escapeChar _ hb, codeUnits_plain _ hb, ih]
  rw [unquote, unquote, escapeHTML, hu]

mutual

/-- Compacting a text does not change what it means. -/
@[simp]
theorem value_compact : ∀ j : Json, value (compact j) = value j
  | null => rfl
  | bool _ => rfl
  | num _ => rfl
  | str raw => by rw [compact, value, value, unquote_escapeHTML]
  | arr xs => by rw [compact, value, value, valueElems_compact]
  | obj ms => by rw [compact, value, value, valueMembers_compact]

theorem valueElems_compact : ∀ xs : List Json, valueElems (compactElems xs) = valueElems xs
  | [] => rfl
  | x :: xs => by rw [compactElems, valueElems, valueElems, value_compact, valueElems_compact]

theorem valueMembers_compact :
    ∀ ms : List (RawStr × Json), valueMembers (compactMembers ms) = valueMembers ms
  | [] => rfl
  | (k, x) :: ms => by
    rw [compactMembers, valueMembers, valueMembers, value_compact, valueMembers_compact,
      unquote_escapeHTML]

end

end Json

end WMonitor
