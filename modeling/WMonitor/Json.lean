import WMonitor.Text

/-!
# JSON texts

A JSON value is kept as it is written: a number by its literal, a string by what stands between its
quotes. `print` writes a value without white space, `parse` reads one. `value` is what a text means,
with the escapes of its strings decoded; `quote` writes a string the way `encoding/json` does, and
`compact` is what it makes of a raw message.
-/

namespace WMonitor

namespace Json

def isHex (c : Char) : Bool := c.isDigit || ('a' ≤ c && c ≤ 'f') || ('A' ≤ c && c ≤ 'F')

def isWs (c : Char) : Bool := c = ' ' || c = '\t' || c = '\r' || c = '\n'

/-- The characters of number literals. -/
def isNumChar (c : Char) : Bool :=
  c.isDigit || c = '-' || c = '+' || c = '.' || c = 'e' || c = 'E'

/-! ## Literals -/

/-- An exponent, or nothing. -/
def isExp : List Char → Bool
  | [] => true
  | c :: cs =>
    if c = 'e' || c = 'E' then
      let ds := match cs with
        | '+' :: ds => ds
        | '-' :: ds => ds
        | ds => ds
      ds ≠ [] && ds.all Char.isDigit
    else false

/-- A fraction and an exponent, each optional. -/
def isFrac : List Char → Bool
  | '.' :: cs => cs.takeWhile Char.isDigit ≠ [] && isExp (cs.dropWhile Char.isDigit)
  | cs => isExp cs

def isUnsigned (cs : List Char) : Bool :=
  let ds := cs.takeWhile Char.isDigit
  ds ≠ [] && (ds.head? ≠ some '0' || ds.length = 1) && isFrac (cs.dropWhile Char.isDigit)

def isNumber : List Char → Bool
  | '-' :: cs => isUnsigned cs
  | cs => isUnsigned cs

/-- What may stand after a backslash, other than `u`. -/
def isEscape (c : Char) : Bool :=
  c = '"' || c = '\\' || c = '/' || c = 'b' || c = 'f' || c = 'n' || c = 'r' || c = 't'

/-- What may stand between the quotes of a string. -/
def isRaw : List Char → Bool
  | [] => true
  | '\\' :: 'u' :: a :: b :: c :: d :: cs =>
    isHex a && isHex b && isHex c && isHex d && isRaw cs
  | '\\' :: c :: cs => isEscape c && isRaw cs
  | c :: cs => c ≠ '"' && c ≠ '\\' && ' ' ≤ c && isRaw cs

end Json

/-- A number literal. -/
structure NumLit where
  text : List Char
  ok : Json.isNumber text = true
  deriving DecidableEq

/-- A string literal without its quotes. -/
structure RawStr where
  text : List Char
  ok : Json.isRaw text = true
  deriving DecidableEq

inductive Json
  | null
  | bool (b : Bool)
  | num (lit : NumLit)
  | str (raw : RawStr)
  | arr (xs : List Json)
  | obj (ms : List (RawStr × Json))

namespace Json

/-! ## Writing -/

def printStr (raw : RawStr) : List Char := '"' :: raw.text ++ ['"']

mutual

def print : Json → List Char
  | null => ['n', 'u', 'l', 'l']
  | bool true => ['t', 'r', 'u', 'e']
  | bool false => ['f', 'a', 'l', 's', 'e']
  | num lit => lit.text
  | str raw => printStr raw
  | arr [] => ['[', ']']
  | arr (x :: xs) => '[' :: (print x ++ printElems xs)
  | obj [] => ['{', '}']
  | obj ((k, x) :: ms) => '{' :: (printStr k ++ ':' :: (print x ++ printMembers ms))

/-- The elements after the first and the closing bracket. -/
def printElems : List Json → List Char
  | [] => [']']
  | x :: xs => ',' :: (print x ++ printElems xs)

/-- The members after the first and the closing brace. -/
def printMembers : List (RawStr × Json) → List Char
  | [] => ['}']
  | (k, x) :: ms => ',' :: (printStr k ++ ':' :: (print x ++ printMembers ms))

end

/-! ## Reading -/

def skipWs (cs : List Char) : List Char := cs.dropWhile isWs

/-- Up to the closing quote, and after it. -/
def closeQuote : List Char → Option (List Char × List Char)
  | [] => none
  | '"' :: cs => some ([], cs)
  | '\\' :: c :: cs => (closeQuote cs).map fun (raw, rest) => ('\\' :: c :: raw, rest)
  | c :: cs => (closeQuote cs).map fun (raw, rest) => (c :: raw, rest)

/-- A string after its opening quote. -/
def parseStr (cs : List Char) : Option (RawStr × List Char) :=
  match closeQuote cs with
  | none => none
  | some (raw, rest) => if h : isRaw raw = true then some (⟨raw, h⟩, rest) else none

def parseNum (cs : List Char) : Option (Json × List Char) :=
  if h : isNumber (cs.takeWhile isNumChar) = true then
    some (num ⟨cs.takeWhile isNumChar, h⟩, cs.dropWhile isNumChar)
  else none

/-- The rest of a literal name. -/
def parseName (name : List Char) (j : Json) (cs : List Char) : Option (Json × List Char) :=
  if name.isPrefixOf cs then some (j, cs.drop name.length) else none

/-- A member's key and its colon. -/
def parseKey (cs : List Char) : Option (RawStr × List Char) :=
  match skipWs cs with
  | '"' :: cs =>
    match parseStr cs with
    | none => none
    | some (k, cs) =>
      match skipWs cs with
      | ':' :: cs => some (k, cs)
      | _ => none
  | _ => none

mutual

/-- A value and what follows it; `fuel` bounds the recursion. -/
def parseValue : ℕ → List Char → Option (Json × List Char)
  | 0, _ => none
  | fuel + 1, cs =>
    match skipWs cs with
    | [] => none
    | c :: cs =>
      if c = '"' then (parseStr cs).map fun (raw, rest) => (str raw, rest)
      else if c = '[' then
        match skipWs cs with
        | ']' :: rest => some (arr [], rest)
        | cs => do
          let (x, cs) ← parseValue fuel cs
          let (xs, rest) ← parseElems fuel cs
          return (arr (x :: xs), rest)
      else if c = '{' then
        match skipWs cs with
        | '}' :: rest => some (obj [], rest)
        | cs => do
          let (k, cs) ← parseKey cs
          let (x, cs) ← parseValue fuel cs
          let (ms, rest) ← parseMembers fuel cs
          return (obj ((k, x) :: ms), rest)
      else if c = 'n' then parseName ['u', 'l', 'l'] null cs
      else if c = 't' then parseName ['r', 'u', 'e'] (bool true) cs
      else if c = 'f' then parseName ['a', 'l', 's', 'e'] (bool false) cs
      else parseNum (c :: cs)

def parseElems : ℕ → List Char → Option (List Json × List Char)
  | 0, _ => none
  | fuel + 1, cs =>
    match skipWs cs with
    | ']' :: rest => some ([], rest)
    | ',' :: cs => do
      let (x, cs) ← parseValue fuel cs
      let (xs, rest) ← parseElems fuel cs
      return (x :: xs, rest)
    | _ => none

def parseMembers : ℕ → List Char → Option (List (RawStr × Json) × List Char)
  | 0, _ => none
  | fuel + 1, cs =>
    match skipWs cs with
    | '}' :: rest => some ([], rest)
    | ',' :: cs => do
      let (k, cs) ← parseKey cs
      let (x, cs) ← parseValue fuel cs
      let (ms, rest) ← parseMembers fuel cs
      return ((k, x) :: ms, rest)
    | _ => none

end

/-- A whole text: one value and white space. -/
def parse (cs : List Char) : Option Json :=
  match parseValue (cs.length + 1) cs with
  | some (j, rest) => if skipWs rest = [] then some j else none
  | none => none

/-! ## What a text means -/

def hexVal (c : Char) : ℕ :=
  if c.isDigit then c.toNat - 48 else if c ≤ 'F' then c.toNat - 55 else c.toNat - 87

def escaped (c : Char) : Char :=
  if c = 'b' then '\x08' else if c = 'f' then '\x0c' else if c = 'n' then '\n'
  else if c = 'r' then '\r' else if c = 't' then '\t' else c

/-- What `\u` and four digits stand for: a character, or half of a surrogate pair. -/
def codeUnit (n : ℕ) : Char ⊕ ℕ :=
  if 0xD800 ≤ n && n < 0xE000 then .inr n else .inl (Char.ofNat n)

def codeUnits : List Char → List (Char ⊕ ℕ)
  | [] => []
  | '\\' :: 'u' :: a :: b :: c :: d :: cs =>
    codeUnit (hexVal a * 0x1000 + hexVal b * 0x100 + hexVal c * 0x10 + hexVal d) :: codeUnits cs
  | '\\' :: c :: cs => .inl (escaped c) :: codeUnits cs
  | c :: cs => .inl c :: codeUnits cs

/-- Surrogates that do not pair up are replaced. -/
def joinPairs : List (Char ⊕ ℕ) → List Char
  | [] => []
  | .inl c :: us => c :: joinPairs us
  | .inr hi :: .inr lo :: us =>
    if hi < 0xDC00 && 0xDC00 ≤ lo then
      Char.ofNat (0x10000 + (hi - 0xD800) * 0x400 + (lo - 0xDC00)) :: joinPairs us
    else '\ufffd' :: joinPairs (.inr lo :: us)
  | .inr _ :: us => '\ufffd' :: joinPairs us

/-- The string that a literal denotes. -/
def unquote (raw : RawStr) : String := String.ofList (joinPairs (codeUnits raw.text))

/-- A JSON value: numbers by their literals, strings decoded, members in order. -/
inductive Value
  | null
  | bool (b : Bool)
  | num (lit : NumLit)
  | str (s : String)
  | arr (xs : List Value)
  | obj (ms : List (String × Value))

mutual

def value : Json → Value
  | null => .null
  | bool b => .bool b
  | num lit => .num lit
  | str raw => .str (unquote raw)
  | arr xs => .arr (valueElems xs)
  | obj ms => .obj (valueMembers ms)

def valueElems : List Json → List Value
  | [] => []
  | x :: xs => value x :: valueElems xs

def valueMembers : List (RawStr × Json) → List (String × Value)
  | [] => []
  | (k, x) :: ms => (unquote k, value x) :: valueMembers ms

end

/-! ## Encoding -/

def hex4 (n : ℕ) : List Char :=
  [hexDigit (n / 0x1000 % 0x10), hexDigit (n / 0x100 % 0x10), hexDigit (n / 0x10 % 0x10),
    hexDigit (n % 0x10)]

/-- What is escaped for the sake of HTML and of JavaScript. -/
def isHTML (c : Char) : Bool :=
  c = '<' || c = '>' || c = '&' || c = '\u2028' || c = '\u2029'

def escapeChar (c : Char) : List Char :=
  if isHTML c then '\\' :: 'u' :: hex4 c.toNat else [c]

def quoteChar (c : Char) : List Char :=
  if c = '"' || c = '\\' then ['\\', c]
  else if c = '\x08' then ['\\', 'b']
  else if c = '\x0c' then ['\\', 'f']
  else if c = '\n' then ['\\', 'n']
  else if c = '\r' then ['\\', 'r']
  else if c = '\t' then ['\\', 't']
  else if c < ' ' then '\\' :: 'u' :: hex4 c.toNat
  else escapeChar c

theorem hexDigit_isHex {n : ℕ} (h : n < 16) : isHex (hexDigit n) = true := by
  interval_cases n <;> decide

theorem isRaw_unicode (n : ℕ) (cs : List Char) :
    isRaw ('\\' :: 'u' :: (hex4 n ++ cs)) = isRaw cs := by
  have hd : ∀ m, isHex (hexDigit (m % 0x10)) = true :=
    fun m => hexDigit_isHex (Nat.mod_lt _ (by decide))
  simp [hex4, isRaw, hd]

theorem isRaw_plain {c : Char} (cs : List Char) (hq : c ≠ '"') (hb : c ≠ '\\') (hs : ' ' ≤ c) :
    isRaw (c :: cs) = isRaw cs := by
  rw [isRaw]
  · simp [hq, hb, hs]
  · exact fun _ _ _ _ _ h => absurd h hb
  · exact fun _ _ h => absurd h hb

theorem isRaw_escape {c : Char} (cs : List Char) (hc : isEscape c = true) :
    isRaw ('\\' :: c :: cs) = isRaw cs := by
  rw [isRaw]
  · simp [hc]
  · rintro a b c d cs rfl
    exact absurd hc (by decide)

theorem isRaw_escapeChar {c : Char} (cs : List Char) (hq : c ≠ '"') (hb : c ≠ '\\')
    (hs : ' ' ≤ c) : isRaw (escapeChar c ++ cs) = isRaw cs := by
  unfold escapeChar
  split_ifs
  · exact isRaw_unicode _ cs
  · exact isRaw_plain cs hq hb hs

theorem isRaw_quoteChar (c : Char) (cs : List Char) : isRaw (quoteChar c ++ cs) = isRaw cs := by
  unfold quoteChar
  split_ifs with hq hb hf hn hr ht hs
  · refine isRaw_escape cs ?_
    simp only [Bool.or_eq_true, decide_eq_true_eq] at hq
    rcases hq with rfl | rfl <;> decide
  · exact isRaw_escape cs (by decide)
  · exact isRaw_escape cs (by decide)
  · exact isRaw_escape cs (by decide)
  · exact isRaw_escape cs (by decide)
  · exact isRaw_escape cs (by decide)
  · exact isRaw_unicode _ cs
  · simp only [Bool.or_eq_true, decide_eq_true_eq, not_or] at hq
    exact isRaw_escapeChar cs hq.1 hq.2 (Char.not_lt.1 hs)

theorem isRaw_induct {P : List Char → Prop} (nil : P [])
    (unicode : ∀ a b c d cs, isHex a = true → isHex b = true → isHex c = true → isHex d = true →
      isRaw cs = true → P cs → P ('\\' :: 'u' :: a :: b :: c :: d :: cs))
    (escape : ∀ c cs, isEscape c = true → isRaw cs = true → P cs → P ('\\' :: c :: cs))
    (plain : ∀ c cs, c ≠ '"' → c ≠ '\\' → ' ' ≤ c → isRaw cs = true → P cs → P (c :: cs)) :
    ∀ cs, isRaw cs = true → P cs := by
  intro cs h
  induction cs using isRaw.induct with
  | case1 => exact nil
  | case2 a b c d cs ih =>
    simp only [isRaw, Bool.and_eq_true] at h
    obtain ⟨⟨⟨⟨ha, hb⟩, hc⟩, hd⟩, h⟩ := h
    exact unicode a b c d cs ha hb hc hd h (ih h)
  | case3 c cs hne ih =>
    rw [isRaw] at h
    · simp only [Bool.and_eq_true] at h
      exact escape c cs h.1 h.2 (ih h.2)
    · exact hne
  | case4 c cs h1 h2 ih =>
    rw [isRaw] at h
    · simp only [Bool.and_eq_true, decide_eq_true_eq] at h
      obtain ⟨⟨⟨hq, hb⟩, hs⟩, h⟩ := h
      exact plain c cs hq hb hs h (ih h)
    · exact h1
    · exact h2

theorem isRaw_flatMap_quoteChar (cs : List Char) : isRaw (cs.flatMap quoteChar) = true := by
  induction cs with
  | nil => rfl
  | cons c cs ih => rw [List.flatMap_cons, isRaw_quoteChar, ih]

theorem escapeChar_of_not {c : Char} (h : isHTML c = false) : escapeChar c = [c] := by
  simp [escapeChar, h]

/-- Inside an escape there is nothing to escape. -/
theorem isHTML_of_escape {c : Char} (h : isHex c = true ∨ isEscape c = true) :
    isHTML c = false := by
  by_contra hc
  simp only [Bool.not_eq_false, isHTML, Bool.or_eq_true, decide_eq_true_eq] at hc
  rcases hc with (((rfl | rfl) | rfl) | rfl) | rfl <;> exact absurd h (by decide)

theorem isRaw_flatMap_escapeChar {cs : List Char} (h : isRaw cs = true) :
    isRaw (cs.flatMap escapeChar) = true := by
  have hex {c : Char} (hc : isHex c = true) := escapeChar_of_not (isHTML_of_escape (.inl hc))
  refine isRaw_induct (P := fun cs => isRaw (cs.flatMap escapeChar) = true) ?_ ?_ ?_ ?_ cs h
  · rfl
  · intro a b c d cs ha hb hc hd _ ih
    simp [hex ha, hex hb, hex hc, hex hd, escapeChar_of_not (show isHTML '\\' = false by decide),
      escapeChar_of_not (show isHTML 'u' = false by decide), isRaw, ha, hb, hc, hd, ih]
  · intro c cs hc _ ih
    simp only [List.flatMap_cons, escapeChar_of_not (show isHTML '\\' = false by decide),
      escapeChar_of_not (isHTML_of_escape (.inr hc)), List.cons_append, List.nil_append]
    rw [isRaw_escape _ hc, ih]
  · intro c cs hq hb hs _ ih
    rw [List.flatMap_cons, isRaw_escapeChar _ hq hb hs, ih]

theorem isUnsigned_toDigits (n : ℕ) : isUnsigned (Nat.toDigits 10 n) = true := by
  have hd := List.all_eq_true.1 (toDigits_all n)
  have ht : (Nat.toDigits 10 n).takeWhile Char.isDigit = Nat.toDigits 10 n := by
    rw [← List.append_nil (Nat.toDigits 10 n), List.takeWhile_append_of_pos hd, List.takeWhile_nil]
  have hdrop : (Nat.toDigits 10 n).dropWhile Char.isDigit = [] := by
    rw [← List.append_nil (Nat.toDigits 10 n), List.dropWhile_append_of_pos hd, List.dropWhile_nil]
  have hz : (Nat.toDigits 10 n).head? ≠ some '0' ∨ (Nat.toDigits 10 n).length = 1 := by
    rcases eq_or_ne n 0 with rfl | hn
    · exact .inr rfl
    · exact .inl (toDigits_head hn)
  simp only [isUnsigned, ht, hdrop, Bool.and_eq_true, Bool.or_eq_true, decide_eq_true_eq]
  exact ⟨⟨Nat.toDigits_ne_nil, hz⟩, rfl⟩

theorem isNumber_itoa (n : ℤ) : isNumber (itoa n) = true := by
  unfold itoa
  split_ifs
  · exact isUnsigned_toDigits _
  · rw [isNumber]
    · exact isUnsigned_toDigits _
    · intro cs h
      exact absurd (toDigits_all n.natAbs) (by simp [h])

def int (n : ℤ) : NumLit := ⟨itoa n, isNumber_itoa n⟩

/-- A string as `json.Marshal` writes it. -/
def quote (s : String) : RawStr := ⟨s.toList.flatMap quoteChar, isRaw_flatMap_quoteChar _⟩

def escapeHTML (raw : RawStr) : RawStr :=
  ⟨raw.text.flatMap escapeChar, isRaw_flatMap_escapeChar raw.ok⟩

mutual

/-- A raw message as `json.Marshal` copies it: without white space, and escaped for HTML. -/
def compact : Json → Json
  | str raw => str (escapeHTML raw)
  | arr xs => arr (compactElems xs)
  | obj ms => obj (compactMembers ms)
  | j => j

def compactElems : List Json → List Json
  | [] => []
  | x :: xs => compact x :: compactElems xs

def compactMembers : List (RawStr × Json) → List (RawStr × Json)
  | [] => []
  | (k, x) :: ms => (escapeHTML k, compact x) :: compactMembers ms

end

mutual

/-- How deep arrays and objects are nested. -/
def depth : Json → ℕ
  | arr xs => depthElems xs + 1
  | obj ms => depthMembers ms + 1
  | _ => 0

def depthElems : List Json → ℕ
  | [] => 0
  | x :: xs => max (depth x) (depthElems xs)

def depthMembers : List (RawStr × Json) → ℕ
  | [] => 0
  | (_, x) :: ms => max (depth x) (depthMembers ms)

end

end Json

end WMonitor
