import Mathlib.Data.Char
import Mathlib.Data.List.Lex
import Mathlib.Data.List.TakeWhile
import Mathlib.Tactic

/-!
# Text as the program handles it

The parts of Go's `strings`, `strconv`, `unicode` and `encoding/hex` that the program uses, over
Lean's strings of Unicode scalar values. `len` is the length in UTF-8 bytes.
-/

namespace WMonitor

/-- `unicode.IsSpace`. -/
def isSpace (c : Char) : Bool :=
  let n := c.toNat
  (9 ≤ n && n ≤ 13) || n = 0x20 || n = 0x85 || n = 0xA0 || n = 0x1680
    || (0x2000 ≤ n && n ≤ 0x200A) || n = 0x2028 || n = 0x2029 || n = 0x202F || n = 0x205F
    || n = 0x3000

/-- `strings.TrimSpace`, on the characters of a string. -/
def trimSpace (s : List Char) : List Char :=
  ((s.dropWhile isSpace).reverse.dropWhile isSpace).reverse

/-- `len` of a string: its UTF-8 bytes. -/
def len (s : String) : ℕ :=
  (s.toList.map Char.utf8Size).sum

/-- `strings.Cut` at a one-character separator. -/
def cut (sep : Char) (s : List Char) : Option (List Char × List Char) :=
  match s.dropWhile (· ≠ sep) with
  | [] => none
  | _ :: after => some (s.takeWhile (· ≠ sep), after)

/-- A text as UTF-8. -/
def encodeText (cs : List Char) : List UInt8 :=
  cs.flatMap String.utf8EncodeChar

def decodeText (bs : List UInt8) : Option (List Char) :=
  bs.toByteArray.utf8Decode?.map Array.toList

/-- The text of some bytes, with U+FFFD for each byte that is not part of a character. There are at most
`fuel` bytes. -/
def decodeLossy : ℕ → List UInt8 → List Char
  | 0, _ => []
  | _ + 1, [] => []
  | fuel + 1, b :: bs =>
    match (b :: bs).toByteArray.utf8DecodeChar? 0 with
    | some c => c :: decodeLossy fuel ((b :: bs).drop c.utf8Size)
    | none => '\ufffd' :: decodeLossy fuel bs

def lossyText (bs : List UInt8) : List Char := decodeLossy bs.length bs

def hexDigit (n : ℕ) : Char :=
  if n < 10 then Char.ofNat (48 + n) else Char.ofNat (87 + n)

/-- `hex.EncodeToString`. -/
def hexEncode (bs : List UInt8) : String :=
  String.ofList (bs.flatMap fun b => [hexDigit (b.toNat / 16), hexDigit (b.toNat % 16)])

/-- `strconv.Itoa`. -/
def itoa (n : ℤ) : List Char :=
  if n < 0 then '-' :: Nat.toDigits 10 n.natAbs else Nat.toDigits 10 n.natAbs

/-- A sign, if there is one, and the rest: whether it is negative. -/
def splitSign : List Char → Bool × List Char
  | '-' :: ds => (true, ds)
  | '+' :: ds => (false, ds)
  | ds => (false, ds)

/-- `strconv.Atoi`, for 64 bits. -/
def atoi (cs : List Char) : Option ℤ :=
  let ds := (splitSign cs).2
  if ds ≠ [] ∧ ds.all Char.isDigit then
    let n : ℤ := if (splitSign cs).1 then -Nat.ofDigitChars 10 ds 0 else Nat.ofDigitChars 10 ds 0
    if -2 ^ 63 ≤ n ∧ n < 2 ^ 63 then some n else none
  else none

/-- A finite float64 is the rational it denotes. -/
inductive F64 where
  | nan
  | inf (neg : Bool)
  | fin (q : ℚ)
  deriving DecidableEq

namespace F64

def isNaN : F64 → Bool
  | nan => true
  | _ => false

def isInf : F64 → Bool
  | inf _ => true
  | _ => false

/-- The float comparison `<`: false when either side is not a number. -/
def lt : F64 → F64 → Bool
  | nan, _ => false
  | _, nan => false
  | inf true, inf true => false
  | inf true, _ => true
  | inf false, _ => false
  | fin _, inf neg => !neg
  | fin a, fin b => decide (a < b)

end F64

@[simp]
theorem decodeText_encodeText (cs : List Char) : decodeText (encodeText cs) = some cs := by
  have h : (encodeText cs).toByteArray = cs.utf8Encode := rfl
  simp [decodeText, h]

@[simp]
theorem lossyText_encodeText (cs : List Char) : lossyText (encodeText cs) = cs := by
  have h : ∀ (cs : List Char) (fuel : ℕ), (encodeText cs).length ≤ fuel →
      decodeLossy fuel (encodeText cs) = cs := by
    intro cs
    induction cs with
    | nil => intro fuel _; cases fuel <;> rfl
    | cons c cs ih =>
      intro fuel hfuel
      have hcons : encodeText (c :: cs) = String.utf8EncodeChar c ++ encodeText cs :=
        List.flatMap_cons
      have hsize : (String.utf8EncodeChar c).length = c.utf8Size := String.length_utf8EncodeChar c
      have hpos : 0 < c.utf8Size := c.utf8Size_pos
      have hdecode : (encodeText (c :: cs)).toByteArray.utf8DecodeChar? 0 = some c :=
        List.utf8DecodeChar?_utf8Encode_cons
      have hdrop : (encodeText (c :: cs)).drop c.utf8Size = encodeText cs := by
        rw [hcons, ← hsize, List.drop_left]
      have hlength : (encodeText (c :: cs)).length = c.utf8Size + (encodeText cs).length := by
        rw [hcons, List.length_append, hsize]
      obtain ⟨b, bs, hbs⟩ := List.exists_cons_of_length_pos (l := encodeText (c :: cs)) (by omega)
      obtain ⟨n, rfl⟩ : ∃ n, fuel = n + 1 := ⟨fuel - 1, by omega⟩
      rw [hbs] at hdecode hdrop
      rw [hbs, decodeLossy, hdecode]
      dsimp only
      rw [hdrop, ih n (by omega)]
  exact h cs _ le_rfl

theorem encodeText_append (cs ds : List Char) :
    encodeText (cs ++ ds) = encodeText cs ++ encodeText ds :=
  List.flatMap_append

/-- The byte of a line feed stands for nothing else. -/
theorem encodeText_newline {cs : List Char} (h : '\n' ∉ cs) : 10 ∉ encodeText cs := by
  intro hm
  obtain ⟨c, hc, hb⟩ := List.mem_flatMap.1 hm
  have hne : c.val.toNat ≠ 10 := by
    intro hv
    have : c = '\n' := Char.ext (UInt32.toNat.inj hv)
    exact h (this ▸ hc)
  have hlt : ∀ {n : ℕ}, n < 256 → n ≠ 10 → (10 : UInt8) ≠ UInt8.ofNat n := by
    intro n hn hn' heq
    have := congrArg UInt8.toNat heq
    rw [UInt8.toNat_ofNat'] at this
    simp at this
    omega
  simp only [String.utf8EncodeChar] at hb
  split_ifs at hb <;> simp only [List.mem_cons, List.not_mem_nil, or_false] at hb
  · exact hlt (by omega) hne hb
  · rcases hb with hb | hb <;> exact hlt (by omega) (by omega) hb
  · rcases hb with hb | hb | hb <;> exact hlt (by omega) (by omega) hb
  · rcases hb with hb | hb | hb | hb <;> exact hlt (by omega) (by omega) hb

theorem toDigits_all (n : ℕ) : (Nat.toDigits 10 n).all Char.isDigit = true :=
  List.all_eq_true.2 fun _ hc => Nat.isDigit_of_mem_toDigits (by decide) (by decide) hc

theorem toDigits_head {n : ℕ} (hn : n ≠ 0) : (Nat.toDigits 10 n).head? ≠ some '0' := by
  induction n using Nat.strongRecOn with
  | ind n ih =>
    rw [Nat.toDigits_eq_if (by decide)]
    split_ifs with hlt
    · interval_cases n <;> first | exact absurd rfl hn | decide
    · rw [List.head?_append_of_ne_nil _ Nat.toDigits_ne_nil]
      exact ih (n / 10) (by omega) (by omega)

theorem splitSign_digits {ds : List Char} (h : ds.all Char.isDigit = true) :
    splitSign ds = (false, ds) := by
  unfold splitSign
  split
  · exact absurd h (by simp)
  · exact absurd h (by simp)
  · rfl

theorem atoi_itoa {n : ℤ} (hlo : -2 ^ 63 ≤ n) (hhi : n < 2 ^ 63) : atoi (itoa n) = some n := by
  have hd := toDigits_all n.natAbs
  have hne : Nat.toDigits 10 n.natAbs ≠ [] := Nat.toDigits_ne_nil
  have hv : Nat.ofDigitChars 10 (Nat.toDigits 10 n.natAbs) 0 = n.natAbs :=
    Nat.ofDigitChars_ten_toDigits
  have hn : (if n < 0 then -(n.natAbs : ℤ) else n.natAbs) = n := by
    split_ifs <;> omega
  by_cases hneg : n < 0
  · simp only [hneg, if_true] at hn
    simp only [atoi, itoa, hneg, if_true, splitSign, hd, hne, hv, hn, hlo, hhi, ne_eq,
      not_false_eq_true, and_self]
  · simp only [hneg, if_false] at hn
    simp only [atoi, itoa, hneg, if_false, splitSign_digits hd, hd, hne, hv, hn, hlo, hhi, ne_eq,
      not_false_eq_true, and_self, if_true, Bool.false_eq_true]

theorem itoa_chars {n : ℤ} {c : Char} (h : c ∈ itoa n) : c = '-' ∨ c.isDigit = true := by
  have hd := List.all_eq_true.1 (toDigits_all n.natAbs)
  unfold itoa at h
  split_ifs at h
  · rcases List.mem_cons.1 h with rfl | h
    · exact .inl rfl
    · exact .inr (hd c h)
  · exact .inr (hd c h)

theorem itoa_ne_nil (n : ℤ) : itoa n ≠ [] := by
  unfold itoa
  split_ifs
  · exact List.cons_ne_nil _ _
  · exact Nat.toDigits_ne_nil

theorem isSpace_toNat {c : Char} (h : isSpace c = true) : c.toNat ≤ 0x20 ∨ 0x85 ≤ c.toNat := by
  simp only [isSpace, Bool.or_eq_true, Bool.and_eq_true, decide_eq_true_eq] at h
  omega

theorem trimSpace_of_forall {s : List Char} (h : ∀ c ∈ s, isSpace c = false) :
    trimSpace s = s := by
  have hdrop : ∀ {l : List Char}, (∀ c ∈ l, isSpace c = false) → l.dropWhile isSpace = l := by
    intro l hl
    cases l with
    | nil => rfl
    | cons c l => rw [List.dropWhile_cons_of_neg (by simp [hl c List.mem_cons_self])]
  unfold trimSpace
  rw [hdrop h, hdrop fun c hc => h c (List.mem_reverse.1 hc), List.reverse_reverse]

/-- What trimming the end of a text leaves out. -/
theorem trimRight_split (q : Char → Bool) (t : List Char) :
    ∃ w, t = (t.reverse.dropWhile q).reverse ++ w ∧ ∀ c ∈ w, q c = true := by
  refine ⟨(t.reverse.takeWhile q).reverse, ?_, fun c hc => ?_⟩
  · rw [← List.reverse_append, List.takeWhile_append_dropWhile, List.reverse_reverse]
  · exact List.mem_takeWhile_imp (List.mem_reverse.1 hc)

theorem trimSpace_split (s : List Char) : ∃ a b, s = a ++ trimSpace s ++ b
    ∧ (∀ c ∈ a, isSpace c = true) ∧ ∀ c ∈ b, isSpace c = true := by
  obtain ⟨b, hb, hspace⟩ := trimRight_split isSpace (s.dropWhile isSpace)
  refine ⟨s.takeWhile isSpace, b, ?_, fun c hc => List.mem_takeWhile_imp hc, hspace⟩
  rw [List.append_assoc, trimSpace, ← hb, List.takeWhile_append_dropWhile]

/-- White space around a text does not matter to what is left of it. -/
theorem trimSpace_pad {a b : List Char} (x : List Char) (ha : ∀ c ∈ a, isSpace c = true)
    (hb : ∀ c ∈ b, isSpace c = true) : trimSpace (a ++ x ++ b) = trimSpace x := by
  have hnil : b.dropWhile isSpace = [] := List.dropWhile_eq_nil_iff.2 hb
  unfold trimSpace
  rw [List.append_assoc, List.dropWhile_append_of_pos ha, List.dropWhile_append]
  split_ifs with hx
  · rw [hnil, List.isEmpty_iff.1 hx]
  · rw [List.reverse_append, List.dropWhile_append_of_pos fun c hc => hb c (List.mem_reverse.1 hc)]

theorem mem_trimSpace {s : List Char} {c : Char} (hc : c ∈ s) (hspace : isSpace c = false) :
    c ∈ trimSpace s := by
  obtain ⟨a, b, hs, ha, hb⟩ := trimSpace_split s
  rw [hs] at hc
  rcases List.mem_append.1 hc with hc | hc
  · rcases List.mem_append.1 hc with hc | hc
    · exact absurd (ha c hc) (by simp [hspace])
    · exact hc
  · exact absurd (hb c hc) (by simp [hspace])

theorem cut_append {sep : Char} {a b : List Char} (h : sep ∉ a) :
    cut sep (a ++ sep :: b) = some (a, b) := by
  have ha : ∀ c ∈ a, decide (c ≠ sep) = true := by
    intro c hc
    simp only [decide_eq_true_eq]
    rintro rfl
    exact h hc
  have hd : (a ++ sep :: b).dropWhile (fun c => decide (c ≠ sep)) = sep :: b := by
    rw [List.dropWhile_append_of_pos ha, List.dropWhile_cons_of_neg (by simp)]
  have ht : (a ++ sep :: b).takeWhile (fun c => decide (c ≠ sep)) = a := by
    rw [List.takeWhile_append_of_pos ha, List.takeWhile_cons_of_neg (by simp), List.append_nil]
  unfold cut
  rw [hd, ht]

theorem digit_bounds {c : Char} (h : c.isDigit = true) : 48 ≤ c.toNat ∧ c.toNat ≤ 57 := by
  simp only [Char.isDigit, Bool.and_eq_true, decide_eq_true_eq, ge_iff_le,
    UInt32.le_iff_toNat_le] at h
  exact h

theorem ofDigitChars_bound {ds : List Char} (h : ∀ c ∈ ds, c.isDigit = true) :
    Nat.ofDigitChars 10 ds 0 < 10 ^ ds.length := by
  induction ds with
  | nil => simp
  | cons c ds ih =>
    have hc := digit_bounds (h c List.mem_cons_self)
    have hds := ih fun d hd => h d (List.mem_cons_of_mem _ hd)
    have hz : '0'.toNat = 48 := rfl
    rw [Nat.ofDigitChars_cons, Nat.ofDigitChars_eq_ofDigitChars_zero, List.length_cons, pow_succ]
    have : 10 ^ ds.length * (10 * 0 + (c.toNat - '0'.toNat)) ≤ 10 ^ ds.length * 9 :=
      Nat.mul_le_mul_left _ (by omega)
    omega

/-- Numbers written with equally many digits are in the order of their texts. -/
theorem append_lt_of_ofDigitChars_lt {a b : List Char} (hlen : a.length = b.length)
    (ha : ∀ c ∈ a, c.isDigit = true) (hb : ∀ c ∈ b, c.isDigit = true)
    (h : Nat.ofDigitChars 10 a 0 < Nat.ofDigitChars 10 b 0) (ra rb : List Char) :
    a ++ ra < b ++ rb := by
  induction a generalizing b with
  | nil =>
    obtain rfl := List.length_eq_zero_iff.1 hlen.symm
    exact absurd h (lt_irrefl _)
  | cons c a ih =>
    cases b with
    | nil => simp at hlen
    | cons d b =>
      have hc := digit_bounds (ha c List.mem_cons_self)
      have hd := digit_bounds (hb d List.mem_cons_self)
      have ha' : ∀ x ∈ a, x.isDigit = true := fun x hx => ha x (List.mem_cons_of_mem _ hx)
      have hb' : ∀ x ∈ b, x.isDigit = true := fun x hx => hb x (List.mem_cons_of_mem _ hx)
      have hlen' : a.length = b.length := by simpa using hlen
      have hbb := ofDigitChars_bound hb'
      have hz : '0'.toNat = 48 := rfl
      rw [Nat.ofDigitChars_cons, Nat.ofDigitChars_cons, Nat.ofDigitChars_eq_ofDigitChars_zero,
        Nat.ofDigitChars_eq_ofDigitChars_zero (l := b), hlen', hz, Nat.mul_zero, Nat.zero_add,
        Nat.zero_add] at h
      rw [List.cons_append, List.cons_append, List.cons_lt_cons_iff]
      rcases lt_trichotomy c.toNat d.toNat with hlt | heq | hgt
      · exact .inl hlt
      · refine .inr ⟨Char.ext (UInt32.toNat.inj heq), ih hlen' ha' hb' ?_⟩
        rw [heq] at h
        omega
      · have hmul : 10 ^ b.length * (d.toNat - 48 + 1) ≤ 10 ^ b.length * (c.toNat - 48) :=
          Nat.mul_le_mul_left _ (by omega)
        rw [Nat.mul_add] at hmul
        omega

end WMonitor
