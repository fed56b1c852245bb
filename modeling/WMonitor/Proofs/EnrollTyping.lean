import WMonitor.APIKeys

/-!
# Typing an enrollment code

A code is printed in three groups behind `WM`, and typed by hand. `NormalizeEnrollCode` trims the ends
of what was typed before it removes hyphens and spaces, so that white space of another kind between a
hyphen and the code is left where it is: the code is recognised exactly if there is none
(`normalizeEnrollCode_typed_iff`).
-/

namespace WMonitor

/-- What `unicode.ToUpper` does with ASCII characters and with white space. -/
structure UpperCase (upper : Char → Char) : Prop where
  ascii : ∀ c, c.toNat < 128 → upper c = c.toUpper
  space : ∀ c, isSpace c = true → upper c = c

/-- A code without its hyphens. -/
def bare (code : String) : List Char := code.toList.filter fun c => c ≠ '-'

def unfilled (typed : List Char) : List Char := typed.filter fun c => c ≠ '-' ∧ c ≠ ' '

namespace KeyTexts

variable (K : KeyTexts)

/-- What was typed with its hyphens and spaces removed, trimmed, and in upper case. -/
def typed (s : String) : List Char := (trimSpace (unfilled s.toList)).map K.upper

/-- What `HashEnrollCode` hashes. -/
def hashedBytes (code : String) : List UInt8 :=
  encodeText (trimSpace (K.normalizeEnrollCode code).toList)

theorem hashEnrollCode_eq (code : String) :
    K.hashEnrollCode code = hexEncode (K.sha256 (K.hashedBytes code)) := rfl

end KeyTexts

/-! ## Codes -/

/-- The characters of a code, in groups of four. -/
def grouped (chars : List Char) : List Char :=
  "WM-".toList ++ chars.take 4 ++ '-' :: (chars.drop 4).take 4 ++ '-' :: (chars.drop 8).take 4

def codeChars (bytes : List UInt8) : List Char :=
  bytes.map fun b => crockfordAlphabet.getD (b.toNat % 32) '0'

theorem generateEnrollCode_eq (bytes : List UInt8) :
    generateEnrollCode bytes = String.ofList (grouped (codeChars bytes)) := rfl

theorem mem_codeChars {bytes : List UInt8} {c : Char} (h : c ∈ codeChars bytes) :
    c ∈ crockfordAlphabet := by
  obtain ⟨b, -, rfl⟩ := List.mem_map.1 h
  have hlt : b.toNat % 32 < crockfordAlphabet.length := Nat.mod_lt _ (by decide)
  rw [← List.getElem_eq_getD (h := hlt)]
  exact List.getElem_mem hlt

/-- What a code needs of its characters. -/
structure CodeChar (c : Char) : Prop where
  hyphen : c ≠ '-'
  blank : c ≠ ' '
  underscore : c ≠ '_'
  space : isSpace c = false
  ascii : c.toNat < 128
  upper : c.toUpper = c
  size : c.utf8Size = 1

theorem codeChar_of_mem {c : Char} (h : c ∈ 'W' :: 'M' :: crockfordAlphabet) : CodeChar c := by
  have hall : ('W' :: 'M' :: crockfordAlphabet).all (fun c => c ≠ '-' ∧ c ≠ ' ' ∧ c ≠ '_'
      ∧ isSpace c = false ∧ c.toNat < 128 ∧ c.toUpper = c ∧ c.utf8Size = 1) = true := by
    decide +kernel
  obtain ⟨h₁, h₂, h₃, h₄, h₅, h₆, h₇⟩ := of_decide_eq_true (List.all_eq_true.1 hall c h)
  exact ⟨h₁, h₂, h₃, h₄, h₅, h₆, h₇⟩

section Code

variable {chars : List Char} (hlen : chars.length = 12) (hchars : ∀ c ∈ chars, c ∈ crockfordAlphabet)

include hchars in
theorem codeChar_word {c : Char} (h : c ∈ 'W' :: 'M' :: chars) : CodeChar c := by
  refine codeChar_of_mem ?_
  simp only [List.mem_cons] at h ⊢
  exact h.imp_right fun h => h.imp_right (hchars c)

include hlen in
theorem grouped_length : (grouped chars).length = 17 := by
  simp only [grouped, List.length_append, List.length_cons, List.length_take, List.length_drop, hlen]
  decide

include hlen in
theorem take_groups : chars.take 4 ++ (chars.drop 4).take 4 ++ (chars.drop 8).take 4 = chars := by
  have hrest : (chars.drop 8).take 4 = chars.drop 8 := List.take_of_length_le (by simp [hlen])
  have hdrop : (chars.drop 4).drop 4 = chars.drop 8 := List.drop_drop
  rw [hrest, List.append_assoc, ← hdrop, List.take_append_drop, List.take_append_drop]

include hlen hchars in
theorem bare_grouped : bare (String.ofList (grouped chars)) = 'W' :: 'M' :: chars := by
  have hkeep : ∀ l : List Char, (∀ c ∈ l, c ∈ chars) → l.filter (fun c => decide (c ≠ '-')) = l :=
    fun l hl => List.filter_eq_self.2 fun c hc => decide_eq_true
      (codeChar_word hchars (List.mem_cons_of_mem _ (List.mem_cons_of_mem _ (hl c hc)))).hyphen
  have h₁ := hkeep (chars.take 4) fun c hc => List.mem_of_mem_take hc
  have h₂ := hkeep ((chars.drop 4).take 4) fun c hc => List.mem_of_mem_drop (List.mem_of_mem_take hc)
  have h₃ := hkeep ((chars.drop 8).take 4) fun c hc => List.mem_of_mem_drop (List.mem_of_mem_take hc)
  have hw : "WM-".toList.filter (fun c => decide (c ≠ '-')) = ['W', 'M'] := by decide
  have hdash : ∀ l : List Char, ('-' :: l).filter (fun c => decide (c ≠ '-'))
      = l.filter fun c => decide (c ≠ '-') := fun l => List.filter_cons_of_neg (by simp)
  rw [bare, String.toList_ofList, grouped]
  rw [List.filter_append, List.filter_append, List.filter_append, hdash, hdash, hw, h₁, h₂, h₃]
  rw [List.append_assoc, List.append_assoc, ← List.append_assoc (chars.take 4), take_groups hlen]
  rfl

include hchars in
theorem grouped_not_space {c : Char} (h : c ∈ grouped chars) : isSpace c = false := by
  have hin : ∀ {l : List Char}, (∀ c ∈ l, c ∈ chars) → c ∈ l → isSpace c = false :=
    fun hl hc => (codeChar_word hchars (List.mem_cons_of_mem _ (List.mem_cons_of_mem _ (hl c hc)))).space
  have hdash : isSpace '-' = false := by decide
  have hw : "WM-".toList.all (fun c => !isSpace c) = true := by decide +kernel
  simp only [grouped, List.mem_append, List.mem_cons] at h
  rcases h with (((h | h) | rfl | h) | rfl | h)
  · simpa using List.all_eq_true.1 hw c h
  · exact hin (fun c hc => List.mem_of_mem_take hc) h
  · exact hdash
  · exact hin (fun c hc => List.mem_of_mem_drop (List.mem_of_mem_take hc)) h
  · exact hdash
  · exact hin (fun c hc => List.mem_of_mem_drop (List.mem_of_mem_take hc)) h

end Code

/-! ## What was typed -/

section Typed

variable {K : KeyTexts} (hK : UpperCase K.upper) {chars : List Char} (hlen : chars.length = 12)
  (hchars : ∀ c ∈ chars, c ∈ crockfordAlphabet) {s : String} (hs : K.typed s = 'W' :: 'M' :: chars)

/-- The code that is looked for may be trimmed first. -/
theorem typed_trimmed (K : KeyTexts) (s : String) :
    K.typed s = (trimSpace (unfilled (trimSpace s.toList))).map K.upper := by
  obtain ⟨a, b, hab, ha, hb⟩ := trimSpace_split s.toList
  have hsub : ∀ {l : List Char}, (∀ c ∈ l, isSpace c = true) → ∀ c ∈ unfilled l, isSpace c = true :=
    fun hl c hc => hl c (List.mem_of_mem_filter hc)
  have hfill : unfilled s.toList = unfilled a ++ unfilled (trimSpace s.toList) ++ unfilled b := by
    rw [unfilled, hab, List.filter_append, List.filter_append, ← hab]
    rfl
  rw [KeyTexts.typed, hfill, trimSpace_pad _ (hsub ha) (hsub hb)]

include hK hchars hs in
theorem not_token : ¬ prefixEnroll.toList.isPrefixOf (trimSpace s.toList) = true := by
  intro hpre
  obtain ⟨rest, hrest⟩ := List.isPrefixOf_iff_prefix.1 hpre
  have hmem : '_' ∈ unfilled (trimSpace s.toList) := by
    refine List.mem_filter.2 ⟨?_, by decide⟩
    rw [← hrest]
    exact List.mem_append_left _ (by decide)
  have hword : K.upper '_' ∈ 'W' :: 'M' :: chars := by
    rw [← hs, typed_trimmed]
    exact List.mem_map_of_mem (mem_trimSpace hmem (by decide))
  rw [hK.ascii '_' (by decide)] at hword
  exact (codeChar_word hchars hword).underscore rfl

/-- The text that `NormalizeEnrollCode` looks for a code in. -/
def KeyTexts.cleaned (K : KeyTexts) (s : String) : List Char :=
  (unfilled (trimSpace s.toList)).map K.upper

include hK hchars hs in
theorem normalizeEnrollCode_cleaned : K.normalizeEnrollCode s
    = if ['W', 'M'].isPrefixOf (K.cleaned s) = true ∧ len (String.ofList (K.cleaned s)) = 14 then
        String.ofList (grouped ((K.cleaned s).drop 2))
      else String.ofList (K.cleaned s) := by
  unfold KeyTexts.normalizeEnrollCode
  rw [if_neg (not_token hK hchars hs)]
  simp only [grouped, List.drop_drop]
  rfl

include hK hlen hchars hs in
/-- A code with no white space in it but spaces is recognised. -/
theorem normalizeEnrollCode_of_plain
    (hplain : ∀ c ∈ trimSpace s.toList, isSpace c = true → c = ' ') :
    K.normalizeEnrollCode s = String.ofList (grouped chars) := by
  have hnone : ∀ c ∈ unfilled (trimSpace s.toList), isSpace c = false := by
    intro c hc
    obtain ⟨hc, hfill⟩ := List.mem_filter.1 hc
    by_contra hspace
    exact (of_decide_eq_true hfill).2 (hplain c hc (by simpa using hspace))
  have hclean : K.cleaned s = 'W' :: 'M' :: chars := by
    rw [← hs, typed_trimmed, trimSpace_of_forall hnone, KeyTexts.cleaned]
  have hsize : len (String.ofList ('W' :: 'M' :: chars)) = 14 := by
    have hone : ∀ c ∈ 'W' :: 'M' :: chars, c.utf8Size = 1 := fun c hc => (codeChar_word hchars hc).size
    rw [len, String.toList_ofList, List.map_congr_left hone, List.map_const', List.sum_replicate]
    simp [hlen]
  rw [normalizeEnrollCode_cleaned hK hchars hs, hclean, if_pos ⟨by simp, hsize⟩]
  rfl

include hK hlen hchars hs in
/-- Other white space is left at an end, and what is hashed then is not grouped. -/
theorem cleaned_of_space {c : Char} (hc : c ∈ trimSpace s.toList) (hspace : isSpace c = true)
    (hne : c ≠ ' ') : K.normalizeEnrollCode s = String.ofList (K.cleaned s)
      ∧ trimSpace (K.cleaned s) = 'W' :: 'M' :: chars := by
  have hhyphen : c ≠ '-' := by
    rintro rfl
    exact absurd hspace (by decide)
  obtain ⟨a, b, hab, ha, hb⟩ := trimSpace_split (unfilled (trimSpace s.toList))
  have hword : (trimSpace (unfilled (trimSpace s.toList))).map K.upper = 'W' :: 'M' :: chars := by
    rw [← typed_trimmed, hs]
  have hsame : ∀ {l : List Char}, (∀ c ∈ l, isSpace c = true) → l.map K.upper = l := fun hl =>
    (List.map_congr_left fun c hc => hK.space c (hl c hc)).trans (List.map_id _)
  have hclean : K.cleaned s = a ++ ('W' :: 'M' :: chars) ++ b := by
    rw [KeyTexts.cleaned, hab, List.map_append, List.map_append, hword, hsame ha, hsame hb]
  have hout : c ∈ a ∨ c ∈ b := by
    have hmem : c ∈ unfilled (trimSpace s.toList) :=
      List.mem_filter.2 ⟨hc, decide_eq_true ⟨hhyphen, hne⟩⟩
    rw [hab] at hmem
    rcases List.mem_append.1 hmem with hmem | hmem
    · refine (List.mem_append.1 hmem).imp_right fun hmem => ?_
      have hcode : K.upper c ∈ 'W' :: 'M' :: chars := hword ▸ List.mem_map_of_mem hmem
      rw [hK.space c hspace] at hcode
      exact absurd hspace (by simp [(codeChar_word hchars hcode).space])
    · exact .inr hmem
  have hlong : 14 < len (String.ofList (K.cleaned s)) := by
    have hbytes : (K.cleaned s).length ≤ len (String.ofList (K.cleaned s)) := by
      rw [len, String.toList_ofList, ← List.length_map (f := Char.utf8Size)]
      exact List.length_le_sum_of_one_le _ fun n hn => by
        obtain ⟨c, -, rfl⟩ := List.mem_map.1 hn
        exact c.utf8Size_pos
    have hpos : 0 < a.length + b.length := by
      rcases hout with h | h
      · exact Nat.add_pos_left (List.length_pos_of_mem h) _
      · exact Nat.add_pos_right _ (List.length_pos_of_mem h)
    rw [hclean] at hbytes ⊢
    simp only [List.length_append, List.length_cons, hlen] at hbytes
    omega
  refine ⟨?_, ?_⟩
  · rw [normalizeEnrollCode_cleaned hK hchars hs, if_neg fun h => by omega]
  · rw [hclean, trimSpace_pad _ ha hb]
    exact trimSpace_of_forall fun c hc => (codeChar_word hchars hc).space

end Typed

theorem encodeText_injective : Function.Injective encodeText := fun a b h => by
  have := congrArg decodeText h
  simpa using this

section Generated

variable {K : KeyTexts} (hK : UpperCase K.upper) {bytes : List UInt8} (hlen : bytes.length = 12)

include hK hlen in
/-- A printed code is one way of typing it. -/
theorem normalizeEnrollCode_generated :
    K.normalizeEnrollCode (generateEnrollCode bytes) = generateEnrollCode bytes := by
  have hlen' : (codeChars bytes).length = 12 := by simpa [codeChars] using hlen
  have hchars : ∀ c ∈ codeChars bytes, c ∈ crockfordAlphabet := fun c => mem_codeChars
  have hnone : ∀ c ∈ grouped (codeChars bytes), isSpace c = false := fun c hc =>
    grouped_not_space hchars hc
  have hfill : unfilled (grouped (codeChars bytes)) = bare (generateEnrollCode bytes) := by
    rw [bare, generateEnrollCode_eq, String.toList_ofList, unfilled]
    refine List.filter_congr fun c hc => ?_
    have hblank : c ≠ ' ' := by
      rintro rfl
      exact absurd (hnone ' ' hc) (by decide)
    simp [hblank]
  have hbare := bare_grouped hlen' hchars
  have hword : K.typed (generateEnrollCode bytes) = 'W' :: 'M' :: codeChars bytes := by
    rw [KeyTexts.typed, generateEnrollCode_eq, String.toList_ofList, hfill, generateEnrollCode_eq, hbare,
      trimSpace_of_forall fun c hc => (codeChar_word hchars hc).space]
    refine (List.map_congr_left fun c hc => ?_).trans (List.map_id _)
    exact (hK.ascii c (codeChar_word hchars hc).ascii).trans (codeChar_word hchars hc).upper
  refine normalizeEnrollCode_of_plain hK hlen' hchars hword fun c hc hspace => ?_
  rw [generateEnrollCode_eq, String.toList_ofList, trimSpace_of_forall hnone] at hc
  exact absurd hspace (by simp [hnone c hc])

include hK hlen in
theorem hashedBytes_generated :
    K.hashedBytes (generateEnrollCode bytes) = encodeText (generateEnrollCode bytes).toList := by
  rw [KeyTexts.hashedBytes, normalizeEnrollCode_generated hK hlen, generateEnrollCode_eq,
    String.toList_ofList, trimSpace_of_forall fun c hc => grouped_not_space (fun _ => mem_codeChars) hc]

end Generated

/-- A typed code is recognised, and hashed like the code, exactly if what is left of it between its ends
has no white space but spaces; the hashes of different codes are of different bytes. -/
theorem normalizeEnrollCode_typed_iff (K : KeyTexts) (hK : UpperCase K.upper) (bytes : List UInt8)
    (hlen : bytes.length = 12) (s : String) (hs : K.typed s = bare (generateEnrollCode bytes)) :
    ((K.normalizeEnrollCode s = generateEnrollCode bytes
        ∧ K.hashedBytes s = K.hashedBytes (generateEnrollCode bytes))
      ↔ ∀ c ∈ trimSpace s.toList, isSpace c = true → c = ' ')
    ∧ ∀ others : List UInt8, others.length = 12 →
      generateEnrollCode others ≠ generateEnrollCode bytes →
      K.hashedBytes (generateEnrollCode others) ≠ K.hashedBytes (generateEnrollCode bytes) := by
  have hlen' : (codeChars bytes).length = 12 := by simpa [codeChars] using hlen
  have hchars : ∀ c ∈ codeChars bytes, c ∈ crockfordAlphabet := fun c => mem_codeChars
  rw [generateEnrollCode_eq bytes, bare_grouped hlen' hchars] at hs
  refine ⟨⟨fun h c hc hspace => ?_, fun hplain => ?_⟩, fun others hothers hne heq => ?_⟩
  · by_contra hne
    obtain ⟨hnorm, htrim⟩ := cleaned_of_space hK hlen' hchars hs hc hspace hne
    have hbytes := h.2
    rw [hashedBytes_generated hK hlen, KeyTexts.hashedBytes, hnorm, String.toList_ofList, htrim,
      generateEnrollCode_eq, String.toList_ofList] at hbytes
    have hlong := congrArg List.length (encodeText_injective hbytes)
    rw [grouped_length hlen', List.length_cons, List.length_cons, hlen'] at hlong
    omega
  · have hnorm : K.normalizeEnrollCode s = generateEnrollCode bytes :=
      normalizeEnrollCode_of_plain hK hlen' hchars hs hplain
    refine ⟨hnorm, ?_⟩
    rw [KeyTexts.hashedBytes, KeyTexts.hashedBytes, hnorm, normalizeEnrollCode_generated hK hlen]
  · rw [hashedBytes_generated hK hlen, hashedBytes_generated hK hothers] at heq
    exact hne (String.toList_inj.1 (encodeText_injective heq))

/-- Upper case for ASCII texts. -/
def asciiTexts : KeyTexts := ⟨id, Char.toUpper, id⟩

theorem asciiTexts_upper : UpperCase asciiTexts.upper where
  ascii _ _ := rfl
  space c hc := by
    have hrange := isSpace_toNat hc
    change c.toUpper = c
    unfold Char.toUpper
    refine dif_neg fun h => ?_
    have hlow : 97 ≤ c.toNat ∧ c.toNat ≤ 122 := by simpa [UInt32.le_iff_toNat_le] using h
    omega

def sampleBytes : List UInt8 := [4, 15, 2, 19, 9, 23, 29, 7, 26, 24, 3, 1]

theorem normalizeEnrollCode_typed_lower :
    asciiTexts.normalizeEnrollCode " wm4f2k 9qx7-tr31\n" = generateEnrollCode sampleBytes :=
  ((normalizeEnrollCode_typed_iff asciiTexts asciiTexts_upper sampleBytes rfl
    " wm4f2k 9qx7-tr31\n" (by decide +kernel)).1.2 fun c hc hspace => by
      have hall : (trimSpace " wm4f2k 9qx7-tr31\n".toList).all
          (fun c => !isSpace c || c = ' ') = true := by decide +kernel
      simpa [hspace] using List.all_eq_true.1 hall c hc).1

/-- A code copied from a list, with a tab between the dash of its item and the code. -/
theorem normalizeEnrollCode_listed :
    asciiTexts.typed "-\tWM-4F2K-9QX7-TR31" = bare (generateEnrollCode sampleBytes)
      ∧ asciiTexts.normalizeEnrollCode "-\tWM-4F2K-9QX7-TR31" = "\tWM4F2K9QX7TR31"
      ∧ asciiTexts.normalizeEnrollCode "-\tWM-4F2K-9QX7-TR31" ≠ generateEnrollCode sampleBytes
      ∧ asciiTexts.hashedBytes "-\tWM-4F2K-9QX7-TR31"
        ≠ asciiTexts.hashedBytes (generateEnrollCode sampleBytes) := by
  decide +kernel

end WMonitor
