import Mathlib.Data.List.TakeWhile
import WMonitor.HubClient

/-!
# What is appended to a URL

A request goes to the hub's URL with a path appended, and for an enrollment the URL is taken as it was
given, with the slashes and spaces that the check of the URL leaves out. The request has the scheme
and the host that were checked (`parse_append`), or it cannot be sent.
-/

namespace WMonitor

namespace NetURL

theorem takeWhile_append_of_mem {α : Type*} [DecidableEq α] {a : α} {l x : List α} (h : a ∈ l) :
    (l ++ x).takeWhile (· ≠ a) = l.takeWhile (· ≠ a) := by
  induction l with
  | nil => cases h
  | cons b l ih =>
    by_cases hb : b = a
    · simp [hb]
    · rw [List.cons_append, List.takeWhile_cons_of_pos (by simpa using hb),
        List.takeWhile_cons_of_pos (by simpa using hb),
        ih ((List.mem_cons.mp h).resolve_left (Ne.symm hb))]

theorem takeWhile_append_of_not_mem {α : Type*} [DecidableEq α] {a : α} {l x : List α}
    (h : a ∉ l) : (l ++ x).takeWhile (· ≠ a) = l ++ x.takeWhile (· ≠ a) :=
  List.takeWhile_append_of_pos fun _ hb => decide_eq_true fun heq => h (heq ▸ hb)

theorem takeWhile_of_not_mem {α : Type*} [DecidableEq α] {a : α} {l : List α} (h : a ∉ l) :
    l.takeWhile (· ≠ a) = l := by
  simpa using takeWhile_append_of_not_mem (x := []) h

/-! ## Spaces -/

theorem char_le {a b : Char} : a ≤ b ↔ a.toNat ≤ b.toNat := by
  rw [Char.le_def, UInt32.le_iff_toNat_le]
  rfl

theorem schemeChar_toNat {c : Char} (h : schemeChar c = true) :
    0x2B ≤ c.toNat ∧ c.toNat ≤ 0x7A := by
  simp only [schemeChar, Bool.or_eq_true, Bool.and_eq_true, decide_eq_true_eq, char_le] at h
  rcases h with ((((h | h) | h) | rfl) | rfl) | rfl
  · exact ⟨(by decide : 0x2B ≤ 'a'.toNat).trans h.1, h.2⟩
  · exact ⟨(by decide : 0x2B ≤ 'A'.toNat).trans h.1, h.2.trans (by decide)⟩
  · have := digit_bounds h
    omega
  all_goals decide

theorem isHex_toNat {c : Char} (h : isHex c = true) : 0x30 ≤ c.toNat ∧ c.toNat ≤ 0x66 := by
  simp only [isHex, Bool.or_eq_true, Bool.and_eq_true, decide_eq_true_eq, char_le] at h
  rcases h with (h | h) | h
  · have := digit_bounds h
    omega
  · exact ⟨(by decide : 0x30 ≤ 'a'.toNat).trans h.1, h.2⟩
  · exact ⟨(by decide : 0x30 ≤ 'A'.toNat).trans h.1, h.2.trans (by decide)⟩

/-- A space has no meaning in a URL. -/
theorem ne_of_isSpace {c d : Char} (h : isSpace c = true) (hd : isSpace d = false) : c ≠ d := by
  rintro rfl
  rw [h] at hd
  cases hd

theorem isDigit_of_isSpace {c : Char} (h : isSpace c = true) : c.isDigit = false := by
  by_contra hd
  have := digit_bounds (Bool.not_eq_false _ ▸ hd)
  have := isSpace_toNat h
  omega

theorem isHex_of_isSpace {c : Char} (h : isSpace c = true) : isHex c = false := by
  by_contra hd
  have := isHex_toNat (Bool.not_eq_false _ ▸ hd)
  have := isSpace_toNat h
  omega

theorem schemeChar_of_isSpace {c : Char} (h : isSpace c = true) : schemeChar c = false := by
  by_contra hd
  have := schemeChar_toNat (Bool.not_eq_false _ ▸ hd)
  have := isSpace_toNat h
  omega

/-- A space of the host is one of what it is decoded to. -/
theorem mem_unescapeHost {c : Char} (hc : isSpace c = true) {pending : List UInt8}
    {cs out : List Char} (h : unescapeHost pending cs = some out) (hmem : c ∈ cs) : c ∈ out := by
  fun_induction unescapeHost pending cs generalizing out with
  | case1 => cases hmem
  | case2 pending a b cs hesc ih =>
    simp only [Bool.and_eq_true] at hesc
    refine ih h ?_
    simp only [List.mem_cons] at hmem
    rcases hmem with rfl | rfl | rfl | hmem
    · cases hc
    · rw [isHex_of_isSpace hc] at hesc
      cases hesc.1.1
    · rw [isHex_of_isSpace hc] at hesc
      cases hesc.1.2
    · exact hmem
  | case3 => cases h
  | case4 pending d cs _ hhost ih =>
    obtain ⟨rest, hrest, rfl⟩ := Option.map_eq_some_iff.mp h
    rcases List.mem_cons.mp hmem with rfl | hmem
    · simp
    · simp [ih hrest hmem]
  | case5 => cases h

/-! ## The host -/

section Host

variable {ipLiteral : List Char → Option (List Char)} {sp : List Char}

theorem dropWhile_append_of_mem {α : Type*} [DecidableEq α] {a : α} {l x : List α} (h : a ∈ l) :
    (l ++ x).dropWhile (· ≠ a) = l.dropWhile (· ≠ a) ++ x := by
  induction l with
  | nil => cases h
  | cons b l ih =>
    by_cases hb : b = a
    · simp [hb]
    · rw [List.cons_append, List.dropWhile_cons_of_pos (by simpa using hb),
        List.dropWhile_cons_of_pos (by simpa using hb),
        ih ((List.mem_cons.mp h).resolve_left (Ne.symm hb))]

theorem cut_append_left {c : Char} {x t : List Char} (hx : c ∉ x) :
    cut c (x ++ t) = (cut c t).map fun p => (x ++ p.1, p.2) := by
  induction x with
  | nil => simp
  | cons d x ih =>
    have hd : d ≠ c := fun h => hx (h ▸ List.mem_cons_self)
    have ih := ih fun h => hx (List.mem_cons_of_mem _ h)
    unfold cut at ih ⊢
    rw [List.cons_append, List.dropWhile_cons_of_pos (by simpa using hd),
      List.takeWhile_cons_of_pos (by simpa using hd)]
    rcases hdrop : (x ++ t).dropWhile (· ≠ c) with _ | ⟨y, after⟩ <;> rw [hdrop] at ih <;>
      rcases htdrop : t.dropWhile (· ≠ c) with _ | ⟨z, after'⟩ <;> rw [htdrop] at ih <;>
      simp_all

theorem splitLast_append {c : Char} {t : List Char} (hsp : c ∉ sp) :
    splitLast c (t ++ sp) = (splitLast c t).map fun p => (p.1, p.2 ++ sp) := by
  unfold splitLast
  rw [List.reverse_append, cut_append_left (by simpa using hsp)]
  rcases cut c t.reverse with _ | ⟨a, b⟩ <;> simp

/-- Behind a port there is nothing. -/
theorem validOptionalPort_append {port : List Char} (hsp : ∀ c ∈ sp, isSpace c = true)
    (hne : sp ≠ []) : validOptionalPort (port ++ sp) = false := by
  obtain ⟨c, sp, rfl⟩ := List.exists_cons_of_ne_nil hne
  have hc := hsp c (by simp)
  cases port with
  | nil =>
    have hcolon : c ≠ ':' := ne_of_isSpace hc rfl
    simp [validOptionalPort, hcolon]
  | cons d port =>
    simp [validOptionalPort, isDigit_of_isSpace hc]

theorem parseHost_append {host out : List Char} (hsp : ∀ c ∈ sp, isSpace c = true)
    (hne : sp ≠ []) (h : parseHost ipLiteral (host ++ sp) = some out) : ∃ c ∈ sp, c ∈ out := by
  obtain ⟨c, hc⟩ := List.exists_mem_of_ne_nil sp hne
  have hbracket : ']' ∉ sp := fun hmem => by cases hsp _ hmem
  unfold parseHost at h
  split at h
  · next rest heq =>
    obtain ⟨rest', rfl, rfl⟩ : ∃ rest', host = '[' :: rest' ∧ rest = rest' ++ sp := by
      cases host with
      | nil =>
        rw [List.nil_append] at heq
        have := hsp '[' (heq ▸ List.mem_cons_self)
        cases this
      | cons d host =>
        rw [List.cons_append, List.cons.injEq] at heq
        exact ⟨host, by rw [heq.1], heq.2.symm⟩
    rw [splitLast_append hbracket] at h
    rcases hsplit : splitLast ']' rest' with _ | ⟨literal, port⟩ <;> rw [hsplit] at h
    · cases h
    · simp [validOptionalPort_append hsp hne] at h
  · split_ifs at h with hopen hport
    by_cases hcolon : ':' ∈ host
    · rw [dropWhile_append_of_mem hcolon, validOptionalPort_append hsp hne] at hport
      cases hport
    · exact ⟨c, hc, mem_unescapeHost (hsp c hc) h (List.mem_append_right _ hc)⟩

theorem parseAuthority_append {authority out : List Char} (hsp : ∀ c ∈ sp, isSpace c = true)
    (hne : sp ≠ []) (h : parseAuthority ipLiteral (authority ++ sp) = some out) :
    ∃ c ∈ sp, c ∈ out := by
  have hat : '@' ∉ sp := fun hmem => by cases hsp _ hmem
  unfold parseAuthority at h
  rw [splitLast_append hat] at h
  rcases hsplit : splitLast '@' authority with _ | ⟨userinfo, host⟩ <;> rw [hsplit] at h
  · exact parseHost_append hsp hne h
  · simp only [Option.map_some] at h
    split_ifs at h
    exact parseHost_append hsp hne h

end Host

/-! ## The whole URL -/

theorem takeWhile_before {α : Type*} [DecidableEq α] (a : α) (w p : List α) :
    (w ++ a :: p).takeWhile (· ≠ a) = w.takeWhile (· ≠ a) := by
  by_cases h : a ∈ w
  · exact takeWhile_append_of_mem h
  · rw [takeWhile_append_of_not_mem h, takeWhile_of_not_mem h]
    simp

/-- A scheme ends at its colon, whatever follows. -/
theorem getScheme_append {t scheme rest : List Char} (h : getScheme t = some (scheme, rest))
    (hne : scheme ≠ []) (x : List Char) : getScheme (t ++ x) = some (scheme, rest ++ x) := by
  unfold getScheme at h
  split at h
  · cases h
  · next c cs rest' htake hdrop =>
    split_ifs at h with hfirst
    · exact absurd (congrArg Prod.fst (Option.some.inj h)).symm hne
    · cases h
      have hall : ∀ d ∈ c :: cs, schemeChar d = true := by
        rw [← htake]
        exact fun d hd => List.mem_takeWhile_imp hd
      have ht : t ++ x = (c :: cs) ++ ':' :: (rest ++ x) := by
        rw [← List.takeWhile_append_dropWhile (p := schemeChar) (l := t), htake, hdrop,
          List.append_assoc]
        rfl
      have htake' : (t ++ x).takeWhile schemeChar = c :: cs := by
        rw [ht, List.takeWhile_append_of_pos hall]
        simp [schemeChar]
      have hdrop' : (t ++ x).dropWhile schemeChar = ':' :: (rest ++ x) := by
        rw [ht, List.dropWhile_append_of_pos hall]
        simp [schemeChar]
      unfold getScheme
      rw [htake', hdrop']
      exact if_neg hfirst
  · exact absurd (congrArg Prod.fst (Option.some.inj h)).symm hne

section Parse

variable {ipLiteral : List Char → Option (List Char)}

theorem parse_some {raw : List Char} {u : ParsedURL} (h : parse ipLiteral raw = some u) :
    ∃ scheme rest host path, getScheme (raw.takeWhile (· ≠ '#')) = some (scheme, rest)
      ∧ parseRest ipLiteral scheme (rest.takeWhile (· ≠ '?')) = some (host, path)
      ∧ u = ⟨String.ofList (scheme.map Char.toLower), String.ofList host⟩ := by
  unfold parse at h
  dsimp only at h
  split_ifs at h
  obtain ⟨⟨scheme, rest⟩, hscheme, h⟩ := Option.bind_eq_some_iff.mp h
  obtain ⟨⟨host, path⟩, hhost, h⟩ := Option.bind_eq_some_iff.mp h
  dsimp only at h
  split_ifs at h
  exact ⟨scheme, rest, host, path, hscheme, hhost, (Option.some.inj h).symm⟩

/-- A host stands behind two slashes. -/
theorem parseRest_some {scheme rest host path : List Char}
    (h : parseRest ipLiteral scheme rest = some (host, path)) (hne : host ≠ []) :
    ∃ after, rest = '/' :: '/' :: after
      ∧ parseAuthority ipLiteral (after.takeWhile (· ≠ '/')) = some host := by
  unfold parseRest at h
  split at h
  · next after =>
    split_ifs at h
    · exact absurd (congrArg Prod.fst (Option.some.inj h)).symm hne
    · obtain ⟨host', hhost, heq⟩ := Option.map_eq_some_iff.mp h
      cases heq
      exact ⟨after, rfl, hhost⟩
  · exact absurd (congrArg Prod.fst (Option.some.inj h)).symm hne
  · split_ifs at h <;> exact absurd (congrArg Prod.fst (Option.some.inj h)).symm hne

theorem parseRest_slashes {scheme after host path : List Char} (hne : scheme ≠ [])
    (h : parseRest ipLiteral scheme ('/' :: '/' :: after) = some (host, path)) :
    parseAuthority ipLiteral (after.takeWhile (· ≠ '/')) = some host := by
  have hscheme : ¬ (scheme = [] ∧ after.head? = some '/') := fun hs => hne hs.1
  simp only [parseRest, if_neg hscheme] at h
  obtain ⟨host', hhost, heq⟩ := Option.map_eq_some_iff.mp h
  cases heq
  exact hhost

/-- A text with slashes and spaces and a path behind it. -/
theorem takeWhile_behind {a : Char} {w : List Char} (hw : ∀ x ∈ w, isSpace x = true ∨ x = '/')
    (ha : isSpace a = false) (hslash : a ≠ '/') (p : List Char) :
    (w ++ '/' :: p).takeWhile (· ≠ a) = w ++ '/' :: p.takeWhile (· ≠ a) := by
  have hmem : a ∉ w := fun h => (hw a h).elim (fun hs => by rw [ha] at hs; cases hs) hslash
  rw [takeWhile_append_of_not_mem hmem, List.takeWhile_cons_of_pos (by simpa using Ne.symm hslash)]

/-- The request has the scheme of the URL that was checked, and its host. -/
theorem parse_append {c w p : List Char} {u r : ParsedURL} (hu : parse ipLiteral c = some u)
    (hscheme : u.scheme ≠ "") (hw : ∀ x ∈ w, isSpace x = true ∨ x = '/')
    (hr : parse ipLiteral (c ++ (w ++ '/' :: p)) = some r) (hsend : r.sendable = true) :
    r.scheme = u.scheme ∧ (u.host ≠ "" → r.host = u.host) := by
  obtain ⟨scheme, rest, host, path, hget, hrest, rfl⟩ := parse_some hu
  obtain ⟨scheme', rest', host', path', hget', hrest', rfl⟩ := parse_some hr
  have hne : scheme ≠ [] := by
    rintro rfl
    exact hscheme rfl
  by_cases hhash : '#' ∈ c
  · rw [takeWhile_append_of_mem hhash, hget] at hget'
    cases hget'
    rw [hrest] at hrest'
    cases hrest'
    exact ⟨rfl, fun _ => rfl⟩
  rw [takeWhile_append_of_not_mem hhash, takeWhile_behind hw rfl (by decide)] at hget'
  rw [takeWhile_of_not_mem hhash] at hget
  rw [getScheme_append hget hne] at hget'
  cases hget'
  refine ⟨rfl, fun hhost => ?_⟩
  have hhost : host ≠ [] := by
    rintro rfl
    exact hhost rfl
  by_cases hquery : '?' ∈ rest
  · rw [takeWhile_append_of_mem hquery, hrest] at hrest'
    cases hrest'
    rfl
  rw [takeWhile_append_of_not_mem hquery, takeWhile_behind hw rfl (by decide)] at hrest'
  rw [takeWhile_of_not_mem hquery] at hrest
  obtain ⟨after, rfl, hauth⟩ := parseRest_some hrest hhost
  rw [List.cons_append, List.cons_append] at hrest'
  have hauth' := parseRest_slashes hne hrest'
  by_cases hslash : '/' ∈ after
  · rw [takeWhile_append_of_mem hslash, hauth] at hauth'
    cases hauth'
    rfl
  rw [takeWhile_append_of_not_mem hslash, takeWhile_before] at hauth'
  rw [takeWhile_of_not_mem hslash] at hauth
  by_cases hsp : w.takeWhile (· ≠ '/') = []
  · rw [hsp, List.append_nil, hauth] at hauth'
    cases hauth'
    rfl
  -- spaces right behind the host become part of it
  have hspace : ∀ x ∈ w.takeWhile (· ≠ '/'), isSpace x = true := by
    intro x hx
    refine (hw x ((List.takeWhile_sublist _).subset hx)).resolve_right ?_
    simpa using List.mem_takeWhile_imp hx
  obtain ⟨x, hx, hmem⟩ := parseAuthority_append hspace hsp hauth'
  simp only [ParsedURL.sendable, Bool.and_eq_true, List.all_eq_true] at hsend
  have hfree := hsend.2 x (by simpa using hmem)
  rw [hspace x hx] at hfree
  cases hfree

/-- A URL that begins with a space has no scheme. -/
theorem parse_of_space {c : Char} {cs : List Char} {r : ParsedURL} (hc : isSpace c = true)
    (hr : parse ipLiteral (c :: cs) = some r) : r.scheme = "" := by
  obtain ⟨scheme, rest, host, path, hget, -, rfl⟩ := parse_some hr
  have hhash : c ≠ '#' := ne_of_isSpace hc rfl
  have hcolon : c ≠ ':' := ne_of_isSpace hc rfl
  rw [List.takeWhile_cons_of_pos (by simpa using hhash)] at hget
  unfold getScheme at hget
  rw [List.takeWhile_cons_of_neg (by simp [schemeChar_of_isSpace hc]),
    List.dropWhile_cons_of_neg (by simp [schemeChar_of_isSpace hc])] at hget
  split at hget
  · cases hget
  · next heq _ => cases heq
  · cases hget
    rfl

end Parse

/-! ## The configured URL -/

/-- What `CanonicalHubURL` leaves out: spaces around the URL, and slashes behind it. -/
theorem canonicalHubURL_parts (raw : String) :
    ∃ lead w, raw.toList = lead ++ (canonicalHubURL raw).toList ++ w
      ∧ (∀ x ∈ lead, isSpace x = true) ∧ ∀ x ∈ w, isSpace x = true ∨ x = '/' := by
  obtain ⟨lead, spaces, hraw, hlead, hspaces⟩ := trimSpace_split raw.toList
  obtain ⟨slashes, hslashes, hl⟩ := trimRight_split (fun c => c = '/') (trimSpace raw.toList)
  refine ⟨lead, slashes ++ spaces, ?_, hlead, fun x hx => ?_⟩
  · have hcanon : (canonicalHubURL raw).toList ++ slashes = trimSpace raw.toList := by
      rw [canonicalHubURL, String.toList_ofList, ← hslashes]
    rw [List.append_assoc, ← List.append_assoc _ slashes, hcanon, ← List.append_assoc, ← hraw]
  · rcases List.mem_append.mp hx with hx | hx
    · exact .inr (of_decide_eq_true (hl x hx))
    · exact .inl (hspaces x hx)

end NetURL

end WMonitor
