import WMonitor.Sessions

/-!
# The session store keeps its bounds

`put` has three outcomes (`put_cases`): the store is full of other credentials' sessions and nothing
is stored, there is room, or the credential has its five sessions and the oldest of them makes room.
In the last case the store cannot be full, because it held at most `maxSessions` before.
-/

namespace WMonitor

open RangeMap

namespace SessionStore

variable {st : SessionStore} {now : ℤ} {credHash : String} {e : Entry String SessionEntry}

def expired (now : ℤ) (e : Entry String SessionEntry) : Bool := ¬ now < e.2.expires

theorem not_expired (now : ℤ) (e : Entry String SessionEntry) :
    (!expired now e) = decide (now < e.2.expires) := by
  rw [expired, decide_not, Bool.not_not]

/-- `oldest` and `expiry` name a session of the credential with the earliest expiry among `seen`, or
there is none. -/
def IsOldest (now : ℤ) (credHash : String) (seen : List (Entry String SessionEntry))
    (oldest : String) (expiry : ℤ) : Prop :=
  (oldest = "" ∧ ∀ e ∈ seen, mine now credHash e = false)
    ∨ ∃ e ∈ seen, mine now credHash e = true ∧ oldest = e.1 ∧ expiry = e.2.expires
      ∧ ∀ e' ∈ seen, mine now credHash e' = true → e.2.expires ≤ e'.2.expires

/-- What the loop of `put` knows after the entries `seen`. -/
structure Scanned (m : Map String SessionEntry) (now : ℤ) (credHash : String)
    (seen : List (Entry String SessionEntry)) (s : Scan) : Prop where
  map : s.m = ranged (expired now) seen m
  count : s.count = seen.countP (mine now credHash)
  oldest : IsOldest now credHash seen s.oldest s.oldestExpiry

section Scan

variable {m : Map String SessionEntry} {seen : List (Entry String SessionEntry)} {s : Scan}
  {oldest : String} {expiry : ℤ}

theorem ranged_snoc (p : Entry String SessionEntry → Bool) :
    ranged p (seen ++ [e]) m
      = if p e then (ranged p seen m).erase e.1 else ranged p seen m := by
  simp [ranged, List.foldl_append]

theorem IsOldest.skip (h : IsOldest now credHash seen oldest expiry)
    (hmine : mine now credHash e = false) :
    IsOldest now credHash (seen ++ [e]) oldest expiry := by
  rcases h with ⟨hempty, hnone⟩ | ⟨o, ho, homine, hid, hexp, hle⟩
  · refine .inl ⟨hempty, fun e' he' => ?_⟩
    rcases List.mem_append.mp he' with he' | he'
    · exact hnone e' he'
    · rwa [List.mem_singleton.mp he']
  · refine .inr ⟨o, List.mem_append_left _ ho, homine, hid, hexp, fun e' he' hmine' => ?_⟩
    rcases List.mem_append.mp he' with he' | he'
    · exact hle e' he' hmine'
    · rw [List.mem_singleton.mp he', hmine] at hmine'
      cases hmine'

/-- The entry visited becomes the oldest when there is none yet or it expires earlier. -/
theorem IsOldest.visit_new (h : IsOldest now credHash seen oldest expiry)
    (hmine : mine now credHash e = true) (hids : ∀ o ∈ seen, o.1 ≠ "")
    (hnew : oldest = "" ∨ e.2.expires < expiry) :
    IsOldest now credHash (seen ++ [e]) e.1 e.2.expires := by
  refine .inr ⟨e, by simp, hmine, rfl, rfl, fun e' he' hmine' => ?_⟩
  rcases List.mem_append.mp he' with he' | he'
  · rcases h with ⟨-, hnone⟩ | ⟨o, ho, -, hid, hexp, hle⟩
    · rw [hnone e' he'] at hmine'
      cases hmine'
    · rcases hnew with hempty | hlt
      · exact absurd (hid ▸ hempty) (hids o ho)
      · exact (hexp ▸ hlt).le.trans (hle e' he' hmine')
  · rw [List.mem_singleton.mp he']

theorem IsOldest.visit_old (h : IsOldest now credHash seen oldest expiry)
    (hold : ¬ (oldest = "" ∨ e.2.expires < expiry)) :
    IsOldest now credHash (seen ++ [e]) oldest expiry := by
  push Not at hold
  rcases h with ⟨hempty, -⟩ | ⟨o, ho, homine, hid, hexp, hle⟩
  · exact absurd hempty hold.1
  · refine .inr ⟨o, List.mem_append_left _ ho, homine, hid, hexp, fun e' he' hmine' => ?_⟩
    rcases List.mem_append.mp he' with he' | he'
    · exact hle e' he' hmine'
    · rw [List.mem_singleton.mp he', ← hexp]
      exact hold.2

theorem Scanned.step (h : Scanned m now credHash seen s) (hids : ∀ o ∈ seen, o.1 ≠ "") :
    Scanned m now credHash (seen ++ [e]) (scanStep now credHash s e) := by
  unfold scanStep
  by_cases hlive : now < e.2.expires
  · rw [if_neg (not_not.mpr hlive)]
    have hmap : s.m = ranged (expired now) (seen ++ [e]) m := by
      rw [ranged_snoc, if_neg (by simpa [expired] using hlive), h.map]
    by_cases hcred : e.2.credHash = credHash
    · have hmine : mine now credHash e = true := by simp [mine, hlive, hcred]
      have hcount : s.count + 1 = (seen ++ [e]).countP (mine now credHash) := by
        simp [List.countP_append, hmine, h.count]
      rw [if_pos hcred]
      by_cases hnew : s.oldest = "" ∨ e.2.expires < s.oldestExpiry
      · rw [if_pos hnew]
        exact ⟨hmap, hcount, h.oldest.visit_new hmine hids hnew⟩
      · rw [if_neg hnew]
        exact ⟨hmap, hcount, h.oldest.visit_old hnew⟩
    · have hmine : mine now credHash e = false := by simp [mine, hcred]
      rw [if_neg hcred]
      exact ⟨hmap, by simp [List.countP_append, hmine, h.count], h.oldest.skip hmine⟩
  · have hmine : mine now credHash e = false := by simp [mine, hlive]
    rw [if_pos hlive]
    refine ⟨?_, by simp [List.countP_append, hmine, h.count], h.oldest.skip hmine⟩
    rw [ranged_snoc, if_pos (by simpa [expired] using hlive), h.map]

theorem Scanned.run (h : Scanned m now credHash seen s) (order : List (Entry String SessionEntry))
    (hids : ∀ o ∈ seen ++ order, o.1 ≠ "") :
    Scanned m now credHash (seen ++ order) (order.foldl (scanStep now credHash) s) := by
  induction order generalizing seen s with
  | nil => rwa [List.append_nil]
  | cons e order ih =>
    rw [List.append_cons] at hids ⊢
    exact ih (h.step fun o ho => hids o (by simp [ho])) hids

end Scan

/-- The bounds that every call keeps; no session has the empty id, which the loop of `put` uses for
"none yet". -/
structure Inv (st : SessionStore) : Prop where
  size_le : size st.m ≤ maxSessions
  held_le : ∀ credHash, st.held credHash ≤ maxCredentialSessions
  named : ∀ e ∈ st.m.entries, e.1 ≠ ""

/-- The sessions that are left of these at a time. -/
def unexpired (now : ℤ) (st : SessionStore) : List (Entry String SessionEntry) :=
  st.m.entries.filter fun e => now < e.2.expires

/-- The outcomes of `put`. -/
inductive PutCases (st : SessionStore) (now : ℤ) (id : String) (ent : SessionEntry) :
    Bool × SessionStore → Prop
  | full (m : Map String SessionEntry) (hfew : st.live now ent.credHash < maxCredentialSessions)
      (hm : m.entries = unexpired now st) : PutCases st now id ent (false, ⟨m⟩)
  | room (m : Map String SessionEntry) (hfew : st.live now ent.credHash < maxCredentialSessions)
      (hroom : size m < maxSessions) (hm : m.entries = unexpired now st) :
      PutCases st now id ent (true, ⟨m.insert id ent⟩)
  | replace (m : Map String SessionEntry) (victim : Entry String SessionEntry)
      (hmem : victim ∈ st.m.entries) (hmine : mine now ent.credHash victim = true)
      (holdest : ∀ e ∈ st.m.entries, mine now ent.credHash e = true →
        victim.2.expires ≤ e.2.expires)
      (hroom : size m < maxSessions)
      (hm : m.entries = (unexpired now st).filter fun e => decide (e.1 ≠ victim.1)) :
      PutCases st now id ent (true, ⟨m.insert id ent⟩)

variable {order : List (Entry String SessionEntry)} {id : String} {ent : SessionEntry}

theorem put_cases (h : st.Inv) (horder : order.Perm st.m.entries) :
    PutCases st now id ent (st.put order now id ent) := by
  have hids : ∀ o ∈ order, o.1 ≠ "" := fun o ho => h.named o (horder.mem_iff.mp ho)
  have hstart : Scanned st.m now ent.credHash [] ⟨st.m, "", zeroTime, 0⟩ :=
    ⟨rfl, rfl, .inl ⟨rfl, by simp⟩⟩
  have hscan := hstart.run order hids
  rw [List.nil_append] at hscan
  set s := order.foldl (scanStep now ent.credHash) ⟨st.m, "", zeroTime, 0⟩ with hs
  have hm : s.m.entries = unexpired now st := by
    rw [hscan.map, ranged_entries horder]
    exact List.filter_congr fun e _ => not_expired now e
  have hcount : s.count = st.live now ent.credHash := by
    rw [hscan.count]
    exact horder.countP_eq _
  have hsize : size s.m ≤ maxSessions := by
    rw [size, hm]
    exact (List.length_filter_le _ _).trans h.size_le
  simp only [put, ← hs, hcount]
  by_cases hfew : st.live now ent.credHash < maxCredentialSessions
  · rw [if_neg (not_le.mpr hfew)]
    split_ifs with hfull
    · exact .full s.m hfew hm
    · exact .room s.m hfew (not_le.mp hfull) hm
  · rw [if_pos (not_lt.mp hfew)]
    rcases hscan.oldest with ⟨-, hnone⟩ | ⟨o, ho, homine, hid, -, hle⟩
    · have hzero : st.live now ent.credHash = 0 := by
        rw [← hcount, hscan.count]
        exact List.countP_eq_zero.mpr fun e he => by simp [hnone e he]
      rw [hzero] at hfew
      exact absurd (by decide) hfew
    · have hoin : o ∈ s.m.entries := by
        rw [hm]
        have hlive : now < o.2.expires := by
          simp only [mine, Bool.decide_and, Bool.and_eq_true, decide_eq_true_eq] at homine
          exact homine.1
        exact List.mem_filter.mpr ⟨horder.mem_iff.mp ho, decide_eq_true hlive⟩
      have hroom : size (s.m.erase s.oldest) < maxSessions := by
        refine lt_of_lt_of_le ?_ hsize
        rw [size, erase_entries]
        exact List.length_filter_lt_length_iff_exists.mpr ⟨o, hoin, by simp [hid]⟩
      rw [if_neg (not_le.mpr hroom)]
      refine .replace _ o (horder.mem_iff.mp ho) homine
        (fun e he => hle e (horder.mem_iff.mpr he)) hroom ?_
      rw [erase_entries, hm, hid]

/-- What is left of a store keeps the bounds. -/
theorem Inv.sublist (h : st.Inv) {m : Map String SessionEntry}
    (hsub : m.entries.Sublist st.m.entries) : Inv ⟨m⟩ where
  size_le := hsub.length_le.trans h.size_le
  held_le := fun credHash => (hsub.countP_le).trans (h.held_le credHash)
  named := fun e he => h.named e (hsub.subset he)

theorem Inv.erase (h : st.Inv) (id : String) : Inv ⟨st.m.erase id⟩ := by
  refine h.sublist ?_
  rw [erase_entries]
  exact List.filter_sublist

theorem live_eq_countP_unexpired (st : SessionStore) (now : ℤ) (credHash : String) :
    st.live now credHash
      = (unexpired now st).countP fun e => decide (e.2.credHash = credHash) := by
  rw [unexpired, List.countP_filter]
  exact List.countP_congr fun e _ => by simp [mine, and_comm]

/-- A new session where there is room for it, of the store and of the credential. -/
theorem Inv.insert {m : Map String SessionEntry} (h : Inv ⟨m⟩) (hroom : size m < maxSessions)
    (hnew : id ∉ m) (hid : id ≠ "")
    (hheld : held ⟨m⟩ ent.credHash < maxCredentialSessions) : Inv ⟨m.insert id ent⟩ := by
  refine ⟨?_, fun credHash => ?_, fun e he => ?_⟩
  · rw [size, insert_entries ent hnew]
    exact hroom
  · rw [held, insert_entries ent hnew, List.countP_cons]
    by_cases hcred : ent.credHash = credHash
    · subst hcred
      simpa [held] using hheld
    · simpa [held, hcred] using h.held_le credHash
  · rw [insert_entries ent hnew] at he
    rcases List.mem_cons.mp he with rfl | he
    · exact hid
    · exact h.named e he

theorem unexpired_sublist (now : ℤ) (st : SessionStore) :
    (unexpired now st).Sublist st.m.entries :=
  List.filter_sublist

theorem not_mem_of_sublist {m : Map String SessionEntry}
    (hsub : m.entries.Sublist st.m.entries) (hnew : id ∉ st.m) : id ∉ m :=
  fun hmem => hnew (AList.keys_subset_keys_of_entries_subset_entries hsub.subset hmem)

/-- The victim was counted among the credential's sessions. -/
theorem held_without_victim (h : st.Inv) {victim : Entry String SessionEntry}
    (hmem : victim ∈ st.m.entries) (hmine : mine now credHash victim = true) :
    (((unexpired now st).filter fun e => decide (e.1 ≠ victim.1)).countP fun e =>
      decide (e.2.credHash = credHash)) < maxCredentialSessions := by
  simp only [mine, Bool.decide_and, Bool.and_eq_true, decide_eq_true_eq] at hmine
  refine lt_of_lt_of_le ?_ (h.held_le credHash)
  refine lt_of_lt_of_le ?_ (unexpired_sublist now st).countP_le
  have hvictim : victim ∈ (unexpired now st).filter fun e => decide (e.2.credHash = credHash) :=
    List.mem_filter.mpr ⟨List.mem_filter.mpr ⟨hmem, decide_eq_true hmine.1⟩,
      decide_eq_true hmine.2⟩
  rw [List.countP_eq_length_filter, List.countP_eq_length_filter, List.filter_filter,
    List.filter_congr fun e _ => Bool.and_comm _ _, ← List.filter_filter]
  exact List.length_filter_lt_length_iff_exists.mpr ⟨victim, hvictim, by simp⟩

theorem PutCases.inv (h : st.Inv) (hnew : id ∉ st.m) (hid : id ≠ "") {r : Bool × SessionStore}
    (hr : PutCases st now id ent r) : r.2.Inv := by
  cases hr with
  | full m hfew hm => exact h.sublist (hm ▸ unexpired_sublist now st)
  | room m hfew hroom hm =>
    have hsub : m.entries.Sublist st.m.entries := hm ▸ unexpired_sublist now st
    refine (h.sublist hsub).insert hroom (not_mem_of_sublist hsub hnew) hid ?_
    rwa [live_eq_countP_unexpired, ← hm] at hfew
  | replace m victim hmem hmine holdest hroom hm =>
    have hsub : m.entries.Sublist st.m.entries := by
      rw [hm]
      exact List.filter_sublist.trans (unexpired_sublist now st)
    refine (h.sublist hsub).insert hroom (not_mem_of_sublist hsub hnew) hid ?_
    have hlt := held_without_victim h hmem hmine
    rwa [← hm] at hlt

theorem Inv.step (h : st.Inv) (c : Call) (hc : st.Allowed c) : (st.step c).Inv := by
  cases c with
  | put order now id ent => exact (put_cases h hc.1).inv h hc.2.1 hc.2.2
  | get now id =>
    change (st.get now id).2.Inv
    unfold get
    split
    · split_ifs
      · exact h
      · exact h.erase id
    · exact h.erase id
  | delete id => exact h.erase id

/-- What `put` does to the sessions that have not expired. -/
structure PutKeeps (st : SessionStore) (now : ℤ) (id : String) (ent : SessionEntry)
    (r : Bool × SessionStore) : Prop where
  /-- The sessions of other credentials stay. -/
  others : ∀ key e, st.m.lookup key = some e → now < e.expires → e.credHash ≠ ent.credHash →
    r.2.m.lookup key = some e
  refused : r.1 = false → ∀ key e, now < e.expires →
    (r.2.m.lookup key = some e ↔ st.m.lookup key = some e)
  stored : r.1 = true → r.2.m.lookup id = some ent
  /-- A credential with all its sessions gets in for one of them with the earliest expiry. -/
  replaces : maxCredentialSessions ≤ st.live now ent.credHash → r.1 = true
    ∧ ∃ key e, st.m.lookup key = some e ∧ now < e.expires ∧ e.credHash = ent.credHash
      ∧ (∀ key' e', st.m.lookup key' = some e' → now < e'.expires → e'.credHash = ent.credHash →
        e.expires ≤ e'.expires)
      ∧ ∀ key' e', st.m.lookup key' = some e' → now < e'.expires →
        (r.2.m.lookup key' = some e' ↔ key' ≠ key)

theorem lookup_insert_old {m : Map String SessionEntry} {key : String} {e : SessionEntry}
    (hnew : id ∉ st.m) (hkey : st.m.lookup key = some e) :
    (m.insert id ent).lookup key = m.lookup key := by
  refine AList.lookup_insert_ne ?_
  rintro rfl
  exact hnew (AList.lookup_isSome.mp (by simp [hkey]))

theorem lookup_unexpired {m : Map String SessionEntry} (hm : m.entries = unexpired now st)
    {key : String} {e : SessionEntry} (hlive : now < e.expires) :
    m.lookup key = some e ↔ st.m.lookup key = some e := by
  rw [lookup_eq_some, hm, unexpired, List.mem_filter, lookup_eq_some]
  simp [hlive]

theorem PutCases.keeps (hnew : id ∉ st.m) {r : Bool × SessionStore}
    (hr : PutCases st now id ent r) : PutKeeps st now id ent r := by
  cases hr with
  | full m hfew hm =>
    exact ⟨fun key e hkey hlive _ => (lookup_unexpired hm hlive).mpr hkey,
      fun _ key e hlive => lookup_unexpired hm hlive, fun h => (by cases h),
      fun hall => absurd hfew (not_lt.mpr hall)⟩
  | room m hfew hroom hm =>
    refine ⟨fun key e hkey hlive _ => ?_, fun h => (by cases h), fun _ => AList.lookup_insert _,
      fun hall => absurd hfew (not_lt.mpr hall)⟩
    rw [lookup_insert_old hnew hkey]
    exact (lookup_unexpired hm hlive).mpr hkey
  | replace m victim hmem hmine holdest hroom hm =>
    simp only [mine, Bool.decide_and, Bool.and_eq_true, decide_eq_true_eq] at hmine holdest
    have hkept : ∀ key e, st.m.lookup key = some e → now < e.expires →
        ((m.insert id ent).lookup key = some e ↔ key ≠ victim.1) := by
      intro key e hkey hlive
      rw [lookup_insert_old hnew hkey, lookup_eq_some, hm, List.mem_filter, unexpired,
        List.mem_filter, ← lookup_eq_some, hkey]
      simp [hlive]
    refine ⟨fun key e hkey hlive hother => (hkept key e hkey hlive).mpr ?_, fun h => (by cases h),
      fun _ => AList.lookup_insert _, fun _ => ⟨rfl, victim.1, victim.2, lookup_eq_some.mpr hmem,
        hmine.1, hmine.2, fun key' e' hkey' hlive' hcred' => ?_, hkept⟩⟩
    · rintro rfl
      have heq := entry_unique (lookup_eq_some.mp hkey) hmem rfl
      exact hother (by rw [← hmine.2, ← heq])
    · exact holdest ⟨key', e'⟩ (lookup_eq_some.mp hkey') ⟨hlive', hcred'⟩

theorem inv_new : newSessionStore.Inv :=
  ⟨by decide, fun _ => by simp [held, newSessionStore], by simp [newSessionStore]⟩

end SessionStore

end WMonitor
