import Mathlib.Data.Set.Card
import WMonitor.RangeMap

/-!
# A sliding window over sightings

A map from keys to when each was last seen. A round marks the keys that are seen now and deletes those
that were last seen before the window. If the rounds come at times that do not decrease, what is left
are the keys that some round inside the window has seen (`tracks_rounds`), and the size of the map is
their number.
-/

namespace LastSeen

open RangeMap

variable {κ : Type*} [DecidableEq κ]

/-- When a round takes place, and the keys it sees. -/
structure Round (κ : Type*) where
  now : ℤ
  keys : List κ

def mark (now : ℤ) (m : Map κ ℤ) (k : κ) : Map κ ℤ := m.insert k now

/-- `for k, last := range m { if last < cutoff { delete(m, k) } }`. -/
def expire (cutoff : ℤ) (m : Map κ ℤ) : Map κ ℤ :=
  ranged (fun e => decide (e.2 < cutoff)) m.entries m

def track (window : ℤ) (m : Map κ ℤ) (r : Round κ) : Map κ ℤ :=
  expire (r.now - window) (r.keys.foldl (mark r.now) m)

/-- The keys that the rounds have seen at a time or later. -/
def seenSince (since : ℤ) (rs : List (Round κ)) : Set κ :=
  {k | ∃ r ∈ rs, since ≤ r.now ∧ k ∈ r.keys}

/-- The map holds a key exactly if it was seen at `since` or later, and then no earlier than that. -/
structure Tracks (since : ℤ) (rs : List (Round κ)) (m : Map κ ℤ) : Prop where
  sound : ∀ k t, m.lookup k = some t → since ≤ t ∧ ∃ r ∈ rs, r.now = t ∧ k ∈ r.keys
  complete : ∀ r ∈ rs, ∀ k ∈ r.keys, since ≤ r.now → ∃ t, m.lookup k = some t ∧ r.now ≤ t

variable {since window : ℤ} {rs : List (Round κ)} {r : Round κ} {m : Map κ ℤ}

theorem lookup_marked (now : ℤ) (ks : List κ) (m : Map κ ℤ) (k : κ) :
    (ks.foldl (mark now) m).lookup k = if k ∈ ks then some now else m.lookup k := by
  induction ks generalizing m with
  | nil => simp
  | cons k' ks ih =>
    rw [List.foldl_cons, ih]
    by_cases hk : k ∈ ks
    · simp [hk]
    · by_cases hkk : k = k'
      · subst hkk
        simp [hk, mark]
      · simp [hk, hkk, mark, AList.lookup_insert_ne hkk]

theorem lookup_expire (cutoff : ℤ) (m : Map κ ℤ) (k : κ) :
    (expire cutoff m).lookup k = (m.lookup k).filter fun t => !decide (t < cutoff) :=
  lookup_ranged (List.Perm.refl _) k

theorem lookup_track {k : κ} {t : ℤ} : (track window m r).lookup k = some t ↔
    r.now - window ≤ t ∧ (if k ∈ r.keys then t = r.now else m.lookup k = some t) := by
  rw [track, lookup_expire, lookup_marked, Option.filter_eq_some_iff, and_comm]
  refine and_congr (by simp) ?_
  split_ifs
  · rw [Option.some.injEq, eq_comm]
  · exact Iff.rfl

theorem tracks_empty (since : ℤ) : Tracks since [] (∅ : Map κ ℤ) where
  sound k t h := by simp at h
  complete r hr := by simp at hr

/-- One round, at no earlier time than those before it. -/
theorem Tracks.step (h : Tracks since rs m) (hle : ∀ r' ∈ rs, r'.now ≤ r.now)
    (hsince : since ≤ r.now - window) :
    Tracks (r.now - window) (rs ++ [r]) (track window m r) where
  sound k t hk := by
    obtain ⟨hcut, hk⟩ := lookup_track.1 hk
    refine ⟨hcut, ?_⟩
    split_ifs at hk with hmem
    · exact ⟨r, by simp, hk.symm, hmem⟩
    · obtain ⟨-, r', hr', ht, hmem'⟩ := h.sound k t hk
      exact ⟨r', List.mem_append_left _ hr', ht, hmem'⟩
  complete r' hr' k hk hcut := by
    by_cases hmem : k ∈ r.keys
    · have hnow : r'.now ≤ r.now := by
        rcases List.mem_append.1 hr' with hr' | hr'
        · exact hle r' hr'
        · rw [List.mem_singleton.1 hr']
      exact ⟨r.now, lookup_track.2 ⟨hcut.trans hnow, by rw [if_pos hmem]⟩, hnow⟩
    · rcases List.mem_append.1 hr' with hr' | hr'
      · obtain ⟨t, ht, hle'⟩ := h.complete r' hr' k hk (hsince.trans hcut)
        exact ⟨t, lookup_track.2 ⟨hcut.trans hle', by rwa [if_neg hmem]⟩, hle'⟩
      · rw [List.mem_singleton.1 hr'] at hk
        exact absurd hk hmem

/-- The rounds of a run, the last of them at `r.now`. -/
theorem tracks_rounds (window : ℤ) (rs : List (Round κ)) (r : Round κ)
    (hsorted : (rs ++ [r]).Pairwise fun a b => a.now ≤ b.now) :
    Tracks (r.now - window) (rs ++ [r]) ((rs ++ [r]).foldl (track window) ∅) := by
  induction rs using List.reverseRecOn generalizing r with
  | nil => exact (tracks_empty (r.now - window)).step (by simp) le_rfl
  | append_singleton rs r' ih =>
    obtain ⟨hbefore, -, hlast⟩ := List.pairwise_append.1 hsorted
    have hle : ∀ a ∈ rs ++ [r'], a.now ≤ r.now := fun a ha => hlast a ha r (List.mem_singleton_self r)
    rw [List.foldl_append, List.foldl_cons, List.foldl_nil]
    exact (ih r' hbefore).step hle (Int.sub_le_sub_right (hle r' (by simp)) window)

theorem Tracks.mem_keys (h : Tracks since rs m) {k : κ} :
    k ∈ m.entries.map Sigma.fst ↔ k ∈ seenSince since rs := by
  constructor
  · intro hk
    obtain ⟨⟨k', t⟩, he, rfl⟩ := List.mem_map.1 hk
    obtain ⟨hle, r, hr, rfl, hmem⟩ := h.sound k' t (lookup_eq_some.2 he)
    exact ⟨r, hr, hle, hmem⟩
  · rintro ⟨r, hr, hle, hmem⟩
    obtain ⟨t, ht, -⟩ := h.complete r hr k hmem hle
    exact List.mem_map_of_mem (f := Sigma.fst) (lookup_eq_some.1 ht)

/-- The size of the map is the number of keys seen. -/
theorem Tracks.size (h : Tracks since rs m) : RangeMap.size m = (seenSince since rs).ncard := by
  have hset : seenSince since rs = ↑(m.entries.map Sigma.fst).toFinset := by
    ext k
    rw [← h.mem_keys, Finset.mem_coe, List.mem_toFinset]
  have hnodup : (m.entries.map Sigma.fst).Nodup := m.nodupKeys
  rw [hset, Set.ncard_coe_finset, List.toFinset_card_of_nodup hnodup, List.length_map]
  rfl

omit [DecidableEq κ] in
theorem seenSince_finite (since : ℤ) (rs : List (Round κ)) : (seenSince since rs).Finite := by
  refine (List.finite_toSet (rs.flatMap Round.keys)).subset ?_
  rintro k ⟨r, hr, -, hk⟩
  exact List.mem_flatMap.2 ⟨r, hr, hk⟩

omit [DecidableEq κ] in
/-- Rounds that see their keys through a function. -/
theorem seenSince_map {κ' : Type*} (f : κ → κ') (since : ℤ) (rs : List (Round κ)) :
    seenSince since (rs.map fun r => ⟨r.now, r.keys.map f⟩) = f '' seenSince since rs := by
  ext k
  constructor
  · rintro ⟨r', hr', hle, hk⟩
    obtain ⟨r, hr, rfl⟩ := List.mem_map.1 hr'
    obtain ⟨k', hk', rfl⟩ := List.mem_map.1 hk
    exact ⟨k', ⟨r, hr, hle, hk'⟩, rfl⟩
  · rintro ⟨k', ⟨r, hr, hle, hk'⟩, rfl⟩
    exact ⟨_, List.mem_map_of_mem hr, hle, List.mem_map_of_mem hk'⟩

end LastSeen
