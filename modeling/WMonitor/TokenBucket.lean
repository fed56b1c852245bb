import Mathlib.Algebra.Order.Field.Basic
import Mathlib.Tactic

/-!
# Token buckets

A bucket holds up to `burst` tokens, gains `rate` of them per unit of time and gives one away for each
request it grants. A bucket that nobody has asked yet is full. From any state the grants of a stretch
of requests are bounded by what the bucket can hold and what it gains meanwhile (`grants_le_span`), and a
bucket that had time to fill up is as good as a new one (`take_of_fills`).
-/

namespace TokenBucket

variable {K : Type*} [Field K]

/-- One token for a grant. -/
def cost (granted : Bool) : K := if granted then 1 else 0

variable [LinearOrder K]

structure Bucket (K : Type*) where
  level : K
  last : K

/-- The bucket at time `t`. -/
def Bucket.refill (rate burst t : K) (b : Bucket K) : Bucket K :=
  if b.last < t then ⟨min burst (b.level + (t - b.last) * rate), t⟩ else b

/-- A request at time `t`: whether it is granted, and the bucket after it. -/
def Bucket.take (rate burst t : K) (b : Bucket K) : Bool × Bucket K :=
  let b := b.refill rate burst t
  if b.level < 1 then (false, b) else (true, { b with level := b.level - 1 })

/-- A request to a bucket that may be new. -/
def take (rate burst t : K) : Option (Bucket K) → Bool × Bucket K
  | none => (true, ⟨burst - 1, t⟩)
  | some b => b.take rate burst t

/-- The decisions on requests at these times. -/
def decisions (rate burst : K) : Option (Bucket K) → List K → List Bool
  | _, [] => []
  | b, t :: ts =>
    (take rate burst t b).1 :: decisions rate burst (some (take rate burst t b).2) ts

/-- How many of the requests at times with `P` are granted. -/
def grants (P : K → Prop) [DecidablePred P] (rate burst : K) (b : Option (Bucket K))
    (ts : List K) : ℕ :=
  (ts.zip (decisions rate burst b ts)).countP fun c => P c.1 ∧ c.2 = true

/-- A bucket that has been used by time `t`. -/
structure Bucket.Sound (burst t : K) (b : Bucket K) : Prop where
  nonneg : 0 ≤ b.level
  le : b.level ≤ burst
  last : b.last ≤ t

/-- At time `t` the bucket is full. -/
def Bucket.Fills (rate burst t : K) (b : Bucket K) : Prop :=
  b.last ≤ t ∧ burst ≤ b.level + (t - b.last) * rate

variable {rate burst : K} {b : Bucket K}

variable {P : K → Prop} [DecidablePred P]

theorem grants_cons (b : Option (Bucket K)) (t : K) (ts : List K) :
    (grants P rate burst b (t :: ts) : K)
      = (if P t then cost (take rate burst t b).1 else 0)
        + grants P rate burst (some (take rate burst t b).2) ts := by
  rw [grants, decisions, List.zip_cons_cons, List.countP_cons, ← grants, Nat.cast_add, add_comm]
  congr 1
  by_cases hP : P t <;> cases (take rate burst t b).1 <;> simp [hP, cost]

theorem grants_eq_zero (b : Option (Bucket K)) {ts : List K} (h : ∀ t ∈ ts, ¬ P t) :
    grants P rate burst b ts = 0 := by
  refine List.countP_eq_zero.mpr fun c hc => ?_
  simp [h c.1 (List.of_mem_zip hc).1]

/-- A full bucket answers as a new one does. -/
theorem take_of_fills (hb : 1 ≤ burst) {s t : K} (h : b.Sound burst s)
    (hf : b.Fills rate burst t) : b.take rate burst t = (true, ⟨burst - 1, t⟩) := by
  obtain ⟨hlast, hfull⟩ := hf
  have hrefill : b.refill rate burst t = ⟨burst, t⟩ := by
    unfold Bucket.refill
    split_ifs with hlt
    · rw [min_eq_left hfull]
    · have heq : b.last = t := le_antisymm hlast (not_lt.mp hlt)
      rw [heq, sub_self, zero_mul, add_zero] at hfull
      rw [← heq, ← le_antisymm h.le hfull]
  rw [Bucket.take, hrefill]
  exact if_neg (not_lt.mpr hb)

variable [IsStrictOrderedRing K]

theorem Bucket.Sound.refill (hr : 0 ≤ rate) {s t : K} (h : b.Sound burst s) (hst : s ≤ t) :
    (b.refill rate burst t).Sound burst t ∧ (b.refill rate burst t).last = t
      ∧ (b.refill rate burst t).level ≤ b.level + (t - b.last) * rate := by
  have hlast : b.last ≤ t := h.last.trans hst
  have hgain : 0 ≤ (t - b.last) * rate := mul_nonneg (by linarith) hr
  unfold Bucket.refill
  split_ifs with hlt
  · refine ⟨⟨le_min ?_ ?_, min_le_left _ _, le_rfl⟩, rfl, min_le_right _ _⟩
    · exact h.nonneg.trans h.le
    · linarith [h.nonneg]
  · exact ⟨⟨h.nonneg, h.le, hlast⟩, le_antisymm hlast (not_lt.mp hlt), by linarith⟩

/-- What a request does to the level: the bucket gains what the time brings, up to `burst`, and a
grant costs one token. -/
theorem Bucket.Sound.take (hr : 0 ≤ rate) {s t : K} (h : b.Sound burst s) (hst : s ≤ t) :
    (b.take rate burst t).2.Sound burst t ∧ (b.take rate burst t).2.last = t
      ∧ (b.take rate burst t).2.level + cost (b.take rate burst t).1 ≤ burst
      ∧ (b.take rate burst t).2.level + cost (b.take rate burst t).1
        ≤ b.level + (t - b.last) * rate := by
  obtain ⟨hs, ht, hle⟩ := h.refill hr hst
  unfold Bucket.take
  by_cases hlt : (b.refill rate burst t).level < 1
  · rw [if_pos hlt]
    exact ⟨hs, ht, by simpa [cost] using hs.le, by simpa [cost] using hle⟩
  · rw [if_neg hlt]
    exact ⟨⟨by simpa using hlt, by linarith [hs.le], hs.last⟩, ht, by simpa [cost] using hs.le,
      by simpa [cost] using hle⟩

theorem take_sound (hr : 0 ≤ rate) (hb : 1 ≤ burst) {s t : K} {b : Option (Bucket K)}
    (h : ∀ b' ∈ b, b'.Sound burst s) (hst : s ≤ t) :
    (take rate burst t b).2.Sound burst t ∧ (take rate burst t b).2.last = t
      ∧ (take rate burst t b).2.level + cost (take rate burst t b).1 ≤ burst := by
  cases b with
  | none => exact ⟨⟨by simpa [take] using hb, by simp [take], le_rfl⟩, rfl, by simp [take, cost]⟩
  | some b =>
    obtain ⟨hs, hl, hle, -⟩ := (h b rfl).take hr hst
    exact ⟨hs, hl, hle⟩

theorem Bucket.Fills.mono (hr : 0 ≤ rate) {s t : K} (h : b.Fills rate burst s) (hst : s ≤ t) :
    b.Fills rate burst t := by
  have hmul : (s - b.last) * rate ≤ (t - b.last) * rate :=
    mul_le_mul_of_nonneg_right (by linarith) hr
  exact ⟨h.1.trans hst, h.2.trans (by linarith)⟩

/-- Requests until `e` are granted at most what the bucket holds and gains until then. -/
theorem grants_le_level (hr : 0 ≤ rate) {s e : K} (hse : s ≤ e) (ts : List K)
    (h : b.Sound burst s) (hsorted : (s :: ts).Pairwise (· ≤ ·)) :
    (grants (· ≤ e) rate burst (some b) ts : K) ≤ b.level + (e - b.last) * rate := by
  induction ts generalizing b s with
  | nil =>
    have hgain : 0 ≤ (e - b.last) * rate := mul_nonneg (by linarith [h.last]) hr
    simpa [grants] using add_nonneg h.nonneg hgain
  | cons t ts ih =>
    rw [List.pairwise_cons] at hsorted
    obtain ⟨hs, hlast, -, hlevel⟩ := h.take hr (hsorted.1 t (by simp))
    by_cases hte : t ≤ e
    · have hrest := ih hte hs hsorted.2
      rw [hlast] at hrest
      rw [grants_cons, if_pos hte]
      calc cost (b.take rate burst t).1 + _
          ≤ cost (b.take rate burst t).1 + ((b.take rate burst t).2.level + (e - t) * rate) :=
            add_le_add_right hrest _
        _ ≤ b.level + (t - b.last) * rate + (e - t) * rate := by linarith
        _ = b.level + (e - b.last) * rate := by ring
    · have hlate : ∀ u ∈ t :: ts, ¬ u ≤ e := by
        intro u hu hue
        rcases List.mem_cons.mp hu with rfl | hu
        · exact hte hue
        · exact hte (((List.pairwise_cons.mp hsorted.2).1 u hu).trans hue)
      have hgain : 0 ≤ (e - b.last) * rate := mul_nonneg (by linarith [h.last]) hr
      rw [grants_eq_zero _ hlate, Nat.cast_zero]
      exact add_nonneg h.nonneg hgain

/-- Within a time span of length `d` no bucket grants more than `burst + d * rate` requests. -/
theorem grants_le_span (hr : 0 ≤ rate) (hb : 1 ≤ burst) {s a d : K} (hd : 0 ≤ d)
    {b : Option (Bucket K)} (h : ∀ b' ∈ b, b'.Sound burst s) (ts : List K)
    (hsorted : (s :: ts).Pairwise (· ≤ ·)) :
    (grants (fun t => a ≤ t ∧ t ≤ a + d) rate burst b ts : K) ≤ burst + d * rate := by
  have hnonneg : 0 ≤ burst + d * rate := add_nonneg (by linarith) (mul_nonneg hd hr)
  induction ts generalizing b s with
  | nil => simpa [grants] using hnonneg
  | cons t ts ih =>
    rw [List.pairwise_cons] at hsorted
    obtain ⟨hs, hlast, hlevel⟩ := take_sound hr hb h (hsorted.1 t (by simp))
    rw [grants_cons]
    by_cases hspan : a ≤ t ∧ t ≤ a + d
    · -- the first request of the span: what follows is bounded by the level it leaves
      have hrest := grants_le_level hr hspan.2 ts hs hsorted.2
      have hmono : grants (fun t => a ≤ t ∧ t ≤ a + d) rate burst
            (some (take rate burst t b).2) ts
          ≤ grants (· ≤ a + d) rate burst (some (take rate burst t b).2) ts :=
        List.countP_mono_left fun c _ => by simp +contextual
      have hgain : (a + d - t) * rate ≤ d * rate :=
        mul_le_mul_of_nonneg_right (by linarith [hspan.1]) hr
      have hcast : (grants (fun t => a ≤ t ∧ t ≤ a + d) rate burst
            (some (take rate burst t b).2) ts : K)
          ≤ grants (· ≤ a + d) rate burst (some (take rate burst t b).2) ts :=
        Nat.cast_le.mpr hmono
      rw [hlast] at hrest
      rw [if_pos hspan]
      linarith
    · rw [if_neg hspan, zero_add]
      exact ih (by simpa using hs) hsorted.2

end TokenBucket
