import WMonitor.Run

/-!
# Queues delivered in order

A queue is a list of segments. A pass takes them one after the other and hands over what is left of each
in groups, to somebody who takes a group or refuses it. It ends where a group is refused, and at a
segment that cannot be read or entered: it drops the former and leaves the latter. So what leaves the
queue is its beginning (`passes_inv`), and while the group at its head is refused nothing does
(`passes_blocked`).
-/

namespace InOrder

variable {α η : Type}

/-- A segment as a pass finds it, with what is left of it. -/
inductive Segment (α : Type)
  | corrupt
  | shut (rest : List α)
  | ready (rest : List α)
  deriving DecidableEq

def Segment.rest : Segment α → List α
  | corrupt => []
  | shut rest => rest
  | ready rest => rest

/-- What is left of the queue. -/
def rest (q : List (Segment α)) : List α := q.flatMap Segment.rest

def Segment.isCorrupt : Segment α → Bool
  | corrupt => true
  | _ => false

/-- How many segments cannot be read. -/
def corrupts (q : List (Segment α)) : ℕ := q.countP Segment.isCorrupt

variable (size : List α → ℕ)

section Pass

variable (answer : List α → η → Bool × η)

/-- Hands over the groups of a list until one is refused, or none can be made: what is left. -/
def send : ℕ → List α → η → List α × η
  | 0, xs, env => (xs, env)
  | _ + 1, [], env => ([], env)
  | fuel + 1, xs, env =>
    if size xs = 0 then (xs, env)
    else match answer (xs.take (size xs)) env with
      | (true, env') => send fuel (xs.drop (size xs)) env'
      | (false, env') => (xs, env')

/-- What remains of a segment, and whether the pass goes on. -/
def visit : Segment α → η → Option (Segment α) × Bool × η
  | .corrupt, env => (none, false, env)
  | .shut xs, env => (some (.shut xs), false, env)
  | .ready xs, env =>
    match send size answer xs.length xs env with
    | ([], env') => (none, true, env')
    | (x :: left, env') => (some (.ready (x :: left)), false, env')

def pass : List (Segment α) → η → List (Segment α) × η
  | [], env => ([], env)
  | seg :: q, env =>
    match visit size answer seg env with
    | (_, true, env') => pass q env'
    | (kept, false, env') => (kept.toList ++ q, env')

end Pass

/-- One pass after the other, each with its own answers. -/
def passes (q : List (Segment α) × η) (answers : List (List α → η → Bool × η)) :
    List (Segment α) × η :=
  WMonitor.Run.run (fun q answer => pass size answer q.1 q.2) q answers

/-- Any fuel will do that is enough. -/
theorem send_fuel (answer : List α → η → Bool × η) {fuel fuel' : ℕ} {xs : List α}
    (h : xs.length ≤ fuel) (h' : xs.length ≤ fuel') (env : η) :
    send size answer fuel xs env = send size answer fuel' xs env := by
  induction fuel generalizing fuel' xs env with
  | zero =>
    obtain rfl := List.eq_nil_of_length_eq_zero (Nat.le_zero.1 h)
    cases fuel' <;> rfl
  | succ fuel ih =>
    rcases xs with _ | ⟨x, xs⟩
    · cases fuel' <;> rfl
    rcases fuel' with _ | fuel'
    · cases h'
    rw [send.eq_3 _ _ _ _ _ (List.cons_ne_nil x xs), send.eq_3 _ _ _ _ _ (List.cons_ne_nil x xs)]
    split_ifs with hz
    · rfl
    have hdrop : ((x :: xs).drop (size (x :: xs))).length ≤ xs.length := by
      rw [List.length_drop, List.length_cons]
      omega
    rw [List.length_cons] at h h'
    rcases answer ((x :: xs).take (size (x :: xs))) env with ⟨_ | _, env'⟩
    · rfl
    · exact ih (by omega) (by omega) env'

/-! ## What leaves the queue -/

section Inv

/-- What is kept along a pass: `Good done env` is about what was handed over so far. -/
structure Keeps (Good : List α → η → Prop) (answer : List α → η → Bool × η) : Prop where
  taken : ∀ done group env, Good done env → (answer group env).1 = true →
    Good (done ++ group) (answer group env).2
  refused : ∀ done group env, Good done env → (answer group env).1 = false →
    Good done (answer group env).2

variable {Good : List α → η → Prop} {answer : List α → η → Bool × η}

theorem send_inv (h : Keeps Good answer) (fuel : ℕ) (xs : List α) {done : List α} {env : η}
    (hgood : Good done env) :
    ∃ more, xs = more ++ (send size answer fuel xs env).1
      ∧ Good (done ++ more) (send size answer fuel xs env).2 := by
  induction fuel generalizing xs done env with
  | zero => exact ⟨[], rfl, by simpa [send] using hgood⟩
  | succ fuel ih =>
    rcases xs with _ | ⟨x, xs⟩
    · exact ⟨[], rfl, by simpa [send] using hgood⟩
    rw [send.eq_3 _ _ _ _ _ (List.cons_ne_nil x xs)]
    split_ifs with hz
    · exact ⟨[], rfl, by simpa using hgood⟩
    rcases ha : answer ((x :: xs).take (size (x :: xs))) env with ⟨_ | _, env'⟩
    · have := h.refused done _ env hgood (by rw [ha])
      rw [ha] at this
      exact ⟨[], rfl, by simpa using this⟩
    · have := h.taken done _ env hgood (by rw [ha])
      rw [ha] at this
      obtain ⟨more, hmore, hg⟩ := ih ((x :: xs).drop (size (x :: xs))) this
      refine ⟨(x :: xs).take (size (x :: xs)) ++ more, ?_, ?_⟩
      · rw [List.append_assoc, ← hmore, List.take_append_drop]
      · rwa [← List.append_assoc]

theorem visit_inv (h : Keeps Good answer) (seg : Segment α) {done : List α} {env : η}
    (hgood : Good done env) :
    ∃ more, seg.rest = more ++ rest (visit size answer seg env).1.toList
      ∧ Good (done ++ more) (visit size answer seg env).2.2 := by
  cases seg with
  | corrupt => exact ⟨[], rfl, by simpa [visit] using hgood⟩
  | shut xs => exact ⟨[], by simp [visit, rest], by simpa [visit] using hgood⟩
  | ready xs =>
    obtain ⟨more, hmore, hg⟩ := send_inv size h xs.length xs hgood
    refine ⟨more, ?_, ?_⟩
    all_goals
      rw [visit]
      rcases hs : send size answer xs.length xs env with ⟨_ | ⟨x, left⟩, env'⟩
      all_goals rw [hs] at hmore hg
    · simpa [rest, Segment.rest] using hmore
    · simpa [rest, Segment.rest] using hmore
    · exact hg
    · exact hg

/-- Nothing remains of a segment that the pass went through. -/
theorem visit_through {seg : Segment α} {env : η} (h : (visit size answer seg env).2.1 = true) :
    (visit size answer seg env).1 = none := by
  cases seg with
  | corrupt => rfl
  | shut xs => cases h
  | ready xs =>
    rw [visit] at h ⊢
    rcases hs : send size answer xs.length xs env with ⟨_ | ⟨x, left⟩, env'⟩
    · rfl
    · rw [hs] at h
      cases h

theorem rest_append (q q' : List (Segment α)) : rest (q ++ q') = rest q ++ rest q' :=
  List.flatMap_append

/-- What a pass hands over is the beginning of the queue. -/
theorem pass_inv (h : Keeps Good answer) (q : List (Segment α)) {done : List α} {env : η}
    (hgood : Good done env) :
    ∃ more, rest q = more ++ rest (pass size answer q env).1
      ∧ Good (done ++ more) (pass size answer q env).2 := by
  induction q generalizing done env with
  | nil => exact ⟨[], rfl, by simpa [pass] using hgood⟩
  | cons seg q ih =>
    obtain ⟨more, hmore, hg⟩ := visit_inv size h seg hgood
    have hcons : rest (seg :: q) = seg.rest ++ rest q := List.flatMap_cons
    rw [pass]
    rcases hv : visit size answer seg env with ⟨kept, _ | _, env'⟩
    · rw [hv] at hmore hg
      refine ⟨more, ?_, hg⟩
      rw [hcons, hmore, rest_append, List.append_assoc]
    · have hnone := visit_through size (show (visit size answer seg env).2.1 = true by rw [hv])
      rw [hnone] at hmore
      rw [hv] at hg
      obtain ⟨more', hmore', hg'⟩ := ih hg
      refine ⟨more ++ more', ?_, by rwa [← List.append_assoc]⟩
      rw [hcons, hmore, hmore']
      simp [rest]

theorem passes_inv {answers : List (List α → η → Bool × η)} (h : ∀ answer ∈ answers, Keeps Good answer)
    (q : List (Segment α)) {done : List α} {env : η} (hgood : Good done env) :
    ∃ more, rest q = more ++ rest (passes size (q, env) answers).1
      ∧ Good (done ++ more) (passes size (q, env) answers).2 := by
  induction answers generalizing q done env with
  | nil => exact ⟨[], rfl, by simpa [passes, WMonitor.Run.run] using hgood⟩
  | cons answer answers ih =>
    rw [List.forall_mem_cons] at h
    obtain ⟨more, hmore, hg⟩ := pass_inv size h.1 q hgood
    obtain ⟨more', hmore', hg'⟩ := ih h.2 (pass size answer q env).1 hg
    refine ⟨more ++ more', ?_, ?_⟩
    · rw [hmore, hmore', List.append_assoc]
      rfl
    · rwa [← List.append_assoc]

end Inv

/-! ## Where a pass ends -/

section Ends

variable (answer : List α → η → Bool × η)

/-- The next group of the list cannot be made, or is refused. -/
def Refuses (xs : List α) (env : η) : Prop :=
  xs ≠ [] ∧ (size xs = 0 ∨ (answer (xs.take (size xs)) env).1 = false)

/-- The head of the queue holds up what is behind it. -/
def Blocked (q : List (Segment α)) (env : η) : Prop :=
  ∃ seg q', q = seg :: q'
    ∧ ((∃ xs, seg = .shut xs) ∨ ∃ xs, seg = .ready xs ∧ Refuses size answer xs env)

variable {answer}

/-- What a refusal leaves of the environment as it was. -/
def Retains {δ : Type} (key : η → δ) (answer : List α → η → Bool × η) : Prop :=
  ∀ group env, (answer group env).1 = false → key (answer group env).2 = key env

variable {δ : Type} {key : η → δ}

theorem send_ends (h : Retains key answer) (fuel : ℕ) {xs : List α} (hf : xs.length ≤ fuel) (env : η) :
    (send size answer fuel xs env).1 = []
      ∨ ∃ env', key env' = key (send size answer fuel xs env).2
        ∧ Refuses size answer (send size answer fuel xs env).1 env' := by
  induction fuel generalizing xs env with
  | zero => exact .inl (List.eq_nil_of_length_eq_zero (Nat.le_zero.1 hf))
  | succ fuel ih =>
    rcases xs with _ | ⟨x, xs⟩
    · exact .inl rfl
    rw [send.eq_3 _ _ _ _ _ (List.cons_ne_nil x xs)]
    split_ifs with hz
    · exact .inr ⟨env, rfl, List.cons_ne_nil x xs, .inl hz⟩
    rcases ha : answer ((x :: xs).take (size (x :: xs))) env with ⟨_ | _, env'⟩
    · have hkey := h ((x :: xs).take (size (x :: xs))) env (by rw [ha])
      rw [ha] at hkey
      exact .inr ⟨env, hkey.symm, List.cons_ne_nil x xs, .inr (by rw [ha])⟩
    · have hlen : ((x :: xs).drop (size (x :: xs))).length ≤ fuel := by
        rw [List.length_drop]
        omega
      exact ih hlen env'

/-- A pass comes to the end of the queue, or to a segment that cannot be read and that it drops, or to a
head that it leaves. -/
theorem pass_ends (h : Retains key answer) (q : List (Segment α)) (env : η) :
    (pass size answer q env).1 = [] ∨ corrupts (pass size answer q env).1 < corrupts q
      ∨ ∃ env', key env' = key (pass size answer q env).2
        ∧ Blocked size answer (pass size answer q env).1 env' := by
  induction q generalizing env with
  | nil => exact .inl rfl
  | cons seg q ih =>
    cases seg with
    | corrupt =>
      refine .inr (.inl ?_)
      rw [pass, visit, corrupts, corrupts, List.countP_cons_of_pos rfl]
      exact Nat.lt_succ_self _
    | shut xs => exact .inr (.inr ⟨env, rfl, .shut xs, q, rfl, .inl ⟨xs, rfl⟩⟩)
    | ready xs =>
      have hends := send_ends size h xs.length le_rfl env
      rw [pass, visit]
      rcases hs : send size answer xs.length xs env with ⟨_ | ⟨x, left⟩, env₁⟩
      · rcases ih env₁ with hnil | hless | hblocked
        · exact .inl hnil
        · refine .inr (.inl ?_)
          rwa [corrupts, corrupts, List.countP_cons_of_neg (by simp [Segment.isCorrupt])]
        · exact .inr (.inr hblocked)
      · rw [hs] at hends
        obtain ⟨env', hkey, hr⟩ := hends.resolve_left (List.cons_ne_nil x left)
        exact .inr (.inr ⟨env', hkey, _, q, rfl, .inr ⟨_, rfl, hr⟩⟩)

/-- No pass adds a segment that cannot be read. -/
theorem corrupts_pass_le (answer : List α → η → Bool × η) (q : List (Segment α)) (env : η) :
    corrupts (pass size answer q env).1 ≤ corrupts q := by
  induction q generalizing env with
  | nil => exact le_rfl
  | cons seg q ih =>
    have hcons : corrupts q ≤ corrupts (seg :: q) := (List.sublist_cons_self seg q).countP_le
    cases seg with
    | corrupt => exact hcons
    | shut xs => exact le_rfl
    | ready xs =>
      rw [pass, visit]
      rcases send size answer xs.length xs env with ⟨_ | ⟨x, left⟩, env₁⟩
      · exact (ih env₁).trans hcons
      · exact le_rfl

theorem send_blocked (h : Retains key answer) (fuel : ℕ) {xs : List α} {env : η}
    (hr : Refuses size answer xs env) :
    (send size answer fuel xs env).1 = xs ∧ key (send size answer fuel xs env).2 = key env := by
  cases fuel with
  | zero => exact ⟨rfl, rfl⟩
  | succ fuel =>
    rw [send.eq_3 _ _ _ _ _ hr.1]
    split_ifs with hz
    · exact ⟨rfl, rfl⟩
    · have hfalse := hr.2.resolve_left hz
      have hkey := h _ env hfalse
      rcases ha : answer (xs.take (size xs)) env with ⟨b, env'⟩
      rw [ha] at hfalse hkey
      cases hfalse
      exact ⟨rfl, hkey⟩

theorem pass_blocked (h : Retains key answer) {q : List (Segment α)} {env : η}
    (hb : Blocked size answer q env) :
    (pass size answer q env).1 = q ∧ key (pass size answer q env).2 = key env := by
  obtain ⟨seg, q, rfl, ⟨xs, rfl⟩ | ⟨xs, rfl, hr⟩⟩ := hb
  · exact ⟨rfl, rfl⟩
  · obtain ⟨hleft, hkey⟩ := send_blocked size h xs.length hr
    rw [pass, visit]
    rcases hs : send size answer xs.length xs env with ⟨_ | ⟨x, left⟩, env'⟩
    all_goals rw [hs] at hleft hkey
    · exact absurd hleft.symm hr.1
    · refine ⟨?_, hkey⟩
      rw [← hleft]
      rfl

/-- While the head of the queue is refused nothing leaves it. -/
theorem passes_blocked {answers : List (List α → η → Bool × η)}
    (h : ∀ answer ∈ answers, Retains key answer) {q : List (Segment α)} {env : η}
    (hb : ∀ answer ∈ answers, ∀ env', key env' = key env → Blocked size answer q env') :
    (passes size (q, env) answers).1 = q ∧ key (passes size (q, env) answers).2 = key env := by
  induction answers generalizing env with
  | nil => exact ⟨rfl, rfl⟩
  | cons answer answers ih =>
    rw [List.forall_mem_cons] at h hb
    obtain ⟨hq, hkey⟩ := pass_blocked size h.1 (hb.1 env rfl)
    have hstep : passes size (q, env) (answer :: answers)
        = passes size (q, (pass size answer q env).2) answers := by
      have hpair : pass size answer q env = (q, (pass size answer q env).2) := Prod.ext hq rfl
      exact congrArg (fun x => passes size x answers) hpair
    rw [hstep, ← hkey]
    exact ih h.2 fun a ha env' henv => hb.2 a ha env' (henv.trans hkey)

end Ends

end InOrder
