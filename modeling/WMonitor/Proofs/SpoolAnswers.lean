import WMonitor.InOrder
import WMonitor.Proofs.SpoolGroups
import WMonitor.Proofs.SpoolOrder

/-!
# A pass as a queue in order

A pass over a queue that nobody else uses, with a callback that answers at once, does with the files what
`InOrder.pass` does with the list of the segments as it finds them (`pass_answers`).
-/

namespace WMonitor

namespace Spool

open Prog

variable {η θ : Type}

/-- A pass removes segments and leaves the others in their order. -/
theorem segments_filter {s s' : Spool η} (hnames : s'.queue.names = s.queue.names)
    (hsegs : ∀ n, s.queue.segs n = none → s'.queue.segs n = none) :
    s'.segments = s.segments.filter fun n => (s'.queue.segs n).isSome := by
  have hsorted : ∀ l : List SegName, (l.mergeSort fun a b => decide (a.fileName ≤ b.fileName)).Pairwise
      fun a b => a.fileName ≤ b.fileName := by
    intro l
    refine (List.pairwise_mergeSort ?_ ?_ l).imp of_decide_eq_true
    · intro a b c hab hbc
      exact decide_eq_true ((of_decide_eq_true hab).trans (of_decide_eq_true hbc))
    · intro a b
      rw [Bool.or_eq_true, decide_eq_true_iff, decide_eq_true_iff]
      exact le_total (α := List Char) _ _
  have hperm : s'.segments.Perm (s.segments.filter fun n => (s'.queue.segs n).isSome) := by
    refine (List.mergeSort_perm _ _).trans (.trans ?_ ((List.mergeSort_perm _ _).filter _).symm)
    rw [List.filter_filter, hnames]
    refine .of_eq (List.filter_congr fun n _ => ?_)
    cases h : s.queue.segs n with
    | none =>
      rw [hsegs n h]
      rfl
    | some content => simp
  refine hperm.eq_of_pairwise ?_ (hsorted _) ((hsorted _).filter _)
  intro a b _ _ hab hba
  exact fileName_injective (le_antisymm hab hba)

/-! ## A segment -/

section Segment

variable {c : Choice θ} {answer : List SpoolEntry → η → Bool × η} {D : Draining η θ} (t : ℕ)
  (path : SegName)

/-- A drain without faults, whose callback answers by the environment alone. -/
structure Answering (D : Draining η θ) (c : Choice θ) (answer : List SpoolEntry → η → Bool × η) :
    Prop where
  fault : c.fault = .none
  ctx : ∀ s, D.ctx.alone c s = some (.ok (), s)
  deliver : ∀ group s, ∃ r, (D.deliver group).alone c s
    = some (r, { s with env := (answer group s.env).2 }) ∧ r.isOk = (answer group s.env).1

/-- After groups of `path` were handed over. -/
structure Sent (s s' : Spool η) : Prop where
  mu : s'.mu = s.mu
  drainMu : s'.drainMu = s.drainMu
  queue : s'.queue = s.queue
  acks : ∀ n, n ≠ path → s'.progress.acks n = s.progress.acks n

theorem Sent.trans {s s₁ s' : Spool η} (h : Sent path s s₁) (h' : Sent path s₁ s') : Sent path s s' where
  mu := h'.mu.trans h.mu
  drainMu := h'.drainMu.trans h.drainMu
  queue := h'.queue.trans h.queue
  acks n hn := (h'.acks n hn).trans (h.acks n hn)

theorem round_taken (h : Answering D c answer) (next delivered : ℕ) {group : List SpoolEntry}
    (k : DrainM η θ ℕ) {s : Spool η} (hyes : (answer group s.env).1 = true) :
    ∃ s₁, (s₁.env = (answer group s.env).2 ∧ Sent path s s₁
        ∧ s₁.progress.acks path = some (itoa (next + group.length : ℕ)))
      ∧ (round t path D next delivered group k).alone c s = k.alone c s₁ := by
  obtain ⟨r, hd, hr⟩ := h.deliver group (s.onProgress fun p =>
    { p with presented := p.presented ++ [⟨t, path, next, group, s.bound⟩] })
  rcases r with e | _
  · cases hr.trans hyes
  · simp only [round, alone_bind, alone_mapError, present, alone_modify, Option.map_some,
      Option.bind_some, hd, settle, writeAck_alone path h.fault, Except.mapError]
    refine ⟨_, ?_, rfl⟩
    exact ⟨rfl, ⟨rfl, rfl, rfl, fun n hn => Function.update_of_ne hn _ _⟩, Function.update_self ..⟩

theorem round_refused (h : Answering D c answer) (next delivered : ℕ) {group : List SpoolEntry}
    (k : DrainM η θ ℕ) {s : Spool η} (hno : (answer group s.env).1 = false) :
    ∃ e s₁, (s₁.env = (answer group s.env).2 ∧ Sent path s s₁
        ∧ s₁.progress.acks path = s.progress.acks path)
      ∧ (round t path D next delivered group k).alone c s = some (.error e, s₁) := by
  obtain ⟨r, hd, hr⟩ := h.deliver group (s.onProgress fun p =>
    { p with presented := p.presented ++ [⟨t, path, next, group, s.bound⟩] })
  rcases r with e | _
  · simp only [round, alone_bind, alone_mapError, present, alone_modify, Option.map_some,
      Option.bind_some, hd, Except.mapError]
    refine ⟨_, _, ?_, rfl⟩
    exact ⟨rfl, ⟨rfl, rfl, rfl, fun _ _ => rfl⟩, rfl⟩
  · cases hr.trans hno

/-- The loop of a drain sends what is left of a segment. -/
theorem deliverFrom_answers (h : Answering D c answer) {fuel : ℕ} (next delivered : ℕ)
    {rest : List SpoolEntry} (hf : rest.length ≤ fuel) (s : Spool η) :
    ∃ r s', (D.deliverFrom t path fuel next rest delivered).alone c s = some (r, s')
      ∧ (r.isOk = true ↔ (InOrder.send D.group answer fuel rest s.env).1 = [])
      ∧ s'.env = (InOrder.send D.group answer fuel rest s.env).2 ∧ Sent path s s'
      ∧ ∃ k, rest.drop k = (InOrder.send D.group answer fuel rest s.env).1 ∧ k ≤ rest.length
        ∧ ((k = 0 ∧ s'.progress.acks path = s.progress.acks path)
          ∨ s'.progress.acks path = some (itoa (next + k : ℕ))) := by
  induction fuel generalizing next delivered rest s with
  | zero =>
    obtain rfl := List.eq_nil_of_length_eq_zero (Nat.le_zero.1 hf)
    exact ⟨.ok delivered, s, rfl, by simp [InOrder.send, Except.isOk, Except.toBool], rfl,
      ⟨rfl, rfl, rfl, fun _ _ => rfl⟩, 0, rfl, le_rfl, .inl ⟨rfl, rfl⟩⟩
  | succ fuel ih =>
    rcases rest with _ | ⟨e, rest⟩
    · exact ⟨.ok delivered, s, rfl, by simp [InOrder.send, Except.isOk, Except.toBool], rfl,
        ⟨rfl, rfl, rfl, fun _ _ => rfl⟩, 0, rfl, le_rfl, .inl ⟨rfl, rfl⟩⟩
    have hne : e :: rest ≠ [] := List.cons_ne_nil e rest
    rw [Draining.deliverFrom, InOrder.send.eq_3 _ _ _ _ _ hne, alone_bind, alone_mapError, h.ctx,
      Option.map_some, Option.bind_some]
    swap
    · exact hne
    dsimp only [Except.mapError]
    rw [alone_bind, alone_failIf, Option.bind_some]
    split_ifs with hz
    · exact ⟨_, s, rfl, by simp [Except.isOk, Except.toBool], rfl, ⟨rfl, rfl, rfl, fun _ _ => rfl⟩, 0,
        rfl, Nat.zero_le _, .inl ⟨rfl, rfl⟩⟩
    set group := (e :: rest).take (D.group (e :: rest)) with hgroup
    have hlen : ((e :: rest).drop (D.group (e :: rest))).length ≤ fuel := by
      rw [List.length_drop]
      omega
    rcases ha : answer group s.env with ⟨_ | _, env'⟩
    · obtain ⟨err, s₁, ⟨henv, hsent, hack⟩, hrun⟩ := round_refused t path h next delivered
        (D.deliverFrom t path fuel (next + group.length) ((e :: rest).drop (D.group (e :: rest)))
          (delivered + group.length)) (show (answer group s.env).1 = false by rw [ha])
      rw [ha] at henv
      exact ⟨_, s₁, hrun, by simp [Except.isOk, Except.toBool], henv, hsent, 0, rfl, Nat.zero_le _,
        .inl ⟨rfl, hack⟩⟩
    · obtain ⟨s₁, ⟨henv, hsent, hack⟩, hrun⟩ := round_taken t path h next delivered
        (D.deliverFrom t path fuel (next + group.length) ((e :: rest).drop (D.group (e :: rest)))
          (delivered + group.length)) (show (answer group s.env).1 = true by rw [ha])
      rw [ha] at henv
      obtain ⟨r, s', hrest, hok, henv', hsent', k, hdrop, hk, hacks⟩ :=
        ih (next + group.length) (delivered + group.length) hlen s₁
      rw [henv] at hok henv' hdrop
      have hcut : (e :: rest).drop group.length = (e :: rest).drop (D.group (e :: rest)) := by
        rw [hgroup, List.length_take]
        rcases le_total (D.group (e :: rest)) (e :: rest).length with hle | hle
        · rw [min_eq_left hle]
        · rw [min_eq_right hle, List.drop_length, List.drop_of_length_le hle]
      refine ⟨r, s', hrun.trans hrest, hok, henv', hsent.trans path hsent',
        group.length + k, ?_, ?_, .inr ?_⟩
      · rw [← List.drop_drop, hcut, hdrop]
      · rw [← hcut, List.length_drop] at hk
        have hle : group.length ≤ (e :: rest).length := List.length_take_le' _ _
        omega
      · rcases hacks with ⟨rfl, hsame⟩ | hnew
        · rw [hsame, hack, Nat.add_zero]
        · rw [hnew, Nat.add_assoc]

instance (total : ℕ) (ack : Option (List Char)) : Decidable (ValidAck total ack) :=
  decidable_of_iff (ack.all fun text => (atoi text).any fun n => 0 ≤ n && n ≤ (total : ℤ)) <| by
    rcases ack with _ | text
    · simp [ValidAck]
    · rcases h : atoi text with _ | n
      · simp [ValidAck, h]
      · simp only [ValidAck, Option.all_some, h, Option.any_some, Bool.and_eq_true, decide_eq_true_eq,
          Option.mem_def, Option.some.injEq, forall_eq']
        constructor
        · rintro ⟨h₀, h₁⟩
          exact ⟨n.toNat, by omega, by omega⟩
        · rintro ⟨k, hk, rfl⟩
          omega

/-- A segment's file with its checkpoint, as a pass finds it. -/
def found (content : List UInt8) (ack : Option (List Char)) : InOrder.Segment SpoolEntry :=
  match decodeSegment content with
  | none => .corrupt
  | some entries =>
    if ValidAck entries.length ack then .ready (entries.drop ((ack.bind atoi).getD 0).toNat)
    else .shut (entries.drop ((ack.bind atoi).getD 0).toNat)

def foundAt (s : Spool η) (n : SegName) : Option (InOrder.Segment SpoolEntry) :=
  (s.queue.segs n).map fun content => found content (s.progress.acks n)

theorem checkpoint_invalid (hc : c.fault = .none) {total : ℕ} (s : Spool η)
    (h : ¬ ValidAck total (s.progress.acks path)) :
    (checkpoint path total : SpoolM η θ ℕ).alone c s = some (.error .invalidCheckpoint, s) := by
  rcases hack : s.progress.acks path with _ | text
  · rw [hack] at h
    exact absurd (fun _ hno => nomatch hno) h
  · rcases hn : atoi text with _ | n
    · simp [checkpoint, fileOp, hc, hack, hn]
    · have hbad : n < 0 ∨ n > total := by
        by_contra hgood
        rw [hack] at h
        refine h fun text' htext => ⟨n.toNat, by omega, ?_⟩
        cases htext
        rw [hn]
        exact congrArg some (by omega)
      simp [checkpoint, fileOp, hc, hack, hn, hbad]

theorem ValidAck.checkpointOf_le {total : ℕ} {s : Spool η} (h : ValidAck total (s.progress.acks path)) :
    s.checkpointOf path ≤ total := by
  rcases hack : s.progress.acks path with _ | text
  · simp [checkpointOf, hack]
  · obtain ⟨k, hk, hn⟩ := h text hack
    simp only [checkpointOf, hack, Option.bind_some, hn, Option.getD_some]
    omega

/-- The checkpoint that a pass writes. -/
theorem found_itoa {content : List UInt8} {entries : List SpoolEntry} {n : ℕ}
    (hdec : decodeSegment content = some entries) (hn : n ≤ entries.length) :
    found content (some (itoa n)) = .ready (entries.drop n) := by
  have hlen := length_decodeSegment hdec
  simp only [maxSegmentBytes, maxRecordBytes] at hlen
  have hatoi : atoi (itoa n) = some (n : ℤ) := atoi_itoa (by omega) (by omega)
  have hvalid : ValidAck entries.length (some (itoa n)) := by
    intro text htext
    cases htext
    exact ⟨n, hn, hatoi⟩
  rw [found, hdec]
  dsimp only
  rw [if_pos hvalid, Option.bind_some, hatoi]
  rfl

/-- The run of a visit ends as `InOrder.visit` says. -/
structure Follows (v : Option (InOrder.Segment SpoolEntry) × Bool × η)
    (r : Except (ℕ × SpoolError) ℕ) (s s' : Spool η) : Prop where
  ok : r.isOk = v.2.1
  env : s'.env = v.2.2
  found : s'.foundAt path = v.1
  visited : Visited path s s'

theorem drainPath_corrupted (h : Answering D c answer) (delivered : ℕ) {s : Spool η}
    {content : List UInt8} (hmu : s.mu = none) (hseg : s.queue.segs path = some content)
    (hdec : decodeSegment content = none) :
    ∃ r s', (D.drainPath t path delivered).alone c s = some (r, s')
      ∧ Follows path (InOrder.visit D.group answer .corrupt s.env) r s s' := by
  obtain ⟨s', hrun, henv, hgone, hvisited⟩ :=
    drainPath_corrupt t path D h.fault delivered hmu hseg hdec
  refine ⟨_, s', hrun, rfl, henv, ?_, hvisited⟩
  rw [foundAt, hgone]
  rfl

theorem drainPath_shut (h : Answering D c answer) (delivered : ℕ) {s : Spool η}
    {content : List UInt8} {entries : List SpoolEntry} (hseg : s.queue.segs path = some content)
    (hdec : decodeSegment content = some entries)
    (hack : ¬ ValidAck entries.length (s.progress.acks path)) :
    ∃ r s', (D.drainPath t path delivered).alone c s = some (r, s')
      ∧ Follows path (InOrder.visit D.group answer
        (.shut (entries.drop (s.checkpointOf path))) s.env) r s s' := by
  rw [Draining.drainPath, alone_bind, alone_attempt, readSegment_alone path h.fault hseg, hdec,
    Option.map_some, Option.bind_some]
  dsimp only [Option.elim]
  rw [alone_bind, alone_mapError, checkpoint_invalid path h.fault s hack, Option.map_some,
    Option.bind_some]
  refine ⟨_, s, rfl, rfl, rfl, ?_, rfl, rfl, rfl, rfl, fun _ _ => rfl, fun _ _ => rfl⟩
  rw [foundAt, hseg, Option.map_some, found, hdec]
  dsimp only
  rw [if_neg hack]
  rfl

theorem drainPath_ready (h : Answering D c answer) (delivered : ℕ) {s : Spool η}
    {content : List UInt8} {entries : List SpoolEntry} (hmu : s.mu = none)
    (hseg : s.queue.segs path = some content) (hdec : decodeSegment content = some entries)
    (hack : ValidAck entries.length (s.progress.acks path)) :
    ∃ r s', (D.drainPath t path delivered).alone c s = some (r, s')
      ∧ Follows path (InOrder.visit D.group answer
        (.ready (entries.drop (s.checkpointOf path))) s.env) r s s' := by
  set next := s.checkpointOf path with hnext
  have hlen : (entries.drop next).length ≤ entries.length := by
    rw [List.length_drop]
    omega
  obtain ⟨r, s₁, hrun, hok, henv, hsent, k, hdrop, hk, hacks⟩ :=
    deliverFrom_answers t path h next delivered hlen s
  rw [InOrder.send_fuel D.group answer hlen le_rfl] at hok henv hdrop
  rw [Draining.drainPath, alone_bind, alone_attempt, readSegment_alone path h.fault hseg, hdec,
    Option.map_some, Option.bind_some]
  dsimp only [Option.elim]
  rw [alone_bind, alone_mapError, checkpoint_alone path h.fault s hack, Option.map_some,
    Option.bind_some]
  dsimp only [Except.mapError]
  rw [alone_bind, hrun, Option.bind_some, InOrder.visit]
  rcases hs : InOrder.send D.group answer (entries.drop next).length (entries.drop next) s.env with
    ⟨_ | ⟨x, left⟩, env'⟩
  all_goals rw [hs] at hok henv hdrop
  · rcases r with e | total
    · cases hok.2 rfl
    have hmu₁ : s₁.mu = none := hsent.mu.trans hmu
    have hseg₁ : s₁.queue.segs path = some content := by rw [hsent.queue, hseg]
    dsimp only
    rw [alone_bind, alone_mapError, remove_alone t path h.fault hmu₁ hseg₁, Option.map_some,
      Option.bind_some]
    refine ⟨_, _, rfl, rfl, henv, ?_, hsent.mu, hsent.drainMu, ?_, ?_, fun n hn => ?_, fun n hn => ?_⟩
    · simp [foundAt]
    · rw [← hsent.queue]
    · rw [← hsent.queue]
    · rw [← hsent.queue]
      exact Function.update_of_ne hn _ _
    · rw [← hsent.acks n hn]
      exact Function.update_of_ne hn _ _
  · rcases r with e | total
    swap
    · exact absurd (hok.1 rfl) (List.cons_ne_nil x left)
    refine ⟨.error e, s₁, rfl, rfl, henv, ?_, hsent.mu, hsent.drainMu, by rw [hsent.queue],
      by rw [hsent.queue], fun n _ => by rw [hsent.queue], hsent.acks⟩
    rw [foundAt, hsent.queue, hseg, Option.map_some]
    dsimp only at hdrop ⊢
    rw [← hdrop, List.drop_drop]
    refine congrArg some ?_
    rcases hacks with ⟨rfl, hsame⟩ | hnew
    · rw [hsame, found, hdec]
      dsimp only
      rw [if_pos hack]
      rfl
    · rw [hnew]
      have hle := hack.checkpointOf_le path
      rw [List.length_drop] at hk
      exact found_itoa hdec (by omega)

/-- What a pass does with one segment. -/
theorem drainPath_answers (h : Answering D c answer) (delivered : ℕ) {s : Spool η}
    {content : List UInt8} (hmu : s.mu = none) (hseg : s.queue.segs path = some content) :
    ∃ r s', (D.drainPath t path delivered).alone c s = some (r, s')
      ∧ Follows path (InOrder.visit D.group answer (found content (s.progress.acks path)) s.env) r s
        s' := by
  rcases hdec : decodeSegment content with _ | entries
  · rw [found, hdec]
    exact drainPath_corrupted t path h delivered hmu hseg hdec
  rw [found, hdec]
  dsimp only
  split_ifs with hack
  · exact drainPath_ready t path h delivered hmu hseg hdec hack
  · exact drainPath_shut t path h delivered hseg hdec hack

/-! ## A pass -/

/-- What a pass over `paths` leaves as it was. -/
structure Drained (paths : List SegName) (s s' : Spool η) : Prop where
  mu : s'.mu = s.mu
  drainMu : s'.drainMu = s.drainMu
  names : s'.queue.names = s.queue.names
  closed : s'.queue.closed = s.queue.closed
  others : ∀ n, n ∉ paths → s'.foundAt n = s.foundAt n

theorem Visited.foundAt {s s' : Spool η} (h : Visited path s s') {n : SegName} (hn : n ≠ path) :
    s'.foundAt n = s.foundAt n := by
  rw [Spool.foundAt, Spool.foundAt, h.segs n hn, h.acks n hn]

theorem filterMap_toList {α β : Type} (f : α → Option β) (a : α) (l : List α) :
    (a :: l).filterMap f = (f a).toList ++ l.filterMap f := by
  rw [List.filterMap_cons]
  cases f a <;> rfl

theorem drainPaths_answers (h : Answering D c answer) {paths : List SegName} (hnodup : paths.Nodup)
    (delivered : ℕ) {s : Spool η} (hmu : s.mu = none)
    (hsegs : ∀ n ∈ paths, (s.queue.segs n).isSome = true) :
    ∃ r s', (D.drainPaths t paths delivered).alone c s = some (r, s')
      ∧ (paths.filterMap s'.foundAt, s'.env)
        = InOrder.pass D.group answer (paths.filterMap s.foundAt) s.env
      ∧ Drained paths s s' := by
  induction paths generalizing delivered s with
  | nil => exact ⟨.ok delivered, s, rfl, rfl, rfl, rfl, rfl, rfl, fun _ _ => rfl⟩
  | cons path paths ih =>
    rw [List.nodup_cons] at hnodup
    obtain ⟨content, hseg⟩ := Option.isSome_iff_exists.1 (hsegs path List.mem_cons_self)
    have hne : ∀ n ∈ paths, n ≠ path := by
      rintro n hn rfl
      exact hnodup.1 hn
    obtain ⟨r, s₁, hrun, hfollows⟩ := drainPath_answers t path h delivered hmu hseg
    have hfound : s.foundAt path = some (found content (s.progress.acks path)) := by
      rw [foundAt, hseg, Option.map_some]
    have hsame : paths.filterMap s₁.foundAt = paths.filterMap s.foundAt :=
      List.filterMap_congr fun n hn => hfollows.visited.foundAt path (hne n hn)
    rw [Draining.drainPaths, alone_bind, alone_mapError, h.ctx, Option.map_some, Option.bind_some]
    dsimp only [Except.mapError]
    rw [alone_bind, hrun, Option.bind_some, List.filterMap_cons_some hfound, InOrder.pass]
    rcases hv : InOrder.visit D.group answer (found content (s.progress.acks path)) s.env with
      ⟨kept, _ | _, env'⟩
    all_goals rw [hv] at hfollows
    · rcases r with e | total
      swap
      · cases hfollows.ok
      refine ⟨.error e, s₁, rfl, ?_, hfollows.visited.mu, hfollows.visited.drainMu,
        hfollows.visited.names, hfollows.visited.closed, fun n hn => ?_⟩
      · rw [filterMap_toList, hfollows.found, hsame, hfollows.env]
      · exact hfollows.visited.foundAt path fun hp => hn (hp ▸ List.mem_cons_self)
    · rcases r with e | total
      · cases hfollows.ok
      have hkept : kept = none := by
        have hthrough := InOrder.visit_through D.group (show (InOrder.visit D.group answer
          (found content (s.progress.acks path)) s.env).2.1 = true by rw [hv])
        rwa [hv] at hthrough
      obtain ⟨r, s', hrest, hpass, hdrained⟩ := ih hnodup.2 total (hfollows.visited.mu.trans hmu)
        fun n hn => by
          rw [hfollows.visited.segs n (hne n hn)]
          exact hsegs n (List.mem_cons_of_mem path hn)
      refine ⟨r, s', hrest, ?_, hdrained.mu.trans hfollows.visited.mu,
        hdrained.drainMu.trans hfollows.visited.drainMu, hdrained.names.trans hfollows.visited.names,
        hdrained.closed.trans hfollows.visited.closed, fun n hn => ?_⟩
      · have hgone : s'.foundAt path = none := by
          rw [hdrained.others path hnodup.1, hfollows.found, hkept]
        rw [List.filterMap_cons_none hgone, hpass, hsame, hfollows.env]
      · rw [List.mem_cons, not_or] at hn
        rw [hdrained.others n hn.2]
        exact hfollows.visited.foundAt path hn.1

/-- The queue as a pass finds it. -/
def lined (s : Spool η) : List (InOrder.Segment SpoolEntry) := s.segments.filterMap s.foundAt

theorem foundAt_eq_none {s : Spool η} {n : SegName} : s.foundAt n = none ↔ s.queue.segs n = none :=
  Option.map_eq_none_iff

theorem Drained.lined {s s' : Spool η} (h : Drained s.segments s s') :
    s'.lined = s.segments.filterMap s'.foundAt := by
  have hsegs : ∀ n, s.queue.segs n = none → s'.queue.segs n = none := by
    intro n hn
    have hmem : n ∉ s.segments := by
      simp [segments, List.mem_mergeSort, hn]
    rw [← foundAt_eq_none, h.others n hmem]
    exact foundAt_eq_none.2 hn
  rw [Spool.lined, segments_filter h.names hsegs, List.filterMap_filter]
  refine List.filterMap_congr fun n _ => ?_
  rcases hn : s'.queue.segs n with _ | content
  · simp [foundAt_eq_none.2 hn]
  · simp

/-- A pass over a queue that nobody uses. -/
theorem pass_answers (h : Answering D c answer) {s : Spool η} (hidle : Idle s) :
    ∃ r s', (D.pass t).alone c s = some (r, s') ∧ Idle s'
      ∧ (s'.lined, s'.env) = InOrder.pass D.group answer s.lined s.env := by
  obtain ⟨current, curSize, passes, hwhole⟩ := pass_begun t D h.fault hidle
  obtain ⟨r, s', hrun, hpass, hdrained⟩ := drainPaths_answers t h hidle.segments_nodup 0
    (s := begun t current curSize passes s) rfl (by simp [segments, begun, List.mem_mergeSort])
  have hlined : { s' with drainMu := none }.lined = s.segments.filterMap s'.foundAt :=
    Drained.lined (s := s) ⟨hdrained.mu.trans hidle.mu.symm, hidle.drainMu.symm, hdrained.names,
      hdrained.closed, hdrained.others⟩
  refine ⟨r, { s' with drainMu := none }, hwhole hrun, ⟨hdrained.mu, rfl, ?_, ?_⟩, ?_⟩
  · exact hdrained.closed.trans hidle.opened
  · exact (congrArg List.Nodup hdrained.names).mpr hidle.nodup
  · rw [hlined]
    exact hpass

theorem drainBatches_answers {ctx : SpoolM η θ Unit} {deliver : List SpoolEntry → SpoolM η θ Unit}
    {maximum : ℕ} (hm : 1 ≤ maximum) (hmax : maximum ≤ maxBatchEvents)
    (h : Answering ⟨ctx, groupSize maximum 0 1024, deliver, .corruptEvidence⟩ c answer) {s : Spool η}
    (hidle : Idle s) :
    ∃ r s', (drainBatches t ctx maximum deliver).alone c s = some (r, s') ∧ Idle s'
      ∧ (s'.lined, s'.env) = InOrder.pass (groupSize maximum 0 1024) answer s.lined s.env := by
  rw [drainBatches, alone_bind, alone_failIf, Option.bind_some, if_neg (by omega)]
  exact pass_answers t h hidle

end Segment

end Spool

end WMonitor
