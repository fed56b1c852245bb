import WMonitor.Proofs.SpoolDrain

/-!
# Runs of the queue

Any calls of `append`, `drain`, `drainBatches`, `bindDestination` and `close`, step by step in any order,
with callbacks and file operations that fail as they please and restarts between any two steps. Nothing
that was appended is lost, passes present what is waiting in the order it was appended, and nothing goes
out under a binding that it was not appended for.
-/

namespace WMonitor

/-- An environment that nothing is known of. -/
def Outside.nothing : Outside Unit where
  inv _ := True
  sees _ _ _ := True
  refl _ _ := trivial
  trans _ _ := trivial
  taken _ _ := True
  takenSees _ _ := trivial
  admits _ _ := True
  admitsSees _ _ := trivial
  clean _ := True

namespace Spool

open Prog

variable {U : URLs} {t : ℕ}

/-! ## The calls -/

theorem anyCallback_triple {F : Spool Unit → Prop} (hF : (protocol U .nothing).Stable t F) :
    Triple (protocol U .nothing) t F anyCallback (fun _ => F) fun _ => F := by
  refine Triple.act hF (fun _ => hF) (fun _ => hF) ?_ ?_
  · intro s c a s' hi hs hf
    split_ifs at hf <;> cases hf
    exact ⟨.idle hi, hs⟩
  · intro s c e s' hi hs hf
    split_ifs at hf <;> cases hf
    exact ⟨.idle hi, hs⟩

theorem forM_anyCallback_triple {F : Spool Unit → Prop} (hF : (protocol U .nothing).Stable t F)
    (group : List SpoolEntry) :
    Triple (protocol U .nothing) t F (group.forM fun _ => anyCallback) (fun _ => F) fun _ => F := by
  induction group with
  | nil => exact Triple.ret hF fun _ _ h => h
  | cons e group ih => exact Triple.bind (anyCallback_triple hF) fun _ => ih

theorem drain_triple :
    Triple (protocol U .nothing) t (Fresh t) (drain t fun _ _ => anyCallback)
      (fun _ => Complete t) fun _ _ => True :=
  pass_triple
    { ctx := fun _ hF => Triple.ret hF fun _ _ h => h
      deliver := fun _ group hF _ _ =>
        (forM_anyCallback_triple hF group).conseq (fun _ _ h => h) (fun _ _ _ h => ⟨h, trivial⟩)
          fun _ _ _ h => h }

theorem drainBatches_triple (maximum : ℕ) :
    Triple (protocol U .nothing) t (Fresh t)
      (drainBatches t anyCallback maximum fun _ => anyCallback) (fun _ => Complete t)
      fun _ _ => True := by
  refine Triple.bind (Q := fun _ => Fresh t) (Triple.failIf (fun _ _ _ _ h hf => h.fresh hf)
    (.const True) (fun _ _ _ h => h) fun _ _ _ _ => trivial) fun _ => ?_
  exact pass_triple
    { ctx := fun _ hF => anyCallback_triple hF
      deliver := fun _ _ hF _ _ => (anyCallback_triple hF).conseq (fun _ _ h => h)
        (fun _ _ _ h => ⟨h, trivial⟩) fun _ _ _ h => h }

/-- What a call promises on return. -/
def Promise (call : SpoolCall) (t : ℕ) (r : Except (ℕ × SpoolError) ℕ) (s : Spool Unit) : Prop :=
  match call, r with
  | .append payloadType body, .ok _ => AppendedAs s.queue t payloadType body
  | .drain, .ok _ => Complete t s
  | .drainBatches _, .ok _ => Complete t s
  | _, _ => True

theorem serve_triple (call : SpoolCall) :
    Triple (protocol U .nothing) t (Fresh t) (serve U call t) (fun k => Promise call t (.ok k))
      fun e => Promise call t (.error e) := by
  cases call with
  | append payloadType body =>
    refine Triple.mapError (Triple.bind ((append_triple payloadType body).conseq
      (fun _ _ _ _ _ _ => trivial) (fun _ _ _ h => h) fun _ _ _ _ => trivial) fun _ => ?_)
    exact Triple.ret (stable_written _) fun _ _ h => h
  | drain => exact drain_triple
  | drainBatches maximum => exact drainBatches_triple maximum
  | bindDestination origin tenantID serverID =>
    refine Triple.mapError (Triple.bind ((bindDestination_triple origin tenantID serverID).conseq
      (fun _ _ _ => trivial) (fun _ _ _ h => h) fun _ _ _ _ => trivial) fun _ => ?_)
    exact Triple.ret (.const True) fun _ _ h => h
  | close =>
    refine Triple.mapError (Triple.bind (close_triple.conseq
      (fun _ _ _ => trivial) (fun _ _ _ h => h) fun _ _ _ _ => trivial) fun _ => ?_)
    exact Triple.ret (.const True) fun _ _ h => h

theorem Promise.later {call : SpoolCall} {r : Except (ℕ × SpoolError) ℕ} {s s' : Spool Unit}
    (hw : s.queue.written <+: s'.queue.written) (hc : Complete t s → Complete t s')
    (h : Promise call t r s) : Promise call t r s' := by
  unfold Promise at h ⊢
  split at h
  · obtain ⟨w, hmem, hrec⟩ := h
    exact ⟨w, hw.subset hmem, hrec⟩
  · exact hc h
  · exact hc h
  · trivial

/-- The queue keeps to its protocol, and its calls to their promises. -/
theorem service_sound : Pool.Sound (service U) (protocol U .nothing) Fresh Promise where
  body call _ s hi hf := (serve_triple call).safe s hi hf
  env s _ hi := ⟨hi, fun t => Sees.refl _ t s⟩
  restart _ hi := hi.reopen
  freshSees _ _ _ h hf := h.fresh hf
  freshRestart _ _ hf := hf
  postSees _ _ _ _ _ h hp := hp.later h.written h.complete
  postRestart _ _ _ _ hp := hp.later List.prefix_rfl fun hc => hc

/-- An empty queue after a list of turns. -/
def reached (U : URLs) (turns : List (Turn (Choice Unit) SpoolCall Empty)) :=
  Pool.after (service U) { env := () } turns

theorem reached_kept (U : URLs) (turns : List (Turn (Choice Unit) SpoolCall Empty)) :
    Pool.Kept (protocol U .nothing) Fresh Promise (reached U turns) := by
  have hi : (protocol U .nothing).inv { env := () } := Inv.empty U trivial trivial
  exact Pool.sound service_sound hi (fun _ => ⟨rfl, rfl⟩) turns

/-! ## Nothing is lost -/

/-- The record of a type and a JSON value is the line with this index of a file. -/
def HasRecord (file : Option (List UInt8)) (i : ℕ) (payloadType : String) (v : Json.Value) : Prop :=
  ∃ content line, file = some content ∧ (splitLines content).1[i]? = some line ∧
    IsRecord line payloadType v

/-- A type and a JSON value are waiting at a place of the queue, or in quarantine, or were part of a
call of `deliver` that succeeded. -/
def Accounted {η : Type} (s : Spool η) (n : SegName) (i : ℕ) (payloadType : String)
    (v : Json.Value) : Prop :=
  (HasRecord (s.queue.segs n) i payloadType v ∧ s.checkpointOf n ≤ i) ∨
    HasRecord (s.queue.held n) i payloadType v ∨
    ∃ e : SpoolEntry, DeliveredAt s.progress n i e ∧ e.payloadType = payloadType ∧ e.body.value = v

section Accounted

variable {η : Type} {O : Outside η} {s : Spool η} {w : Written}

theorem mem_entriesOf {ws : List Written} (hw : w ∈ ws) : w ∈ entriesOf ws w.name := by
  simp [entriesOf, hw]

theorem Inv.hasRecord {q : Queue} {p : Progress} {c : Custody} {e : η} (h : Inv U O q p c e)
    (hw : w ∈ q.written) (ht : w.name ∉ q.torn) {content : List UInt8}
    (hs : q.segs w.name = some content ∨ q.held w.name = some content) :
    HasRecord (some content) w.index w.entry.payloadType w.entry.body.value := by
  refine ⟨content, w.entry.marshal, rfl, ?_, isRecord_marshal (h.clocked w hw)⟩
  rw [h.content w.name content ht hs, splitLines_segmentOf, List.getElem?_map, List.getElem?_map,
    h.entry_at (mem_entriesOf hw)]
  rfl

theorem Inv.accounted (h : (protocol U O).inv s) (hw : w ∈ s.queue.written)
    (ht : w.name ∉ s.queue.torn) :
    Accounted s w.name w.index w.entry.payloadType w.entry.body.value := by
  have hdelivered : DeliveredAt s.progress w.name w.index w.entry.stored →
      Accounted s w.name w.index w.entry.payloadType w.entry.body.value := fun hd =>
    .inr (.inr ⟨_, hd, rfl, Json.value_compact _⟩)
  cases hs : s.queue.segs w.name with
  | some content =>
    by_cases hle : s.checkpointOf w.name ≤ w.index
    · refine .inl ⟨?_, hle⟩
      rw [hs]
      exact h.hasRecord hw ht (.inl hs)
    · cases ha : s.progress.acks w.name with
      | none => exact absurd ((acked_of_none ha).trans_le (Nat.zero_le _)) hle
      | some text =>
        obtain ⟨es, -, hdec, -⟩ := h.ack w.name text content (.inl ha) (.inl hs)
        obtain ⟨-, -, hall⟩ := h.ack_acked ha hs hdec
        refine hdelivered (hall w.index (Nat.not_le.1 hle) _ ?_)
        rw [h.decoded ht (.inl hs) hdec, List.getElem?_map, h.entry_at (mem_entriesOf hw)]
        rfl
  | none =>
    rcases h.gone w.name (h.writtenName w hw) hs with hheld | hrem
    · obtain ⟨content, hc⟩ := Option.ne_none_iff_exists'.1 hheld
      refine .inr (.inl ?_)
      rw [hc]
      exact h.hasRecord hw ht (.inr hc)
    · exact hdelivered (h.removed w.name hrem ht w (mem_entriesOf hw))

theorem Inv.place_inj (h : (protocol U O).inv s) {w' : Written} (hw : w ∈ s.queue.written)
    (hw' : w' ∈ s.queue.written) (hn : w.name = w'.name) (hi : w.index = w'.index) : w = w' := by
  have hat := h.entry_at (mem_entriesOf hw)
  rw [hn, hi, h.entry_at (mem_entriesOf hw')] at hat
  exact (Option.some.inj hat).symm

end Accounted

/-- An append and a pass, without faults. -/
def sampleTurns : List (Turn (Choice Unit) SpoolCall Empty) :=
  .start (.append "metric" "[1]".toList) :: List.replicate 40 (.thread 0 { env := () }) ++
    .start .drain :: List.replicate 40 (.thread 1 { env := () })

theorem sampleTurns_results : (reached ⟨fun _ => none, id⟩ sampleTurns).results
    = [(0, .append "metric" "[1]".toList, .ok 0), (1, .drain, .ok 1)] := by
  decide +kernel

theorem sampleTurns_regular : (reached ⟨fun _ => none, id⟩ sampleTurns).shared.queue.torn = [] ∧
    (reached ⟨fun _ => none, id⟩ sampleTurns).shared.queue.names.Pairwise
      fun a b => a.nanos < b.nanos := by
  decide +kernel

end Spool

end WMonitor
