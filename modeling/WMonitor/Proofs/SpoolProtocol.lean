import WMonitor.Proofs.Prog
import WMonitor.Proofs.SpoolRecord
import WMonitor.Spool

/-!
# What the queue's threads rely on

The invariant of the queue, and what a thread may see the others do: whoever holds `mu` sees its part
of the state unchanged, and whoever holds `drainMu` also sees the segments that passes have listed
unchanged, since those are sealed for good. The environment that `deliver` talks to comes with a
protocol of its own and says which groups it has taken.
-/

namespace WMonitor

/-- The environment of a queue: its protocol, which groups it has taken for good, what may be appended
from now on, and that nothing was presented to it but what may have been. -/
structure Outside (η : Type) extends Protocol η where
  taken : List SpoolEntry → η → Prop
  takenSees : ∀ {t g e e'}, sees t e e' → taken g e → taken g e'
  admits : SpoolEntry → η → Prop
  admitsSees : ∀ {t x e e'}, sees t e e' → admits x e → admits x e'
  clean : η → Prop

/-- An entry appended under `old` may go out under `new`. -/
def Compatible (U : URLs) (old new : Option SpoolBinding) : Prop :=
  ∀ b, old = some b → ∃ b', new = some b' ∧ U.sameHubOrigin b.origin b'.origin = true ∧
    (b.tenantID = "" ∨ b.tenantID = b'.tenantID) ∧ (b.serverID = "" ∨ b.serverID = b'.serverID)

theorem Compatible.refl (U : URLs) (b : Option SpoolBinding) : Compatible U b b :=
  fun b hb => ⟨b, hb, U.sameHubOrigin_refl b.origin, .inr rfl, .inr rfl⟩

namespace Spool

variable {η θ α : Type}

/-! ## What the invariant speaks of -/

/-- The segments that passes have listed. -/
def listed (c : Custody) : List SegName := c.passes.flatMap Pass.paths

/-- What was written to a segment. -/
def entriesOf (ws : List Written) (n : SegName) : List Written := ws.filter fun w => w.name = n

/-- The entry at an index of a segment was part of a call of `deliver` that succeeded. -/
def DeliveredAt (p : Progress) (n : SegName) (i : ℕ) (e : SpoolEntry) : Prop :=
  ∃ g ∈ p.delivered, g.name = n ∧ g.first ≤ i ∧ g.entries[i - g.first]? = some e

/-- Entries from an index of a segment on, with their places. -/
def places (n : SegName) : ℕ → List SpoolEntry → List (SegName × ℕ × SpoolEntry)
  | _, [] => []
  | i, e :: es => (n, i, e) :: places n (i + 1) es

/-- What a call has presented to `deliver`, in order. -/
def presentedBy (p : Progress) (t : ℕ) : List (SegName × ℕ × SpoolEntry) :=
  (p.presented.filter fun g => g.op = t).flatMap fun g => places g.name g.first g.entries

def Written.place (w : Written) : SegName × ℕ × SpoolEntry := (w.name, w.index, w.entry.stored)

/-- No write has failed, and segments were created at strictly increasing times. -/
def Regular (q : Queue) : Prop :=
  q.torn = [] ∧ q.names.Pairwise fun a b => a.nanos < b.nanos

def boundTo (c : Custody) : Option SpoolBinding := c.bind.bind SpoolBinding.unmarshal

/-- A segment's checkpoint, in the queue or in quarantine. -/
def HasAck (p : Progress) (c : Custody) (n : SegName) (text : List Char) : Prop :=
  p.acks n = some text ∨ c.heldAcks n = some text

/-! ## The invariant -/

structure Inv (U : URLs) (O : Outside η) (q : Queue) (p : Progress) (c : Custody) (e : η) : Prop where
  env : O.inv e
  names : q.names.Nodup
  liveName : ∀ n, q.segs n ≠ none → n ∈ q.names
  heldName : ∀ n, q.held n ≠ none → n ∈ q.names
  heldOnly : ∀ n, q.held n ≠ none → q.segs n = none
  writtenName : ∀ w ∈ q.written, w.name ∈ q.names
  tornName : ∀ n ∈ q.torn, n ∈ q.names
  listedName : ∀ n ∈ listed c, n ∈ q.names
  ackListed : ∀ n text, HasAck p c n text → n ∈ listed c
  removedListed : ∀ n ∈ q.removed, n ∈ listed c
  presentedListed : ∀ g ∈ p.presented, g.name ∈ listed c
  /-- The open segment is the newest one, and is in no pass. -/
  current : ∀ n, q.current = some n → q.names.getLast? = some n ∧ n ∉ listed c ∧
    ∃ content, q.segs n = some content ∧ (n ∉ q.torn → q.offset = content.length)
  clocked : ∀ w ∈ q.written, w.entry.Clocked
  admitted : ∀ w ∈ q.written, O.admits w.entry e
  clean : q.torn = [] → O.clean e
  index : ∀ n, (entriesOf q.written n).map Written.index = List.range (entriesOf q.written n).length
  appendOrder : q.written = q.names.flatMap (entriesOf q.written)
  content : ∀ n content, n ∉ q.torn → (q.segs n = some content ∨ q.held n = some content) →
    content = segmentOf ((entriesOf q.written n).map Written.entry)
  /-- What a checkpoint has passed was delivered. -/
  ack : ∀ n text content, HasAck p c n text → (q.segs n = some content ∨ q.held n = some content) →
    ∃ (es : List SpoolEntry) (m : ℕ), decodeSegment content = some es ∧ text = itoa m ∧
      m ≤ es.length ∧ ∀ i < m, ∀ e, es[i]? = some e → DeliveredAt p n i e
  gone : ∀ n ∈ q.names, q.segs n = none → q.held n ≠ none ∨ n ∈ q.removed
  removed : ∀ n ∈ q.removed, n ∉ q.torn → ∀ w ∈ entriesOf q.written n,
    DeliveredAt p n w.index w.entry.stored
  taken : ∀ g ∈ p.delivered, O.taken g.entries e
  delivered : ∀ g ∈ p.delivered, g ∈ p.presented
  /-- What is presented was appended. -/
  presented : ∀ g ∈ p.presented, g.name ∉ q.torn →
    g.entries <+: ((entriesOf q.written g.name).map fun w => w.entry.stored).drop g.first
  /-- Passes present what was waiting, from the front. -/
  passOrder : Regular q → ∀ pass ∈ c.passes,
    presentedBy p pass.op <+: pass.pending.map Written.place
  bound : ∀ text, c.bind = some text → ∃ b : SpoolBinding, text = b.marshal ∧ b.origin ≠ ""
  liveBinding : ∀ w ∈ q.written, q.segs w.name ≠ none → Compatible U w.binding (boundTo c)
  presentedBinding : ∀ g ∈ p.presented, ∀ w ∈ q.written, w.name = g.name →
    Compatible U w.binding g.binding

/-! ## What threads see -/

/-- What is seen of a sealed segment. -/
structure SealedView where
  seg : Option (List UInt8)
  entries : List Written
  torn : Bool

def view (q : Queue) (c : Custody) (n : SegName) : Option SealedView :=
  if n ∈ listed c then some ⟨q.segs n, entriesOf q.written n, n ∈ q.torn⟩ else none

/-- What thread `t` may see the others do. -/
structure Sees (O : Outside η) (t : ℕ) (s s' : Spool η) : Prop where
  env : O.sees t s.env s'.env
  names : s.queue.names <+: s'.queue.names
  written : s.queue.written <+: s'.queue.written
  torn : s.queue.torn <+: s'.queue.torn
  presented : s'.progress.presented.filter (fun g => g.op = t)
    = s.progress.presented.filter fun g => g.op = t
  passes : s'.custody.passes.filter (fun g => g.op = t)
    = s.custody.passes.filter fun g => g.op = t
  mu : s.mu = some t → s'.mu = some t ∧ s'.queue = s.queue ∧ s'.custody = s.custody
  drainMu : s.drainMu = some t → s'.drainMu = some t ∧ s'.progress = s.progress ∧
    s'.custody = s.custody ∧ view s'.queue s'.custody = view s.queue s.custody

theorem Sees.refl (O : Outside η) (t : ℕ) (s : Spool η) : Sees O t s s where
  env := O.refl t _
  names := List.prefix_rfl
  written := List.prefix_rfl
  torn := List.prefix_rfl
  presented := rfl
  passes := rfl
  mu h := ⟨h, rfl, rfl⟩
  drainMu h := ⟨h, rfl, rfl, rfl⟩

theorem Sees.trans {O : Outside η} {t : ℕ} {a b c : Spool η} (h : Sees O t a b)
    (h' : Sees O t b c) : Sees O t a c where
  env := O.trans h.env h'.env
  names := h.names.trans h'.names
  written := h.written.trans h'.written
  torn := h.torn.trans h'.torn
  presented := h'.presented.trans h.presented
  passes := h'.passes.trans h.passes
  mu ht := by
    obtain ⟨hb, hq, hc⟩ := h.mu ht
    obtain ⟨hb', hq', hc'⟩ := h'.mu hb
    exact ⟨hb', hq'.trans hq, hc'.trans hc⟩
  drainMu ht := by
    obtain ⟨hb, hp, hc, hv⟩ := h.drainMu ht
    obtain ⟨hb', hp', hc', hv'⟩ := h'.drainMu hb
    exact ⟨hb', hp'.trans hp, hc'.trans hc, hv'.trans hv⟩

def protocol (U : URLs) (O : Outside η) : Protocol (Spool η) where
  inv s := Inv U O s.queue s.progress s.custody s.env
  sees := Sees O
  refl := Sees.refl O
  trans := Sees.trans

end Spool

end WMonitor
