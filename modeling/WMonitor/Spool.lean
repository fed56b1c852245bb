import WMonitor.Ingest
import WMonitor.Prog
import WMonitor.SpoolRecord
import WMonitor.Transport

/-!
# The agent's durable queue

Segments of records, a checkpoint file for each, a quarantine directory and the destination the queue
is bound to. `append`, `drain`, `drainBatches`, `bindDestination` and `close` are programs whose steps
are single file operations, so that a crash can fall between any two of them; any of them may also
fail. `mu` and `drainMu` are the two mutexes, and the state is laid out by which of them guards what.
The history of the queue (what was written where, what was presented to `deliver` and what of it was
taken) is kept beside the files. A new segment gets a name that was never used before.
-/

namespace WMonitor

inductive SpoolError
  | closed
  | io
  | full
  | fullUnrecorded
  | marshal
  | entryTooLarge
  | rollback
  | destinationRequired
  | invalidBinding
  | invalidCheckpoint
  | invalidRecord
  | corruptSegment
  | corruptEvidence
  | invalidBatchSize
  | transportBudget
  | cancelled
  /-- The callback's own error; `retryAfter` is there if it may be retried. -/
  | deliver (message : String) (retryAfter : Option ℤ)
  deriving DecidableEq

inductive LossReason
  | overflow
  | corruptSegment
  | permanentRejection
  deriving DecidableEq

/-! ## The state -/

/-- One record that was written, or begun: by which call, where, and under which binding. -/
structure Written where
  op : ℕ
  name : SegName
  index : ℕ
  entry : SpoolEntry
  binding : Option SpoolBinding

/-- A call of `deliver`: by which pass, from which segment, from which index on, under which
binding. -/
structure Presented where
  op : ℕ
  name : SegName
  first : ℕ
  entries : List SpoolEntry
  binding : Option SpoolBinding

/-- A pass: the segments it listed, and what was waiting then, in the order it was appended. -/
structure Pass where
  op : ℕ
  paths : List SegName
  pending : List Written

/-- What `mu` guards. The files in `held` are in the quarantine directory. -/
structure Queue where
  current : Option SegName := none
  curSize : ℕ := 0
  /-- Where the open file is written next. -/
  offset : ℕ := 0
  closed : Bool := false
  /-- Every name that was ever given to a segment, in order. -/
  names : List SegName := []
  segs : SegName → Option (List UInt8) := fun _ => none
  held : SegName → Option (List UInt8) := fun _ => none
  loss : Option (LossReason → ℕ) := none
  written : List Written := []
  /-- The segments that a write fault has hit. -/
  torn : List SegName := []
  /-- The segments that a pass has removed. -/
  removed : List SegName := []

/-- What `drainMu` guards. -/
structure Progress where
  acks : SegName → Option (List Char) := fun _ => none
  presented : List Presented := []
  /-- The calls of `deliver` that succeeded. -/
  delivered : List Presented := []

/-- What changes only under both. -/
structure Custody where
  bind : Option (List Char) := none
  heldAcks : SegName → Option (List Char) := fun _ => none
  passes : List Pass := []

/-- The queue with its directory, and the environment that `deliver` talks to. -/
structure Spool (η : Type) where
  mu : Option ℕ := none
  drainMu : Option ℕ := none
  queue : Queue := {}
  progress : Progress := {}
  custody : Custody := {}
  env : η

/-- How a file operation goes; replacing a file may also fail after it took effect. -/
inductive Fault
  | none
  | before
  | after
  deriving DecidableEq

/-- What a step cannot influence. -/
structure Choice (θ : Type) where
  fault : Fault := .none
  /-- The clock in nanoseconds. -/
  now : Fin (2 ^ 63) := 0
  rand : ℕ := 0
  /-- A write that stops after so many bytes. -/
  short : Option ℕ := none
  /-- The bytes of the directory's other files. -/
  others : ℕ := 0
  env : θ

abbrev SpoolM (η θ α : Type) : Type 1 := Prog (Spool η) (Choice θ) SpoolError α

namespace Spool

variable {η θ α : Type}

def bound (s : Spool η) : Option SpoolBinding := s.custody.bind.bind SpoolBinding.unmarshal

def checkpointOf (s : Spool η) (n : SegName) : ℕ :=
  (((s.progress.acks n).bind atoi).getD 0).toNat

/-- What is waiting to be delivered, in the order it was appended. -/
def pending (s : Spool η) : List Written :=
  s.queue.written.filter fun e => (s.queue.segs e.name).isSome && s.checkpointOf e.name ≤ e.index

/-- The segments in the order of their file names. -/
def segments (s : Spool η) : List SegName :=
  (s.queue.names.filter fun n => (s.queue.segs n).isSome).mergeSort
    fun a b => decide (a.fileName ≤ b.fileName)

def bytes (s : Spool η) : ℕ :=
  (s.queue.names.map fun n => ((s.queue.segs n).getD []).length + ((s.queue.held n).getD []).length
    + ((s.progress.acks n).getD []).length + ((s.custody.heldAcks n).getD []).length).sum
    + (encodeText (s.custody.bind.getD [])).length

def onQueue (s : Spool η) (f : Queue → Queue) : Spool η := { s with queue := f s.queue }

def onProgress (s : Spool η) (f : Progress → Progress) : Spool η :=
  { s with progress := f s.progress }

def onCustody (s : Spool η) (f : Custody → Custody) : Spool η := { s with custody := f s.custody }

/-! ## Steps -/

/-- An operation on the files. -/
def fileOp (f : Spool η → Except SpoolError (α × Spool η)) : SpoolM η θ α :=
  .act fun s c => some <|
    if c.fault = .none then
      match f s with
      | .ok (a, s') => (.ok a, s')
      | .error e => (.error e, s)
    else (.error .io, s)

/-- An operation that only matters when it fails: `Sync`, `Chmod`, `MkdirAll` and their like. -/
def touch : SpoolM η θ Unit := fileOp fun s => .ok ((), s)

/-- `spoolReplace`: a new file is renamed over the old one, and the directory synced. -/
def spoolReplace (f : Spool η → Spool η) : SpoolM η θ Unit :=
  .act fun s c => some <|
    match c.fault with
    | .none => (.ok (), f s)
    | .before => (.error .io, s)
    | .after => (.error .io, f s)

def clock : SpoolM η θ (Fin (2 ^ 63)) := .act fun s c => some (.ok c.now, s)

def lockMu (t : ℕ) : SpoolM η θ Unit :=
  .act fun s _ => if s.mu = none then some (.ok (), { s with mu := some t }) else none

def unlockMu : SpoolM η θ Unit := .modify fun s => { s with mu := none }

def lockDrainMu (t : ℕ) : SpoolM η θ Unit :=
  .act fun s _ => if s.drainMu = none then some (.ok (), { s with drainMu := some t }) else none

def unlockDrainMu : SpoolM η θ Unit := .modify fun s => { s with drainMu := none }

/-- Between `s.mu.Lock()` and `s.mu.Unlock()`. -/
def locked (t : ℕ) (p : SpoolM η θ α) : SpoolM η θ α := do
  lockMu t
  let r ← p.attempt
  unlockMu
  .ofExcept r

/-- Between `s.drainMu.Lock()` and `s.drainMu.Unlock()`. -/
def drainLocked {ε : Type} (t : ℕ) (wrap : SpoolError → ε) (p : Prog (Spool η) (Choice θ) ε α) :
    Prog (Spool η) (Choice θ) ε α := do
  (lockDrainMu t).mapError wrap
  let r ← p.attempt
  unlockDrainMu.mapError wrap
  .ofExcept r

/-! ## Segments -/

def sealLocked : SpoolM η θ Unit := do
  let current ← .read (·.queue.current)
  if current.isNone then pure ()
  else do
    touch
    .act fun s c => some (if c.fault = .none then .ok () else .error .io,
      s.onQueue fun q => { q with current := none, curSize := 0 })

def segmentsLocked : SpoolM η θ (List SegName) := fileOp fun s => .ok (s.segments, s)

def createTemp (now : Fin (2 ^ 63)) : SpoolM η θ SegName :=
  .act fun s c =>
    let n : SegName := ⟨now, c.rand⟩
    if n ∈ s.queue.names then none
    else if c.fault = .none then
      some (.ok n, s.onQueue fun q =>
        { q with names := q.names ++ [n], segs := Function.update q.segs n (some []) })
    else some (.error .io, s)

def ensureSegmentLocked (incoming : ℕ) : SpoolM η θ Unit := do
  let q ← .read (·.queue)
  if q.current.isSome ∧ q.curSize + incoming ≤ maxSegmentBytes then pure ()
  else do
    sealLocked
    let now ← clock
    let n ← createTemp now
    touch
    touch
    .modify fun s => s.onQueue fun q => { q with current := some n, curSize := 0, offset := 0 }

def recordLossLocked (reason : LossReason) : SpoolM η θ Unit := do
  let counts ← fileOp fun s => .ok (s.queue.loss.getD fun _ => 0, s)
  let counts := if counts reason = 2 ^ 64 - 1 then counts
    else Function.update counts reason (counts reason + 1)
  spoolReplace fun s => s.onQueue fun q => { q with loss := some counts }

/-- Backpressure: nothing is evicted. -/
def evictIfFullLocked (incoming : ℕ) : SpoolM η θ Unit := do
  let total ← .act fun s c =>
    some (if c.fault = .none then .ok (s.bytes + c.others) else .error .io, s)
  if incoming > maxSpoolBytes ∨ total > maxSpoolBytes - incoming then do
    let r ← (recordLossLocked .overflow).attempt
    match r with
    | .ok () => .fail .full
    | .error _ => .fail .fullUnrecorded
  else pure ()

/-! ## Append -/

/-- Bytes written at an offset; a gap before it reads as zeros. -/
def writeAt (offset : ℕ) (data content : List UInt8) : List UInt8 :=
  content.take offset ++ List.replicate (offset - content.length) 0 ++ data
    ++ content.drop (offset + data.length)

def truncateTo (size : ℕ) (content : List UInt8) : List UInt8 :=
  content.take size ++ List.replicate (size - content.length) 0

/-- Bytes go to the open segment, as the record `w` or the beginning of it. -/
def put (q : Queue) (w : Written) (data : List UInt8) (curSize : ℕ) (torn : List SegName) : Queue :=
  { q with
    segs := Function.update q.segs w.name ((q.segs w.name).map (writeAt q.offset data))
    offset := q.offset + data.length
    curSize := curSize
    written := q.written ++ [w]
    torn := torn }

/-- The write of a line that `t` appends, and `curSize` after it. -/
def write (t : ℕ) (entry : SpoolEntry) (line : List UInt8) : SpoolM η θ Unit :=
  .act fun s c =>
    match s.queue.current with
    | none => some (.error .io, s)
    | some n =>
      let w : Written := ⟨t, n, (s.queue.written.filter fun w => w.name = n).length, entry, s.bound⟩
      match c.short with
      | none => some (.ok (), s.onQueue fun q => put q w line (q.curSize + line.length) q.torn)
      | some k => some (.error .io, s.onQueue fun q =>
          put q w (line.take k) q.curSize (q.torn ++ [n]))

def cut (q : Queue) (size : ℕ) : Queue :=
  match q.current with
  | none => q
  | some n => { q with segs := Function.update q.segs n ((q.segs n).map (truncateTo size)) }

/-- The rollback of a short write; it does not move the offset. -/
def truncate (size : ℕ) : SpoolM η θ Unit :=
  .act fun s c => some <|
    if c.fault = .none then (.ok (), s.onQueue fun q => cut q size) else (.error .rollback, s)

/-- `json.Marshal` of an entry: its body has to be a JSON text. -/
def newEntry (payloadType : String) (body : List Char) (now : Fin (2 ^ 63)) :
    Except SpoolError SpoolEntry :=
  match Json.parse body with
  | some j =>
    if maxNestingDepth < j.depth then .error .marshal
    else .ok ⟨payloadType, j, now.val / 10 ^ 9⟩
  | none => .error .marshal

def append (t : ℕ) (payloadType : String) (body : List Char) : SpoolM η θ Unit := do
  let now ← clock
  let entry ← .ofExcept (newEntry payloadType body now)
  let line := entry.marshal ++ [10]
  .failIf (line.length > maxRecordBytes) .entryTooLarge
  locked t do
    let closed ← .read (·.queue.closed)
    .failIf closed .closed
    evictIfFullLocked line.length
    ensureSegmentLocked line.length
    let before ← .read (·.queue.curSize)
    let r ← (write t entry line).attempt
    match r with
    | .ok () => touch
    | .error e => do
      truncate before
      .fail e

/-! ## Quarantine and binding -/

def renameSegment (path : SegName) : SpoolM η θ Unit :=
  fileOp fun s =>
    match s.queue.segs path with
    | none => .error .io
    | some content => .ok ((), s.onQueue fun q => { q with
        segs := Function.update q.segs path none
        held := Function.update q.held path (some content) })

/-- A checkpoint that does not exist is no error. -/
def renameAck (path : SegName) : SpoolM η θ Unit :=
  fileOp fun s =>
    match s.progress.acks path with
    | none => .ok ((), s)
    | some ack => .ok ((), { s with
        progress := { s.progress with acks := Function.update s.progress.acks path none }
        custody := { s.custody with
          heldAcks := Function.update s.custody.heldAcks path (some ack) } })

def quarantinePathLocked (path : SegName) : SpoolM η θ Unit := do
  touch
  touch
  renameSegment path
  renameAck path
  touch
  touch

def quarantineAll : List SegName → SpoolM η θ Unit
  | [] => pure ()
  | path :: paths => do
    quarantinePathLocked path
    quarantineAll paths

def quarantineLocked : SpoolM η θ Unit := do
  sealLocked
  let paths ← segmentsLocked
  quarantineAll paths

def readBindLocked : SpoolM η θ (Option SpoolBinding) :=
  fileOp fun s =>
    match s.custody.bind with
    | none => .ok (none, s)
    | some text =>
      match SpoolBinding.unmarshal text with
      | some b => .ok (some b, s)
      | none => .error .invalidBinding

def writeBindLocked (b : SpoolBinding) : SpoolM η θ Unit :=
  spoolReplace fun s => s.onCustody fun c => { c with bind := some b.marshal }

/-- What the queue is bound to does not go with the new destination. -/
def mismatch (U : URLs) (existing : SpoolBinding) (origin tenantID serverID : String) : Bool :=
  (existing.origin ≠ "" && !U.sameHubOrigin existing.origin origin)
    || (existing.tenantID ≠ "" && tenantID ≠ "" && existing.tenantID ≠ tenantID)
    || (existing.serverID ≠ "" && serverID ≠ "" && existing.serverID ≠ serverID)

/-- Empty fields are filled from what the queue is bound to. -/
def rebind (existing : SpoolBinding) (origin tenantID serverID : String) : SpoolBinding where
  origin := origin
  tenantID := if tenantID = "" then existing.tenantID else tenantID
  serverID := if serverID = "" then existing.serverID else serverID

def bindLocked (U : URLs) (origin tenantID serverID : String) : SpoolM η θ Unit := do
  let closed ← .read (·.queue.closed)
  .failIf closed .closed
  let origin := canonicalHubURL origin
  .failIf (origin = "") .destinationRequired
  let existing ← readBindLocked
  match existing with
  | none => writeBindLocked ⟨origin, tenantID, serverID⟩
  | some b =>
    if mismatch U b origin tenantID serverID then do
      quarantineLocked
      writeBindLocked ⟨origin, tenantID, serverID⟩
    else writeBindLocked (rebind b origin tenantID serverID)

def bindDestination (U : URLs) (t : ℕ) (origin tenantID serverID : String) : SpoolM η θ Unit :=
  drainLocked t id (locked t (bindLocked U origin tenantID serverID))

/-- The file lock is given up whatever happens to the segment. -/
def closeLocked : SpoolM η θ Unit := do
  let closed ← .read (·.queue.closed)
  if closed then pure ()
  else do
    .modify fun s => s.onQueue fun q => { q with closed := true }
    let r ← sealLocked.attempt
    let r' ← touch.attempt
    match r with
    | .ok () => .ofExcept r'
    | .error e => .fail e

def close (t : ℕ) : SpoolM η θ Unit := drainLocked t id (locked t closeLocked)

/-! ## Draining -/

def readSegment (path : SegName) : SpoolM η θ (List SpoolEntry) :=
  fileOp fun s =>
    match s.queue.segs path with
    | none => .error .io
    | some content =>
      match decodeSegment content with
      | none => .error .invalidRecord
      | some entries => .ok (entries, s)

def checkpoint (path : SegName) (maximum : ℕ) : SpoolM η θ ℕ :=
  fileOp fun s =>
    match s.progress.acks path with
    | none => .ok (0, s)
    | some data =>
      match atoi data with
      | none => .error .invalidCheckpoint
      | some n => if n < 0 ∨ n > maximum then .error .invalidCheckpoint else .ok (n.toNat, s)

def writeAck (path : SegName) (n : ℕ) : SpoolM η θ Unit :=
  spoolReplace fun s => s.onProgress fun p => { p with acks := Function.update p.acks path (some (itoa n)) }

def removeSegment (path : SegName) : SpoolM η θ Unit :=
  fileOp fun s =>
    match s.queue.segs path with
    | none => .error .io
    | some _ => .ok ((), s.onQueue fun q => { q with
        segs := Function.update q.segs path none, removed := q.removed ++ [path] })

def removeAck (path : SegName) : SpoolM η θ Unit :=
  fileOp fun s =>
    .ok ((), s.onProgress fun p => { p with acks := Function.update p.acks path none })

/-- History: a pass begins. -/
def beginPass (t : ℕ) (paths : List SegName) : SpoolM η θ Unit :=
  .modify fun s => s.onCustody fun c => { c with passes := c.passes ++ [⟨t, paths, s.pending⟩] }

/-- History: a group goes to `deliver`. -/
def present (t : ℕ) (path : SegName) (first : ℕ) (group : List SpoolEntry) : SpoolM η θ Unit :=
  .modify fun s => s.onProgress fun p =>
    { p with presented := p.presented ++ [⟨t, path, first, group, s.bound⟩] }

/-- History: `deliver` took a group. -/
def settle (t : ℕ) (path : SegName) (first : ℕ) (group : List SpoolEntry) : SpoolM η θ Unit :=
  .modify fun s => s.onProgress fun p =>
    { p with delivered := p.delivered ++ [⟨t, path, first, group, s.bound⟩] }

/-- What `Drain` and `DrainBatches` differ in: the context they check, the size of the next group (none
if 0), the callback, and how they report a corrupt segment. -/
structure Draining (η θ : Type) : Type 1 where
  ctx : SpoolM η θ Unit
  group : List SpoolEntry → ℕ
  deliver : List SpoolEntry → SpoolM η θ Unit
  corrupt : SpoolError

abbrev DrainM (η θ α : Type) : Type 1 := Prog (Spool η) (Choice θ) (ℕ × SpoolError) α

namespace Draining

variable (D : Draining η θ) (t : ℕ)

/-- Delivers what is left of a segment from index `next` on; an error comes with the number delivered.
There are at most `fuel` entries left. -/
def deliverFrom (path : SegName) : ℕ → ℕ → List SpoolEntry → ℕ → DrainM η θ ℕ
  | 0, _, _, delivered => pure delivered
  | _ + 1, _, [], delivered => pure delivered
  | fuel + 1, next, rest, delivered => do
    D.ctx.mapError fun e => (delivered, e)
    let n := D.group rest
    .failIf (n = 0) (delivered, .transportBudget)
    let group := rest.take n
    (present t path next group).mapError fun e => (delivered, e)
    (D.deliver group).mapError fun e => (delivered, e)
    (settle t path next group).mapError fun e => (delivered, e)
    (writeAck path (next + group.length)).mapError fun e => (delivered, e)
    deliverFrom path fuel (next + group.length) (rest.drop n) (delivered + group.length)

def drainPath (path : SegName) (delivered : ℕ) : DrainM η θ ℕ := do
  let r ← (readSegment path).attempt
  match r with
  | .error _ => do
    (locked t do
      recordLossLocked .corruptSegment
      quarantinePathLocked path).mapError fun e => (delivered, e)
    .fail (delivered, D.corrupt)
  | .ok entries => do
    let next ← (checkpoint path entries.length).mapError fun e => (delivered, e)
    let delivered ← D.deliverFrom t path entries.length next (entries.drop next) delivered
    (locked t do
      removeSegment path
      touch
      removeAck path).mapError fun e => (delivered, e)
    pure delivered

def drainPaths : List SegName → ℕ → DrainM η θ ℕ
  | [], delivered => pure delivered
  | path :: paths, delivered => do
    D.ctx.mapError fun e => (delivered, e)
    let delivered ← D.drainPath t path delivered
    drainPaths paths delivered

def pass : DrainM η θ ℕ :=
  drainLocked t (fun e => (0, e)) do
    let paths ← (locked t do
      let closed ← .read (·.queue.closed)
      .failIf closed .closed
      sealLocked
      let paths ← segmentsLocked
      beginPass t paths
      pure paths).mapError fun e => (0, e)
    D.drainPaths t paths 0

end Draining

def drain (t : ℕ) (deliver : String → Json → SpoolM η θ Unit) : DrainM η θ ℕ :=
  Draining.pass
    { ctx := pure ()
      group := fun _ => 1
      deliver := fun group => group.forM fun e => deliver e.payloadType e.body
      corrupt := .corruptSegment } t

/-- How many entries go into the next group: `count` of them with `size` bytes are in it. -/
def groupSize (maximum : ℕ) : ℕ → ℕ → List SpoolEntry → ℕ
  | count, _, [] => count
  | count, size, e :: es =>
    if count < maximum then
      let cost := e.marshal.length * 2 + 1024
      if size + cost > maxBatchBytes then count else groupSize maximum (count + 1) (size + cost) es
    else count

def drainBatches (t : ℕ) (ctx : SpoolM η θ Unit) (maximum : ℕ)
    (deliver : List SpoolEntry → SpoolM η θ Unit) : DrainM η θ ℕ := do
  .failIf (maximum < 1 ∨ maximum > maxBatchEvents) (0, .invalidBatchSize)
  Draining.pass
    { ctx := ctx
      group := groupSize maximum 0 1024
      deliver := deliver
      corrupt := .corruptEvidence } t

/-! ## The service -/

/-- A new process, or the closed queue opened again: `NewSpool` on the same directory. -/
def reopen (s : Spool η) : Spool η where
  mu := none
  drainMu := none
  queue := { s.queue with current := none, curSize := 0, offset := 0, closed := false }
  progress := s.progress
  custody := s.custody
  env := s.env

end Spool

inductive SpoolCall
  | append (payloadType : String) (body : List Char)
  | drain
  | drainBatches (maximum : ℕ)
  | bindDestination (origin tenantID serverID : String)
  | close
  deriving DecidableEq

namespace Spool

/-- A callback or a context that succeeds or fails as it pleases. -/
def anyCallback : SpoolM Unit Unit Unit :=
  .act fun s c => some (if c.fault = .none then .ok () else .error (.deliver "" none), s)

def serve (U : URLs) : SpoolCall → ℕ → DrainM Unit Unit ℕ
  | .append payloadType body, t =>
    (append t payloadType body >>= fun _ => pure 0).mapError fun e => (0, e)
  | .drain, t => drain t fun _ _ => anyCallback
  | .drainBatches maximum, t => drainBatches t anyCallback maximum fun _ => anyCallback
  | .bindDestination origin tenantID serverID, t =>
    (bindDestination U t origin tenantID serverID >>= fun _ => pure 0).mapError fun e => (0, e)
  | .close, t => (close t >>= fun _ => pure 0).mapError fun e => (0, e)

/-- The queue by itself: `deliver` is arbitrary, and a restart can fall between any two steps. -/
def service (U : URLs) : Service (Spool Unit) (Choice Unit) (ℕ × SpoolError) ℕ SpoolCall Empty where
  body := serve U
  env s _ := s
  restart := reopen

end Spool

end WMonitor
