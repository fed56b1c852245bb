import WMonitor.Prog

/-!
# The disk budget

`retention/capacity.go` and `retention/retention.go`, and the provider of the retention status in
`runtime.go`. `CheckCapacity` and `Run` measure the data file each in its own way and store what they
find in one status; the provider calls the former, drops its error and reads the status. Their steps
are single calls of `os.Stat` and single sections under the mutex. Files may change at any time.

Beside the state stands its history: which call stored a status, and what it had found.
-/

namespace WMonitor

def disabledReason : String :=
  "destructive downsampling and automatic purge are disabled until P2.03 (V07 containment); " ++
  "original tenant/server rows are preserved"

def defaultDiskBudgetBytes : ℤ := 10 * 2 ^ 30

structure RetentionStatus where
  downsamplingEnabled : Bool := false
  purgeEnabled : Bool := false
  reason : String := disabledReason
  diskUsedBytes : ℤ := 0
  diskBudgetBytes : ℤ := 0
  diskPressure : Bool := false
  deriving DecidableEq

inductive FileKind
  | regular
  | dir
  | other
  deriving DecidableEq

/-- What `os.Stat` says. -/
inductive FileStat
  | error (notExist : Bool)
  | info (kind : FileKind) (size : ℤ)
  deriving DecidableEq

inductive CapacityError
  | unavailable
  | notRegular
  | diskPressure
  deriving DecidableEq

/-- What a status was stored for. -/
inductive Finding
  | check (err : Option CapacityError)
  | run (used budget : ℤ)
  deriving DecidableEq

structure RetentionJob where
  dataPath : String
  diskBudgetBytes : ℤ
  lastStatus : RetentionStatus
  files : String → FileStat
  /-- History: which call stored what, the last one last. -/
  stored : List (ℕ × Finding) := []

/-- `New` with the path and the budget set. -/
def RetentionJob.new (path : String) (budget : ℤ) (files : String → FileStat) : RetentionJob where
  dataPath := path
  diskBudgetBytes := budget
  lastStatus := { diskBudgetBytes := defaultDiskBudgetBytes }
  files := files

abbrev RetentionM (α : Type) : Type 1 := Prog RetentionJob Unit CapacityError α

/-- The sum of two `int64`. -/
def addInt64 (a b : ℤ) : ℤ := (a + b + 2 ^ 63) % 2 ^ 64 - 2 ^ 63

namespace RetentionJob

def stat (path : String) : RetentionM FileStat := .read fun j => j.files path

def setStatus (t : ℕ) (status : RetentionStatus) (finding : Finding) : RetentionM Unit :=
  .modify fun j => { j with lastStatus := status, stored := j.stored ++ [(t, finding)] }

/-- The loop of `CheckCapacity`: the files that are left, each with whether it may be missing. -/
def measure (t : ℕ) (path : String) (status : RetentionStatus) :
    List (Bool × String) → RetentionM RetentionStatus
  | [] => pure status
  | (optional, suffix) :: files => do
    let info ← stat (path ++ suffix)
    match info with
    | .error notExist =>
      if optional ∧ notExist then measure t path status files
      else do
        setStatus t { status with diskPressure := true } (.check (some .unavailable))
        .fail .unavailable
    | .info kind size =>
      if kind ≠ .regular then .fail .notRegular
      else measure t path { status with diskUsedBytes := addInt64 status.diskUsedBytes size } files

def checkCapacity (t : ℕ) : RetentionM Unit := do
  let (path, budget) ← .read fun j => (j.dataPath, j.diskBudgetBytes)
  let status : RetentionStatus := { diskBudgetBytes := budget }
  if path = "" then setStatus t status (.check none)
  else do
    let status ← measure t path status [(false, ""), (true, "-wal"), (true, "-shm")]
    if budget > 0 ∧ status.diskUsedBytes ≥ budget then do
      setStatus t { status with diskPressure := true } (.check (some .diskPressure))
      .fail .diskPressure
    else setStatus t status (.check none)

def diskUsed : RetentionM ℤ := do
  let path ← .read (·.dataPath)
  if path = "" then pure 0
  else do
    let info ← stat path
    match info with
    | .error _ => pure 0
    | .info kind size => pure (if kind = .dir then 0 else size)

def run (t : ℕ) : RetentionM Unit := do
  let used ← diskUsed
  let budget ← .read (·.diskBudgetBytes)
  let status : RetentionStatus := { diskUsedBytes := used, diskBudgetBytes := budget }
  if budget > 0 ∧ used > budget then do
    setStatus t { status with diskPressure := true } (.run used budget)
    .fail .diskPressure
  else setStatus t status (.run used budget)

/-- What the provider returns, beside the error that it drops and who had stored what it read. -/
structure Provided where
  status : RetentionStatus
  err : Option CapacityError
  finding : Option (ℕ × Finding)
  deriving DecidableEq

def provider (t : ℕ) : RetentionM Provided := do
  let r ← (checkCapacity t).attempt
  let (status, finding) ← .read fun j => (j.lastStatus, j.stored.getLast?)
  let err := match r with
    | .ok () => none
    | .error e => some e
  pure ⟨status, err, finding⟩

end RetentionJob

/-! ## The service -/

inductive RetentionCall
  | run
  | checkCapacity
  | provider
  deriving DecidableEq

namespace RetentionJob

def serve : RetentionCall → ℕ → RetentionM (Option Provided)
  | .run, t => run t >>= fun _ => pure none
  | .checkCapacity, t => checkCapacity t >>= fun _ => pure none
  | .provider, t => provider t >>= fun p => pure (some p)

/-- The environment changes the files. -/
def service : Service RetentionJob Unit CapacityError (Option Provided) RetentionCall
    (String → FileStat) where
  body := serve
  env j files := { j with files := files }
  restart j := j

end RetentionJob

end WMonitor
