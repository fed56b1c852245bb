import WMonitor.Text

/-!
# Rows of SQL tables

An insert lists columns and, in the same order, arguments; a read lists columns and, in the same order,
the variables that `Scan` fills. Nothing but their positions ties the two lists together. A backend may
refuse an argument that its column cannot hold.
-/

namespace WMonitor

inductive Backend where
  | sqlite
  | postgres
  deriving DecidableEq

inductive SqlValue where
  | int (n : ℤ)
  | float (x : F64)
  | text (s : String)
  deriving DecidableEq

inductive ColumnType where
  | bigint
  | int
  | double
  | text
  deriving DecidableEq

/-- The column holds the argument. Every integer argument is a 64-bit one. In Postgres `INT` has 32 bits
and a text has no NUL; SQLite has one type of integers and takes every text. -/
def Backend.holds : Backend → ColumnType → SqlValue → Bool
  | _, .bigint, .int _ => true
  | .sqlite, .int, .int _ => true
  | .postgres, .int, .int n => -2 ^ 31 ≤ n && n < 2 ^ 31
  | _, .double, .float _ => true
  | .sqlite, .text, .text _ => true
  | .postgres, .text, .text s => !s.toList.contains '\x00'
  | _, _, _ => false

/-- The next value of a table's id: `SERIAL` has 32 bits. -/
def Backend.idLeft : Backend → ℕ → Bool
  | .sqlite, _ => true
  | .postgres, last => last + 1 < 2 ^ 31

/-- `INSERT INTO t(columns) VALUES(args)`: the values of the new row, `none` if it is refused. -/
def Backend.insertValues {γ : Type} [DecidableEq γ] (b : Backend) (type : γ → ColumnType)
    (columns : List γ) (args : List SqlValue) : Option (γ → Option SqlValue) :=
  if columns.length = args.length
      ∧ (columns.zip args).all fun x => b.holds (type x.1) x.2 then
    some fun c => (columns.zip args).lookup c
  else none

def SqlValue.toInt : SqlValue → Option ℤ
  | .int n => some n
  | _ => none

def SqlValue.toFloat : SqlValue → Option F64
  | .float x => some x
  | _ => none

def SqlValue.toText : SqlValue → Option String
  | .text s => some s
  | _ => none

/-! ## Scans -/

/-- A part of `Scan`'s arguments: it takes columns from the front. -/
abbrev Scan (α : Type) : Type := StateT (List SqlValue) Option α

/-- Into a variable of type `int64` or `int`. -/
def scanInt64 : Scan ℤ
  | .int n :: row => some (n, row)
  | _ => none

/-- Into a variable of type `int32`, which has to hold the value. -/
def scanInt32 : Scan ℤ
  | .int n :: row => if -2 ^ 31 ≤ n ∧ n < 2 ^ 31 then some (n, row) else none
  | _ => none

/-- Into a variable of type `uint64`, which has to hold the value. -/
def scanUint64 : Scan ℕ
  | .int n :: row => if 0 ≤ n then some (n.toNat, row) else none
  | _ => none

def scanFloat64 : Scan F64
  | .float x :: row => some (x, row)
  | _ => none

def scanString : Scan String
  | .text s :: row => some (s, row)
  | _ => none

/-- There are as many variables as columns. -/
def Scan.all {α : Type} (s : Scan α) (row : List SqlValue) : Option α :=
  match s row with
  | some (a, []) => some a
  | _ => none

section All

variable {α : Type} (row : List SqlValue)

theorem Scan.all_pure (a : α) : (pure a : Scan α).all [] = some a := rfl

theorem all_scanInt64 (n : ℤ) (f : ℤ → Scan α) :
    (scanInt64 >>= f).all (.int n :: row) = (f n).all row := rfl

theorem all_scanFloat64 (x : F64) (f : F64 → Scan α) :
    (scanFloat64 >>= f).all (.float x :: row) = (f x).all row := rfl

theorem all_scanString (s : String) (f : String → Scan α) :
    (scanString >>= f).all (.text s :: row) = (f s).all row := rfl

theorem all_scanUint64 (n : ℕ) (f : ℕ → Scan α) :
    (scanUint64 >>= f).all (.int n :: row) = (f n).all row := rfl

theorem all_scanInt32 {n : ℤ} (h : -2 ^ 31 ≤ n ∧ n < 2 ^ 31) (f : ℤ → Scan α) :
    (scanInt32 >>= f).all (.int n :: row) = (f n).all row := by
  have hscan : scanInt32 (.int n :: row) = some (n, row) := if_pos h
  change (match Option.bind (scanInt32 (.int n :: row)) fun x => f x.1 x.2 with
    | some (a, []) => some a
    | _ => none) = _
  rw [hscan]
  rfl

end All

end WMonitor
