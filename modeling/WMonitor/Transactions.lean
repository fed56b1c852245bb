import WMonitor.Table
import WMonitor.Run

/-!
# Transactions that run at the same time

A transaction is a sequence of statements that ends with a commit or a rollback. Each statement reads
what is committed when it runs, together with what its own transaction has changed before ("read
committed"), and says which changes it makes. The changes of a transaction stay its own until it commits;
a statement may have to wait for another transaction that has made a certain change and is still open, as
for the lock of a row.

Which transaction runs its next statement, and which one the database or the connection gives up, is a
list of turns. `order` is where each call takes effect among the others: a call that commits takes effect
with the commit, and one that rolls back with the statement that made it do so.
-/

namespace WMonitor

inductive Tx (σ ω ε α : Type) : Type 1
  | commit (a : α)
  | rollback (e : ε)
  /-- One statement: which changes of others it waits for, and its result with its changes. -/
  | exec {β : Type} (waits : σ → ω → Bool) (f : σ → β × List ω) (k : β → Tx σ ω ε α)

namespace Tx

variable {σ ω ε α ι : Type} (apply : σ → ω → σ)

/-- The database with some changes made to it. -/
def view (s : σ) (changes : List ω) : σ := changes.foldl apply s

/-- The transaction with nobody else. -/
def alone : Tx σ ω ε α → σ → Except ε (σ × α)
  | commit a, s => .ok (s, a)
  | rollback e, _ => .error e
  | exec _ f k, s => (k (f s).1).alone (view apply s (f s).2)

/-- Whether the transaction can only roll back. -/
def lost : Tx σ ω ε α → Bool
  | rollback _ => true
  | _ => false

/-- The error of a transaction that can only roll back. -/
def verdict (id : ℕ) (call : ι) : Tx σ ω ε α → List (ℕ × ι × Except ε α)
  | rollback e => [(id, call, .error e)]
  | _ => []

end Tx

/-- A transaction that has begun and not ended. -/
structure OpenTx (σ ω ε α ι : Type) : Type 1 where
  id : ℕ
  call : ι
  rest : Tx σ ω ε α
  changes : List ω

structure TxPool (σ ω ε α ι : Type) : Type 1 where
  committed : σ
  opened : List (OpenTx σ ω ε α ι) := []
  /-- Calls are numbered in the order they are made. -/
  next : ℕ := 0
  order : List (ℕ × ι × Except ε α) := []
  /-- What the callers were told; `none` is an error of the database or the connection. -/
  answers : List (ℕ × ι × Option (Except ε α)) := []

inductive TxTurn (ι : Type)
  | start (call : ι)
  /-- The next statement of a transaction, or its end. -/
  | advance (id : ℕ)
  /-- The transaction is given up, or the caller does not get to know that it was committed. -/
  | abandon (id : ℕ) (kept : Bool)
  deriving DecidableEq

/-- The calls that are made in a list of turns, in order. -/
def TxTurn.calls {ι : Type} (turns : List (TxTurn ι)) : List ι :=
  turns.filterMap fun
    | .start call => some call
    | _ => none

namespace TxPool

variable {σ ω ε α ι : Type}

def close (p : TxPool σ ω ε α ι) (t : OpenTx σ ω ε α ι) (r : Option (Except ε α)) :
    TxPool σ ω ε α ι :=
  { p with
    opened := p.opened.filter fun t' => t'.id ≠ t.id
    answers := p.answers ++ [(t.id, t.call, r)] }

variable (apply : σ → ω → σ) (body : ι → Tx σ ω ε α)

/-- The transaction's changes become those of the database. -/
def store (p : TxPool σ ω ε α ι) (t : OpenTx σ ω ε α ι) (a : α) : TxPool σ ω ε α ι :=
  { p with
    committed := Tx.view apply p.committed t.changes
    order := p.order ++ [(t.id, t.call, .ok a)] }

/-- Another open transaction has made a change that a statement waits for. -/
def blocked (p : TxPool σ ω ε α ι) (t : OpenTx σ ω ε α ι) (waits : σ → ω → Bool) : Bool :=
  p.opened.any fun t' =>
    t'.id ≠ t.id && t'.changes.any (waits (Tx.view apply p.committed t.changes))

/-- A statement of the transaction has been run. -/
def proceed (p : TxPool σ ω ε α ι) (t : OpenTx σ ω ε α ι) (rest : Tx σ ω ε α) (changes : List ω) :
    TxPool σ ω ε α ι :=
  { p with
    opened := p.opened.map fun t' =>
      if t'.id = t.id then { t with rest := rest, changes := t.changes ++ changes } else t'
    order := p.order ++ rest.verdict t.id t.call }

def advance (p : TxPool σ ω ε α ι) (t : OpenTx σ ω ε α ι) : TxPool σ ω ε α ι :=
  match t.rest with
  | .commit a => (p.store apply t a).close t (some (.ok a))
  | .rollback e => p.close t (some (.error e))
  | .exec waits f k =>
    if p.blocked apply t waits then p
    else
      let r := f (Tx.view apply p.committed t.changes)
      p.proceed t (k r.1) r.2

def abandon (p : TxPool σ ω ε α ι) (t : OpenTx σ ω ε α ι) (kept : Bool) : TxPool σ ω ε α ι :=
  match t.rest, kept with
  | .commit a, true => (p.store apply t a).close t none
  | _, _ => p.close t none

def turn (p : TxPool σ ω ε α ι) : TxTurn ι → TxPool σ ω ε α ι
  | .start call =>
    { p with
      opened := p.opened ++ [⟨p.next, call, body call, []⟩]
      next := p.next + 1
      order := p.order ++ (body call).verdict p.next call }
  | .advance id =>
    match p.opened.find? fun t => t.id = id with
    | none => p
    | some t => p.advance apply t
  | .abandon id kept =>
    match p.opened.find? fun t => t.id = id with
    | none => p
    | some t => p.abandon apply t kept

/-- The transactions after a list of turns, from a database that nobody uses yet. -/
def after (s : σ) (turns : List (TxTurn ι)) : TxPool σ ω ε α ι :=
  Run.run (turn apply body) { committed := s } turns

/-- The calls one after the other, each alone: the database at the end, and the answers. -/
def oneByOne (s : σ) : List ι → σ × List (Except ε α)
  | [] => (s, [])
  | call :: calls =>
    let r := Table.transact ((body call).alone apply) s
    let rest := oneByOne r.1 calls
    (rest.1, r.2 :: rest.2)

end TxPool

end WMonitor
