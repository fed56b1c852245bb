import WMonitor.Run

/-!
# Programs that share a state

A program is a sequence of atomic steps on a state it shares with others, and may return or fail.
A step is given a choice that it cannot influence, such as a fault or what a clock shows, and is not
enabled where it gives `none`, as for a lock that is taken. A pool runs programs for calls made at any
time: whose turn it is, what the environment does and when everything is restarted is a list of turns.
-/

namespace WMonitor

inductive Prog (σ κ ε α : Type) : Type 1
  | ret (a : α)
  | fail (e : ε)
  | step {β : Type} (f : σ → κ → Option (β × σ)) (k : β → Prog σ κ ε α)

namespace Prog

variable {σ κ ε ε' α β : Type}

protected def bind : Prog σ κ ε α → (α → Prog σ κ ε β) → Prog σ κ ε β
  | ret a, q => q a
  | fail e, _ => fail e
  | step f k, q => step f fun b => (k b).bind q

instance : Monad (Prog σ κ ε) where
  pure := ret
  bind := Prog.bind

/-- One step that may fail. -/
def act (f : σ → κ → Option (Except ε α × σ)) : Prog σ κ ε α :=
  step f fun
    | .ok a => ret a
    | .error e => fail e

/-- One step that reads the state. -/
def read (f : σ → α) : Prog σ κ ε α := act fun s _ => some (.ok (f s), s)

/-- One step that changes the state. -/
def modify (f : σ → σ) : Prog σ κ ε Unit := act fun s _ => some (.ok (), f s)

def failIf (c : Prop) [Decidable c] (e : ε) : Prog σ κ ε Unit := if c then fail e else ret ()

def ofExcept : Except ε α → Prog σ κ ε α
  | .ok a => ret a
  | .error e => fail e

/-- Goes on after a failure, with what it was. -/
def attempt : Prog σ κ ε α → Prog σ κ ε' (Except ε α)
  | ret a => ret (.ok a)
  | fail e => ret (.error e)
  | step f k => step f fun b => (k b).attempt

def mapError (g : ε → ε') : Prog σ κ ε α → Prog σ κ ε' α
  | ret a => ret a
  | fail e => fail (g e)
  | step f k => step f fun b => (k b).mapError g

/-- The program alone, given the same choice at every step; `none` if a step is not enabled. -/
def alone (c : κ) : Prog σ κ ε α → σ → Option (Except ε α × σ)
  | ret a, s => some (.ok a, s)
  | fail e, s => some (.error e, s)
  | step f k, s =>
    match f s c with
    | none => none
    | some (b, s') => (k b).alone c s'

end Prog

/-- A call that is being served. -/
structure Thread (σ κ ε α ι : Type) : Type 1 where
  id : ℕ
  call : ι
  prog : Prog σ κ ε α

/-- What calls do, what the environment does by itself, and what a restart leaves. -/
structure Service (σ κ ε α ι η : Type) : Type 1 where
  body : ι → ℕ → Prog σ κ ε α
  env : σ → η → σ
  restart : σ → σ

structure Pool (σ κ ε α ι : Type) : Type 1 where
  shared : σ
  threads : List (Thread σ κ ε α ι) := []
  /-- Calls are numbered in the order they are made. -/
  next : ℕ := 0
  results : List (ℕ × ι × Except ε α) := []

inductive Turn (κ ι η : Type)
  | start (call : ι)
  | thread (id : ℕ) (c : κ)
  | env (e : η)
  | restart

namespace Pool

variable {σ κ ε α ι η : Type}

def finish (p : Pool σ κ ε α ι) (th : Thread σ κ ε α ι) (r : Except ε α) : Pool σ κ ε α ι :=
  { p with
    threads := p.threads.filter fun th' => th'.id ≠ th.id
    results := p.results ++ [(th.id, th.call, r)] }

def goOn (p : Pool σ κ ε α ι) (th : Thread σ κ ε α ι) (s : σ) (prog : Prog σ κ ε α) :
    Pool σ κ ε α ι :=
  { p with
    shared := s
    threads := p.threads.map fun th' => if th'.id = th.id then { th with prog := prog } else th' }

/-- One step of a thread, if it is enabled. -/
def advance (p : Pool σ κ ε α ι) (th : Thread σ κ ε α ι) (c : κ) : Pool σ κ ε α ι :=
  match th.prog with
  | .ret a => p.finish th (.ok a)
  | .fail e => p.finish th (.error e)
  | .step f k =>
    match f p.shared c with
    | none => p
    | some (b, s) => p.goOn th s (k b)

def turn (S : Service σ κ ε α ι η) (p : Pool σ κ ε α ι) : Turn κ ι η → Pool σ κ ε α ι
  | .start call =>
    { p with
      threads := p.threads ++ [⟨p.next, call, S.body call p.next⟩]
      next := p.next + 1 }
  | .thread id c =>
    match p.threads.find? fun th => th.id = id with
    | none => p
    | some th => p.advance th c
  | .env e => { p with shared := S.env p.shared e }
  | .restart => { p with shared := S.restart p.shared, threads := [] }

/-- The pool after a list of turns, from a state that nobody has used yet. -/
def after (S : Service σ κ ε α ι η) (s : σ) (turns : List (Turn κ ι η)) : Pool σ κ ε α ι :=
  Run.run (turn S) { shared := s } turns

end Pool

end WMonitor
