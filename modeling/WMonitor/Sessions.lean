import WMonitor.RangeMap
import WMonitor.Run
import WMonitor.Auth

/-!
# Browser sessions

The `sessionStore` of `server/session.go`. `put` ranges over the map it changes, and Go visits the
entries in any order: the order is an argument here. Ids come from `newSessionID` and are new.
-/

namespace WMonitor

open RangeMap

def sessionTTL : ℤ := 7 * 24 * hour
def sessionIDPrefix : String := "wms_"
def maxSessions : ℕ := 4096
def maxCredentialSessions : ℕ := 5

structure SessionEntry where
  credHash : String
  principal : Principal
  clientName : String
  expires : ℤ
  deriving DecidableEq

structure SessionStore where
  m : Map String SessionEntry

def newSessionStore : SessionStore := ⟨∅⟩

/-- The id made from 32 random bytes. -/
def newSessionID (b : Fin 32 → UInt8) : String := sessionIDPrefix ++ hexEncode (List.ofFn b)

namespace SessionStore

/-- The variables of the loop in `put`. -/
structure Scan where
  m : Map String SessionEntry
  oldest : String
  oldestExpiry : ℤ
  count : ℕ

/-- One round of the loop in `put`. -/
def scanStep (now : ℤ) (credHash : String) (s : Scan) (e : Entry String SessionEntry) : Scan :=
  if ¬ now < e.2.expires then { s with m := s.m.erase e.1 }
  else if e.2.credHash = credHash then
    let s := { s with count := s.count + 1 }
    if s.oldest = "" ∨ e.2.expires < s.oldestExpiry then
      { s with oldest := e.1, oldestExpiry := e.2.expires }
    else s
  else s

def put (st : SessionStore) (order : List (Entry String SessionEntry)) (now : ℤ) (id : String)
    (ent : SessionEntry) : Bool × SessionStore :=
  let s := order.foldl (scanStep now ent.credHash) ⟨st.m, "", zeroTime, 0⟩
  let m := if s.count ≥ maxCredentialSessions then s.m.erase s.oldest else s.m
  if size m ≥ maxSessions then (false, ⟨m⟩) else (true, ⟨m.insert id ent⟩)

def get (st : SessionStore) (now : ℤ) (id : String) : Option SessionEntry × SessionStore :=
  match st.m.lookup id with
  | some ent => if now < ent.expires then (some ent, st) else (none, ⟨st.m.erase id⟩)
  | none => (none, ⟨st.m.erase id⟩)

def delete (st : SessionStore) (id : String) : SessionStore := ⟨st.m.erase id⟩

inductive Call
  | put (order : List (Entry String SessionEntry)) (now : ℤ) (id : String) (ent : SessionEntry)
  | get (now : ℤ) (id : String)
  | delete (id : String)

def step (st : SessionStore) : Call → SessionStore
  | .put order now id ent => (st.put order now id ent).2
  | .get now id => (st.get now id).2
  | .delete id => st.delete id

/-- A `put` ranges over the map as it is and stores under an id that is new. -/
def Allowed (st : SessionStore) : Call → Prop
  | .put order _ id _ => order.Perm st.m.entries ∧ id ∉ st.m ∧ id ≠ ""
  | _ => True

/-- The sessions of a credential. -/
def held (st : SessionStore) (credHash : String) : ℕ :=
  st.m.entries.countP fun e => e.2.credHash = credHash

/-- An unexpired session of a credential. -/
def mine (now : ℤ) (credHash : String) (e : Entry String SessionEntry) : Bool :=
  now < e.2.expires ∧ e.2.credHash = credHash

/-- The unexpired sessions of a credential. -/
def live (st : SessionStore) (now : ℤ) (credHash : String) : ℕ :=
  st.m.entries.countP (mine now credHash)

end SessionStore

end WMonitor
