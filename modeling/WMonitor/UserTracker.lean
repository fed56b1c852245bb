import WMonitor.Ingest
import WMonitor.LastSeen

/-!
# Concurrent users

`collector/usertracker.go`: a refresh reads the table of TCP connections and notes when each client and
each of its sockets was last there; what was not there within the window is forgotten. The upper case and
the folding of a character and `net.ParseIP` are parameters. A refresh is one step: `now` is read after
the table. A set of ports is the list of its elements.
-/

namespace WMonitor

open RangeMap

def defaultUserWindow : ℤ := 60 * second

structure Addr where
  ip : String
  port : ℕ
  deriving DecidableEq

/-- A row of the connection table. -/
structure ConnectionStat where
  status : String
  laddr : Addr
  raddr : Addr
  deriving DecidableEq

def activeConnStates : List String := ["ESTABLISHED", "SYN_RECV", "SYN_RECEIVED"]

def defaultExcludedPorts : List ℕ :=
  [5432, 3306, 6379, 27017, 1433, 1521, 9200, 9300, 9042, 11211, 5672,
    22, 23, 3389, 445, 139, 135, 5985, 5986, 111, 2049]

/-- What one refresh is given: the connection table of each kind, if it can be listed, and the time. -/
structure Reading where
  lister : String → Option (List ConnectionStat)
  now : ℤ

def Reading.conns (r : Reading) : Option (List ConnectionStat) :=
  match r.lister "tcp" with
  | some conns => some conns
  | none => r.lister "all"

/-- `loopbackIP` tells whether `net.ParseIP` reads an address of the loopback network. -/
structure HostTexts where
  upper : Char → Char
  fold : Char → Char
  loopbackIP : String → Bool

structure TCPUserTracker where
  appPorts : List ℕ
  excludePorts : List ℕ
  recentUsers : Map String ℤ
  recentConns : Map String ℤ
  window : ℤ
  warnedNoPort : Bool

def newTCPUserTracker : TCPUserTracker := ⟨[], [], ∅, ∅, defaultUserWindow, false⟩

/-! ## Configuration -/

inductive TrackerOption where
  | appPorts (ports : List ℕ)
  | excludePorts (ports : List ℕ)
  | window (d : ℤ)

/-- `SetAppPorts`, `SetExcludePorts` and `SetWindow`. -/
def TCPUserTracker.set (t : TCPUserTracker) : TrackerOption → TCPUserTracker
  | .appPorts ports => { t with appPorts := ports.filter fun p => 0 < p }
  | .excludePorts ports => { t with excludePorts := t.excludePorts ++ ports.filter fun p => 0 < p }
  | .window d => if d ≤ 0 then t else { t with window := d }

def configured (options : List TrackerOption) : TCPUserTracker :=
  options.foldl TCPUserTracker.set newTCPUserTracker

/-! ## A refresh -/

namespace HostTexts

variable (T : HostTexts)

def toUpper (s : String) : String := String.ofList (s.toList.map T.upper)

def equalFold (a b : String) : Bool := a.toList.map T.fold = b.toList.map T.fold

def isLoopback (ip : String) : Bool :=
  ip = "127.0.0.1" || ip = "::1" || ip = "localhost" || T.loopbackIP ip

/-- Configured ports count even if no listener is visible for them. -/
def listeningAppPorts (conns : List ConnectionStat) (appPorts excluded : List ℕ) : List ℕ :=
  let visible := conns.filter fun c =>
    T.equalFold c.status "LISTEN" && !excluded.contains c.laddr.port
      && (if appPorts ≠ [] then appPorts.contains c.laddr.port
        else !defaultExcludedPorts.contains c.laddr.port)
  visible.map (·.laddr.port) ++ appPorts.filter fun p => !excluded.contains p

def userKey (remoteIP : String) : String :=
  if T.isLoopback remoteIP then "local:" ++ remoteIP else remoteIP

end HostTexts

/-- A socket is its client and the remote port. -/
def socketKey (userKey : String) (port : ℕ) : String :=
  userKey ++ ":" ++ String.ofList (Nat.toDigits 10 port)

namespace TCPUserTracker

variable (T : HostTexts)

/-- One turn of the loop over the connections. -/
def observe (listening : List ℕ) (now : ℤ) (t : TCPUserTracker) (c : ConnectionStat) :
    TCPUserTracker :=
  if !activeConnStates.contains (T.toUpper c.status) then t
  else if !listening.contains c.laddr.port then t
  else if c.raddr.ip = "" ∨ c.raddr.ip = "0.0.0.0" ∨ c.raddr.ip = "::" then t
  else
    let userKey := T.userKey c.raddr.ip
    { t with
      recentUsers := t.recentUsers.insert userKey now
      recentConns := t.recentConns.insert (socketKey userKey c.raddr.port) now }

def refresh (t : TCPUserTracker) (r : Reading) : TCPUserTracker :=
  let t := { t with warnedNoPort := t.warnedNoPort || t.appPorts.isEmpty }
  let t := match r.conns with
    | none => t
    | some conns =>
      conns.foldl (observe T (T.listeningAppPorts conns t.appPorts t.excludePorts) r.now) t
  let cutoff := r.now - t.window
  { t with
    recentUsers := LastSeen.expire cutoff t.recentUsers
    recentConns := LastSeen.expire cutoff t.recentConns }

def getConcurrentUsers (t : TCPUserTracker) (r : Reading) : ℕ × TCPUserTracker :=
  (size (t.refresh T r).recentUsers, t.refresh T r)

def getActiveConnections (t : TCPUserTracker) (r : Reading) : ℕ × TCPUserTracker :=
  (size (t.refresh T r).recentConns, t.refresh T r)

end TCPUserTracker

end WMonitor
