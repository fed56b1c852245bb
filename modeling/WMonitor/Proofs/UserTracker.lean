import WMonitor.Run
import WMonitor.UserTracker

/-!
# What the user tracker counts

The two maps of the tracker follow the same rounds: the clients and the sockets that a reading of the
connection table shows. So both counts are those of a sliding window over the whole history of readings
(`tracker_counts`).
-/

namespace WMonitor

open RangeMap LastSeen

/-! ## What counts -/

/-- The port is one the tracker counts connections to, in a table of connections. -/
def CountedPort (T : HostTexts) (t : TCPUserTracker) (conns : List ConnectionStat) (port : ℕ) : Prop :=
  port ∉ t.excludePorts ∧ (port ∈ t.appPorts ∨ (t.appPorts = [] ∧ port ∉ defaultExcludedPorts
    ∧ ∃ c ∈ conns, T.equalFold c.status "LISTEN" = true ∧ c.laddr.port = port))

/-- The connection is active, to a counted port, and from a usable address. -/
structure Counted (T : HostTexts) (t : TCPUserTracker) (conns : List ConnectionStat)
    (c : ConnectionStat) : Prop where
  active : T.toUpper c.status ∈ activeConnStates
  port : CountedPort T t conns c.laddr.port
  usable : c.raddr.ip ∉ ["", "0.0.0.0", "::"]

/-- The clients, with a remote port each, that the readings have shown at a time or later. -/
def socketsSince (T : HostTexts) (t : TCPUserTracker) (since : ℤ) (rs : List Reading) :
    Set (String × ℕ) :=
  {k | ∃ r ∈ rs, since ≤ r.now ∧ ∃ conns, r.conns = some conns ∧ ∃ c ∈ conns, Counted T t conns c
    ∧ k = (T.userKey c.raddr.ip, c.raddr.port)}

def usersSince (T : HostTexts) (t : TCPUserTracker) (since : ℤ) (rs : List Reading) : Set String :=
  {k | ∃ r ∈ rs, since ≤ r.now ∧ ∃ conns, r.conns = some conns ∧ ∃ c ∈ conns, Counted T t conns c
    ∧ k = T.userKey c.raddr.ip}

theorem usersSince_eq (T : HostTexts) (t : TCPUserTracker) (since : ℤ) (rs : List Reading) :
    usersSince T t since rs = Prod.fst '' socketsSince T t since rs := by
  ext k
  constructor
  · rintro ⟨r, hr, hle, conns, hconns, c, hc, hcount, rfl⟩
    exact ⟨_, ⟨r, hr, hle, conns, hconns, c, hc, hcount, rfl⟩, rfl⟩
  · rintro ⟨-, ⟨r, hr, hle, conns, hconns, c, hc, hcount, rfl⟩, rfl⟩
    exact ⟨r, hr, hle, conns, hconns, c, hc, hcount, rfl⟩

theorem mem_listeningAppPorts {T : HostTexts} {t : TCPUserTracker} {conns : List ConnectionStat}
    {port : ℕ} : port ∈ T.listeningAppPorts conns t.appPorts t.excludePorts
      ↔ CountedPort T t conns port := by
  simp only [HostTexts.listeningAppPorts, CountedPort, List.mem_append, List.mem_map, List.mem_filter,
    Bool.and_eq_true, Bool.not_eq_true', List.contains_eq_mem, decide_eq_false_iff_not]
  constructor
  · rintro (⟨c, ⟨hc, ⟨hlisten, hexcl⟩, hport⟩, rfl⟩ | ⟨happ, hexcl⟩)
    · refine ⟨hexcl, ?_⟩
      split_ifs at hport with happ
      · exact .inl (by simpa using hport)
      · exact .inr ⟨by simpa using happ, by simpa using hport, c, hc, hlisten, rfl⟩
    · exact ⟨hexcl, .inl happ⟩
  · rintro ⟨hexcl, happ | ⟨happ, hdefault, c, hc, hlisten, rfl⟩⟩
    · exact .inr ⟨happ, hexcl⟩
    · exact .inl ⟨c, ⟨hc, ⟨hlisten, hexcl⟩, by simp [happ, hdefault]⟩, rfl⟩

/-! ## One refresh -/

namespace TCPUserTracker

variable (T : HostTexts)

/-- The connection passes the filters of the loop. -/
def passes (listening : List ℕ) (c : ConnectionStat) : Bool :=
  activeConnStates.contains (T.toUpper c.status) && listening.contains c.laddr.port
    && !(c.raddr.ip = "" ∨ c.raddr.ip = "0.0.0.0" ∨ c.raddr.ip = "::")

def sockets (listening : List ℕ) (conns : List ConnectionStat) : List (String × ℕ) :=
  (conns.filter (passes T listening)).map fun c => (T.userKey c.raddr.ip, c.raddr.port)

/-- The sockets that a reading shows. -/
def shown (t : TCPUserTracker) (r : Reading) : List (String × ℕ) :=
  match r.conns with
  | none => []
  | some conns => sockets T (T.listeningAppPorts conns t.appPorts t.excludePorts) conns

theorem mem_shown {t : TCPUserTracker} {r : Reading} {k : String × ℕ} : k ∈ t.shown T r ↔
    ∃ conns, r.conns = some conns ∧ ∃ c ∈ conns, Counted T t conns c
      ∧ k = (T.userKey c.raddr.ip, c.raddr.port) := by
  unfold shown
  split
  · next hnone => simp [hnone]
  · next conns hsome =>
    simp only [hsome, Option.some.injEq, exists_eq_left', sockets, passes, List.mem_map,
      List.mem_filter, Bool.and_eq_true, List.contains_eq_mem, decide_eq_true_eq, mem_listeningAppPorts]
    constructor
    · rintro ⟨c, ⟨hc, ⟨hactive, hport⟩, husable⟩, rfl⟩
      exact ⟨c, hc, ⟨hactive, hport, by simpa using husable⟩, rfl⟩
    · rintro ⟨c, hc, ⟨hactive, hport, husable⟩, rfl⟩
      exact ⟨c, ⟨hc, ⟨hactive, hport⟩, by simpa using husable⟩, rfl⟩

theorem observe_eq (listening : List ℕ) (now : ℤ) (t : TCPUserTracker) (c : ConnectionStat) :
    observe T listening now t c = if passes T listening c = true then
      { t with
        recentUsers := mark now t.recentUsers (T.userKey c.raddr.ip)
        recentConns := mark now t.recentConns (socketKey (T.userKey c.raddr.ip) c.raddr.port) }
    else t := by
  unfold observe passes
  split_ifs with hactive hport husable hall hall
  all_goals first | rfl | simp_all

/-- What both maps go through in the loop over the connections. -/
theorem foldl_observe (listening : List ℕ) (now : ℤ) (conns : List ConnectionStat)
    (t : TCPUserTracker) : conns.foldl (observe T listening now) t = { t with
      recentUsers := ((sockets T listening conns).map Prod.fst).foldl (mark now) t.recentUsers
      recentConns := ((sockets T listening conns).map fun k => socketKey k.1 k.2).foldl (mark now)
        t.recentConns } := by
  induction conns generalizing t with
  | nil => rfl
  | cons c conns ih =>
    rw [List.foldl_cons, ih, observe_eq]
    unfold sockets
    by_cases hc : passes T listening c = true
    · rw [if_pos hc, List.filter_cons_of_pos hc]
      rfl
    · rw [if_neg hc, List.filter_cons_of_neg hc]

theorem refresh_eq (t : TCPUserTracker) (r : Reading) : t.refresh T r = { t with
    warnedNoPort := t.warnedNoPort || t.appPorts.isEmpty
    recentUsers := track t.window t.recentUsers ⟨r.now, (t.shown T r).map Prod.fst⟩
    recentConns := track t.window t.recentConns
      ⟨r.now, (t.shown T r).map fun k => socketKey k.1 k.2⟩ } := by
  unfold refresh shown track
  cases r.conns with
  | none => rfl
  | some conns => simp only [foldl_observe]

/-- What a refresh does not change. -/
structure SameConfig (t t' : TCPUserTracker) : Prop where
  appPorts : t'.appPorts = t.appPorts
  excludePorts : t'.excludePorts = t.excludePorts
  window : t'.window = t.window

theorem SameConfig.shown {t t' : TCPUserTracker} (h : SameConfig t t') (r : Reading) :
    t'.shown T r = t.shown T r := by
  unfold TCPUserTracker.shown
  rw [h.appPorts, h.excludePorts]

/-! ## All refreshes -/

/-- A run of refreshes, map by map. -/
theorem run_refresh (rs : List Reading) (t : TCPUserTracker) :
    let t' := Run.run (refresh T) t rs
    SameConfig t t'
      ∧ t'.recentUsers = (rs.map fun r => ⟨r.now, (t.shown T r).map Prod.fst⟩).foldl (track t.window)
          t.recentUsers
      ∧ t'.recentConns = (rs.map fun r => ⟨r.now, (t.shown T r).map fun k => socketKey k.1 k.2⟩).foldl
          (track t.window) t.recentConns := by
  induction rs generalizing t with
  | nil => exact ⟨⟨rfl, rfl, rfl⟩, rfl, rfl⟩
  | cons r rs ih =>
    have hstep : SameConfig t (t.refresh T r) := by
      rw [refresh_eq]
      exact ⟨rfl, rfl, rfl⟩
    obtain ⟨hconfig, husers, hconns⟩ := ih (t.refresh T r)
    refine ⟨⟨hconfig.appPorts.trans hstep.appPorts, hconfig.excludePorts.trans hstep.excludePorts,
      hconfig.window.trans hstep.window⟩, ?_, ?_⟩
    · change (Run.run (refresh T) (t.refresh T r) rs).recentUsers = _
      simp only [husers, hstep.shown, hstep.window, List.map_cons, List.foldl_cons]
      rw [refresh_eq]
    · change (Run.run (refresh T) (t.refresh T r) rs).recentConns = _
      simp only [hconns, hstep.shown, hstep.window, List.map_cons, List.foldl_cons]
      rw [refresh_eq]

end TCPUserTracker

theorem configured_empty (options : List TrackerOption) :
    (configured options).recentUsers = ∅ ∧ (configured options).recentConns = ∅ := by
  have hset : ∀ (o : TrackerOption) (t : TCPUserTracker),
      (t.set o).recentUsers = t.recentUsers ∧ (t.set o).recentConns = t.recentConns := by
    intro o t
    cases o with
    | window d =>
      unfold TCPUserTracker.set
      dsimp only
      split_ifs <;> exact ⟨rfl, rfl⟩
    | appPorts ports => exact ⟨rfl, rfl⟩
    | excludePorts ports => exact ⟨rfl, rfl⟩
  have hfold : ∀ (os : List TrackerOption) (t : TCPUserTracker), t.recentUsers = ∅ ∧ t.recentConns = ∅ →
      (os.foldl TCPUserTracker.set t).recentUsers = ∅ ∧
        (os.foldl TCPUserTracker.set t).recentConns = ∅ := by
    intro os
    induction os with
    | nil => exact fun t h => h
    | cons o os ih =>
      exact fun t h => ih (t.set o) ⟨(hset o t).1.trans h.1, (hset o t).2.trans h.2⟩
  exact hfold options newTCPUserTracker ⟨rfl, rfl⟩

/-! ## Keys of sockets -/

/-- The port is what follows the last colon. -/
theorem socketKey_injective : Function.Injective fun k : String × ℕ => socketKey k.1 k.2 := by
  have hcolon : ∀ n : ℕ, ':' ∉ (Nat.toDigits 10 n).reverse := by
    intro n hn
    have := List.all_eq_true.1 (toDigits_all n) ':' (List.mem_reverse.1 hn)
    cases this
  have hlist : ∀ k : String × ℕ, (socketKey k.1 k.2).toList.reverse
      = (Nat.toDigits 10 k.2).reverse ++ ':' :: k.1.toList.reverse := by
    intro k
    simp [socketKey, String.toList_append]
  intro a b h
  have hcut := congrArg (fun s : String => cut ':' s.toList.reverse) h
  simp only [hlist, cut_append (hcolon _), Option.some.injEq, Prod.mk.injEq, List.reverse_inj] at hcut
  have hport := congrArg (fun ds => Nat.ofDigitChars 10 ds 0) hcut.1
  simp only [Nat.ofDigitChars_toDigits (by decide : 1 < 10) (by decide)] at hport
  exact Prod.ext (String.toList_inj.1 hcut.2) hport

/-! ## The counts -/

section Counts

variable (T : HostTexts)

/-- The readings as rounds over the sockets. -/
def rounds (t : TCPUserTracker) (rs : List Reading) : List (Round (String × ℕ)) :=
  rs.map fun r => ⟨r.now, t.shown T r⟩

theorem seenSince_rounds (t : TCPUserTracker) (since : ℤ) (rs : List Reading) :
    seenSince since (rounds T t rs) = socketsSince T t since rs := by
  ext k
  constructor
  · rintro ⟨r', hr', hle, hk⟩
    obtain ⟨r, hr, rfl⟩ := List.mem_map.1 hr'
    exact ⟨r, hr, hle, (TCPUserTracker.mem_shown T).1 hk⟩
  · rintro ⟨r, hr, hle, hk⟩
    exact ⟨_, List.mem_map_of_mem hr, hle, (TCPUserTracker.mem_shown T).2 hk⟩

/-- A map that was marked with a key of each socket holds the keys of the sockets in the window. -/
theorem size_tracked {κ : Type} [DecidableEq κ] (f : String × ℕ → κ) (t : TCPUserTracker)
    {rs : List Reading} {r : Reading} (hsorted : (rs ++ [r]).Pairwise fun a b => a.now ≤ b.now) :
    size (((rs ++ [r]).map fun r => (⟨r.now, (t.shown T r).map f⟩ : Round κ)).foldl (track t.window) ∅)
      = (f '' socketsSince T t (r.now - t.window) (rs ++ [r])).ncard := by
  have hkeys : ((rs ++ [r]).map fun r => (⟨r.now, (t.shown T r).map f⟩ : Round κ))
      = (rounds T t (rs ++ [r])).map fun r => ⟨r.now, r.keys.map f⟩ := by
    rw [rounds, List.map_map]
    rfl
  have htracks := tracks_rounds t.window (rs.map fun r => (⟨r.now, (t.shown T r).map f⟩ : Round κ))
    ⟨r.now, (t.shown T r).map f⟩ (by
      rw [← List.map_singleton (f := fun r : Reading => (⟨r.now, (t.shown T r).map f⟩ : Round κ)),
        ← List.map_append, List.pairwise_map]
      exact hsorted)
  rw [← List.map_singleton (f := fun r : Reading => (⟨r.now, (t.shown T r).map f⟩ : Round κ)),
    ← List.map_append] at htracks
  rw [htracks.size, hkeys, seenSince_map, seenSince_rounds]

/-- In every run of refreshes at times that do not decrease, `GetConcurrentUsers` is the number of
different clients in the window, `GetActiveConnections` that of different sockets, and there are no more
clients than sockets. -/
theorem tracker_counts (options : List TrackerOption) (rs : List Reading) (r : Reading)
    (hsorted : (rs ++ [r]).Pairwise fun a b => a.now ≤ b.now) :
    let t₀ := configured options
    let t := Run.run (TCPUserTracker.refresh T) t₀ rs
    let since := r.now - t₀.window
    (t.getConcurrentUsers T r).1 = (usersSince T t₀ since (rs ++ [r])).ncard
      ∧ (t.getActiveConnections T r).1 = (socketsSince T t₀ since (rs ++ [r])).ncard
      ∧ (t.getConcurrentUsers T r).1 ≤ (t.getActiveConnections T r).1 := by
  intro t₀ t since
  obtain ⟨hnousers, hnoconns⟩ := configured_empty options
  have hlast : t.refresh T r = Run.run (TCPUserTracker.refresh T) t₀ (rs ++ [r]) := by
    rw [Run.run_append]
    rfl
  obtain ⟨-, husers, hconns⟩ := TCPUserTracker.run_refresh T (rs ++ [r]) t₀
  have hu : (t.getConcurrentUsers T r).1 = (usersSince T t₀ since (rs ++ [r])).ncard := by
    rw [usersSince_eq, ← size_tracked T Prod.fst t₀ hsorted, TCPUserTracker.getConcurrentUsers,
      hlast, husers, hnousers]
  have hc : (t.getActiveConnections T r).1 = (socketsSince T t₀ since (rs ++ [r])).ncard := by
    rw [← Set.ncard_image_of_injective _ socketKey_injective,
      ← size_tracked T (fun k => socketKey k.1 k.2) t₀ hsorted,
      TCPUserTracker.getActiveConnections, hlast, hconns, hnoconns]
  refine ⟨hu, hc, ?_⟩
  rw [hu, hc, usersSince_eq]
  refine Set.ncard_image_le ?_
  rw [← seenSince_rounds]
  exact seenSince_finite _ _

end Counts

/-! ## A sample -/

def asciiHost : HostTexts :=
  ⟨Char.toUpper, Char.toLower, fun ip => "127.".toList.isPrefixOf ip.toList⟩

/-- A listener and two sockets of a client, then a client of the host itself, then no table. -/
def sampleReadings : List Reading :=
  [⟨fun _ => some [⟨"LISTEN", ⟨"0.0.0.0", 8080⟩, ⟨"", 0⟩⟩,
      ⟨"ESTABLISHED", ⟨"10.0.0.1", 8080⟩, ⟨"10.0.0.2", 50000⟩⟩,
      ⟨"ESTABLISHED", ⟨"10.0.0.1", 8080⟩, ⟨"10.0.0.2", 50001⟩⟩], 0⟩,
    ⟨fun kind => if kind = "all" then some [⟨"syn_recv", ⟨"127.0.0.1", 8080⟩, ⟨"127.0.0.9", 50002⟩⟩]
      else none, 30 * second⟩]

theorem tracker_counts_sample :
    let t := Run.run (TCPUserTracker.refresh asciiHost) (configured [.appPorts [8080]]) sampleReadings
    let r : Reading := ⟨fun _ => none, 60 * second⟩
    let later : Reading := ⟨fun _ => none, 61 * second⟩
    (t.getConcurrentUsers asciiHost r).1 = 2 ∧ (t.getActiveConnections asciiHost r).1 = 3
      ∧ (t.getConcurrentUsers asciiHost later).1 = 1
      ∧ (usersSince asciiHost (configured [.appPorts [8080]]) second (sampleReadings ++ [later])).ncard
        = 1 := by
  intro t r later
  have hlater : (t.getConcurrentUsers asciiHost later).1 = 1 := by decide +kernel
  have hsorted : (sampleReadings ++ [later]).Pairwise fun a b => a.now ≤ b.now := by
    simp only [sampleReadings, later, List.cons_append, List.nil_append, List.pairwise_cons]
    decide
  refine ⟨by decide +kernel, by decide +kernel, hlater, ?_⟩
  have hcount := (tracker_counts asciiHost [.appPorts [8080]] sampleReadings later hsorted).1
  exact hcount.symm.trans hlater

end WMonitor
