import WMonitor.Proofs.NetURL

/-!
# The hub client stays with its origin

The redirect policy compares each hop with the one before it. Folded equality is an equivalence, so
that every request of a chain has the scheme and the host of the first one.
-/

namespace WMonitor

namespace URLs

variable {U : URLs}

/-- The same scheme and the same host and port, up to letter case. -/
def SameOrigin (U : URLs) (a b : ParsedURL) : Prop :=
  U.equalFold a.scheme b.scheme = true ∧ U.equalFold a.host b.host = true

theorem equalFold_trans {a b c : String} (hab : U.equalFold a b = true)
    (hbc : U.equalFold b c = true) : U.equalFold a c = true := by
  simp only [equalFold, decide_eq_true_eq] at *
  exact hab.trans hbc

theorem SameOrigin.refl (a : ParsedURL) : U.SameOrigin a a := by
  simp [SameOrigin, equalFold]

theorem SameOrigin.trans {a b c : ParsedURL} (hab : U.SameOrigin a b) (hbc : U.SameOrigin b c) :
    U.SameOrigin a c :=
  ⟨equalFold_trans hab.1 hbc.1, equalFold_trans hab.2 hbc.2⟩

/-- Encrypted, or to the machine itself. -/
def Guarded (req : ParsedURL) : Prop :=
  req.scheme = "https" ∨ isLoopbackHost (hostname req.host.toList) = true

/-- A chain of requests as the policy lets them through. -/
structure Chain (U : URLs) (sent : List ParsedURL) (first : ParsedURL) : Prop where
  head : ∃ rest, sent = first :: rest ∧ ∀ req ∈ rest, Guarded req
  origin : ∀ req ∈ sent, U.SameOrigin req first

theorem Chain.start (first : ParsedURL) : Chain U [first] first :=
  ⟨⟨[], rfl, by simp⟩, by simp [SameOrigin.refl]⟩

theorem Chain.hop {sent : List ParsedURL} {first req : ParsedURL} (h : Chain U sent first)
    (hreq : U.noCredentialRedirect req sent = true) : Chain U (sent ++ [req]) first := by
  obtain ⟨rest, rfl, hrest⟩ := h.head
  obtain ⟨prev, hprev⟩ : ∃ prev, (first :: rest).getLast? = some prev :=
    ⟨_, List.getLast?_eq_some_getLast (by simp)⟩
  simp only [noCredentialRedirect, hprev, Bool.and_eq_true, Bool.or_eq_true,
    decide_eq_true_eq] at hreq
  obtain ⟨hguard, hhost, hscheme⟩ := hreq
  have hsame : U.SameOrigin req first :=
    SameOrigin.trans ⟨hscheme, hhost⟩ (h.origin prev (List.mem_of_getLast? hprev))
  refine ⟨⟨rest ++ [req], rfl, fun r hr => ?_⟩, fun r hr => ?_⟩
  · rcases List.mem_append.mp hr with hr | hr
    · exact hrest r hr
    · rw [List.mem_singleton.mp hr]
      exact hguard
  · rcases List.mem_append.mp hr with hr | hr
    · exact h.origin r hr
    · rwa [List.mem_singleton.mp hr]

theorem Chain.follow {sent : List ParsedURL} {first : ParsedURL} (h : Chain U sent first)
    (redirects : List ParsedURL) : Chain U (U.follow sent redirects).1 first := by
  induction redirects generalizing sent with
  | nil => exact h
  | cons req redirects ih =>
    unfold URLs.follow
    split_ifs with hreq
    · rw [Bool.and_eq_true] at hreq
      exact ih (h.hop hreq.1)
    · exact h

/-- A request that is sent is the first one, or it is encrypted or to the machine itself. -/
theorem mem_doRequest {α : Type} {req r : ParsedURL} {x : Exchange α}
    (hr : r ∈ (U.doRequest req x).1) :
    U.SameOrigin r req ∧ req.sendable = true ∧ (r = req ∨ Guarded r) := by
  unfold doRequest at hr
  split_ifs at hr with hsend
  · have hchain := (Chain.start (U := U) req).follow x.redirects
    obtain ⟨rest, hrest, hguard⟩ := hchain.head
    refine ⟨hchain.origin r hr, hsend, ?_⟩
    rw [hrest] at hr
    exact (List.mem_cons.mp hr).imp_right (hguard r)
  · cases hr

theorem mem_enroll {hubURL : String} {first second : Exchange EnrollReply} {now : ℤ}
    {saved : Bool} {r : ParsedURL} (hr : r ∈ (Agent.enroll U hubURL first second now saved).1) :
    U.requireHTTPSHub hubURL = true ∧ ∃ req, U.parse (hubURL ++ "/api/enroll") = some req
      ∧ U.SameOrigin r req ∧ req.sendable = true ∧ (r = req ∨ Guarded r) := by
  unfold Agent.enroll at hr
  split_ifs at hr with hsafe
  · cases hr
  refine ⟨by simpa using hsafe, ?_⟩
  cases hreq : U.parse (hubURL ++ "/api/enroll") with
  | none =>
    rw [hreq] at hr
    cases hr
  | some req =>
    rw [hreq] at hr
    have hboth : r ∈ (U.doRequest req first).1 ++ (U.doRequest req second).1 := by
      dsimp only at hr
      split at hr
      · exact List.mem_append_left _ hr
      · split at hr <;> exact hr
    refine ⟨req, rfl, ?_⟩
    rcases List.mem_append.mp hboth with hr | hr
    · exact mem_doRequest hr
    · exact mem_doRequest hr

theorem mem_requests {α : Type} {a : Agent} {payloadType : String}
    {attempts : List (Exchange α)} {r : ParsedURL}
    (hr : r ∈ a.requests U payloadType attempts) :
    ∃ req, U.parse (a.hubURL ++ ingestPath payloadType) = some req
      ∧ U.SameOrigin r req ∧ req.sendable = true ∧ (r = req ∨ Guarded r) := by
  unfold Agent.requests at hr
  cases hreq : U.parse (a.hubURL ++ ingestPath payloadType) with
  | none =>
    rw [hreq] at hr
    cases hr
  | some req =>
    rw [hreq] at hr
    obtain ⟨x, -, hr⟩ := List.mem_flatMap.mp hr
    exact ⟨req, rfl, mem_doRequest hr⟩

/-- However it is redirected, the client sends every request to the origin of the first one, and
every request but the first encrypted or to the machine itself. So the enrollment code and the
agent's key stay with the origin of the configured URL. -/
theorem redirects_stay (U : URLs) :
    (∀ first redirects i req, (U.follow [first] redirects).1[i]? = some req →
        U.SameOrigin req first ∧ (i ≠ 0 → Guarded req))
      ∧ (∀ hubURL first second now saved,
        ∀ r ∈ (Agent.enroll U hubURL first second now saved).1,
          ∃ req, U.parse (hubURL ++ "/api/enroll") = some req ∧ U.SameOrigin r req)
      ∧ ∀ (a : Agent) payloadType (attempts : List (Exchange Reply)),
        ∀ r ∈ a.requests U payloadType attempts,
          ∃ req, U.parse (a.hubURL ++ ingestPath payloadType) = some req
            ∧ U.SameOrigin r req := by
  refine ⟨fun first redirects i req hi => ?_, fun hubURL first second now saved r hr => ?_,
    fun a payloadType attempts r hr => ?_⟩
  rotate_left
  · obtain ⟨-, req, hreq, hsame, -⟩ := mem_enroll hr
    exact ⟨req, hreq, hsame⟩
  · obtain ⟨req, hreq, hsame, -⟩ := mem_requests hr
    exact ⟨req, hreq, hsame⟩
  have hchain := (Chain.start (U := U) first).follow redirects
  refine ⟨hchain.origin req (List.mem_of_getElem? hi), fun hne => ?_⟩
  obtain ⟨rest, hrest, hguard⟩ := hchain.head
  obtain ⟨j, rfl⟩ := Nat.exists_eq_succ_of_ne_zero hne
  rw [hrest, List.getElem?_cons_succ] at hi
  exact hguard req (List.mem_of_getElem? hi)

/-- A redirect to another path of the same host, and then one to another host. -/
theorem redirects_stay_sample :
    ((netURLs some Char.toLower).follow [⟨"https", "hub"⟩]
          [⟨"https", "HUB"⟩, ⟨"https", "evil"⟩]).1 = [⟨"https", "hub"⟩, ⟨"https", "HUB"⟩]
      ∧ (netURLs some Char.toLower).SameOrigin ⟨"https", "HUB"⟩ ⟨"https", "hub"⟩ := by
  have hsent : ((netURLs some Char.toLower).follow [⟨"https", "hub"⟩]
      [⟨"https", "HUB"⟩, ⟨"https", "evil"⟩]).1 = [⟨"https", "hub"⟩, ⟨"https", "HUB"⟩] := by
    decide +kernel
  exact ⟨hsent, ((redirects_stay (netURLs some Char.toLower)).1 ⟨"https", "hub"⟩
    [⟨"https", "HUB"⟩, ⟨"https", "evil"⟩] 1 ⟨"https", "HUB"⟩ (by rw [hsent]; rfl)).1⟩

/-! ## Where the first request goes -/

section Configured

variable {ipLiteral : List Char → Option (List Char)} {fold : Char → Char} {raw : String}
  {u r : ParsedURL}

theorem requireHTTPSHub_iff {U : URLs} : U.requireHTTPSHub raw = true ↔
    ∃ u, U.parse (canonicalHubURL raw) = some u ∧ u.scheme ≠ ""
      ∧ (U.equalFold u.scheme "https" = true
        ∨ (hostname u.host.toList).map Char.toLower = "localhost".toList
        ∨ "127.".toList.isPrefixOf ((hostname u.host.toList).map Char.toLower) = true
        ∨ (hostname u.host.toList).map Char.toLower = "::1".toList) := by
  unfold requireHTTPSHub
  cases U.parse (canonicalHubURL raw) with
  | none => simp only [Bool.false_eq_true, reduceCtorEq, false_and, exists_false]
  | some u =>
    simp only [Bool.and_eq_true, Bool.or_eq_true, decide_eq_true_eq, or_assoc, Option.some.injEq,
      exists_eq_left']

theorem loopback_iff : u.loopback = true ↔
    (hostname u.host.toList).map Char.toLower = "localhost".toList
      ∨ (hostname u.host.toList).map Char.toLower = "::1".toList
      ∨ ((parseIPv4 ((hostname u.host.toList).map Char.toLower)).any fun bytes =>
        bytes.head? = some 127) = true := by
  simp only [ParsedURL.loopback, Bool.or_eq_true, decide_eq_true_eq, or_assoc]

/-- The accepted hosts are not empty. -/
theorem host_ne_empty (h : "127.".toList.isPrefixOf ((hostname u.host.toList).map Char.toLower) = true
      ∨ u.loopback = true) : u.host ≠ "" := by
  intro hempty
  rw [ParsedURL.loopback, hempty] at h
  revert h
  decide +kernel

theorem scheme_of_sendable {U : URLs} (hsend : r.sendable = true)
    (hfold : U.equalFold r.scheme "https" = true) : r.scheme = "https" := by
  simp only [ParsedURL.sendable, Bool.and_eq_true, Bool.or_eq_true, decide_eq_true_eq] at hsend
  refine hsend.1.1.resolve_right fun hhttp => ?_
  rw [hhttp, equalFold, decide_eq_true_eq] at hfold
  have := congrArg List.length hfold
  simp at this

theorem netURLs_parse (raw : String) :
    (netURLs ipLiteral fold).parse raw = NetURL.parse ipLiteral raw.toList := rfl

/-- An accepted URL that is safe. -/
structure Checked (ipLiteral : List Char → Option (List Char)) (fold : Char → Char) (raw : String)
    (u : ParsedURL) : Prop where
  parsed : (netURLs ipLiteral fold).parse (canonicalHubURL raw) = some u
  scheme : u.scheme ≠ ""
  safe : (netURLs ipLiteral fold).equalFold u.scheme "https" = true ∨ u.loopback = true

/-- A request to the checked URL with a path behind it is as safe as the URL. -/
theorem Checked.request (h : Checked ipLiteral fold raw u) {w p : List Char}
    (hw : ∀ x ∈ w, isSpace x = true ∨ x = '/')
    (hr : NetURL.parse ipLiteral ((canonicalHubURL raw).toList ++ (w ++ '/' :: p)) = some r)
    (hsend : r.sendable = true) : r.scheme = "https" ∨ r.loopback = true := by
  have hu := h.parsed
  rw [netURLs_parse] at hu
  obtain ⟨hs, hh⟩ := NetURL.parse_append hu h.scheme hw hr hsend
  rcases h.safe with hhttps | hloop
  · rw [← hs] at hhttps
    exact .inl (scheme_of_sendable hsend hhttps)
  · have hhost : r.host = u.host := hh (host_ne_empty (.inr hloop))
    right
    rwa [ParsedURL.loopback, hhost]

theorem Guarded.safe (h : Guarded r) : r.scheme = "https" ∨ r.loopback = true := by
  refine h.imp_right fun hloop => ?_
  simp only [isLoopbackHost, Bool.or_eq_true, decide_eq_true_eq] at hloop
  rcases hloop with (hh | hh) | hh <;> rw [ParsedURL.loopback, hh] <;> decide +kernel

theorem ingestPath_slash (payloadType : String) : ∃ p, (ingestPath payloadType).toList = '/' :: p := by
  unfold ingestPath
  split_ifs
  · exact ⟨_, rfl⟩
  · exact ⟨_, String.toList_append⟩

/-- An agent without an initialisation error was given a URL that was accepted. -/
theorem newAgent_initErr {U : URLs} {apiKey : String} {opened : Except SpoolError Unit}
    {boot seed : Option UInt64} (h : (newAgent U raw apiKey opened boot seed).initErr = none) :
    U.requireHTTPSHub raw = true := by
  unfold newAgent at h
  by_contra hnot
  rw [if_pos (by simpa using hnot)] at h
  cases h

theorem newAgent_hubURL (U : URLs) (apiKey : String) (opened : Except SpoolError Unit)
    (boot seed : Option UInt64) :
    (newAgent U raw apiKey opened boot seed).hubURL = canonicalHubURL raw := by
  unfold newAgent
  dsimp only
  repeat' split
  all_goals rfl

theorem Checked.requests (h : Checked ipLiteral fold raw u) {a : Agent}
    (ha : a.hubURL = canonicalHubURL raw) {payloadType : String} {attempts : List (Exchange Reply)}
    (hr : r ∈ a.requests (netURLs ipLiteral fold) payloadType attempts) :
    r.scheme = "https" ∨ r.loopback = true := by
  obtain ⟨req, hreq, -, hsend, hfirst⟩ := mem_requests hr
  rcases hfirst with rfl | hguard
  · obtain ⟨p, hp⟩ := ingestPath_slash payloadType
    rw [netURLs_parse, ha, String.toList_append, hp] at hreq
    exact h.request (w := []) (by simp) hreq hsend
  · exact hguard.safe

theorem Checked.enroll (h : Checked ipLiteral fold raw u) {first second : Exchange EnrollReply}
    {now : ℤ} {saved : Bool}
    (hr : r ∈ (Agent.enroll (netURLs ipLiteral fold) raw first second now saved).1) :
    r.scheme = "https" ∨ r.loopback = true := by
  obtain ⟨-, req, hreq, -, hsend, hfirst⟩ := mem_enroll hr
  rcases hfirst with rfl | hguard
  · obtain ⟨lead, w, hraw, hlead, hw⟩ := NetURL.canonicalHubURL_parts raw
    have hpath : "/api/enroll".toList = '/' :: "api/enroll".toList := by decide +kernel
    rw [netURLs_parse, String.toList_append, hraw, List.append_assoc, List.append_assoc,
      hpath] at hreq
    cases lead with
    | nil =>
      rw [List.nil_append] at hreq
      exact h.request hw hreq hsend
    | cons c lead =>
      rw [List.cons_append] at hreq
      have hempty := NetURL.parse_of_space (hlead c (by simp)) hreq
      rw [ParsedURL.sendable, hempty] at hsend
      cases hsend
  · exact hguard.safe

/-- What `RequireHTTPSHub` accepts is safe, and so is every request of the agent and of the enrollment,
exactly if a host that is let through because it begins with `127.` is an address. -/
theorem requireHTTPSHub_safe_iff (ipLiteral : List Char → Option (List Char)) (fold : Char → Char)
    (raw : String) :
    ((∀ u, (netURLs ipLiteral fold).requireHTTPSHub raw = true →
          (netURLs ipLiteral fold).parse (canonicalHubURL raw) = some u →
          (netURLs ipLiteral fold).equalFold u.scheme "https" = true ∨ u.loopback = true)
        ∧ (∀ apiKey opened boot seed payloadType (attempts : List (Exchange Reply)),
          (newAgent (netURLs ipLiteral fold) raw apiKey opened boot seed).initErr = none →
          ∀ r ∈ (newAgent (netURLs ipLiteral fold) raw apiKey opened boot seed).requests
            (netURLs ipLiteral fold) payloadType attempts, r.scheme = "https" ∨ r.loopback = true)
        ∧ ∀ first second now saved,
          ∀ r ∈ (Agent.enroll (netURLs ipLiteral fold) raw first second now saved).1,
            r.scheme = "https" ∨ r.loopback = true)
      ↔ ∀ u, (netURLs ipLiteral fold).parse (canonicalHubURL raw) = some u → u.scheme ≠ "" →
        (netURLs ipLiteral fold).equalFold u.scheme "https" = false →
        "127.".toList.isPrefixOf ((hostname u.host.toList).map Char.toLower) = true →
        u.loopback = true := by
  constructor
  · rintro ⟨hsafe, -, -⟩ u hu hscheme hplain hloop
    have haccept : (netURLs ipLiteral fold).requireHTTPSHub raw = true :=
      requireHTTPSHub_iff.mpr ⟨u, hu, hscheme, .inr (.inr (.inl hloop))⟩
    refine (hsafe u haccept hu).resolve_left ?_
    rw [hplain]
    exact Bool.false_ne_true
  intro hcond
  have hchecked : (netURLs ipLiteral fold).requireHTTPSHub raw = true →
      ∃ u, Checked ipLiteral fold raw u := by
    intro haccept
    obtain ⟨u, hu, hscheme, hcases⟩ := requireHTTPSHub_iff.mp haccept
    refine ⟨u, hu, hscheme, ?_⟩
    by_cases hhttps : (netURLs ipLiteral fold).equalFold u.scheme "https" = true
    · exact .inl hhttps
    right
    rcases hcases with h | h | h | h
    · exact absurd h hhttps
    · exact loopback_iff.mpr (.inl h)
    · exact hcond u hu hscheme (eq_false_of_ne_true hhttps) h
    · exact loopback_iff.mpr (.inr (.inl h))
  refine ⟨fun u haccept hu => ?_, fun apiKey opened boot seed payloadType attempts hinit r hr => ?_,
    fun first second now saved r hr => ?_⟩
  · obtain ⟨u', h⟩ := hchecked haccept
    obtain rfl : u' = u := Option.some.inj (h.parsed.symm.trans hu)
    exact h.safe
  · obtain ⟨u, h⟩ := hchecked (newAgent_initErr hinit)
    exact h.requests (newAgent_hubURL _ apiKey opened boot seed) hr
  · obtain ⟨u, h⟩ := hchecked (mem_enroll hr).1
    exact h.enroll hr

end Configured

/-- A name that only looks like an address. -/
theorem enroll_in_clear :
    (netURLs some Char.toLower).requireHTTPSHub "http://127.evil.example" = true
      ∧ (Agent.enroll (netURLs some Char.toLower) "http://127.evil.example" ⟨[], none⟩ ⟨[], none⟩ 0
          true).1 = [⟨"http", "127.evil.example"⟩, ⟨"http", "127.evil.example"⟩]
      ∧ (⟨"http", "127.evil.example"⟩ : ParsedURL).loopback = false
      ∧ (newAgent (netURLs some Char.toLower) "http://127.evil.example" "key" (.ok ()) (some 1)
          (some 1)).initErr = none := by
  decide +kernel

end URLs

end WMonitor
