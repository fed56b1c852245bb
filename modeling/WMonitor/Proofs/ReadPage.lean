import WMonitor.Proofs.Store
import WMonitor.ReadPage

/-!
# Following a read from page to page

A client asks for a page, and for the next one with the cursor it was given, until a page says that
it is complete. Between two requests rows may be added and the window may move. What one page gives
is the first rows past the cursor, so the pages together are strictly in order; a row that was
there from the start is either among them or past the cursor.
-/

namespace WMonitor

/-! ## Cursors as text -/

theorem not_isSpace_of_digit {c : Char} (h : c.isDigit = true) : isSpace c = false := by
  have := digit_bounds h
  simp only [isSpace, Bool.or_eq_false_iff, Bool.and_eq_false_iff, decide_eq_false_iff_not]
  omega

theorem not_isSpace_of_itoa {n : ℤ} {c : Char} (h : c ∈ itoa n) : isSpace c = false := by
  rcases itoa_chars h with rfl | hd
  · decide
  · exact not_isSpace_of_digit hd

theorem colon_not_mem_itoa (n : ℤ) : ':' ∉ itoa n := by
  intro h
  rcases itoa_chars h with h | h
  · exact absurd h (by decide)
  · exact absurd h (by decide)

theorem parseCursor_next {u i : ℤ} (hu : -2 ^ 63 ≤ u ∧ u < 2 ^ 63) (hi : 1 ≤ i ∧ i < 2 ^ 63) :
    parseCursor (String.ofList (itoa u ++ ':' :: itoa i)) = .ok (u, i) := by
  have hs : ∀ c ∈ itoa u ++ ':' :: itoa i, isSpace c = false := by
    intro c hc
    rcases List.mem_append.1 hc with hc | hc
    · exact not_isSpace_of_itoa hc
    · rcases List.mem_cons.1 hc with rfl | hc
      · decide
      · exact not_isSpace_of_itoa hc
  unfold parseCursor
  rw [String.toList_ofList, trimSpace_of_forall hs]
  simp only [List.append_eq_nil_iff, reduceCtorEq, and_false, if_false,
    cut_append (colon_not_mem_itoa u), itoa_ne_nil, or_self, atoi_itoa hu.1 hu.2,
    atoi_itoa (by omega : -2 ^ 63 ≤ i) hi.2]
  rw [if_neg (by omega)]

theorem parseLimit_bounds {limit : String} {n : ℤ} (h : parseLimit limit = .ok n) :
    1 ≤ n ∧ n ≤ defaultQueryLimit := by
  unfold parseLimit at h
  dsimp only at h
  split_ifs at h
  · cases h
    exact ⟨by decide, le_rfl⟩
  · split at h
    · cases h
    split_ifs at h with hc
    cases h
    omega

/-! ## One page -/

/-- The table a source reads: its rows are the table's, scanned. -/
structure Listing (α ρ : Type) where
  source : PageSource ρ
  columns : Columns α
  table : HubDB → List (Stored α)
  scan : Stored α → ρ
  query_eq : ∀ q db, requireTenant q.tenantID = true →
    source.query q db = .ok ((columns.select q false (table db)).map scan)
  timestamp_scan : ∀ r, unix (source.timestamp (scan r)) = columns.timestamp r.row
  id_scan : ∀ r, source.id (scan r) = r.id

theorem unix_mul_second (n : ℤ) : unix (n * second) = n :=
  Int.mul_ediv_cancel n (by decide)

def metricListing : Listing MetricRecord MetricRow where
  source := metricPages
  columns := metricColumns
  table := HubDB.metrics
  scan := scanMetric
  query_eq _ _ h := if_pos h
  timestamp_scan r := unix_mul_second r.row.timestamp
  id_scan _ := rfl

def processListing : Listing ProcessRecord ProcessRow where
  source := processPages
  columns := processColumns
  table := HubDB.processes
  scan := scanProcess
  query_eq _ _ h := if_pos h
  timestamp_scan r := unix_mul_second r.row.timestamp
  id_scan _ := rfl

/-- What the primary key and the signed columns of a table ensure. -/
structure Keyed {α : Type} (C : Columns α) (t : List (Stored α)) : Prop where
  nodup : (t.map (·.id)).Nodup
  id : ∀ r ∈ t, 1 ≤ r.id ∧ r.id < 2 ^ 63
  timestamp : ∀ r ∈ t, -2 ^ 63 ≤ C.timestamp r.row ∧ C.timestamp r.row < 2 ^ 63

/-- The row is past the cursor `(u, i)`, which is none when `i` is zero. -/
def Columns.past {α : Type} (C : Columns α) (u i : ℤ) (r : Stored α) : Bool :=
  i ≤ 0 || u < C.timestamp r.row || (C.timestamp r.row = u && i < r.id)

/-- The row is one the scope asks for. -/
def Columns.inScope {α : Type} (C : Columns α) (s : Scope) (r : Stored α) : Bool :=
  C.meets (s.query ⟨0, 0, 0⟩) false r

section Page

variable {α ρ : Type} {L : Listing α ρ} {scope : Scope} {limit cursor : String} {db : HubDB}
  {n u i : ℤ} {r : Stored α}

theorem Columns.meets_query {C : Columns α} :
    C.meets (scope.query ⟨n, u, i⟩) false r = (C.inScope scope r && C.past u i r) := by
  have hnone : C.passed (scope.query ⟨0, 0, 0⟩) r = true := rfl
  unfold Columns.inScope Columns.meets
  rw [hnone, Bool.and_true]
  rfl

theorem Columns.past_iff_behind {C : Columns α} {last : Stored α} (h : 1 ≤ last.id) :
    C.past (C.timestamp last.row) last.id r = true ↔ C.Behind last r := by
  simp only [Columns.past, Columns.Behind, Bool.or_eq_true, Bool.and_eq_true, decide_eq_true_eq]
  omega

/-- A page is complete and has every row the scope asks for past the cursor, or it is full and its
cursor is that of its last row. -/
theorem page_cases (scope : Scope) (db : HubDB) (hp : parseLimit limit = .ok n)
    (hc : parseCursor cursor = .ok (u, i)) (ht : requireTenant scope.tenantID = true)
    (hk : Keyed L.columns (L.table db)) :
    (∃ sel, sel = L.columns.ordered (scope.query ⟨n, u, i⟩) false (L.table db)
      ∧ L.source.page scope limit cursor db = .ok ⟨sel.map L.scan, "", true⟩)
    ∨ ∃ sel rest last next, sel ++ rest
        = L.columns.ordered (scope.query ⟨n, u, i⟩) false (L.table db)
      ∧ sel.getLast? = some last
      ∧ parseCursor next = .ok (L.columns.timestamp last.row, (last.id : ℤ))
      ∧ L.source.page scope limit cursor db = .ok ⟨sel.map L.scan, next, false⟩ := by
  obtain ⟨hn, hn'⟩ := parseLimit_bounds hp
  have hlim : (boundedLimit n : ℤ) = n := by
    unfold boundedLimit
    rw [if_neg (by omega)]
    omega
  have hpage : parseReadPage limit cursor = .ok ⟨n, u, i⟩ := by
    unfold parseReadPage
    rw [hp, hc]
    rfl
  unfold PageSource.page
  simp only [hpage]
  rw [L.query_eq (scope.query ⟨n, u, i⟩) db ht]
  unfold Columns.select
  simp only [Scope.query] at *
  generalize hord : L.columns.ordered _ false (L.table db) = ord
  simp only [List.getLast?_map]
  have hlen : (ord.take (boundedLimit n)).length = min (boundedLimit n) ord.length :=
    List.length_take
  rcases hl : (ord.take (boundedLimit n)).getLast? with _ | last
  · have hnil := List.getLast?_eq_none_iff.1 hl
    have hord' : ord = [] := by
      rw [hnil, List.length_nil] at hlen
      rw [← List.length_eq_zero_iff]
      omega
    exact .inl ⟨ord, rfl, by simp [hord']⟩
  · have hmem := List.mem_of_mem_take (List.mem_of_getLast? hl)
    rw [← hord, Columns.mem_ordered] at hmem
    have hid := hk.id last hmem.1
    simp only [Option.map_some, L.timestamp_scan, L.id_scan, nextReadCursor, List.length_map]
    by_cases hshort : ord.length < boundedLimit n
    · have hlt : (ord.length : ℤ) < n := by omega
      refine .inl ⟨ord, rfl, ?_⟩
      rw [List.take_of_length_le hshort.le]
      simp only [hlt, decide_true, Bool.true_or, if_true]
    · refine .inr ⟨ord.take (boundedLimit n), ord.drop (boundedLimit n), last,
        String.ofList (itoa (L.columns.timestamp last.row) ++ ':' :: itoa last.id),
        List.take_append_drop _ _, hl, parseCursor_next (hk.timestamp last hmem.1) ?_, ?_⟩
      · omega
      · have hfull : ¬ ((ord.take (boundedLimit n)).length : ℤ) < n := by
          rw [hlen]
          omega
        have hone : ¬ (last.id : ℤ) < 1 := by omega
        simp only [hfull, hone, decide_false, Bool.or_self, Bool.false_eq_true, if_false]

end Page

/-! ## From page to page -/

/-- What a request finds: the tables, and the window it asks for. -/
structure Fetch where
  db : HubDB
  since : ℤ
  untilTime : ℤ

def Fetch.scope (f : Fetch) (tenant server : String) : Scope :=
  ⟨f.since, f.untilTime, tenant, server⟩

/-- The pages a client is given that follows the cursors until a page is complete. -/
def PageSource.follow {ρ : Type} (S : PageSource ρ) (tenant server limit : String) :
    String → List Fetch → Except PageError (List (Page ρ))
  | _, [] => .ok []
  | cursor, f :: fs =>
    match S.page (f.scope tenant server) limit cursor f.db with
    | .error e => .error e
    | .ok page =>
      if page.complete then .ok [page]
      else match S.follow tenant server limit page.nextCursor fs with
        | .error e => .error e
        | .ok pages => .ok (page :: pages)

/-- The pages gave out the rows `got`, all past the cursor `(u, i)`. -/
structure Covers {α ρ : Type} (L : Listing α ρ) (tenant server : String) (u i : ℤ)
    (fetches : List Fetch) (pages : List (Page ρ)) (got : List (Stored α)) : Prop where
  length : pages.length ≤ fetches.length
  rows : pages.flatMap (·.rows) = got.map L.scan
  order : got.Pairwise L.columns.Behind
  sound : ∀ r ∈ got, L.columns.past u i r = true
    ∧ ∃ f ∈ fetches, r ∈ L.table f.db ∧ L.columns.inScope (f.scope tenant server) r = true
  all : (∃ p ∈ pages, p.complete = true) → ∀ f ∈ fetches.head?, ∀ r ∈ L.table f.db,
    L.columns.past u i r = true →
    (∀ f ∈ fetches.take pages.length, L.columns.inScope (f.scope tenant server) r = true) →
    r ∈ got
  last : ∀ (k : ℕ) (p : Page ρ) (f : Fetch), pages[k]? = some p → p.complete = true →
    fetches[k]? = some f →
    ∀ r ∈ L.table f.db, L.columns.inScope (f.scope tenant server) r = true →
    L.columns.past u i r = true → ∃ x ∈ got, L.columns.Before r x
  stop : ∀ (fs fs' : List Fetch) (t : List (Stored α)), fetches = fs ++ fs' →
    (∀ f ∈ fs', L.table f.db = t) → t.countP (L.columns.past u i) < fs'.length → ∃ p ∈ pages, p.complete = true

section Follow

variable {α ρ : Type} {L : Listing α ρ} {tenant server limit : String} {n u i : ℤ}

theorem covers_nil : Covers L tenant server u i [] [] [] where
  length := le_rfl
  rows := rfl
  order := .nil
  sound := by simp
  all := by simp
  last := by simp
  stop fs fs' t h _ hlt := by
    obtain ⟨-, rfl⟩ := List.append_eq_nil_iff.1 h.symm
    simp at hlt

theorem covers_complete {f : Fetch} {fs : List Fetch}
    (hk : Keyed L.columns (L.table f.db)) :
    Covers L tenant server u i (f :: fs)
      [⟨(L.columns.ordered ((f.scope tenant server).query ⟨n, u, i⟩) false (L.table f.db)).map
        L.scan, "", true⟩]
      (L.columns.ordered ((f.scope tenant server).query ⟨n, u, i⟩) false (L.table f.db)) := by
  have hmem : ∀ {r}, r ∈ L.columns.ordered ((f.scope tenant server).query ⟨n, u, i⟩) false
      (L.table f.db) ↔ r ∈ L.table f.db ∧ L.columns.inScope (f.scope tenant server) r = true
        ∧ L.columns.past u i r = true := by
    intro r
    rw [Columns.mem_ordered, Columns.meets_query, Bool.and_eq_true]
  refine ⟨by simp, by simp, Columns.ordered_behind hk.nodup _ _, fun r hr => ?_, ?_, ?_, ?_⟩
  · obtain ⟨h₁, h₂, h₃⟩ := hmem.1 hr
    exact ⟨h₃, f, List.mem_cons_self, h₁, h₂⟩
  · intro _ g hg r hr hpast hin
    simp only [List.head?_cons, Option.mem_def, Option.some.injEq] at hg
    subst hg
    exact hmem.2 ⟨hr, hin f (by simp), hpast⟩
  · intro k p g hp _ hg r hr hin hpast
    cases k with
    | zero =>
      simp only [List.getElem?_cons_zero, Option.some.injEq] at hg
      subst hg
      exact ⟨r, hmem.2 ⟨hr, hin, hpast⟩, .refl r⟩
    | succ k => simp at hp
  · intro _ _ _ _ _ _
    exact ⟨_, List.mem_singleton_self _, rfl⟩

theorem covers_more {f : Fetch} {fs : List Fetch} {sel rest got : List (Stored α)}
    {last : Stored α} {next : String} {pages : List (Page ρ)}
    (hk : Keyed L.columns (L.table f.db)) (hg : ∀ g ∈ fs.head?, L.table f.db ⊆ L.table g.db)
    (hsel : sel ++ rest
      = L.columns.ordered ((f.scope tenant server).query ⟨n, u, i⟩) false (L.table f.db))
    (hl : sel.getLast? = some last)
    (hc : Covers L tenant server (L.columns.timestamp last.row) last.id fs pages got) :
    Covers L tenant server u i (f :: fs) (⟨sel.map L.scan, next, false⟩ :: pages)
      (sel ++ got) := by
  have hmem : ∀ {r}, r ∈ sel ++ rest ↔ r ∈ L.table f.db
      ∧ L.columns.inScope (f.scope tenant server) r = true ∧ L.columns.past u i r = true := by
    intro r
    rw [hsel, Columns.mem_ordered, Columns.meets_query, Bool.and_eq_true]
  have hsort : (sel ++ rest).Pairwise L.columns.Behind := by
    rw [hsel]
    exact Columns.ordered_behind hk.nodup _ _
  have hin : last ∈ sel := List.mem_of_getLast? hl
  obtain ⟨hlast, -, hlastpast⟩ := hmem.1 (List.mem_append_left rest hin)
  have hpast : ∀ {r}, L.columns.past (L.columns.timestamp last.row) last.id r = true
      ↔ L.columns.Behind last r := Columns.past_iff_behind (hk.id last hlast).1
  have hup : ∀ r ∈ sel, L.columns.Before r last := by
    intro r hr
    obtain ⟨init, rfl⟩ := List.getLast?_eq_some_iff.1 hl
    rcases List.mem_append.1 hr with hr | hr
    · exact ((List.pairwise_append.1 (List.pairwise_append.1 hsort).1).2.2 r hr last
        (List.mem_singleton_self _)).before
    · rw [List.mem_singleton.1 hr]
      exact .refl last
  have hmono : ∀ {r}, L.columns.Behind last r → L.columns.past u i r = true := by
    intro r hr
    simp only [Columns.past, Bool.or_eq_true, Bool.and_eq_true, decide_eq_true_eq] at hlastpast ⊢
    unfold Columns.Behind at hr
    omega
  have hcomplete : ∀ {p : Page ρ}, p ∈ (⟨sel.map L.scan, next, false⟩ : Page ρ) :: pages →
      p.complete = true → p ∈ pages := by
    intro p hp hcp
    rcases List.mem_cons.1 hp with rfl | hp
    · cases hcp
    · exact hp
  refine ⟨by simpa using hc.length, by simp [hc.rows], ?_, ?_, ?_, ?_, ?_⟩
  · refine List.pairwise_append.2 ⟨(List.pairwise_append.1 hsort).1, hc.order, ?_⟩
    intro a ha b hb
    exact (hup a ha).behind (hpast.1 (hc.sound b hb).1)
  · intro r hr
    rcases List.mem_append.1 hr with hr | hr
    · obtain ⟨h₁, h₂, h₃⟩ := hmem.1 (List.mem_append_left rest hr)
      exact ⟨h₃, f, List.mem_cons_self, h₁, h₂⟩
    · obtain ⟨h₁, g, hg, h₂⟩ := hc.sound r hr
      exact ⟨hmono (hpast.1 h₁), g, List.mem_cons_of_mem _ hg, h₂⟩
  · rintro ⟨p, hp, hcp⟩ g hg' r hr hru hscope
    simp only [List.head?_cons, Option.mem_def, Option.some.injEq] at hg'
    subst hg'
    have hp := hcomplete hp hcp
    rcases List.mem_append.1 (hmem.2 ⟨hr, hscope f (by simp), hru⟩) with h | h
    · exact List.mem_append_left _ h
    refine List.mem_append_right _ ?_
    cases fs with
    | nil =>
      rw [List.eq_nil_of_length_eq_zero (Nat.le_zero.1 hc.length)] at hp
      simp at hp
    | cons g fs =>
      refine hc.all ⟨p, hp, hcp⟩ g rfl r (hg g rfl hr) ?_ fun g' hg' => hscope g' ?_
      · exact hpast.2 ((List.pairwise_append.1 hsort).2.2 last hin r h)
      · rw [List.length_cons, List.take_succ_cons]
        exact List.mem_cons_of_mem _ hg'
  · intro k p g hp hcp hg' r hr hscope hru
    cases k with
    | zero =>
      simp only [List.getElem?_cons_zero, Option.some.injEq] at hp
      subst hp
      cases hcp
    | succ k =>
      simp only [List.getElem?_cons_succ] at hp hg'
      by_cases hb : L.columns.Behind last r
      · obtain ⟨x, hx, hrx⟩ := hc.last k p g hp hcp hg' r hr hscope (hpast.2 hb)
        exact ⟨x, List.mem_append_right _ hx, hrx⟩
      · exact ⟨last, List.mem_append_left _ hin, Columns.before_of_not_behind hb⟩
  · intro fs₁ fs₂ t hfs ht hlt
    have hle : t.countP (L.columns.past (L.columns.timestamp last.row) last.id)
        ≤ t.countP (L.columns.past u i) :=
      List.countP_mono_left fun r _ hr => hmono (hpast.1 hr)
    suffices h : ∃ p ∈ pages, p.complete = true by
      obtain ⟨p, hp, hcp⟩ := h
      exact ⟨p, List.mem_cons_of_mem _ hp, hcp⟩
    cases fs₁ with
    | cons g fs₁ =>
      obtain ⟨-, hfs⟩ := List.cons.inj hfs
      exact hc.stop fs₁ fs₂ t hfs ht (hle.trans_lt hlt)
    | nil =>
      rw [List.nil_append] at hfs
      subst hfs
      obtain rfl := ht f List.mem_cons_self
      refine hc.stop [] fs (L.table f.db) rfl (fun g hg => ht g (List.mem_cons_of_mem _ hg)) ?_
      have hstrict : (L.table f.db).countP
            (L.columns.past (L.columns.timestamp last.row) last.id)
          < (L.table f.db).countP (L.columns.past u i) := by
        refine Table.countP_lt (fun r hr => hmono (hpast.1 hr)) hlast hlastpast ?_
        rw [Bool.eq_false_iff, ne_eq, hpast]
        exact Columns.Behind.irrefl last
      rw [List.length_cons] at hlt
      omega

theorem follow_covers (server : String) (hp : parseLimit limit = .ok n) (ht : requireTenant tenant = true) :
    ∀ (fetches : List Fetch) {cursor : String} {u i : ℤ}, parseCursor cursor = .ok (u, i) →
      (∀ f ∈ fetches, Keyed L.columns (L.table f.db)) →
      fetches.IsChain (fun f g => L.table f.db ⊆ L.table g.db) →
      ∃ pages got, L.source.follow tenant server limit cursor fetches = .ok pages
        ∧ Covers L tenant server u i fetches pages got
  | [], cursor, u, i, _, _, _ => ⟨[], [], rfl, covers_nil⟩
  | f :: fs, cursor, u, i, hc, hk, hg => by
    have hkf := hk f List.mem_cons_self
    rw [PageSource.follow]
    rcases page_cases (L := L) (f.scope tenant server) f.db hp hc ht hkf with
      ⟨sel, rfl, hpage⟩ | ⟨sel, rest, last, next, hsel, hl, hnext, hpage⟩ <;> rw [hpage]
    · exact ⟨_, _, rfl, covers_complete hkf⟩
    · obtain ⟨pages, got, hf, hcov⟩ := follow_covers server hp ht fs hnext
        (fun g hg => hk g (List.mem_cons_of_mem _ hg)) (List.isChain_cons.1 hg).2
      dsimp only
      rw [if_neg (by simp), hf]
      exact ⟨_, _, rfl, covers_more hkf (List.isChain_cons.1 hg).1 hsel hl hcov⟩

/-- What a client that follows the cursors from an empty one is given: the rows `got`, each once and
in order, and once a page is complete every row it asked for each time that was there from the
start. A complete page leaves nothing behind it, and one comes when no more rows are added. -/
structure Followed (L : Listing α ρ) (tenant server : String) (fetches : List Fetch)
    (pages : List (Page ρ)) (got : List (Stored α)) : Prop where
  rows : pages.flatMap (·.rows) = got.map L.scan
  order : got.Pairwise L.columns.Behind
  once : got.Nodup
  sound : ∀ r ∈ got, ∃ f ∈ fetches,
    r ∈ L.table f.db ∧ L.columns.inScope (f.scope tenant server) r = true
  all : (∃ p ∈ pages, p.complete = true) → ∀ f ∈ fetches.head?, ∀ r ∈ L.table f.db,
    (∀ f ∈ fetches.take pages.length, L.columns.inScope (f.scope tenant server) r = true) →
    r ∈ got
  last : ∀ (k : ℕ) (p : Page ρ) (f : Fetch), pages[k]? = some p → p.complete = true →
    fetches[k]? = some f →
    ∀ r ∈ L.table f.db, L.columns.inScope (f.scope tenant server) r = true →
    ∃ x ∈ got, L.columns.Before r x
  stop : ∀ (fs fs' : List Fetch) (t : List (Stored α)), fetches = fs ++ fs' →
    (∀ f ∈ fs', L.table f.db = t) → t.length < fs'.length → ∃ p ∈ pages, p.complete = true

theorem follow_followed (hp : parseLimit limit = .ok n) (ht : requireTenant tenant = true)
    {fetches : List Fetch} (hk : ∀ f ∈ fetches, Keyed L.columns (L.table f.db))
    (hg : fetches.IsChain fun f g => L.table f.db ⊆ L.table g.db) :
    ∃ pages got, L.source.follow tenant server limit "" fetches = .ok pages
      ∧ Followed L tenant server fetches pages got := by
  obtain ⟨pages, got, hf, hc⟩ := follow_covers (L := L) server hp ht fetches
    (show parseCursor "" = .ok (0, 0) from rfl) hk hg
  refine ⟨pages, got, hf, hc.rows, hc.order, ?_, fun r hr => (hc.sound r hr).2,
    fun h f hf r hr => hc.all h f hf r hr rfl,
    fun k p f hp hcp hf r hr hs => hc.last k p f hp hcp hf r hr hs rfl, ?_⟩
  · refine List.nodup_iff_pairwise_ne.2 (hc.order.imp ?_)
    rintro a b hab rfl
    exact Columns.Behind.irrefl a hab
  · intro fs fs' t h hsame hlt
    exact hc.stop fs fs' t h hsame (List.countP_le_length.trans_lt hlt)

end Follow

/-- The tables only gain rows. -/
def Fetch.Before (f g : Fetch) : Prop :=
  f.db.metrics ⊆ g.db.metrics ∧ f.db.processes ⊆ g.db.processes

/-- Whatever rows are added between the requests and wherever their windows lie, a client that
follows the pages of either table is given its rows once each and in order. -/
theorem follow_pages (tenant server limit : String) (n : ℤ) (hp : parseLimit limit = .ok n)
    (ht : requireTenant tenant = true) (fetches : List Fetch)
    (hk : ∀ f ∈ fetches, Keyed metricColumns f.db.metrics ∧ Keyed processColumns f.db.processes)
    (hg : fetches.IsChain Fetch.Before) :
    (∃ pages got, metricPages.follow tenant server limit "" fetches = .ok pages
      ∧ Followed metricListing tenant server fetches pages got)
    ∧ (∃ pages got, processPages.follow tenant server limit "" fetches = .ok pages
      ∧ Followed processListing tenant server fetches pages got) :=
  ⟨follow_followed (L := metricListing) hp ht (fun f hf => (hk f hf).1)
      (hg.imp fun _ _ h => h.1),
    follow_followed (L := processListing) hp ht (fun f hf => (hk f hf).2)
      (hg.imp fun _ _ h => h.2)⟩

/-- Three requests, a row more at the second one. -/
def sampleFetches : List Fetch :=
  let start := 1767225600 * second
  [⟨sampleTable sampleMetric 3, start - parseRange "24h", start⟩,
    ⟨sampleTable sampleMetric 4, start + 1 - parseRange "24h", start + 1⟩,
    ⟨sampleTable sampleMetric 4, start + 2 - parseRange "24h", start + 2⟩]

theorem follow_pages_sample :
    (metricPages.follow "tenant-a" "agent-a" "2" "" sampleFetches).map
        (·.map fun p => (p.rows.map (·.id), p.complete))
      = .ok [([1, 2], false), ([3, 4], false), ([], true)]
    ∧ ∃ pages got, metricPages.follow "tenant-a" "agent-a" "2" "" sampleFetches = .ok pages
      ∧ Followed metricListing "tenant-a" "agent-a" sampleFetches pages got := by
  refine ⟨by decide +kernel, (follow_pages "tenant-a" "agent-a" "2" 2 (by decide +kernel)
    (by decide +kernel) sampleFetches ?_ ?_).1⟩
  · intro f hf
    simp only [sampleFetches, List.mem_cons, List.not_mem_nil, or_false] at hf
    rcases hf with rfl | rfl | rfl <;>
      exact ⟨⟨by decide, by decide, by decide⟩, ⟨by decide, by decide, by decide⟩⟩
  · refine .cons_cons ⟨by decide, by decide⟩ (.cons_cons ⟨by decide, by decide⟩ (.singleton _))

end WMonitor
