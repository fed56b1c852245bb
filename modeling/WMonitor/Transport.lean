import WMonitor.Text

/-!
# Hub origins

When two hub URLs name the same origin. What `url.Parse` makes of a text and how `strings.EqualFold`
folds a character are parameters.
-/

namespace WMonitor

structure ParsedURL where
  scheme : String
  host : String
  deriving DecidableEq

structure URLs where
  parse : String → Option ParsedURL
  fold : Char → Char

/-- `CanonicalHubURL`. -/
def canonicalHubURL (raw : String) : String :=
  String.ofList (((trimSpace raw.toList).reverse.dropWhile fun c => c = '/').reverse)

namespace URLs

variable (U : URLs)

def equalFold (a b : String) : Bool := a.toList.map U.fold = b.toList.map U.fold

/-- A URL with a host. -/
def hosted (raw : String) : Option ParsedURL :=
  (U.parse (canonicalHubURL raw)).filter fun u => u.host ≠ ""

/-- `SameHubOrigin`. -/
def sameHubOrigin (a b : String) : Bool :=
  match U.hosted a with
  | none => canonicalHubURL a = canonicalHubURL b
  | some ua =>
    match U.hosted b with
    | none => false
    | some ub => U.equalFold ua.scheme ub.scheme && U.equalFold ua.host ub.host

theorem sameHubOrigin_refl (a : String) : U.sameHubOrigin a a = true := by
  unfold sameHubOrigin
  split <;> simp_all [equalFold]

theorem hosted_congr {a b : String} (h : canonicalHubURL a = canonicalHubURL b) :
    U.hosted a = U.hosted b := by
  rw [hosted, hosted, h]

theorem sameHubOrigin_trans {a b c : String} (hab : U.sameHubOrigin a b = true)
    (hbc : U.sameHubOrigin b c = true) : U.sameHubOrigin a c = true := by
  cases ha : U.hosted a with
  | none =>
    simp only [sameHubOrigin, ha, decide_eq_true_eq] at hab
    have hb : U.hosted b = none := (U.hosted_congr hab).symm.trans ha
    simp only [sameHubOrigin, hb, decide_eq_true_eq] at hbc
    simp only [sameHubOrigin, ha, decide_eq_true_eq, hab, hbc]
  | some ua =>
    cases hb : U.hosted b with
    | none => simp [sameHubOrigin, ha, hb] at hab
    | some ub =>
      cases hc : U.hosted c with
      | none => simp [sameHubOrigin, hb, hc] at hbc
      | some uc =>
        simp only [sameHubOrigin, ha, hb, hc, equalFold, Bool.and_eq_true, decide_eq_true_eq]
          at hab hbc ⊢
        exact ⟨hab.1.trans hbc.1, hab.2.trans hbc.2⟩

end URLs

end WMonitor
