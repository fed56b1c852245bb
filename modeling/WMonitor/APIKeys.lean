import WMonitor.Auth

/-!
# The texts of credentials

The tokens, codes and tenant ids of `storage/apikeys.go`, their hashes, and the tenant of a display
name. SHA-256 and the upper case and the folding of a character are parameters; random bytes are
arguments.
-/

namespace WMonitor

def kindRead : String := "read"

def prefixAgent : String := "wma_"
def prefixRead : String := "wmr_"
def prefixAdmin : String := "wmk_"
def prefixEnroll : String := "wme_"

/-- `strings.TrimSpace` of a string. -/
def trimmed (s : String) : String := String.ofList (trimSpace s.toList)

structure KeyTexts where
  sha256 : List UInt8 → List UInt8
  upper : Char → Char
  fold : Char → Char

/-! ## Random texts -/

def base64URLAlphabet : List Char :=
  "ABCDEFGHIJKLMNOPQRSTUVWXYZabcdefghijklmnopqrstuvwxyz0123456789-_".toList

def base64URLDigit (n : ℕ) : Char := base64URLAlphabet.getD (n % 64) 'A'

/-- `base64.RawURLEncoding`. -/
def rawURLEncode : List UInt8 → List Char
  | a :: b :: c :: rest =>
    let n := (a.toNat * 256 + b.toNat) * 256 + c.toNat
    base64URLDigit (n / 64 ^ 3) :: base64URLDigit (n / 64 ^ 2) :: base64URLDigit (n / 64)
      :: base64URLDigit n :: rawURLEncode rest
  | [a, b] =>
    let n := (a.toNat * 256 + b.toNat) * 4
    [base64URLDigit (n / 64 ^ 2), base64URLDigit (n / 64), base64URLDigit n]
  | [a] =>
    let n := a.toNat * 16
    [base64URLDigit (n / 64), base64URLDigit n]
  | [] => []

def tokenPrefix (kind : String) : String :=
  if kind = kindAgent then prefixAgent
  else if kind = kindRead then prefixRead
  else if kind = kindAdmin then prefixAdmin
  else if kind = kindEnroll then prefixEnroll
  else ""

/-- `GenerateToken` of 32 random bytes. -/
def generateToken (kind : String) (buf : List UInt8) : String :=
  tokenPrefix kind ++ String.ofList (rawURLEncode buf)

def crockfordAlphabet : List Char := "0123456789ABCDEFGHJKMNPQRSTVWXYZ".toList

/-- `GenerateEnrollCode` of 12 random bytes. -/
def generateEnrollCode (bytes : List UInt8) : String :=
  let chars := bytes.map fun b => crockfordAlphabet.getD (b.toNat % 32) '0'
  String.ofList ("WM-".toList ++ chars.take 4 ++ '-' :: (chars.drop 4).take 4
    ++ '-' :: (chars.drop 8).take 4)

example : generateToken kindAgent [0xfb, 0xff, 0xbf, 1] = "wma_-_-_AQ" := by decide +kernel

/-! ## Hashes -/

namespace KeyTexts

variable (K : KeyTexts)

def hashAPIKey (key : String) : String :=
  hexEncode (K.sha256 (encodeText (trimSpace key.toList)))

/-- The slices are of characters here, which are bytes as long as a code is ASCII. -/
def normalizeEnrollCode (code : String) : String :=
  let code := trimSpace code.toList
  if prefixEnroll.toList.isPrefixOf code then String.ofList code
  else
    let cleaned := (code.filter fun c => c ≠ '-' ∧ c ≠ ' ').map K.upper
    if ['W', 'M'].isPrefixOf cleaned ∧ len (String.ofList cleaned) = 14 then
      String.ofList ("WM-".toList ++ (cleaned.drop 2).take 4 ++ '-' :: (cleaned.drop 6).take 4
        ++ '-' :: (cleaned.drop 10).take 4)
    else String.ofList cleaned

def hashEnrollCode (code : String) : String := K.hashAPIKey (K.normalizeEnrollCode code)

def extractKeyPrefix (token : String) : String :=
  let token := trimSpace token.toList
  if token[3]? = some '_' then String.ofList (token.take 4)
  else if "WM-".toList.isPrefixOf (token.map K.upper) then "wme_"
  else if token.length > 8 then String.ofList (token.take 8)
  else ""

/-! ## Display names -/

/-- `strings.EqualFold`. -/
def equalFold (a b : String) : Bool := a.toList.map K.fold = b.toList.map K.fold

/-- The different tenants of the keys with the name. -/
def tenantsOfName (keys : List APIKeyRecord) (name : String) : List String :=
  ((keys.filter fun k => K.equalFold k.clientName name && k.tenantID ≠ "").map (·.tenantID)).dedup

/-- `UniqueTenantForClientName`; the text of the error. -/
def uniqueTenantForClientName (keys : List APIKeyRecord) (name : String) : Except String String :=
  let name := trimmed name
  if name = "" then .error "storage: client name is required"
  else match K.tenantsOfName keys name with
    | [] => .ok ""
    | [id] => .ok id
    | _ => .error "storage: client display name is ambiguous"

end KeyTexts

/-- `ORDER BY client_name, created_at`. -/
def APIKey.ListedBefore (a b : APIKey) : Prop :=
  a.clientName < b.clientName ∨ (a.clientName = b.clientName ∧ a.createdAt ≤ b.createdAt)

instance : DecidableRel APIKey.ListedBefore := fun _ _ =>
  inferInstanceAs (Decidable (_ ∨ _))

def CredentialDB.listAPIKeys (io : Driver) (db : CredentialDB) :
    Except CredentialError (List APIKeyRecord) := do
  io.exec 0
  return (db.apiKeys.insertionSort APIKey.ListedBefore).map scanAPIKey

end WMonitor
