import WMonitor.Json

/-!
# Records of the agent's queue

What the queue's files hold and how they are read back: a segment is a sequence of newline-terminated
JSON records, the destination the queue is bound to is one JSON object. Texts are Unicode; a line that
is not valid UTF-8 is not a record.
-/

namespace WMonitor

def maxSpoolBytes : ℕ := 100 * 2 ^ 20

def maxSegmentBytes : ℕ := 8 * 2 ^ 20

def maxRecordBytes : ℕ := 2 ^ 20

/-- How deep `encoding/json` lets a text be nested. -/
def maxNestingDepth : ℕ := 10000

structure SpoolBinding where
  origin : String
  tenantID : String
  serverID : String
  deriving DecidableEq

structure SpoolEntry where
  payloadType : String
  body : Json
  queuedAt : ℤ

def foldChar (c : Char) : Char :=
  if c = '\u017f' then 's' else if c = '\u212a' then 'k' else c.toLower

/-- A key goes to a field up to letter case. -/
def isField (name key : String) : Bool := key.toList.map foldChar = name.toList

/-- A string field of a structure; `null` leaves it as it is. -/
def setString (old : String) : Json → Option String
  | .str raw => some (Json.unquote raw)
  | .null => some old
  | _ => none

def setInt64 (old : ℤ) : Json → Option ℤ
  | .num lit => atoi lit.text
  | .null => some old
  | _ => none

def SpoolBinding.json (b : SpoolBinding) : Json :=
  .obj ((Json.quote "origin", .str (Json.quote b.origin))
    :: ((if b.tenantID = "" then [] else [(Json.quote "tenant_id", .str (Json.quote b.tenantID))])
      ++ if b.serverID = "" then [] else [(Json.quote "server_id", .str (Json.quote b.serverID))]))

def SpoolBinding.set (b : SpoolBinding) (m : RawStr × Json) : Option SpoolBinding :=
  let key := Json.unquote m.1
  if isField "origin" key then (setString b.origin m.2).map fun s => { b with origin := s }
  else if isField "tenant_id" key then
    (setString b.tenantID m.2).map fun s => { b with tenantID := s }
  else if isField "server_id" key then
    (setString b.serverID m.2).map fun s => { b with serverID := s }
  else some b

/-- `json.Unmarshal` into a structure, member by member. -/
def unmarshal {α : Type} (zero : α) (set : α → RawStr × Json → Option α) (text : List Char) :
    Option α :=
  match Json.parse text with
  | some j =>
    if maxNestingDepth < j.depth then none
    else match j with
      | .obj ms => ms.foldlM set zero
      | .null => some zero
      | _ => none
  | none => none

def SpoolBinding.marshal (b : SpoolBinding) : List Char := b.json.print

def SpoolBinding.unmarshal (text : List Char) : Option SpoolBinding :=
  WMonitor.unmarshal ⟨"", "", ""⟩ SpoolBinding.set text

def SpoolEntry.json (e : SpoolEntry) : Json :=
  .obj [(Json.quote "type", .str (Json.quote e.payloadType)), (Json.quote "body", e.body.compact),
    (Json.quote "queued_at", .num (Json.int e.queuedAt))]

def SpoolEntry.marshal (e : SpoolEntry) : List UInt8 := encodeText e.json.print

/-- A record as it is read so far; `body` is missing until its member is read. -/
structure PartialEntry where
  payloadType : String
  body : Option Json
  queuedAt : ℤ

def PartialEntry.set (e : PartialEntry) (m : RawStr × Json) : Option PartialEntry :=
  let key := Json.unquote m.1
  if isField "type" key then (setString e.payloadType m.2).map fun s => { e with payloadType := s }
  else if isField "body" key then some { e with body := some m.2 }
  else if isField "queued_at" key then (setInt64 e.queuedAt m.2).map fun n => { e with queuedAt := n }
  else some e

/-- A line of a segment: it must have a type and a body. -/
def SpoolEntry.unmarshal (line : List UInt8) : Option SpoolEntry :=
  match (decodeText line).bind (WMonitor.unmarshal ⟨"", none, 0⟩ PartialEntry.set) with
  | some ⟨payloadType, some body, queuedAt⟩ =>
    if payloadType = "" then none else some ⟨payloadType, body, queuedAt⟩
  | _ => none

/-- The lines of a file without their line feeds, and what follows the last of them. -/
def splitLines : List UInt8 → List (List UInt8) × List UInt8
  | [] => ([], [])
  | b :: bs =>
    let (lines, rest) := splitLines bs
    if b = 10 then ([] :: lines, rest)
    else match lines with
      | [] => ([], b :: rest)
      | line :: lines => ((b :: line) :: lines, rest)

def isBlank (line : List UInt8) : Bool := (decodeText line).any fun cs => cs.all isSpace

/-- What `readSegment` makes of a file's content. -/
def decodeSegment (content : List UInt8) : Option (List SpoolEntry) :=
  if maxSegmentBytes + maxRecordBytes < content.length then none
  else
    let (lines, rest) := splitLines content
    if rest ≠ [] ∨ lines.any fun line => maxRecordBytes < line.length + 1 then none
    else (lines.filter fun line => !isBlank line).mapM SpoolEntry.unmarshal

/-- The clock can show zero. -/
instance neZero_clock : NeZero (2 ^ 63) := ⟨by simp⟩

/-- A segment's file, by the clock when it was created and a random number. -/
structure SegName where
  nanos : Fin (2 ^ 63)
  rand : ℕ
  deriving DecidableEq

def SegName.fileName (n : SegName) : List Char :=
  "seg-".toList ++ (Nat.toDigits 10 n.nanos).leftpad 20 '0' ++ '-' :: Nat.toDigits 10 n.rand
    ++ ".ndjson".toList

end WMonitor
