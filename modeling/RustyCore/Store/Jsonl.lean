import RustyCore.Lib.Utf8
import RustyCore.Store.Replay

/-! A session file: one JSON record per line, either an event or a snapshot. The writer appends at the end of
    whatever the file holds, and the reader tolerates a last line that a crash cut short. -/

namespace RustyCore

inductive StoreError where
  | notFound
  | serialization
  | io (message : String)
  | backend (message : String)
  | invalidState (message : String)
deriving DecidableEq

inductive JsonlRecord where
  | event (event : DurableSessionEvent)
  | snapshot (snapshot : DurableSessionSnapshot)

structure SessionRecords where
  snapshot : Option DurableSessionSnapshot := none
  events : List DurableSessionEvent := []

namespace SessionRecords

def push (records : SessionRecords) : JsonlRecord → SessionRecords
  | .event event => { records with events := records.events ++ [event] }
  | .snapshot snapshot => { records with snapshot := some snapshot }

def sorted (records : SessionRecords) : SessionRecords :=
  { records with events :=
      records.events.insertionSort fun a b => a.sessionSequence.getD maxU64 ≤ b.sessionSequence.getD maxU64 }

def eventMax (records : SessionRecords) : Nat := (records.events.filterMap (·.sessionSequence)).foldr max 0

def currentSequence (records : SessionRecords) : Nat :=
  max ((records.snapshot.map (·.sessionSequence)).getD 0) records.eventMax

end SessionRecords

/-- The JSON of a record (`serde_json`), which the model does not look into. -/
class JsonlExternals where
  encode : JsonlRecord → List Char
  decode : List Char → Except String JsonlRecord

namespace Jsonl

open JsonlExternals

abbrev File := Option (List UInt8)

section

variable [JsonlExternals]

def line (record : JsonlRecord) : List UInt8 := Utf8.encode (encode record) ++ [10]

/-- An append that is acknowledged: the file is opened for appending, and the whole line is written. -/
def writeRecord (file : File) (record : JsonlRecord) : File := some (file.getD [] ++ line record)

def tearRecord (file : File) (record : JsonlRecord) (cut : Nat) : File :=
  some (file.getD [] ++ (line record).take cut)

/-- A bad last line without a newline is dropped; a bad line anywhere else is corruption. -/
def parseLine (path : String) (line : List Char) : Except StoreError (Option JsonlRecord) :=
  match decode (Text.trimEnd line) with
  | .ok record => .ok (some record)
  | .error e =>
    if line.getLast? ≠ some '\n' then .ok none
    else .error (.invalidState ("corrupt jsonl record in " ++ path ++ ": " ++ e))

/-- Reads lines into `records`, and counts those that are not blank. -/
def readLines (path : String) (records : SessionRecords) (nonBlank : Nat) :
    List (List UInt8) → Except StoreError (SessionRecords × Nat)
  | [] => .ok (records, nonBlank)
  | bytes :: rest =>
    match Utf8.decode bytes with
    | none => .error (.io "stream did not contain valid UTF-8")
    | some line =>
      if (Text.trimEnd line).isEmpty then readLines path records nonBlank rest
      else
        match parseLine path line with
        | .error e => .error e
        | .ok none => readLines path records (nonBlank + 1) rest
        | .ok (some record) => readLines path (records.push record) (nonBlank + 1) rest

def readRecords (path : String) : File → Except StoreError SessionRecords
  | none => .error .notFound
  | some bytes =>
    match readLines path {} 0 (Text.splitInclusive (· == 10) bytes) with
    | .error e => .error e
    | .ok (records, nonBlank) => if nonBlank = 0 then .error .notFound else .ok records.sorted

end

end Jsonl

end RustyCore
