import Falsify.Log
import Falsify.Outcome

/-!
# Observations

Records of what a run did, one for each case and some messages, made for tools that watch. A
record is a JSON object, and its layout is fixed. Draws are not shown in it, except in the call
that reproduces a failing case.

* `Observation.toJson`: the record as JSON;
* `Sink.deliver`: what a receiver makes of a record.
-/

namespace Falsify

/-- The further data of a case's record. -/
structure CaseMetadata where
  traceback : Option String
  /-- The call that makes a run replay this case. -/
  reproduction : Option String
  predicates : Assoc String PredicateCounts
  notes : List String
  draws : Nat

/-- The record of a case. -/
structure CaseRecord where
  runStart : Float
  property : String
  status : String
  statusReason : String
  representation : String
  arguments : Assoc String Json
  howGenerated : String
  features : Assoc String String
  /-- Seconds spent in each part. -/
  timing : Assoc String Float
  metadata : CaseMetadata

/-- The record of a message. -/
structure MessageRecord where
  title : String
  content : String
  property : String
  runStart : Float

inductive Observation where
  | testCase (record : CaseRecord)
  | info (record : MessageRecord)
  | alert (record : MessageRecord)
  | error (record : MessageRecord)

/-- A text, or nothing. -/
def Json.ofText? : Option String → Json
  | some text => .str text
  | none => .null

def PredicateCounts.toJson (counts : PredicateCounts) : Json :=
  .obj [("satisfied", .int counts.satisfied), ("unsatisfied", .int counts.unsatisfied)]

def CaseMetadata.toJson (m : CaseMetadata) : Json :=
  .obj [
    ("traceback", .ofText? m.traceback),
    ("reproduction_decorator", .ofText? m.reproduction),
    ("predicates", .obj (m.predicates.map fun (name, counts) => (name, counts.toJson))),
    ("notes", .arr (m.notes.map .str)),
    ("draws", .int m.draws)]

/-- The fields of a case's record. Line coverage is not collected. -/
def CaseRecord.fields (r : CaseRecord) : List (String × Json) := [
  ("run_start", .float r.runStart),
  ("property", .str r.property),
  ("status", .str r.status),
  ("status_reason", .str r.statusReason),
  ("representation", .str r.representation),
  ("arguments", .obj r.arguments),
  ("how_generated", .str r.howGenerated),
  ("features", .obj (r.features.map fun (name, value) => (name, .str value))),
  ("coverage", .null),
  ("timing", .obj (r.timing.map fun (name, seconds) => (name, .float seconds))),
  ("metadata", r.metadata.toJson)]

def MessageRecord.fields (r : MessageRecord) : List (String × Json) := [
  ("title", .str r.title),
  ("content", .str r.content),
  ("property", .str r.property),
  ("run_start", .float r.runStart)]

namespace Observation

def kind : Observation → String
  | .testCase _ => "test_case"
  | .info _ => "info"
  | .alert _ => "alert"
  | .error _ => "error"

/-- The record as JSON. Its kind comes first. -/
def toJson (o : Observation) : Json :=
  .obj (("type", .str o.kind) ::
    match o with
    | .testCase r => r.fields
    | .info r | .alert r | .error r => r.fields)

end Observation

/-- A receiver of records. -/
inductive Sink where
  /-- Keeps the records. -/
  | collecting (records : Array Observation)
  /-- Writes each record on a line of its own. If writing fails, nothing is written, and the log
  says why. -/
  | lines (written : String) (fault : Option String)

/-- What a receiver makes of a record, and what it adds to the log. -/
def Sink.deliver (o : Observation) : Sink → Sink × List LogEntry
  | .collecting records => (.collecting (records.push o), [])
  | .lines written none => (.lines (written ++ o.toJson.compact ++ "\n") none, [])
  | .lines written (some fault) =>
    (.lines written (some fault), [⟨.warn, s!"failed to write {o.kind} observation: {fault}"⟩])

/-- The records that a receiver has kept. -/
def Sink.records : Sink → Array Observation
  | .collecting records => records
  | .lines _ _ => #[]

end Falsify
