import ContractBindings.Call.Bytes
import ContractBindings.Codec.Parameters
import ContractBindings.Log
import ContractBindings.Value

namespace ContractBindings

/-!
# Decoding logs

The first topic of a log tells of which event it is.  Indexed parameters are
decoded from the other topics and the rest from the data; the result has them
all in the order of declaration.  Logs of unknown events are passed over.
-/

/-- An event decoded from a log. -/
structure DecodedEvent where
  /-- The class of the event, where one is known. -/
  className : Option Text
  name : Text
  parameters : Entries

/-- Which part of a log was not decoded. -/
inductive LogPart where
  | topics
  | data
  deriving DecidableEq, Repr

/-- Why a log was not decoded. -/
inductive EventFailure where
  | undecodable (part : LogPart) (signature : Text) (data : Octets)
  | fault (fault : Fault)
  deriving DecidableEq

namespace EventFailure

/-- The message for a part of a log that was not decoded. -/
def message (part : LogPart) (signature : Text) (data : Octets) : Text :=
  let name : Text := match part with
    | .topics => "topics"
    | .data => "data"
  "Failed to decode " ++ name ++ " for event " ++ signature ++ ".\n0x" ++ Octets.toHex data

end EventFailure

/-- The events that logs are decoded by, under the hashes of their signatures,
and the classes of the decoded events. -/
structure EventRegistry where
  descriptions : Keyed EventDescription
  classes : Keyed Text

/-- The description by which an indexed parameter is decoded, and nothing for one
that is not. -/
def Description.topicPart (description : Description) : Except Fault (Option Description) := do
  if ← description.isIndexed then return some (← description.decoding) else return none

namespace EventDescription

/-- Puts decoded values back in the order of declaration: indexed parameters
take theirs from one list, the others from another. -/
def merge : (isIndexed : List Bool) → (keys indexed others : List Value) →
    Except Fault (List (Key × Value))
  | true :: flags, key :: keys, v :: indexed, others => do
      let some key := key.toKey? | .error .wrongKind
      return (key, v) :: (← merge flags keys indexed others)
  | false :: flags, key :: keys, indexed, v :: others => do
      let some key := key.toKey? | .error .wrongKind
      return (key, v) :: (← merge flags keys indexed others)
  | _, _, _, _ => .ok []

/-- Decodes the parameters of an event from all topics but the first and from
the data. -/
def decodeParameters (description : EventDescription) (topics : List Octets) (data : Octets) :
    Except EventFailure Entries := do
  let parameters := description.parameters.map Description.ofValue
  let topicParts ← (parameters.mapM Description.topicPart).mapError .fault
  let flags := topicParts.map Option.isSome
  let indexed := topicParts.filterMap id
  let others := (parameters.zip flags).filterMap fun (p, isIndexed) =>
    if isIndexed then none else some p
  let indexedData := topics.flatten
  let indexedValues ← (Codec.decodeParameters indexed indexedData).mapError fun _ =>
    .undecodable .topics description.signature indexedData
  let otherValues ← (Codec.decodeParameters others data).mapError fun _ =>
    .undecodable .data description.signature data
  let keys ← (Description.keys parameters).mapError .fault
  let entries ← (merge flags keys indexedValues otherValues).mapError .fault
  return Entries.ofList entries

end EventDescription

namespace EventRegistry

/-- An entry of a log, which has to be a mapping. -/
def logEntry (log : Value) (name : Text) : Except Fault Value :=
  match log with
  | .dict entries =>
      match Entries.get? entries (.text name) with
      | some v => .ok v
      | none => .error .missingKey
  | _ => .error .wrongKind

/-- Decodes a log, if its event is known. -/
def decodeEvent (registry : EventRegistry) (log : Value) :
    Except EventFailure (Option DecodedEvent) := do
  let topics ← (do (← Layout.members? (← logEntry log "topics")).mapM Octets.ofHexOrValue).mapError
    .fault
  match topics with
  | [] => return none
  | first :: rest =>
      match registry.descriptions.get? (Octets.toHex first) with
      | none => return none
      | some description =>
          let data ← (do Octets.ofHexOrValue (← logEntry log "data")).mapError .fault
          let parameters ← description.decodeParameters rest data
          return some
            { className := registry.classes.get? description.signatureHash
              name := description.name
              parameters }

/-- Tells that a log is of no known event. -/
def skipped (log : Value) : LogRecord :=
  ⟨.debug, "Skipping unknown log " ++ log.literal⟩

/-- Decodes logs up to the first that cannot be decoded, and passes over those
of unknown events. -/
def decodeEvents (registry : EventRegistry) :
    List Value → Except EventFailure (List DecodedEvent) × List LogRecord
  | [] => (.ok [], [])
  | log :: logs =>
      match registry.decodeEvent log with
      | .error failure => (.error failure, [])
      | .ok none =>
          let (events, records) := registry.decodeEvents logs
          (events, skipped log :: records)
      | .ok (some event) =>
          let (events, records) := registry.decodeEvents logs
          (events.map (event :: ·), records)

end EventRegistry

end ContractBindings
