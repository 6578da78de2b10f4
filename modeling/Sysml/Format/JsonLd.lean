import Sysml.Format.Mapping
import Sysml.Json.Printer
import Sysml.Json.Reader

/-!
# JSON-LD

A document as one JSON object: the records are its graph, in order.
-/

set_option autoImplicit false

namespace Sysml.Document

def modelSpace : String :=
  "http://www.omg.org/spec/SysML/20230201"

def jsonLdContext : Value :=
  .object [("@vocab", .text "https://www.omg.org/spec/SysML/20230201/vocab#"),
    ("sysml", .text modelSpace)]

def jsonLdPayload (document : Document) : Value :=
  .object
    [("@context", jsonLdContext), ("metadata", .map document.metadata),
      ("@graph", .list document.mappings),
      ("externalReferences", .list document.externalMappings)]

def toJsonLd (document : Document) : Except Failure String := do
  return (← Json.render false document.jsonLdPayload) ++ "\n"

def jsonLdParts (payload : Value) : Except Failure (Value × Value × Value) :=
  match payload with
  | .list _ => .ok (payload, .list [], .map [])
  | .map _ =>
      match payload.field? "@graph", payload.field? "@id" with
      | some graph, _ =>
          let metadata := (payload.field? "metadata").getD .null
          .ok (graph, (payload.field? "externalReferences").getD (.list []),
            if metadata.isAbsent then .map [] else metadata)
      | none, some _ => .ok (.list [payload], .list [], .map [])
      | none, none => unexpected
  | _ => unexpected
where
  /-- The value has no graph. -/
  unexpected : Except Failure (Value × Value × Value) :=
    .error (.malformed "Invalid JSON-LD: expected '@graph' or a list of elements" [])

/-- The document of a JSON value: an object with a graph, a list of elements, or a
single element. -/
def ofJsonLdPayload (payload : Value) : Except Failure Document := do
  let (graph, external, metadata) ← jsonLdParts payload
  match graph.items? with
  | some elements =>
      let records ← elements.mapM Record.ofMapping
      let external ← externalsOf external
      return make records external (← metadataOf metadata)
  | none => .error (.malformed "Invalid JSON-LD: '@graph' must be a list" [])

/-- The failure of a JSON text that has no value, where `malformed` is that of a
text that is no JSON. -/
def jsonFailure (malformed : Failure) : Json.Fault → Failure
  | .malformed => malformed
  | .longNumber => .longNumber

def readJson (malformed : Failure) (octets : ByteArray) : Except Failure Value :=
  match String.fromUTF8? octets with
  | none => .error malformed
  | some text => (Json.read text).mapError (jsonFailure malformed)

def ofJsonLd (octets : ByteArray) : Except Failure Document := do
  ofJsonLdPayload (← readJson (.malformed "Invalid JSON-LD" []) octets)

end Sysml.Document
