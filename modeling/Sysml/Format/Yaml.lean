import Sysml.Format.Mapping
import Sysml.Yaml.Printer
import Sysml.Yaml.Reader

/-!
# YAML documents

A document as a YAML mapping with its metadata, its records and its external
references.
-/

set_option autoImplicit false

namespace Sysml

def Yaml.Fault.failure : Yaml.Fault → Failure
  | .malformed => .malformed "Invalid YAML" []
  | .noSuchValue => .wrongValue
  | .emptyNumber => .emptyNumber
  | .noTruthValue => .noTruthValue
  | .noDate => .noFields
  | .overflow => .overflow
  | .noScalar => .wrongKind
  | .endless => .unbounded

namespace Document

def yamlPayload (document : Document) : Value :=
  .object
    [("metadata", .map document.metadata), ("elements", .list document.mappings),
      ("externalReferences", .list document.externalMappings)]

def toYaml (document : Document) : Except Failure String :=
  if document.yamlPayload.isWritable then .ok (Yaml.render document.yamlPayload)
  else .error .longNumber

def yamlElements (payload : Value) : Except Failure (List Value) :=
  match payload.items? with
  | some elements => .ok elements
  | none =>
      if payload.entries?.isNone then unexpected
      else
        match ((payload.field? "elements").getD (.list [])).items? with
        | some elements => .ok elements
        | none => unexpected
where
  /-- The value has no elements. -/
  unexpected : Except Failure (List Value) :=
    .error (.malformed "Invalid YAML: expected a mapping with an 'elements' list" [])

/-- The document of a YAML value: a mapping with elements, or a list of them. -/
def ofYamlPayload (payload : Value) : Except Failure Document := do
  let records ← (← yamlElements payload).mapM Record.ofMapping
  let external ← externalsOf ((payload.field? "externalReferences").getD .null)
  return make records external (← metadataOf ((payload.field? "metadata").getD .null))

def ofYaml (octets : ByteArray) : Except Failure Document := do
  match String.fromUTF8? octets with
  | none => .error (.malformed "Invalid YAML" [])
  | some text => ofYamlPayload (← (Yaml.read text).mapError Yaml.Fault.failure)

end Document

end Sysml
