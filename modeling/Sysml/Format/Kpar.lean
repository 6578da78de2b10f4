import Sysml.Archive.Reader
import Sysml.Files.Path
import Sysml.Format.Xmi

/-!
# KPAR archives

A document as an archive with a manifest, a summary and the model as XMI. The
manifest names the entry that is the model; without one it is the first entry
with a suffix of XMI files.
-/

set_option autoImplicit false

namespace Sysml.Document

def modelEntry : String :=
  "model.xmi"

def manifestEntry : String :=
  ".project.json"

def summaryEntry : String :=
  ".meta.json"

def xmiSuffixes : List String :=
  [".xmi", ".sysmlx", ".kermlx"]

def metadata? (document : Document) (key : String) : Option Value :=
  document.metadata.lookup (.text key)

def manifest (document : Document) : Value :=
  .object [("name", (document.metadata? "name").getD (.text "model")),
    ("version", (document.metadata? "version").getD (.text "")),
    ("model", .text modelEntry),
    ("selfContained", .bool !((document.metadata? "selfContained").getD .null).isAbsent)]

def summary (document : Document) : Value :=
  .object [("tool", (document.metadata? "tool").getD .null),
    ("elementCount", .int document.records.length)]

def toKpar (document : Document) : Except Failure (List UInt8) := do
  let manifest ← Json.render true document.manifest
  let summary ← Json.render true document.summary
  let model ← document.toXmi
  let entry (name text : String) : ArchiveEntry := ⟨name, text.toUTF8.toList⟩
  return Archive.write
    [entry manifestEntry manifest, entry summaryEntry summary, entry modelEntry model]

def archiveFailure : Archive.Fault → Failure
  | .damaged => .malformed "Invalid KPAR archive" []
  | .notInflated => .notExpanded
  | .notUnsorted => .notUnsorted
  | .notWeighted => .notWeighted
  | .endsEarly => .endsEarly
  | .unknownMethod => .unknownMethod
  | .locked => .locked
  | .outOfPlace => .wrongValue
  | .tooFar => .overflow

def entryContent (archive : Archive.Opened) (name : String) : Except Failure (List UInt8) :=
  match archive.content? name with
  | some (.ok content) => .ok content
  | some (.error fault) => .error (archiveFailure fault)
  | none => .error .noEntry

def modelNamed (archive : Archive.Opened) : Except Failure Value := do
  if archive.names.contains manifestEntry then
    let content ← entryContent archive manifestEntry
    let manifest ← readJson (.malformed "Invalid KPAR archive" []) ⟨content.toArray⟩
    match manifest.entries? with
    | some entries => return (entries.lookup (.text "model")).getD (.text modelEntry)
    | none => .error .noFields
  else return .text modelEntry

def ofKpar (octets : ByteArray) : Except Failure Document := do
  match Archive.read octets.toList with
  | .error fault => .error (archiveFailure fault)
  | .ok archive =>
      let named ← modelNamed archive
      let chosen :=
        (archive.names.find? named.isText).or
          (archive.names.find? fun name =>
            xmiSuffixes.contains (Files.Path.ofText name).suffix)
      match chosen with
      | none => .error (.malformed "KPAR archive contains no model entry" [])
      | some name =>
          let content ← entryContent archive name
          ofXmi ⟨content.toArray⟩

end Sysml.Document
