import Sysml.Format.Kpar
import Sysml.Format.Yaml
import Sysml.Text.Lower

/-!
# Formats

The formats of documents, by name, by other names and by the suffixes of their
files.
-/

set_option autoImplicit false

namespace Sysml

inductive Format where
  | xmi
  | yaml
  | jsonLd
  | kpar
  deriving DecidableEq, Repr, Inhabited

namespace Format

/-- All formats, in the order in which messages list them. -/
def all : List Format :=
  [.xmi, .yaml, .jsonLd, .kpar]

def name : Format → String
  | .xmi => "xmi"
  | .yaml => "yaml"
  | .jsonLd => "jsonld"
  | .kpar => "kpar"

def suffixes : Format → List String
  | .xmi => Document.xmiSuffixes
  | .yaml => [".yaml", ".yml"]
  | .jsonLd => [".jsonld", ".json"]
  | .kpar => [".kpar"]

def isBinary : Format → Bool
  | .kpar => true
  | _ => false

def aliases : List (String × Format) :=
  [("json-ld", .jsonLd), ("yml", .yaml), ("json", .jsonLd)]

/-- The format of a name, in whatever case. -/
def ofName (name : String) : Except Failure Format :=
  let key := Text.lower name
  match (aliases.lookup key).or (all.find? fun format => format.name == key) with
  | some format => .ok format
  | none => .error (.unknownFormat name (all.map Format.name))

/-- The format of a file: the one asked for, or that of its suffix. -/
def ofPath (path : Files.Path) (override : Option String) : Except Failure Format :=
  match override.filter fun name => !name.isEmpty with
  | some name => ofName name
  | none =>
      let suffix := Text.lower path.suffix
      match all.find? fun format => format.suffixes.contains suffix with
      | some format => .ok format
      | none =>
          .error (.unknownFormat (if suffix.isEmpty then path.name else suffix)
            (all.flatMap suffixes))

def write (format : Format) (document : Document) : Except Failure ByteArray :=
  match format with
  | .xmi => String.toUTF8 <$> document.toXmi
  | .yaml => String.toUTF8 <$> document.toYaml
  | .jsonLd => String.toUTF8 <$> document.toJsonLd
  | .kpar => (fun octets => ⟨octets.toArray⟩) <$> document.toKpar

def read (format : Format) (octets : ByteArray) : Except Failure Document :=
  match format with
  | .xmi => Document.ofXmi octets
  | .yaml => Document.ofYaml octets
  | .jsonLd => Document.ofJsonLd octets
  | .kpar => Document.ofKpar octets

end Format

end Sysml
