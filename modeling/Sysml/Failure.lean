import Sysml.Files.Fault
import Sysml.Text.Utf8

/-!
# Failures

The reasons for which an operation gives no answer. What is wrong in a model is
never a failure: it is a diagnostic.
-/

set_option autoImplicit false

namespace Sysml

/-- The phases of a session: nothing loaded, loaded but not indexed, indexed,
reported, exported. -/
inductive Phase where
  | empty
  | loading
  | indexed
  | diagnosed
  | exported
  deriving DecidableEq, Repr, Inhabited

def Phase.text : Phase → String
  | .empty => "empty"
  | .loading => "loading"
  | .indexed => "indexed"
  | .diagnosed => "diagnosed"
  | .exported => "exported"

inductive Failure where
  /-- The input is neither a file nor a directory. -/
  | noInput (path : String)
  | notRead (path reason : String)
  /-- The standard library that was asked for is not there. -/
  | noLibrary (path : String)
  | unknownFormat (name : String) (choices : List String)
  /-- A document that is malformed or refers to what it does not hold. -/
  | malformed (reason : String) (problems : List String)
  | notWritten (reason : String)
  /-- An operation that its phase does not allow. -/
  | wrongPhase (operation : String) (phase : Phase)
  /-- A redefinition whose target has no segments. -/
  | noSegments
  /-- An empty text where a number is wanted. -/
  | emptyNumber
  /-- A word that is no truth value where one is wanted. -/
  | noTruthValue
  /-- A resolution, or a value, that keeps coming back to itself. -/
  | unbounded
  /-- A value of a kind that has no place there. -/
  | wrongKind
  /-- A text where entries, or a name that exists, are wanted. -/
  | wrongValue
  /-- An integer with too many digits to be read or written. -/
  | longNumber
  /-- A number beyond every double. -/
  | overflow
  /-- A value without the fields that are wanted. -/
  | noFields
  | notJson
  /-- A text in an encoding that is not known. -/
  | unknownEncoding
  /-- A text in an encoding that cannot pass over what is no character. -/
  | strictEncoding
  /-- A text in an encoding that only whole texts can be in. -/
  | wholeEncoding
  /-- Bytes that are no text. -/
  | notText (fault : Text.Utf8.Fault)
  /-- A text that a format has no way to write. -/
  | notWritable
  /-- Compressed bytes that cannot be expanded. -/
  | notExpanded
  /-- Sorted bytes that cannot be expanded. -/
  | notUnsorted
  /-- Weighted bytes that cannot be expanded. -/
  | notWeighted
  /-- A text that ends where one more character is looked at. -/
  | cutShort
  /-- A value that goes on but has no name. -/
  | unnamed
  /-- Bytes that end before they should. -/
  | endsEarly
  /-- Bytes that are compressed in a way that is not known. -/
  | unknownMethod
  /-- Encrypted bytes. -/
  | locked
  /-- An entry that is wanted under a name it does not have. -/
  | noEntry
  /-- The directory of a user who is not known. -/
  | noHome
  | noAccess (fault : Files.Fault) (path : String)
  deriving DecidableEq, Repr, Inhabited

/-- A failure that the user of the program can do something about. -/
def Failure.isReported : Failure → Bool
  | .noInput _ | .notRead _ _ | .noLibrary _ | .unknownFormat _ _ | .malformed _ _
  | .notWritten _ => true
  | _ => false

def Failure.message : Failure → String
  | .noInput path => "Path does not exist: " ++ path
  | .notRead path reason => "Failed to read " ++ path ++ ": " ++ reason
  | .noLibrary path => "Stdlib path does not exist: " ++ path
  | .unknownFormat name choices =>
      "Unsupported format: " ++ name ++
        (if choices.isEmpty then "" else ". Use " ++ ", ".intercalate choices ++ ".")
  | .malformed reason _ => reason
  | .notWritten reason => reason
  | .wrongPhase operation phase =>
      operation ++ " requires an indexed workspace (phase: " ++ phase.text ++ ")"
  | .noSegments => "the target of a redefinition has no segments"
  | .emptyNumber => "an empty text is no number"
  | .noTruthValue => "a word is no truth value"
  | .unbounded => "a resolution keeps coming back to itself"
  | .wrongKind => "a value has the wrong kind"
  | .wrongValue => "a value is not allowed there"
  | .longNumber => "an integer has too many digits"
  | .overflow => "a number is too large"
  | .noFields => "a value has no fields"
  | .notJson => "the text is no JSON"
  | .unknownEncoding => "the encoding is not known"
  | .strictEncoding => "the encoding cannot pass over what is no character"
  | .wholeEncoding => "the encoding has no single characters"
  | .notText fault => fault.message
  | .notWritable => "a text cannot be written"
  | .notExpanded => "compressed bytes cannot be expanded"
  | .notUnsorted => "sorted bytes cannot be expanded"
  | .notWeighted => "weighted bytes cannot be expanded"
  | .cutShort => "a text ends before it should"
  | .unnamed => "a value has no name"
  | .endsEarly => "bytes end before they should"
  | .unknownMethod => "a way of compressing is not known"
  | .locked => "an entry is encrypted"
  | .noEntry => "an entry is not there"
  | .noHome => "the user's directory is not known"
  | .noAccess fault path => fault.message path

end Sysml
