import Sysml.Symbol.Kind

/-!
# Keywords

The words that open declarations, and all words that cannot be names unless
they are quoted.
-/

set_option autoImplicit false

namespace Sysml.Notation

def familyKeywords : List (String × Family) :=
  [("part", .part), ("attribute", .attr), ("port", .port), ("item", .item), ("action", .action),
    ("state", .state), ("requirement", .requirement), ("constraint", .constraint),
    ("interface", .interface), ("connection", .connection), ("allocation", .allocation),
    ("flow", .flow), ("view", .view), ("viewpoint", .viewpoint), ("rendering", .rendering),
    ("concern", .concern), ("calc", .calculation), ("case", .plainCase), ("enum", .enumeration),
    ("occurrence", .occurrence), ("metadata", .metadata)]

/-- Words that open a definition or usage when `case` follows. -/
def caseKeywords : List (String × Family) :=
  [("analysis", .analysisCase), ("verification", .verificationCase), ("use", .useCase)]

def kernelKeywords : List (String × KernelKind) :=
  [("classifier", .classifier), ("class", .classType), ("struct", .structType),
    ("datatype", .dataType), ("assoc", .association), ("behavior", .behavior),
    ("function", .function), ("predicate", .predicate), ("interaction", .interaction),
    ("metaclass", .metaclass), ("type", .anyType), ("feature", .feature), ("step", .step),
    ("expr", .expression), ("connector", .connector)]

def visibilityKeywords : List String :=
  ["public", "private", "protected"]

def directionKeywords : List String :=
  ["in", "out", "inout"]

/-- Words before a declaration that are read and not kept. -/
def modifierKeywords : List String :=
  ["variation", "variant", "individual", "readonly", "derived", "end", "composite", "portion",
    "const", "constant", "var", "standard"]

def otherKeywords : List String :=
  ["def", "package", "namespace", "library", "import", "alias", "doc", "comment", "about", "rep",
    "language", "locale", "abstract", "ref", "specializes", "subsets", "redefines", "references",
    "typed", "defined", "by", "ordered", "nonunique", "default", "all", "for", "from", "to", "of",
    "first", "then", "if", "else", "while", "until", "loop", "do", "entry", "exit", "accept",
    "send", "via", "at", "after", "when", "assign", "assert", "assume", "require", "satisfy",
    "verify", "subject", "actor", "objective", "stakeholder", "return", "perform", "exhibit",
    "include", "expose", "filter", "render", "frame", "dependency", "connect", "bind", "allocate",
    "succession", "transition", "message", "event", "snapshot", "timeslice", "merge", "decide",
    "join", "fork", "not", "and", "or", "xor", "implies", "true", "false", "null", "new",
    "istype", "hastype", "as", "meta", "conjugates", "disjoint", "chains", "inverse", "featured",
    "unions", "intersects", "differences", "multiplicity", "member"]

def reserved : List String :=
  familyKeywords.map (·.1) ++ caseKeywords.map (·.1) ++ kernelKeywords.map (·.1) ++
    visibilityKeywords ++ directionKeywords ++ modifierKeywords ++ otherKeywords

/-- A word that cannot be a name unless it is quoted. -/
def isReserved (word : String) : Bool :=
  reserved.contains word

/-- The first character of a plain name. -/
def isNameStart (c : Char) : Bool :=
  ('A' ≤ c && c ≤ 'Z') || ('a' ≤ c && c ≤ 'z') || c == '_'

def isNamePart (c : Char) : Bool :=
  isNameStart c || ('0' ≤ c && c ≤ '9')

end Sysml.Notation
