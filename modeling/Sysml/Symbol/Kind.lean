/-!
# Kinds of symbols

What a named element of a model is: a package, the definition or a usage of one
of the families of the systems notation, a type or feature of the kernel
notation, or an element of a kind that is not known here.
-/

set_option autoImplicit false

namespace Sysml

inductive Family where
  | part | attr | port | item | action | state | requirement | constraint | interface
  | connection | allocation | flow | view | viewpoint | rendering | concern | calculation
  | plainCase | analysisCase | verificationCase | useCase | enumeration | occurrence | metadata
  deriving DecidableEq, Repr, Inhabited

inductive KernelKind where
  | classifier | classType | structType | dataType | association | behavior | function
  | predicate | interaction | metaclass | anyType | feature | step | expression | connector
  deriving DecidableEq, Repr, Inhabited

inductive SymbolKind where
  | package
  | libraryPackage
  | namespaceOnly
  | definition (family : Family)
  | usage (family : Family)
  | referenceUsage
  | plainUsage
  | kernel (kind : KernelKind)
  | element
  deriving DecidableEq, Repr, Inhabited

namespace Family

def all : List Family :=
  [.part, .attr, .port, .item, .action, .state, .requirement, .constraint, .interface,
    .connection, .allocation, .flow, .view, .viewpoint, .rendering, .concern, .calculation,
    .plainCase, .analysisCase, .verificationCase, .useCase, .enumeration, .occurrence, .metadata]

/-- The word that the names of a family's kinds begin with. -/
def stem : Family → String
  | .part => "Part"
  | .attr => "Attribute"
  | .port => "Port"
  | .item => "Item"
  | .action => "Action"
  | .state => "State"
  | .requirement => "Requirement"
  | .constraint => "Constraint"
  | .interface => "Interface"
  | .connection => "Connection"
  | .allocation => "Allocation"
  | .flow => "Flow"
  | .view => "View"
  | .viewpoint => "Viewpoint"
  | .rendering => "Rendering"
  | .concern => "Concern"
  | .calculation => "Calculation"
  | .plainCase => "Case"
  | .analysisCase => "AnalysisCase"
  | .verificationCase => "VerificationCase"
  | .useCase => "UseCase"
  | .enumeration => "Enumeration"
  | .occurrence => "Occurrence"
  | .metadata => "Metadata"

end Family

namespace KernelKind

def all : List KernelKind :=
  [.classifier, .classType, .structType, .dataType, .association, .behavior, .function,
    .predicate, .interaction, .metaclass, .anyType, .feature, .step, .expression, .connector]

def text : KernelKind → String
  | .classifier => "Classifier"
  | .classType => "Class"
  | .structType => "Structure"
  | .dataType => "DataType"
  | .association => "Association"
  | .behavior => "Behavior"
  | .function => "Function"
  | .predicate => "Predicate"
  | .interaction => "Interaction"
  | .metaclass => "Metaclass"
  | .anyType => "Type"
  | .feature => "Feature"
  | .step => "Step"
  | .expression => "Expression"
  | .connector => "Connector"

/-- Types classify; features, steps, expressions and connectors do not. -/
def isClassifier : KernelKind → Bool
  | .feature | .step | .expression | .connector => false
  | _ => true

end KernelKind

namespace SymbolKind

def all : List SymbolKind :=
  [.package, .libraryPackage, .namespaceOnly] ++
    Family.all.flatMap (fun family => [.definition family, .usage family]) ++
    [.referenceUsage, .plainUsage] ++ KernelKind.all.map .kernel ++ [.element]

def text : SymbolKind → String
  | .package => "Package"
  | .libraryPackage => "LibraryPackage"
  | .namespaceOnly => "Namespace"
  | .definition family => family.stem ++ "Def"
  | .usage family => family.stem ++ "Usage"
  | .referenceUsage => "ReferenceUsage"
  | .plainUsage => "Usage"
  | .kernel kind => kind.text
  | .element => "Element"

def metaclass : SymbolKind → String
  | .definition family => family.stem ++ "Definition"
  | kind => kind.text

def ofText? (name : String) : Option SymbolKind :=
  all.find? fun kind => kind.text == name

/-- The kind that a document's metaclass stands for; short names are understood
too, and any other name is an element of no known kind. -/
def ofMetaclass (name : String) : SymbolKind :=
  match all.find? fun kind => kind.metaclass == name with
  | some kind => kind
  | none => (ofText? name).getD .element

def isDefinition : SymbolKind → Bool
  | .definition _ => true
  | .kernel kind => kind.isClassifier
  | _ => false

def isPackage : SymbolKind → Bool
  | .package | .libraryPackage | .namespaceOnly => true
  | _ => false

theorem mem_all (kind : SymbolKind) : kind ∈ all := by
  cases kind with
  | definition family => cases family <;> decide
  | usage family => cases family <;> decide
  | kernel kind => cases kind <;> decide
  | _ => decide

end SymbolKind

end Sysml
