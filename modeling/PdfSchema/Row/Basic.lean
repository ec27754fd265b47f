import PdfSchema.KeyedList
import PdfSchema.Policy
import PdfSchema.Term.Basic

namespace PdfSchema

/-- One alternative of a `Type` cell: a type, or functions that guard one. -/
inductive TypeEntry where
  | named (name : String)
  | guarded (formula : Formula)

namespace TypeEntry

def name? : TypeEntry → Option String
  | named name => some name
  | guarded f => ((Formula.leaves f).reverse.find? (·.kind = .keyName)).map Token.raw

def valueType? (t : TypeEntry) : Option ValueType := t.name?.bind ValueType.ofLabel?

end TypeEntry

inductive Flag where
  | literal (value : Bool)
  | formula (formula : Formula)
  | invalid (text : String)

namespace Flag

def isTrue : Flag → Bool
  | literal b => b
  | _ => false

def isFalse : Flag → Bool
  | literal b => !b
  | _ => false

def formula? : Flag → Option Formula
  | formula f => some f
  | _ => none

def render : Flag → String
  | literal true => "TRUE"
  | literal false => "FALSE"
  | formula f => Formula.render f
  | invalid text => text

end Flag

inductive SinceVersion where
  | version (text : String)
  | formula (formula : Formula)

inductive Value where
  | scalar (token : Token)
  | text (raw : String)
  | array (items : List Value)
  | formula (formula : Formula)

namespace Value

mutual

def isLiteral : Value → Bool
  | scalar _ => true
  | text _ => true
  | array items => allLiteral items
  | formula _ => false

def allLiteral : List Value → Bool
  | [] => true
  | v :: vs => v.isLiteral && allLiteral vs

end

mutual

def render : Value → String
  | scalar t => t.raw
  | text raw => raw
  | array items => "[" ++ " ".intercalate (renderAll items) ++ "]"
  | formula f => Formula.render f

def renderAll : List Value → List String
  | [] => []
  | v :: vs => v.render :: renderAll vs

end

mutual

def ofTerm : Term → Value
  | .leaf t => scalar t
  | .bracket body => array (ofTerms body)
  | .call name args => formula [.call name args]
  | .paren body => formula [.paren body]

def ofTerms : List Term → List Value
  | [] => []
  | t :: ts => ofTerm t :: ofTerms ts

end

def ofFormula : Formula → Value
  | [t] => ofTerm t
  | f => formula f

mutual

def formulas : Value → List Formula
  | scalar _ => []
  | text _ => []
  | array items => formulasIn items
  | formula f => [f]

def formulasIn : List Value → List Formula
  | [] => []
  | v :: vs => v.formulas ++ formulasIn vs

end

theorem formulasIn_eq_flatMap (vs : List Value) : formulasIn vs = vs.flatMap formulas :=
  eq_flatMap_of_cons rfl (fun _ _ ↦ rfl) vs

end Value

mutual

/-- The object that a link leads to: a name, or the last argument of a version function, or the
second argument of an extension. -/
def Term.linkName? : Term → Option String
  | .leaf t => t.keyName?
  | .call name args =>
    if linkWrappers.contains name then Formula.lastLinkName? args
    else if name = "Extension" then match args with
      | _ :: link :: _ => link.linkName?
      | _ => none
    else none
  | .paren _ => none
  | .bracket _ => none

def Formula.lastLinkName? : List Term → Option String
  | [] => none
  | [t] => t.linkName?
  | _ :: t :: ts => Formula.lastLinkName? (t :: ts)

end

/-- One entry of a `Link` cell: an object, or functions that guard one. -/
inductive LinkTarget where
  | object (name : String)
  | guarded (formula : Formula)

namespace LinkTarget

def objectName? : LinkTarget → Option String
  | object name => some name
  | guarded [t] => t.linkName?
  | guarded _ => none

def render : LinkTarget → String
  | object name => name
  | guarded f => Formula.render f

end LinkTarget

structure Row where
  types : List TypeEntry
  sinceVersion : SinceVersion
  deprecatedIn : Option String
  required : List Flag
  indirectReference : List Flag
  inheritable : Flag
  defaultValue : Option (List (Option Value))
  possibleValues : Option (List (Option (List Value)))
  specialCase : Option (List (Option Formula))
  link : Option (List (Option (List LinkTarget)))
  note : Option String

namespace Row

def isRequired (r : Row) : Bool := r.required.any Flag.isTrue

def mayBeRequired (r : Row) : Bool := !r.required.all Flag.isFalse

def linksFor (r : Row) (alternative : Nat) : List LinkTarget :=
  (((r.link.getD [])[alternative]?).join).getD []

def links (r : Row) : List LinkTarget :=
  ((r.link.getD []).filterMap id).flatten

def linkNames (r : Row) : List String := r.links.filterMap LinkTarget.objectName?

def formulas (r : Row) : List (Column × Formula) :=
  (r.types.filterMap fun
    | .guarded f => some (Column.type, f)
    | .named _ => none) ++
  (match r.sinceVersion with
    | .formula f => [(.sinceVersion, f)]
    | .version _ => []) ++
  ((r.required.filterMap Flag.formula?).map (.required, ·)) ++
  ((r.indirectReference.filterMap Flag.formula?).map (.indirectReference, ·)) ++
  (r.inheritable.formula?.toList.map (.inheritable, ·)) ++
  (((r.defaultValue.getD []).filterMap id).flatMap Value.formulas).map (.defaultValue, ·) ++
  ((((r.possibleValues.getD []).filterMap id).flatten).flatMap Value.formulas).map
    (.possibleValues, ·) ++
  (((r.specialCase.getD []).filterMap id).map (.specialCase, ·)) ++
  (r.links.filterMap fun
    | .guarded f => some (Column.link, f)
    | .object _ => none)

end Row

/-- The rows of a schema object, by their keys: names, indices, or wildcards such as `*` and
`2*`. -/
abbrev SchemaObject := KeyedList String Row

namespace SchemaObject

def wildcard? (o : SchemaObject) : Option Row := o.get? "*"

def isArrayLike (o : SchemaObject) : Bool :=
  o.keys.head?.any fun k => k.toList.head?.any Char.isDigit

end SchemaObject

abbrev Schema := KeyedList String SchemaObject

end PdfSchema
