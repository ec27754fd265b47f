import PdfSchema.Json.Basic
import PdfSchema.KeyedList

namespace PdfSchema

inductive Filter.Step where
  | member (key : String)
  | item (index : Int)
  | slice (start stop : Option Int)
  | each
  deriving DecidableEq, Repr

inductive Filter where
  | identity
  | literal (value : Json)
  | named (name : String)
  | parameter (name : String)
  | access (source : Filter) (step : Filter.Step)
  | both (first second : Filter)
  | pipe (first second : Filter)
  | collect (items : Filter)
  | object (members : List (String × Filter))

namespace Filter

/-- The place in a sequence of `length` items that an index stands for, before the first item if it
is negative. -/
def place (length : Nat) (index : Int) : Int := if index < 0 then index + length else index

def bound (length : Nat) (index : Int) : Nat := min (place length index).toNat length

def sliced {α : Type} (start stop : Option Int) (items : List α) : List α :=
  let first := (start.map (bound items.length)).getD 0
  let last := (stop.map (bound items.length)).getD items.length
  (items.take last).drop first

def Step.values : Step → Json → Option (List Json)
  | member key, .object ms => some [(Pairs.get? ms key).getD .null]
  | item index, .array vs =>
    let i := place vs.length index
    some [if 0 ≤ i then (vs[i.toNat]?).getD .null else .null]
  | slice start stop, .array vs => some [.array (sliced start stop vs)]
  | slice start stop, .string s => some [.string (String.ofList (sliced start stop s.toList))]
  | each, .array vs => some vs
  | each, .object ms => some (ms.map Prod.snd)
  | _, _ => none

def builtin? : String → Option (List Json)
  | "empty" => some []
  | "null" => some [.null]
  | "true" => some [.boolean true]
  | "false" => some [.boolean false]
  | _ => none

def outputsOfEach (f : Json → Option (List Json)) (vs : List Json) : Option (List Json) :=
  (vs.mapM f).map List.flatten

mutual

def eval : Filter → Json → Option (List Json)
  | identity, v => some [v]
  | literal w, _ => some [w]
  | named name, _ => builtin? name
  | parameter _, _ => none
  | access f step, v => do outputsOfEach step.values (← f.eval v)
  | both f g, v => do return (← f.eval v) ++ (← g.eval v)
  | pipe f g, v => do outputsOfEach g.eval (← f.eval v)
  | collect f, v => do return [.array (← f.eval v)]
  | object ms, v => evalMembers ms [] v

/-- An object for each choice of outputs of the members, the first member varying slowest. -/
def evalMembers : List (String × Filter) → List (String × Json) → Json → Option (List Json)
  | [], done, _ => some [.object done]
  | (key, f) :: ms, done, v => do
    outputsOfEach (fun w => evalMembers ms (Pairs.put done key w) v) (← f.eval v)

def undefinedNames : Filter → List String
  | identity | literal _ => []
  | named name => if (builtin? name).isSome then [] else [name]
  | parameter name => [name]
  | access f _ => f.undefinedNames
  | both f g => f.undefinedNames ++ g.undefinedNames
  | pipe f g => f.undefinedNames ++ g.undefinedNames
  | collect f => f.undefinedNames
  | object ms => undefinedNamesMembers ms

def undefinedNamesMembers : List (String × Filter) → List String
  | [] => []
  | (_, f) :: ms => f.undefinedNames ++ undefinedNamesMembers ms

end

end Filter

end PdfSchema
