import CognitiveComplexity.Decimal.Shortest

set_option autoImplicit false

/-!
Values of a TOML document. Tables remember how they came about, because that decides whether a later
line may add to them.
-/

namespace CognitiveComplexity.Toml

inductive Fraction where
  | notANumber
  | infinite (negative : Bool)
  | finite (negative : Bool) (magnitude : Binary)
  deriving DecidableEq, Repr

def Fraction.text : Fraction → String
  | .notANumber => "NaN"
  | .infinite negative => if negative then "-inf" else "inf"
  | .finite negative magnitude =>
    (if negative then "-" else "") ++ (Decimal.shortest magnitude).positional

structure Origin where
  -- No header or literal names the table itself, only something inside it.
  implicit : Bool
  -- A dotted key made the table.
  dotted : Bool
  deriving DecidableEq, Repr

def Origin.explicit : Origin := ⟨false, false⟩

inductive Value where
  | string (text : String)
  | integer (value : Int)
  | fraction (value : Fraction)
  | boolean (value : Bool)
  | moment
  | array (items : List Value)
  | inlineTable (origin : Origin) (entries : List (String × Value))
  | table (origin : Origin) (entries : List (String × Value))
  -- The elements of repeated headers, last one first.
  | tables (elements : List Value)
  deriving Repr

instance : Inhabited Value := ⟨.moment⟩

structure Table where
  origin : Origin
  entries : List (String × Value)
  deriving Repr

namespace Table

def empty : Table := ⟨.explicit, []⟩

def replace (key : String) (value : Value) : List (String × Value) → List (String × Value)
  | [] => []
  | (other, old) :: rest =>
    if other == key then (key, value) :: rest else (other, old) :: replace key value rest

def set (table : Table) (key : String) (value : Value) : Table :=
  match table.entries.lookup key with
  | some _ => { table with entries := replace key value table.entries }
  | none => { table with entries := table.entries ++ [(key, value)] }

def erase (table : Table) (key : String) : Table :=
  { table with entries := table.entries.filter (·.1 != key) }

-- Tables of the document and tables inside a value are kept apart.
inductive Family where
  | document
  | inline
  deriving DecidableEq, Repr

def toValue (family : Family) (table : Table) : Value :=
  match family with
  | .document => .table table.origin table.entries
  | .inline => .inlineTable table.origin table.entries

/-- Changes the table that keys lead to, and makes the tables on the way. A dotted key only passes
tables that no header or literal names; repeated headers lead into their last element. -/
def modifyAt {α : Type} (family : Family) (dotted : Bool) (change : Table → Option (Table × α))
    (table : Table) : List String → Option (Table × α)
  | [] => change table
  | key :: keys =>
    let into := fun (child : Table) (back : Table → Value) => do
      let (changed, result) ← modifyAt family dotted change child keys
      return (table.set key (back changed), result)
    match family, table.entries.lookup key with
    | _, none => into ⟨⟨true, dotted⟩, []⟩ (toValue family)
    | .document, some (.table origin entries) =>
      if dotted && !origin.implicit then none else into ⟨origin, entries⟩ (toValue family)
    | .document, some (.tables (.table origin entries :: others)) =>
      into ⟨origin, entries⟩ fun changed => .tables (changed.toValue family :: others)
    | .inline, some (.inlineTable origin entries) =>
      if dotted && !origin.implicit then none else into ⟨origin, entries⟩ (toValue family)
    | _, _ => none

/-- Adds a key and its value, unless the key is taken or its table closed to such keys. -/
def insert (family : Family) (table : Table) (path : List String) (key : String) (value : Value) :
    Option Table :=
  (modifyAt family true (fun inner =>
    if inner.origin.dotted == path.isEmpty || (inner.entries.lookup key).isSome then none
    else some (inner.set key value, ())) table path).map (·.1)

end Table

end CognitiveComplexity.Toml
