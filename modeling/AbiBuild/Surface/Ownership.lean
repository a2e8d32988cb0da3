import AbiBuild.Surface.Mention

/-!
# Nested classes

A class file lists the classes nested in it and those it mentions, each with the class it is a
member of.  Following owners leads from a nested class to the top-level class around it.
-/

namespace AbiBuild.Surface

open ClassFile

/-- The owner of each class that is a member of another one. -/
abbrev Owners := Std.ExtTreeMap String String compare

/-- One line of a table of nested classes. -/
structure NestedClass where
  name : String
  owner : Option String
  isPrivate : Bool
  deriving DecidableEq, Repr

def nestedClassOf (pool : ConstantPool) (entry : InnerClass) : Except UnitFault NestedClass := do
  let name ← classAt pool entry.classIndex
  let owner ← if entry.outerIndex = 0 then pure none else some <$> classAt pool entry.outerIndex
  pure ⟨name, owner, ClassFile.isPrivate entry.accessFlags⟩

def innerClassEntries : Attribute → List InnerClass
  | .innerClasses classes => classes
  | _ => []

def nestedClasses (unit : ClassFile) : Except UnitFault (List NestedClass) :=
  (unit.attributes.flatMap innerClassEntries).mapM (nestedClassOf unit.pool)

namespace NestedClass

def addOwners (owners : Owners) (table : List NestedClass) : Owners :=
  table.foldl (fun owners entry =>
    match entry.owner with
    | some owner => owners.insert entry.name owner
    | none => owners) owners

/-- A class is private if its own last line in the table says so. -/
def marksPrivate (table : List NestedClass) (name : String) : Bool :=
  match (table.filter (·.name = name)).getLast? with
  | some entry => entry.isPrivate
  | none => false

def nestedIn (table : List NestedClass) (root name : String) : List String :=
  (table.map (·.name)).filter fun nested =>
    nested ≠ name && (root ++ "$").toList.isPrefixOf nested.toList

end NestedClass

def climb (owners : Owners) : (steps : Nat) → String → String
  | 0, name => name
  | steps + 1, name =>
    match owners[name]? with
    | some owner => climb owners steps owner
    | none => name

/-- The top-level class around a class. -/
def outermost (owners : Owners) (name : String) : String :=
  climb owners (owners.size + 1) name

end AbiBuild.Surface
