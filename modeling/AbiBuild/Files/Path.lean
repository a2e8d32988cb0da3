import AbiBuild.Text.Split
import AbiBuild.Text.Utf8
import Std.Data.ExtTreeMap
import Std.Data.ExtTreeSet

/-!
# Paths

A path is the text it was given as.  What it names is its list of components: repeated separators,
separators at the end, and `.` other than at the beginning do not count.  Paths are compared and
ordered by components, and shown as text.
-/

namespace AbiBuild.Files

inductive Component
  | root
  | current
  | parent
  | name (text : String)
  deriving DecidableEq, Repr

namespace Component

def rank : Component → Nat
  | root => 0
  | current => 1
  | parent => 2
  | name _ => 3

def text : Component → String
  | root => "/"
  | current => "."
  | parent => ".."
  | name text => text

def ofSegment (segment : String) : Component :=
  if segment = ".." then parent else name segment

instance : Ord Component := ⟨compareLex (compareOn rank) (compareOn text)⟩

instance : Std.TransOrd Component :=
  inferInstanceAs (Std.TransCmp (compareLex (compareOn rank) (compareOn text)))

instance : Std.LawfulEqOrd Component where
  eq_of_compare {left right} h := by
    have h : compareLex (compareOn rank) (compareOn text) left right = .eq := h
    simp only [compareLex, Ordering.then_eq_eq, compareOn] at h
    have hrank := Std.LawfulEqOrd.eq_of_compare h.1
    have htext := Std.LawfulEqOrd.eq_of_compare h.2
    cases left <;> cases right <;> simp_all [rank, text]

end Component

abbrev Location := List Component

structure Path where
  text : String
  deriving DecidableEq, Repr, Inhabited

namespace Path

instance : ToString Path := ⟨text⟩

def isAbsolute (path : Path) : Bool :=
  path.text.toList.head? = some '/'

def segments (path : Path) : List String :=
  Text.splitOn '/' path.text

def isBlankSegment (segment : String) : Bool :=
  segment = "" || segment = "."

def location (path : Path) : Location :=
  match path.segments with
  | [] => []
  | first :: others =>
    let opening :=
      if path.isAbsolute then [.root]
      else if first = "" then []
      else if first = "." then [.current]
      else [.ofSegment first]
    opening ++ (others.filter (!isBlankSegment ·)).map .ofSegment

instance : Ord Path := ⟨compareOn location⟩

instance : Std.TransOrd Path := inferInstanceAs (Std.TransCmp (compareOn location))

/-- Adds a relative text below a path, with one separator between them unless the path is empty or
ends in one.  An absolute text takes the place of the path. -/
def join (base : Path) (below : String) : Path :=
  if below.toList.head? = some '/' then ⟨below⟩
  else if base.text = "" || base.text.toList.getLast? = some '/' then ⟨base.text ++ below⟩
  else ⟨base.text ++ "/" ++ below⟩

def ofSegments (absolute : Bool) (segments : List String) : Path :=
  if absolute && segments = [""] then ⟨"/"⟩ else ⟨String.intercalate "/" segments⟩

def openedAtEnd (path : Path) : Option (List String × String) :=
  match path.segments with
  | [] => none
  | first :: others => some (others.reverse.dropWhile isBlankSegment, first)

/-- The path without its last component; the root and the empty path have none. -/
def parent? (path : Path) : Option Path :=
  match path.openedAtEnd with
  | none => none
  | some (_ :: others, first) =>
    some (ofSegments path.isAbsolute
      (first :: (others.dropWhile isBlankSegment).reverse))
  | some ([], first) => if path.isAbsolute || first = "" then none else some ⟨""⟩

def fileName? (path : Path) : Option String :=
  match path.location.getLast? with
  | some (.name text) => some text
  | _ => none

def cutAtDot (name : String) : String × Option String :=
  match (Text.pieces '.' name.toList).reverse with
  | extension :: stem =>
    let stem := Text.joinPieces '.' stem.reverse
    if stem.isEmpty then (name, none) else (String.ofList stem, some (String.ofList extension))
  | [] => (name, none)

def stem? (path : Path) : Option String :=
  path.fileName?.map fun name => (cutAtDot name).1

def extension? (path : Path) : Option String :=
  path.fileName?.bind fun name => (cutAtDot name).2

def withExtension (path : Path) (extension : String) : Path :=
  match path.stem?, path.openedAtEnd with
  | some stem, some (_ :: others, first) =>
    ofSegments path.isAbsolute ((stem ++ "." ++ extension) :: others ++ [first]).reverse
  | some stem, some ([], _) => ⟨stem ++ "." ++ extension⟩
  | _, _ => path

def withFileName (path : Path) (name : String) : Path :=
  match path.fileName?, path.parent? with
  | some _, some parent => parent.join name
  | _, _ => path.join name

def below? (path base : Path) : Option Location :=
  if base.location.isPrefixOf path.location then
    some (path.location.drop base.location.length)
  else none

/-- The absolute form, reading a relative path from `directory`.  Components that go up stay, as do
exactly two separators at the beginning and one at the end.  The empty path has none. -/
def absolute? (directory path : Path) : Option Path :=
  if path.text = "" then none
  else
    let slashes := (path.text.toList.takeWhile (· = '/')).length
    let names := path.location.filterMap fun component =>
      match component with
      | .root | .current => none
      | component => some component.text
    let opening : Path :=
      if slashes = 0 then directory else if slashes = 2 then ⟨"//"⟩ else ⟨"/"⟩
    let closed := names.foldl join opening
    some (if path.text.toList.getLast? = some '/' then closed.join "" else closed)

end Path

/-- Sets of paths keep the first spelling of each. -/
abbrev PathSet := Std.ExtTreeSet Path compare

namespace PathSet

def ofList (paths : List Path) : PathSet := paths.foldl (·.insert ·) ∅

end PathSet

abbrev PathMap (α : Type) := Std.ExtTreeMap Path α compare

namespace PathMap

def put {α : Type} (map : PathMap α) (path : Path) (value : α) : PathMap α :=
  if path ∈ map then map.modify path fun _ => value else map.insert path value

end PathMap

end AbiBuild.Files
