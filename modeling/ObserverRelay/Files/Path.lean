import ObserverRelay.Text.Blank
/-!
# Paths

A path is a text that is cut at its slashes. Two readings of it are needed: all of its pieces,
empty ones and dots included, which is how a path is followed, and its components, among which
empty pieces and dots count for nothing, which is how its parent is found.
-/
namespace ObserverRelay.Files

/-- All pieces of a path, in order. -/
def pieces (path : String) : List String :=
  (Text.splitOnMember '/' path.toList).map String.ofList

/-- Whether a piece leaves one where one is. -/
def isStay (piece : String) : Bool := piece == "" || piece == "."

/-- The components of a path. -/
def components (path : String) : List String := (pieces path).filter fun p => !isStay p

/-- The components of the folder in which a path's last component lies. -/
def parentComponents (path : String) : List String := (components path).dropLast

/-- The pieces before the last name of a path, that name, and whether slashes follow it. -/
def splitLast? (path : String) : Option (List String × String × Bool) :=
  let all := pieces path
  let kept := Text.dropTrailing (· == "") all
  match kept.getLast? with
  | none => none
  | some last => some (kept.dropLast, last, kept.length < all.length)

/-- The longest name, in octets. -/
def maxNameLength : Nat := 255

/-- The longest path, in octets. -/
def maxPathLength : Nat := 4095

/-- Whether a name is too long. -/
def isLongName (name : String) : Bool := maxNameLength < name.utf8ByteSize

end ObserverRelay.Files
