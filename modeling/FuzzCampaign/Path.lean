/-!
Paths as texts. A path's pieces stand between its slashes. Joining and taking the parent work on the
text and look at no file: what is kept of a path is kept as it was written.
-/

namespace FuzzCampaign.Path

/-- The pieces between slashes, of which there is one more than there are slashes. -/
def splitSlashes : List Char → List (List Char)
  | [] => [[]]
  | c :: rest =>
    if c = '/' then [] :: splitSlashes rest
    else match splitSlashes rest with
      | [] => [[c]]
      | piece :: pieces => (c :: piece) :: pieces

/-- The pieces of a path. -/
def pieces (path : String) : List String := (splitSlashes path.toList).map String.ofList

/-- The path with the pieces given. -/
def ofPieces (pieces : List String) : String := String.intercalate "/" pieces

/-- Whether a path starts at the root. -/
def isAbsolute (path : String) : Bool := path.toList.head? == some '/'

/-- Whether a path ends in a slash. -/
def endsInSlash (path : String) : Bool := path.toList.getLast? == some '/'

/-- A path below another one; an absolute path stays as it is. -/
def join (root path : String) : String :=
  if isAbsolute path then path
  else if root = "" ∨ endsInSlash root then root ++ path
  else root ++ "/" ++ path

/-- A piece that leads nowhere else. -/
def isIdle (piece : String) : Bool := piece == "" || piece == "."

/-- How a path starts: at the root, with a dot of its own, or with a name. -/
inductive Lead where
  | root
  | dot
  | name
deriving DecidableEq, Repr

/-- How a path starts, and the pieces behind that. -/
def lead (path : String) : Lead × List String :=
  match pieces path with
  | [] => (.name, [])
  | piece :: rest =>
    if isAbsolute path then (.root, rest)
    else if piece = "." then (.dot, rest)
    else (.name, piece :: rest)

/-- How a path starts, and the names that it leads through from there. -/
def outline (path : String) : Lead × List String :=
  ((lead path).1, (lead path).2.filter fun piece => !isIdle piece)

/-- Whether two paths differ at most in pieces that lead nowhere else. -/
def isSame (a b : String) : Bool := outline a = outline b

/-- Writes a path again from its start and its further pieces. -/
def ofLead (lead : Lead) (body : List String) : String :=
  match lead, body with
  | .root, body => "/" ++ ofPieces body
  | .dot, [] => "."
  | .dot, body => "./" ++ ofPieces body
  | .name, body => ofPieces body

/-- The path without its last name. The root and the empty path have no parent. -/
def parent? (path : String) : Option String :=
  let (lead, body) := lead path
  match body.reverse.dropWhile isIdle with
  | _ :: rest => some (ofLead lead (rest.dropWhile isIdle).reverse)
  | [] => match lead with
    | .dot => some ""
    | .root | .name => none

/-- The path, its parent, the parent of that and so on, but not the empty path. Each is shorter than
the one before, so the length bounds their number. -/
def ancestorsUpTo : (bound : Nat) → String → List String
  | 0, _ => []
  | bound + 1, path =>
    if path = "" then []
    else path :: match parent? path with
      | some parent => ancestorsUpTo bound parent
      | none => []

/-- The path and all that it lies in, nearest first. -/
def ancestors (path : String) : List String := ancestorsUpTo path.length path

end FuzzCampaign.Path
