import FuzzCampaign.Path
import FuzzCampaign.Text.Utf8

/-!
A file system as a finite map from locations to nodes. A location is the list of the names that lead
to it from the root, innermost first, so what a directory holds are the locations one name longer.
A path is followed piece by piece, and every piece needs a directory to start from. What an operation
changes is one location, or nothing. Names are Unicode texts, every file and directory can be read, and
there are no links: names in other encodings, permissions and symbolic links are left out. Main
statements: a node is listed exactly when it is found at its location, and putting a node changes what
is found there and nowhere else.
-/

namespace FuzzCampaign

/-- The names that lead to a place from the root, innermost first. -/
abbrev Location := List String

/-- What can be at a location. Nothing can be created in a sealed directory; a sink takes what is
written and gives nothing back. -/
inductive Node where
  | file (bytes : List UInt8)
  | directory
  | sealedDirectory
  | sink
deriving DecidableEq, Repr

/-- Whether a node can be gone through. -/
def Node.isDirectory : Node → Bool
  | directory | sealedDirectory => true
  | file _ | sink => false

/-- Why an operation fails. -/
inductive FileError where
  | notFound
  | alreadyThere
  | notDirectory
  | isDirectory
  | tooLong
  | notPath
  | notText
deriving DecidableEq, Repr

/-- The system's text for an error. -/
def FileError.message : FileError → String
  | notFound => "No such file or directory (os error 2)"
  | alreadyThere => "File exists (os error 17)"
  | notDirectory => "Not a directory (os error 20)"
  | isDirectory => "Is a directory (os error 21)"
  | tooLong => "File name too long (os error 36)"
  | notPath => "file name contained an unexpected NUL byte"
  | notText => "stream did not contain valid UTF-8"

namespace FileSystem

/-- The most bytes of a name. -/
def longestName : Nat := 255

/-- The most bytes of a path. -/
def longestPath : Nat := 4095

/-- Whether a piece has more bytes than a name can have. -/
def isTooLong (piece : String) : Bool := longestName < piece.utf8ByteSize

/-- Whether a text can be the name of an entry in a directory. -/
def isName (name : String) : Bool :=
  !Path.isIdle name && name != ".." && !isTooLong name && name.toList.all fun c => c != '/' && c != '\x00'

end FileSystem

/-- Nodes at their locations, of which there is one each, and the location at which relative paths
start. The root is there without being listed. -/
@[ext]
structure FileSystem where
  nodes : List (Location × Node)
  working : Location
  nodup : (nodes.map (·.1)).Nodup := by decide
  named : ∀ e ∈ nodes, e.1.all FileSystem.isName := by decide
deriving DecidableEq, Repr

namespace FileSystem

/-- The node at a location. -/
def node? (fs : FileSystem) : Location → Option Node
  | [] => some .directory
  | name :: above => fs.nodes.lookup (name :: above)

theorem nodup_filter (fs : FileSystem) (p : Location × Node → Bool) :
    ((fs.nodes.filter p).map (·.1)).Nodup :=
  (fs.nodes.filter_sublist.map (·.1)).nodup fs.nodup

/-- Puts a node at a location, in the place of what was there. Where a name cannot be one, nothing is
put. -/
def put (fs : FileSystem) (l : Location) (n : Node) : FileSystem :=
  if h : l.all isName then
    { nodes := (l, n) :: fs.nodes.filter fun e => e.1 ≠ l
      working := fs.working
      nodup := by
        refine List.nodup_cons.mpr ⟨fun h => ?_, fs.nodup_filter _⟩
        obtain ⟨e, he, rfl⟩ := List.mem_map.mp h
        simp at he
      named := List.forall_mem_cons.mpr ⟨h, fun e he => fs.named e ((List.mem_filter.mp he).1)⟩ }
  else fs

theorem nodes_put (fs : FileSystem) {l : Location} (h : l.all isName) (n : Node) :
    (fs.put l n).nodes = (l, n) :: fs.nodes.filter fun e => e.1 ≠ l := by
  rw [put, dif_pos h]

theorem put_of_not_named (fs : FileSystem) {l : Location} (h : ¬l.all isName) (n : Node) :
    fs.put l n = fs :=
  dif_neg h

@[simp] theorem working_put (fs : FileSystem) (l : Location) (n : Node) :
    (fs.put l n).working = fs.working := by
  rw [put]
  split <;> rfl

theorem node?_put_self (fs : FileSystem) {name : String} {above : Location}
    (h : (name :: above).all isName) (n : Node) :
    (fs.put (name :: above) n).node? (name :: above) = some n := by
  simp [node?, fs.nodes_put h]

theorem lookup_filter_of_ne {l k : Location} (h : k ≠ l) (nodes : List (Location × Node)) :
    (nodes.filter fun e => e.1 ≠ l).lookup k = nodes.lookup k := by
  induction nodes with
  | nil => rfl
  | cons e rest ih =>
    obtain ⟨j, n⟩ := e
    by_cases hj : j = l
    · rw [List.filter_cons_of_neg (by simpa using hj), ih, List.lookup_cons,
        beq_eq_false_iff_ne.mpr (hj ▸ h)]
    · rw [List.filter_cons_of_pos (by simpa using hj), List.lookup_cons, List.lookup_cons, ih]

theorem node?_put_of_ne (fs : FileSystem) (n : Node) {l k : Location} (h : k ≠ l) :
    (fs.put l n).node? k = fs.node? k := by
  cases k with
  | nil => rfl
  | cons name above =>
    by_cases hl : l.all isName
    · rw [node?, node?, fs.nodes_put hl, List.lookup_cons, beq_eq_false_iff_ne.mpr h]
      exact lookup_filter_of_ne h fs.nodes
    · rw [fs.put_of_not_named hl]

theorem lookup_eq_some_iff {nodes : List (Location × Node)} (nodup : (nodes.map (·.1)).Nodup)
    {l : Location} {n : Node} : nodes.lookup l = some n ↔ (l, n) ∈ nodes := by
  induction nodes with
  | nil => simp
  | cons e rest ih =>
    obtain ⟨j, m⟩ := e
    obtain ⟨hj, hrest⟩ := List.nodup_cons.mp nodup
    by_cases h : l = j
    · subst h
      have : (l, n) ∉ rest := fun hn => hj (List.mem_map.mpr ⟨_, hn, rfl⟩)
      simp [this, eq_comm]
    · rw [List.lookup_cons, beq_eq_false_iff_ne.mpr h]
      simp [ih hrest, h]

theorem node?_eq_some_iff (fs : FileSystem) {name : String} {above : Location} {n : Node} :
    fs.node? (name :: above) = some n ↔ (name :: above, n) ∈ fs.nodes :=
  lookup_eq_some_iff fs.nodup

/-- Where something is, all names on the way can be names. -/
theorem isName_of_node? (fs : FileSystem) {l : Location} {n : Node} (h : fs.node? l = some n) :
    l.all isName := by
  cases l with
  | nil => rfl
  | cons name above => exact fs.named _ (fs.node?_eq_some_iff.mp h)

theorem isName_of_entry (fs : FileSystem) {name : String} {above : Location} {n : Node}
    (h : fs.node? (name :: above) = some n) : isName name := by
  have hall := fs.isName_of_node? h
  rw [List.all_cons, Bool.and_eq_true] at hall
  exact hall.1

/-- Takes away a location and all below it. -/
def removeBelow (fs : FileSystem) (l : Location) : FileSystem where
  nodes := fs.nodes.filter fun e => !l.isSuffixOf e.1
  working := fs.working
  nodup := fs.nodup_filter _
  named e he := fs.named e ((List.mem_filter.mp he).1)

/-- The location that one piece of a path leads to. -/
def move (l : Location) (piece : String) : Location :=
  if Path.isIdle piece then l
  else if piece = ".." then l.tail
  else piece :: l

/-- Why a text is no path at all, if it is none. -/
def pathError? (path : String) : Option FileError :=
  if '\x00' ∈ path.toList then some .notPath
  else if path = "" then some .notFound
  else if longestPath < path.utf8ByteSize then some .tooLong
  else none

/-- Follows pieces from a location. Whether there is anything at the end is not asked. -/
def walk (fs : FileSystem) : Location → List String → Except FileError Location
  | l, [] => .ok l
  | l, piece :: rest =>
    match fs.node? l with
    | none => .error .notFound
    | some n =>
      if !n.isDirectory then .error .notDirectory
      else if isTooLong piece then .error .tooLong
      else walk fs (move l piece) rest

/-- Where a path starts. -/
def base (fs : FileSystem) (path : String) : Location :=
  if Path.isAbsolute path then [] else fs.working

/-- The location that a path leads to. -/
def resolve (fs : FileSystem) (path : String) : Except FileError Location :=
  match pathError? path with
  | some e => .error e
  | none => fs.walk (fs.base path) (Path.pieces path)

/-- What a path leads to. -/
def find (fs : FileSystem) (path : String) : Except FileError (Location × Node) :=
  match fs.resolve path with
  | .error e => .error e
  | .ok l =>
    match fs.node? l with
    | some n => .ok (l, n)
    | none => .error .notFound

/-- Whether a path leads to anything. -/
def pathExists (fs : FileSystem) (path : String) : Bool :=
  match fs.find path with
  | .ok _ => true
  | .error _ => false

/-- Whether a path leads to a directory. -/
def isDirectory (fs : FileSystem) (path : String) : Bool :=
  match fs.find path with
  | .ok (_, n) => n.isDirectory
  | .error _ => false

/-- Whether a path leads to a regular file. -/
def isFile (fs : FileSystem) (path : String) : Bool :=
  match fs.find path with
  | .ok (_, .file _) => true
  | _ => false

/-- The bytes of the file that a path leads to. -/
def read (fs : FileSystem) (path : String) : Except FileError (List UInt8) :=
  match fs.find path with
  | .error e => .error e
  | .ok (_, .file bytes) => .ok bytes
  | .ok (_, .sink) => .ok []
  | .ok (_, .directory) => .error .isDirectory
  | .ok (_, .sealedDirectory) => .error .isDirectory

/-- The text of the file that a path leads to. -/
def readText (fs : FileSystem) (path : String) : Except FileError String :=
  match fs.read path with
  | .error e => .error e
  | .ok bytes =>
    match Text.decode? bytes with
    | some s => .ok s
    | none => .error .notText

/-- The names in the directory at a location, in no particular order. -/
def namesAt (fs : FileSystem) (l : Location) : List String :=
  fs.nodes.filterMap fun e =>
    match e.1 with
    | name :: above => if above = l then some name else none
    | [] => none

/-- The names in the directory that a path leads to; none if it leads to no directory. -/
def names (fs : FileSystem) (path : String) : List String :=
  match fs.find path with
  | .ok (l, n) => if n.isDirectory then fs.namesAt l else []
  | .error _ => []

/-- The directory in which the last name of a path lies, and that name; no name if the path ends in
a piece that names nothing in it. Slashes at the end are not looked at. -/
def entry (fs : FileSystem) (path : String) : Except FileError (Location × Option String) :=
  match pathError? path, (Path.pieces path).reverse.dropWhile (· = "") with
  | some e, _ => .error e
  | none, [] => .ok ([], none)
  | none, last :: above =>
    match fs.walk (fs.base path) above.reverse with
    | .error e => .error e
    | .ok l =>
      match fs.node? l with
      | none => .error .notFound
      | some n =>
        if !n.isDirectory then .error .notDirectory
        else if Path.isIdle last ∨ last = ".." then .ok (l, none)
        else .ok (l, some last)

/-- Whether new entries can be made in the directory at a location. -/
def isOpen (fs : FileSystem) (l : Location) : Bool := fs.node? l = some .directory

/-- Makes one directory. -/
def makeDirectory (fs : FileSystem) (path : String) : Except FileError FileSystem :=
  match fs.entry path with
  | .error e => .error e
  | .ok (_, none) => .error .alreadyThere
  | .ok (l, some name) =>
    if isTooLong name then .error .tooLong
    else match fs.node? (name :: l) with
      | some _ => .error .alreadyThere
      | none => if fs.isOpen l then .ok (fs.put (name :: l) .directory) else .error .notFound

/-- Makes a directory and those above it that are missing. The paths are the directory's and those
of all that it lies in, nearest first. What was made stays, also when it ends in an error. -/
def makeDirectoriesFor (fs : FileSystem) : List String → FileSystem × Except FileError Unit
  | [] => (fs, .ok ())
  | path :: above =>
    match fs.makeDirectory path with
    | .ok fs => (fs, .ok ())
    | .error .notFound =>
      match makeDirectoriesFor fs above with
      | (fs, .error e) => (fs, .error e)
      | (fs, .ok ()) =>
        match fs.makeDirectory path with
        | .ok fs => (fs, .ok ())
        | .error e => (fs, if fs.isDirectory path then .ok () else .error e)
    | .error e => (fs, if fs.isDirectory path then .ok () else .error e)

/-- Makes a directory and those above it that are missing. -/
def makeDirectories (fs : FileSystem) (path : String) : FileSystem × Except FileError Unit :=
  fs.makeDirectoriesFor (Path.ancestors path)

/-- Writes a file, which is created if it is missing. -/
def write (fs : FileSystem) (path : String) (bytes : List UInt8) : Except FileError FileSystem :=
  match fs.entry path with
  | .error e => .error e
  | .ok (_, none) => .error .isDirectory
  | .ok (l, some name) =>
    if Path.endsInSlash path then .error .isDirectory
    else if isTooLong name then .error .tooLong
    else match fs.node? (name :: l) with
      | some .directory => .error .isDirectory
      | some .sealedDirectory => .error .isDirectory
      | some .sink => .ok fs
      | some (.file _) => .ok (fs.put (name :: l) (.file bytes))
      | none =>
        if fs.isOpen l then .ok (fs.put (name :: l) (.file bytes)) else .error .notFound

/-- Takes away what a path leads to. -/
def remove (fs : FileSystem) (path : String) : FileSystem :=
  match fs.find path with
  | .ok (l, _) => fs.removeBelow l
  | .error _ => fs

end FileSystem

end FuzzCampaign
