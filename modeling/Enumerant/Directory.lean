import Enumerant.Text.Part

/-!
# Directories

What a run can see of the file system: files by the names on the way from where the program runs,
and the folders that these ways lead through. A path is followed name by name, and each name but the
last has to lead to a folder. A way that starts at the root has an empty name in front.
-/

namespace Enumerant

/-- Files by the paths to them, and folders that exist even if no file is known in them. -/
structure Directory where
  files : List (String × ByteArray) := []
  folders : List String := []

namespace Directory

/-- Why a file cannot be read or written. -/
inductive Fault where
  | notFound
  | notDirectory
  | isDirectory
  | nameTooLong
  | nullInPath
  | notText
  deriving DecidableEq, Repr

/-- The wording of a fault. -/
def Fault.message : Fault → String
  | notFound => "No such file or directory (os error 2)"
  | notDirectory => "Not a directory (os error 20)"
  | isDirectory => "Is a directory (os error 21)"
  | nameTooLong => "File name too long (os error 36)"
  | nullInPath => "file name contained an unexpected NUL byte"
  | notText => "stream did not contain valid UTF-8"

/-! ### Paths -/

/-- The names in a path, between its slashes. -/
def names (path : String) : List String :=
  ((Text.fields (· == '/') path.toList).filter (· ≠ [])).map String.ofList

/-- Whether nothing follows the last slash of a path, which has to lead to a folder then. -/
def endsInSlash (path : String) : Bool :=
  path.toList.getLast? = some '/'

/-- The place at which a path starts. -/
def start (path : String) : List String :=
  if path.toList.head? = some '/' then [""] else []

/-- The place above another. Nothing is above the root, and what is above the place where the
program runs has no other name. -/
def above (place : List String) : List String :=
  match place.getLast? with
  | none | some ".." => place ++ [".."]
  | some "" => place
  | some _ => place.dropLast

/-- The place to which a name leads from another. -/
def onward (place : List String) (name : String) : List String :=
  if name = "." then place else if name = ".." then above place else place ++ [name]

/-- The path that leads straight to a place. -/
def pathOf (place : List String) : String :=
  "/".intercalate place

/-- The path that leads straight to where a path leads. -/
def straight (path : String) : String :=
  pathOf ((names path).foldl onward (start path))

/-- The length of the longest name that a folder can hold, in bytes. -/
def nameLimit : Nat :=
  255

/-- The length of the longest path that can be followed, in bytes. -/
def pathLimit : Nat :=
  4095

/-- The files in the folder where the program runs, and in those within it. -/
def held (d : Directory) : List (String × ByteArray) :=
  d.files.filter fun file => !(start file.1 == [""] || (names file.1).head? == some "..")

/-! ### Following a path -/

/-- Whether a place is a folder: the one where the program runs or one above it, one above some
file, or one that is known as a folder. -/
def isFolder (d : Directory) (place : List String) : Bool :=
  place.all (fun name => name == "" || name == "..") || d.folders.contains (pathOf place) ||
    d.files.any fun file => (pathOf place ++ "/").toList.isPrefixOf file.1.toList

/-- The folder to which names lead, each from the folder before. -/
def follow (d : Directory) (place : List String) : List String → Except Fault (List String)
  | [] => .ok place
  | name :: names =>
    if d.isFolder (onward place name) then d.follow (onward place name) names
    else if nameLimit < name.utf8ByteSize then .error .nameTooLong
    else if (d.files.lookup (pathOf (onward place name))).isSome then .error .notDirectory
    else .error .notFound

/-- What a path leads to. -/
inductive Target where
  | folder
  /-- A file in a folder, there already or not. -/
  | file (folder : List String) (name : String)

/-- What a path leads to, if there is a way. -/
def target (d : Directory) (path : String) : Except Fault Target :=
  if path.toList.any (·.toNat == 0) then .error .nullInPath
  else if path = "" then .error .notFound
  else if pathLimit < path.utf8ByteSize then .error .nameTooLong
  else
    match d.follow (start path) (names path).dropLast, (names path).getLast? with
    | .error fault, _ => .error fault
    | .ok _, none => .ok .folder
    | .ok place, some name =>
      if d.isFolder (onward place name) then .ok .folder else .ok (.file place name)

/-! ### Reading and writing -/

/-- The contents of the file at a path. -/
def read (d : Directory) (path : String) : Except Fault ByteArray :=
  match d.target path with
  | .error fault => .error fault
  | .ok .folder => .error .isDirectory
  | .ok (.file folder name) =>
    if nameLimit < name.utf8ByteSize then .error .nameTooLong
    else
      match d.files.lookup (pathOf (folder ++ [name])) with
      | some contents => if endsInSlash path then .error .notDirectory else .ok contents
      | none => .error .notFound

/-- The text of the file at a path. -/
def readText (d : Directory) (path : String) : Except Fault String :=
  match d.read path with
  | .error fault => .error fault
  | .ok contents =>
    match String.fromUTF8? contents with
    | some text => .ok text
    | none => .error .notText

/-- Whether a path leads to anything. -/
def leadsAnywhere (d : Directory) (path : String) : Bool :=
  match d.read path with
  | .ok _ | .error .isDirectory => true
  | .error _ => false

/-- Files with the one of the given name replaced, or with one more. -/
def put (name : String) (contents : ByteArray) :
    List (String × ByteArray) → List (String × ByteArray)
  | [] => [(name, contents)]
  | (n, old) :: files =>
    if n = name then (name, contents) :: files else (n, old) :: put name contents files

/-- The directory after a file is written, which may be there already. -/
def write (d : Directory) (path : String) (contents : ByteArray) : Except Fault Directory :=
  match d.target path with
  | .error fault => .error fault
  | .ok .folder => .error .isDirectory
  | .ok (.file folder name) =>
    if endsInSlash path then .error .isDirectory
    else if nameLimit < name.utf8ByteSize then .error .nameTooLong
    else .ok { d with files := put (pathOf (folder ++ [name])) contents d.files }

end Directory

end Enumerant
