/-!
# Files

The commands read a description file and write an encoded file; they see files only through
`Files`, a pair of operations in some monad. `Store` is a directory tree held as data: files by
their paths, directories being the working directory and every directory on a file's path. A
path is walked one component at a time as the system does: `.` stays, `..` goes up, a component
must be a directory to walk through it, and a trailing slash asks for a directory. Reading a
directory, or writing to one, fails; writing creates or replaces a file in an existing directory.
Above the working directory lie directories that the store does not hold: a name there names no
file, and writing one leaves the store as it was.
-/

set_option autoImplicit false

namespace Fiff.Cli

/-- Why a file operation failed. -/
inductive IoError where
  | notFound
  | notDirectory
  | isDirectory
  | permissionDenied
  | notText
  | other (code : Nat) (text : String)
  deriving DecidableEq, Inhabited

def IoError.message : IoError → String
  | .notFound => "No such file or directory (os error 2)"
  | .notDirectory => "Not a directory (os error 20)"
  | .isDirectory => "Is a directory (os error 21)"
  | .permissionDenied => "Permission denied (os error 13)"
  | .notText => "stream did not contain valid UTF-8"
  | .other code text => s!"{text} (os error {code})"

/-- The file operations the commands use, in a monad `m`. -/
structure Files (m : Type → Type) where
  read : String → m (Except IoError (List UInt8))
  write : String → List UInt8 → m (Except IoError Unit)

/-- A directory tree as data: each file by its path, components joined by `/`. -/
structure Store where
  files : List (String × List UInt8)
  deriving Inhabited

def components (path : String) : List String :=
  (path.splitOn "/").filter fun c => c ≠ "" ∧ c ≠ "."

/-- What a path names. -/
inductive Found where
  | directory
  | file (key : String)
  | absent (key : String)
  | beyond
  deriving DecidableEq, Inhabited

namespace Store

def ofList (files : List (String × List UInt8)) : Store :=
  ⟨files.map fun (p, b) => ("/".intercalate (components p), b)⟩

def isDirectory (st : Store) (dir : List String) : Bool :=
  dir.isEmpty || st.files.any fun (k, _) =>
    let parts := k.splitOn "/"
    parts.length > dir.length && parts.take dir.length == dir

def isFile (st : Store) (path : List String) : Bool :=
  st.files.any (·.1 == "/".intercalate path)

/-- Walks the components of a path from the directory `here`, which is `none` above the working
directory. -/
def walk (st : Store) : Option (List String) → List String → Except IoError Found
  | _, [] => .ok .directory
  | none, c :: rest =>
    if c = "." ∨ c = ".." then
      if rest.isEmpty then .ok .directory else st.walk none rest
    else if rest.isEmpty then .ok .beyond
    else .error .notFound
  | some here, c :: rest =>
    if c = "." ∨ c = ".." then
      let up := if c = "." then some here else if here.isEmpty then none else some here.dropLast
      if rest.isEmpty then .ok .directory else st.walk up rest
    else
      let next := here ++ [c]
      if st.isDirectory next then
        if rest.isEmpty then .ok .directory else st.walk (some next) rest
      else if st.isFile next then
        if rest.isEmpty then .ok (.file ("/".intercalate next)) else .error .notDirectory
      else if rest.isEmpty then .ok (.absent ("/".intercalate next))
      else .error .notFound

def locate (st : Store) (path : String) : Except IoError (Found × Bool) := do
  let parts := path.splitOn "/"
  let slash := parts.length > 1 && parts.getLast? == some ""
  let found ← st.walk (some []) (parts.filter (· ≠ ""))
  pure (found, slash)

def read (st : Store) (path : String) : Except IoError (List UInt8) := do
  match ← st.locate path with
  | (.directory, _) => throw .isDirectory
  | (.file key, slash) =>
    if slash then throw .notDirectory
    else pure (((st.files.find? (·.1 == key)).map (·.2)).getD [])
  | (.absent _, _) | (.beyond, _) => throw .notFound

def write (st : Store) (path : String) (bytes : List UInt8) : Except IoError Store := do
  match ← st.locate path with
  | (.directory, _) => throw .isDirectory
  | (.file key, slash) =>
    if slash then throw .notDirectory
    else pure ⟨st.files.map fun (k, b) => if k == key then (k, bytes) else (k, b)⟩
  | (.absent key, slash) =>
    if slash then throw .isDirectory else pure ⟨st.files ++ [(key, bytes)]⟩
  | (.beyond, slash) => if slash then throw .isDirectory else pure st

def ops : Files (StateM Store) where
  read path := do return (← get).read path
  write path bytes := do
    match (← get).write path bytes with
    | .ok st => set st; pure (.ok ())
    | .error e => pure (.error e)

def changes (before after : Store) : List (String × List UInt8) :=
  after.files.filter fun (k, b) => (before.files.find? (·.1 == k)).map (·.2) != some b

end Store

end Fiff.Cli
