import IngressTls.Text.Split

set_option autoImplicit false

/-! # Files by path

A tree of directories and files, and what comes of reading the file at a path. A path is
followed part by part; an empty part and `.` stay where they are, `..` goes up. Only a
directory can be followed further, also by an empty part behind a slash.
-/

namespace IngressTls

/-- Why a file cannot be read. -/
inductive FileFault where
  /-- Nothing is there. -/
  | missing
  /-- The path goes on behind a file. -/
  | notDirectory
  /-- A directory is there. -/
  | isDirectory
  /-- The path, or a part of it, is too long. -/
  | nameTooLong
  deriving DecidableEq, Repr

/-- The wording of a fault. -/
def FileFault.message : FileFault → String
  | missing => "No such file or directory (os error 2)"
  | notDirectory => "Not a directory (os error 20)"
  | isDirectory => "Is a directory (os error 21)"
  | nameTooLong => "File name too long (os error 36)"

/-- The names on the way from the root to a place. -/
abbrev Place := List String

/-- What there is on a machine. -/
structure FileTree where
  /-- The directories below the root. -/
  directories : List Place
  /-- The files with their contents. -/
  files : List (Place × String)

namespace FileTree

/-- Whether there is a directory at a place. -/
def isDirectory (t : FileTree) (p : Place) : Bool := p.isEmpty || t.directories.contains p

/-- Whether there is a file at a place. -/
def isFile (t : FileTree) (p : Place) : Bool := (t.files.lookup p).isSome

/-- Follows one part of a path. -/
def enter (t : FileTree) (p : Place) (part : String) : Except FileFault Place :=
  let child := p ++ [part]
  if !t.isDirectory p then .error .notDirectory
  else if part.isEmpty || part = "." then .ok p
  else if part = ".." then .ok p.dropLast
  else if 255 < part.utf8ByteSize then .error .nameTooLong
  else if t.isDirectory child || t.isFile child then .ok child
  else .error .missing

/-- The place at a path; `here` is where a path begins that does not begin at the root. -/
def resolve (t : FileTree) (here : Place) (path : String) : Except FileFault Place :=
  if path.isEmpty then .error .missing
  else if 4096 ≤ path.utf8ByteSize then .error .nameTooLong
  else
    let parts := (Text.splitAt '/' path.toList).map String.ofList
    parts.foldlM t.enter (if path.startsWith "/" then [] else here)

/-- What stands in the file at a path. -/
def read (t : FileTree) (here : Place) (path : String) : Except FileFault String := do
  let p ← t.resolve here path
  match t.files.lookup p with
  | some content => return content
  | none => throw .isDirectory

/-- A machine with little more than the usual directories. -/
def bare : FileTree :=
  { directories :=
      (["bin", "boot", "dev", "etc", "home", "lib", "lib64", "media", "mnt", "opt", "proc",
        "root", "run", "sbin", "srv", "sys", "tmp", "usr", "var"].map fun name => [name]) ++
      (["fd", "pts", "shm"].map fun name => ["dev", name]) ++
      (["bin", "include", "lib", "local", "sbin", "share", "src"].map fun name =>
        ["usr", name]) ++
      (["cache", "lib", "local", "log", "mail", "opt", "run", "spool", "tmp"].map fun name =>
        ["var", name])
    files :=
      [(["dev", "null"], ""),
       (["etc", "hostname"], "localhost\n"),
       (["etc", "hosts"], "127.0.0.1 localhost\n"),
       (["etc", "passwd"], "root:x:0:0:root:/root:/bin/sh\n")] }

end FileTree

end IngressTls
