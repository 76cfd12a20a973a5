import Credal.Text.Quoted

/-!
# Files

What a program sees of the files around it: what stands at each path. A path is looked up in its
normal form, without empty parts and parts that are a single point; a part of two points leads to
the directory above.

* `normalPath`: the normal form;
* `Entry`, `Files`: what stands at a path;
* `Place`, `walk`: a place in a system of files, and where a path leads from one;
* `Files.ofList`: given files in a working directory, in a system that has the usual directories;
* `Files.contains`, `Files.read`: whether anything stands at a path, and its text.
-/

namespace Credal

/-! ## 1. Paths -/

/-- The parts of a path. -/
def pathParts (path : String) : List String :=
  (path.splitOn "/").filter fun part => part != "" && part != "."

/-- What a path starts with; two slashes, and no more, are kept. -/
def pathRoot (path : String) : String :=
  match (path.toList.takeWhile (· = '/')).length with
  | 0 => ""
  | 2 => "//"
  | _ => "/"

/-- The normal form of a path; a path without parts is the current directory. -/
def normalPath (path : String) : String :=
  match pathRoot path, pathParts path with
  | "", [] => "."
  | root, parts => root ++ "/".intercalate parts

/-- What stands at a path. -/
inductive Entry where
  | text (content : String)
  | directory
  | missing
  /-- The path goes on after a file. -/
  | beyondFile
  /-- The path or one of its parts has too many bytes. -/
  | tooLong
  /-- The path holds the character zero. -/
  | unspeakable
  deriving DecidableEq, Repr

/-- What stands at each normal path. -/
abbrev Files := String → Entry

/-! ## 2. Systems -/

/-- A place in a system of files: the parts of its path from the root, the last one first. -/
abbrev Place := List String

/-- The number of bytes that a part of a path has at most. -/
def partLimit : Nat := 255

/-- The number of bytes that a path has at most. -/
def pathLimit : Nat := 4095

/-- What stands where a path leads from a place. A part is looked up only in a directory. -/
def walk (entry : Place → Entry) : Place → List String → Entry
  | place, [] => entry place
  | place, part :: rest =>
    match entry place with
    | .directory =>
      if part = ".." then walk entry place.tail rest
      else if partLimit < part.utf8ByteSize then .tooLong
      else walk entry (part :: place) rest
    | .text _ => .beyondFile
    | other => other

/-- The directories that every system has below its root. -/
def usualDirectories : List String :=
  ["bin", "boot", "dev", "etc", "home", "lib", "media", "mnt", "opt", "proc", "root", "run",
    "sbin", "srv", "sys", "tmp", "usr", "var"]

/-- The working directory. No path has its name as a part. -/
def workingDirectory : Place := ["/", "tmp"]

/-- What stands at the places of a system with the given files. -/
def entryIn (texts : List (Place × String)) (place : Place) : Entry :=
  match texts.lookup place with
  | some text => .text text
  | none =>
    let directories := workingDirectory :: usualDirectories.map ([·]) ++ texts.map (·.1)
    if directories.any place.isSuffixOf then .directory else .missing

namespace Files

/-- The files with the given paths and texts in the working directory. -/
def ofList (texts : List (String × String)) : Files :=
  let texts := texts.map fun (path, text) => ((pathParts path).reverse ++ workingDirectory, text)
  let entry := entryIn ((["null", "dev"], "") :: texts)
  fun path =>
    if path.contains '\x00' then .unspeakable
    else if pathLimit < path.utf8ByteSize then .tooLong
    else walk entry (if path.startsWith "/" then [] else workingDirectory) (pathParts path)

end Files

/-! ## 3. Reading -/

/-- Why no text is read. -/
inductive FileFault where
  | directory (path : String)
  | missing (path : String)
  | beyondFile (path : String)
  | tooLong (path : String)
  | unspeakable
  deriving DecidableEq, Repr

/-- The message of a fault. -/
def FileFault.message : FileFault → String
  | .missing path => "[Errno 2] No such file or directory: " ++ Text.quoted path
  | .beyondFile path => "[Errno 20] Not a directory: " ++ Text.quoted path
  | .directory path => "[Errno 21] Is a directory: " ++ Text.quoted path
  | .tooLong path => "[Errno 36] File name too long: " ++ Text.quoted path
  | .unspeakable => "embedded null byte"

namespace Files

/-- Whether anything stands at a path, which must not be too long. -/
def contains (files : Files) (path : String) : Except FileFault Bool :=
  match files (normalPath path) with
  | .text _ | .directory => .ok true
  | .missing | .beyondFile | .unspeakable => .ok false
  | .tooLong => .error (.tooLong (normalPath path))

/-- The text of the file at a path. -/
def read (files : Files) (path : String) : Except FileFault String :=
  match files (normalPath path) with
  | .text content => .ok content
  | .directory => .error (.directory (normalPath path))
  | .missing => .error (.missing (normalPath path))
  | .beyondFile => .error (.beyondFile (normalPath path))
  | .tooLong => .error (.tooLong (normalPath path))
  | .unspeakable => .error .unspeakable

end Files

end Credal
