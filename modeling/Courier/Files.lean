import Courier.Text.Blank
import Courier.Text.Utf8

/-! A directory tree of files with known contents, and reading from it by path. -/
namespace Courier

/-- Files by their path below the current directory; a directory has no content. -/
structure Files where
  entries : List (String × Option Bytes)

namespace Files

inductive ReadError where
  | notFound
  | notDirectory
  | isDirectory
  | nulInName
  | notUtf8
  deriving DecidableEq, Repr

def ReadError.message : ReadError → String
  | .notFound => "No such file or directory (os error 2)"
  | .notDirectory => "Not a directory (os error 20)"
  | .isDirectory => "Is a directory (os error 21)"
  | .nulInName => "file name contained an unexpected NUL byte"
  | .notUtf8 => "stream did not contain valid UTF-8"

inductive Node where
  | file (content : Bytes)
  | directory

/-- The names on a path, without those that stay where they are. -/
def names (path : String) : List String :=
  (Text.parts '/' path).filter fun name => !name.isEmpty && name != "."

def node (files : Files) (place : List String) : Option Node :=
  match files.entries.find? (fun (path, _) => names path == place) with
  | some (_, some content) => some (.file content)
  | some (_, none) => some .directory
  | none =>
    if place.isEmpty || files.entries.any (fun (path, _) => place.isPrefixOf (names path)) then
      some .directory
    else none

/-- Follows names from a place on; only a directory can be gone through. Above the current
directory there is another one, of which nothing is known but that it is there. -/
def walk (files : Files) (place : List String) : List String → Except ReadError (List String × Node)
  | [] =>
    match files.node place with
    | some n => .ok (place, n)
    | none => .error .notFound
  | name :: rest =>
    match files.node place with
    | none => .error .notFound
    | some (.file _) => .error .notDirectory
    | some .directory =>
      if name != ".." then walk files (place ++ [name]) rest
      else if place.isEmpty then outside rest
      else walk files place.dropLast rest
where
  outside : List String → Except ReadError (List String × Node)
    | [] => .ok ([], .directory)
    | _ :: _ => .error .notFound

def read (files : Files) (path : String) : Except ReadError Bytes :=
  if path.toList.contains '\x00' then .error .nulInName
  else if path.isEmpty then .error .notFound
  else if path.startsWith "/" && !(names path).isEmpty then .error .notFound
  else
    match files.walk [] (names path) with
    | .error e => .error e
    | .ok (_, .directory) => .error .isDirectory
    | .ok (_, .file content) =>
      if path.endsWith "/" then .error .notDirectory else .ok content

def readText (files : Files) (path : String) : Except ReadError String :=
  match files.read path with
  | .error e => .error e
  | .ok content =>
    match Utf8.decode? content with
    | none => .error .notUtf8
    | some text => .ok text

end Files

end Courier
