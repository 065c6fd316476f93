import CircuitDesk.Bytes

/-!
A directory tree of files with a working directory, where relative paths start. Other directories exist
exactly where files lie below them. A write may be refused, and it may fail when the file has been opened and its old
contents are gone.
-/
namespace CircuitDesk

namespace Files

inductive Cause where
  | noSuchFile
  | notDirectory
  | isDirectory
  | nameTooLong
  | invalidName
  | noSpace
  | quotaExceeded
  | fileTooLarge
  | deviceError
deriving DecidableEq, Repr

def Cause.text : Cause → Bytes
  | noSuchFile => "no such file or directory"
  | notDirectory => "not a directory"
  | isDirectory => "is a directory"
  | nameTooLong => "file name too long"
  | invalidName => "invalid argument"
  | noSpace => "no space left on device"
  | quotaExceeded => "disk quota exceeded"
  | fileTooLarge => "file too large"
  | deviceError => "input/output error"

inductive Action where
  | opening
  | reading
  | writing
  | closing
deriving DecidableEq, Repr

def Action.text : Action → Bytes
  | opening => "open"
  | reading => "read"
  | writing => "write"
  | closing => "close"

structure Error where
  action : Action
  path : Bytes
  cause : Cause
deriving DecidableEq, Repr

def Error.message (e : Error) : Bytes := e.action.text ++ " " ++ e.path ++ ": " ++ e.cause.text

/-- What becomes of a file whose write fails: it keeps the first bytes of the new contents. -/
structure Failure where
  kept : Nat
  atClose : Bool
  cause : Cause
deriving DecidableEq, Repr

def Failure.action (f : Failure) : Action := if f.atClose then .closing else .writing

end Files

structure Files where
  here : List Bytes
  entries : List (List Bytes × Bytes)
  /-- What the device does to the next files that are opened to be written, and nothing to those after. -/
  failures : List (Option Files.Failure)
deriving DecidableEq, Repr

namespace Files

def empty (here : List Bytes) : Files := ⟨here, [], []⟩

def failure? (fs : Files) : Option Failure := fs.failures.head?.join

def contents? (fs : Files) (names : List Bytes) : Option Bytes := fs.entries.lookup names

/-- The places on the way to the working directory, and every place with files below it. -/
def isDirectory (fs : Files) (names : List Bytes) : Bool :=
  names.isPrefixOf fs.here || fs.entries.any fun e => names.isPrefixOf e.1 && names.length < e.1.length

inductive Target where
  | file (names : List Bytes) (contents : Bytes)
  | directory
  | vacant (names : List Bytes)
deriving DecidableEq, Repr

def maxNameLength : Nat := 255

def pathLengthBound : Nat := 4096

def namesOf (path : Bytes) : List Bytes := Bytes.split 47 path

def isAbsolute (path : Bytes) : Bool := path.head? = some 47

inductive Purpose where
  | reading
  | writing
deriving DecidableEq, Repr

/-- Follows names from a directory. A trailing slash leaves empty names at the end, which only a directory can
bear; nothing is written to such a place. -/
def follow (fs : Files) (purpose : Purpose) (here : List Bytes) : List Bytes → Except Cause Target
  | [] => .ok .directory
  | name :: rest =>
    if name = [] ∨ name = [46] then follow fs purpose here rest
    else if name = [46, 46] then follow fs purpose here.dropLast rest
    else if purpose = .writing ∧ rest ≠ [] ∧ rest.all List.isEmpty then .error .isDirectory
    else if maxNameLength < name.length then .error .nameTooLong
    else
      let there := here ++ [name]
      match fs.contents? there with
      | some contents => if rest = [] then .ok (.file there contents) else .error .notDirectory
      | none =>
        if fs.isDirectory there then follow fs purpose there rest
        else if rest = [] then .ok (.vacant there)
        else .error .noSuchFile

def resolve (fs : Files) (purpose : Purpose) (path : Bytes) : Except Cause Target :=
  if (0 : UInt8) ∈ path then .error .invalidName
  else if path = [] then .error .noSuchFile
  else if pathLengthBound ≤ path.length then .error .nameTooLong
  else follow fs purpose (if isAbsolute path then [] else fs.here) (namesOf path)

def read (fs : Files) (path : Bytes) : Except Error Bytes :=
  match fs.resolve .reading path with
  | .error c => .error ⟨.opening, path, c⟩
  | .ok (.file _ contents) => .ok contents
  | .ok .directory => .error ⟨.reading, path, .isDirectory⟩
  | .ok (.vacant _) => .error ⟨.opening, path, .noSuchFile⟩

def put (fs : Files) (names : List Bytes) (contents : Bytes) : Files :=
  { fs with entries := (names, contents) :: fs.entries.filter (·.1 ≠ names) }

inductive Write where
  | refused (e : Error)
  | cutOff (fs : Files) (e : Error)
  | done (fs : Files)
deriving DecidableEq, Repr

namespace Write

def error? : Write → Option Error
  | refused e => some e
  | cutOff _ e => some e
  | done _ => none

def files (before : Files) : Write → Files
  | refused _ => before
  | cutOff fs _ => fs
  | done fs => fs

end Write

/-- Writes a file that has been opened and so has lost its contents. -/
def overwrite (fs : Files) (path : Bytes) (names : List Bytes) (contents : Bytes) : Write :=
  let opened := { fs with failures := fs.failures.tail }
  match fs.failure? with
  | none => .done (opened.put names contents)
  | some f => .cutOff (opened.put names (contents.take f.kept)) ⟨f.action, path, f.cause⟩

def write (fs : Files) (path contents : Bytes) : Write :=
  match fs.resolve .writing path with
  | .error c => .refused ⟨.opening, path, c⟩
  | .ok (.file names _) => fs.overwrite path names contents
  | .ok (.vacant names) => fs.overwrite path names contents
  | .ok .directory => .refused ⟨.opening, path, .isDirectory⟩

def goOn (way : List Bytes) (name : Bytes) : List Bytes :=
  if name = [] ∨ name = [46] then way else if name = [46, 46] then way.dropLast else way ++ [name]

def place (fs : Files) (path : Bytes) : List Bytes :=
  (namesOf path).foldl goOn (if isAbsolute path then [] else fs.here)

def ofList (here : List Bytes) (items : List (Bytes × Bytes)) : Files :=
  items.foldl (fun fs (path, contents) => fs.put (fs.place path) contents) (empty here)

def pathTo (fs : Files) (names : List Bytes) : Bytes :=
  if fs.here.isPrefixOf names then Bytes.join "/" (names.drop fs.here.length)
  else Bytes.ofString "/" ++ Bytes.join "/" names

def changedSince (fs before : Files) : List (Bytes × Bytes) :=
  (fs.entries.filter fun e => before.contents? e.1 ≠ some e.2).map fun e => (fs.pathTo e.1, e.2)

end Files

end CircuitDesk
