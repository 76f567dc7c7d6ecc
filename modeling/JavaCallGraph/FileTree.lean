import JavaCallGraph.Error
import JavaCallGraph.Text.Utf8

/-!
# File trees

The files and directories below the working directory of a run. A place is the list of names that
lead to it from the working directory, which is the empty list; the directories above that one are
lists of `..`, and the root directory is the list of `/` alone. The order of places is that of a
walk that enters each directory before it goes on, with names in the order of their texts.
-/

namespace JavaCallGraph

/-- The names that lead to a file or directory. -/
abbrev Place := List String

inductive FileEntry where
  | dir
  | file (bytes : ByteArray)

namespace Place

def root : Place := ["/"]

/-- The working directory or one above it. -/
def isAbove (place : Place) : Bool := place.all (· == "..") || place == root

def parent (place : Place) : Place :=
  if place == root then root else if place.isAbove then place ++ [".."] else place.dropLast

end Place

structure FileTree where
  entries : Std.ExtTreeMap Place FileEntry := ∅

namespace FileTree

variable (t : FileTree)

def entryAt? (place : Place) : Option FileEntry :=
  if place.isAbove then some .dir else t.entries[place]?

def isDirAt (place : Place) : Bool :=
  match t.entryAt? place with
  | some .dir => true
  | _ => false

def existsAt (place : Place) : Bool := (t.entryAt? place).isSome

def bytesAt? (place : Place) : Option ByteArray :=
  match t.entryAt? place with
  | some (.file bytes) => some bytes
  | _ => none

/-! ### Paths -/

/-- How many bytes a path has at most. -/
def maxPathSize : Nat := 4095

/-- How many bytes a name has at most. -/
def maxNameSize : Nat := 255

/-- The path can be given to a file system at all. -/
def isPath (path : String) : Bool := path.utf8ByteSize ≤ maxPathSize && !path.contains '\x00'

/-- The place that a path starts from, and the parts of it between slashes. The empty path leads
nowhere. -/
def pathParts? (path : String) : Option (Place × List String) :=
  if path.isEmpty || !isPath path then none
  else some (if path.front? == some '/' then Place.root else [],
    (path.toList.splitOn '/').map String.ofList)

/-- Follows the parts of a path. Every part but the first starts at a directory. -/
def follow (place : Place) : List String → Option Place
  | [] => some place
  | part :: rest =>
    if t.isDirAt place then
      if part == "" || part == "." then follow place rest
      else if part == ".." then follow place.parent rest
      else follow (place ++ [part]) rest
    else none

/-- The place that a path leads to, if there is something. -/
def locate? (path : String) : Option Place := do
  let (start, parts) ← pathParts? path
  let place ← t.follow start parts
  if t.existsAt place then some place else none

def exists? (path : String) : Bool := (t.locate? path).isSome

def isDir (path : String) : Bool := (t.locate? path).any t.isDirAt

def bytes? (path : String) : Option ByteArray := t.locate? path >>= t.bytesAt?

def isFile (path : String) : Bool := (t.bytes? path).isSome

/-- The text of a file. -/
def readText (path : String) : Result String :=
  match t.bytes? path with
  | none => .error (.io path "not a readable file")
  | some bytes =>
    match Utf8.decode? bytes with
    | some text => .ok text
    | none => .error (.io path "not valid UTF-8")

/-! ### Changes -/

def put (place : Place) (entry : FileEntry) : FileTree := ⟨t.entries.insert place entry⟩

/-- Follows a path and makes the directories that are missing. The path leads nowhere if a file is
in the way or a name is too long, or at the root directory, where nothing is made. What was made
before stays. -/
def makeDirs (t : FileTree) (place : Place) : List String → FileTree × Option Place
  | [] => (t, some place)
  | part :: rest =>
    if part == "" || part == "." then makeDirs t place rest
    else if part == ".." then makeDirs t place.parent rest
    else
      let next := place ++ [part]
      match t.entryAt? next with
      | some .dir => makeDirs t next rest
      | some (.file _) => (t, none)
      | none =>
        if place == Place.root || maxNameSize < part.utf8ByteSize then (t, none)
        else makeDirs (t.put next .dir) next rest

/-- Makes the directory of a path with all directories above it. If the path ends in a dot, the
directory itself must be there when those above it are made. -/
def createDirs (path : String) : FileTree × Option Place :=
  match pathParts? path with
  | none => (t, none)
  | some (start, parts) =>
    let names := parts.filter fun part => part != "" && part != "."
    let last := names.getLast?.toList
    match t.makeDirs start names.dropLast with
    | (made, none) => (made, none)
    | (made, some place) =>
      if (parts.filter (· != "")).getLast? == some "." then
        (made, (made.follow place last).filter made.isDirAt)
      else made.makeDirs place last

/-- Makes the directory of a path. The empty path stands for the working directory. Also a failure
can leave new directories behind. -/
def createDirAll (path : String) : FileTree × Result Place :=
  if path.isEmpty then (t, .ok [])
  else
    match t.createDirs path with
    | (made, some place) => (made, .ok place)
    | (made, none) => (made, .error (.io path "not a directory"))

/-- Adds a file with the directories above it, unless there is a directory in its place. -/
def addFile (path : String) (bytes : ByteArray) : FileTree :=
  match pathParts? path with
  | none => t
  | some (start, parts) =>
    match t.makeDirs start parts.dropLast with
    | (made, none) => made
    | (made, some dir) =>
      let place := dir ++ [parts.getLastD ""]
      if made.isDirAt place then made else made.put place (.file bytes)

def addDir (path : String) : FileTree := (t.createDirAll path).1

/-- A path one name longer. -/
def join (path name : String) : String :=
  if path.isEmpty || path.endsWith "/" then path ++ name else path ++ "/" ++ name

end FileTree

end JavaCallGraph
