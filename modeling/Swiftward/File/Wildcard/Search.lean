import Swiftward.File.FileSystem
import Swiftward.File.Wildcard.Pattern
import Swiftward.File.Path

/-!
# Wildcard search

The paths that match a pattern of several components, directory by directory, as version 0.3 of glob
finds them. It documents that the paths are in alphabetical order: within a directory the names come
in order, and what lies in a directory comes before the names behind it. A component without
wildcards is looked up and need not be listed. A directory that cannot be read counts as empty, as
its errors are passed over.

Two stars go down into directories without a limit of their own. As a path of more than 4096 bytes
cannot be opened, and every step down makes the path longer, the search ends there at the latest.
-/

namespace Swiftward

/-- Whether a text comes before another, or is the same. -/
def inOrder : Text → Text → Bool
  | [], _ => true
  | _ :: _, [] => false
  | c :: s, d :: t => c < d || (c = d && inOrder s t)

/-- A path under a directory. The working directory itself is left out. -/
def childPath (directory name : Text) : Text :=
  if pathParts directory = [.current] then name else joinPath directory name

variable {m : Type → Type} [Monad m] [FileSystem m]

open FileSystem

/-- The names in the directory at a path, in order. -/
def sortedEntries (path : Text) : m (List Text) := do
  return (← entries path).mergeSort inOrder

/-- The names `..` and `.`, where a pattern that begins with a dot matches them. They come first
among the names of a directory. -/
def matchingDots (pattern : Pattern) : List Text :=
  if pattern.head? = some (.char '.') then
    [['.', '.'], ['.']].filter pattern.matchesName
  else []

mutual

/-- The paths below a directory that match the components. -/
def searchBelow (directoriesOnly : Bool) (depth : Nat) (components : List Pattern) (path : Text) :
    m (List Text) :=
  match components with
  | [] => do
    if directoriesOnly then return if ← isDirectory path then [path] else []
    else return [path]
  | pattern :: rest =>
    match pattern.literal? with
    | some name => do
      let next := childPath path name
      let found ← if name = ['.'] ∨ name = ['.', '.'] then isDirectory path else isPresent next
      if found then searchBelow directoriesOnly depth rest next else return []
    | none => do
      if ← isDirectory path then
        let dots ← (matchingDots pattern).mapM fun name =>
          searchBelow directoriesOnly depth rest (joinPath path name)
        let children ← (← sortedEntries path).mapM fun name =>
          searchAt directoriesOnly depth (pattern :: rest) (childPath path name)
        return dots.flatten ++ children.flatten
      else return []
termination_by (depth, components.length, 1)

/-- The paths at or below a path whose last name is to match the first component. -/
def searchAt (directoriesOnly : Bool) (depth : Nat) (components : List Pattern) (path : Text) :
    m (List Text) :=
  match components with
  | [] => return []
  | pattern :: rest =>
    if pattern.isRecursive then
      match depth, rest.dropWhile Pattern.isRecursive with
      | 0, _ => return []
      | depth + 1, rest => do
        let isDir ← isDirectory path
        let own ← match rest with
          | [] => pure (if isDir then [path] else [])
          | next :: rest => searchNamed directoriesOnly depth next rest path
        let below ← if isDir then searchBelow directoriesOnly depth (pattern :: rest) path else pure []
        return own ++ below
    else searchNamed directoriesOnly depth pattern rest path
termination_by (depth, components.length, 0)

/-- The paths at or below a path whose last name is to match a pattern. -/
def searchNamed (directoriesOnly : Bool) (depth : Nat) (pattern : Pattern) (rest : List Pattern)
    (path : Text) : m (List Text) :=
  match fileName? path with
  | none => return []
  | some name =>
    if !pattern.matchesName name then return []
    else match rest with
      | [] => do
        if directoriesOnly then return if ← isDirectory path then [path] else []
        else return [path]
      | next :: more => searchBelow directoriesOnly depth (next :: more) path
termination_by (depth, rest.length, 2)

end

/-- The components of a pattern: the pieces between slashes, where a slash at the end adds none. -/
def patternComponents (pattern : Text) : List Text :=
  match (pieces '/' pattern).reverse with
  | [] :: front => front.reverse
  | backwards => backwards.reverse

/-- The paths that match a pattern, or nothing if it is malformed. -/
def search (pattern : Text) : m (List Text) :=
  match Pattern.parse? pattern, (patternComponents pattern).mapM Pattern.parse? with
  | some _, some components =>
    searchBelow (pattern.getLast? = some '/') 4096 components ['.']
  | _, _ => return []

/-- The files that a list of arguments means. An argument with a `*` or a `?` stands for the files
that match it, any other for itself. -/
def expandPatterns (arguments : List Text) : m (List Text) := do
  let expanded ← arguments.mapM fun argument =>
    if '*' ∈ argument ∨ '?' ∈ argument then do
      (← search argument).filterM isFile
    else return [argument]
  return expanded.flatten

end Swiftward
