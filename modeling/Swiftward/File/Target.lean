import Swiftward.File.Path

/-!
# Sources and targets

Which files are sources, and the file that each is converted to: the one with the extension `swift`
beside it. Different sources may have the same target. A header then gives way to the source it
belongs to, and any other clash is refused.
-/

namespace Swiftward

/-- The extensions of sources. -/
def sourceExtensions : List String := ["m", "mm", "h"]

/-- Whether a path names an Objective-C source. -/
def isSource (path : Text) : Bool :=
  (extension? path).any fun ext => sourceExtensions.any (·.toList = ext)

/-- Whether a path names a header. -/
def isHeader (path : Text) : Bool := extension? path = some ['h']

/-- The path with the extension `swift`. Whatever follows the file name is left out. A name that
is two dots and an extension only loses the extension. -/
def swiftPath (path : Text) : Text :=
  match NamedPath.ofPath? path with
  | none => path
  | some ⟨lead, name, hasTrail⟩ =>
    match splitExtension? name with
    | none => lead ++ name ++ ".swift".toList
    | some (stem, _) =>
      if stem = ['.'] ∧ !hasTrail then lead ++ "..".toList
      else lead ++ stem ++ ".swift".toList

/-! ### Clashes -/

/-- A target, as its first source spells it, and all its sources. -/
structure TargetGroup where
  target : Text
  sources : List Text
  deriving DecidableEq, Repr

namespace TargetGroup

/-- One more source, in the group of its target or in a new one. -/
def add (groups : List TargetGroup) (source : Text) : List TargetGroup :=
  let target := swiftPath source
  match groups with
  | [] => [⟨target, [source]⟩]
  | group :: rest =>
    if pathParts group.target = pathParts target then
      { group with sources := group.sources ++ [source] } :: rest
    else group :: add rest source

/-- The sources by target. -/
def ofSources (sources : List Text) : List TargetGroup := sources.foldl add []

/-- The sources that a group goes on with: of several, the headers only if there is nothing
else. -/
def candidates (group : TargetGroup) : List Text :=
  match group.sources with
  | [source] => [source]
  | sources =>
    match sources.filter (!isHeader ·) with
    | [] => sources
    | others => others

end TargetGroup

/-- The one source for each target, or the first group for which there is more than one. -/
def resolveTargets (sources : List Text) : Except TargetGroup (List Text) :=
  (TargetGroup.ofSources sources).mapM fun group =>
    match group.candidates with
    | [source] => .ok source
    | candidates => .error { group with sources := candidates }

end Swiftward
