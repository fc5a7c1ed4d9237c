import Swiftward.CommandLine.Run

/-!
# The executable

The program on the real file system and the standard streams.
-/

namespace Swiftward

/-- The fault that an error of the operating system is. -/
def faultOf : IO.Error → Fault
  | .noFileOrDirectory .. => .notFound
  | .inappropriateType _ 20 _ => .notDirectory
  | .inappropriateType _ 21 _ => .isDirectory
  | error => .other error.toString.toList

/-- A failure of an action as a value. -/
def faultOrValue {α : Type} (action : IO α) : IO (Except Fault α) := do
  try return .ok (← action)
  catch error => return .error (faultOf error)

/-- The files below the working directory. -/
instance : FileSystem IO where
  read path := faultOrValue (IO.FS.readBinFile (String.ofList path))
  write path content := faultOrValue (IO.FS.writeBinFile (String.ofList path) content)
  isPresent path := do ((← IO.currentDir) / String.ofList path).pathExists
  isDirectory path := do ((← IO.currentDir) / String.ofList path).isDir
  isFile path := do
    let place := (← IO.currentDir) / String.ofList path
    return (← place.pathExists) && !(← place.isDir)
  entries path := do
    let found ← faultOrValue ((← IO.currentDir) / String.ofList path).readDir
    match found with
    | .ok entries => return entries.toList.map (·.fileName.toList)
    | .error _ => return []

/-- All that is left to read from a stream. -/
partial def readAll (stream : IO.FS.Stream) (soFar : ByteArray) : IO ByteArray := do
  let chunk ← stream.read 65536
  if chunk.isEmpty then return soFar else readAll stream (soFar ++ chunk)

end Swiftward

open Swiftward in
/-- Runs the program. -/
def main (arguments : List String) : IO UInt32 := do
  let stdin ← IO.getStdin
  let input : Input IO := ⟨← stdin.isTty, readAll stdin .empty⟩
  let outcome ← runProgram (arguments.map String.toList) input
  let stdout ← IO.getStdout
  stdout.putStr (String.ofList outcome.output)
  stdout.flush
  (← IO.getStderr).putStr (String.ofList outcome.errorText)
  return outcome.exitCode.toUInt32
