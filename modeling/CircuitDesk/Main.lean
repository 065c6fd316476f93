import CircuitDesk.CommandLine
import CircuitDesk.Viewer.View

namespace CircuitDesk.Main

def toBytes (b : ByteArray) : Bytes := b.toList

def toByteArray (b : Bytes) : ByteArray := ⟨b.toArray⟩

def toText (b : Bytes) : String := String.ofList (Bytes.chars b)

def mentioned (arg : String) : List String :=
  let value := (CommandLine.splitEquals (Bytes.ofString arg)).2
  [arg, String.ofList (arg.toList.drop 2)] ++ value.toList.map toText

def readFile? (path : String) : IO (Option Bytes) := do
  try
    return some (toBytes (← IO.FS.readBinFile path))
  catch _ => return none

def loadFiles (args : List String) : IO Files := do
  let here := (Files.empty []).place (Bytes.ofString (← IO.currentDir).toString)
  let mut found : List (Bytes × Bytes) := []
  for path in args.flatMap mentioned do
    if let some contents ← readFile? path then
      found := (Bytes.ofString path, contents) :: found
  return Files.ofList here found

def writeFiles (after before : Files) : IO Unit :=
  for (path, contents) in after.changedSince before do
    IO.FS.writeBinFile (toText path) (toByteArray contents)

def processors : IO Nat := do
  try
    return (← IO.FS.lines "/proc/cpuinfo").countP (·.startsWith "processor")
  catch _ => return 1

def screen : Message := .size 120 40

partial def viewLoop (v : Viewer) (fs : Files) : IO Unit := do
  (← IO.getStdout).write (toByteArray (Bytes.unlines v.view ++ [Bytes.newline]))
  let line ← (← IO.getStdin).getLine
  if line.isEmpty then return
  let step := v.update fs (.key (.ofText (Bytes.ofString (String.ofList (line.toList.filter (· ≠ '\n'))))))
  writeFiles step.files fs
  if !step.quit then viewLoop step.viewer step.files

def run (args : List String) : IO UInt32 := do
  let files ← loadFiles args
  let base := Settings.standard (max 1 (← processors))
  match CommandLine.run files (args.map Bytes.ofString) base with
  | .viewer settings path text =>
    viewLoop ((Viewer.new path text settings).update files screen).viewer files
    return 0
  | .done o =>
    (← IO.getStdout).write (toByteArray o.stdout)
    (← IO.getStderr).write (toByteArray o.stderr)
    writeFiles o.files files
    return if o.failure.isSome then 1 else 0

end CircuitDesk.Main

def main (args : List String) : IO UInt32 := CircuitDesk.Main.run args
