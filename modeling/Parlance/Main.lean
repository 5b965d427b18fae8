import Parlance.CommandLine.Run

/-! The command line program. -/

open Parlance

/-- The files among these paths that can be read, each under the path as given and under its direct
path. -/
def readFolder (paths : List String) : IO Folder :=
  paths.foldlM (fun folder (path : String) => do
    try
      let content ← IO.FS.readFile path
      pure ((plainPath path, content) :: (directPath path, content) :: folder)
    catch _ => pure folder) []

def main (arguments : List String) : IO UInt32 := do
  let folder ← readFolder (CommandLine.wanted arguments)
  let exit := CommandLine.run folder arguments
  IO.print exit.output
  match exit.report with
  | some report => IO.eprint report
  | none => pure ()
  pure (UInt32.ofNat exit.status)
