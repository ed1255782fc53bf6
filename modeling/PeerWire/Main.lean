import PeerWire.CommandLine

/-!
# The program

The outermost layer reads the file of digests, runs, writes the log and the file, and reports a
failure. It has no way into a network, so that no address can be reached from here.
-/

namespace PeerWire

/-- Why the system refused something, with the number it gives for that. -/
def systemReason : IO.Error → String
  | .noFileOrDirectory _ code details => details ++ " (os error " ++ toString code ++ ")"
  | .permissionDenied _ code details => details ++ " (os error " ++ toString code ++ ")"
  | .inappropriateType _ code details => details ++ " (os error " ++ toString code ++ ")"
  | error => toString error

/-- Reports a failure, and that the run has failed. -/
def reportFailure (failure : CommandLine.Failure) : IO UInt32 := do
  failure.lines.forM IO.eprintln
  return 1

/-- Writes the file, and tells that it was written. -/
def writeContent (arguments : CommandLine.Arguments) (content : Bytes) : IO UInt32 := do
  try
    IO.FS.writeBinFile arguments.outputFile ⟨content.toArray⟩
    IO.eprintln (CommandLine.Entry.wrote content.length arguments.outputFile).line
    return 0
  catch error =>
    reportFailure ⟨"unable to write " ++ arguments.outputFile, some (systemReason error)⟩

/-- Runs with arguments that were read. -/
def execute (arguments : CommandLine.Arguments) : IO UInt32 := do
  let stored ←
    try
      let bytes ← IO.FS.readBinFile arguments.piecesFile
      pure (Except.ok bytes.toList)
    catch error => pure (Except.error (systemReason error))
  let source ← IO.stdGenRef.get
  let report := CommandLine.run (PeerId.choose source).1 Network.unreachable arguments stored
  report.log.forM fun entry ↦ IO.eprintln entry.line
  match report.result with
  | .error failure => reportFailure failure
  | .ok content => writeContent arguments content

end PeerWire

/-- Runs with the arguments of the command line. -/
def main (arguments : List String) : IO UInt32 :=
  match PeerWire.CommandLine.read arguments with
  | .error failure => PeerWire.reportFailure failure
  | .ok arguments => PeerWire.execute arguments
