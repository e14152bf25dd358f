import ConfTree.CommandLine.Run

open ConfTree ConfTree.CommandLine

def usage : String :=
  "usage: conftree [-h] -o OUTPUT [--strict-numbers] [--emitter \x7bblock,pyyaml\x7d] [-v]\n"

/-- The message for a path that the system cannot open. -/
def openMessage (path : Text) (error : IO.Error) : String :=
  let numbered (code : UInt32) (details : String) : String :=
    "[Errno " ++ toString code ++ "] " ++ details ++ ": " ++ String.ofList (Path.quoted path)
  match error with
  | .noFileOrDirectory _ code details => numbered code details
  | .permissionDenied _ code details => numbered code details
  | .inappropriateType _ code details => numbered code details
  | .invalidArgument _ code details => numbered code details
  | .resourceExhausted _ code details => numbered code details
  | other => toString other

def showLines (lines : List Text) : IO Unit := do
  let stream ← IO.getStderr
  for line in lines do
    stream.putStrLn (String.ofList line)

/-- Writes the value of a document to the output file and gives the exit code. -/
def writeDocument (options : Options) (input : Text) : IO UInt32 := do
  let (result, log) := readInput options.settings input
  if options.isVerbose then
    showLines (log.map LogEntry.line)
  match result with
  | .error failure =>
      showLines [failure.message]
      pure 1
  | .ok value =>
      let opened ← (IO.FS.Handle.mk (String.ofList options.output) .write).toBaseIO
      match opened with
      | .error error =>
          showLines ["I/O error: ".toList ++ (openMessage options.output error).toList]
          pure 1
      | .ok handle =>
          match options.format.write? value with
          | none =>
              showLines [Failure.nestedTooDeeply.message]
              pure 1
          | some text =>
              handle.putStr (String.ofList text)
              handle.flush
              if options.isVerbose then
                showLines [(LogEntry.wrote options.output).line]
              pure 0

def main (arguments : List String) : IO UInt32 := do
  match Options.ofArguments (arguments.map String.toList) .later with
  | .error .help =>
      IO.print usage
      pure 0
  | .error .misuse =>
      IO.eprint usage
      pure 2
  | .ok options =>
      let input ← (← IO.getStdin).readToEnd
      writeDocument options input.toList
