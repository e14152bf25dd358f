import ConfTree.Block.Writer
import ConfTree.CommandLine.Arguments
import ConfTree.CommandLine.Directory
import ConfTree.Styled.Document

namespace ConfTree

namespace CommandLine

/-- The text of a value in a format, none if the format cannot hold it. -/
def Format.write? (format : Format) (value : Value) : Option Text :=
  match format with
  | .block => some (Block.text value 0)
  | .styled => Styled.text? value

/-- A text with its line ends, of whatever kind, made newlines. -/
def normalizeNewlines : Text → Text
  | [] => []
  | '\r' :: '\n' :: rest => '\n' :: normalizeNewlines rest
  | '\r' :: rest => '\n' :: normalizeNewlines rest
  | c :: rest => c :: normalizeNewlines rest

inductive LogEntry where
  | bound (name : Text) (kind : Kind)
  | parsed (kind : Kind)
  | wrote (path : Text)

/-- A line of the log behind its time. -/
def LogEntry.line : LogEntry → Text
  | .bound name kind =>
      "config_parser - DEBUG - Bound constant ".toList ++ name ++ " to ".toList ++ kind.word
  | .parsed kind => "config_parser - DEBUG - Parsed result of kind ".toList ++ kind.word
  | .wrote path => "main - INFO - Wrote ".toList ++ path

inductive Failure where
  | refused (error : ReadError) (cursor : Position)
  | notOpened (error : OpenError) (path : Text)
  | nestedTooDeeply
deriving DecidableEq

def Failure.message : Failure → Text
  | .refused error cursor => "Syntax error: ".toList ++ error.reportAt cursor
  | .notOpened error path => "I/O error: ".toList ++ error.message path
  | .nestedTooDeeply => "Error: value nested too deeply for the pyyaml emitter".toList

/-- The wording of a failure as far as it does not depend on the limit of nesting. -/
def Failure.outline : Failure → Text
  | .refused error _ => "Syntax error: ".toList ++ error.report
  | failure => failure.message

/-- What a run leaves: the files, the log in order, and the failure if there is one. -/
structure Report where
  files : Directory
  log : List LogEntry
  failure? : Option Failure

namespace Report

def exitCode (report : Report) : Nat :=
  if report.failure?.isSome then 1 else 0

def ofLines (lines : List Text) : Text :=
  lines.flatMap fun line => line ++ ['\n']

/-- What is shown beside the files: the log if it is asked for, and the failure in a wording. -/
def worded (wording : Failure → Text) (report : Report) (isVerbose : Bool) : Text :=
  ofLines (if isVerbose then report.log.map LogEntry.line else []) ++
    ofLines (report.failure?.toList.map wording)

/-- What is shown beside the files. -/
def shown : Report → Bool → Text :=
  worded Failure.message

/-- What is shown beside the files, as far as it does not depend on the limit of nesting. -/
def errorText : Report → Bool → Text :=
  worded Failure.outline

end Report

def boundEntries (constants : Constants) : List LogEntry :=
  constants.reverse.map fun binding => .bound binding.1 binding.2.kind

/-- What reading the input gives: the value or the failure, and the log of it. -/
def readInput (settings : Settings) (input : Text) : Except Failure Value × List LogEntry :=
  match readDocument settings [] (normalizeNewlines input) with
  | .ok value session => (.ok value, boundEntries session.constants ++ [.parsed value.kind])
  | .error error session =>
      (.error (.refused error session.cursor.position), boundEntries session.constants)

/-- Runs the program on an input in a directory.  The output file is opened after the input is
read and before the value is written, so it is empty if the format cannot hold the value. -/
def run (options : Options) (input : Text) (directory : Directory) : Report :=
  match readInput options.settings input with
  | (.error failure, log) => ⟨directory, log, some failure⟩
  | (.ok value, log) =>
      match Path.openForWriting directory options.output with
      | .error error => ⟨directory, log, some (.notOpened error options.output)⟩
      | .ok name =>
          match options.format.write? value with
          | none => ⟨directory.write name [], log, some .nestedTooDeeply⟩
          | some text => ⟨directory.write name text, log ++ [.wrote options.output], none⟩

end CommandLine

end ConfTree
