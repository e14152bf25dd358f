import ConfTree.CommandLine.Run
import ConfTree.Proofs.RefusedStep

namespace ConfTree.CommandLine

namespace Directory

end Directory

namespace Path

variable {directory : Directory} {place next : Place} {part path name : Text}

end Path

namespace Directory

end Directory

structure Outcome where
  exitCode : Nat
  files : Directory
  errorText : Text

/-- The two texts of a report differ only where literals are nested too deeply. -/
theorem Report.errorText_eq_shown {report : Report}
    (h : ∀ cursor, report.failure? ≠ some (.refused .nestingTooDeep cursor)) :
    report.errorText = report.shown := by
  have hwording : ∀ failure, report.failure? = some failure →
      failure.outline = failure.message := by
    intro failure hfailure
    cases failure with
    | refused error cursor =>
        cases error with
        | nestingTooDeep => exact absurd hfailure (h cursor)
        | _ => rfl
    | _ => rfl
  funext isVerbose
  cases hfailure : report.failure? with
  | none => simp only [errorText, shown, worded, hfailure, Option.toList_none, List.map_nil]
  | some failure =>
      simp only [errorText, shown, worded, hfailure, Option.toList_some, List.map_cons,
        hwording failure hfailure, List.map_nil]

section

variable {convention : Convention} {arguments : List Text} {options : Options}

variable {input : Text} {directory : Directory} {value : Value} {left : Session} {name : Text}

variable (hread : readDocument options.settings [] (normalizeNewlines input) = .ok value left)

include hread

end

end ConfTree.CommandLine
