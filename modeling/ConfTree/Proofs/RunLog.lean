import ConfTree.Proofs.ArgumentReading
import ConfTree.Proofs.DocumentProgress
import ConfTree.Proofs.RunOutcome

namespace ConfTree.CommandLine

open SessionReading Document

end ConfTree.CommandLine
