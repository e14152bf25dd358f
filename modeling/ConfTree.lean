import ConfTree.Main
import ConfTree.Proofs.BlockLoop
import ConfTree.Proofs.ClampedNarrowing
import ConfTree.Proofs.ConcatGrouping
import ConfTree.Proofs.ConstantTable
import ConfTree.Proofs.DeclarationOutcome
import ConfTree.Proofs.ImplicitKey
import ConfTree.Proofs.NumberRereading
import ConfTree.Proofs.OperandReading
import ConfTree.Proofs.QuotedCode
import ConfTree.Proofs.RunLog
import ConfTree.Proofs.SkippedGap
import ConfTree.Proofs.StackAccount
import ConfTree.Proofs.TextRereading
import ConfTree.Proofs.WalkProgress
