import LispReader.Directory
import LispReader.Main
import LispReader.Proofs.Recognition
import LispReader.Proofs.RoundTrip
import LispReader.Proofs.ViablePrefix
import LispReader.Proofs.Locality
import LispReader.Proofs.Tiling
import LispReader.Proofs.Concatenation
import LispReader.Proofs.NestingLimit
import LispReader.Proofs.Wanted
import LispReader.Proofs.AlternativeOrder
import LispReader.Proofs.Formatting
import LispReader.Proofs.Insertion
import LispReader.Proofs.Termination
import LispReader.Proofs.Streaming
import LispReader.Proofs.Unterminated
import LispReader.Proofs.Aborts
import LispReader.Proofs.FurthestFailure
import LispReader.Proofs.Registry
import LispReader.Proofs.RuleMap
import LispReader.Proofs.ReachableSlots
import LispReader.Proofs.Utf8.Decoding
import LispReader.Proofs.InterpreterLine
import LispReader.Proofs.SingleForm
import LispReader.Proofs.Modes
import LispReader.Proofs.LoopGuards
import LispReader.Proofs.LongestAtom
import LispReader.Proofs.StringEnds
import LispReader.Proofs.MaximalTrivia
import LispReader.Proofs.LinesAndColumns
import LispReader.Proofs.MergingOrder
import LispReader.Proofs.WrittenContent
import LispReader.Proofs.LosslessOutlines
import LispReader.Proofs.LimitedSinks
