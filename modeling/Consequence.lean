import Consequence.Context.Step
import Consequence.Main
import Consequence.Proofs.Additions
import Consequence.Proofs.Bytes
import Consequence.Proofs.Classification
import Consequence.Proofs.Connectives
import Consequence.Proofs.CounterModels
import Consequence.Proofs.Forking
import Consequence.Proofs.ModelText
import Consequence.Proofs.Nesting
import Consequence.Proofs.Numeral
import Consequence.Proofs.Outline
import Consequence.Proofs.Parentheses
import Consequence.Proofs.Partial
import Consequence.Proofs.Placement
import Consequence.Proofs.Renaming
import Consequence.Proofs.Reordering
import Consequence.Proofs.Shuffle
import Consequence.Proofs.Stream
import Consequence.Proofs.Symbols
import Consequence.Proofs.Transcript
import Consequence.Proofs.Work
import Consequence.Sentence.Outline
