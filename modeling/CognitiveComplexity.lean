import CognitiveComplexity.Main
import CognitiveComplexity.Proofs.Bracket.Stream
import CognitiveComplexity.Proofs.Token.Layout
import CognitiveComplexity.Proofs.Scanner.Safety
import CognitiveComplexity.Proofs.Score
import CognitiveComplexity.Proofs.Function.Extension
import CognitiveComplexity.Proofs.Function.Independence
import CognitiveComplexity.Proofs.Function.LetterCase
import CognitiveComplexity.Proofs.Function.LineEnding
import CognitiveComplexity.Proofs.Report.Scores
import CognitiveComplexity.Proofs.Score.Step
import CognitiveComplexity.Proofs.Function.Enclosing
import CognitiveComplexity.Proofs.Path.Components
import CognitiveComplexity.Proofs.Path.Walk
import CognitiveComplexity.Proofs.Command.Failure
import CognitiveComplexity.Proofs.Function.TryBlock
import CognitiveComplexity.Proofs.Score.Unguarded
import CognitiveComplexity.Proofs.Function.OwnName
import CognitiveComplexity.Proofs.Token.Terminator
import CognitiveComplexity.Proofs.Token.Munch
import CognitiveComplexity.Proofs.Token.Segment
import CognitiveComplexity.Proofs.Report.Ranking
import CognitiveComplexity.Proofs.Function.Window
