import AnswerSet.Operation
import AnswerSet.Transform.Transformer
import AnswerSet.Tree.Fingerprint
import AnswerSet.Proofs.Tree
import AnswerSet.Proofs.Store.Unfold
import AnswerSet.Proofs.Pool.Alternatives
import AnswerSet.Proofs.Store.Plant
import AnswerSet.Proofs.Json.RoundTrip
import AnswerSet.Proofs.Client
import AnswerSet.Proofs.Store.Order
import AnswerSet.Proofs.Store.Copy
import AnswerSet.Proofs.Transform.BottomUp
import AnswerSet.Proofs.Store.Scripts
import AnswerSet.Proofs.Store.Visibility
import AnswerSet.Proofs.Visit
import AnswerSet.Proofs.Transform.TopDown
import AnswerSet.Proofs.Pool.Product
import AnswerSet.Proofs.Pool.Regions
import AnswerSet.Proofs.Tree.Neutral
import AnswerSet.Proofs.Store.Congruence
import AnswerSet.Proofs.Pool.Normal
import AnswerSet.Proofs.Store.Growth
import AnswerSet.Proofs.Pool.Sharing
import AnswerSet.Proofs.Transform.Growth
import AnswerSet.Proofs.Acyclic
import AnswerSet.Proofs.Program
import AnswerSet.Proofs.Pool.Count
import AnswerSet.Proofs.Transform.Step
import AnswerSet.Proofs.Store.Walk
import AnswerSet.Proofs.Tree.Printable
import AnswerSet.Proofs.Symbol.Order
import AnswerSet.Proofs.Store.Update
import AnswerSet.Proofs.Json.Decode
import AnswerSet.Proofs.Json.Text
import AnswerSet.Proofs.Text.Quoted
import AnswerSet.Proofs.Pool.Enumeration
import AnswerSet.Proofs.Symbol.Text
import AnswerSet.Proofs.Lines
