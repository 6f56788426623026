import StateScript.CommandLine.Run
import StateScript.Compilation
import StateScript.Files.Tree
import StateScript.Main
import StateScript.Object.Encoding
import StateScript.Object.Listing
import StateScript.Proofs.Bodies
import StateScript.Proofs.BoundPlaces
import StateScript.Proofs.Calls
import StateScript.Proofs.CleanText
import StateScript.Proofs.Evaluation
import StateScript.Proofs.Exhaustion
import StateScript.Proofs.Forest
import StateScript.Proofs.Integrity
import StateScript.Proofs.Interchange
import StateScript.Proofs.Jumps
import StateScript.Proofs.LineEnds
import StateScript.Proofs.Naming
import StateScript.Proofs.Normalising
import StateScript.Proofs.Outcome
import StateScript.Proofs.Peephole
import StateScript.Proofs.Progress
import StateScript.Proofs.Ranges
import StateScript.Proofs.Rendering
import StateScript.Proofs.Storage
import StateScript.Proofs.Switches
import StateScript.Proofs.Unbroken
import StateScript.Token.Dump
import StateScript.Token.Stream
