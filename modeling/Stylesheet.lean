import Stylesheet.Compiler
import Stylesheet.Config.Basic
import Stylesheet.Description
import Stylesheet.Node.Equality
import Stylesheet.Proofs.Agreement
import Stylesheet.Proofs.Anatomy
import Stylesheet.Proofs.Binding
import Stylesheet.Proofs.Calculation
import Stylesheet.Proofs.Chains
import Stylesheet.Proofs.ColorText
import Stylesheet.Proofs.Comparison
import Stylesheet.Proofs.Compilation
import Stylesheet.Proofs.DepthBalance
import Stylesheet.Proofs.DepthCounter
import Stylesheet.Proofs.Erasure
import Stylesheet.Proofs.EvaluateFirst
import Stylesheet.Proofs.ExactValues
import Stylesheet.Proofs.Expansion
import Stylesheet.Proofs.Faults
import Stylesheet.Proofs.Finished
import Stylesheet.Proofs.Flattening
import Stylesheet.Proofs.Fuel
import Stylesheet.Proofs.Grammar
import Stylesheet.Proofs.Headers
import Stylesheet.Proofs.IdleDefinitions
import Stylesheet.Proofs.ImportRounds
import Stylesheet.Proofs.ImportWalk
import Stylesheet.Proofs.Inclusion
import Stylesheet.Proofs.Inertness
import Stylesheet.Proofs.Leniency
import Stylesheet.Proofs.Likeness
import Stylesheet.Proofs.Lockstep
import Stylesheet.Proofs.LockstepRendering
import Stylesheet.Proofs.Misreadings
import Stylesheet.Proofs.Outcome
import Stylesheet.Proofs.OuterFrames
import Stylesheet.Proofs.Pairing
import Stylesheet.Proofs.Preservation
import Stylesheet.Proofs.Readings
import Stylesheet.Proofs.Rearrangement
import Stylesheet.Proofs.Reevaluation
import Stylesheet.Proofs.References
import Stylesheet.Proofs.Renaming
import Stylesheet.Proofs.Rendering
import Stylesheet.Proofs.Search
import Stylesheet.Proofs.SelectorText
import Stylesheet.Proofs.Shuffles
import Stylesheet.Proofs.Signatures
import Stylesheet.Proofs.Stamping
import Stylesheet.Proofs.Termination
import Stylesheet.Proofs.Transparency
