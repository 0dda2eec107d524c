import Storyboard.Animation
import Storyboard.Number.Scalar
import Storyboard.Proofs.Compilation.AfterGroup
import Storyboard.Proofs.Compilation.Applications
import Storyboard.Proofs.Compilation.Branches
import Storyboard.Proofs.Compilation.Commutation
import Storyboard.Proofs.Compilation.CompleteCursor
import Storyboard.Proofs.Compilation.Continuity
import Storyboard.Proofs.Compilation.Inlining
import Storyboard.Proofs.Compilation.KnownProperties
import Storyboard.Proofs.Compilation.Landing
import Storyboard.Proofs.Compilation.LastingWrites
import Storyboard.Proofs.Compilation.Lockstep
import Storyboard.Proofs.Compilation.Morphing
import Storyboard.Proofs.Compilation.NormalizedOutput
import Storyboard.Proofs.Compilation.Parallel
import Storyboard.Proofs.Compilation.Placement
import Storyboard.Proofs.Compilation.Relocation
import Storyboard.Proofs.Compilation.Replay
import Storyboard.Proofs.Compilation.SameProperties
import Storyboard.Proofs.Compilation.Scaling
import Storyboard.Proofs.Compilation.Scopes
import Storyboard.Proofs.Compilation.SegmentEasings
import Storyboard.Proofs.Compilation.Slots
import Storyboard.Proofs.Compilation.StraightBranches
import Storyboard.Proofs.Compilation.Upkeep
import Storyboard.Proofs.Compilation.Visits
import Storyboard.Proofs.Number.Sums
import Storyboard.Proofs.OrderedMap.Merging
import Storyboard.Proofs.Record.Trees
import Storyboard.Proofs.Text.Rendering
import Storyboard.Proofs.Timeline.Absorption
import Storyboard.Proofs.Timeline.Operations
import Storyboard.Proofs.Timeline.Replay
import Storyboard.Proofs.Timeline.Strand
import Storyboard.Proofs.Timing.Overflow
import Storyboard.Proofs.Timing.Seconds
import Storyboard.Proofs.Transition.Expressions
import Storyboard.Proofs.Tree.Nodes
import Storyboard.Proofs.Tree.Offsets
import Storyboard.Proofs.Tree.Properties
import Storyboard.Proofs.Trigger.BooleanStates
import Storyboard.Proofs.Trigger.Matching
import Storyboard.Proofs.Validation.Collision
import Storyboard.Proofs.Validation.Inspections
import Storyboard.Proofs.Validation.Offsets
import Storyboard.Proofs.Validation.Prediction
import Storyboard.Proofs.Validation.Spans
import Storyboard.Proofs.Validation.Unshared
import Storyboard.Record.Instruction
import Storyboard.Record.Settings
import Storyboard.Record.Tree
import Storyboard.Tree.Agreement
import Storyboard.Trigger
