import Bailout.Config
import Bailout.Heap.Basic
import Bailout.Json
import Bailout.Proofs.Compile.Sites
import Bailout.Proofs.Compile.Snapshot
import Bailout.Proofs.Compile.Unreachable
import Bailout.Proofs.Engine.History
import Bailout.Proofs.Engine.Together
import Bailout.Proofs.Frame.Again
import Bailout.Proofs.Frame.Overwrite
import Bailout.Proofs.Frame.ReleaseOrder
import Bailout.Proofs.Frame.StackDepth
import Bailout.Proofs.Graph.Built
import Bailout.Proofs.Graph.Editor
import Bailout.Proofs.Graph.ReversePostorder
import Bailout.Proofs.Graph.Trimmed
import Bailout.Proofs.Heap.Turns
import Bailout.Proofs.InlineDepth
import Bailout.Proofs.Instr.Edits
import Bailout.Proofs.Instr.Representation
import Bailout.Proofs.Intern
import Bailout.Proofs.Layout.Assign
import Bailout.Proofs.PhiInputs
import Bailout.Proofs.Ty.Lattice
import Bailout.Proofs.Ty.Object
import Bailout.Proofs.Ty.Room
import Bailout.Proofs.Ty.Text
import Bailout.Proofs.Validation.Trim
import Bailout.Proofs.World.Deoptimize
import Bailout.Proofs.World.Diagnostics
import Bailout.Proofs.World.Footers
import Bailout.Proofs.World.Links
import Bailout.Proofs.World.Session
import Bailout.Proofs.World.Suspended
import Bailout.Ty.Kind
import Bailout.World
