import Reflection.Call.View
import Reflection.Config
import Reflection.Script.Eval
import Reflection.Proofs.Universe.Reachable
import Reflection.Proofs.Walks
import Reflection.Proofs.Universe.Conforms
import Reflection.Proofs.Universe.DefaultEnds
import Reflection.Proofs.Universe.SearchEnds
import Reflection.Proofs.World.Session
import Reflection.Proofs.World.Sound
import Reflection.Proofs.Universe.Lines
import Reflection.Proofs.Universe.Members
import Reflection.Proofs.Universe.Overrides
import Reflection.Proofs.Call.DispatchTable
import Reflection.Proofs.Snapshot.Listing
import Reflection.Proofs.Snapshot.Redeclared
import Reflection.Proofs.Snapshot.Coherence
import Reflection.Proofs.Call.Activation
import Reflection.Proofs.Call.Bound
import Reflection.Proofs.Call.WellTyped
import Reflection.Proofs.Universe.Bare
import Reflection.Proofs.Universe.Reordered
import Reflection.Proofs.Call.Standin
import Reflection.Proofs.Call.Request
import Reflection.Proofs.Call.Refusal
import Reflection.Proofs.Call.Execution
import Reflection.Proofs.Call.StaticTarget
import Reflection.Proofs.Construction.Choosing
import Reflection.Proofs.Construction.Selection
import Reflection.Proofs.Construction.Resolution
import Reflection.Proofs.Construction.Parameterless
import Reflection.Proofs.Construction.Copying
import Reflection.Proofs.Universe.Steps
import Reflection.Proofs.Universe.Open
import Reflection.Proofs.Universe.Final
import Reflection.Proofs.Universe.Links
import Reflection.Proofs.Universe.Checked
import Reflection.Proofs.World.Hosted
import Reflection.Proofs.World.Slots
import Reflection.Proofs.Universe.StaticTypes
import Reflection.Proofs.Snapshot.MostDerived
import Reflection.Proofs.Snapshot.Memo
import Reflection.Proofs.Call.OwnMembers
import Reflection.Proofs.Call.ViewUse
import Reflection.Proofs.World.Defining
import Reflection.Proofs.World.Lenses
import Reflection.Proofs.Construction.Assignable
import Reflection.Proofs.Construction.DefaultPredicate
import Reflection.Proofs.Universe.Subsumption
import Reflection.Proofs.Call.Settled
import Reflection.Proofs.Call.Fitting
import Reflection.Proofs.Call.Spread
import Reflection.Proofs.Call.WriteBack
import Reflection.Proofs.Snapshot.Overloads
import Reflection.Proofs.Snapshot.Widening
import Reflection.Proofs.Attribute.PassThrough
import Reflection.Proofs.Attribute.Kinds
import Reflection.Proofs.Snapshot.Bindings
import Reflection.Proofs.Member.Selecting
import Reflection.Proofs.Member.Joined
