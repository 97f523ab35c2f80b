import AccessRules.Compile.Compiler
import AccessRules.Binary.Blob
import AccessRules.Proofs.Sets
import AccessRules.Proofs.Branches
import AccessRules.Proofs.Merging
import AccessRules.Proofs.Places
import AccessRules.Proofs.Pruning
import AccessRules.Proofs.Facts
import AccessRules.Proofs.Gathering
import AccessRules.Proofs.Trace
import AccessRules.Proofs.Running
import AccessRules.Proofs.Compiling
import AccessRules.Proofs.Reachable
import AccessRules.Proofs.Atomicity
import AccessRules.Proofs.Utf8
import AccessRules.Proofs.Payload
import AccessRules.Proofs.Rows
import AccessRules.Proofs.Faults
import AccessRules.Proofs.Grafting
import AccessRules.Proofs.RoundTrip
import AccessRules.Proofs.Counting
import AccessRules.Proofs.Assembly
import AccessRules.Proofs.Chains
import AccessRules.Proofs.Loading
import AccessRules.Proofs.PrunedRuns
import AccessRules.Proofs.Same
import AccessRules.Proofs.DataRuns
import AccessRules.Proofs.Rearranging
import AccessRules.Proofs.Grammar
import AccessRules.Proofs.Bounds
import AccessRules.Proofs.Completeness
import AccessRules.Proofs.Stack
import AccessRules.Proofs.Agreement
import AccessRules.Proofs.Spelling
import AccessRules.Proofs.Isolation
import AccessRules.Proofs.DepthLimit
import AccessRules.Proofs.Strictness
import AccessRules.Proofs.Room
import AccessRules.Proofs.Standalone
import AccessRules.Proofs.Joining
import AccessRules.Proofs.Nameless
import AccessRules.Proofs.Renaming
import AccessRules.Proofs.Pointwise
import AccessRules.Proofs.UnionLaws
import AccessRules.Proofs.CanonicalForm
import AccessRules.Proofs.Beginnings
import AccessRules.Proofs.Rendering
import AccessRules.Proofs.FirstOffence
import AccessRules.Proofs.Traversals
import AccessRules.Proofs.Alterations
import AccessRules.Proofs.Delimiting
import AccessRules.Proofs.ToldLength
