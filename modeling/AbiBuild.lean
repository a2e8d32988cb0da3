import AbiBuild.Main
import AbiBuild.Build.PlainText
import AbiBuild.Proofs.Abi
import AbiBuild.Proofs.Dependency.Edges
import AbiBuild.Proofs.Dependency.Mirrored
import AbiBuild.Proofs.Dependency.Update
import AbiBuild.Proofs.Dependency.Codec
import AbiBuild.Proofs.Dependency.History
import AbiBuild.Proofs.Build.Incremental
import AbiBuild.Proofs.Files.Places
import AbiBuild.Proofs.Files.Within
import AbiBuild.Proofs.Session.Inverse
import AbiBuild.Proofs.Session.Owned
import AbiBuild.Proofs.Session.Batches
import AbiBuild.Proofs.Build.Commits
import AbiBuild.Proofs.Build.Updates
import AbiBuild.Proofs.Build.Copying
import AbiBuild.Proofs.Build.Projects
import AbiBuild.Proofs.CommandLine.Outputs
import AbiBuild.Proofs.Build.CacheFile
import AbiBuild.Proofs.Build.LiveOutputs
import AbiBuild.Proofs.Build.Overlay
import AbiBuild.Proofs.Signature.Grammar
import AbiBuild.Proofs.Surface.Privacy
import AbiBuild.Proofs.Surface.Occurrences
import AbiBuild.Proofs.Surface.Normalizing
import AbiBuild.Proofs.Dependency.Search
import AbiBuild.Proofs.Dependency.Interning
import AbiBuild.Proofs.Session.Resuming
import AbiBuild.Proofs.CommandLine.Forgetting
import AbiBuild.Proofs.Dependency.Layouts
import AbiBuild.Proofs.Session.Neighbours
import AbiBuild.Proofs.Changes.Classpath
import AbiBuild.Proofs.CommandLine.Pairs
import AbiBuild.Proofs.Changes.Runs
import AbiBuild.Proofs.JavaSource.Units
import AbiBuild.Proofs.JavaSource.Relayout
