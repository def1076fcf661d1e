import BundleReach.Main
import BundleReach.Proofs.Audit.Clean
import BundleReach.Proofs.Finding.Stars
import BundleReach.Proofs.Graph.Accounts
import BundleReach.Proofs.Path.Name
import BundleReach.Proofs.Path.Relative
import BundleReach.Proofs.Audit.Stages
import BundleReach.Proofs.Audit.Records
import BundleReach.Proofs.Resolution.Candidates
import BundleReach.Proofs.Resolution.Faults
import BundleReach.Proofs.FileTree.Below
import BundleReach.Proofs.Bundle.Listing
import BundleReach.Proofs.Finding.Bundles
import BundleReach.Proofs.Bundle.Name
import BundleReach.Proofs.Audit.Mismatches
import BundleReach.Proofs.Finding.Duplicates
import BundleReach.Proofs.Audit.Duplicates
import BundleReach.Proofs.FileTree.Canonical
import BundleReach.Proofs.Graph.Identity
import BundleReach.Proofs.Package.Discovery
import BundleReach.Proofs.Package.Dependencies
import BundleReach.Proofs.Resolution.Installed
import BundleReach.Proofs.Audit.Consumers
import BundleReach.Proofs.Bundle.OneToOne
import BundleReach.Proofs.Audit.Unread
import BundleReach.Proofs.Settings
import BundleReach.Proofs.Graph.FirstWalk
import BundleReach.Proofs.Resolution.Merging
import BundleReach.Proofs.Resolution.AppNames
import BundleReach.Proofs.Resolution.Targets
import BundleReach.Proofs.Resolution.Patterns
import BundleReach.Proofs.Resolution.Inside
import BundleReach.Proofs.Resolution.Renaming
import BundleReach.Proofs.Script.Preorder
import BundleReach.Proofs.Facts.Patterns
import BundleReach.Proofs.Facts.Imports
import BundleReach.Proofs.Script.Comments
import BundleReach.Proofs.Facts.Comments
import BundleReach.Proofs.Facts.Uncommented
import BundleReach.Proofs.Package.Tables
import BundleReach.Proofs.Resolution.Conflicts
import BundleReach.Proofs.Script.Admission
import BundleReach.Proofs.Facts.ImportForms
import BundleReach.Proofs.Facts.Introduced
import BundleReach.Proofs.Facts.Nested
import BundleReach.Proofs.Graph.Termination
import BundleReach.Proofs.Report.Layout
import BundleReach.Proofs.Report.Quoting
import BundleReach.Proofs.Resolution.Owner
import BundleReach.Proofs.Resolution.Probing
