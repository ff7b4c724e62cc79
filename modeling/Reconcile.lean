import Reconcile.Json.Reader
import Reconcile.Json.Printer
import Reconcile.Settings
import Reconcile.Schema.Codec
import Reconcile.Store.SnapshotText
import Reconcile.Session.Save
import Reconcile.Session.Restore
import Reconcile.Mapping.Relationships
import Reconcile.Inspect
import Reconcile.Sample.Schema
import Reconcile.Sample.Fields
import Reconcile.Proofs.Session.Step
import Reconcile.Proofs.Store.Commit
import Reconcile.Proofs.Session.Saving
import Reconcile.Proofs.Session.Sound
import Reconcile.Proofs.Session.Numbering
import Reconcile.Proofs.Session.Visibility
import Reconcile.Proofs.Session.Refusing
import Reconcile.Proofs.Session.Effect
import Reconcile.Proofs.Session.Upkeep
import Reconcile.Proofs.Session.Answering
import Reconcile.Proofs.Session.Clashes
import Reconcile.Proofs.Store.Counting
import Reconcile.Proofs.Mapping.Finding
import Reconcile.Proofs.Mapping.Synchronizing
import Reconcile.Proofs.Sample.Filling
import Reconcile.Proofs.Sample.Keys
import Reconcile.Proofs.Sample.Tags
import Reconcile.Proofs.Sample.Tidy
import Reconcile.Proofs.Sample.Duplicates
import Reconcile.Proofs.Mapping.Opening
import Reconcile.Proofs.Mapping.Replacing
import Reconcile.Proofs.Sample.Posts
import Reconcile.Proofs.Mapping.Courses
import Reconcile.Proofs.Sample.Brackets
import Reconcile.Proofs.Sample.Folders
import Reconcile.Proofs.Session.Holding
import Reconcile.Proofs.Mapping.Minding
import Reconcile.Proofs.Mapping.Operating
import Reconcile.Proofs.Sample.Minding
import Reconcile.Proofs.Sample.Contexts
import Reconcile.Proofs.Json.Numerals
import Reconcile.Proofs.Json.Reading
import Reconcile.Proofs.Session.Rehosting
import Reconcile.Proofs.Store.SnapshotText
import Reconcile.Proofs.Sample.Exporting
import Reconcile.Proofs.Mapping.Typing
import Reconcile.Proofs.Sample.Creating
import Reconcile.Proofs.Session.Preserving
import Reconcile.Proofs.Mapping.Fields
import Reconcile.Proofs.Mapping.Turns
import Reconcile.Proofs.Sample.Owning
import Reconcile.Proofs.Session.Importing
import Reconcile.Proofs.Session.Deleting
import Reconcile.Proofs.Session.Forecasting
import Reconcile.Proofs.Sample.Returning
import Reconcile.Proofs.Session.Ordering
import Reconcile.Proofs.Schema.Checking
import Reconcile.Proofs.Mapping.Cascading
import Reconcile.Proofs.Relation.Enumerating
import Reconcile.Proofs.Relation.Straying
import Reconcile.Proofs.Session.Failing
import Reconcile.Proofs.Sample.Resyncing
import Reconcile.Proofs.Query.Leaves
import Reconcile.Proofs.Session.Querying
import Reconcile.Proofs.Relation.Settling
import Reconcile.Proofs.Relation.Representing
import Reconcile.Proofs.Mapping.Reporting
import Reconcile.Proofs.Mapping.Overwriting
import Reconcile.Proofs.Query.Listing
import Reconcile.Proofs.Store.Gathering
