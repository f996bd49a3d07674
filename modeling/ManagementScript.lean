import ManagementScript.Diagnostics.RecentLog
import ManagementScript.Main
import ManagementScript.Settings.Profile
import ManagementScript.Source.Excerpt
import ManagementScript.Proofs.Tree.Element
import ManagementScript.Proofs.Tree.Reading
import ManagementScript.Proofs.Tree.Attributes
import ManagementScript.Proofs.Schema.Acceptance
import ManagementScript.Proofs.Compilation.Outcome
import ManagementScript.Proofs.Compilation.Reads
import ManagementScript.Proofs.Compilation.Tags
import ManagementScript.Proofs.Compilation.Content
import ManagementScript.Proofs.Management.Grammar
import ManagementScript.Proofs.Management.Resource
import ManagementScript.Proofs.Management.Translation
import ManagementScript.Proofs.Schema.Cardinality
import ManagementScript.Proofs.Schema.Recording
import ManagementScript.Proofs.Compilation.Properties
import ManagementScript.Proofs.Compilation.Identities
import ManagementScript.Proofs.Compilation.FilterScope
import ManagementScript.Proofs.Compilation.Directory
import ManagementScript.Proofs.Compilation.Authentication
import ManagementScript.Proofs.Compilation.Authorization
import ManagementScript.Proofs.Compilation.Realm
import ManagementScript.Proofs.Compilation.Management
import ManagementScript.Proofs.Management.Semantics
import ManagementScript.Proofs.Compilation.Atomicity
import ManagementScript.Proofs.Command.Address
import ManagementScript.Proofs.Management.Order
import ManagementScript.Proofs.Management.CommandTree
import ManagementScript.Proofs.Schema.Typing
import ManagementScript.Proofs.Management.ResourceKind
import ManagementScript.Proofs.Management.Typing
import ManagementScript.Proofs.Management.Distinctness
import ManagementScript.Proofs.Schema.Agreement
import ManagementScript.Proofs.Compilation.Scans
import ManagementScript.Proofs.Compilation.Translators
import ManagementScript.Proofs.Tree.Balance
import ManagementScript.Proofs.Tree.Ending
import ManagementScript.Proofs.Compilation.Consumption
import ManagementScript.Proofs.Management.Consumption
import ManagementScript.Proofs.Tree.Root
import ManagementScript.Proofs.Run.Truncation
import ManagementScript.Proofs.Tree.Tokens
import ManagementScript.Proofs.Tree.Intrusion
import ManagementScript.Proofs.Compilation.Intrusion
import ManagementScript.Proofs.Management.Intrusion
import ManagementScript.Proofs.Management.Exclusion
import ManagementScript.Proofs.Tree.Heads
import ManagementScript.Proofs.Management.Delegation
import ManagementScript.Proofs.Schema.Permutation
import ManagementScript.Proofs.Tree.Echo
import ManagementScript.Proofs.Tree.Declarations
import ManagementScript.Proofs.Tree.TagOrder
import ManagementScript.Proofs.Tree.Resemblance
import ManagementScript.Proofs.Compilation.Echo
import ManagementScript.Proofs.Run.Echo
import ManagementScript.Proofs.Run.Trailing
import ManagementScript.Proofs.Run.AttributeOrder
import ManagementScript.Proofs.Compilation.Prefix
import ManagementScript.Proofs.Run.Prefix
import ManagementScript.Proofs.Tree.References
import ManagementScript.Proofs.Tree.Passage
import ManagementScript.Proofs.Tree.Trimming
import ManagementScript.Proofs.Tree.Insert
import ManagementScript.Proofs.Tree.CharacterData
import ManagementScript.Proofs.Compilation.Password
import ManagementScript.Proofs.Run.OtherSections
import ManagementScript.Proofs.Text.Json
import ManagementScript.Proofs.Command.JsonForm
import ManagementScript.Proofs.Management.Naming
import ManagementScript.Proofs.Management.JsonForm
import ManagementScript.Proofs.Run.Loading
import ManagementScript.Proofs.Run.Results
import ManagementScript.Proofs.Command.TextForm
import ManagementScript.Proofs.Run.Lines
import ManagementScript.Proofs.Diagnostics.Collection
import ManagementScript.Proofs.Compilation.Quiet
import ManagementScript.Proofs.Run.Addresses
import ManagementScript.Proofs.Run.Reports
import ManagementScript.Proofs.Management.Roles
import ManagementScript.Proofs.Management.ChildOrder
import ManagementScript.Proofs.Run.ChildOrder
import ManagementScript.Proofs.Run.Requirement
import ManagementScript.Proofs.Tree.Nesting
import ManagementScript.Proofs.Document.Writing
import ManagementScript.Proofs.Run.Arguments
import ManagementScript.Proofs.Run.Delivery
import ManagementScript.Proofs.Diagnostics.Blocks
import ManagementScript.Proofs.Compilation.Requirements
import ManagementScript.Proofs.Management.FilteredScopes
import ManagementScript.Proofs.Schema.Storing
import ManagementScript.Proofs.Schema.Scalars
import ManagementScript.Proofs.Schema.Lists
import ManagementScript.Proofs.Tree.Location
import ManagementScript.Proofs.Tree.Stray
import ManagementScript.Proofs.Command.Sessions
import ManagementScript.Proofs.Diagnostics.Histories
import ManagementScript.Proofs.Diagnostics.Recency
import ManagementScript.Proofs.Diagnostics.Failures
import ManagementScript.Proofs.Diagnostics.Messages
import ManagementScript.Proofs.Management.Successes
import ManagementScript.Proofs.Source.Excerpts
import ManagementScript.Proofs.Tree.Loops
import ManagementScript.Proofs.Compilation.Loops
import ManagementScript.Proofs.Run.Loops
import ManagementScript.Proofs.Tree.Respacing
import ManagementScript.Proofs.Management.Respacing
import ManagementScript.Proofs.Run.Relayout
