import Provision.Plan
import Provision.Descriptor.Codec
import Provision.Parameters
import Provision.Graph.Template
import Provision.Workflow.Build
import Provision.Workflow.Codec
import Provision.Json.Reader
import Provision.Yaml.Reader
import Provision.Yaml.Printer
import Provision.Settings
import Provision.Locks
import Provision.Lifecycle.Scale
import Provision.Rehearsal.Trial
import Provision.Remote.Stacks
import Provision.Remote.Workflows
import Provision.Command.Program
import Provision.Command.Desk
import Provision.Main
import Provision.Proofs.Splitting
import Provision.Proofs.OwnWord
import Provision.Proofs.Creation
import Provision.Proofs.Signalling
import Provision.Proofs.Watching
import Provision.Proofs.Components
import Provision.Proofs.Inputs
import Provision.Proofs.Settled
import Provision.Proofs.Additions
import Provision.Proofs.Compiled
import Provision.Proofs.Templates
import Provision.Proofs.Discovery
import Provision.Proofs.Rereading
import Provision.Proofs.Steering
import Provision.Proofs.Exclusion
import Provision.Proofs.Dangling
import Provision.Proofs.Conversion
import Provision.Proofs.Legible
import Provision.Proofs.Deletion
import Provision.Proofs.Retagging
import Provision.Proofs.Acceptance
import Provision.Proofs.Rounding
import Provision.Proofs.Documents
import Provision.Proofs.Restoring
import Provision.Proofs.Redescribing
import Provision.Proofs.Compositional
import Provision.Proofs.Numerals
import Provision.Proofs.Workflows
import Provision.Proofs.Runnable
import Provision.Proofs.Spelling
import Provision.Proofs.Submitting
import Provision.Proofs.Origins
import Provision.Proofs.Leaves
import Provision.Proofs.Placeholders
import Provision.Proofs.Adapting
import Provision.Proofs.Relocating
import Provision.Proofs.Sharing
import Provision.Proofs.Recording
import Provision.Proofs.Reordering
import Provision.Proofs.MemoryNodes
import Provision.Proofs.PortOrder
import Provision.Proofs.Verbatim
import Provision.Proofs.Sequencing
import Provision.Proofs.Gathering
import Provision.Proofs.Inventory
import Provision.Proofs.Statuses
import Provision.Proofs.Omissions
import Provision.Proofs.Lookups
import Provision.Proofs.Replacing
import Provision.Proofs.Addressing
