import Procedoc.Reporting
import Procedoc.Site
import Procedoc.Proofs.Inlining.SelfContained
import Procedoc.Proofs.Inlining.Unfolding
import Procedoc.Proofs.Operation.Placement
import Procedoc.Proofs.Rendering.Outcome
import Procedoc.Proofs.Document.Gathering
import Procedoc.Proofs.Document.Listing
import Procedoc.Proofs.Document.Earliest
import Procedoc.Proofs.Document.PathParameters
import Procedoc.Proofs.Registry
import Procedoc.Proofs.Omission.Commuting
import Procedoc.Proofs.Operation.Requiredness
import Procedoc.Proofs.Rendering.Flat
import Procedoc.Proofs.Operation.PropertyNames
import Procedoc.Proofs.Operation.Decoding
import Procedoc.Proofs.Operation.Rendered
import Procedoc.Proofs.Rendering.Bounded
import Procedoc.Proofs.Operation.PropertySchemas
import Procedoc.Proofs.Operation.Making
import Procedoc.Proofs.Operation.Refusing
import Procedoc.Proofs.Document.References
import Procedoc.Proofs.Operation.Handmade
import Procedoc.Proofs.Operation.Envelope
import Procedoc.Proofs.Document.Colliding
import Procedoc.Proofs.Template.Placeholders
import Procedoc.Proofs.Operation.InputErrors
import Procedoc.Proofs.Inlining.Independence
import Procedoc.Proofs.Inlining.Recording
import Procedoc.Proofs.Opening
import Procedoc.Proofs.Rendering.Instances
import Procedoc.Proofs.Logging
import Procedoc.Proofs.Restoring
import Procedoc.Proofs.Settings
import Procedoc.Proofs.Rendering.Wrapping
