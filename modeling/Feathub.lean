import Feathub.Dict
import Feathub.Datetime
import Feathub.Descriptor
import Feathub.Plan
import Feathub.Semantics
import Feathub.DependentFeatures
import Feathub.DerivedView
import Feathub.SlidingView
import Feathub.Builder
import Feathub.Proofs.Dispatch
import Feathub.Proofs.Cache
import Feathub.Proofs.Pipeline
import Feathub.Proofs.JoinBatches
import Feathub.Proofs.Columns
import Feathub.Proofs.Termination
import Feathub.Proofs.Uncached
import Feathub.Proofs.Sessions
import Feathub.Proofs.Filters
import Feathub.Proofs.SlidingMerge
import Feathub.Proofs.JoinGuards
import Feathub.Proofs.TimestampSql
import Feathub.Proofs.Frame
import Feathub.Proofs.Output
import Feathub.Proofs.Exceptions
import Feathub.Proofs.Reach
import Feathub.Proofs.Expressions
