import Pushdown.Main
import Pushdown.Proofs.Condition.Composition
import Pushdown.Proofs.Condition.Display
import Pushdown.Proofs.Condition.Reports
import Pushdown.Proofs.Condition.Soundness
import Pushdown.Proofs.Translation.Containment
import Pushdown.Proofs.Translation.LifeCycle
import Pushdown.Proofs.Translation.Readback
import Pushdown.Proofs.Translation.Reconciliation
import Pushdown.Proofs.Translation.Rejection
import Pushdown.Proofs.Number.Display
import Pushdown.Proofs.Condition.Redisplay
import Pushdown.Proofs.Condition.Trailing
import Pushdown.Proofs.Condition.Nesting
import Pushdown.Proofs.Condition.WellFormed
import Pushdown.Proofs.Condition.Integers
import Pushdown.Proofs.Translation.Transcript
import Pushdown.Proofs.Json.RoundTrip
