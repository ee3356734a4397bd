import ByNeed.Session.Collections
import ByNeed.Session.Daemons
import ByNeed.Session.Functions
import ByNeed.Proofs.Evaluator.Chain
import ByNeed.Proofs.Daemons.Starts
import ByNeed.Proofs.Rally.Merged
import ByNeed.Proofs.Machine.Waiting
import ByNeed.Proofs.Evaluator.Loops
import ByNeed.Proofs.Evaluator.Programs
import ByNeed.Proofs.Calls.Discipline
import ByNeed.Proofs.Handoff.Faithful
import ByNeed.Proofs.Order.Total
import ByNeed.Proofs.Order.Shortcuts
import ByNeed.Proofs.Dictionary.Rebuilding
import ByNeed.Proofs.Calls.Indexing
import ByNeed.Proofs.Order.Differences
import ByNeed.Proofs.Lists.Deletion
import ByNeed.Proofs.Lists.Choosing
import ByNeed.Proofs.Lists.Concatenation
import ByNeed.Proofs.Symbols.Fresh
import ByNeed.Proofs.Dictionary.Skeleton
