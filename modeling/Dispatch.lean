import Dispatch.Scenario.Play
import Dispatch.Scenario.Rehearsal
import Dispatch.Proofs.Collection.SortedList
import Dispatch.Proofs.Scheduler.BoundedWait
import Dispatch.Proofs.Scheduler.ByName
import Dispatch.Proofs.Selection.Extremes
import Dispatch.Proofs.Selection.Representation
import Dispatch.Proofs.Selection.Shares
import Dispatch.Proofs.Selection.Streak
import Dispatch.Proofs.Selection.Transitions
import Dispatch.Proofs.Session.DeadlineOrder
import Dispatch.Proofs.Session.Disabled
import Dispatch.Proofs.Session.Idle
import Dispatch.Proofs.Session.Removal
import Dispatch.Proofs.Session.Resolution
import Dispatch.Proofs.Session.Sweep
import Dispatch.Proofs.Session.Tally
import Dispatch.Proofs.Session.Views
import Dispatch.Proofs.Session.Window
import Dispatch.Proofs.Wake.Notices
import Dispatch.Proofs.Wake.Walk
