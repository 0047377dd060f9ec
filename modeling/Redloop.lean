import Redloop.Queue.Exclusive
import Redloop.Queue.RetryBudget
import Redloop.Store.Decode
import Redloop.Data.Trace
import Redloop.Worker.Lifecycle
import Redloop.Worker.PollSleep
import Redloop.Keyspace.Isolation
import Redloop.Keyspace.HashSlot
import Redloop.Queue.Policy
import Redloop.Queue.LeaseCounters
import Redloop.Queue.Purge
import Redloop.Queue.Pruning
import Redloop.Queue.Lookup
import Redloop.Queue.Reporting
import Redloop.Queue.Precision
import Redloop.System.Delivery
import Redloop.System.Stranding
import Redloop.Queue.Operators
import Redloop.Queue.Tokens
import Redloop.Queue.Oldest
import Redloop.Queue.NextActivation
import Redloop.Queue.Backoff
import Redloop.Queue.Reaping
import Redloop.Queue.Answers
import Redloop.Queue.Replaces
import Redloop.Queue.Retries
import Redloop.Queue.LeaseRecords
import Redloop.Store.Listing
import Redloop.Queue.Registrations
import Redloop.Queue.Paging
import Redloop.Queue.Overtaking
import Redloop.Queue.Splitting
import Redloop.System.Overlap
import Redloop.System.Capacity
import Redloop.System.Stopping
import Redloop.Queue.Recovery
import Redloop.Queue.Counts
import Redloop.Queue.Commuting
import Redloop.Client.Catalog
import Redloop.Client.Calls
