import Mmpack.SchemaView
import Mmpack.DictionaryView
import Mmpack.Bisect
import Mmpack.Cursor
import Mmpack.Table
import Mmpack.Access
import Mmpack.Opened
import Mmpack.Geometry
import Mmpack.Safety
import Mmpack.Written
import Mmpack.Fields
import Mmpack.Values
import Mmpack.Spans
import Mmpack.Slots
import Mmpack.Narrowing
import Mmpack.Blocks
import Mmpack.Agreement
import Mmpack.Iteration
import Mmpack.Aliasing
import Mmpack.Handles
import Mmpack.Pricing
import Mmpack.Returning
import Mmpack.Twins
import Mmpack.SameInput
import Mmpack.KeySplit
import Mmpack.Policies
import Mmpack.Acceptance
import Mmpack.Accepted
import Mmpack.Readings
import Mmpack.Opening
import Mmpack.Lengths
import Mmpack.Refused
import Mmpack.Alike
import Mmpack.Unobservable
import Mmpack.Orders
import Mmpack.Caught
import Mmpack.Crowded
import Mmpack.Savings
import Mmpack.Trimming
import Mmpack.Numbering
import Mmpack.Interning
import Mmpack.RoundTrip
import Mmpack.Alignment
import Mmpack.Codec
import Mmpack.Outputs
import Mmpack.KeyedMaps
import Mmpack.Arrival
import Mmpack.Contract
import Mmpack.Scans
import Mmpack.Grammar
import Mmpack.Gainless
import Mmpack.Replay
import Mmpack.Grain
import Mmpack.Costs
import Mmpack.Overruns
import Mmpack.Feeding
import Mmpack.Served
import Mmpack.Routes
import Mmpack.Finer
