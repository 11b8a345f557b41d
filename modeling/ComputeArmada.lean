import ComputeArmada.Adapter.Active
import ComputeArmada.Adapter.Attach
import ComputeArmada.Adapter.Clone
import ComputeArmada.Adapter.Delivered
import ComputeArmada.Adapter.Failed
import ComputeArmada.Adapter.Installation
import ComputeArmada.Adapter.Logged
import ComputeArmada.Adapter.Lookout
import ComputeArmada.Adapter.Messages
import ComputeArmada.Adapter.Numeric
import ComputeArmada.Adapter.Owners
import ComputeArmada.Adapter.Placed
import ComputeArmada.Adapter.Profiles
import ComputeArmada.Adapter.Published
import ComputeArmada.Adapter.Typed
import ComputeArmada.Adapter.Variables
import ComputeArmada.Adapter.Watch
import ComputeArmada.Agent.Handles
import ComputeArmada.Agent.Listing
import ComputeArmada.Agent.Reaper
import ComputeArmada.Agent.Shutdown
import ComputeArmada.Agent.Slots
import ComputeArmada.Agent.WaitPort
import ComputeArmada.Wire.Batches
import ComputeArmada.Wire.Bounded
import ComputeArmada.Wire.Deadline
import ComputeArmada.Wire.Process
import ComputeArmada.Wire.Relative
import ComputeArmada.Wire.Timers
import ComputeArmada.Wire.Token
