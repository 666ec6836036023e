import RemoteAgent.CodeLib.StepMachine
import RemoteAgent.CodeLib.ByteOrder
import RemoteAgent.CodeLib.Lists
import RemoteAgent.Error
import RemoteAgent.Protocol.Frame
import RemoteAgent.JobManager.Handle
import RemoteAgent.JobManager.Ledger
import RemoteAgent.JobManager.Calls
import RemoteAgent.JobManager.Actions
import RemoteAgent.JobManager.Lifecycle
import RemoteAgent.JobManager.Ids
import RemoteAgent.IoPump.Pump
import RemoteAgent.Job.Tasks
import RemoteAgent.Job.Machine
import RemoteAgent.Job.Frames
import RemoteAgent.Job.Exit
import RemoteAgent.Job.Termination
import RemoteAgent.Job.Cancellation
import RemoteAgent.Job.Drain
import RemoteAgent.PipeServer.Session
import RemoteAgent.PipeServer.Transcript
import RemoteAgent.CodeLib.CheckThenAdd
import RemoteAgent.Job.Window
import RemoteAgent.PipeServer.Credit
import RemoteAgent.Job.Handles
import RemoteAgent.JobManager.Limit
import RemoteAgent.JobManager.Quiet
import RemoteAgent.CodeLib.Stream
import RemoteAgent.PipeServer.Framing
import RemoteAgent.PipeServer.Connection
import RemoteAgent.FileIpc.Server
import RemoteAgent.FileIpc.Once
import RemoteAgent.FileIpc.Processes
import RemoteAgent.Job.Answer
import RemoteAgent.PipeServer.Answer
import RemoteAgent.IoPump.Flow
import RemoteAgent.IoPump.Sliding
import RemoteAgent.Job.Backpressure
import RemoteAgent.Job.Leaks
import RemoteAgent.CodeLib.WindowsPath
import RemoteAgent.FileIpc.Paths
import RemoteAgent.CodeLib.LockProg
import RemoteAgent.JobManager.Locks
import RemoteAgent.Job.Over
import RemoteAgent.PipeServer.Disconnect
import RemoteAgent.IoPump.Feed
import RemoteAgent.JobManager.Expiry
import RemoteAgent.PipeServer.Abandoned
import RemoteAgent.FileIpc.Consumed
import RemoteAgent.CodeLib.MultiString
import RemoteAgent.ProcessLauncher.Environment
import RemoteAgent.PipeServer.Hangup
import RemoteAgent.JobManager.Activity
import RemoteAgent.JobManager.Slots
import RemoteAgent.CodeLib.JsonText
import RemoteAgent.PipeServer.Greeting
import RemoteAgent.IoPump.Counters
import RemoteAgent.CodeLib.Cycle
import RemoteAgent.Job.Streams
import RemoteAgent.JobManager.Creation
import RemoteAgent.CodeLib.Owners
import RemoteAgent.JobManager.Numbering
import RemoteAgent.JobManager.Departures
import RemoteAgent.JobManager.Sweeps
import RemoteAgent.Job.Forward
import RemoteAgent.PipeServer.Delivery
import RemoteAgent.CodeLib.Pool
import RemoteAgent.PipeServer.Listener
import RemoteAgent.CodeLib.Watch
import RemoteAgent.ServiceHost.Host
import RemoteAgent.ServiceHost.Shutdown
import RemoteAgent.CodeLib.Utf16
import RemoteAgent.ProcessLauncher.CommandLine
import RemoteAgent.FileIpc.Accounts
import RemoteAgent.FileIpc.Origins
import RemoteAgent.PipeServer.Clients
