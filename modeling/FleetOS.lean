import FleetOS.Runs
import FleetOS.ReadyQueues
import FleetOS.Wakeups
import FleetOS.Recovery
import FleetOS.WaitQueues
import FleetOS.PageTouches
import FleetOS.SharedFrames
import FleetOS.PageFaults
import FleetOS.WaiterAccounts
import FleetOS.Interactive
import FleetOS.InteractiveRuns
import FleetOS.JsonOffsets
import FleetOS.QueueLists
import FleetOS.ThreadRounds
import FleetOS.FileSecrecy
import FleetOS.FileFrames
import FleetOS.FileDirectory
import FleetOS.WakeCallbacks
import FleetOS.Snapshots
import FleetOS.BufferClients
import FleetOS.BufferWakes
import FleetOS.EndedThreads
import FleetOS.TerminatedProcesses
import FleetOS.IoEvents
import FleetOS.SlotExhaustion
import FleetOS.SchedulerRuns
import FleetOS.FeedbackBoosts
import FleetOS.Bursts
import FleetOS.WaitTimes
import FleetOS.ResourceWaits
import FleetOS.CrashContainment
import FleetOS.RunIndependence
import FleetOS.Json
import FleetOS.ProcessRecords
import FleetOS.ProcessTimes
import FleetOS.LogFiles
import FleetOS.PagedRuns
import FleetOS.SensorStream
import FleetOS.Gauges
import FleetOS.DisplayedRuns
import FleetOS.SnapshotValues
import FleetOS.LogLines
import FleetOS.LoggedRuns
import FleetOS.ServerOutput
import FleetOS.DeadlockWindows
import FleetOS.ReadyThreads
import FleetOS.SteppedRuns
import FleetOS.Starvation
