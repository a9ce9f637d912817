import LearnNs2.Lib.Runs
import LearnNs2.Lib.EventQueue
import LearnNs2.Lib.LastWriter
import LearnNs2.Lib.Groups
import LearnNs2.Lib.Decimal
import LearnNs2.Lib.Format
import LearnNs2.Lib.Awk
import LearnNs2.Lib.Binary64
import LearnNs2.Lib.TclDouble
import LearnNs2.Simple.Packet
import LearnNs2.Simple.Rtable
import LearnNs2.Simple.Agent
import LearnNs2.Simple.Command
import LearnNs2.Simple.Recv
import LearnNs2.Simple.Network
import LearnNs2.Simple.Ttl
import LearnNs2.Simple.Delivery
import LearnNs2.Simple.HeaderSize
import LearnNs2.Simple.Conservation
import LearnNs2.Simple.Broadcast
import LearnNs2.Simple.ControlPackets
import LearnNs2.Simple.Routes
import LearnNs2.Simple.TableHistory
import LearnNs2.Simple.Turns
import LearnNs2.Simple.Pointers
import LearnNs2.Simple.EmptyTable
import LearnNs2.Simple.Clock
import LearnNs2.Simple.BeaconStream
import LearnNs2.Simple.StartRate
import LearnNs2.Trace.Records
import LearnNs2.Trace.MeasureDelay
import LearnNs2.Trace.MeasureDrop
import LearnNs2.Trace.LostPackets
import LearnNs2.Trace.DelayLines
import LearnNs2.Trace.StartTimes
import LearnNs2.Trace.LossRate
import LearnNs2.Trace.MeasureThroughput
import LearnNs2.Fairness.Flowstats
import LearnNs2.Fairness.Grouping
import LearnNs2.Fairness.Collapse
import LearnNs2.Fairness.Append
import LearnNs2.Fairness.Rows
import LearnNs2.Fairness.Agreement
import LearnNs2.Fairness.Shares
import LearnNs2.Cmu.CmuTrace
import LearnNs2.Cmu.PacketTracers
import LearnNs2.Cmu.SimpleText
import LearnNs2.Chapter4.Sessions
import LearnNs2.Chapter4.LiveCounts
import LearnNs2.Chapter4.Intervals
import LearnNs2.Chapter4.PlotWindow
import LearnNs2.Chapter4.PlotTable
import LearnNs2.Common.Pool
import LearnNs2.Common.Ownership
import LearnNs2.Common.PoolRuns
import LearnNs2.Common.HeaderFormat
import LearnNs2.Lib.Registration
import LearnNs2.Common.PacketClassifiers
import LearnNs2.Cmu.TracerChain
import LearnNs2.NsLib.NamLinks
import LearnNs2.Cmu.NamTrace
import LearnNs2.Lib.Watchers
import LearnNs2.Cmu.NamColors
import LearnNs2.Cmu.NamRuns
import LearnNs2.Cmu.RecordText
import LearnNs2.Cmu.RecordReading
import LearnNs2.Cmu.SctpText
import LearnNs2.Chapter4.PlotReading
import LearnNs2.Lib.FixedText
import LearnNs2.Fairness.Charts
import LearnNs2.Fairness.ChartRows
import LearnNs2.Fairness.ChartSets
