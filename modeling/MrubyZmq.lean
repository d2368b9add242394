import MrubyZmq.Machine
import MrubyZmq.Multipart
import MrubyZmq.Ruby
import MrubyZmq.Socket
import MrubyZmq.Socket.Conversation
import MrubyZmq.Zap
import MrubyZmq.Zap.Reply
import MrubyZmq.Zap.Framing
import MrubyZmq.Zap.Access
import MrubyZmq.Context
import MrubyZmq.Context.Ownership
import MrubyZmq.Context.Sockets
import MrubyZmq.Ledger
import MrubyZmq.Msg
import MrubyZmq.Msg.Ownership
import MrubyZmq.Poller
import MrubyZmq.Poller.Agreement
import MrubyZmq.Poller.Closed
import MrubyZmq.Timers
import MrubyZmq.Timers.Registry
import MrubyZmq.Timers.Table
import MrubyZmq.Timers.Schedule
import MrubyZmq.Socket.Failure
import MrubyZmq.Records
import MrubyZmq.Zap.Metadata
import MrubyZmq.Significand
import MrubyZmq.Sockopt
import MrubyZmq.Sockopt.Numbers
import MrubyZmq.Writes
import MrubyZmq.Sockopt.Security
import MrubyZmq.Poller.Wait
import MrubyZmq.Reachability
import MrubyZmq.Timers.Collector
import MrubyZmq.Simulation
import MrubyZmq.Msg.Value
import MrubyZmq.Msg.Exchange
import MrubyZmq.Poller.Collector
import MrubyZmq.Zap.Server
import MrubyZmq.Zap.Peers
import MrubyZmq.Logger
import MrubyZmq.Zap.Logged
import MrubyZmq.Native
import MrubyZmq.Socket.Monitor
import MrubyZmq.Timers.Restart
import MrubyZmq.Timers.Alarms
import MrubyZmq.Sockopt.Reading
