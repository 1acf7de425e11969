import Rylr998.Lib.Lines
import Rylr998.Lib.LineMachine
import Rylr998.Lib.Run
import Rylr998.Lib.Located
import Rylr998.Lib.Channel
import Rylr998.Lib.PrefixCode
import Rylr998.Core.Driver
import Rylr998.Core.Runs
import Rylr998.Core.Session
import Rylr998.Core.Equiv.FromStr
import Rylr998.Core.Equiv.Decode
import Rylr998.Core.Equiv.Encode
import Rylr998.Core.Equiv.Lines
import Rylr998.Core.Equiv.Runs
import Rylr998.Core.Equiv.Session
import Rylr998.Core.Equiv.Bounds
import Rylr998.Core.Equiv.Pairing
import Rylr998.Core.Equiv.Refinement
import Rylr998.Core.Equiv.Freshness
import Rylr998.Core.Equiv.Payload
import Rylr998.Core.Equiv.Fragments
import Rylr998.Core.Equiv.Capacity
import Rylr998.Core.Equiv.Blocking
import Rylr998.Core.Equiv.Vanish
import Rylr998.Core.Equiv.Ledger
import Rylr998.Core.Equiv.Restart
import Rylr998.Core.Equiv.Settings
import Rylr998.Core.Equiv.OneLine
import Rylr998.Core.Equiv.Grammar
import Rylr998.Core.Equiv.Wire
import Rylr998.Core.Equiv.Stream
import Rylr998.Core.Equiv.ShortWrites
import Rylr998.Core.Equiv.Refusal
import Rylr998.Core.Equiv.FactoryReset
import Rylr998.Core.Equiv.Idle
import Rylr998.Host.Task
import Rylr998.Host.Handle
import Rylr998.Host.Equiv.Slot
import Rylr998.Host.Equiv.Calls
import Rylr998.Host.Equiv.Exchange
import Rylr998.Host.Equiv.Agree
import Rylr998.Host.Equiv.Task
import Rylr998.Host.Equiv.Stranded
import Rylr998.Host.Equiv.Splice
import Rylr998.Host.Equiv.Handle
import Rylr998.Host.Equiv.Custody
import Rylr998.Host.Equiv.Deadlock
import Rylr998.Host.Equiv.Drain
import Rylr998.Host.Equiv.Jobs
import Rylr998.Host.Equiv.Replies
import Rylr998.Host.Equiv.Process
import Rylr998.Host.Equiv.Late
import Rylr998.Host.Equiv.NextEvent
import Rylr998.Host.Equiv.Handler
import Rylr998.Tool.Params
import Rylr998.Tool.Equiv.Params
import Rylr998.Lib.Paths
import Rylr998.Lib.Interact
import Rylr998.Tool.Commands
import Rylr998.Host.Equiv.AtOnce
import Rylr998.Host.Equiv.Answers
import Rylr998.System.World
import Rylr998.System.Agreement
import Rylr998.System.Moves
import Rylr998.System.Prompt
import Rylr998.System.InOrder
import Rylr998.System.Sequential
import Rylr998.System.Settings
import Rylr998.System.Async
import Rylr998.System.Exchange
import Rylr998.System.Blocking
import Rylr998.Tool.Equiv.Session
import Rylr998.Tool.Equiv.Settings
import Rylr998.Tool.Equiv.Answering
import Rylr998.Tool.Equiv.Provision
import Rylr998.Tool.Equiv.Info
import Rylr998.Tool.Equiv.Runs
import Rylr998.Tool.Equiv.Script
import Rylr998.Tool.Equiv.Frame
import Rylr998.Tool.Equiv.Listen
import Rylr998.System.Writes
