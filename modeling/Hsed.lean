import Hsed.Lib.CLib
import Hsed.Lib.Lts
import Hsed.Lib.Utf8
import Hsed.Lib.Json
import Hsed.Lib.Base64
import Hsed.Lib.JsonCut
import Hsed.Scan.Correctness.Parallel
import Hsed.Wire.Base64
import Hsed.Wire.Protocol
import Hsed.Wire.Correctness.Escape
import Hsed.Wire.Correctness.Line
import Hsed.Wire.Correctness.Send
import Hsed.Client.Client
import Hsed.Client.Requests
import Hsed.Server.Server
import Hsed.Server.Correctness.Dispatch
import Hsed.Server.Correctness.Signals
import Hsed.Server.Correctness.Requests
import Hsed.Server.Correctness.Replies
import Hsed.Client.Correctness.Decode
import Hsed.EndToEnd.Stream
import Hsed.Scan.Correctness.Fields
import Hsed.Scan.Correctness.Filter
import Hsed.EndToEnd.Scan
import Hsed.EndToEnd.Stats
import Hsed.EndToEnd.Actions
import Hsed.EndToEnd.Filters
import Hsed.Tracer.Tracer
import Hsed.Tracer.Correctness.Table
import Hsed.Tracer.Correctness.Capture
import Hsed.Tracer.Kernel
import Hsed.Tracer.Session
import Hsed.Tracer.Correctness.Isolation
import Hsed.Tracer.Correctness.Requests
import Hsed.Tracer.Correctness.Pass
import Hsed.Tracer.Correctness.Detach
import Hsed.Reclaim.Reclaim
import Hsed.Reclaim.Correctness.Truncate
import Hsed.Scan.Correctness.Deleted
import Hsed.EndToEnd.Totals
import Hsed.Server.Correctness.Stop
import Hsed.Server.Correctness.Framing
import Hsed.Server.Correctness.Lines
import Hsed.EndToEnd.Grammar
import Hsed.Tracer.Correctness.Tracked
import Hsed.Tracer.Correctness.Reinjection
import Hsed.Tui.Tree
import Hsed.Tui.Screens
import Hsed.Tui.App
import Hsed.Tui.Correctness.Updates
import Hsed.Tui.Correctness.Dialogs
import Hsed.Tui.Correctness.Names
import Hsed.Tui.Correctness.Sessions
import Hsed.Scan.Correctness.Cmdline
import Hsed.Tracer.Correctness.Payload
import Hsed.EndToEnd.Cut
import Hsed.Server.Correctness.Listen
import Hsed.Tui.Correctness.Rescan
import Hsed.Tui.Correctness.PathTree
import Hsed.Tui.Correctness.TreeView
import Hsed.Tracer.Correctness.TidTable
import Hsed.Tui.Correctness.TreeNavigation
import Hsed.EndToEnd.Live
import Hsed.Lib.Accounts
import Hsed.Server.Accept
import Hsed.Server.Correctness.Accept
import Hsed.Tui.Correctness.Listed
import Hsed.Client.Calls
import Hsed.EndToEnd.Exchange
import Hsed.Main.Correctness.Options
import Hsed.Main.Correctness.Files
import Hsed.EndToEnd.Once
import Hsed.EndToEnd.Notices
import Hsed.Tui.Correctness.InOrder
import Hsed.EndToEnd.Watching
