import SteepSystem.Lib.Ranges
import SteepSystem.Lib.Runs
import SteepSystem.RopUtil
import SteepSystem.Idsets.Model
import SteepSystem.Idsets.Scan
import SteepSystem.Idsets.Run
import SteepSystem.Idsets.Globset
import SteepSystem.Idsets.RoundTrip
import SteepSystem.Lib.VersionVector
import SteepSystem.Pcls.Model
import SteepSystem.Pcls.Spec
import SteepSystem.Pcls.Run
import SteepSystem.Lzxpress.Model
import SteepSystem.Lib.Prefix
import SteepSystem.Lzxpress.Written
import SteepSystem.Lzxpress.RoundTrip
import SteepSystem.Rtfcp.Model
import SteepSystem.Rtfcp.LongestMatch
import SteepSystem.Rtfcp.RoundTrip
import SteepSystem.Lib.Walk
import SteepSystem.Ics.Sets
import SteepSystem.Ics.HierarchyModel
import SteepSystem.Ics.Hierarchy
import SteepSystem.Ics.ContentModel
import SteepSystem.Ics.Content
import SteepSystem.Lib.Forest
import SteepSystem.HashTable
import SteepSystem.RopProcessor.Model
import SteepSystem.RopProcessor.Item
import SteepSystem.RopProcessor.Live
import SteepSystem.RopProcessor.Session
import SteepSystem.RopProcessor.Run
import SteepSystem.Lib.Files
import SteepSystem.StreamObjects.Model
import SteepSystem.StreamObjects.Refinement
import SteepSystem.StreamObjects.Run
import SteepSystem.StreamObjects.Touched
import SteepSystem.Streams.Run
import SteepSystem.Fastupctx.Model
import SteepSystem.Fastupctx.Record
import SteepSystem.Fastupctx.Nesting
import SteepSystem.Fastupctx.Lists
import SteepSystem.Fastupctx.Steps
import SteepSystem.Fastupctx.Run
import SteepSystem.Fastupctx.Messages
import SteepSystem.Lib.Programs
import SteepSystem.ExtBuffer.Cursor
import SteepSystem.ExtBuffer.Values
import SteepSystem.ExtBuffer.Pull
import SteepSystem.ExtBuffer.Structures
import SteepSystem.ExtBuffer.Calls
import SteepSystem.ExtBuffer.Push
import SteepSystem.ExtBuffer.Emission
import SteepSystem.ExtBuffer.Parses
import SteepSystem.ExtBuffer.Leaves
import SteepSystem.ExtBuffer.RoundTrip
import SteepSystem.ExtBuffer.Trees
import SteepSystem.ExtBuffer.Rows
import SteepSystem.ExtBuffer.Messages
import SteepSystem.ExtBuffer.TimeZones
import SteepSystem.ExtBuffer.ExtRules
import SteepSystem.ExtBuffer.Recurrence
import SteepSystem.Daemons.Dispatch
import SteepSystem.Daemons.LockerRun
import SteepSystem.Daemons.TimerRun
import SteepSystem.Ndr.RoundTrip
import SteepSystem.PduProcessor.Reply
import SteepSystem.PduProcessor.Run
import SteepSystem.Emsmdb.Wakeup
import SteepSystem.Emsmdb.Sessions
import SteepSystem.MailEngine.Run
import SteepSystem.MailEngine.NamesRun
import SteepSystem.Lzxpress.Accesses
import SteepSystem.Idsets.Deserialize
import SteepSystem.Streams.Pointers
import SteepSystem.MemFiles.Run
import SteepSystem.SimpleTrees.Run
import SteepSystem.Pcls.Cursor
import SteepSystem.Pcls.Serialize
import SteepSystem.Rtfcp.Bounds
import SteepSystem.Wildcards.Hierarchy
import SteepSystem.RopBuffers.Bounds
import SteepSystem.Streams.Lines
import SteepSystem.Streams.Copyline
import SteepSystem.PropVals.Coherent
import SteepSystem.Digests.Laws
import SteepSystem.Texts.Utf8Filter
import SteepSystem.Texts.Intervals
import SteepSystem.Texts.QuotedPrintable
import SteepSystem.Texts.Base64
import SteepSystem.Texts.Uuencode
import SteepSystem.Texts.Utf7
import SteepSystem.Texts.Uris
import SteepSystem.Imap.Squences
import SteepSystem.Imap.Folders
import SteepSystem.Imap.Arguments
import SteepSystem.Lib.Gregorian
import SteepSystem.Icals.Dates
import SteepSystem.Icals.DayNumbers
import SteepSystem.Icals.Weeks
import SteepSystem.Lib.Searches
import SteepSystem.Icals.Rrules
import SteepSystem.Icals.RruleSteps
import SteepSystem.Icals.RruleSearch
import SteepSystem.Icals.RrulePeriods
import SteepSystem.Icals.RruleCalls
import SteepSystem.Lib.Growable
import SteepSystem.Containers.Model
import SteepSystem.Containers.Run
import SteepSystem.MessageQueue.MaxId
import SteepSystem.Ndr.Calls
import SteepSystem.Messages.Dup
import SteepSystem.Messages.Values
import SteepSystem.Messages.Trees
import SteepSystem.Tnef.Propids
import SteepSystem.Lib.Rings
import SteepSystem.DoubleLists.Run
import SteepSystem.IntHash.Run
import SteepSystem.Smtp.Run
import SteepSystem.Smtp.Policies
import SteepSystem.Lib.Places
import SteepSystem.Scheduler.Model
import SteepSystem.Scheduler.Run
import SteepSystem.Lib.Feeds
import SteepSystem.Ftstreams.Parser
import SteepSystem.Ftstreams.Buffers
import SteepSystem.Ftstreams.Producer
import SteepSystem.Ftstreams.Points
import SteepSystem.Ftstreams.Pieces
import SteepSystem.Ftstreams.Readback
import SteepSystem.Ftstreams.RoundTrip
import SteepSystem.Ftstreams.Transfer
import SteepSystem.Pop3.Lines
import SteepSystem.Pop3.Login
import SteepSystem.Lib.Handover
import SteepSystem.MessageQueue.Model
import SteepSystem.MessageQueue.Run
