import VitaMTP.Database.Lookup
import VitaMTP.Database.Sizes
import VitaMTP.Database.Reachable
import VitaMTP.Database.Paths
import VitaMTP.Database.RenameExact
import VitaMTP.Database.Types
import VitaMTP.Library.Chain
import VitaMTP.Listing.Filter
import VitaMTP.Listing.Complete
import VitaMTP.Listing.Xml
import VitaMTP.Events.Browse
import VitaMTP.Wireless.Pairing
import VitaMTP.Wireless.Authorisation
import VitaMTP.Events.Operate
import VitaMTP.Database.Undo
import VitaMTP.Events.Requests
import VitaMTP.Events.Survival
import VitaMTP.Events.Send
import VitaMTP.Events.SendSubtree
import VitaMTP.Events.Receive
import VitaMTP.Events.Received
import VitaMTP.Events.ReceiveTree
import VitaMTP.Events.ReceiveFails
import VitaMTP.Events.Atomic
import VitaMTP.Events.Run
import VitaMTP.Events.Titles
import VitaMTP.Wireless.Conversation
import VitaMTP.Wireless.PinBinding
import VitaMTP.Wireless.Coherent
import VitaMTP.Library.Segments
import VitaMTP.Wireless.SockRead
import VitaMTP.Wireless.Framing
import VitaMTP.Wireless.Broadcast
import VitaMTP.Wireless.StopBroadcast
import VitaMTP.Wireless.Discovery
import VitaMTP.Refresh.Handlers
import VitaMTP.Refresh.Requests
import VitaMTP.Library.ChildSums
import VitaMTP.Database.Totals
import VitaMTP.Events.Totals
import VitaMTP.Library.Components
import VitaMTP.Database.Contained
import VitaMTP.Events.Containment
import VitaMTP.Library.Enumerates
import VitaMTP.Library.FileTree
import VitaMTP.Mirror.Places
import VitaMTP.Mirror.Calls
import VitaMTP.Mirror.Trees
import VitaMTP.Mirror.Scan
import VitaMTP.Mirror.Agreement
import VitaMTP.Database.RemoveEvents
import VitaMTP.Database.FiniteTree
import VitaMTP.Database.FreshScan
import VitaMTP.Library.LittleEndian
import VitaMTP.Events.SendPart
import VitaMTP.Events.SendWhole
import VitaMTP.Events.Uploads
import VitaMTP.Events.Http
import VitaMTP.Library.Cells
import VitaMTP.Settings.Accounts
import VitaMTP.Database.ScanComplete
import VitaMTP.Events.Payloads
import VitaMTP.Database.Kinds
import VitaMTP.Events.ReceiveDefined
import VitaMTP.Events.Kinds
import VitaMTP.Events.Replies
import VitaMTP.Events.Concluded
import VitaMTP.Events.Dispatch
import VitaMTP.Settings.Dispose
import VitaMTP.Events.DiskSpace
import VitaMTP.Wireless.SockWrite
import VitaMTP.Database.Climb
import VitaMTP.Events.Urls
import VitaMTP.Library.Tokens
import VitaMTP.Wireless.Headers
import VitaMTP.Wireless.Requests
import VitaMTP.Library.Calendar
import VitaMTP.Library.Decimal
import VitaMTP.Listing.Timestamp
import VitaMTP.Library.XmlTag
import VitaMTP.Listing.Initiator
import VitaMTP.Listing.Printed
import VitaMTP.Listing.Faithful
import VitaMTP.Library.Pieces
import VitaMTP.Library.Transfers
import VitaMTP.Transport.Container
import VitaMTP.Transport.PtpIp
import VitaMTP.Transport.PtpIpData
import VitaMTP.Transport.Transaction
import VitaMTP.Transport.PtpIpTransport
import VitaMTP.Transport.Session
import VitaMTP.Transport.PtpIpArrival
import VitaMTP.Transport.Connect
import VitaMTP.Transport.Usb
import VitaMTP.Transport.UsbWrite
import VitaMTP.Transport.UsbRead
import VitaMTP.Transport.EventStream
import VitaMTP.Transport.UsbSession
import VitaMTP.Transport.Treat
import VitaMTP.Transport.DeviceTree
import VitaMTP.Transport.TreatRequest
import VitaMTP.Transport.SendObject
import VitaMTP.Transport.UsbDevice
import VitaMTP.Transport.UsbEvents
import VitaMTP.Library.Dialogue
import VitaMTP.Transport.Remote
import VitaMTP.Transport.Dataset
import VitaMTP.Transport.Objects
