import Kcmsg.Library.ByteOrder
import Kcmsg.Library.Memory
import Kcmsg.Library.Fields
import Kcmsg.Library.Program
import Kcmsg.Library.While
import Kcmsg.Library.Terminated
import Kcmsg.Library.Numerals
import Kcmsg.Library.Modes
import Kcmsg.Library.Channel
import Kcmsg.Library.Blocking
import Kcmsg.Library.Parted
import Kcmsg.Library.Codes
import Kcmsg.Library.Blocks
import Kcmsg.Library.Handles
import Kcmsg.Library.Slots
import Kcmsg.Message.Basic
import Kcmsg.Message.Put
import Kcmsg.Message.Wire
import Kcmsg.Message.PutSpec
import Kcmsg.Message.Runs
import Kcmsg.Message.Length
import Kcmsg.Message.Layout
import Kcmsg.Message.AppendOnly
import Kcmsg.Message.HostOrder
import Kcmsg.Message.HeaderImage
import Kcmsg.Message.HeaderLayout
import Kcmsg.Message.Get
import Kcmsg.Message.Fifo
import Kcmsg.Message.Temporary
import Kcmsg.Message.GetString
import Kcmsg.Message.Calls
import Kcmsg.Message.ReadBack
import Kcmsg.Message.Stale
import Kcmsg.Message.LongValues
import Kcmsg.Message.Untrusted
import Kcmsg.Message.Object
import Kcmsg.Message.Print
import Kcmsg.Message.PrintRound
import Kcmsg.Message.PrintEnds
import Kcmsg.Message.PrintOrder
import Kcmsg.Message.PrintFlags
import Kcmsg.Message.Queue
import Kcmsg.Message.Letters
import Kcmsg.Message.Transcript
import Kcmsg.Message.Transport
import Kcmsg.Message.Instances
import Kcmsg.Connection.Basic
import Kcmsg.Connection.Transfer
import Kcmsg.Connection.Stream
import Kcmsg.Connection.Send
import Kcmsg.Connection.Receive
import Kcmsg.Connection.Overrun
import Kcmsg.Connection.Waiting
import Kcmsg.Connection.Exchange
import Kcmsg.Connection.Descriptor
import Kcmsg.Connection.Registers
import Kcmsg.Connection.Sockets
import Kcmsg.Connection.Clients
import Kcmsg.Configuration.Basic
import Kcmsg.Configuration.Document
import Kcmsg.Configuration.Load
import Kcmsg.Configuration.Paths
import Kcmsg.Configuration.Arrays
import Kcmsg.Configuration.Stacks
import Kcmsg.Configuration.Properties
import Kcmsg.Configuration.Lifetimes
import Kcmsg.Configuration.Ownership
import Kcmsg.Configuration.Objects
import Kcmsg.NetworkInterface.Basic
import Kcmsg.NetworkInterface.Classification
import Kcmsg.NetworkInterface.Process
