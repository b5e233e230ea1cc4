import Wschat.Machine
import Wschat.CppMessage
import Wschat.CppMoves
import Wschat.CppControl
import Wschat.CppLocks
import Wschat.CppSelfDeadlock
import Wschat.JsonText
import Wschat.CppOrigins
import Wschat.CppCauses
import Wschat.CppAuthenticity
import Wschat.CppPairing
import Wschat.CppStreams
import Wschat.RustMessage
import Wschat.RustServer
import Wschat.Segment
import Wschat.RustLog
import Wschat.GoServer
import Wschat.GoMoves
import Wschat.GoHandlers
import Wschat.GoSends
import Wschat.GoSound
import Wschat.GoDelivery
import Wschat.GoOrder
import Wschat.Cursor
import Wschat.PyMessage
import Wschat.PyServer
import Wschat.PyHandlers
import Wschat.PyBroadcast
import Wschat.PyExit
import Wschat.GoClosing
import Wschat.BadFrames
import Wschat.Decoders
import Wschat.PyConforms
import Wschat.RoomView
import Wschat.RustCodec
import Wschat.GoChats
import Wschat.CppWriteQueue
import Wschat.GoCalls
import Wschat.GoCallsLive
import Wschat.RustGreeting
import Wschat.CppReceive
import Wschat.WebOrder
import Wschat.WebParse
import Wschat.ServerListFresh
import Wschat.LoadStats
import Wschat.LoadEchoes
import Wschat.LoadProgress
import Wschat.CppSafety
import Wschat.CppProgress
import Wschat.CppFront
import Wschat.GoProgress
import Wschat.RustDrain
import Wschat.RustEcho
import Wschat.Interop
import Wschat.RustTester
import Wschat.PrintedTexts
import Wschat.WebSession
import Wschat.RustPage
import Wschat.ErrorsMenu
import Wschat.GoEcho
import Wschat.GoTester
import Wschat.PyDrain
import Wschat.RustRoom
import Wschat.RustRoomDrain
import Wschat.GoPages
