import NetworkProgramming.Transition
import NetworkProgramming.RingWindow
import NetworkProgramming.SlotTable
import NetworkProgramming.TransferCommon
import NetworkProgramming.TransferClient
import NetworkProgramming.TransferClientAcceptance
import NetworkProgramming.TransferClientBuffer
import NetworkProgramming.TransferServer
import NetworkProgramming.TransferSystem
import NetworkProgramming.TransferServerCursor
import NetworkProgramming.TransferDelivery
import NetworkProgramming.Addresses
import NetworkProgramming.ArpProcess
import NetworkProgramming.ArpCache
import NetworkProgramming.ArpSound
import NetworkProgramming.ArpReplies
import NetworkProgramming.ArpNetwork
import NetworkProgramming.OdrNode
import NetworkProgramming.Forwarding
import NetworkProgramming.OdrTable
import NetworkProgramming.OdrEmission
import NetworkProgramming.OdrNetwork
import NetworkProgramming.OdrRoutes
import NetworkProgramming.OdrLoopFree
import NetworkProgramming.OdrPayload
import NetworkProgramming.OdrReplies
import NetworkProgramming.OdrTraffic
import NetworkProgramming.Worklist
import NetworkProgramming.OdrQuiescence
import NetworkProgramming.TransferClientWindow
import NetworkProgramming.TransferServerWindow
import NetworkProgramming.OdrPending
import NetworkProgramming.OdrReturn
import NetworkProgramming.OdrHops
import NetworkProgramming.OdrSocket
import NetworkProgramming.OdrResponses
import NetworkProgramming.OdrRelay
import NetworkProgramming.OdrStale
import NetworkProgramming.OdrRouteAge
import NetworkProgramming.TransferCongestion
import NetworkProgramming.TransferRetransmission
import NetworkProgramming.TransferGiveUp
import NetworkProgramming.TransferBackoff
import NetworkProgramming.TransferAlarm
import NetworkProgramming.TransferSamples
import NetworkProgramming.ArpConnections
import NetworkProgramming.TourProcess
import NetworkProgramming.TourOrder
import NetworkProgramming.TransferReceiveAck
import NetworkProgramming.TransferUninitialised
import NetworkProgramming.OdrHistory
import NetworkProgramming.OdrBestRow
import NetworkProgramming.OdrFlood
import NetworkProgramming.OdrCapacity
import NetworkProgramming.ArpLookups
import NetworkProgramming.ArpCapacity
import NetworkProgramming.ArpLearning
import NetworkProgramming.ArpRoundTrip
import NetworkProgramming.CText
import NetworkProgramming.OdrServer
import NetworkProgramming.TourSession
import NetworkProgramming.TransferLocal
import NetworkProgramming.InternetChecksum
import NetworkProgramming.TourPing
import NetworkProgramming.TourEcho
import NetworkProgramming.OdrDiscovery
import NetworkProgramming.OdrAnswered
import NetworkProgramming.TransferLink
import NetworkProgramming.TransferLossless
import NetworkProgramming.ArpResolution
import NetworkProgramming.TourCompletion
import NetworkProgramming.TourEchoReply
import NetworkProgramming.TourPinger
import NetworkProgramming.TransferHandshake
import NetworkProgramming.TransferHandshakeOrder
import NetworkProgramming.OdrWire
import NetworkProgramming.EchoReadline
import NetworkProgramming.EchoServer
import NetworkProgramming.EchoClient
import NetworkProgramming.EchoSession
import NetworkProgramming.TourAddressing
