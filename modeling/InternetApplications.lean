import InternetApplications.Library.Memory
import InternetApplications.Library.TagScan
import InternetApplications.Library.Execution
import InternetApplications.Library.Failure
import InternetApplications.Library.KeyedList
import InternetApplications.Library.Cells
import InternetApplications.Library.OpenFile
import InternetApplications.Library.HeldInput
import InternetApplications.Library.OnesComplement
import InternetApplications.Library.ByteOrder
import InternetApplications.Dhcp.Packet
import InternetApplications.Dhcp.Options
import InternetApplications.Dhcp.Server
import InternetApplications.Dhcp.LeaseTable
import InternetApplications.Dhcp.Reply
import InternetApplications.Dhcp.ServerStep
import InternetApplications.Dhcp.ServerRuns
import InternetApplications.Dhcp.OptionScan
import InternetApplications.Dhcp.LeaseMap
import InternetApplications.Dhcp.LeasePool
import InternetApplications.Dhcp.LeaseSafety
import InternetApplications.Dhcp.ExclusiveGrant
import InternetApplications.Dhcp.Client
import InternetApplications.Dhcp.ClientPacket
import InternetApplications.Dhcp.ClientStep
import InternetApplications.Dhcp.ClientLease
import InternetApplications.Dhcp.ClientCommit
import InternetApplications.Dhcp.ServerAnswer
import InternetApplications.Dhcp.DiscoverExchange
import InternetApplications.Dhcp.RequestDecision
import InternetApplications.Dhcp.Commitment
import InternetApplications.Dhcp.Availability
import InternetApplications.Dhcp.CompleteReply
import InternetApplications.Dhcp.LeasePerClient
import InternetApplications.Dhcp.Reaction
import InternetApplications.Dhcp.Received
import InternetApplications.Dhcp.Leftovers
import InternetApplications.Dhcp.Residue
import InternetApplications.Dhcp.Independence
import InternetApplications.Dhcp.WireAgreement
import InternetApplications.Dhcp.Interleaving
import InternetApplications.Dhcp.ClientProcess
import InternetApplications.Dhcp.ProcessStep
import InternetApplications.Dhcp.AckInstalls
import InternetApplications.Dhcp.CrossTalk
import InternetApplications.Dhcp.SoleClient
import InternetApplications.Dhcp.LeaseClock
import InternetApplications.Dhcp.LeaseTraffic
import InternetApplications.Dhcp.LeaseAgreement
import InternetApplications.Dhcp.OptionCodec
import InternetApplications.Dhcp.FoundValues
import InternetApplications.Dhcp.FreshAddress
import InternetApplications.Dhcp.LeaseOptions
import InternetApplications.Dhcp.ReplyAddress
import InternetApplications.Dhcp.LeaseTimers
import InternetApplications.Dhcp.SetupInterface
import InternetApplications.Dhcp.Exclusion
import InternetApplications.Dhcp.Retransmission
import InternetApplications.Dhcp.LeaseHolder
import InternetApplications.Dhcp.Renewal
import InternetApplications.Dhcp.LinkSafety
import InternetApplications.Dhcp.LeaseBalance
import InternetApplications.Dhcp.Menu
import InternetApplications.Dhcp.ReachableTables
import InternetApplications.FileTransfer.Copy
import InternetApplications.FileTransfer.FileNames
import InternetApplications.FileTransfer.ServerLoop
import InternetApplications.FileTransfer.Session
import InternetApplications.Labs.Echo
import InternetApplications.Labs.Typewriter
import InternetApplications.Labs.Append
import InternetApplications.SimpleClient.Checksum
import InternetApplications.SimpleClient.Frame
import InternetApplications.SimpleClient.Input
import InternetApplications.SimpleClient.Exchange
