import DHCPServer.Framework.Buffer
import DHCPServer.Framework.Fault
import DHCPServer.Framework.FirstMatch
import DHCPServer.Framework.Fitting
import DHCPServer.Framework.Loop
import DHCPServer.Framework.Transition
import DHCPServer.Framework.Text
import DHCPServer.Framework.Calendar
import DHCPServer.Framework.FileSystem
import DHCPServer.Framework.Json
import DHCPServer.Framework.Heap
import DHCPServer.Framework.Chain
import DHCPServer.Framework.JsonNode
import DHCPServer.Framework.JsonPath
import DHCPServer.Framework.JsonCompact
import DHCPServer.Framework.Getopt
import DHCPServer.Math.Bitmap
import DHCPServer.Math.Subnet
import DHCPServer.Packet.Option
import DHCPServer.Pool.AddressPool
import DHCPServer.Utils.Xtoy
import DHCPServer.Utils.Llist
import DHCPServer.Packet.OptionParse
import DHCPServer.Packet.Message
import DHCPServer.Packet.Receive
import DHCPServer.Packet.Codec
import DHCPServer.Pool.Allocator
import DHCPServer.Pool.Refinement
import DHCPServer.Pool.Overlap
import DHCPServer.Pool.Counter
import DHCPServer.Transaction.Timer
import DHCPServer.Transaction.Transaction
import DHCPServer.Transaction.Cache
import DHCPServer.Lease.Store
import DHCPServer.Lease.Load
import DHCPServer.Lease.File
import DHCPServer.Lease.FileLoad
import DHCPServer.Security.Acl
import DHCPServer.Security.AclFile
import DHCPServer.Security.DhcpSnoop
import DHCPServer.Database.Store
import DHCPServer.Server.State
import DHCPServer.Server.Messages
import DHCPServer.Server.Serve
import DHCPServer.Server.Effects
import DHCPServer.Server.Ticks
import DHCPServer.Server.Runs
import DHCPServer.Server.Startup
import DHCPServer.Server.Answers
import DHCPServer.Server.Handles
import DHCPServer.Server.CachedLists
import DHCPServer.Server.Config
import DHCPServer.Server.Arguments
import DHCPServer.Server.ConfigFile
import DHCPServer.Server.Delivery
import DHCPServer.Server.LeaseWrites
import DHCPServer.Server.DatabaseLog
import DHCPServer.Server.UnixServer
import DHCPServer.Gui.Database
import DHCPServer.Gui.Number
import DHCPServer.Gui.TabConfig
import DHCPServer.Gui.Inspect
import DHCPServer.Gui.Leases
import DHCPServer.Gui.Commands
import DHCPServer.Gui.TabCommand
import DHCPServer.Gui.Entries
import DHCPServer.Gui.Options
import DHCPServer.Gui.Sections
import DHCPServer.Gui.Document
import DHCPServer.Properties.Lookups
import DHCPServer.Properties.Isolation
import DHCPServer.Properties.LeaseOwner
import DHCPServer.Properties.LeasedAddresses
import DHCPServer.Properties.Acknowledgements
import DHCPServer.Properties.NoLostAddress
import DHCPServer.Properties.CacheHistory
import DHCPServer.Properties.Replies
import DHCPServer.Properties.CachedTypes
import DHCPServer.Properties.StableLists
import DHCPServer.Properties.SharedLists
import DHCPServer.Properties.GuiSettings
import DHCPServer.Properties.GuiServer
import DHCPServer.Properties.FailedDiscover
import DHCPServer.Properties.ParserBounds
import DHCPServer.Properties.Renewal
import DHCPServer.Properties.LeasePeriod
import DHCPServer.Properties.LeaseTimes
import DHCPServer.Properties.OfferedTimes
import DHCPServer.Properties.StartupLoad
import DHCPServer.Properties.ExpirySweep
import DHCPServer.Properties.Retransmission
import DHCPServer.Properties.InterfaceAddresses
import DHCPServer.Properties.PoolAdmission
import DHCPServer.Properties.AnyAddress
import DHCPServer.Properties.Consistency
import DHCPServer.Properties.OfferedAddress
import DHCPServer.Properties.OptionSelection
import DHCPServer.Properties.Refusals
import DHCPServer.Properties.SerialisedOptions
import DHCPServer.Properties.PoolEntries
import DHCPServer.Properties.DynamicAcl
import DHCPServer.Properties.AclEntries
import DHCPServer.Properties.AddressGrammar
import DHCPServer.Properties.TimerFirings
import DHCPServer.Properties.LongTransactions
import DHCPServer.Properties.PoolSet
import DHCPServer.Properties.PoolScans
import DHCPServer.Properties.MessageNames
import DHCPServer.Properties.ListIndexing
import DHCPServer.Gui.Applies
import DHCPServer.Properties.RepeatedApply
import DHCPServer.Properties.RogueScan
import DHCPServer.Properties.ConfigCommands
import DHCPServer.Properties.CommandExchange
import DHCPServer.Properties.PoolStatus
import DHCPServer.Properties.InspectLog
import DHCPServer.Properties.InspectPage
import DHCPServer.Properties.InspectOptions
import DHCPServer.Properties.LeasesTab
import DHCPServer.Properties.LeaseHistory
import DHCPServer.Properties.RestartedServer
import DHCPServer.Properties.SettingsPrecedence
import DHCPServer.Properties.StaticAcl
