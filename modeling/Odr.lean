import Odr.Source.ProcessPack
import Odr.Source.Handled
import Odr.Source.Inet
import Odr.Source.TracedPack
import Odr.Local.GuardedLookups
import Odr.Local.Consulted
import Odr.Local.Commute
import Odr.Network.Staleness
import Odr.Network.WayBack
import Odr.Network.OriginHeaders
import Odr.Local.SendResults
import Odr.Local.ReturnCode
import Odr.Lib.DistanceVector
import Odr.Lib.Transition
import Odr.Network.Step
import Odr.Network.Invariants
import Odr.Network.Descent
import Odr.Network.Lab
import Odr.Network.LoopFreedom
import Odr.Network.ReplyDirection
import Odr.Network.DataDirection
import Odr.Network.ClientReply
import Odr.Network.Reflood
import Odr.Network.Origination
import Odr.Lib.Flooding
import Odr.Local.Socket
import Odr.Network.ColdStart
import Odr.Network.ColdStartStep
import Odr.Network.Discovery
import Odr.Network.ShortestRoutes
import Odr.Source.ClockedUpdate
import Odr.Table.Representation
import Odr.Table.RouteOrigin
import Odr.Table.Minimum
import Odr.Table.Siblings
import Odr.Network.Neighbours
import Odr.Lib.Exhaustion
import Odr.Network.Exhaustion
import Odr.Network.Exchange
import Odr.Network.ExchangeData
import Odr.Network.ExchangeRun
import Odr.Network.ExchangeEnd
import Odr.Network.Provenance
import Odr.Lib.Lockstep
import Odr.Network.Ghost
import Odr.Network.Relay
import Odr.Network.PathLength
import Odr.Network.ForcedDiscovery
import Odr.Network.Duplicates
import Odr.Lib.WalkBound
import Odr.Lib.Buffer
import Odr.Local.RawFrame
import Odr.Local.ReceiveBuffer
import Odr.Local.StaleBytes
import Odr.Local.OwnBytes
import Odr.Local.ArrayIndex
import Odr.Local.Identity
import Odr.Network.DataDistance
import Odr.Source.Client
import Odr.Local.Interfaces
import Odr.Local.HwAddrs
import Odr.Table.SecondPass
import Odr.Local.ServerName
import Odr.Lib.Ring
import Odr.Lib.Heap
import Odr.Source.KernelList
import Odr.Table.Memory
import Odr.Local.WireFormat
import Odr.Local.TimeReply
import Odr.Network.ByteLevel
import Odr.Network.World
import Odr.Network.Quiescence
import Odr.Network.CachedExchange
import Odr.Network.PavedWay
import Odr.Network.Session
