import EndlessPeak.Lib.Run
import EndlessPeak.Protocol.PacketStack
import EndlessPeak.Net.Framing
import EndlessPeak.Net.ReceiveBuffer
import EndlessPeak.Net.Codec
import EndlessPeak.Net.Limits
import EndlessPeak.Game.Tick
import EndlessPeak.Game.Containment
import EndlessPeak.Game.Ground
import EndlessPeak.Game.NullSafety
import EndlessPeak.Game.Observer
import EndlessPeak.Game.Introductions
import EndlessPeak.Game.Snapshot
import EndlessPeak.Game.Solo
import EndlessPeak.Game.Speed
import EndlessPeak.Game.Coverage
import EndlessPeak.Game.MapFile
import EndlessPeak.Game.FirstContact
import EndlessPeak.Game.Reach
import EndlessPeak.Game.Candidates
import EndlessPeak.Game.Velocity
import EndlessPeak.Game.FreeFall
import EndlessPeak.Game.Loop
import EndlessPeak.Game.Settling
import EndlessPeak.Net.TSQueue
import EndlessPeak.Net.Announce
import EndlessPeak.Net.Endpoint
import EndlessPeak.Net.Inbound
import EndlessPeak.Net.Teardown
import EndlessPeak.Net.Membership
import EndlessPeak.Net.Routing
import EndlessPeak.Net.SendQueue
import EndlessPeak.Net.SenderPool
import EndlessPeak.Net.Strand
import EndlessPeak.Net.Refinement
import EndlessPeak.Net.Replica
import EndlessPeak.Net.Locks
import EndlessPeak.Net.Races
import EndlessPeak.Net.Wire
import EndlessPeak.Net.Program
import EndlessPeak.Net.Calm
import EndlessPeak.Net.Drain
import EndlessPeak.Net.CatchUp
