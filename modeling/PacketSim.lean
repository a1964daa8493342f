import PacketSim.Lib.Heap
import PacketSim.Lib.Numbered
import PacketSim.Lib.Dict
import PacketSim.Lib.Double
import PacketSim.Lib.Dijkstra
import PacketSim.Graph.Forwarding
import PacketSim.Graph.Presets
import PacketSim.Engine.Definitions
import PacketSim.Lib.Except
import PacketSim.Engine.Control
import PacketSim.Engine.Network
import PacketSim.Engine.Refinement
import PacketSim.Engine.Configuration
import PacketSim.Engine.Placement
import PacketSim.Engine.History
import PacketSim.Engine.StopAndWait
import PacketSim.Engine.Ledger
import PacketSim.Engine.Agenda
import PacketSim.Engine.Totality
import PacketSim.Lib.Passage
import PacketSim.Engine.Flights
import PacketSim.Engine.Firewall
import PacketSim.Engine.Timing
import PacketSim.Engine.Timeouts
import PacketSim.Reliable.Integrity
import PacketSim.Forward.Tracing
import PacketSim.Forward.Budget
import PacketSim.Engine.Reconfiguration
import PacketSim.Reliable.Chunks
import PacketSim.Topology.Conservation
import PacketSim.Engine.Routing
import PacketSim.Engine.Blocking
import PacketSim.Engine.Recast
import PacketSim.Engine.Transparency
import PacketSim.Engine.Independence
import PacketSim.Engine.Ending
import PacketSim.Lib.Drain
import PacketSim.Engine.Draining
import PacketSim.Lib.Firsts
import PacketSim.Graph.Listing
import PacketSim.Lib.BoundedQueue
import PacketSim.Lib.Simulation
import PacketSim.Reliable.Sharing
import PacketSim.Lib.Deadlines
import PacketSim.Reliable.Answers
import PacketSim.Lib.Pacing
import PacketSim.Reliable.Steps
import PacketSim.Reliable.Window
import PacketSim.Reliable.FlowControl
import PacketSim.Reliable.Honesty
import PacketSim.Lib.Descent
import PacketSim.Topology.Delivery
import PacketSim.Topology.Latency
import PacketSim.Lib.Losses
import PacketSim.Engine.Datagrams
import PacketSim.Engine.Effects
import PacketSim.Engine.Lifecycle
import PacketSim.Engine.Liveness
import PacketSim.Engine.Packets
import PacketSim.Engine.Clean
import PacketSim.Engine.Clocks
import PacketSim.Engine.Service
import PacketSim.Display.Definitions
import PacketSim.Display.Drawing
import PacketSim.Display.Program
import PacketSim.Engine.Traffic
